import Lox.Files.Path
import Mathlib.Data.List.Induction
import Mathlib.Logic.Function.Iterate

/-!
# Clean paths

A clean path from the root is made of plain segments (`cleanSegments_ofSegments`).  Joining a name
to it adds a segment, and its directory part is what is left without the last segment, so going from
a directory to the one around it comes to the root and stays there (`directory_iterate`).
-/

namespace Lox.Path

/-! ## Segments -/

theorem segmentsOf_slash (cs : List Char) : segmentsOf ('/' :: cs) = [] :: segmentsOf cs := by
  rw [segmentsOf, if_pos rfl]

theorem segmentsOf_ne_nil (cs : List Char) : segmentsOf cs ≠ [] := by
  cases cs with
  | nil => exact List.cons_ne_nil _ _
  | cons c cs =>
    rw [segmentsOf]
    split
    · exact List.cons_ne_nil _ _
    · split <;> exact List.cons_ne_nil _ _

/-- A slash ends a segment, whatever stands on either side. -/
theorem segmentsOf_append_slash (cs ds : List Char) :
    segmentsOf (cs ++ '/' :: ds) = segmentsOf cs ++ segmentsOf ds := by
  induction cs with
  | nil => exact segmentsOf_slash ds
  | cons c cs ih =>
    rw [List.cons_append, segmentsOf, segmentsOf, ih]
    split
    · rfl
    · obtain ⟨segment, more, hsegments⟩ := List.exists_cons_of_ne_nil (segmentsOf_ne_nil cs)
      rw [hsegments]
      rfl

theorem segmentsOf_of_not_mem {cs : List Char} (h : '/' ∉ cs) : segmentsOf cs = [cs] := by
  induction cs with
  | nil => rfl
  | cons c cs ih =>
    obtain ⟨hc, hcs⟩ := not_or.mp (mt List.mem_cons.mpr h)
    rw [segmentsOf, if_neg (Ne.symm hc), ih hcs]

theorem not_mem_of_mem_segmentsOf {cs segment : List Char} (h : segment ∈ segmentsOf cs) :
    '/' ∉ segment := by
  induction cs generalizing segment with
  | nil =>
    obtain rfl := List.mem_singleton.mp h
    exact List.not_mem_nil
  | cons c cs ih =>
    obtain ⟨first, more, hsegments⟩ := List.exists_cons_of_ne_nil (segmentsOf_ne_nil cs)
    rw [segmentsOf, hsegments] at h
    rw [hsegments] at ih
    split at h
    · obtain rfl | h := List.mem_cons.mp h
      · exact List.not_mem_nil
      · exact ih h
    · rename_i hc
      obtain rfl | h := List.mem_cons.mp h
      · exact List.not_mem_cons_of_ne_of_not_mem (Ne.symm hc) (ih (List.mem_cons_self ..))
      · exact ih (List.mem_cons_of_mem _ h)

/-- A segment that stands for itself in a clean path. -/
structure Plain (segment : String) : Prop where
  not_mem : '/' ∉ segment.toList
  ne_empty : segment ≠ ""
  ne_dot : segment ≠ "."
  ne_dots : segment ≠ ".."

theorem push_plain {segment : String} (h : Plain segment) (rooted : Bool) (before : List String) :
    push rooted before segment = segment :: before := by
  unfold push
  rw [if_neg (not_or.mpr ⟨h.ne_empty, h.ne_dot⟩), if_neg h.ne_dots]

theorem foldl_push_plain {parts : List String} (h : ∀ s ∈ parts, Plain s) (rooted : Bool)
    (before : List String) : parts.foldl (push rooted) before = parts.reverse ++ before := by
  induction parts generalizing before with
  | nil => rfl
  | cons s parts ih =>
    obtain ⟨hs, hparts⟩ := List.forall_mem_cons.mp h
    rw [List.foldl_cons, push_plain hs, ih hparts, List.reverse_cons, List.append_assoc]
    rfl

/-- From the root on, only plain segments are left. -/
theorem plain_push {before : List String} {segment : String} (hbefore : ∀ s ∈ before, Plain s)
    (h : '/' ∉ segment.toList) : ∀ s ∈ push true before segment, Plain s := by
  unfold push
  split
  · exact hbefore
  · rename_i hkept
    obtain ⟨hempty, hdot⟩ := not_or.mp hkept
    split
    · split
      · exact List.forall_mem_nil _
      · obtain ⟨hlast, hrest⟩ := List.forall_mem_cons.mp hbefore
        rw [if_neg hlast.ne_dots]
        exact hrest
    · rename_i hdots
      exact List.forall_mem_cons.mpr ⟨⟨h, hempty, hdot, hdots⟩, hbefore⟩

theorem plain_foldl_push {parts before : List String} (hbefore : ∀ s ∈ before, Plain s)
    (h : ∀ s ∈ parts, '/' ∉ s.toList) : ∀ s ∈ parts.foldl (push true) before, Plain s := by
  induction parts generalizing before with
  | nil => exact hbefore
  | cons s parts ih =>
    obtain ⟨hs, hparts⟩ := List.forall_mem_cons.mp h
    exact ih (plain_push hbefore hs) hparts

theorem plain_cleanSegments {path : String} (h : isAbsolute path = true) :
    ∀ s ∈ cleanSegments path, Plain s := by
  intro s hs
  rw [cleanSegments, h, List.mem_reverse] at hs
  refine plain_foldl_push (List.forall_mem_nil _) (fun s hs => ?_) s hs
  obtain ⟨cs, hcs, rfl⟩ := List.mem_map.mp hs
  rw [String.toList_ofList]
  exact not_mem_of_mem_segmentsOf hcs

/-! ## Clean paths from the root -/

theorem clean_of_isAbsolute {path : String} (h : isAbsolute path = true) :
    clean path = ofSegments true (cleanSegments path) := by
  rw [clean, h]

theorem isAbsolute_ofSegments (parts : List String) :
    isAbsolute (ofSegments true parts) = true := by
  rw [isAbsolute, ofSegments, if_pos rfl, String.toList_append]
  rfl

/-- The characters of segments, with a slash in front of each. -/
def chars (parts : List String) : List Char := parts.flatMap fun s => '/' :: s.toList

theorem chars_concat (parts : List String) (segment : String) :
    chars (parts ++ [segment]) = chars parts ++ '/' :: segment.toList := by
  rw [chars, List.flatMap_append, List.flatMap_singleton]
  rfl

theorem toList_ofSegments_cons (segment : String) (parts : List String) :
    (ofSegments true (segment :: parts)).toList = chars (segment :: parts) := by
  have hbody : ∀ segment : String, "/".toList.intercalate ((segment :: parts).map String.toList) =
      segment.toList ++ chars parts := by
    induction parts with
    | nil => intro segment; simp [chars]
    | cons next parts ih =>
      intro segment
      have hnext := ih next
      simp only [List.map_cons, List.intercalate_cons_cons] at hnext ⊢
      rw [hnext, List.append_assoc]
      rfl
  rw [ofSegments, if_pos rfl, String.toList_append, String.toList_intercalate, hbody]
  rfl

theorem toList_concat (parts : List String) (segment : String) :
    (ofSegments true (parts ++ [segment])).toList = chars parts ++ '/' :: segment.toList := by
  obtain ⟨first, rest, hcons⟩ := List.exists_cons_of_ne_nil
    (List.append_ne_nil_of_right_ne_nil parts (List.cons_ne_nil segment []))
  rw [← chars_concat, hcons, toList_ofSegments_cons]

theorem isAbsolute_of_toList {path : String} {parts : List String} {ds : List Char}
    (h : path.toList = chars parts ++ '/' :: ds) : isAbsolute path = true := by
  rw [isAbsolute, h]
  cases parts <;> rfl

theorem ofSegments_ne_empty (parts : List String) : ofSegments true parts ≠ "" := by
  intro hempty
  have habsolute := isAbsolute_ofSegments parts
  rw [hempty] at habsolute
  exact absurd habsolute (by decide)

section Plain

variable {parts : List String} (hparts : ∀ s ∈ parts, Plain s)

include hparts

theorem segmentsOf_chars : segmentsOf (chars parts) = [] :: parts.map String.toList := by
  induction parts using List.reverseRecOn with
  | nil => rfl
  | append_singleton parts segment ih =>
    obtain ⟨hfront, hlast⟩ := List.forall_mem_append.mp hparts
    have hsegment := hlast segment (List.mem_singleton_self segment)
    rw [chars_concat, segmentsOf_append_slash, ih hfront, segmentsOf_of_not_mem hsegment.not_mem,
      List.map_append]
    rfl

/-- What is left of plain segments with text behind them. -/
theorem cleanSegments_of_toList {path : String} {ds : List Char}
    (h : path.toList = chars parts ++ '/' :: ds) :
    cleanSegments path =
      (((segmentsOf ds).map String.ofList).foldl (push true) parts.reverse).reverse := by
  have hback : (parts.map String.toList).map String.ofList = parts := by
    rw [List.map_map]
    exact List.map_id'' (fun _ => String.ofList_toList) parts
  have hfirst : push true [] (String.ofList []) = [] := rfl
  rw [cleanSegments, isAbsolute_of_toList h, segments, h, segmentsOf_append_slash,
    segmentsOf_chars hparts, List.map_append, List.foldl_append, List.map_cons, hback,
    List.foldl_cons, hfirst, foldl_push_plain hparts, List.append_nil]

theorem cleanSegments_of_toList_plain {path segment : String} (hsegment : Plain segment)
    (h : path.toList = chars parts ++ '/' :: segment.toList) :
    cleanSegments path = parts ++ [segment] := by
  rw [cleanSegments_of_toList hparts h, segmentsOf_of_not_mem hsegment.not_mem]
  simp only [List.map_cons, List.map_nil, List.foldl_cons, List.foldl_nil, String.ofList_toList,
    push_plain hsegment, List.reverse_cons, List.reverse_reverse]

/-- The directory part of a clean path is what is left without its last segment. -/
theorem directory_concat {segment : String} (h : Plain segment) :
    directory (ofSegments true (parts ++ [segment])) = ofSegments true parts := by
  have hsegment : ∀ c ∈ segment.toList.reverse, (c != '/') = true := by
    intro c hc
    refine bne_iff_ne.mpr ?_
    rintro rfl
    exact h.not_mem (List.mem_reverse.mp hc)
  have hdrop : ((chars parts ++ '/' :: segment.toList).reverse.dropWhile (· != '/')).reverse =
      chars parts ++ ['/'] := by
    rw [List.reverse_append, List.reverse_cons, List.append_assoc,
      List.dropWhile_append_of_pos hsegment, List.singleton_append,
      List.dropWhile_cons_of_neg (by decide), List.reverse_cons, List.reverse_reverse]
  have hlist : (String.ofList (chars parts ++ ['/'])).toList = chars parts ++ '/' :: [] :=
    String.toList_ofList
  rw [directory, toList_concat, hdrop, clean_of_isAbsolute (isAbsolute_of_toList hlist),
    cleanSegments_of_toList hparts hlist]
  exact congrArg (ofSegments true) (List.reverse_reverse parts)

/-- A name joined to a clean path is one segment more. -/
theorem join_ofSegments {segment : String} (h : Plain segment) :
    join (ofSegments true parts) segment = ofSegments true (parts ++ [segment]) := by
  have hleft : (ofSegments true parts).isEmpty = false :=
    Bool.eq_false_iff.mpr fun hempty => ofSegments_ne_empty parts (String.isEmpty_iff.mp hempty)
  have hright : segment.isEmpty = false :=
    Bool.eq_false_iff.mpr fun hempty => h.ne_empty (String.isEmpty_iff.mp hempty)
  have hjoin : join (ofSegments true parts) segment =
      clean (ofSegments true parts ++ "/" ++ segment) := by
    simp only [join, hleft, hright, Bool.and_self, Bool.false_eq_true, if_false]
  have hlist : (ofSegments true parts ++ "/" ++ segment).toList =
      (ofSegments true parts).toList ++ '/' :: segment.toList := by
    rw [String.toList_append, String.toList_append, List.append_assoc]
    rfl
  cases parts with
  | nil =>
    -- The root ends with a slash, so here there are two.
    have habsolute : isAbsolute (ofSegments true [] ++ "/" ++ segment) = true := by
      rw [isAbsolute, hlist]
      rfl
    have hnothing : push true [] (String.ofList []) = [] := rfl
    have hroot : (ofSegments true []).toList = ['/'] := rfl
    rw [hjoin, clean_of_isAbsolute habsolute, cleanSegments, habsolute, segments, hlist, hroot,
      List.singleton_append, segmentsOf_slash, segmentsOf_slash, segmentsOf_of_not_mem h.not_mem]
    simp only [List.map_cons, List.map_nil, List.foldl_cons, List.foldl_nil, hnothing,
      String.ofList_toList, push_plain h, List.reverse_singleton, List.nil_append]
  | cons first rest =>
    rw [toList_ofSegments_cons] at hlist
    rw [hjoin, clean_of_isAbsolute (isAbsolute_of_toList hlist),
      cleanSegments_of_toList_plain hparts h hlist]

end Plain

/-- A clean path has the segments that it is made of. -/
theorem cleanSegments_ofSegments {parts : List String} (hparts : ∀ s ∈ parts, Plain s) :
    cleanSegments (ofSegments true parts) = parts := by
  cases parts using List.reverseRecOn with
  | nil => rfl
  | append_singleton parts segment =>
    obtain ⟨hfront, hlast⟩ := List.forall_mem_append.mp hparts
    have hsegment := hlast segment (List.mem_singleton_self segment)
    exact cleanSegments_of_toList_plain hfront hsegment (toList_concat parts segment)

theorem clean_ofSegments {parts : List String} (hparts : ∀ s ∈ parts, Plain s) :
    clean (ofSegments true parts) = ofSegments true parts := by
  rw [clean_of_isAbsolute (isAbsolute_ofSegments parts), cleanSegments_ofSegments hparts]

theorem ofSegments_injective {parts parts' : List String} (hparts : ∀ s ∈ parts, Plain s)
    (hparts' : ∀ s ∈ parts', Plain s) (h : ofSegments true parts = ofSegments true parts') :
    parts = parts' := by
  have hsegments := congrArg cleanSegments h
  rwa [cleanSegments_ofSegments hparts, cleanSegments_ofSegments hparts'] at hsegments

/-- An absolute path is clean. -/
theorem exists_absolute_eq {here : String} (h : isAbsolute here = true) (path : String) :
    ∃ parts, (∀ s ∈ parts, Plain s) ∧ absolute here path = ofSegments true parts := by
  have hclean {path : String} (h : isAbsolute path = true) :
      ∃ parts, (∀ s ∈ parts, Plain s) ∧ clean path = ofSegments true parts :=
    ⟨_, plain_cleanSegments h, clean_of_isAbsolute h⟩
  rw [absolute]
  split
  · exact hclean ‹_›
  · have hhere : here.isEmpty = false := by
      refine Bool.eq_false_iff.mpr fun hempty => ?_
      rw [String.isEmpty_iff.mp hempty] at h
      exact absurd h (by decide)
    have hjoined : isAbsolute (here ++ "/" ++ path) = true := by
      obtain ⟨rest, hrest⟩ := List.head?_eq_some_iff.mp (of_decide_eq_true h)
      rw [isAbsolute, String.append_assoc, String.toList_append, hrest]
      rfl
    rw [join, hhere]
    simp only [Bool.false_and, Bool.false_eq_true, if_false]
    split
    · exact hclean h
    · exact hclean hjoined

/-! ## The way up -/

section Up

variable {parts : List String} (hparts : ∀ s ∈ parts, Plain s)

include hparts

/-- One step up takes the last segment away, and at the root it leads nowhere. -/
theorem directory_ofSegments :
    directory (ofSegments true parts) = ofSegments true parts.dropLast := by
  cases parts using List.reverseRecOn with
  | nil => rfl
  | append_singleton parts segment =>
    obtain ⟨hfront, hlast⟩ := List.forall_mem_append.mp hparts
    rw [directory_concat hfront (hlast segment (List.mem_singleton_self segment)),
      List.dropLast_concat]

theorem directory_iterate (k : Nat) :
    directory^[k] (ofSegments true parts) = ofSegments true (parts.take (parts.length - k)) := by
  induction k generalizing parts with
  | zero => rw [Function.iterate_zero_apply, Nat.sub_zero, List.take_length]
  | succ k ih =>
    have hdrop : ∀ s ∈ parts.dropLast, Plain s := fun s hs =>
      hparts s ((List.dropLast_sublist parts).subset hs)
    rw [Function.iterate_succ_apply, directory_ofSegments hparts, ih hdrop, List.length_dropLast,
      List.dropLast_eq_take, List.take_take, Nat.min_eq_left (by omega), Nat.sub_sub,
      Nat.add_comm 1 k]

/-- The way up ends at the root. -/
theorem directory_iterate_eq_self_iff (k : Nat) :
    directory (directory^[k] (ofSegments true parts)) = directory^[k] (ofSegments true parts) ↔
      parts.length ≤ k := by
  have hplain (n : Nat) : ∀ s ∈ parts.take n, Plain s := fun s hs =>
    hparts s (List.mem_of_mem_take hs)
  rw [← Function.iterate_succ_apply' directory, directory_iterate hparts, directory_iterate hparts]
  constructor
  · intro h
    have hlength := congrArg List.length (ofSegments_injective (hplain _) (hplain _) h)
    rw [List.length_take, List.length_take] at hlength
    omega
  · intro h
    rw [Nat.sub_eq_zero_of_le h, Nat.sub_eq_zero_of_le (Nat.le_succ_of_le h)]

/-- The directories around a clean path are met on the way up from it. -/
theorem ancestors_ofSegments :
    ancestors (ofSegments true parts) =
      (List.range (parts.length + 1)).map fun k => directory^[k] (ofSegments true parts) := by
  rw [ancestors, cleanSegments_ofSegments hparts, shorter]
  refine List.ext_getElem (by simp) fun k hk hk' => ?_
  simp only [List.getElem_map, List.getElem_reverse, List.getElem_range, List.length_range,
    directory_iterate hparts, Nat.add_sub_cancel]

end Up

end Lox.Path
