import Lox.Proofs.Shell.Arguments
import Mathlib.Logic.ExistsUnique

/-!
# Parts of arguments

Arguments fall into parts: the flag with its path, in either spelling, or an argument that is kept
(`Arguments.Part`).  Where a part ends can be seen at its first argument, so there is at most one
way to cut a list of them.  The flags can be taken out exactly if there is one, and then the parts
say what is left, that nothing more is to be taken out of it, and what comes of the arguments in
front of others (`Arguments.extract_eq_ok_iff`).
-/

namespace Lox.Shell.Arguments

/-! ## Flags -/

/-- The argument is the flag, on its own or with a path. -/
def IsFlag (arg : String) : Prop :=
  arg = configFlag ∨ (configFlag ++ "=").toList <+: arg.toList

instance (arg : String) : Decidable (IsFlag arg) := inferInstanceAs (Decidable (_ ∨ _))

/-- There is a flag among the arguments.  Where the flag is the path of another one, that one is
among them as well. -/
def HoldsFlag (args : List String) : Prop := ∃ arg ∈ args, IsFlag arg

instance (args : List String) : Decidable (HoldsFlag args) :=
  inferInstanceAs (Decidable (∃ arg ∈ args, IsFlag arg))

theorem isFlag_configFlag : IsFlag configFlag := .inl rfl

theorem isFlag_append (path : String) : IsFlag (configFlag ++ "=" ++ path) := by
  refine .inr ?_
  rw [String.toList_append (s := configFlag ++ "=")]
  exact List.prefix_append _ _

theorem joined?_eq_none_iff {arg : String} :
    joined? arg = none ↔ ¬(configFlag ++ "=").toList <+: arg.toList := by
  rw [joined?, ← List.isPrefixOf_iff_prefix]
  exact ite_eq_right_iff.trans (imp_congr_right fun _ => iff_of_false (Option.some_ne_none _) id)

theorem eq_append_of_joined? {arg path : String} (h : joined? arg = some path) :
    arg = configFlag ++ "=" ++ path := by
  obtain ⟨hstart, hpath⟩ := Option.ite_none_right_eq_some.mp h
  have hlist := List.prefix_iff_eq_append.mp (List.isPrefixOf_iff_prefix.mp hstart)
  rw [← String.toList_inj, String.toList_append, ← Option.some.inj hpath, String.toList_ofList]
  exact hlist.symm

/-! ## Parts -/

/-- A part of arguments: one that is kept, or the flag with its path in one of the two spellings.  A
path of its own can be any argument, also one that looks like a flag. -/
inductive Part where
  | plain (arg : String) (not_isFlag : ¬IsFlag arg)
  | separate (path : String)
  | inOne (path : String) (ne_empty : path ≠ "")

namespace Part

/-- The arguments that the part is made of. -/
def words : Part → List String
  | plain arg _ => [arg]
  | separate path => Arguments.separate path
  | inOne path _ => Arguments.inOne path

/-- The argument that is kept. -/
def arg? : Part → Option String
  | plain arg _ => some arg
  | separate _ | inOne _ _ => none

/-- The path that comes with the flag. -/
def path? : Part → Option String
  | plain _ _ => none
  | separate path | inOne path _ => some path

theorem not_isFlag_of_arg? {p : Part} {arg : String} (h : p.arg? = some arg) : ¬IsFlag arg := by
  cases p with
  | plain other hother =>
    obtain rfl := Option.some.inj h
    exact hother
  | separate | inOne => cases h

theorem not_isFlag_of_path? {p : Part} (h : p.path? = none) : ∀ arg ∈ p.words, ¬IsFlag arg := by
  cases p with
  | plain other hother =>
    intro arg harg
    obtain rfl := List.mem_singleton.mp harg
    exact hother
  | separate | inOne => cases h

/-- The first argument tells what part it begins. -/
theorem words_append_inj {p q : Part} {rest others : List String}
    (h : p.words ++ rest = q.words ++ others) : p = q ∧ rest = others := by
  match p, q, h with
  | plain arg _, plain _ _, h =>
    obtain ⟨rfl, hrest⟩ := List.cons.inj h
    exact ⟨rfl, hrest⟩
  | separate path, separate _, h =>
    obtain ⟨rfl, hrest⟩ := List.cons.inj (List.cons.inj h).2
    exact ⟨rfl, hrest⟩
  | inOne path _, inOne other _, h =>
    obtain ⟨hhead, hrest⟩ := List.cons.inj h
    have hjoined := congrArg joined? hhead
    rw [joined?_append, joined?_append] at hjoined
    obtain rfl := Option.some.inj hjoined
    exact ⟨rfl, hrest⟩
  -- Parts of different kinds do not begin with the same argument.
  | plain _ harg, separate _, h => exact absurd ((List.cons.inj h).1 ▸ isFlag_configFlag) harg
  | separate _, plain _ harg, h => exact absurd ((List.cons.inj h).1 ▸ isFlag_configFlag) harg
  | plain _ harg, inOne path _, h => exact absurd ((List.cons.inj h).1 ▸ isFlag_append path) harg
  | inOne path _, plain _ harg, h => exact absurd ((List.cons.inj h).1 ▸ isFlag_append path) harg
  | separate _, inOne path _, h => exact absurd (List.cons.inj h).1.symm (append_ne_flag path)
  | inOne path _, separate _, h => exact absurd (List.cons.inj h).1 (append_ne_flag path)

end Part

/-- The arguments that the parts make one after the other. -/
def written (parts : List Part) : List String := parts.flatMap Part.words

/-- What the parts say: the path of the last flag, and the arguments that are kept. -/
def gathered (parts : List Part) : Arguments :=
  ⟨(parts.filterMap Part.path?).getLast?, parts.filterMap Part.arg?⟩

theorem written_injective {parts others : List Part} (h : written parts = written others) :
    parts = others := by
  have hne (p : Part) (rest : List String) : p.words ++ rest ≠ [] := by cases p <;> nofun
  induction parts generalizing others with
  | nil =>
    cases others with
    | nil => rfl
    | cons q others => exact absurd h.symm (hne q _)
  | cons p parts ih =>
    cases others with
    | nil => exact absurd h (hne p _)
    | cons q others =>
      obtain ⟨rfl, hrest⟩ := Part.words_append_inj h
      rw [ih hrest]

theorem gathered_append (parts others : List Part) :
    gathered (parts ++ others) = gathered parts ++ gathered others := by
  simp only [gathered, append_def, List.filterMap_append, List.getLast?_append,
    Option.orElse_eq_orElse, Option.orElse_eq_or]

/-! ## What parts come to -/

theorem Part.extract_words (p : Part) : extract p.words = .ok (gathered [p]) := by
  cases p with
  | plain arg harg =>
    obtain ⟨hne, hjoined⟩ := not_or.mp harg
    show extract [arg] = _
    rw [extract_cons hne, alone, joined?_eq_none_iff.mpr hjoined]
    rfl
  | separate path => exact extract_separate path
  | inOne path hne =>
    show extract (Arguments.inOne path ++ []) = _
    rw [extract_inOne, if_neg hne]
    rfl

theorem extract_written (parts : List Part) : extract (written parts) = .ok (gathered parts) := by
  induction parts with
  | nil => rfl
  | cons p parts ih =>
    show extract (p.words ++ written parts) = _
    rw [extract_append p.extract_words, ih, Except.map, ← gathered_append, List.singleton_append]

/-- An argument that is not the flag on its own is a part, unless it is the flag with no path. -/
theorem exists_words_or_error {arg : String} (h : arg ≠ configFlag) :
    (∃ p : Part, p.words = [arg]) ∨ alone arg = .error .missingConfigPath := by
  rw [alone]
  cases hjoined : joined? arg with
  | none => exact .inl ⟨.plain arg (not_or.mpr ⟨h, joined?_eq_none_iff.mp hjoined⟩), rfl⟩
  | some path =>
    by_cases hpath : path = ""
    · exact .inr (if_pos (String.isEmpty_iff.mpr hpath))
    · exact .inl ⟨.inOne path hpath, congrArg ([·]) (eq_append_of_joined? hjoined).symm⟩

/-- Arguments are made of parts, or a path is missing. -/
theorem exists_written_or_error (args : List String) :
    (∃ parts, written parts = args) ∨ extract args = .error .missingConfigPath := by
  -- With a part in front, it is the same case.
  have hstep (p : Part) {rest : List String}
      (h : (∃ parts, written parts = rest) ∨ extract rest = .error .missingConfigPath) :
      (∃ parts, written parts = p.words ++ rest) ∨
        extract (p.words ++ rest) = .error .missingConfigPath := by
    obtain ⟨parts, rfl⟩ | herror := h
    · exact .inl ⟨p :: parts, rfl⟩
    · rw [extract_append p.extract_words, herror]
      exact .inr rfl
  induction args using induction with
  | nil => exact .inl ⟨[], rfl⟩
  | flagAlone => exact .inr rfl
  | flag path rest ih => exact hstep (.separate path) ih
  | cons arg rest harg ih =>
    obtain ⟨p, hp⟩ | herror := exists_words_or_error harg
    · have hcons := hstep p ih
      rwa [hp] at hcons
    · rw [extract_cons harg, herror]
      exact .inr rfl

theorem exists_written {args : List String} {a : Arguments} (h : extract args = .ok a) :
    ∃ parts, written parts = args ∧ gathered parts = a := by
  obtain ⟨parts, rfl⟩ | herror := exists_written_or_error args
  · rw [extract_written] at h
    exact ⟨parts, rfl, Except.ok.inj h⟩
  · rw [herror] at h
    cases h

/-! ## What is left -/

theorem extract_of_not_holdsFlag {args : List String} (h : ¬HoldsFlag args) :
    extract args = .ok ⟨none, args⟩ := by
  induction args with
  | nil => rfl
  | cons arg rest ih =>
    have harg : ¬IsFlag arg := fun hflag => h ⟨arg, List.mem_cons_self, hflag⟩
    have hrest : ¬HoldsFlag rest := fun ⟨other, hmem, hflag⟩ =>
      h ⟨other, List.mem_cons_of_mem arg hmem, hflag⟩
    show extract ((Part.plain arg harg).words ++ rest) = _
    rw [extract_append (Part.extract_words _), ih hrest]
    rfl

theorem not_holdsFlag_rest {args : List String} {a : Arguments} (h : extract args = .ok a) :
    ¬HoldsFlag a.rest := by
  obtain ⟨parts, -, rfl⟩ := exists_written h
  rintro ⟨arg, harg, hflag⟩
  obtain ⟨p, -, hp⟩ := List.mem_filterMap.mp harg
  exact Part.not_isFlag_of_arg? hp hflag

/-- If there is a flag, there is a path. -/
theorem holdsFlag_iff {args : List String} {a : Arguments} (h : extract args = .ok a) :
    HoldsFlag args ↔ a.config?.isSome = true := by
  constructor
  · rintro ⟨arg, harg, hflag⟩
    obtain ⟨parts, rfl, rfl⟩ := exists_written h
    obtain ⟨p, hp, hword⟩ := List.mem_flatMap.mp harg
    refine Option.isSome_iff_ne_none.mpr fun hnone => ?_
    have hpath := List.filterMap_eq_nil_iff.mp (List.getLast?_eq_none_iff.mp hnone) p hp
    exact Part.not_isFlag_of_path? hpath arg hword hflag
  · intro hconfig
    refine Decidable.byContradiction fun hno => ?_
    rw [extract_of_not_holdsFlag hno] at h
    obtain rfl := Except.ok.inj h
    cases hconfig

/-- Of two lists of arguments, the path of the second one counts if there is a flag in it. -/
theorem append_eq_ite {behind : List String} {b : Arguments} (h : extract behind = .ok b)
    (a : Arguments) :
    a ++ b = ⟨if HoldsFlag behind then b.config? else a.config?, a.rest ++ b.rest⟩ := by
  rw [append_def, Option.orElse_eq_orElse, Option.orElse_eq_or]
  split
  case isTrue hflag => rw [Option.or_of_isSome ((holdsFlag_iff h).mp hflag)]
  case isFalse hno =>
    rw [Option.not_isSome_iff_eq_none.mp (mt (holdsFlag_iff h).mpr hno), Option.none_or]

/-! ## Taking the flags out -/

/-- The flags are taken out of the arguments, and `a` is what comes of it. -/
structure TakenOut (args : List String) (a : Arguments) : Prop where
  /-- The arguments can be cut into parts in one way only. -/
  cut : ∃! parts, written parts = args
  /-- What is left are the arguments that are no part of a flag, in their order. -/
  rest_eq : ∀ parts, written parts = args → a.rest = parts.filterMap Part.arg?
  /-- The path is that of the last flag; without one there is none, and `config` is empty. -/
  config?_eq : ∀ parts, written parts = args → a.config? = (parts.filterMap Part.path?).getLast?
  /-- No flag is left. -/
  not_holdsFlag_rest : ¬HoldsFlag a.rest
  /-- Nothing more can be taken out of what is left. -/
  extract_rest : extract a.rest = .ok ⟨none, a.rest⟩
  /-- Behind the arguments, others can be taken as on their own; what is left of them stands behind
  what is left here, and their path counts if there is a flag among them. -/
  extract_append : ∀ behind, extract (args ++ behind) = (extract behind).map fun b =>
    ⟨if HoldsFlag behind then b.config? else a.config?, a.rest ++ b.rest⟩

/-- The flags can be taken out of arguments exactly if these can be cut into parts, and what is left
is what the parts say.  Doing it again changes nothing, and further arguments are taken on their
own. -/
theorem extract_eq_ok_iff {args : List String} {a : Arguments} :
    extract args = .ok a ↔ TakenOut args a := by
  constructor
  · intro h
    have hparts (parts : List Part) (hwritten : written parts = args) : a = gathered parts := by
      rw [← hwritten, extract_written] at h
      exact (Except.ok.inj h).symm
    have hleft := Arguments.not_holdsFlag_rest h
    constructor
    case cut =>
      obtain ⟨parts, hwritten, -⟩ := exists_written h
      exact ⟨parts, hwritten, fun _ hothers => written_injective (hothers.trans hwritten.symm)⟩
    case rest_eq => exact fun parts hwritten => congrArg rest (hparts parts hwritten)
    case config?_eq => exact fun parts hwritten => congrArg config? (hparts parts hwritten)
    case not_holdsFlag_rest => exact hleft
    case extract_rest => exact extract_of_not_holdsFlag hleft
    case extract_append =>
      intro behind
      rw [Arguments.extract_append h]
      cases hbehind : extract behind with
      | error e => rfl
      | ok b => exact congrArg Except.ok (append_eq_ite hbehind a)
  · rintro ⟨⟨parts, hwritten, -⟩, hrest, hconfig, -, -, -⟩
    have ha : a = gathered parts := by
      rw [gathered, ← hconfig parts hwritten, ← hrest parts hwritten]
    rw [← hwritten, extract_written, ha]

/-- A path that looks like a flag, in front of a flag with another path.  Behind them, a flag with
the empty path still counts. -/
theorem extract_eq_ok_iff_flagAsPath :
    let args := ["-v", "--config", "--config", "a.lox", "--config=b.yml"]
    extract args = .ok ⟨some "b.yml", ["-v", "a.lox"]⟩ ∧
    TakenOut args ⟨some "b.yml", ["-v", "a.lox"]⟩ ∧
    extract (args ++ ["--config", ""]) = .ok ⟨some "", ["-v", "a.lox"]⟩ := by
  intro args
  have h : extract args = .ok ⟨some "b.yml", ["-v", "a.lox"]⟩ := rfl
  have htaken := extract_eq_ok_iff.mp h
  exact ⟨h, htaken, htaken.extract_append ["--config", ""]⟩

end Lox.Shell.Arguments
