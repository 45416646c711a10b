import Lox.Project.Discovery
import Lox.Proofs.Files.Path
import Mathlib.Data.List.Range
import Mathlib.Data.Nat.Find

/-!
# The nearest settings file

The search for settings looks into one directory after the other on the way up to the root, where
the way ends, and stops at the first one with a settings file in it (`find_nearest`).  What is found
can be read, and a path given by hand takes its place.  Default settings have no path, which
settings from a file always have, so they are used only where neither is there.
-/

namespace Lox

open Lox.Path (Plain)

theorem FileTree.exists_read {t : FileTree} {here path : String}
    (h : t.kindAt? here path = some .file) : ∃ text, t.read here path = .ok text := by
  rw [FileTree.kindAt?] at h
  split at h
  · rename_i place hplace
    have hcontents : (t.contents? place).isSome = true := by
      rw [FileTree.kind?] at h
      split at h
      · assumption
      · split at h <;> cases h
    obtain ⟨text, htext⟩ := Option.isSome_iff_exists.mp hcontents
    refine ⟨text, ?_⟩
    rw [FileTree.read, hplace]
    simp only [bind, Except.bind, htext]
    rfl
  · cases h

namespace Settings

/-! ## Loading -/

theorem path_of_ofText {path text : String} {s : Settings} (h : ofText path text = .ok s) :
    s.path = path := by
  unfold ofText at h
  split at h
  · cases h
  · split at h
    · rename_i hcheck
      obtain rfl := Except.ok.inj h
      unfold Draft.check at hcheck
      split at hcheck
      · obtain rfl := Except.ok.inj hcheck
        rfl
      · cases hcheck
    · cases h

variable {t : FileTree} {here start : String}

theorem load_view {path : String} (hpath : path ≠ "") :
    Id.run (load (t.view here) path) =
      match t.read here (Path.absolute here path) with
      | .error e => .error (unreadable (Path.absolute here path) e)
      | .ok text => ofText (Path.absolute here path) text := by
  have hempty : path.isEmpty = false := Bool.eq_false_iff.mpr (mt String.isEmpty_iff.mp hpath)
  rw [load, hempty]
  show Id.run (match t.read here (Path.absolute here path) with | .error e => _ | .ok text => _) = _
  cases t.read here (Path.absolute here path) <;> rfl

/-- Settings that are loaded know the file that they are from. -/
theorem path_of_load {path : String} {s : Settings}
    (h : Id.run (load (t.view here) path) = .ok s) : s.path = Path.absolute here path := by
  by_cases hpath : path = ""
  · subst hpath
    cases h
  · rw [load_view hpath] at h
    split at h
    · cases h
    · exact path_of_ofText h

/-! ## Finding -/

variable (t here start)

/-- Where the search begins: at `start`, or in the directory around it if it is a file. -/
def startDirectory : String :=
  if t.kindAt? here (Path.absolute here start) = some .file then
    Path.directory (Path.absolute here start)
  else Path.absolute here start

/-- The directory to which `k` steps up from the start of the search lead. -/
def directoryAbove (k : Nat) : String := Path.directory^[k] (startDirectory t here start)

/-- The settings file of a directory is there, and it is no directory itself. -/
def HasFile (directory : String) : Prop :=
  t.kindAt? here (Path.join directory fileName) = some .file

instance (directory : String) : Decidable (HasFile t here directory) :=
  inferInstanceAs (Decidable (_ = _))

theorem firstFile_view (directories : List String) :
    Id.run (firstFile (t.view here) (directories.map fun d => Path.join d fileName)) =
      (directories.find? fun d => HasFile t here d).map fun d => Path.join d fileName := by
  induction directories with
  | nil => rfl
  | cons d rest ih =>
    by_cases hd : HasFile t here d
    · rw [List.find?_cons, decide_eq_true hd]
      exact if_pos hd
    · rw [List.find?_cons, decide_eq_false hd, ← ih]
      exact if_neg hd

theorem find_view :
    Id.run (find (t.view here) start) =
      ((Path.ancestors (startDirectory t here start)).find? fun d => HasFile t here d).map
        fun d => Path.join d fileName :=
  firstFile_view t here _

/-- A path given by hand comes first, then what is found, then the default settings. -/
theorem resolve_view (path : String) :
    Id.run (resolve (t.view here) path start) =
      if path = "" then
        match Id.run (find (t.view here) start) with
        | some found => Id.run (load (t.view here) found)
        | none => .ok default
      else Id.run (load (t.view here) path) := by
  unfold resolve
  split
  · rename_i hgiven
    rw [if_neg (by simpa using hgiven)]
  · rename_i hgiven
    rw [if_pos (by simpa using hgiven), Id.run_bind]
    cases Id.run (find (t.view here) start) with
    | none => rfl
    | some found => rfl

/-! ## The way up -/

/-- The directories lead up to the root: each one has a segment less than the one before, and only
the root is the directory around itself. -/
structure Climbs (directories : Nat → String) (parts : List String) : Prop where
  plain : ∀ s ∈ parts, Plain s
  level : ∀ k, directories k = Path.ofSegments true (parts.take (parts.length - k))
  ends : ∀ k, Path.directory (directories k) = directories k ↔ parts.length ≤ k

section Absolute

variable {t here start} (hhere : Path.isAbsolute here = true)

include hhere

theorem exists_startDirectory_eq : ∃ parts, (∀ s ∈ parts, Plain s) ∧
    startDirectory t here start = Path.ofSegments true parts := by
  obtain ⟨parts, hparts, habsolute⟩ := Path.exists_absolute_eq hhere start
  rw [startDirectory, habsolute]
  split
  · exact ⟨parts.dropLast, fun s hs => hparts s ((List.dropLast_sublist parts).subset hs),
      Path.directory_ofSegments hparts⟩
  · exact ⟨parts, hparts, rfl⟩

theorem exists_climbs : ∃ parts, Climbs (directoryAbove t here start) parts := by
  obtain ⟨parts, hparts, hstart⟩ := @exists_startDirectory_eq t here start hhere
  have habove : directoryAbove t here start = fun k =>
      Path.directory^[k] (Path.ofSegments true parts) := by
    funext k
    rw [directoryAbove, hstart]
  rw [habove]
  exact ⟨parts, hparts, Path.directory_iterate hparts, Path.directory_iterate_eq_self_iff hparts⟩

omit hhere in
theorem ancestors_startDirectory {parts : List String}
    (h : Climbs (directoryAbove t here start) parts) :
    Path.ancestors (startDirectory t here start) =
      (List.range (parts.length + 1)).map (directoryAbove t here start) := by
  have hstart : startDirectory t here start = Path.ofSegments true parts := by
    have hlevel := h.level 0
    rwa [Nat.sub_zero, List.take_length] at hlevel
  rw [hstart, Path.ancestors_ofSegments h.plain]
  refine List.map_congr_left fun k _ => ?_
  rw [directoryAbove, hstart]

/-- The search finds the file of the nearest directory that has one. -/
theorem find_eq_some_iff {path : String} :
    Id.run (find (t.view here) start) = some path ↔
      ∃ k, path = Path.join (directoryAbove t here start k) fileName ∧
        HasFile t here (directoryAbove t here start k) ∧
        ∀ j < k, ¬HasFile t here (directoryAbove t here start j) := by
  obtain ⟨parts, hclimbs⟩ := @exists_climbs t here start hhere
  rw [find_view, ancestors_startDirectory hclimbs, List.find?_map]
  simp only [Option.map_map, Option.map_eq_some_iff, List.find?_range_eq_some, List.mem_range,
    Function.comp_apply, decide_eq_true_eq, Bool.not_eq_true', decide_eq_false_iff_not]
  constructor
  · rintro ⟨k, ⟨hfile, -, hnearer⟩, rfl⟩
    exact ⟨k, rfl, hfile, hnearer⟩
  · rintro ⟨k, rfl, hfile, hnearer⟩
    refine ⟨k, ⟨hfile, ?_, hnearer⟩, rfl⟩
    -- Behind the root there is nothing new.
    by_contra hk
    have hroot : directoryAbove t here start parts.length = directoryAbove t here start k := by
      rw [hclimbs.level, hclimbs.level, Nat.sub_self, Nat.sub_eq_zero_of_le (by omega)]
    exact hnearer parts.length (by omega) (hroot ▸ hfile)

theorem find_eq_none_iff :
    Id.run (find (t.view here) start) = none ↔
      ∀ k, ¬HasFile t here (directoryAbove t here start k) := by
  classical
  constructor
  · intro hnone k hfile
    have hexists : ∃ k, HasFile t here (directoryAbove t here start k) := ⟨k, hfile⟩
    have hsome := (find_eq_some_iff hhere).mpr ⟨Nat.find hexists, rfl, Nat.find_spec hexists,
      fun _ => Nat.find_min hexists⟩
    rw [hnone] at hsome
    cases hsome
  · intro hmissing
    refine Option.eq_none_iff_forall_ne_some.mpr fun path hsome => ?_
    obtain ⟨k, -, hfile, -⟩ := (find_eq_some_iff hhere).mp hsome
    exact hmissing k hfile

/-- What is found is the path of a file. -/
theorem found_path {path : String} (h : Id.run (find (t.view here) start) = some path) :
    path ≠ "" ∧ Path.absolute here path = path ∧ t.kindAt? here path = some .file := by
  obtain ⟨k, rfl, hfile, -⟩ := (find_eq_some_iff hhere).mp h
  obtain ⟨parts, hclimbs⟩ := @exists_climbs t here start hhere
  have hname : Plain fileName := ⟨by decide, by decide, by decide, by decide⟩
  have htake : ∀ s ∈ parts.take (parts.length - k), Plain s := fun s hs =>
    hclimbs.plain s (List.mem_of_mem_take hs)
  refine ⟨?_, ?_, hfile⟩
  · rw [hclimbs.level, Path.join_ofSegments htake hname]
    exact Path.ofSegments_ne_empty _
  · rw [hclimbs.level, Path.join_ofSegments htake hname, Path.absolute,
      if_pos (Path.isAbsolute_ofSegments _),
      Path.clean_ofSegments
        (List.forall_mem_append.mpr ⟨htake, List.forall_mem_singleton.mpr hname⟩)]

end Absolute

/-! ## What is found and loaded -/

/-- How the settings for `start` are found and loaded. -/
structure Discovers : Prop where
  /-- The way up from the start of the search ends, and it ends at the root. -/
  climbs : ∃ parts, Climbs (directoryAbove t here start) parts
  /-- What is found is the settings file of the nearest directory that has one. -/
  nearest : ∀ path, Id.run (find (t.view here) start) = some path ↔
    ∃ k, path = Path.join (directoryAbove t here start k) fileName ∧
      HasFile t here (directoryAbove t here start k) ∧
      ∀ j < k, ¬HasFile t here (directoryAbove t here start j)
  /-- Nothing is found exactly if no directory on the way has a settings file. -/
  missing : Id.run (find (t.view here) start) = none ↔
    ∀ k, ¬HasFile t here (directoryAbove t here start k)
  /-- A path given by hand is loaded, whatever lies on the way. -/
  given : ∀ path, path ≠ "" →
    Id.run (resolve (t.view here) path start) = Id.run (load (t.view here) path)
  /-- Without one, the settings are those that the text of the file that is found gives. -/
  found : ∀ path, Id.run (find (t.view here) start) = some path →
    ∃ text, t.read here path = .ok text ∧
      Id.run (resolve (t.view here) "" start) = ofText path text
  /-- The default settings are used only where no path is given and nothing is found. -/
  defaults : ∀ path, Id.run (resolve (t.view here) path start) = .ok default ↔
    path = "" ∧ Id.run (find (t.view here) start) = none

/-- Whatever the file tree and the start are, the nearest settings file on the way up is found, and
a path given by hand comes first. -/
theorem find_nearest (hhere : Path.isAbsolute here = true) : Discovers t here start where
  climbs := exists_climbs hhere
  nearest _ := find_eq_some_iff hhere
  missing := find_eq_none_iff hhere
  given path hpath := by rw [resolve_view, if_neg hpath]
  found path hfound := by
    obtain ⟨hne, habsolute, hfile⟩ := found_path hhere hfound
    obtain ⟨text, htext⟩ := FileTree.exists_read hfile
    refine ⟨text, htext, ?_⟩
    rw [resolve_view, if_pos rfl, hfound]
    show Id.run (load (t.view here) path) = _
    rw [load_view hne, habsolute, htext]
  defaults path := by
    have hloaded (path : String) : Id.run (load (t.view here) path) ≠ .ok default := by
      intro hdefault
      obtain ⟨parts, -, habsolute⟩ := Path.exists_absolute_eq hhere path
      have hpath := path_of_load hdefault
      rw [habsolute] at hpath
      exact Path.ofSegments_ne_empty parts hpath.symm
    rw [resolve_view]
    by_cases hpath : path = ""
    · rw [if_pos hpath]
      cases Id.run (find (t.view here) start) with
      | none => exact iff_of_true rfl ⟨hpath, rfl⟩
      | some found => exact iff_of_false (hloaded found) fun h => nomatch h.2
    · rw [if_neg hpath]
      exact iff_of_false (hloaded path) fun h => hpath h.1

/-- A directory with the name of a settings file is passed over on the way up. -/
theorem find_nearest_aboveDirectory :
    let t : FileTree := ⟨[(["w", "lox.yml"], "name: far"), (["w", "a", "b", "main.lox"], "")],
      [["w", "a", "lox.yml"]]⟩
    Path.isAbsolute "/w/a" = true ∧ Discovers t "/w/a" "b/main.lox" ∧
    Id.run (find (t.view "/w/a") "b/main.lox") = some "/w/lox.yml" := by
  intro t
  have hhere : Path.isAbsolute "/w/a" = true := rfl
  have hdiscovers := find_nearest t "/w/a" "b/main.lox" hhere
  refine ⟨hhere, hdiscovers, (hdiscovers.nearest _).mpr ⟨2, ?_, ?_, ?_⟩⟩
  · decide
  · decide
  · decide

end Settings

end Lox
