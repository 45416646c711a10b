import Lox.Shell.Arguments

/-!
# The flag for the settings file

The flag is taken out of arguments from left to right, so what was taken out of the front of a list
stays as it is whatever stands behind it (`Arguments.extract_append`).  The two spellings of the
flag say the same as long as they give a path.  They differ where the path is empty: in one argument
with the flag it is refused, but as an argument of its own it is accepted
(`Arguments.extract_spellings`).
-/

namespace Lox.Shell

namespace Arguments

/-- Arguments with further ones behind them; a path given behind counts. -/
instance : Append Arguments := ⟨fun a b => ⟨b.config? <|> a.config?, a.rest ++ b.rest⟩⟩

theorem append_def (a b : Arguments) : a ++ b = ⟨b.config? <|> a.config?, a.rest ++ b.rest⟩ := rfl

theorem append_assoc (a b c : Arguments) : a ++ b ++ c = a ++ (b ++ c) := by
  simp only [append_def, Option.orElse_eq_orElse, Option.orElse_eq_or, Option.or_assoc,
    List.append_assoc]

theorem nothing_append (a : Arguments) : (⟨none, []⟩ : Arguments) ++ a = a := by
  simp only [append_def, Option.orElse_eq_orElse, Option.orElse_eq_or, Option.or_none,
    List.nil_append]

/-! ## One argument -/

/-- What an argument says that is not followed by its value. -/
def alone (arg : String) : Except UsageError Arguments :=
  match joined? arg with
  | some path => if path.isEmpty then .error .missingConfigPath else .ok ⟨some path, []⟩
  | none => .ok ⟨none, [arg]⟩

theorem withPlain_eq (arg : String) (a : Arguments) :
    withPlain arg a = (⟨none, [arg]⟩ : Arguments) ++ a := by
  rw [append_def, Option.orElse_eq_orElse, Option.orElse_eq_or, Option.or_none]
  rfl

theorem extract_cons {arg : String} (h : arg ≠ configFlag) (rest : List String) :
    extract (arg :: rest) = (alone arg).bind fun a => (extract rest).map (a ++ ·) := by
  have hplain : withPlain arg = ((⟨none, [arg]⟩ : Arguments) ++ ·) := funext (withPlain_eq arg)
  have hconfig (path : String) : withConfig path = ((⟨some path, []⟩ : Arguments) ++ ·) := rfl
  cases rest with
  | nil =>
    simp only [extract, if_neg h, alone]
    cases joined? arg with
    | none => rfl
    | some path => dsimp only; split <;> rfl
  | cons next rest =>
    simp only [extract, if_neg h, alone, hplain, hconfig]
    cases joined? arg with
    | none => rfl
    | some path => dsimp only; split <;> rfl

theorem extract_flag (path : String) (rest : List String) :
    extract (configFlag :: path :: rest) =
      (extract rest).map ((⟨some path, []⟩ : Arguments) ++ ·) := by
  rw [extract, if_pos rfl]
  rfl

theorem joined?_append (path : String) : joined? (configFlag ++ "=" ++ path) = some path := by
  have hlist : (configFlag ++ "=" ++ path).toList = (configFlag ++ "=").toList ++ path.toList :=
    String.toList_append
  rw [joined?, hlist, List.drop_left, String.ofList_toList,
    if_pos (List.isPrefixOf_iff_prefix.mpr (List.prefix_append _ _))]

theorem append_ne_flag (path : String) : configFlag ++ "=" ++ path ≠ configFlag := by
  intro h
  have hlength := congrArg String.length h
  simp only [String.length_append] at hlength
  have hequals : "=".length = 1 := rfl
  omega

/-! ## One list behind another -/

/-- Arguments are taken from the front: the flag with its value, or one argument. -/
@[elab_as_elim]
theorem induction {motive : List String → Prop} (nil : motive []) (flagAlone : motive [configFlag])
    (flag : ∀ path rest, motive rest → motive (configFlag :: path :: rest))
    (cons : ∀ arg rest, arg ≠ configFlag → motive rest → motive (arg :: rest)) :
    ∀ args, motive args
  | [] => nil
  | arg :: rest =>
    if h : arg = configFlag then
      match rest with
      | [] => h ▸ flagAlone
      | path :: rest => h ▸ flag path rest (induction nil flagAlone flag cons rest)
    else cons arg rest h (induction nil flagAlone flag cons rest)

theorem map_map_append (a b : Arguments) (result : Except UsageError Arguments) :
    (result.map (b ++ ·)).map (a ++ ·) = result.map (a ++ b ++ ·) := by
  cases result with
  | error e => rfl
  | ok c => exact congrArg Except.ok (append_assoc a b c).symm

/-- Arguments that can be taken out on their own are taken out in the same way in front of
others. -/
theorem extract_append {front : List String} {a : Arguments} (h : extract front = .ok a)
    (behind : List String) : extract (front ++ behind) = (extract behind).map (a ++ ·) := by
  induction front using induction generalizing a with
  | nil =>
    obtain rfl := Except.ok.inj h
    simp only [List.nil_append, nothing_append]
    cases extract behind <;> rfl
  | flagAlone =>
    rw [extract, if_pos rfl] at h
    cases h
  | flag path rest ih =>
    rw [extract_flag] at h
    cases hrest : extract rest with
    | error e =>
      rw [hrest] at h
      cases h
    | ok b =>
      rw [hrest] at h
      obtain rfl := Except.ok.inj h
      rw [List.cons_append, List.cons_append, extract_flag, ih hrest, map_map_append]
  | cons arg rest harg ih =>
    rw [extract_cons harg] at h
    rw [List.cons_append, extract_cons harg]
    cases halone : alone arg with
    | error e =>
      rw [halone] at h
      cases h
    | ok b =>
      cases hrest : extract rest with
      | error e =>
        rw [halone, hrest] at h
        cases h
      | ok c =>
        rw [halone, hrest] at h
        obtain rfl := Except.ok.inj h
        rw [ih hrest, ← map_map_append]
        rfl

/-! ## The two spellings -/

/-- The flag and a path as two arguments. -/
def separate (path : String) : List String := [configFlag, path]

/-- The flag and a path in one argument. -/
def inOne (path : String) : List String := [configFlag ++ "=" ++ path]

theorem extract_separate (path : String) : extract (separate path) = .ok ⟨some path, []⟩ := by
  rw [separate, extract_flag]
  rfl

theorem extract_inOne (path : String) (behind : List String) :
    extract (inOne path ++ behind) =
      if path = "" then .error .missingConfigPath
      else (extract behind).map ((⟨some path, []⟩ : Arguments) ++ ·) := by
  rw [inOne, List.singleton_append, extract_cons (append_ne_flag path), alone, joined?_append]
  simp only [String.isEmpty_iff]
  split <;> rfl

/-- The two spellings of the flag mean the same wherever they stand. -/
def Interchangeable : Prop :=
  ∀ (front behind : List String) (path : String) (a : Arguments), extract front = .ok a →
    extract (front ++ separate path ++ behind) = extract (front ++ inOne path ++ behind)

/-- An empty path is refused in one argument with the flag only. -/
theorem not_interchangeable_empty : ¬Interchangeable := by
  intro h
  have hsame := h [] [] "" ⟨none, []⟩ rfl
  have hseparate : extract (separate "") = .ok ⟨some "", []⟩ := rfl
  have hinOne : extract (inOne "") = .error .missingConfigPath := rfl
  exact absurd (hseparate.symm.trans (hsame.trans hinOne)) nofun

/-- Behind arguments that can be taken out on their own, the flag counts in either spelling unless a
later one gives another path.  Only with an empty path does the spelling matter: in one argument it
is refused, and as two it is taken if what stands behind can be taken. -/
theorem extract_spellings {front : List String} {a : Arguments} (h : extract front = .ok a)
    (behind : List String) (path : String) :
    extract (front ++ separate path ++ behind) =
      (extract behind).map (fun b => ⟨b.config? <|> some path, a.rest ++ b.rest⟩) ∧
    extract (front ++ inOne path ++ behind) =
      (if path = "" then .error .missingConfigPath
        else extract (front ++ separate path ++ behind)) ∧
    (extract (front ++ separate path ++ behind) = extract (front ++ inOne path ++ behind) ↔
      path ≠ "" ∨ extract behind = .error .missingConfigPath) := by
  have hseparate : extract (front ++ separate path ++ behind) =
      (extract behind).map (fun b => ⟨b.config? <|> some path, a.rest ++ b.rest⟩) := by
    have hboth (b : Arguments) :
        a ++ ⟨some path, []⟩ ++ b = ⟨b.config? <|> some path, a.rest ++ b.rest⟩ := by
      rw [append_def, append_def, List.append_nil]
      rfl
    rw [List.append_assoc, extract_append h, extract_append (extract_separate path),
      map_map_append, funext hboth]
  have hinOne : extract (front ++ inOne path ++ behind) =
      if path = "" then .error .missingConfigPath
      else extract (front ++ separate path ++ behind) := by
    rw [List.append_assoc, extract_append h, extract_inOne, List.append_assoc, extract_append h,
      extract_append (extract_separate path)]
    split <;> rfl
  refine ⟨hseparate, hinOne, ?_⟩
  rw [hinOne, hseparate]
  by_cases hpath : path = ""
  · rw [if_pos hpath]
    simp only [hpath, ne_eq, not_true_eq_false, false_or]
    cases extract behind with
    | error e => exact Iff.rfl
    | ok b => exact iff_of_false nofun nofun
  · exact iff_of_true (if_neg hpath).symm (.inl hpath)

/-- With the empty path in front of a script, one spelling is taken and the other refused. -/
theorem extract_spellings_empty :
    extract ["-v"] = .ok ⟨none, ["-v"]⟩ ∧
    extract ["-v", "--config", "", "a.lox"] = .ok ⟨some "", ["-v", "a.lox"]⟩ ∧
    extract ["-v", "--config=", "a.lox"] = .error .missingConfigPath := by
  have hfront : extract ["-v"] = .ok ⟨none, ["-v"]⟩ := rfl
  obtain ⟨hseparate, hinOne, -⟩ := extract_spellings hfront ["a.lox"] ""
  exact ⟨hfront, hseparate, hinOne⟩

end Arguments

end Lox.Shell
