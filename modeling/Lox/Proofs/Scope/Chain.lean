import Lox.Proofs.Machine.Stack
import Mathlib.Data.List.Find

/-!
# Scopes as stacks of frames

The scopes on the way out from a scope form its chain.  Parents have smaller numbers, so a chain
falls strictly and ends.  Seen from one scope, a store is the stack of the frames on its chain:
looking up, defining and assigning in the store are the operations on that stack
(`get?_eq_lookup`, `frames_define`, `frames_assign`), and a new scope is a new frame on top
(`frames_add`).
-/

namespace Lox

/-! ## Bindings -/

theorem Bindings.find?_insert {α : Type} (b : Bindings α) (x y : String) (v : α) :
    (b.insert x v).find? y = if y = x then some v else b.find? y := by
  induction b with
  | nil =>
    by_cases hy : y = x
    · rw [if_pos hy, Bindings.insert, Bindings.find?.eq_2, if_pos hy.symm]
    · rw [if_neg hy, Bindings.insert, Bindings.find?.eq_2, if_neg (Ne.symm hy)]
  | cons p rest ih =>
    obtain ⟨n, w⟩ := p
    rw [Bindings.insert]
    by_cases hn : n = x
    · subst hn
      rw [if_pos rfl, Bindings.find?, Bindings.find?]
      by_cases hy : y = n
      · rw [if_pos hy.symm, if_pos hy]
      · rw [if_neg (Ne.symm hy), if_neg (Ne.symm hy), if_neg hy]
    · rw [if_neg hn, Bindings.find?, Bindings.find?, ih]
      by_cases hy : n = y
      · subst hy
        rw [if_pos rfl, if_pos rfl, if_neg hn]
      · rw [if_neg hy, if_neg hy]

namespace Scopes

variable {α : Type}

/-! ## Chains -/

theorem parent?_lt (s : Scopes α) {id p : ScopeId} (h : s.parent? id = some p) : p < id := by
  obtain ⟨scope, hscope, hp⟩ := Option.bind_eq_some_iff.mp h
  exact s.parent_lt id scope p hscope hp

/-- The scopes on the way out from `id`, among `bound` scopes. -/
def chainWithin (s : Scopes α) : (bound : Nat) → ScopeId → List ScopeId
  | 0, _ => []
  | bound + 1, id =>
    id :: match s.parent? id with
      | some p => s.chainWithin bound p
      | none => []

/-- The scopes on the way out from a scope. -/
def chain (s : Scopes α) (id : ScopeId) : List ScopeId := s.chainWithin (id + 1) id

/-- A bound beyond the number of a scope changes nothing. -/
theorem chainWithin_congr (s : Scopes α) {bound bound' : Nat} {id : ScopeId} (h : id < bound)
    (h' : id < bound') : s.chainWithin bound id = s.chainWithin bound' id := by
  induction bound generalizing bound' id with
  | zero => exact absurd h (Nat.not_lt_zero id)
  | succ bound ih =>
    obtain ⟨bound', rfl⟩ := Nat.exists_eq_add_one_of_ne_zero (Nat.ne_zero_of_lt h')
    rw [chainWithin, chainWithin]
    cases hp : s.parent? id with
    | none => rfl
    | some p =>
      have hlt := s.parent?_lt hp
      -- The parent has a smaller number, so both bounds are still beyond it.
      have hbound : p < bound := Nat.lt_of_lt_of_le hlt (Nat.le_of_lt_succ h)
      have hbound' : p < bound' := Nat.lt_of_lt_of_le hlt (Nat.le_of_lt_succ h')
      simp only [ih hbound hbound']

theorem chain_of_parent (s : Scopes α) {id p : ScopeId} (h : s.parent? id = some p) :
    s.chain id = id :: s.chain p := by
  have hlt := s.parent?_lt h
  rw [chain, chainWithin, h]
  simp only [chain, s.chainWithin_congr hlt (Nat.lt_succ_self p)]

theorem chain_of_root (s : Scopes α) {id : ScopeId} (h : s.parent? id = none) :
    s.chain id = [id] := by
  rw [chain, chainWithin, h]

/-- A chain begins with its scope, and all others on it have smaller numbers. -/
theorem chain_eq_cons (s : Scopes α) (id : ScopeId) :
    ∃ rest, s.chain id = id :: rest ∧ ∀ i ∈ rest, i < id := by
  induction id using Nat.strongRecOn with
  | _ id ih =>
    cases hp : s.parent? id with
    | none => exact ⟨[], s.chain_of_root hp, fun _ h => absurd h List.not_mem_nil⟩
    | some p =>
      have hlt := s.parent?_lt hp
      obtain ⟨rest, hrest, hsmall⟩ := ih p hlt
      refine ⟨s.chain p, s.chain_of_parent hp, fun i hi => ?_⟩
      rw [hrest] at hi
      obtain rfl | hi := List.mem_cons.mp hi
      · exact hlt
      · exact Nat.lt_trans (hsmall i hi) hlt

theorem le_of_mem_chain (s : Scopes α) {id i : ScopeId} (h : i ∈ s.chain id) : i ≤ id := by
  obtain ⟨rest, hrest, hsmall⟩ := s.chain_eq_cons id
  rw [hrest] at h
  obtain rfl | h := List.mem_cons.mp h
  · exact Nat.le_refl i
  · exact Nat.le_of_lt (hsmall i h)

theorem nodup_chain (s : Scopes α) (id : ScopeId) : (s.chain id).Nodup := by
  induction id using Nat.strongRecOn with
  | _ id ih =>
    cases hp : s.parent? id with
    | none =>
      rw [s.chain_of_root hp]
      exact List.nodup_cons.mpr ⟨List.not_mem_nil, List.nodup_nil⟩
    | some p =>
      have hlt := s.parent?_lt hp
      rw [s.chain_of_parent hp]
      refine List.nodup_cons.mpr ⟨fun hmem => ?_, ih p hlt⟩
      exact absurd (s.le_of_mem_chain hmem) (Nat.not_le_of_lt hlt)

/-- Two stores with the same parents on the way out from a scope have the same chain there. -/
theorem chain_congr (s s' : Scopes α) {id : ScopeId}
    (h : ∀ i ≤ id, s'.parent? i = s.parent? i) : s'.chain id = s.chain id := by
  induction id using Nat.strongRecOn with
  | _ id ih =>
    have hid := h id (Nat.le_refl id)
    cases hp : s.parent? id with
    | none =>
      rw [hp] at hid
      rw [s.chain_of_root hp, s'.chain_of_root hid]
    | some p =>
      have hlt := s.parent?_lt hp
      rw [hp] at hid
      rw [s.chain_of_parent hp, s'.chain_of_parent hid,
        ih p hlt fun i hi => h i (Nat.le_trans hi (Nat.le_of_lt hlt))]

/-! ## Frames -/

/-- What a scope itself binds. -/
def frame (s : Scopes α) (id : ScopeId) : Frame α := fun x => (s.bindings id).find? x

/-- The frames on the way out from a scope. -/
def frames (s : Scopes α) (id : ScopeId) : List (Frame α) := (s.chain id).map s.frame

theorem frames_of_parent (s : Scopes α) {id p : ScopeId} (h : s.parent? id = some p) :
    s.frames id = s.frame id :: s.frames p := by
  rw [frames, s.chain_of_parent h, List.map_cons, frames]

theorem owner?_eq_find? (s : Scopes α) (id : ScopeId) (x : String) :
    s.owner? id x = (s.chain id).find? fun i => s.has i x := by
  have key : ∀ bound id, s.ownerWithin x bound id =
      (s.chainWithin bound id).find? fun i => s.has i x := by
    intro bound
    induction bound with
    | zero => exact fun _ => rfl
    | succ bound ih =>
      intro id
      rw [ownerWithin, chainWithin, List.find?_cons]
      cases hhas : s.has id x with
      | true => rfl
      | false =>
        cases s.parent? id with
        | none => rfl
        | some p => exact ih p
  exact key (id + 1) id

/-- Looking up a name goes through the frames. -/
theorem get?_eq_lookup (s : Scopes α) (id : ScopeId) (x : String) :
    s.get? id x = Frame.lookup x (s.frames id) := by
  rw [get?, owner?_eq_find?, Frame.lookup, frames]
  induction s.chain id with
  | nil => rfl
  | cons i rest ih =>
    rw [List.find?_cons, List.map_cons, List.findSome?_cons, has]
    cases hx : (s.bindings i).find? x with
    | some v =>
      have hframe : s.frame i x = some v := hx
      rw [hframe]
      exact hx
    | none =>
      have hframe : s.frame i x = none := hx
      rw [hframe]
      exact ih

theorem bindings_congr {s s₁ : Scopes α} {i : ScopeId} (h : s₁.scopes[i]? = s.scopes[i]?) :
    s₁.bindings i = s.bindings i := by
  rw [bindings, h, bindings]

theorem owner?_self (s : Scopes α) {id : ScopeId} {x : String} (h : s.has id x = true) :
    s.owner? id x = some id := by
  rw [owner?, ownerWithin, if_pos h]

theorem has_of_owner? (s : Scopes α) {id o : ScopeId} {x : String} (h : s.owner? id x = some o) :
    s.has o x = true := by
  rw [owner?_eq_find?] at h
  exact List.find?_some (p := fun i => s.has i x) h

theorem owner?_congr {s s₁ : Scopes α} {id : ScopeId} {x : String}
    (hchain : s₁.chain id = s.chain id) (h : ∀ i ∈ s.chain id, s₁.has i x = s.has i x) :
    s₁.owner? id x = s.owner? id x := by
  rw [owner?_eq_find?, owner?_eq_find?, hchain, List.find?_congr h]

/-! ## Defining and assigning -/

@[simp] theorem size_define (s : Scopes α) (id : ScopeId) (x : String) (v : α) :
    (s.define id x v).size = s.size :=
  Array.size_modify

@[simp] theorem parent?_define (s : Scopes α) (id : ScopeId) (x : String) (v : α) (i : ScopeId) :
    (s.define id x v).parent? i = s.parent? i := by
  rw [parent?, parent?, define, Array.getElem?_modify]
  split
  · cases s.scopes[i]? <;> rfl
  · rfl

@[simp] theorem chain_define (s : Scopes α) (id : ScopeId) (x : String) (v : α) (i : ScopeId) :
    (s.define id x v).chain i = s.chain i :=
  chain_congr s _ fun j _ => s.parent?_define id x v j

theorem lt_size_of_has (s : Scopes α) {id : ScopeId} {x : String} (h : s.has id x = true) :
    id < s.size := by
  refine Decidable.byContradiction fun hge => ?_
  have hnone : s.scopes[id]? = none := Array.getElem?_eq_none (Nat.le_of_not_lt hge)
  rw [has, bindings, hnone] at h
  exact Bool.false_ne_true h

theorem frame_define (s : Scopes α) {id : ScopeId} (hid : id < s.size) (x : String) (v : α)
    (i : ScopeId) :
    (s.define id x v).frame i = if i = id then (s.frame id).set x v else s.frame i := by
  funext y
  rw [frame, bindings, define, Array.getElem?_modify]
  by_cases hi : id = i
  · subst hi
    have hsome : s.scopes[id]? = some s.scopes[id] := Array.getElem?_eq_getElem hid
    rw [if_pos rfl, if_pos rfl, hsome, Frame.set, frame, bindings, hsome]
    exact Bindings.find?_insert _ x y v
  · rw [if_neg hi, if_neg (Ne.symm hi)]
    rfl

theorem has_define (s : Scopes α) {id : ScopeId} (hid : id < s.size) (x : String) (v : α)
    (i : ScopeId) (y : String) :
    (s.define id x v).has i y = (s.has i y || (decide (i = id) && decide (y = x))) := by
  have hframe : (s.define id x v).has i y = ((s.define id x v).frame i y).isSome := rfl
  rw [hframe, s.frame_define hid]
  by_cases hi : i = id
  · subst hi
    rw [if_pos rfl, Frame.set]
    by_cases hy : y = x
    · rw [if_pos hy, decide_eq_true rfl, decide_eq_true hy, Bool.and_self, Bool.or_true]
      rfl
    · rw [if_neg hy, decide_eq_false hy, Bool.and_false, Bool.or_false]
      rfl
  · rw [if_neg hi, decide_eq_false hi, Bool.false_and, Bool.or_false]
    rfl

/-- A scope that binds a name already gets no new one, and neither does any other. -/
theorem has_define_of_has (s : Scopes α) {id : ScopeId} {x : String} (h : s.has id x = true) (v : α)
    (i : ScopeId) (y : String) : (s.define id x v).has i y = s.has i y := by
  rw [s.has_define (s.lt_size_of_has h)]
  by_cases hi : i = id ∧ y = x
  · rw [hi.1, hi.2, h, Bool.true_or]
  · rw [← Bool.decide_and, decide_eq_false hi, Bool.or_false]

theorem getElem?_define_of_ne (s : Scopes α) {id i : ScopeId} (h : i ≠ id) (x : String) (v : α) :
    (s.define id x v).scopes[i]? = s.scopes[i]? := by
  rw [define, Array.getElem?_modify, if_neg (Ne.symm h)]

/-- A scope that is not on a chain can change without the frames there. -/
theorem map_frame_define (s : Scopes α) {id : ScopeId} (hid : id < s.size) (x : String) (v : α)
    {ids : List ScopeId} (h : id ∉ ids) :
    ids.map (s.define id x v).frame = ids.map s.frame := by
  refine List.map_congr_left fun i hi => ?_
  have hne : i ≠ id := fun heq => h (heq ▸ hi)
  rw [s.frame_define hid x v i, if_neg hne]

/-- Defining a name changes the frame on top. -/
theorem frames_define (s : Scopes α) {id : ScopeId} (hid : id < s.size) (x : String) (v : α) :
    (s.define id x v).frames id = Frame.define x v (s.frames id) := by
  obtain ⟨rest, hrest, hsmall⟩ := s.chain_eq_cons id
  have hnot : id ∉ rest := fun hmem => Nat.lt_irrefl id (hsmall id hmem)
  rw [frames, chain_define, frames, hrest, List.map_cons, List.map_cons, Frame.define,
    s.map_frame_define hid x v hnot, s.frame_define hid x v id, if_pos rfl]

/-- Assigning to a name changes the first frame that binds it. -/
theorem assign?_map_frame (s : Scopes α) (x : String) (v : α) {ids : List ScopeId}
    (hids : ids.Nodup) :
    Frame.assign? x v (ids.map s.frame) =
      (ids.find? fun i => s.has i x).map fun owner => ids.map (s.define owner x v).frame := by
  induction ids with
  | nil => rfl
  | cons i rest ih =>
    obtain ⟨hnot, hnodup⟩ := List.nodup_cons.mp hids
    rw [List.map_cons, Frame.assign?, List.find?_cons, ih hnodup]
    have hhas : (s.frame i x).isSome = s.has i x := rfl
    rw [hhas]
    cases hi : s.has i x with
    | true =>
      -- No scope is on the chain twice, so the frames behind the owner stay.
      have hlt := s.lt_size_of_has hi
      rw [if_pos rfl, Option.map_some, List.map_cons, s.map_frame_define hlt x v hnot,
        s.frame_define hlt x v i, if_pos rfl]
    | false =>
      rw [if_neg Bool.false_ne_true]
      cases ho : rest.find? fun i => s.has i x with
      | none => rfl
      | some owner =>
        have hmem := List.mem_of_find?_eq_some ho
        have howner := List.find?_some ho
        have hlt := s.lt_size_of_has howner
        have hne : i ≠ owner := fun heq => hnot (heq ▸ hmem)
        simp only [Option.map_some, List.map_cons]
        rw [s.frame_define hlt x v i, if_neg hne]

theorem frames_assign (s : Scopes α) (id : ScopeId) (x : String) (v : α) :
    Frame.assign? x v (s.frames id) =
      (s.owner? id x).map fun owner => (s.define owner x v).frames id := by
  rw [frames, s.assign?_map_frame x v (s.nodup_chain id), owner?_eq_find?]
  simp only [frames, chain_define]

/-! ## New scopes -/

@[simp] theorem size_add (s : Scopes α) (parent : Option ScopeId) :
    (s.add parent).size = s.size + 1 :=
  Array.size_push _

theorem size_lt_size_add (s : Scopes α) (parent : Option ScopeId) :
    s.size < (s.add parent).size := by
  rw [size_add]
  exact Nat.lt_succ_self _

theorem getElem?_add (s : Scopes α) (parent : Option ScopeId) {i : ScopeId} (h : i < s.size) :
    (s.add parent).scopes[i]? = s.scopes[i]? := by
  have hne : i ≠ s.scopes.size := Nat.ne_of_lt h
  rw [add, Array.getElem?_push, if_neg hne]

theorem parent?_add (s : Scopes α) (parent : Option ScopeId) {i : ScopeId} (h : i < s.size) :
    (s.add parent).parent? i = s.parent? i := by
  rw [parent?, s.getElem?_add parent h, parent?]

theorem parent?_add_size (s : Scopes α) {p : ScopeId} (h : p < s.size) :
    (s.add (some p)).parent? s.size = some p := by
  have hnew : (s.add (some p)).scopes[s.size]? = some ⟨some p, []⟩ := by
    have hlt : decide (p < s.scopes.size) = true := decide_eq_true h
    rw [add, Array.getElem?_push, size, if_pos rfl, Option.filter_some, if_pos hlt]
  rw [parent?, hnew]
  rfl

/-- A new scope is an empty frame on top of the frames of its parent. -/
theorem frames_add (s : Scopes α) {p : ScopeId} (h : p < s.size) :
    (s.add (some p)).frames s.size = Frame.empty :: s.frames p := by
  have hchain : (s.add (some p)).chain p = s.chain p :=
    chain_congr s _ fun i hi => s.parent?_add (some p) (Nat.lt_of_le_of_lt hi h)
  have hframe : (s.add (some p)).frame s.size = Frame.empty := by
    funext x
    rw [frame, bindings, add, Array.getElem?_push, size, if_pos rfl]
    rfl
  rw [frames_of_parent _ (s.parent?_add_size h), hframe, frames, frames, hchain]
  refine congrArg _ (List.map_congr_left fun i hi => ?_)
  have hlt : i < s.size := Nat.lt_of_le_of_lt (s.le_of_mem_chain hi) h
  funext x
  rw [frame, bindings, s.getElem?_add (some p) hlt]
  rfl

theorem has_add (s : Scopes α) (parent : Option ScopeId) {i : ScopeId} (h : i < s.size)
    (x : String) : (s.add parent).has i x = s.has i x := by
  rw [has, bindings_congr (s.getElem?_add parent h), has]

theorem has_add_size (s : Scopes α) (parent : Option ScopeId) (x : String) :
    (s.add parent).has s.size x = false := by
  rw [has, bindings, add, Array.getElem?_push, size, if_pos rfl]
  rfl

theorem chain_add (s : Scopes α) {id : ScopeId} (hid : id < s.size) :
    (s.add (some id)).chain s.size = s.size :: s.chain id := by
  rw [chain_of_parent _ (s.parent?_add_size hid)]
  refine congrArg _ (chain_congr s _ fun i hi => ?_)
  exact s.parent?_add (some id) (Nat.lt_of_le_of_lt hi hid)

/-- A name that is bound from a new scope is bound from the scope around it. -/
theorem owner?_add (s : Scopes α) {id : ScopeId} (hid : id < s.size) (x : String) :
    (s.add (some id)).owner? s.size x = s.owner? id x := by
  rw [owner?_eq_find?, owner?_eq_find?, s.chain_add hid, List.find?_cons, s.has_add_size]
  refine List.find?_congr fun i hi => ?_
  exact s.has_add (some id) (Nat.lt_of_le_of_lt (s.le_of_mem_chain hi) hid) x

end Scopes

end Lox
