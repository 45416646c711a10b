import Lox.Proofs.Scope.Chain
import Lox.Proofs.Text.ByteOrder

/-!
# Scopes under any history

A store of scopes changes when scopes are made, names are declared and values are assigned; copies
of the bindings of a scope can be taken and changed on their own.  Whatever has been done before, in
whatever order, the store is a tree of shared scopes (`Scopes.sharedTree_of_steps`): every chain of
parents ends, a name means its binding in the first scope on the way out that has one, and a change
shows in exactly those scopes whose way out meets no other binding of the name before.

Most of this holds of any store.  Only the names that a scope lists depend on the history: every
step keeps them distinct (`Scopes.NamesDistinct`).
-/

namespace Lox

/-! ## Names of bindings -/

namespace Bindings

variable {α : Type} {b b' : Bindings α}

/-- The names that are bound, in the order of the bindings. -/
def names (b : Bindings α) : List String := b.map Prod.fst

theorem mem_names_iff {x : String} : x ∈ b.names ↔ (b.find? x).isSome = true := by
  induction b with
  | nil => exact iff_of_false List.not_mem_nil Bool.false_ne_true
  | cons p rest ih =>
    obtain ⟨n, v⟩ := p
    show x ∈ n :: names rest ↔ _
    rw [List.mem_cons, find?, ih]
    by_cases hn : n = x
    · rw [if_pos hn]
      exact iff_of_true (.inl hn.symm) rfl
    · rw [if_neg hn, or_iff_right (Ne.symm hn)]

/-- A binding anew keeps the place of a name; a new name comes last. -/
theorem names_insert (b : Bindings α) (x : String) (v : α) :
    (b.insert x v).names = if x ∈ b.names then b.names else b.names ++ [x] := by
  induction b with
  | nil => rfl
  | cons p rest ih =>
    obtain ⟨n, w⟩ := p
    have hnames : names ((n, w) :: rest) = n :: names rest := rfl
    rw [insert, hnames]
    by_cases hn : n = x
    · subst hn
      rw [if_pos rfl, if_pos (List.mem_cons_self ..)]
      rfl
    · rw [if_neg hn]
      show n :: names (insert x v rest) = _
      simp only [ih, List.mem_cons, or_iff_right (Ne.symm hn)]
      split <;> rfl

theorem nodup_names_insert (h : b.names.Nodup) (x : String) (v : α) :
    (b.insert x v).names.Nodup := by
  rw [names_insert]
  split
  · exact h
  · rename_i hx
    refine List.nodup_append.mpr ⟨h, List.nodup_cons.mpr ⟨List.not_mem_nil, List.nodup_nil⟩, ?_⟩
    rintro y hy z hz rfl
    exact hx (List.mem_singleton.mp hz ▸ hy)

/-- With distinct names, looking up finds what is there. -/
theorem find?_eq_some_iff_mem (h : b.names.Nodup) {x : String} {v : α} :
    b.find? x = some v ↔ (x, v) ∈ b := by
  induction b with
  | nil => exact iff_of_false (Option.some_ne_none v).symm List.not_mem_nil
  | cons p rest ih =>
    obtain ⟨n, w⟩ := p
    obtain ⟨hnot, hrest⟩ := List.nodup_cons.mp h
    rw [find?, List.mem_cons, Prod.mk.injEq]
    by_cases hn : n = x
    · subst hn
      have hmem : (n, v) ∉ rest := fun hmem => hnot (List.mem_map.mpr ⟨(n, v), hmem, rfl⟩)
      rw [if_pos rfl, Option.some.injEq, or_iff_left hmem]
      exact ⟨fun heq => ⟨rfl, heq.symm⟩, fun heq => heq.2.symm⟩
    · rw [if_neg hn, ih hrest, or_iff_right fun heq => hn heq.1.symm]

theorem sorted_perm (b : Bindings α) : b.sorted.Perm b := List.mergeSort_perm b _

theorem names_sorted_perm (b : Bindings α) : b.sorted.names.Perm b.names :=
  b.sorted_perm.map Prod.fst

theorem find?_sorted (h : b.names.Nodup) (x : String) : b.sorted.find? x = b.find? x := by
  have hsorted := b.names_sorted_perm.nodup_iff.mpr h
  refine Option.ext fun v => ?_
  rw [find?_eq_some_iff_mem hsorted, find?_eq_some_iff_mem h, b.sorted_perm.mem_iff]

theorem pairwise_names_sorted (b : Bindings α) :
    b.sorted.names.Pairwise fun x y => Text.Utf8.le x y = true := by
  refine List.pairwise_map.mpr (List.pairwise_mergeSort ?_ ?_ b)
  · exact fun _ _ _ => Text.Utf8.le_trans
  · exact fun p q => Text.Utf8.le_total p.1 q.1

end Bindings

namespace Scopes

variable {α : Type} {s s' : Scopes α} {e i o : ScopeId} {x y : String} {v : α}

/-! ## The way out of a scope -/

/-- The way out of `i` comes to `e` without a binding of `x` on it before. -/
def Reaches (s : Scopes α) (i e : ScopeId) (x : String) : Prop :=
  ∃ inner outer, s.chain i = inner ++ e :: outer ∧ ∀ j ∈ inner, s.has j x = false

theorem chain_eq (s : Scopes α) (e : ScopeId) :
    s.chain e = e :: (s.parent? e).elim [] s.chain := by
  cases hp : s.parent? e with
  | none => exact s.chain_of_root hp
  | some p => exact s.chain_of_parent hp

/-- The depth of a scope is the number of scopes on its chain behind it. -/
theorem length_chain (s : Scopes α) (e : ScopeId) : (s.chain e).length = s.depth e + 1 := by
  have key : ∀ bound e, e < bound →
      (s.chainWithin bound e).length = s.depthWithin bound e + 1 := by
    intro bound
    induction bound with
    | zero => exact fun e h => absurd h (Nat.not_lt_zero e)
    | succ bound ih =>
      intro e h
      rw [chainWithin, depthWithin, List.length_cons]
      cases hp : s.parent? e with
      | none => rfl
      | some p =>
        have hlt : p < bound := Nat.lt_of_lt_of_le (s.parent?_lt hp) (Nat.le_of_lt_succ h)
        exact congrArg (· + 1) (ih p hlt)
  exact key (e + 1) e (Nat.lt_succ_self e)

theorem depth_eq (s : Scopes α) (e : ScopeId) :
    s.depth e = (s.parent? e).elim 0 fun p => s.depth p + 1 := by
  have hlength := s.length_chain e
  rw [s.chain_eq, List.length_cons] at hlength
  rw [← Nat.succ.inj hlength]
  cases s.parent? e with
  | none => rfl
  | some p => exact s.length_chain p

theorem owner?_eq_some_iff :
    s.owner? e x = some o ↔ s.Reaches e o x ∧ s.has o x = true := by
  rw [owner?_eq_find?, List.find?_eq_some_iff_append, and_comm]
  simp only [Reaches, Bool.not_eq_true']

theorem get?_eq_some_iff :
    s.get? e x = some v ↔ ∃ o, s.Reaches e o x ∧ (s.bindings o).find? x = some v := by
  refine Option.bind_eq_some_iff.trans ?_
  refine exists_congr fun o => and_congr_left fun hv => ?_
  have hhas : s.has o x = true := by rw [has, hv]; rfl
  rw [owner?_eq_some_iff, and_iff_left hhas]

theorem owner?_eq_none_iff :
    s.owner? e x = none ↔ ∀ i ∈ s.chain e, s.has i x = false := by
  rw [owner?_eq_find?, List.find?_eq_none]
  simp only [Bool.not_eq_true]

theorem isSome_get? (s : Scopes α) (e : ScopeId) (x : String) :
    (s.get? e x).isSome = (s.owner? e x).isSome := by
  rw [get?]
  cases howner : s.owner? e x with
  | none => rfl
  | some o => exact s.has_of_owner? howner

theorem get?_eq_none_iff : s.get? e x = none ↔ ∀ i ∈ s.chain e, s.has i x = false := by
  rw [← owner?_eq_none_iff, ← Option.not_isSome_iff_eq_none, isSome_get?,
    Option.not_isSome_iff_eq_none]

/-! ## What a change shows -/

/-- A change to a scope shows in those that come to it before they meet another binding. -/
theorem get?_define_of_reaches (he : e < s.size) (h : s.Reaches i e x) (v : α) :
    (s.define e x v).get? i x = some v := by
  obtain ⟨inner, outer, hchain, hinner⟩ := h
  -- `e` is on the chain only once, so nothing changes in front of it.
  have hnodup := s.nodup_chain i
  rw [hchain] at hnodup
  have hnot : e ∉ inner := fun hmem =>
    (List.nodup_append.mp hnodup).2.2 e hmem e (List.mem_cons_self ..) rfl
  refine get?_eq_some_iff.mpr ⟨e, ⟨inner, outer, ?_, fun j hj => ?_⟩, ?_⟩
  · rw [chain_define, hchain]
  · have hne : j ≠ e := fun heq => hnot (heq ▸ hj)
    rw [s.has_define he, hinner j hj, decide_eq_false hne, Bool.false_and, Bool.false_or]
  · have hframe := congrFun (s.frame_define he x v e) x
    rw [if_pos rfl, Frame.set, if_pos rfl] at hframe
    exact hframe

/-- Nothing changes for other names. -/
theorem get?_define_of_ne (he : e < s.size) (h : y ≠ x) (v : α) (i : ScopeId) :
    (s.define e x v).get? i y = s.get? i y := by
  have hframe : ∀ j, (s.define e x v).frame j y = s.frame j y := by
    intro j
    rw [s.frame_define he]
    split
    · rename_i hj
      rw [Frame.set, if_neg h, hj]
    · rfl
  rw [get?_eq_lookup, get?_eq_lookup, frames, frames, chain_define, Frame.lookup, Frame.lookup,
    List.findSome?_map, List.findSome?_map]
  exact congrArg (fun f => List.findSome? f (s.chain i)) (funext hframe)

/-- A change to a scope does not show where the way out does not come to it, or only behind another
binding. -/
theorem get?_define_of_not_reaches (he : e < s.size) (h : ¬s.Reaches i e x) (v : α) :
    (s.define e x v).get? i x = s.get? i x := by
  rw [get?_eq_lookup, get?_eq_lookup, frames, frames, chain_define, Frame.lookup, Frame.lookup]
  unfold Reaches at h
  generalize s.chain i = ids at h
  induction ids with
  | nil => rfl
  | cons j rest ih =>
    have hne : j ≠ e := fun heq => h ⟨[], rest, by rw [heq]; rfl, by simp⟩
    rw [List.map_cons, List.map_cons, List.findSome?_cons, List.findSome?_cons,
      s.frame_define he, if_neg hne]
    cases hj : s.frame j x with
    | some w => rfl
    | none =>
      refine ih fun hrest => ?_
      obtain ⟨inner, outer, rfl, hinner⟩ := hrest
      have hhas : s.has j x = false := congrArg Option.isSome hj
      exact h ⟨j :: inner, outer, rfl, List.forall_mem_cons.mpr ⟨hhas, hinner⟩⟩

/-! ## Assignments -/

theorem assign?_eq_some_iff :
    s.assign? e x v = some s' ↔ ∃ o, s.owner? e x = some o ∧ s.define o x v = s' :=
  Option.map_eq_some_iff

theorem isSome_assign? (s : Scopes α) (e : ScopeId) (x : String) (v : α) :
    (s.assign? e x v).isSome = (s.get? e x).isSome := by
  rw [assign?, Option.isSome_map, isSome_get?]

theorem has_assign? (h : s.assign? e x v = some s') (i : ScopeId) (y : String) :
    s'.has i y = s.has i y := by
  obtain ⟨o, ho, rfl⟩ := assign?_eq_some_iff.mp h
  exact s.has_define_of_has (s.has_of_owner? ho) v i y

theorem parent?_assign? (h : s.assign? e x v = some s') (i : ScopeId) :
    s'.parent? i = s.parent? i := by
  obtain ⟨o, -, rfl⟩ := assign?_eq_some_iff.mp h
  exact s.parent?_define o x v i

/-- After an assignment the value is new exactly for the scopes that share the binding. -/
theorem get?_assign? (h : s.assign? e x v = some s') (i : ScopeId) (y : String) :
    s'.get? i y = if y = x ∧ s.owner? i x = s.owner? e x then some v else s.get? i y := by
  obtain ⟨o, ho, rfl⟩ := assign?_eq_some_iff.mp h
  have hhas := s.has_of_owner? ho
  have hlt := s.lt_size_of_has hhas
  by_cases hy : y = x
  · subst hy
    rw [ho]
    by_cases hi : s.owner? i y = some o
    · rw [if_pos ⟨rfl, hi⟩]
      exact get?_define_of_reaches hlt (owner?_eq_some_iff.mp hi).1 v
    · rw [if_neg fun heq => hi heq.2]
      exact get?_define_of_not_reaches hlt (fun hr => hi (owner?_eq_some_iff.mpr ⟨hr, hhas⟩)) v
  · rw [if_neg fun heq => hy heq.1]
    exact get?_define_of_ne hlt hy v i

/-! ## Names that a scope lists -/

/-- No scope binds a name twice. -/
def NamesDistinct (s : Scopes α) : Prop := ∀ i, (s.bindings i).names.Nodup

theorem bindings_add (s : Scopes α) (parent : Option ScopeId) (i : ScopeId) :
    (s.add parent).bindings i = s.bindings i ∨ (s.add parent).bindings i = [] := by
  rw [bindings, add, Array.getElem?_push]
  split
  · exact .inr rfl
  · exact .inl rfl

theorem bindings_define (s : Scopes α) (e : ScopeId) (x : String) (v : α) (i : ScopeId) :
    (s.define e x v).bindings i = s.bindings i ∨
      (s.define e x v).bindings i = (s.bindings i).insert x v := by
  rw [bindings, define, Array.getElem?_modify, bindings]
  split
  · cases s.scopes[i]? with
    | none => exact .inl rfl
    | some scope => exact .inr rfl
  · exact .inl rfl

theorem NamesDistinct.add (h : s.NamesDistinct) (parent : Option ScopeId) :
    (s.add parent).NamesDistinct := by
  intro i
  obtain heq | heq := s.bindings_add parent i
  · rw [heq]
    exact h i
  · rw [heq]
    exact List.nodup_nil

theorem NamesDistinct.define (h : s.NamesDistinct) (e : ScopeId) (x : String) (v : α) :
    (s.define e x v).NamesDistinct := by
  intro i
  obtain heq | heq := s.bindings_define e x v i
  · rw [heq]
    exact h i
  · rw [heq]
    exact Bindings.nodup_names_insert (h i) x v

theorem keys_eq (s : Scopes α) (e : ScopeId) : s.keys e = (s.bindings e).sorted.names := rfl

theorem mem_keys_iff (s : Scopes α) (e : ScopeId) (x : String) :
    x ∈ s.keys e ↔ s.has e x = true := by
  rw [keys_eq, (s.bindings e).names_sorted_perm.mem_iff]
  exact Bindings.mem_names_iff

theorem NamesDistinct.nodup_keys (h : s.NamesDistinct) (e : ScopeId) : (s.keys e).Nodup :=
  (s.bindings e).names_sorted_perm.nodup_iff.mpr (h e)

/-! ## Histories -/

/-- One step in the life of a store of scopes. -/
inductive Step (α : Type) where
  | add (parent : Option ScopeId)
  | define (id : ScopeId) (name : String) (value : α)
  | assign (id : ScopeId) (name : String) (value : α)
  /-- Takes a copy of the bindings of a scope. -/
  | copy (id : ScopeId)
  /-- Binds a name in one of the copies. -/
  | alter (copy : Nat) (name : String) (value : α)

/-- The step is about the scopes and not about a copy. -/
def Step.isChange : Step α → Bool
  | .add _ | .define _ _ _ | .assign _ _ _ => true
  | .copy _ | .alter _ _ _ => false

/-- A store of scopes, with the copies taken from it so far. -/
structure Stage (α : Type) where
  scopes : Scopes α
  copies : List (Bindings α)

namespace Stage

/-- Nothing has been made yet. -/
def start : Stage α := ⟨empty, []⟩

/-- What a step makes of a stage.  An assignment to a name that is not bound changes nothing. -/
def after (st : Stage α) : Step α → Stage α
  | .add parent => { st with scopes := st.scopes.add parent }
  | .define id x v => { st with scopes := st.scopes.define id x v }
  | .assign id x v => { st with scopes := (st.scopes.assign? id x v).getD st.scopes }
  | .copy id => { st with copies := st.copies ++ [st.scopes.snapshot id] }
  | .alter k x v => { st with copies := st.copies.modify k (·.insert x v) }

/-- The stage after some steps. -/
def of (steps : List (Step α)) : Stage α := steps.foldl after start

/-- A step keeps the names in each scope distinct. -/
theorem namesDistinct_after {st : Stage α} (h : st.scopes.NamesDistinct) (step : Step α) :
    (st.after step).scopes.NamesDistinct := by
  cases step with
  | add parent => exact h.add parent
  | define id x v => exact h.define id x v
  | assign id x v =>
    rw [after]
    cases hassign : st.scopes.assign? id x v with
    | none => exact h
    | some s' =>
      obtain ⟨o, -, rfl⟩ := assign?_eq_some_iff.mp hassign
      exact h.define o x v
  | copy id => exact h
  | alter k x v => exact h

theorem namesDistinct_of (steps : List (Step α)) : (of steps).scopes.NamesDistinct := by
  have key : ∀ st : Stage α, st.scopes.NamesDistinct →
      (steps.foldl after st).scopes.NamesDistinct := by
    induction steps with
    | nil => exact fun _ h => h
    | cons step rest ih => exact fun st h => ih (st.after step) (namesDistinct_after h step)
  exact key start fun _ => List.nodup_nil

/-- The scopes do not depend on the copies. -/
theorem scopes_after_congr {st st' : Stage α} (h : st.scopes = st'.scopes) (step : Step α) :
    (st.after step).scopes = (st'.after step).scopes := by
  cases step <;> simp only [after, h]

/-- Taking and changing copies leaves no trace in the scopes. -/
theorem scopes_of_filter (steps : List (Step α)) :
    (of (steps.filter Step.isChange)).scopes = (of steps).scopes := by
  have key : ∀ st st' : Stage α, st.scopes = st'.scopes →
      ((steps.filter Step.isChange).foldl after st).scopes = (steps.foldl after st').scopes := by
    induction steps with
    | nil => exact fun _ _ h => h
    | cons step rest ih =>
      intro st st' h
      cases step with
      | add _ | define _ _ _ | assign _ _ _ => exact ih _ _ (scopes_after_congr h _)
      | copy _ | alter _ _ _ => exact ih st _ h
  exact key start start rfl

end Stage

/-! ## A tree of shared scopes -/

theorem parent?_add_new (s : Scopes α) {parent : Option ScopeId}
    (h : ∀ p, parent = some p → p < s.size) : (s.add parent).parent? s.size = parent := by
  cases parent with
  | none =>
    rw [parent?, add, Array.getElem?_push, size, if_pos rfl]
    rfl
  | some p => exact s.parent?_add_size (h p rfl)

/-- What holds of a store of scopes at any time. -/
structure SharedTree (s : Scopes α) : Prop where
  /-- The chain of a scope goes on with that of its parent, so it is finite. -/
  chain_eq : ∀ e, s.chain e = e :: (s.parent? e).elim [] s.chain
  depth_eq : ∀ e, s.depth e = (s.parent? e).elim 0 fun p => s.depth p + 1
  parent?_add : ∀ parent, (∀ p, parent = some p → p < s.size) →
    (s.add parent).parent? s.size = parent
  /-- The owner of a name is the first scope on the chain that binds it. -/
  owner? : ∀ e x o, s.owner? e x = some o ↔ s.Reaches e o x ∧ s.has o x = true
  /-- A name means its binding in the first scope on the chain that has one. -/
  get?_eq_some : ∀ e x v,
    s.get? e x = some v ↔ ∃ o, s.Reaches e o x ∧ (s.bindings o).find? x = some v
  get?_eq_none : ∀ e x, s.get? e x = none ↔ ∀ i ∈ s.chain e, s.has i x = false
  /-- An assignment succeeds if the name is bound. -/
  isSome_assign? : ∀ e x v, (s.assign? e x v).isSome = (s.get? e x).isSome
  parent?_assign? : ∀ e x v s', s.assign? e x v = some s' → ∀ i, s'.parent? i = s.parent? i
  has_assign? : ∀ e x v s', s.assign? e x v = some s' → ∀ i y, s'.has i y = s.has i y
  /-- An assignment shows in the scopes for which the name has the same owner. -/
  get?_assign? : ∀ e x v s', s.assign? e x v = some s' → ∀ i y,
    s'.get? i y = if y = x ∧ s.owner? i x = s.owner? e x then some v else s.get? i y
  /-- A declaration shows in the scopes whose way out meets no other binding before. -/
  get?_define : ∀ e < s.size, ∀ x v i, s.Reaches i e x → (s.define e x v).get? i x = some v
  get?_define_of_ne : ∀ e < s.size, ∀ x v i y, (s.define e x v).get? i y ≠ s.get? i y →
    y = x ∧ s.Reaches i e x
  /-- The names that a scope lists are in byte order, each once. -/
  keys_sorted : ∀ e, (s.keys e).Pairwise fun x y => Text.Utf8.le x y = true
  nodup_keys : ∀ e, (s.keys e).Nodup
  mem_keys : ∀ e x, x ∈ s.keys e ↔ s.has e x = true
  /-- A copy of the bindings of a scope has the same values. -/
  find?_snapshot : ∀ e x, (s.snapshot e).find? x = (s.bindings e).find? x

theorem NamesDistinct.sharedTree (h : s.NamesDistinct) : s.SharedTree where
  chain_eq := s.chain_eq
  depth_eq := s.depth_eq
  parent?_add _ := s.parent?_add_new
  owner? _ _ _ := owner?_eq_some_iff
  get?_eq_some _ _ _ := get?_eq_some_iff
  get?_eq_none _ _ := get?_eq_none_iff
  isSome_assign? := s.isSome_assign?
  parent?_assign? _ _ _ _ := Scopes.parent?_assign?
  has_assign? _ _ _ _ := Scopes.has_assign?
  get?_assign? _ _ _ _ := Scopes.get?_assign?
  get?_define _ he _ v _ hreaches := get?_define_of_reaches he hreaches v
  get?_define_of_ne e he x v i y hne := by
    by_cases hy : y = x
    · subst hy
      exact ⟨rfl, Classical.byContradiction fun h => hne (get?_define_of_not_reaches he h v)⟩
    · exact absurd (Scopes.get?_define_of_ne he hy v i) hne
  keys_sorted e := (s.bindings e).pairwise_names_sorted
  nodup_keys := h.nodup_keys
  mem_keys := s.mem_keys_iff
  find?_snapshot e := Bindings.find?_sorted (h e)

/-- After any steps the store is a tree of shared scopes, an assignment that fails leaves everything
as it is, and whatever was done to copies has not changed a scope. -/
theorem sharedTree_of_steps (steps : List (Step α)) :
    (Stage.of steps).scopes.SharedTree ∧
    (∀ e x v, (Stage.of steps).scopes.get? e x = none →
      (Stage.of (steps ++ [.assign e x v])) = Stage.of steps) ∧
    (Stage.of (steps.filter Step.isChange)).scopes = (Stage.of steps).scopes := by
  refine ⟨(Stage.namesDistinct_of steps).sharedTree, fun e x v hnone => ?_,
    Stage.scopes_of_filter steps⟩
  have hassign : (Stage.of steps).scopes.assign? e x v = none := by
    rw [← Option.not_isSome_iff_eq_none, isSome_assign?, hnone]
    exact Bool.false_ne_true
  show List.foldl Stage.after Stage.start (steps ++ [.assign e x v]) = _
  rw [List.foldl_append]
  show (Stage.of steps).after (.assign e x v) = _
  rw [Stage.after, hassign]
  rfl

end Scopes

end Lox
