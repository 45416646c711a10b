import Lox.Proofs.Shell.Script

/-!
# Blocks of lines

The answers to the prompts of a dialogue fall into blocks.  A block is a number of lines and what
ended it: its last line made it a source, input ended, the user gave it up, or reading failed.  No
line is lost between blocks and none belongs to two of them.  There is only one way to cut the
answers, because a block ends as early as it can (`Shell.Cuts`), and what the dialogue does can be
said of its blocks one by one (`Shell.Tells`).  That it does this is `Shell.Dialogue.hold_blocks`.
-/

namespace Lox

namespace Shell

/-! ## Blocks -/

/-- What ends a block of lines. -/
inductive Ending where
  /-- The lines make a source. -/
  | ready
  | ended
  | abort
  | failure (message : String)

/-- The answer behind the lines, if it takes one to end them. -/
def Ending.answer? : Ending → Option Answer
  | ready => none
  | ended => some .ended
  | abort => some .abort
  | failure message => some (.failure message)

/-- Lines that are read one after the other, up to where the dialogue begins anew. -/
structure Block where
  lines : List String
  ending : Ending

namespace Block

/-- The answers that the block is made of. -/
def answers (b : Block) : List Answer := b.lines.map .line ++ b.ending.answer?.toList

/-- The source that the block hands over.  The end of input hands over the lines before it, if there
are any; lines that are given up or cannot be read on are dropped. -/
def source? (b : Block) : Option String :=
  match b.ending with
  | .ready => some (textOf b.lines)
  | .ended => if b.lines = [] then none else some (textOf b.lines)
  | .abort | .failure _ => none

/-- The dialogue is over with this block: reading failed, or there was nothing left to read. -/
def Closes (b : Block) : Prop :=
  match b.ending with
  | .ended => b.lines = []
  | .failure _ => True
  | .ready | .abort => False

/-- The prompt when so many lines of a block have been read. -/
def promptAfter (lines : Nat) : String := if lines = 0 then "> " else "... "

/-- The prompts for the answers of the block. -/
def prompts (b : Block) : List String := (List.range b.answers.length).map promptAfter

/-- The text is enough for a source: it is blank, or no more of it is needed. -/
def Enough (text : String) : Prop :=
  Text.isBlankText text = true ∨ Source.isIncomplete text = false

/-- The block ends with the first of its lines that makes it a source, or with none. -/
structure Whole (b : Block) : Prop where
  enough_iff : ∀ lines, lines <+: b.lines → lines ≠ [] →
    (Enough (textOf lines) ↔ lines = b.lines ∧ b.ending = .ready)
  ne_nil : b.ending = .ready → b.lines ≠ []

end Block

/-- The answers are cut into whole blocks.  The last of them closes the dialogue and no other one
does; what is behind it is not read. -/
inductive Cuts : List Answer → List Block → Prop
  | last {b : Block} {unread : List Answer} (hb : b.Whole) (hcloses : b.Closes) :
      Cuts (b.answers ++ unread) [b]
  | cons {b : Block} {rest : List Answer} {blocks : List Block} (hb : b.Whole)
      (hopen : ¬ b.Closes) (hrest : Cuts rest blocks) : Cuts (b.answers ++ rest) (b :: blocks)

/-! ## What is done with them -/

/-- The sources that are not blank. -/
def spoken (sources : List String) : List String :=
  sources.filter fun text => !Text.isBlankText text

/-- A source that is run, with what comes of it. -/
structure Exchange where
  source : String
  diagnostics : List Diagnostic
  results : List StatementResult

/-- Sources are run once each, one after the other in one session. -/
def converse (s : Session) : List String → List Exchange × Session
  | [] => ([], s)
  | text :: rest =>
    let source := Source.read Dialogue.label text
    let run := s.run Session.ampleFuel true source.program
    let later := converse run.2 rest
    (⟨text, source.diagnostics, run.1⟩ :: later.1, later.2)

/-- The source that is taken in. -/
def Intake.source? : Intake → Option String
  | source text => some text
  | _ => none

namespace Turn

/-- The source that the turn takes in. -/
def source? (t : Turn) : Option String := t.intake.source?

/-- The source that the turn runs, with what comes of it. -/
def exchange? (t : Turn) : Option Exchange :=
  (t.source?.filter fun text => !Text.isBlankText text).map fun text =>
    ⟨text, t.diagnostics, t.results⟩

end Turn

/-- The turns are those for some blocks, from the session `s` to the session `s'`. -/
structure Tells (s : Session) (blocks : List Block) (turns : List Turn) (s' : Session) : Prop where
  prompts_eq : turns.map Turn.prompt = blocks.flatMap Block.prompts
  sources_eq : turns.filterMap Turn.source? = blocks.filterMap Block.source?
  /-- In the history a source has a space for each of its newlines. -/
  history_eq : (turns.flatMap Turn.entries).map String.toList =
    (spoken (blocks.filterMap Block.source?)).map fun text =>
      text.toList.map fun c => if c = '\n' then ' ' else c
  exchanges_eq : turns.filterMap Turn.exchange? =
    (converse s (spoken (blocks.filterMap Block.source?))).1
  session_eq : s' = (converse s (spoken (blocks.filterMap Block.source?))).2
  /-- A turn that runs nothing has nothing to report. -/
  quiet : ∀ t ∈ turns, t.exchange? = none → t.diagnostics = [] ∧ t.results = []

/-! ## Cutting answers -/

theorem textOf_concat {lines : List String} (h : lines ≠ []) (line : String) :
    textOf (lines ++ [line]) = textOf lines ++ "\n" ++ line := by
  induction lines with
  | nil => exact absurd rfl h
  | cons first lines ih =>
    cases lines with
    | nil => rw [textOf, textOf, String.intercalate_singleton]; rfl
    | cons second lines =>
      have hrest := ih (List.cons_ne_nil second lines)
      rw [textOf, textOf] at hrest ⊢
      rw [List.cons_append, List.cons_append, String.intercalate_cons_cons, ← List.cons_append,
        hrest, String.intercalate_cons_cons]
      simp only [String.append_assoc]

/-- None of the first lines makes a source. -/
def Unready (lines : List String) : Prop :=
  ∀ some, some <+: lines → some ≠ [] → ¬ Block.Enough (textOf some)

theorem enough_iff_isReady {text : String} : Block.Enough text ↔ Intake.isReady text = true := by
  rw [Block.Enough, Intake.isReady, Bool.or_eq_true, Bool.not_eq_true']

theorem unready_nil : Unready [] := fun _ hlines hne => absurd (List.prefix_nil.mp hlines) hne

theorem Unready.concat {lines : List String} {line : String} (h : Unready lines)
    (hline : ¬ Block.Enough (textOf (lines ++ [line]))) : Unready (lines ++ [line]) := by
  intro first hfirst hne
  rcases List.prefix_concat_iff.mp hfirst with rfl | hfirst
  · exact hline
  · exact h first hfirst hne

theorem Unready.of_append {pre lines : List String} (h : Unready (pre ++ lines)) : Unready pre :=
  fun first hfirst => h first (hfirst.trans (List.prefix_append pre lines))

/-- Lines that are no source yet are ended by an answer. -/
theorem Unready.whole {lines : List String} (h : Unready lines) {ending : Ending}
    (hending : ending ≠ .ready) : Block.Whole ⟨lines, ending⟩ where
  enough_iff first hfirst hne :=
    ⟨fun henough => absurd henough (h first hfirst hne), fun hall => absurd hall.2 hending⟩
  ne_nil heq := absurd heq hending

/-- A line that makes the lines before it a source ends them. -/
theorem Unready.whole_concat {lines : List String} (h : Unready lines) {line : String}
    (hline : Block.Enough (textOf (lines ++ [line]))) :
    Block.Whole ⟨lines ++ [line], .ready⟩ where
  enough_iff first hfirst hne := by
    rcases List.prefix_concat_iff.mp hfirst with rfl | hfirst
    · exact ⟨fun _ => ⟨rfl, rfl⟩, fun _ => hline⟩
    · refine ⟨fun henough => absurd henough (h first hfirst hne), ?_⟩
      rintro ⟨rfl, -⟩
      exact absurd hfirst.length_le (by simp)
  ne_nil _ := List.append_ne_nil_of_right_ne_nil _ (List.cons_ne_nil line [])

/-- An answer ends the block, and further answers are cut behind it. -/
theorem exists_cuts_behind {b : Block} (hb : b.Whole) {rest : List Answer}
    (hrest : ∃ blocks, Cuts rest blocks) : ∃ blocks, Cuts (b.answers ++ rest) blocks := by
  by_cases hcloses : b.Closes
  · exact ⟨[b], .last hb hcloses⟩
  · obtain ⟨blocks, hblocks⟩ := hrest
    exact ⟨b :: blocks, .cons hb hcloses hblocks⟩

/-- There is a way to cut the answers until input ends for good, which it has done when it ends
behind no line. -/
theorem exists_cuts {lines : List String} (h : Unready lines) (answers : List Answer) :
    ∃ blocks, Cuts (lines.map .line ++ (answers ++ [.ended, .ended])) blocks := by
  induction answers generalizing lines with
  | nil =>
    have hlast : Cuts [.ended] [⟨[], .ended⟩] :=
      @Cuts.last ⟨[], .ended⟩ [] (unready_nil.whole nofun) rfl
    have hwhole : Block.Whole ⟨lines, .ended⟩ := h.whole nofun
    have hblocks := exists_cuts_behind hwhole ⟨_, hlast⟩
    rw [Block.answers, List.append_assoc] at hblocks
    exact hblocks
  | cons answer answers ih =>
    have hend (ending : Ending) (hending : ending.answer? = some answer) :
        ∃ blocks, Cuts (lines.map .line ++ (answer :: answers ++ [.ended, .ended])) blocks := by
      have hwhole : Block.Whole ⟨lines, ending⟩ := h.whole (by rintro rfl; cases hending)
      have hblocks := exists_cuts_behind hwhole (ih unready_nil)
      rw [Block.answers, hending, List.append_assoc] at hblocks
      exact hblocks
    cases answer with
    | line text =>
      by_cases henough : Block.Enough (textOf (lines ++ [text]))
      · have hblocks := exists_cuts_behind (h.whole_concat henough) (ih unready_nil)
        simpa [Block.answers, Ending.answer?] using hblocks
      · simpa using ih (h.concat henough)
    | abort => exact hend .abort rfl
    | failure message => exact hend (.failure message) rfl
    | ended => exact hend .ended rfl

/-! ## One way to cut -/

theorem Block.Whole.ready_iff {b : Block} (hb : b.Whole) :
    b.ending = .ready ↔ b.lines ≠ [] ∧ Enough (textOf b.lines) := by
  constructor
  · intro hready
    have hne := hb.ne_nil hready
    exact ⟨hne, (hb.enough_iff b.lines (List.prefix_refl _) hne).mpr ⟨rfl, hready⟩⟩
  · rintro ⟨hne, henough⟩
    exact ((hb.enough_iff b.lines (List.prefix_refl _) hne).mp henough).2

/-- The answer that ends a block is no line. -/
theorem Ending.answer?_ne_line (e : Ending) (text : String) : e.answer? ≠ some (.line text) := by
  cases e <;> exact nofun

theorem Ending.answer?_eq_none {e : Ending} : e.answer? = none ↔ e = .ready := by
  cases e <;> simp [answer?]

theorem Ending.answer?_injective : Function.Injective Ending.answer? := by
  intro e e' h
  cases e <;> cases e' <;> cases h <;> rfl

/-- A whole block does not end before another one that begins like it. -/
theorem Block.Whole.lines_eq {b b' : Block} (hb : b.Whole) (hb' : b'.Whole)
    {more rest rest' : List Answer} (hmore : b'.lines.map .line = b.lines.map .line ++ more)
    (h : b.ending.answer?.toList ++ rest = more ++ rest') : b.lines = b'.lines := by
  obtain ⟨first, lines, hlines, hfirst, rfl⟩ := List.map_eq_append_iff.mp hmore
  obtain rfl := (List.map_inj_right fun _ _ => Answer.line.inj).mp hfirst
  cases lines with
  | nil => rw [hlines, List.append_nil]
  | cons line lines =>
    exfalso
    cases hanswer : b.ending.answer? with
    | some answer =>
      rw [hanswer] at h
      obtain ⟨rfl, -⟩ := List.cons.inj h
      exact b.ending.answer?_ne_line line hanswer
    | none =>
      obtain ⟨hne, henough⟩ := hb.ready_iff.mp (Ending.answer?_eq_none.mp hanswer)
      have hprefix : b.lines <+: b'.lines := hlines ▸ List.prefix_append _ _
      have hsame := ((hb'.enough_iff b.lines hprefix hne).mp henough).1
      rw [hlines] at hsame
      exact absurd (List.append_right_eq_self.mp hsame.symm) (List.cons_ne_nil line lines)

/-- Two whole blocks at the beginning of the same answers are the same. -/
theorem Block.Whole.eq_of_append {b b' : Block} (hb : b.Whole) (hb' : b'.Whole)
    {rest rest' : List Answer} (h : b.answers ++ rest = b'.answers ++ rest') :
    b = b' ∧ rest = rest' := by
  rw [answers, answers, List.append_assoc, List.append_assoc] at h
  have hlines : b.lines = b'.lines := by
    rcases List.append_eq_append_iff.mp h with ⟨more, hmore, hrest⟩ | ⟨more, hmore, hrest⟩
    · exact hb.lines_eq hb' hmore hrest
    · exact (hb'.lines_eq hb hmore hrest).symm
  rw [hlines] at h
  have hnone : b.ending.answer? = none ↔ b'.ending.answer? = none := by
    rw [Ending.answer?_eq_none, Ending.answer?_eq_none, hb.ready_iff, hb'.ready_iff, hlines]
  have hending : b.ending = b'.ending ∧ rest = rest' := by
    have hends := List.append_cancel_left h
    cases hanswer : b.ending.answer? with
    | none =>
      rw [hanswer, hnone.mp hanswer] at hends
      exact ⟨Ending.answer?_injective (hanswer.trans (hnone.mp hanswer).symm), hends⟩
    | some answer =>
      obtain ⟨answer', hanswer'⟩ : ∃ a, b'.ending.answer? = some a := by
        refine Option.ne_none_iff_exists'.mp fun hnot => ?_
        rw [hnone.mpr hnot] at hanswer
        cases hanswer
      rw [hanswer, hanswer'] at hends
      obtain ⟨rfl, hrest⟩ := List.cons.inj hends
      exact ⟨Ending.answer?_injective (hanswer.trans hanswer'.symm), hrest⟩
  cases b
  cases b'
  exact ⟨(Block.mk.injEq ..).mpr ⟨hlines, hending.1⟩, hending.2⟩

/-- The answers can be cut in one way only. -/
theorem Cuts.unique {answers : List Answer} {blocks blocks' : List Block}
    (h : Cuts answers blocks) (h' : Cuts answers blocks') : blocks = blocks' := by
  induction h generalizing blocks' with
  | @last b unread hb hcloses =>
    generalize hall : b.answers ++ unread = all at h'
    cases h' with
    | last hb' hcloses' => rw [(hb.eq_of_append hb' hall).1]
    | cons hb' hopen hrest =>
      obtain ⟨rfl, -⟩ := hb.eq_of_append hb' hall
      exact absurd hcloses hopen
  | @cons b rest blocks hb hopen hrest ih =>
    generalize hall : b.answers ++ rest = all at h'
    cases h' with
    | last hb' hcloses =>
      obtain ⟨rfl, -⟩ := hb.eq_of_append hb' hall
      exact absurd hcloses hopen
    | cons hb' hopen' hrest' =>
      obtain ⟨rfl, rfl⟩ := hb.eq_of_append hb' hall
      rw [ih hrest']

/-! ## Sources in one session -/

theorem spoken_append (xs ys : List String) : spoken (xs ++ ys) = spoken xs ++ spoken ys :=
  List.filter_append ..

theorem converse_append (s : Session) (xs ys : List String) :
    converse s (xs ++ ys) =
      let later := converse (converse s xs).2 ys
      ((converse s xs).1 ++ later.1, later.2) := by
  induction xs generalizing s with
  | nil => rfl
  | cons x xs ih => simp only [List.cons_append, converse, ih]

namespace Tells

variable {s s₁ s₂ : Session} {blocks blocks' : List Block} {turns turns' : List Turn}

/-- Blocks are told of one after the other. -/
theorem append (h : Tells s blocks turns s₁) (h' : Tells s₁ blocks' turns' s₂) :
    Tells s (blocks ++ blocks') (turns ++ turns') s₂ where
  prompts_eq := by rw [List.map_append, List.flatMap_append, h.prompts_eq, h'.prompts_eq]
  sources_eq := by
    rw [List.filterMap_append, List.filterMap_append, h.sources_eq, h'.sources_eq]
  history_eq := by
    rw [List.flatMap_append, List.map_append, List.filterMap_append, spoken_append,
      List.map_append, h.history_eq, h'.history_eq]
  exchanges_eq := by
    rw [List.filterMap_append, List.filterMap_append, spoken_append, converse_append,
      h.exchanges_eq, h'.exchanges_eq, h.session_eq]
  session_eq := by
    rw [List.filterMap_append, spoken_append, converse_append, h'.session_eq, h.session_eq]
  quiet t ht := (List.mem_append.mp ht).elim (h.quiet t) (h'.quiet t)

end Tells

/-- A turn that takes a line in and waits for more. -/
def Turn.Waits (t : Turn) : Prop :=
  (∃ text, t.intake = .waiting text) ∧ t.diagnostics = [] ∧ t.results = []

theorem Turn.toList_entries (t : Turn) :
    t.entries.map String.toList = (spoken t.source?.toList).map fun text =>
      text.toList.map fun c => if c = '\n' then ' ' else c := by
  obtain ⟨prompt, intake, diagnostics, results⟩ := t
  cases intake with
  | source text =>
    simp only [entries, source?, Intake.source?, spoken, Option.toList, List.filter_cons,
      List.filter_nil]
    cases Text.isBlankText text with
    | true => rfl
    | false => exact congrArg (fun line => [line]) String.toList_ofList
  | waiting text => rfl
  | dropped => rfl
  | closed failure? => rfl

theorem filterMap_eq_toList {α β : Type} (f : α → Option β) (a : α) :
    [a].filterMap f = (f a).toList := by
  rw [List.filterMap_cons]
  cases f a <;> rfl

namespace Dialogue

variable {d : Dialogue} {answer : Answer}

theorem held_cons (h : (d.step answer).1.intake.isClosed = false) (rest : List Answer) :
    d.held (answer :: rest) =
      ((d.step answer).1 :: ((d.step answer).2.held rest).1, ((d.step answer).2.held rest).2) := by
  simp only [held, h, Bool.false_eq_true, if_false]

theorem held_closed (h : (d.step answer).1.intake.isClosed = true) (rest : List Answer) :
    d.held (answer :: rest) = ([(d.step answer).1], (d.step answer).2) := by
  simp only [held, h, if_true]

/-- When the answers are over, input ends for good. -/
theorem held_append_ended (d : Dialogue) (answers : List Answer) :
    d.held (answers ++ [.ended, .ended]) = d.held answers := by
  induction answers generalizing d with
  | nil =>
    cases hpending : d.pending.isEmpty with
    | true => rw [List.nil_append, held, held, step_ended hpending]; rfl
    | false =>
      obtain ⟨hintake, hnone⟩ := step_source (next_ended hpending)
      have hlast := step_ended (d := (d.step .ended).2) (by rw [hnone]; rfl)
      simp only [List.nil_append, held, hintake, hlast]
      rfl
  | cons answer rest ih => simp only [List.cons_append, held, ih]

/-- All that an answer can bring: it makes no source and nothing is run, or it makes one, which is
run unless it is blank. -/
theorem step_cases (d : Dialogue) (answer : Answer) :
    ((Intake.next d.pending answer).source? = none ∧
      d.step answer = (⟨d.prompt, Intake.next d.pending answer, [], []⟩,
        ⟨d.session, (Intake.next d.pending answer).pending⟩)) ∨
    ∃ text, Intake.next d.pending answer = .source text ∧
      (Text.isBlankText text = true ∧
        d.step answer = (⟨d.prompt, .source text, [], []⟩, ⟨d.session, ""⟩) ∨
      Text.isBlankText text = false ∧
        d.step answer =
          let source := Source.read label text
          let run := d.session.run Session.ampleFuel true source.program
          (⟨d.prompt, .source text, source.diagnostics, run.1⟩, ⟨run.2, ""⟩)) := by
  cases hnext : Intake.next d.pending answer with
  | source text =>
    refine .inr ⟨text, rfl, ?_⟩
    cases hblank : Text.isBlankText text with
    | true => exact .inl ⟨rfl, by simp only [step, hnext, hblank, if_true]⟩
    | false => exact .inr ⟨rfl, by simp only [step, hnext, hblank, Bool.false_eq_true, if_false]⟩
  | waiting text => exact .inl ⟨rfl, step_waiting hnext⟩
  | dropped | closed failure? =>
    refine .inl ⟨rfl, ?_⟩
    simp only [step, hnext]

/-- A turn has the prompt for the lines so far and what comes of the answer, and leaves the lines
that still wait. -/
theorem parts_step (d : Dialogue) (answer : Answer) :
    (d.step answer).1.prompt = d.prompt ∧
    (d.step answer).1.intake = Intake.next d.pending answer ∧
    (d.step answer).2.pending = (Intake.next d.pending answer).pending := by
  obtain ⟨-, hstep⟩ | ⟨text, hnext, ⟨-, hstep⟩ | ⟨-, hstep⟩⟩ := d.step_cases answer
  · rw [hstep]
    exact ⟨rfl, rfl, rfl⟩
  · rw [hstep, hnext]
    exact ⟨rfl, rfl, rfl⟩
  · rw [hstep, hnext]
    exact ⟨rfl, rfl, rfl⟩

/-- The source that an answer makes is run if it is not blank, and where nothing is run nothing is
reported. -/
theorem exchange_step (d : Dialogue) (answer : Answer) :
    ((d.step answer).1.exchange?.toList, (d.step answer).2.session) =
        converse d.session (spoken (d.step answer).1.source?.toList) ∧
      ((d.step answer).1.exchange? = none →
        (d.step answer).1.diagnostics = [] ∧ (d.step answer).1.results = []) := by
  obtain ⟨hnone, hstep⟩ | ⟨text, -, ⟨hblank, hstep⟩ | ⟨hblank, hstep⟩⟩ := d.step_cases answer
  · rw [hstep, Turn.exchange?, Turn.source?, hnone]
    exact ⟨rfl, fun _ => ⟨rfl, rfl⟩⟩
  · rw [hstep]
    simp [Turn.exchange?, Turn.source?, Intake.source?, spoken, hblank, converse]
  · rw [hstep]
    simp [Turn.exchange?, Turn.source?, Intake.source?, spoken, hblank, converse]

/-- Turns that wait for more lines, and one that takes in the source of a block, are the turns of
the block. -/
theorem tells_step {b : Block} {waiting : List Turn} (hwaiting : ∀ t ∈ waiting, t.Waits)
    (hprompts : waiting.map Turn.prompt ++ [(d.step answer).1.prompt] = b.prompts)
    (hsource : (d.step answer).1.source? = b.source?) :
    Tells d.session [b] (waiting ++ [(d.step answer).1]) (d.step answer).2.session := by
  obtain ⟨hrun, hquiet⟩ := d.exchange_step answer
  have hnone : ∀ t ∈ waiting, t.source? = none := by
    rintro t ht
    obtain ⟨⟨text, hintake⟩, -⟩ := hwaiting t ht
    rw [Turn.source?, hintake]
    rfl
  have hsources : waiting.filterMap Turn.source? = [] := List.filterMap_eq_nil_iff.mpr hnone
  have hexchanges : waiting.filterMap Turn.exchange? = [] :=
    List.filterMap_eq_nil_iff.mpr fun t ht => by rw [Turn.exchange?, hnone t ht]; rfl
  have hhistory : waiting.flatMap Turn.entries = [] :=
    List.flatMap_eq_nil_iff.mpr fun t ht =>
      List.map_eq_nil_iff.mp (by rw [Turn.toList_entries, hnone t ht]; rfl)
  have hblock : [b].filterMap Block.source? = (d.step answer).1.source?.toList := by
    rw [filterMap_eq_toList, hsource]
  refine ⟨?_, ?_, ?_, ?_, ?_, ?_⟩
  · rw [List.map_append, List.map_singleton, hprompts, List.flatMap_singleton]
  · rw [List.filterMap_append, hsources, List.nil_append, filterMap_eq_toList, hblock]
  · rw [List.flatMap_append, hhistory, List.nil_append, List.flatMap_singleton,
      Turn.toList_entries, hblock]
  · rw [List.filterMap_append, hexchanges, List.nil_append, filterMap_eq_toList, hblock, ← hrun]
  · rw [hblock, ← hrun]
  · intro t ht hexchange
    rcases List.mem_append.mp ht with ht | ht
    · exact (hwaiting t ht).2
    · obtain rfl := List.mem_singleton.mp ht
      exact hquiet hexchange

/-! ## The turns of a block -/

end Dialogue

namespace Block

/-- What comes of the last answer of the block. -/
def intake (b : Block) : Intake :=
  match b.ending with
  | .ready => .source (textOf b.lines)
  | .ended => if b.lines = [] then .closed none else .source (textOf b.lines)
  | .abort => .dropped
  | .failure message => .closed (some message)

theorem source?_intake (b : Block) : b.intake.source? = b.source? := by
  obtain ⟨_ | ⟨line, lines⟩, ending⟩ := b <;> cases ending <;> rfl

theorem isClosed_intake (b : Block) : b.intake.isClosed = true ↔ b.Closes := by
  obtain ⟨lines, ending⟩ := b
  cases ending with
  | ready | abort => exact iff_of_false Bool.false_ne_true id
  | failure message => exact iff_of_true rfl trivial
  | ended =>
    cases lines with
    | nil => exact iff_of_true rfl rfl
    | cons line lines => exact iff_of_false Bool.false_ne_true (List.cons_ne_nil line lines)

/-- Nothing is pending behind a block. -/
theorem pending_intake (b : Block) : b.intake.pending = "" := by
  obtain ⟨_ | ⟨line, lines⟩, ending⟩ := b <;> cases ending <;> rfl

end Block

namespace Dialogue

variable {d : Dialogue}

/-- The dialogue has collected these lines, which are no source yet. -/
structure Collects (d : Dialogue) (lines : List String) : Prop where
  pending_eq : d.pending = textOf lines
  unready : Unready lines

/-- Nothing pending means no lines. -/
theorem Collects.isEmpty_iff {lines : List String} (h : d.Collects lines) :
    d.pending.isEmpty = true ↔ lines = [] := by
  rw [h.pending_eq]
  constructor
  · intro hempty
    by_contra hne
    have hnot := h.unready lines (List.prefix_refl _) hne
    rw [enough_iff_isReady, Bool.not_eq_true] at hnot
    rw [isEmpty_of_not_isReady hnot] at hempty
    exact Bool.false_ne_true hempty
  · rintro rfl
    rfl

theorem Collects.prompt_eq {lines : List String} (h : d.Collects lines) :
    d.prompt = Block.promptAfter lines.length := by
  rw [prompt, Block.promptAfter]
  by_cases hlines : lines = []
  · rw [if_pos (h.isEmpty_iff.mpr hlines), if_pos (by rw [hlines]; rfl)]
  · rw [if_neg (mt h.isEmpty_iff.mp hlines), if_neg (mt List.length_eq_zero_iff.mp hlines)]

theorem Collects.behind_eq {lines : List String} (h : d.Collects lines) (line : String) :
    Intake.behind d.pending line = textOf (lines ++ [line]) := by
  rw [Intake.behind]
  by_cases hlines : lines = []
  · rw [if_pos (h.isEmpty_iff.mpr hlines), hlines, List.nil_append, textOf,
      String.intercalate_singleton]
  · rw [if_neg (mt h.isEmpty_iff.mp hlines), h.pending_eq, textOf_concat hlines]

/-- Lines that are no source yet are taken in one by one, each with the prompt for its place. -/
theorem Collects.exists_held {first : List String} (h : d.Collects first) {lines : List String}
    (hlines : Unready (first ++ lines)) :
    ∃ (waiting : List Turn) (d' : Dialogue), (∀ t ∈ waiting, t.Waits) ∧
      waiting.map Turn.prompt =
        (List.range' first.length lines.length).map Block.promptAfter ∧
      d'.session = d.session ∧ d'.Collects (first ++ lines) ∧
      ∀ rest, d.held (lines.map .line ++ rest) =
        (waiting ++ (d'.held rest).1, (d'.held rest).2) := by
  induction lines generalizing d first with
  | nil =>
    exact ⟨[], d, nofun, rfl, rfl, by rwa [List.append_nil], fun rest => rfl⟩
  | cons line lines ih =>
    rw [List.append_cons] at hlines ⊢
    have hnot : Intake.isReady (textOf (first ++ [line])) = false := by
      rw [← Bool.not_eq_true, ← enough_iff_isReady]
      exact hlines.of_append _ (List.prefix_refl _) (by simp)
    have hnext : Intake.next d.pending (.line line) = .waiting (textOf (first ++ [line])) := by
      rw [next_line, h.behind_eq, hnot, if_neg Bool.false_ne_true]
    have hstep := step_waiting hnext
    have hlater : Collects ⟨d.session, textOf (first ++ [line])⟩ (first ++ [line]) :=
      ⟨rfl, hlines.of_append⟩
    obtain ⟨waiting, d', hwaiting, hprompts, hsession, hcollects, hheld⟩ := ih hlater hlines
    refine ⟨⟨d.prompt, .waiting (textOf (first ++ [line])), [], []⟩ :: waiting, d', ?_, ?_,
      hsession, hcollects, fun rest => ?_⟩
    · exact List.forall_mem_cons.mpr ⟨⟨⟨_, rfl⟩, rfl, rfl⟩, hwaiting⟩
    · rw [List.map_cons, hprompts, h.prompt_eq, List.length_append]
      rfl
    · rw [List.map_cons, List.cons_append, held_cons (by rw [hstep]; rfl), hstep, hheld]
      rfl

/-- The answer is the last one of the block, behind the lines. -/
structure Concludes (b : Block) (lines : List String) (answer : Answer) : Prop where
  answers_eq : b.answers = lines.map .line ++ [answer]
  unready : Unready lines
  next_eq : ∀ d : Dialogue, d.Collects lines → Intake.next d.pending answer = b.intake

/-- The first lines of a whole block make no source. -/
theorem unready_of_prefix {b : Block} (hb : b.Whole) {lines : List String}
    (hlines : lines <+: b.lines) (hnot : ¬ (lines = b.lines ∧ b.ending = .ready)) :
    Unready lines := by
  intro first hfirst hne henough
  obtain ⟨rfl, hready⟩ := (hb.enough_iff first (hfirst.trans hlines) hne).mp henough
  exact hnot ⟨hlines.eq_of_length_le hfirst.length_le, hready⟩

/-- A whole block has a last answer. -/
theorem exists_concludes {b : Block} (hb : b.Whole) :
    ∃ lines answer, Concludes b lines answer := by
  obtain ⟨lines, ending⟩ := b
  cases ending with
  | ready =>
    obtain ⟨hne, henough⟩ := hb.ready_iff.mp rfl
    obtain ⟨first, last, hlines⟩ := (List.eq_nil_or_concat lines).resolve_left hne
    obtain rfl : lines = first ++ [last] := hlines.trans List.concat_eq_append
    refine ⟨first, .line last, by simp [Block.answers, Ending.answer?], ?_, fun d hd => ?_⟩
    · refine unready_of_prefix hb (List.prefix_append _ _) fun h => ?_
      exact absurd (List.self_eq_append_right.mp h.1) (List.cons_ne_nil last [])
    · rw [next_line, hd.behind_eq, if_pos (enough_iff_isReady.mp henough)]
      rfl
  | ended =>
    refine ⟨lines, .ended, rfl, unready_of_prefix hb (List.prefix_refl lines) nofun, fun d hd => ?_⟩
    rw [Block.intake, ← hd.pending_eq]
    exact if_congr hd.isEmpty_iff rfl rfl
  | abort =>
    exact ⟨lines, .abort, rfl, unready_of_prefix hb (List.prefix_refl lines) nofun, fun _ _ => rfl⟩
  | failure message =>
    exact ⟨lines, .failure message, rfl, unready_of_prefix hb (List.prefix_refl lines) nofun,
      fun _ _ => rfl⟩

/-- The turns for a block tell of it. -/
theorem exists_held_block {b : Block} (hb : b.Whole) (hd : d.Collects []) :
    ∃ (turns : List Turn) (d' : Dialogue), Tells d.session [b] turns d'.session ∧
      d'.Collects [] ∧
      (b.Closes → ∀ rest, d.held (b.answers ++ rest) = (turns, d')) ∧
      (¬ b.Closes → ∀ rest, d.held (b.answers ++ rest) =
        (turns ++ (d'.held rest).1, (d'.held rest).2)) := by
  obtain ⟨lines, answer, hlast⟩ := exists_concludes hb
  have hunready : Unready ([] ++ lines) := hlast.unready
  obtain ⟨waiting, d₁, hwaiting, hprompts, hsession, hcollects, hheld⟩ := hd.exists_held hunready
  rw [List.nil_append] at hcollects
  have hnext := hlast.next_eq d₁ hcollects
  obtain ⟨hprompt, hintake, hpending⟩ := d₁.parts_step answer
  rw [hnext] at hintake hpending
  refine ⟨waiting ++ [(d₁.step answer).1], (d₁.step answer).2, ?_, ⟨?_, unready_nil⟩, ?_, ?_⟩
  · rw [← hsession]
    refine tells_step hwaiting ?_ ?_
    · rw [hprompts, hprompt, hcollects.prompt_eq, List.length_nil, ← List.range_eq_range',
        Block.prompts, hlast.answers_eq, List.length_append, List.length_map, List.length_singleton,
        List.range_succ, List.map_append, List.map_singleton]
    · rw [Turn.source?, hintake, b.source?_intake]
  · rw [hpending, b.pending_intake]
    rfl
  · intro hcloses rest
    rw [hlast.answers_eq, List.append_assoc, hheld, List.singleton_append, held_closed]
    rw [hintake]
    exact b.isClosed_intake.mpr hcloses
  · intro hopen rest
    rw [hlast.answers_eq, List.append_assoc, hheld, List.singleton_append, held_cons,
      List.append_assoc]
    · rfl
    · rw [hintake, ← Bool.not_eq_true]
      exact mt b.isClosed_intake.mp hopen

/-- The turns for answers that are cut into blocks tell of the blocks. -/
theorem tells_held {answers : List Answer} {blocks : List Block} (h : Cuts answers blocks)
    (hd : d.Collects []) :
    Tells d.session blocks (d.held answers).1 (d.held answers).2.session := by
  induction h generalizing d with
  | last hb hcloses =>
    obtain ⟨turns, d', htells, -, hheld, -⟩ := exists_held_block hb hd
    rw [hheld hcloses]
    exact htells
  | cons hb hopen _ ih =>
    obtain ⟨turns, d', htells, hd', -, hheld⟩ := exists_held_block hb hd
    rw [hheld hopen]
    exact htells.append (ih hd')

/-- A dialogue cuts the answers to its prompts into blocks, in the only way there is, and its turns
are those for the blocks: each source is run once and none is made up or lost, in the order of the
lines and in one session. -/
theorem hold_blocks (settings : Settings) (answers : List Answer) :
    ∃! blocks, Cuts (answers ++ [.ended, .ended]) blocks ∧
      Tells settings.session blocks ((start settings).hold answers)
        ((start settings).held answers).2.session := by
  obtain ⟨blocks, hcuts⟩ := exists_cuts unready_nil answers
  rw [List.map_nil, List.nil_append] at hcuts
  have hstart : (start settings).Collects [] := ⟨rfl, unready_nil⟩
  have htells := tells_held hcuts hstart
  rw [held_append_ended, held_fst] at htells
  exact ⟨blocks, ⟨hcuts, htells⟩, fun others hothers => hothers.1.unique hcuts⟩

end Dialogue

end Shell

end Lox
