import TapeMachine.Proofs.Control
import TapeMachine.Proofs.LinkedTape.Links
import TapeMachine.Proofs.Summary

/-! # The interpreter on linked tapes

    A program is run here on a store of nodes.  What it reads and tells is
    taken from the store itself: the value at the cursor, the offset that
    is kept, and the word of an operation that it made a new cell.  Every
    operation may fail to have a result, so an execution may get stuck; it
    may also use up its fuel, which is not the same.

    Two stores with the same cells can be laid out in different orders.
    No program can tell them apart, and a summary tells all there is to
    know about both.

      * `Watch.see_eq_tell`: what is watched of a step is in its row.
      * `Holds.act`, `Holds.run`, `Holds.execute`: on a store that holds
        a tape, an instruction, a run and an execution do what they do on
        the tape, and the store holds the tape they leave.
      * `Reached.holds`: so every store that requests reach holds a
        tape. -/

namespace TapeMachine

/-! ## Steps told by their rows -/

/-- The operation of an instruction, if it has one. -/
def Instr.edit? : Instr → Option Tape.Edit
  | .right => some .right
  | .left => some .left
  | .increment => some .increment
  | .decrement => some .decrement
  | _ => none

theorem Instr.onMemory_eq_apply (i : Instr) (t : Tape) :
    i.onMemory t = i.edit?.elim t t.apply := by
  cases i <;> rfl

/-- The action of an instruction, told from the offset and the value before
    and after it. -/
def Action.told (i : Instr) (grew : Bool) (offset offset' : Nat) (v v' : Cell) : Action :=
  match i with
  | .right => .movedRight offset' grew
  | .left => if grew then .extendedLeft else .movedLeft offset'
  | .increment => .incremented offset v v'
  | .decrement => .decremented offset v v'
  | .print => .printed v.glyph
  | .loopStart => .enteredLoop
  | .loopEnd start => if v = 0 then .leftLoop else .jumpedBack start
  | .comment _ => .ignored

theorem Action.of_eq_told (i : Instr) (t t' : Tape) :
    Action.of i t t'
      = .told i (i.edit?.elim false t.grows) t.offset t'.offset t.cell t'.cell := by
  cases i <;> rfl

/-- Note the jump that a row tells, if it tells one. -/
def Row.noteJump (row : Row) (jumps : Option (List Event)) : Option (List Event) :=
  match row.action with
  | .jumpedBack start => jumps.map (.jumpBack row.ip start :: ·)
  | _ => jumps

/-- Watch a step of which only the row is known. -/
def Watch.tell (w : Watch) (row : Row) : Except Watch Watch :=
  match w.sink with
  | none => .ok { jumps := row.noteJump w.jumps }
  | some sink =>
      if sink.accepts row.line then
        .ok { sink := some (sink.append row.line), jumps := row.noteJump w.jumps }
      else .error { sink := some sink, jumps := row.noteJump w.jumps }

theorem Row.noteJump_of (i : Instr) (s s' : State Tape) (jumps : Option (List Event)) :
    (Row.of i s s').noteJump jumps = Watch.noteJump jumps i s := by
  cases i with
  | loopEnd start =>
      -- the only instruction whose row may tell a jump
      by_cases hz : s.memory.cell = 0 <;> cases jumps <;>
        simp [Row.noteJump, Row.of, Action.of, Watch.noteJump, hz]
  | left =>
      by_cases hg : s.memory.grows .left = true <;> cases jumps <;>
        simp [Row.noteJump, Row.of, Action.of, Watch.noteJump, hg]
  | _ => cases jumps <;> rfl

theorem Watch.see_eq_tell (i : Instr) (s s' : State Tape) (w : Watch) :
    see i s s' w = w.tell (Row.of i s s') := by
  obtain ⟨sink, jumps⟩ := w
  rw [tell, Row.noteJump_of]
  cases sink with
  | none => cases jumps <;> rfl
  | some sink => rfl

/-- The same state with another memory. -/
def State.on {M N : Type} (s : State M) (m : N) : State N where
  ip := s.ip
  steps := s.steps
  memory := m
  printed := s.printed

/-- What an execution tells apart from its tape. -/
structure Report where
  result : Except Fault String
  trace : String := ""
  events : List Event := []

def Execution.report (e : Execution) : Report := ⟨e.result, e.trace, e.events⟩

/-- What the outcome of a run tells, whatever the memory is. -/
def Outcome.report? {M : Type} (loops : Nat) (o : Outcome M Watch) : Option Report :=
  (Execution.ofOutcome loops ⟨o.state.on Tape.blank, o.notes, o.halt⟩).map Execution.report

/-- Apart from the tape, an outcome tells the same whatever its memory
    is. -/
theorem Outcome.report?_on {M : Type} (loops : Nat) (o : Outcome Tape Watch) (m : M) :
    (⟨o.state.on m, o.notes, o.halt⟩ : Outcome M Watch).report? loops
      = (Execution.ofOutcome loops o).map Execution.report := by
  obtain ⟨s, w, halt⟩ := o
  cases halt <;> rfl

/-- All that can be seen of an execution: its report, and the summary of the
    tape it leaves. -/
def Tape.seen (fuel : Nat) (control : Control) (watch : Watch) (text : String) (t : Tape) :
    Option (Report × String) :=
  (execute fuel control watch text t).map fun e => (e.report, e.tape.summary)

/-! ## Executions -/

namespace LinkedTape

/-- Carry out the operation of an instruction; say whether it made a new
    cell. -/
def perform? (l : LinkedTape) (i : Instr) : Option (LinkedTape × Bool) :=
  i.edit?.elim (some (l, false)) l.edit?

/-- Carry out an instruction, and write the row of the step. -/
def act? (i : Instr) (s : State LinkedTape) : Option (State LinkedTape × Row) := do
  let v ← s.memory.read?
  let (l, grew) ← s.memory.perform? i
  let v' ← l.read?
  return ({
    ip := i.next s.ip v
    steps := s.steps + 1
    memory := l
    printed := i.onPrinted v s.printed }, {
    step := s.steps
    ip := s.ip
    offset := s.memory.offset
    cell := v
    glyph := i.glyph
    action := .told i grew s.memory.offset l.offset v v' })

/-- Run code from a state, for at most `fuel` instructions; there is no
    outcome if an instruction has no result. -/
def run? (code : Code) (control : Control) :
    (fuel : Nat) → State LinkedTape → Watch → Option (Outcome LinkedTape Watch)
  | 0, s, w => some ⟨s, w, .unfinished⟩
  | fuel + 1, s, w =>
      match code.stop? control s with
      | some halt => some ⟨s, w, halt⟩
      | none => do
          let i ← code[s.ip]?
          let (s', row) ← act? i s
          match w.tell row with
          | .error w' => some ⟨s', w', .unobservable s.ip⟩
          | .ok w' => run? code control fuel s' w'

/-- Execute a program with the given fuel.  There is no result if the
    execution gets stuck, and no answer if the fuel runs out. -/
def execute? (fuel : Nat) (control : Control) (watch : Watch) (text : String)
    (l : LinkedTape) : Option (Option (LinkedTape × Report)) :=
  match Code.ofText text with
  | .error u => some (some (l, { result := .error (.unmatched u) }))
  | .ok code =>
      let loops := code.loops.length
      match watch.begin with
      | none =>
          some (some (l, {
            result := .error (.unwritable 0 Sink.complaint)
            events := [.loopsPaired loops] }))
      | some watch =>
          (run? code control fuel (.start l) watch).map fun o =>
            (o.report? loops).map (o.state.memory, ·)

/-- The cells as text. -/
def text? (l : LinkedTape) : Option String :=
  l.cells?.map fun cells => "[" ++ ", ".intercalate (cells.map Cell.text) ++ "]"

/-- One line that tells cells, cursor position and cursor value. -/
def summary? (l : LinkedTape) : Option String := do
  let text ← l.text?
  let v ← l.read?
  return "tape: " ++ text ++ " (cursor at " ++ toString l.offset ++ ", value " ++ v.text ++ ")"

/-- All that can be seen of an execution: its report, and the summary of the
    tape it leaves. -/
def seen? (fuel : Nat) (control : Control) (watch : Watch) (text : String)
    (l : LinkedTape) : Option (Option (Report × String)) := do
  match ← l.execute? fuel control watch text with
  | none => return none
  | some (l', report) =>
      let summary ← l'.summary?
      return some (report, summary)

/-- The tapes that requests reach: new cells, executions whatever comes of
    them, and moves to either end.  A request that is refused leaves the tape
    as it is. -/
inductive Reached : LinkedTape → Prop where
  | blank : Reached .blank
  | replaced {l l' : LinkedTape} {cells : List Cell} :
      Reached l → ofCells? cells = some l' → Reached l'
  | executed {l l' : LinkedTape} {fuel : Nat} {control : Control} {watch : Watch}
      {text : String} {report : Report} :
      Reached l → l.execute? fuel control watch text = some (some (l', report)) → Reached l'
  | toHead {l : LinkedTape} : Reached l → Reached l.toHead
  | toTail {l l' : LinkedTape} : Reached l → l.toTail? = some l' → Reached l'

/-! ## Stores that hold a tape -/

/-- The store is laid out for the line of a tape. -/
def Holds (l : LinkedTape) (t : Tape) : Prop := ∃ path, l.Laid path t.line

namespace Holds

variable {l : LinkedTape} {t : Tape}

theorem shows (h : l.Holds t) : l.Shows t := by
  obtain ⟨path, hlaid⟩ := h
  exact hlaid.shows

theorem text (h : l.Holds t) : l.text? = some t.text := by
  rw [text?, h.shows.cells]
  rfl

theorem summary (h : l.Holds t) : l.summary? = some t.summary := by
  simp only [summary?, h.text, h.shows.value, h.shows.offset]
  rfl

theorem edit (h : l.Holds t) (e : Tape.Edit) :
    ∃ l', l.edit? e = some (l', t.grows e) ∧ l'.Holds (t.apply e) := by
  obtain ⟨path, hlaid⟩ := h
  obtain ⟨l', path', grew, hl', hlaid', hgrew⟩ := hlaid.apply e
  obtain rfl : grew = t.grows e := Bool.eq_iff_iff.mpr (hgrew.trans (t.grows_iff e).symm)
  rw [← t.line_apply] at hlaid'
  exact ⟨l', hl', path', hlaid'⟩

theorem perform (h : l.Holds t) (i : Instr) :
    ∃ l', l.perform? i = some (l', i.edit?.elim false t.grows) ∧ l'.Holds (i.onMemory t) := by
  rw [perform?, i.onMemory_eq_apply]
  cases i.edit? with
  | none => exact ⟨l, rfl, h⟩
  | some e => exact h.edit e

/-- One instruction on a store does what it does on the tape it holds, and
    its row is the same. -/
theorem act {s : State Tape} (h : l.Holds s.memory) (i : Instr) :
    ∃ l', act? i (s.on l) = some ((i.act s).on l', Row.of i s (i.act s)) ∧
      l'.Holds (i.act s).memory := by
  obtain ⟨l', hl', h'⟩ := h.perform i
  refine ⟨l', ?_, h'⟩
  simp only [act?, State.on, h.shows.value, hl', Option.bind_eq_bind, Option.bind_some,
    show l'.read? = some (i.act s).memory.cell from h'.shows.value, h.shows.offset,
    h'.shows.offset, Row.of, Action.of_eq_told]
  rfl

/-- A run on a store is the run on the tape it holds. -/
theorem run (code : Code) (control : Control) (fuel : Nat) {s : State Tape}
    (h : l.Holds s.memory) (w : Watch) :
    let o := code.run control Watch.see fuel s w
    ∃ l', run? code control fuel (s.on l) w = some ⟨o.state.on l', o.notes, o.halt⟩ ∧
      l'.Holds o.state.memory := by
  -- the layout may change at every step; what carries the induction is that
  -- the store still holds the tape
  induction fuel generalizing l s w with
  | zero => exact ⟨l, rfl, h⟩
  | succ fuel ih =>
      intro o
      cases hstop : code.stop? control s with
      | some halt =>
          have ho : o = ⟨s, w, halt⟩ := Code.run_of_stop hstop _ _ _
          have hstop' : code.stop? control (s.on l) = some halt := hstop
          rw [ho]
          refine ⟨l, ?_, h⟩
          simp only [run?, hstop']
      | none =>
          have hstop' : code.stop? control (s.on l) = none := hstop
          obtain ⟨i, hi, hgo⟩ := Code.run_of_go hstop
          have hi' : code[(s.on l).ip]? = some i := hi
          obtain ⟨l', hact, h'⟩ := h.act i
          simp only [run?, hstop', hi', hact, Option.bind_eq_bind, Option.bind_some,
            ← Watch.see_eq_tell]
          cases hw : Watch.see i s (i.act s) w with
          | error w' =>
              rw [show o = _ from (hgo fuel).2 hw]
              exact ⟨l', rfl, h'⟩
          | ok w' =>
              rw [show o = _ from (hgo fuel).1 hw]
              exact ih h' w'

/-- An execution on a store gives what it gives on the tape it holds. -/
theorem execute (h : l.Holds t) (fuel : Nat) (control : Control) (watch : Watch)
    (text : String) :
    (TapeMachine.execute fuel control watch text t = none ∧
      l.execute? fuel control watch text = some none) ∨
    ∃ e l', TapeMachine.execute fuel control watch text t = some e ∧
      l.execute? fuel control watch text = some (some (l', e.report)) ∧ l'.Holds e.tape := by
  cases hcode : Code.ofText text with
  | error u =>
      simp only [execute?, TapeMachine.execute, hcode]
      exact Or.inr ⟨_, l, rfl, rfl, h⟩
  | ok code =>
      cases hbegin : watch.begin with
      | none =>
          simp only [execute?, TapeMachine.execute, hcode, hbegin]
          exact Or.inr ⟨_, l, rfl, rfl, h⟩
      | some w =>
          obtain ⟨l', hrun, h'⟩ := run code control fuel (s := .start t) h w
          simp only [execute?, TapeMachine.execute, hcode, hbegin]
          rw [show State.start l = (State.start t).on l from rfl, hrun, Option.map_some,
            Outcome.report?_on]
          cases he : Execution.ofOutcome code.loops.length
              (code.run control Watch.see fuel (.start t) w) with
          | none => exact Or.inl ⟨rfl, rfl⟩
          | some e =>
              refine Or.inr ⟨e, l', rfl, rfl, ?_⟩
              rw [(Execution.told_of_ofOutcome he).1]
              exact h'

theorem seen (h : l.Holds t) (fuel : Nat) (control : Control) (watch : Watch)
    (text : String) :
    l.seen? fuel control watch text = some (t.seen fuel control watch text) := by
  rcases h.execute fuel control watch text with ⟨ht, hl⟩ | ⟨e, l', ht, hl, h'⟩
  · simp only [seen?, Tape.seen, ht, hl]
    rfl
  · simp only [seen?, Tape.seen, ht, hl, h'.summary, Option.bind_eq_bind, Option.bind_some]
    rfl

end Holds

theorem holds_ofCells {cells : List Cell} {l : LinkedTape} (h : ofCells? cells = some l) :
    ∃ t, l.Holds t := by
  have hne : cells ≠ [] := by
    rintro rfl
    cases h
  obtain ⟨start, path, t, hstart, -, hlaid, -⟩ := start_ofCells cells hne
  obtain rfl : start = l := Option.some.inj (hstart.symm.trans h)
  exact ⟨t, path, hlaid⟩

/-- Every store that requests reach holds a tape. -/
theorem Reached.holds {l : LinkedTape} (h : Reached l) : ∃ t, l.Holds t := by
  induction h with
  | blank => exact holds_ofCells (show ofCells? [0] = some .blank from rfl)
  | replaced _ hcells _ => exact holds_ofCells hcells
  | @executed l l' fuel control watch text report _ hrun ih =>
      obtain ⟨t, ht⟩ := ih
      rcases ht.execute fuel control watch text with ⟨-, hl⟩ | ⟨e, l'', -, hl, h'⟩
      · cases hrun.symm.trans hl
      · cases hrun.symm.trans hl
        exact ⟨e.tape, h'⟩
  | toHead _ ih =>
      obtain ⟨t, ht⟩ := ih
      obtain ⟨l', hl', h'⟩ := ht.edit .toHead
      obtain ⟨rfl, -⟩ := Prod.mk.inj (Option.some.inj hl')
      exact ⟨_, h'⟩
  | toTail _ htail ih =>
      obtain ⟨t, ht⟩ := ih
      obtain ⟨l', hl', h'⟩ := ht.edit .toTail
      rw [edit?, htail] at hl'
      obtain ⟨rfl, -⟩ := Prod.mk.inj (Option.some.inj hl')
      exact ⟨_, h'⟩

/-- **A summary tells all there is to know.**  The text of a tape determines
    its cells, and its summary determines the tape.  A linked tape that
    requests reach shows the text and the summary of a tape, and every
    execution on it gives what it gives on that tape; it never gets stuck.
    So if two linked tapes that requests reach have the same summary, then
    every program under every control and watch has the same result, trace
    and events on both and leaves them with the same summary again, however
    their stores are laid out. -/
theorem summary_is_complete :
    (∀ t t' : Tape,
      (t.text = t'.text → t.cells = t'.cells) ∧ (t.summary = t'.summary → t = t')) ∧
    (∀ l : LinkedTape, Reached l → ∃ t : Tape,
      l.text? = some t.text ∧ l.summary? = some t.summary ∧ l.cells? = some t.cells ∧
      ∀ fuel control watch text,
        l.seen? fuel control watch text = some (t.seen fuel control watch text)) ∧
    ∀ l l' : LinkedTape, Reached l → Reached l' →
      (l.text? = l'.text? → l.cells? = l'.cells?) ∧
      (l.summary? = l'.summary? → ∀ fuel control watch text,
        l.seen? fuel control watch text = l'.seen? fuel control watch text) := by
  have htext : ∀ t t' : Tape, t.text = t'.text → t.cells = t'.cells := by
    intro t t' h
    exact (Tape.cells_of_text (congrArg (fun text => text.toList ++ []) h)).1
  refine ⟨fun t t' => ⟨htext t t', Tape.summary_injective⟩, ?_, ?_⟩
  · intro l hl
    obtain ⟨t, ht⟩ := hl.holds
    exact ⟨t, ht.text, ht.summary, ht.shows.cells, ht.seen⟩
  · intro l l' hl hl'
    obtain ⟨t, ht⟩ := hl.holds
    obtain ⟨t', ht'⟩ := hl'.holds
    constructor
    · intro heq
      rw [ht.text, ht'.text] at heq
      rw [ht.shows.cells, ht'.shows.cells, htext t t' (Option.some.inj heq)]
    · intro heq fuel control watch text
      rw [ht.summary, ht'.summary] at heq
      -- both stores hold one and the same tape
      obtain rfl := Tape.summary_injective (Option.some.inj heq)
      rw [ht.seen, ht'.seen]

/-- One tape grown to the right and one grown to the left: the stores are laid
    out differently, and no program tells them apart. -/
theorem summary_is_complete_two_layouts :
    ∃ l l' : LinkedTape, Reached l ∧ Reached l' ∧ l.nodes ≠ l'.nodes ∧ l.head ≠ l'.head ∧
      l.summary? = some "tape: [0, 0] (cursor at 0, value 0)" ∧ l.summary? = l'.summary? ∧
      ∀ fuel control watch text,
        l.seen? fuel control watch text = l'.seen? fuel control watch text := by
  let l : LinkedTape := ⟨#[⟨0, none, some 1⟩, ⟨0, some 0, none⟩], 0, 0, 0⟩
  let l' : LinkedTape := ⟨#[⟨0, some 1, none⟩, ⟨0, none, some 0⟩], 1, 1, 0⟩
  have hl : Reached l :=
    .executed .blank (show execute? 3 {} {} "><" .blank = some (some (l, _)) from rfl)
  have hl' : Reached l' :=
    .executed .blank (show execute? 2 {} {} "<" .blank = some (some (l', _)) from rfl)
  have hsame : l.summary? = l'.summary? := by decide +kernel
  exact ⟨l, l', hl, hl', by decide, by decide, by decide +kernel, hsame,
    (summary_is_complete.2.2 l l' hl hl').2 hsame⟩

end LinkedTape

end TapeMachine
