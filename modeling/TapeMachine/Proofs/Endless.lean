import TapeMachine.Proofs.Control
import TapeMachine.Proofs.Line
import Mathlib.Data.List.GetD

/-! # Endless tapes — growing on demand is not noticed

    A tape has finitely many cells and makes new ones where the cursor
    goes past an end.  The machine could as well run on a row of cells
    that has no ends and holds zeros almost everywhere.  Here the two are
    compared.

      * `Line.endless`: a line of cells laid on an endless tape.  New
        cells on the left move every index, so the position of the first
        cell is kept apart: it is the number of cells made on the left,
        below zero.
      * `Instr.act_endless`: an instruction does the same on both, and
        only a move past the left end changes that number.
      * `Code.after_endless`, `Code.run_endless`: what follows for many
        steps, and for runs under control.
      * `Tape.endless_pad`: zero cells at the ends make no difference on
        an endless tape. -/

namespace TapeMachine

/-- A cell at every integer position, and a cursor on one of them. -/
@[ext]
structure EndlessTape where
  value : Int → Cell
  /-- The position of the cursor. -/
  cursor : Int

namespace EndlessTape

/-- Overwrite the cell under the cursor. -/
def set (e : EndlessTape) (v : Cell) : EndlessTape :=
  { e with value := fun z => if z = e.cursor then v else e.value z }

/-- Move the cursor left. -/
def left (e : EndlessTape) : EndlessTape := { e with cursor := e.cursor - 1 }

/-- Move the cursor right. -/
def right (e : EndlessTape) : EndlessTape := { e with cursor := e.cursor + 1 }

instance : Memory EndlessTape := ⟨fun e => e.value e.cursor, set, left, right⟩

end EndlessTape

/-! ## Lines on endless tapes -/

/-- Zero cells behind others are read like cells that are not there. -/
theorem getD_append_zeros (cells : List Cell) (b i : Nat) :
    (cells ++ List.replicate b 0).getD i 0 = cells.getD i 0 := by
  rcases Nat.lt_or_ge i cells.length with hi | hi
  · exact List.getD_append _ _ _ _ hi
  · rw [List.getD_append_right _ _ _ _ hi, List.getD_eq_default cells 0 hi]
    rw [List.getD_eq_getElem?_getD]
    exact List.getElem?_getD_replicate_default_eq 0 b _

namespace Line

/-- A line whose first cell lies `grown` places left of position zero, with
    zero cells everywhere else. -/
def endless (l : Line) (grown : Nat) : EndlessTape where
  value z := if 0 ≤ z + grown then l.cells.getD (z + grown).toNat 0 else 0
  cursor := l.index - grown

variable {l : Line} {grown : Nat}

/-- A position left of the line holds zero. -/
theorem endless_value_before {z : Int} (h : z + grown < 0) : (l.endless grown).value z = 0 :=
  if_neg (Int.not_le.mpr h)

/-- Any other position holds the cell of the line, or zero behind it. -/
theorem endless_value_natCast (l : Line) (grown i : Nat) :
    (l.endless grown).value (i - grown) = l.cells.getD i 0 := by
  show (if 0 ≤ (i : Int) - grown + grown then l.cells.getD ((i : Int) - grown + grown).toNat 0
    else 0) = _
  rw [Int.sub_add_cancel, if_pos (Int.natCast_nonneg i), Int.toNat_natCast]

/-- What holds left of the line and at every index holds at every
    position. -/
theorem forall_position {P : Int → Prop} (grown : Nat) (hbefore : ∀ z : Int, z + grown < 0 → P z)
    (hindex : ∀ i : Nat, P (i - grown)) (z : Int) : P z := by
  by_cases h : z + grown < 0
  · exact hbefore z h
  · have hz : ((z + grown).toNat : Int) - grown = z := by omega
    rw [← hz]
    exact hindex _

theorem endless_read (l : Line) (grown : Nat) : Memory.read (l.endless grown) = l.value := by
  show (l.endless grown).value (l.index - grown) = l.value
  rw [endless_value_natCast, List.getD_eq_getElem?_getD, l.getElem?_index]
  rfl

theorem endless_set (l : Line) (v : Cell) (grown : Nat) :
    (l.set v).endless grown = (l.endless grown).set v := by
  refine EndlessTape.ext (funext (forall_position grown ?_ ?_)) rfl
  · intro z hz
    have hne : z ≠ (l.endless grown).cursor := by
      show z ≠ (l.index : Int) - grown
      omega
    rw [endless_value_before hz, EndlessTape.set]
    simp only [if_neg hne, endless_value_before hz]
  · intro i
    have hcursor : (i : Int) - grown = (l.endless grown).cursor ↔ l.index = i := by
      show (i : Int) - grown = (l.index : Int) - grown ↔ l.index = i
      omega
    rw [endless_value_natCast, EndlessTape.set]
    simp only [hcursor, endless_value_natCast]
    have hlt := l.index_lt
    show (l.cells.set l.index v).getD i 0 = _
    rw [List.getD_eq_getElem?_getD, List.getElem?_set, List.getD_eq_getElem?_getD]
    by_cases hi : l.index = i
    · rw [if_pos hi, if_pos hi, if_pos hlt]
      rfl
    · rw [if_neg hi, if_neg hi]

/-- Moving right, onto a new cell or not. -/
theorem endless_right (l : Line) (grown : Nat) :
    l.right.endless grown = (l.endless grown).right := by
  have hcursor : ((l.index + 1 : Nat) : Int) - grown = (l.index : Int) - grown + 1 := by omega
  by_cases h : l.index + 1 < l.cells.length
  · rw [right_inner h]
    exact EndlessTape.ext rfl hcursor
  · rw [right_end (by have := l.index_lt; omega)]
    refine EndlessTape.ext (funext (forall_position grown ?_ ?_)) hcursor
    · intro z hz
      rw [endless_value_before hz]
      exact (endless_value_before (l := l) hz).symm
    · intro i
      rw [endless_value_natCast]
      refine Eq.trans ?_ (endless_value_natCast l grown i).symm
      -- behind the cells there were zeros before
      exact getD_append_zeros l.cells 1 i

theorem endless_left_inner (h : l.index ≠ 0) (grown : Nat) :
    l.left.endless grown = (l.endless grown).left := by
  rw [left_inner h]
  refine EndlessTape.ext rfl ?_
  show ((l.index - 1 : Nat) : Int) - grown = (l.index : Int) - grown - 1
  omega

/-- Moving left onto a new cell moves the front of the line. -/
theorem endless_left_front (h : l.index = 0) (grown : Nat) :
    l.left.endless (grown + 1) = (l.endless grown).left := by
  rw [left_front h]
  refine EndlessTape.ext (funext (forall_position (grown + 1) ?_ ?_)) ?_
  · intro z hz
    rw [endless_value_before hz]
    exact (endless_value_before (l := l) (by omega)).symm
  · intro i
    rw [endless_value_natCast]
    cases i with
    | zero => exact (endless_value_before (l := l) (by omega)).symm
    | succ i =>
        refine Eq.trans ?_ (congrArg (l.endless grown).value
          (show (i : Int) - grown = ((i + 1 : Nat) : Int) - (grown + 1 : Nat) by omega))
        exact (endless_value_natCast l grown i).symm
  · show ((0 : Nat) : Int) - (grown + 1 : Nat) = (l.index : Int) - grown - 1
    omega

end Line

/-! ## Tapes on endless tapes -/

namespace Tape

/-- A tape laid on an endless one. -/
def endless (t : Tape) (grown : Nat) : EndlessTape := t.line.endless grown

theorem endless_read (t : Tape) (grown : Nat) : Memory.read (t.endless grown) = t.cell :=
  (t.line.endless_read grown).trans t.value_line

theorem endless_set (t : Tape) (v : Cell) (grown : Nat) :
    (t.set v).endless grown = (t.endless grown).set v := by
  rw [endless, line_set, Line.endless_set]
  rfl

theorem endless_right (t : Tape) (grown : Nat) :
    t.right.endless grown = (t.endless grown).right := by
  rw [endless, line_right, Line.endless_right]
  rfl

theorem endless_left (t : Tape) (grown : Nat) :
    t.left.endless (grown + if t.grows .left then 1 else 0) = (t.endless grown).left := by
  rw [endless, line_left]
  by_cases h : t.before = []
  · have hgrows : t.grows .left = true := List.isEmpty_iff.mpr h
    rw [if_pos hgrows]
    exact Line.endless_left_front (l := t.line) (List.length_eq_zero_iff.mpr h) grown
  · have hgrows : ¬ t.grows .left = true := fun hg => h (List.isEmpty_iff.mp hg)
    rw [if_neg hgrows]
    exact Line.endless_left_inner (l := t.line) (fun h0 => h (List.length_eq_zero_iff.mp h0)) grown

/-- The same tape with `a` zero cells more at its left end and `b` at its
    right end. -/
def pad (a b : Nat) (t : Tape) : Tape :=
  ⟨t.before ++ List.replicate a 0, t.cell, t.after ++ List.replicate b 0⟩

theorem cells_pad (a b : Nat) (t : Tape) :
    (t.pad a b).cells = List.replicate a 0 ++ (t.cells ++ List.replicate b 0) := by
  simp [pad, cells]

/-- Zero cells at the ends make no difference on an endless tape. -/
theorem endless_pad (a b : Nat) (t : Tape) : (t.pad a b).endless a = t.endless 0 := by
  refine EndlessTape.ext (funext (Line.forall_position a ?_ ?_)) ?_
  · intro z hz
    rw [endless, Line.endless_value_before hz]
    exact (Line.endless_value_before (l := t.line) (by omega)).symm
  · intro i
    rw [endless, Line.endless_value_natCast]
    show (t.pad a b).cells.getD i 0 = (t.line.endless 0).value (i - a)
    rw [cells_pad]
    rcases Nat.lt_or_ge i a with hi | hi
    · rw [Line.endless_value_before (by omega), List.getD_append _ _ _ _ (by simpa using hi)]
      exact List.getD_replicate 0 hi
    · obtain ⟨j, rfl⟩ := Nat.exists_eq_add_of_le hi
      rw [List.getD_append_right _ _ _ _ (by simp), List.length_replicate, Nat.add_sub_cancel_left,
        show ((a + j : Nat) : Int) - a = j - (0 : Nat) by omega, Line.endless_value_natCast]
      exact getD_append_zeros t.cells b j
  · show ((t.before ++ List.replicate a 0).length : Int) - a = (t.before.length : Int) - (0 : Nat)
    rw [List.length_append, List.length_replicate]
    omega

end Tape

/-! ## Steps and runs -/

/-- The number of cells an instruction makes on the left of a tape. -/
def Instr.grownLeft (i : Instr) (t : Tape) : Nat :=
  match i with
  | .left => if t.grows .left then 1 else 0
  | _ => 0

/-- The number of cells that the first `n` steps make on the left. -/
def Code.grownLeft (code : Code) : Nat → State Tape → Nat
  | 0, _ => 0
  | n + 1, s =>
      match code[s.ip]? with
      | none => 0
      | some i => i.grownLeft s.memory + grownLeft code n (i.act s)

/-- A state whose tape is laid on an endless one. -/
def State.endless (s : State Tape) (grown : Nat) : State EndlessTape :=
  ⟨s.ip, s.steps, s.memory.endless grown, s.printed⟩

namespace Instr

/-- What an instruction does to a tape it does to the endless one. -/
theorem onMemory_endless (i : Instr) (t : Tape) (grown : Nat) :
    i.onMemory (t.endless grown) = (i.onMemory t).endless (grown + i.grownLeft t) := by
  cases i with
  | right => exact (t.endless_right grown).symm
  | left => exact (t.endless_left grown).symm
  | increment =>
      show (t.endless grown).set (Memory.read (t.endless grown) + 1) = (t.set _).endless grown
      rw [t.endless_read, t.endless_set]
      rfl
  | decrement =>
      show (t.endless grown).set (Memory.read (t.endless grown) - 1) = (t.set _).endless grown
      rw [t.endless_read, t.endless_set]
      rfl
  | _ => rfl

/-- **An instruction does not notice where its tape ends.** -/
theorem act_endless (i : Instr) (s : State Tape) (grown : Nat) :
    i.act (s.endless grown) = (i.act s).endless (grown + i.grownLeft s.memory) := by
  show State.mk (i.next s.ip (Memory.read (s.memory.endless grown))) (s.steps + 1)
      (i.onMemory (s.memory.endless grown))
      (i.onPrinted (Memory.read (s.memory.endless grown)) s.printed) = _
  rw [s.memory.endless_read, onMemory_endless]
  rfl

end Instr

namespace Code

/-- The states after `n` steps. -/
theorem after_endless (code : Code) (n : Nat) (s : State Tape) (grown : Nat) :
    code.after n (s.endless grown) = (code.after n s).endless (grown + code.grownLeft n s) := by
  induction n generalizing s grown with
  | zero => rfl
  | succ n ih =>
      have hip : (s.endless grown).ip = s.ip := rfl
      simp only [after, step?, grownLeft, hip]
      cases hi : code[s.ip]? with
      | none => rfl
      | some i =>
          simp only [Option.map_some]
          rw [i.act_endless, ih, Nat.add_assoc]

/-- An observer that has nothing to note. -/
def quiet {M : Type} : Observer M Unit := fun _ _ _ notes => .ok notes

/-- Runs under control end after the same steps and for the same reason. -/
theorem run_endless (code : Code) (control : Control) (fuel : Nat) (s : State Tape) (grown : Nat) :
    ∃ s' halt grown', code.run control quiet fuel s () = ⟨s', (), halt⟩ ∧
      code.run control quiet fuel (s.endless grown) () = ⟨s'.endless grown', (), halt⟩ := by
  induction fuel generalizing s grown with
  | zero => exact ⟨s, .unfinished, grown, rfl, rfl⟩
  | succ fuel ih =>
      -- what stops a run is seen from position and steps alone
      have hsame : code.stop? control (s.endless grown) = code.stop? control s := rfl
      cases hstop : code.stop? control s with
      | some halt =>
          exact ⟨s, halt, grown, run_of_stop hstop _ _ _,
            run_of_stop (hsame.trans hstop) _ _ _⟩
      | none =>
          obtain ⟨i, hi, hgo⟩ := run_of_go hstop
          obtain ⟨i', hi', hgo'⟩ := run_of_go (hsame.trans hstop)
          obtain rfl : i = i' := Option.some.inj (hi.symm.trans hi')
          rw [(hgo fuel).1 rfl, (hgo' fuel).1 rfl, i.act_endless]
          exact ih (i.act s) (grown + i.grownLeft s.memory)

end Code

/-! ## Executions on any memory -/

/-- What the end of a run means for the program; nothing if the fuel ran
    out. -/
def Halt.result? (text : String) : Halt → Option (Except Fault String)
  | .finished => some (.ok text)
  | .cancelled => some (.error .cancelled)
  | .limitReached limit => some (.error (.stepLimit limit))
  | .unobservable ip => some (.error (.unwritable ip Sink.complaint))
  | .unfinished => none

/-- What came of a program that nobody watched. -/
structure Ending (M : Type) where
  result : Except Fault String
  memory : M
  /-- The number of steps taken. -/
  steps : Nat

/-- How a program ended and how long it took, whatever memory it used. -/
def Ending.outline {M : Type} (e : Ending M) : Except Fault String × Nat := (e.result, e.steps)

/-- Execute a program on any memory, with nobody watching. -/
def executeOn {M : Type} [Memory M] (fuel : Nat) (control : Control) (text : String) (m : M) :
    Option (Ending M) :=
  match Code.ofText text with
  | .error u => some ⟨.error (.unmatched u), m, 0⟩
  | .ok code =>
      let o := code.run control Code.quiet fuel (.start m) ()
      (o.halt.result? o.state.text).map fun result => ⟨result, o.state.memory, o.state.steps⟩

/-- On a tape this is what executing the program gives. -/
theorem execute_eq_executeOn (fuel : Nat) (control : Control) (jumps : Option (List Event))
    (text : String) (t : Tape) :
    (execute fuel control { jumps } text t).map (fun e => (e.result, e.tape))
      = (executeOn fuel control text t).map fun e => (e.result, e.memory) := by
  cases hcode : Code.ofText text with
  | error u => simp only [execute, executeOn, hcode, Option.map_some]
  | ok code =>
      -- a watch without a sink goes on at every step
      have hstep : ∀ (i : Instr) (s s' : State Tape) (w : Watch) (v : Unit), w.sink = none →
          ∃ w' v', Watch.see i s s' w = .ok w' ∧ Code.quiet i s s' v = .ok v' ∧
            w'.sink = none := by
        rintro i s s' ⟨sink, jumps⟩ v hw
        obtain rfl : sink = none := hw
        exact ⟨_, v, Watch.see_without_sink i s s' jumps, rfl, rfl⟩
      obtain ⟨s, halt, w, v, hw, hv, -⟩ := code.run_lockstep control
        (fun (w : Watch) (_ : Unit) => w.sink = none) hstep fuel (.start t)
        (w := { jumps }) (v := ()) rfl
      simp only [execute, executeOn, hcode, Watch.begin, hw, hv]
      cases halt <;> rfl

/-- On an endless tape a program ends as on the tape that was laid on it. -/
theorem executeOn_endless (fuel : Nat) (control : Control) (text : String) (t : Tape)
    (grown : Nat) :
    (executeOn fuel control text (t.endless grown)).map Ending.outline
      = (executeOn fuel control text t).map Ending.outline := by
  cases hcode : Code.ofText text with
  | error u => simp only [executeOn, hcode, Option.map_some, Ending.outline]
  | ok code =>
      obtain ⟨s, halt, grown', hrun, hrun'⟩ :=
        code.run_endless control fuel (.start t) grown
      have hstart : State.start (t.endless grown) = (State.start t).endless grown := rfl
      simp only [executeOn, hcode, hstart, hrun, hrun', Option.map_map]
      rfl

/-- **No tape has ends.**  After any number of steps the machine is at the
    same position, with the same output, on a tape and on the endless tape
    that holds the same cells; the tape shows the endless one from `grown`
    places left of zero on, where `grown` is the number of cells made on the
    left so far, and beyond the tape there are zeros.  Under every control
    the program ends alike on both.  So zero cells more at the ends of a
    tape change neither the result nor the number of steps. -/
theorem tape_is_endless (text : String) (t : Tape) :
    (∀ code, Code.ofText text = .ok code → ∀ n,
      let s := code.after n (.start t)
      let u := code.after n (.start (t.endless 0))
      let grown := code.grownLeft n (.start t)
      u.ip = s.ip ∧ u.output = s.output ∧ u.steps = s.steps ∧
      (s.memory.offset : Int) = u.memory.cursor + grown ∧
      (∀ (i : Nat) (v : Cell), s.memory.cells[i]? = some v → u.memory.value (i - grown) = v) ∧
      ∀ z : Int, z + grown < 0 ∨ s.memory.cells.length ≤ z + grown → u.memory.value z = 0) ∧
    (∀ fuel control jumps,
      (execute fuel control { jumps } text t).map (fun e => (e.result, e.tape))
        = (executeOn fuel control text t).map fun e => (e.result, e.memory)) ∧
    (∀ fuel control, (executeOn fuel control text (t.endless 0)).map Ending.outline
      = (executeOn fuel control text t).map Ending.outline) ∧
    ∀ a b fuel control, (executeOn fuel control text (t.pad a b)).map Ending.outline
      = (executeOn fuel control text t).map Ending.outline := by
  refine ⟨?_, ?_, ?_, ?_⟩
  · intro code _ n s u grown
    have hu : u = s.endless grown := by
      have h := code.after_endless n (.start t) 0
      rwa [Nat.zero_add] at h
    rw [hu]
    refine ⟨rfl, rfl, rfl, (Int.sub_add_cancel _ _).symm, ?_, ?_⟩
    · intro i v hv
      show (s.memory.line.endless grown).value (i - grown) = v
      rw [Line.endless_value_natCast, List.getD_eq_getElem?_getD,
        show s.memory.line.cells[i]? = some v from hv]
      rfl
    · intro z hz
      show (s.memory.line.endless grown).value z = 0
      rcases hz with hz | hz
      · exact Line.endless_value_before hz
      · obtain ⟨i, rfl⟩ : ∃ i : Nat, z = i - grown := ⟨(z + grown).toNat, by omega⟩
        rw [Line.endless_value_natCast]
        exact List.getD_eq_default _ _ (show s.memory.cells.length ≤ i by omega)
  · intro fuel control jumps
    exact execute_eq_executeOn fuel control jumps text t
  · intro fuel control
    exact executeOn_endless fuel control text t 0
  · intro a b fuel control
    rw [← executeOn_endless fuel control text (t.pad a b) a, t.endless_pad,
      executeOn_endless]

end TapeMachine
