import TapeMachine.Proofs.Tracing
import Mathlib.Data.Nat.Find

/-! # Budgets — a trace with room for so many bytes

    A sink with limited room refuses the first row that does not fit, and
    the run is over: the step that the row tells has been taken, but none
    after it.  The run is compared here with the same run and a sink that
    takes everything.

      * `Code.run_fits`: as long as the whole table fits, both runs are
        the same.  The induction is on the fuel, and what carries it is
        that room and bytes written always add up to the same number.
      * `Code.run_overflows`: the first row that does not fit ends the
        run with limited room.
      * `Code.le_bytes_of_unfinished`: every row takes room, so a run that
        goes on and on uses up any. -/

namespace TapeMachine

/-! ## Sinks -/

/-- A watch whose sink takes so many bytes more. -/
abbrev Watch.within (room : Nat) (written : String) (jumps : Option (List Event)) : Watch :=
  { sink := some { room := some room, written }, jumps }

/-- A watch whose sink takes everything. -/
abbrev Watch.boundless (written : String) (jumps : Option (List Event)) : Watch :=
  { sink := some { written }, jumps }

namespace Watch

variable {i : Instr} {s s' : State Tape} {room : Nat} {written : String}
  {jumps : Option (List Event)}

theorem see_fits (h : (Row.of i s s').line.utf8ByteSize ≤ room) :
    see i s s' (within room written jumps)
      = .ok (within (room - (Row.of i s s').line.utf8ByteSize)
          (written ++ (Row.of i s s').line) (noteJump jumps i s)) := by
  simp only [see, Sink.accepts, h, decide_true, if_true, Sink.append, Option.map_some]

theorem see_overflows (h : room < (Row.of i s s').line.utf8ByteSize) :
    see i s s' (within room written jumps) = .error (within room written (noteJump jumps i s)) := by
  simp only [see, Sink.accepts, Nat.not_le_of_lt h, decide_false, Bool.false_eq_true, if_false]

/-- The head of the table is written if there is room for it. -/
theorem begin_within (n : Nat) (jumps : Option (List Event)) :
    begin (within n "" jumps)
      = if Row.header.utf8ByteSize ≤ n
        then some (within (n - Row.header.utf8ByteSize) Row.header jumps) else none := by
  by_cases h : Row.header.utf8ByteSize ≤ n
  · simp [begin, Sink.write, Sink.accepts, Sink.append, h]
  · simp [begin, Sink.write, Sink.accepts, h]

end Watch

/-! ## Runs -/

namespace Code

/-- A traced run without limit, looked at after so many steps. -/
def tabled (code : Code) (control : Control) (s : State Tape) (written : String)
    (jumps : Option (List Event)) (k : Nat) : Outcome Tape Watch :=
  code.run control Watch.see k s (.boundless written jumps)

section Table

variable (code : Code) (control : Control)

theorem written_le (s : State Tape) (written : String) (jumps : Option (List Event)) (k : Nat) :
    written.utf8ByteSize
      ≤ (code.tabled control s written jumps k).notes.trace.utf8ByteSize := by
  obtain ⟨s', halt, rows, jumps', -, hrun⟩ := code.run_traced control k s written jumps
  rw [tabled, hrun]
  show written.utf8ByteSize ≤ (written ++ _).utf8ByteSize
  rw [String.utf8ByteSize_append]
  exact Nat.le_add_right _ _

/-- As long as the whole table fits, it does not matter that the room is
    limited. -/
theorem run_fits (s : State Tape) (written : String) (jumps : Option (List Event)) (room k : Nat)
    (h : (code.tabled control s written jumps k).notes.trace.utf8ByteSize
      ≤ written.utf8ByteSize + room) :
    ∃ room', room' + (code.tabled control s written jumps k).notes.trace.utf8ByteSize
        = room + written.utf8ByteSize ∧
      code.run control Watch.see k s (.within room written jumps)
        = let o := code.tabled control s written jumps k
          ⟨o.state, .within room' o.notes.trace o.notes.jumps, o.halt⟩ := by
  induction k generalizing s written jumps room with
  | zero => exact ⟨room, rfl, rfl⟩
  | succ k ih =>
      cases hstop : code.stop? control s with
      | some halt =>
          have ho : code.tabled control s written jumps (k + 1)
              = ⟨s, .boundless written jumps, halt⟩ := run_of_stop hstop _ _ _
          rw [ho]
          exact ⟨room, rfl, run_of_stop hstop _ _ _⟩
      | none =>
          obtain ⟨i, -, hgo⟩ := run_of_go hstop
          have ho : code.tabled control s written jumps (k + 1)
              = code.tabled control (i.act s) (written ++ (Row.of i s (i.act s)).line)
                  (Watch.noteJump jumps i s) k :=
            (hgo k).1 (see_traced i s (i.act s) written jumps)
          rw [ho] at h ⊢
          -- the row of this step is part of the table, so it fits
          have hpart := code.written_le control (i.act s)
            (written ++ (Row.of i s (i.act s)).line) (Watch.noteJump jumps i s) k
          have hsize : (written ++ (Row.of i s (i.act s)).line).utf8ByteSize
              = written.utf8ByteSize + (Row.of i s (i.act s)).line.utf8ByteSize :=
            String.utf8ByteSize_append
          have hrow : (Row.of i s (i.act s)).line.utf8ByteSize ≤ room := by omega
          obtain ⟨room', hroom', hrun⟩ := ih (i.act s) (written ++ (Row.of i s (i.act s)).line)
            (Watch.noteJump jumps i s) (room - (Row.of i s (i.act s)).line.utf8ByteSize) (by omega)
          refine ⟨room', by omega, ?_⟩
          rw [(hgo k).1 (Watch.see_fits hrow)]
          exact hrun

/-- Where the table gets longer, one instruction was carried out. -/
theorem tabled_step {s : State Tape} {written : String} {jumps : Option (List Event)} {k : Nat}
    (h : (code.tabled control s written jumps k).notes.trace
      ≠ (code.tabled control s written jumps (k + 1)).notes.trace) :
    ∃ s' w jumps' i, code[s'.ip]? = some i ∧ code.stop? control s' = none ∧
      code.tabled control s written jumps k = ⟨s', .boundless w jumps', .unfinished⟩ ∧
      code.tabled control s written jumps (k + 1)
        = ⟨i.act s', .boundless (w ++ (Row.of i s' (i.act s')).line)
            (Watch.noteJump jumps' i s'), .unfinished⟩ := by
  obtain ⟨s', halt, rows, jumps', -, hk⟩ := code.run_traced control k s written jumps
  have hnext : code.tabled control s written jumps (k + 1)
      = let o := code.tabled control s written jumps k
        if o.halt = .unfinished then code.run control Watch.see 1 o.state o.notes else o :=
    run_add Watch.see k 1 s _
  rw [show code.tabled control s written jumps k = _ from hk] at h hnext
  by_cases hhalt : halt = .unfinished
  · subst hhalt
    cases hstop : code.stop? control s' with
    | some halt =>
        rw [hnext, if_pos rfl, run_of_stop hstop] at h
        exact absurd rfl h
    | none =>
        obtain ⟨i, hi, hgo⟩ := run_of_go hstop
        refine ⟨s', _, jumps', i, hi, hstop, hk, ?_⟩
        rw [hnext, if_pos rfl, (hgo 0).1 (see_traced i s' (i.act s') _ jumps')]
        rfl
  · rw [hnext, if_neg hhalt] at h
    exact absurd rfl h

/-- The first row that does not fit ends the run, after its step. -/
theorem run_overflows (s : State Tape) (written : String) (jumps : Option (List Event))
    (room j : Nat)
    (hfits : (code.tabled control s written jumps j).notes.trace.utf8ByteSize
      ≤ written.utf8ByteSize + room)
    (hover : written.utf8ByteSize + room
      < (code.tabled control s written jumps (j + 1)).notes.trace.utf8ByteSize) :
    code.Reaches j s (code.tabled control s written jumps j).state ∧
    code.Reaches (j + 1) s (code.tabled control s written jumps (j + 1)).state ∧
    ∃ w, ∀ fuel, j < fuel → code.run control Watch.see fuel s (.within room written jumps)
      = ⟨(code.tabled control s written jumps (j + 1)).state, w,
          .unobservable (code.tabled control s written jumps j).state.ip⟩ := by
  obtain ⟨s', w, jumps', i, hi, hstop, hj, hnext⟩ := code.tabled_step control (by
    intro heq
    rw [← heq] at hover
    omega)
  obtain ⟨room', hroom, hrun⟩ := code.run_fits control s written jumps room j hfits
  have hreach : code.Reaches j s (code.tabled control s written jumps j).state :=
    reaches_of_unfinished (congrArg Outcome.halt hj)
  rw [hj] at hroom hrun hreach ⊢
  rw [hnext] at hover ⊢
  -- what is left of the room after `j` rows is too little for the next one
  have hrow : room' < (Row.of i s' (i.act s')).line.utf8ByteSize := by
    have hroom : room' + w.utf8ByteSize = room + written.utf8ByteSize := hroom
    have hover : written.utf8ByteSize + room
        < (w ++ (Row.of i s' (i.act s')).line).utf8ByteSize := hover
    rw [String.utf8ByteSize_append] at hover
    omega
  refine ⟨hreach, hreach.trans (.step hi (.refl _)),
    .within room' w (Watch.noteJump jumps' i s'), ?_⟩
  intro fuel hfuel
  obtain ⟨k, rfl⟩ : ∃ k, fuel = j + (k + 1) := ⟨fuel - j - 1, by omega⟩
  obtain ⟨i', hi', hgo⟩ := run_of_go hstop
  obtain rfl : i = i' := Option.some.inj (hi.symm.trans hi')
  rw [run_add, hrun, if_pos rfl]
  exact (hgo k).2 (Watch.see_overflows hrow)

/-- A row takes room. -/
theorem rows_le (rows : List Row) :
    rows.length ≤ (String.join (rows.map Row.line)).utf8ByteSize := by
  induction rows with
  | nil => exact Nat.zero_le _
  | cons row rows ih =>
      have hline : 0 < row.line.utf8ByteSize := by
        rw [Row.line, String.utf8ByteSize_append]
        exact Nat.lt_add_left _ (by decide)
      rw [List.map_cons, String.join_cons, String.utf8ByteSize_append, List.length_cons]
      omega

/-- A run that goes on and on uses up any room. -/
theorem le_bytes_of_unfinished {t : Tape} {written : String} {jumps : Option (List Event)}
    {k : Nat} (h : (code.tabled control (.start t) written jumps k).halt = .unfinished) :
    k ≤ (code.tabled control (.start t) written jumps k).notes.trace.utf8ByteSize := by
  have hk := (reaches_of_unfinished h).steps_eq
  obtain ⟨s', halt, rows, jumps', htraced, hrun⟩ :=
    code.run_traced control k (.start t) written jumps
  have hrows := htraced.reaches.steps_eq
  rw [hrun] at hk
  rw [tabled, hrun]
  show k ≤ (written ++ String.join (rows.map Row.line)).utf8ByteSize
  rw [String.utf8ByteSize_append]
  have hle := rows_le rows
  have hk : s'.steps = (State.start t).steps + k := hk
  omega

/-- Some row is the first to end beyond byte `n`, unless the whole table
    ends before that. -/
theorem exists_overrun {t : Tape} {jumps : Option (List Event)} {n : Nat}
    (hhead : Row.header.utf8ByteSize ≤ n)
    (hlong : (code.tabled control (.start t) Row.header jumps (n + 1)).halt ≠ .unfinished →
      n < (code.tabled control (.start t) Row.header jumps (n + 1)).notes.trace.utf8ByteSize) :
    ∃ j, j ≤ n ∧
      (∀ k, k ≤ j →
        (code.tabled control (.start t) Row.header jumps k).notes.trace.utf8ByteSize ≤ n) ∧
      n < (code.tabled control (.start t) Row.header jumps (j + 1)).notes.trace.utf8ByteSize := by
  have hbeyond :
      n < (code.tabled control (.start t) Row.header jumps (n + 1)).notes.trace.utf8ByteSize := by
    by_cases hhalt : (code.tabled control (.start t) Row.header jumps (n + 1)).halt = .unfinished
    · exact code.le_bytes_of_unfinished control hhalt
    · exact hlong hhalt
  have hex : ∃ k, n < (code.tabled control (.start t) Row.header jumps k).notes.trace.utf8ByteSize :=
    ⟨n + 1, hbeyond⟩
  have hfind := Nat.find_spec hex
  have hmin := fun k => Nat.find_min hex (m := k)
  have hle := Nat.find_min' hex hbeyond
  cases hj : Nat.find hex with
  | zero =>
      rw [hj] at hfind
      exact absurd hhead (Nat.not_le_of_lt hfind)
  | succ j =>
      rw [hj] at hfind hmin hle
      exact ⟨j, Nat.le_of_succ_le_succ hle,
        fun k hk => Nat.le_of_not_lt (hmin k (Nat.lt_succ_of_le hk)), hfind⟩

end Table

end Code

/-! ## Executions -/

section Executions

variable {text : String} {code : Code} {control : Control} {jumps : Option (List Event)}
  {t : Tape} {n : Nat}

/-- Of the notes, only the table and the jumps are told. -/
theorem Execution.ofOutcome_within (loops room : Nat) (o : Outcome Tape Watch) :
    ofOutcome loops ⟨o.state, .within room o.notes.trace o.notes.jumps, o.halt⟩
      = ofOutcome loops o := by
  obtain ⟨s, w, halt⟩ := o
  cases halt <;> rfl

theorem execute_boundless (hcode : Code.ofText text = .ok code) (fuel : Nat) :
    execute fuel control { sink := some {}, jumps } text t
      = Execution.ofOutcome code.loops.length
          (code.tabled control (.start t) Row.header jumps fuel) := by
  simp only [execute, hcode, Watch.begin_traced, Code.tabled]

theorem execute_within (hcode : Code.ofText text = .ok code)
    (hhead : Row.header.utf8ByteSize ≤ n) (fuel : Nat) :
    execute fuel control { sink := some { room := some n }, jumps } text t
      = Execution.ofOutcome code.loops.length (code.run control Watch.see fuel (.start t)
          (.within (n - Row.header.utf8ByteSize) Row.header jumps)) := by
  have hbegin := Watch.begin_within n jumps
  rw [if_pos hhead] at hbegin
  simp only [execute, hcode, hbegin]

/-- Without room for the head of the table nothing is done. -/
theorem execute_headless (hcode : Code.ofText text = .ok code)
    (hhead : n < Row.header.utf8ByteSize) (fuel : Nat) :
    execute fuel control { sink := some { room := some n }, jumps } text t
      = some {
          tape := t
          result := .error (.unwritable 0 Sink.complaint)
          events := [.loopsPaired code.loops.length] } := by
  have hbegin := Watch.begin_within n jumps
  rw [if_neg (Nat.not_le_of_lt hhead)] at hbegin
  simp only [execute, hcode, hbegin]

/-- A table that fits is written as if there were no limit. -/
theorem execute_of_fits (hcode : Code.ofText text = .ok code) {fuel : Nat} {e : Execution}
    (h : execute fuel control { sink := some {}, jumps } text t = some e)
    (hfits : e.trace.utf8ByteSize ≤ n) :
    execute fuel control { sink := some { room := some n }, jumps } text t = some e := by
  rw [execute_boundless hcode] at h
  rw [(Execution.told_of_ofOutcome h).2] at hfits
  have hhead := code.written_le control (.start t) Row.header jumps fuel
  obtain ⟨room', -, hrun⟩ := code.run_fits control (.start t) Row.header jumps
    (n - Row.header.utf8ByteSize) fuel (by omega)
  rw [execute_within hcode (by omega), hrun, ← h]
  exact Execution.ofOutcome_within _ _ _

/-- A table that does not fit ends the execution with the first row that
    ends beyond the budget. -/
theorem execute_of_overrun (hcode : Code.ofText text = .ok code) (control : Control)
    (jumps : Option (List Event)) (t : Tape)
    (hhead : Row.header.utf8ByteSize ≤ n)
    (hlong : ∀ fuel e, execute fuel control { sink := some {}, jumps } text t = some e →
      n < e.trace.utf8ByteSize) :
    let R := code.tabled control (.start t) Row.header jumps
    ∃ j e, j ≤ n ∧ (∀ k, k ≤ j → (R k).notes.trace.utf8ByteSize ≤ n) ∧
      n < (R (j + 1)).notes.trace.utf8ByteSize ∧
      code.Reaches j (.start t) (R j).state ∧ code.Reaches (j + 1) (.start t) (R (j + 1)).state ∧
      e.result = .error (.unwritable (R j).state.ip Sink.complaint) ∧
      e.tape = (R (j + 1)).state.memory ∧
      ∀ fuel, j < fuel →
        execute fuel control { sink := some { room := some n }, jumps } text t = some e := by
  intro R
  obtain ⟨j, hj, hwithin, hbeyond⟩ := code.exists_overrun control hhead (by
    intro hended
    obtain ⟨e, he⟩ := Option.ne_none_iff_exists'.mp
      (fun hnone => hended (Execution.ofOutcome_eq_none_iff.mp hnone))
    rw [← (Execution.told_of_ofOutcome he).2]
    exact hlong (n + 1) e ((execute_boundless hcode (n + 1)).trans he))
  have hroom : Row.header.utf8ByteSize + (n - Row.header.utf8ByteSize) = n := by omega
  obtain ⟨hreach, hnext, w, hrun⟩ := code.run_overflows control (.start t) Row.header jumps
    (n - Row.header.utf8ByteSize) j (by rw [hroom]; exact hwithin j (Nat.le_refl j))
    (by rw [hroom]; exact hbeyond)
  refine ⟨j, {
    tape := (R (j + 1)).state.memory
    result := .error (.unwritable (R j).state.ip Sink.complaint)
    trace := w.trace
    events := .loopsPaired code.loops.length :: w.events ++ [] },
    hj, hwithin, hbeyond, hreach, hnext, rfl, rfl, ?_⟩
  intro fuel hfuel
  rw [execute_within hcode hhead, hrun fuel hfuel]
  rfl

end Executions

/-- **A full sink stops the run at a known point.**  A balanced program is
    executed with a sink for `n` bytes and compared with the execution `R`
    under the same control and without limit.  If the whole table fits,
    both executions are the same.  If not even its head fits, nothing is
    done.  Otherwise let `j` be the first step whose row ends beyond byte
    `n`: the position blamed is the one the step `j` was taken at, also if it
    jumped, and the tape is the one `R` has after this step.  In
    particular a program that never ends is stopped. -/
theorem full_sink_stops_run {text : String} (hbal : Balanced text.toList) (t : Tape)
    (control : Control) (jumps : Option (List Event)) (n : Nat) :
    ∃ code, Code.ofText text = .ok code ∧
    ∃ R : Nat → Outcome Tape Watch,
      (∀ k, R k = code.run control Watch.see k (.start t)
        { sink := some { written := Row.header }, jumps }) ∧
      (∀ fuel, execute fuel control { sink := some {}, jumps } text t
        = Execution.ofOutcome code.loops.length (R fuel)) ∧
      (∀ fuel e, execute fuel control { sink := some {}, jumps } text t = some e →
        e.trace.utf8ByteSize ≤ n →
        execute fuel control { sink := some { room := some n }, jumps } text t = some e) ∧
      (n < Row.header.utf8ByteSize → ∀ fuel, ∃ e,
        execute fuel control { sink := some { room := some n }, jumps } text t = some e ∧
        e.result = .error (.unwritable 0 Sink.complaint) ∧ e.tape = t) ∧
      (Row.header.utf8ByteSize ≤ n →
        (∀ fuel e, execute fuel control { sink := some {}, jumps } text t = some e →
          n < e.trace.utf8ByteSize) →
        ∃ j e, (∀ k, k ≤ j → (R k).notes.trace.utf8ByteSize ≤ n) ∧
          n < (R (j + 1)).notes.trace.utf8ByteSize ∧
          code.Reaches j (.start t) (R j).state ∧
          code.Reaches (j + 1) (.start t) (R (j + 1)).state ∧
          e.result = .error (.unwritable (R j).state.ip Sink.complaint) ∧
          e.tape = (R (j + 1)).state.memory ∧
          ∀ fuel, j < fuel →
            execute fuel control { sink := some { room := some n }, jumps } text t = some e) ∧
      ((∀ fuel, execute fuel control { jumps } text t = none) →
        ∃ e ip, e.result = .error (.unwritable ip Sink.complaint) ∧ ∀ fuel, n < fuel →
          execute fuel control { sink := some { room := some n }, jumps } text t = some e) := by
  obtain ⟨code, hcode⟩ : ∃ code, Code.ofText text = .ok code := Code.ofChars_isOk_iff.mpr hbal
  refine ⟨code, hcode, code.tabled control (.start t) Row.header jumps, fun k => rfl,
    execute_boundless hcode, fun fuel e => execute_of_fits hcode, ?_, ?_, ?_⟩
  · intro hhead fuel
    exact ⟨_, execute_headless hcode hhead fuel, rfl, rfl⟩
  · intro hhead hlong
    obtain ⟨j, e, -, hrest⟩ := execute_of_overrun hcode control jumps t hhead hlong
    exact ⟨j, e, hrest⟩
  · intro hforever
    by_cases hhead : n < Row.header.utf8ByteSize
    · exact ⟨_, 0, rfl, fun fuel _ => execute_headless hcode hhead fuel⟩
    · -- the execution without limit never ends either, so no table fits
      obtain ⟨j, e, hj, -, -, -, -, hresult, -, hrun⟩ :=
        execute_of_overrun hcode control jumps t (Nat.le_of_not_lt hhead) (by
          intro fuel e he
          have huntraced := execute_untraced fuel control jumps text t
          rw [he, hforever fuel] at huntraced
          cases huntraced)
      exact ⟨e, _, hresult, fun fuel hfuel => hrun fuel (by omega)⟩

/-- An empty loop that never ends is stopped at its first jump. -/
theorem full_sink_stops_run_at_jump :
    Balanced "+[]".toList ∧ ∃ e, e.result = .error (.unwritable 2 Sink.complaint) ∧
      e.tape = ⟨[], 1, []⟩ ∧ ∀ fuel, 2 < fuel →
        execute fuel {} { sink := some { room := some 300 } } "+[]" .blank = some e := by
  have hbal : Balanced "+[]".toList := by decide
  obtain ⟨code, hcode, R, hR, hwhole, -, -, hcut, -⟩ :=
    full_sink_stops_run hbal .blank {} none 300
  obtain rfl : #[.increment, .loopStart, .loopEnd 1] = code := Except.ok.inj hcode
  -- the closing bracket is followed by itself
  have hstuck : ∀ fuel steps written,
      (Code.run #[.increment, .loopStart, .loopEnd 1] {} Watch.see fuel
        { ip := 2, steps, memory := (⟨[], 1, []⟩ : Tape) } (.boundless written none)).halt
      = .unfinished := by
    intro fuel
    induction fuel with
    | zero =>
        intro steps written
        rfl
    | succ fuel ih =>
        intro steps written
        exact ih (steps + 1) _
  have hforever : ∀ fuel, (R fuel).halt = .unfinished := by
    rintro (_ | _ | fuel)
    · rw [hR]
      rfl
    · rw [hR]
      rfl
    · rw [hR]
      exact hstuck fuel 2 _
  obtain ⟨j, e, hwithin, hbeyond, -, -, hresult, htape, hrun⟩ := hcut (by decide +kernel) (by
    intro fuel e he
    rw [hwhole, Execution.ofOutcome_eq_none_iff.mpr (hforever fuel)] at he
    cases he)
  -- the first two rows fit, the third does not
  have hj : j < 3 := by
    by_contra hge
    have hthird := hwithin 3 (by omega)
    rw [hR] at hthird
    exact absurd hthird (by decide +kernel)
  rw [hR] at hbeyond
  obtain rfl | rfl | rfl : j = 0 ∨ j = 1 ∨ j = 2 := by omega
  · exact absurd hbeyond (by decide +kernel)
  · exact absurd hbeyond (by decide +kernel)
  · rw [hR] at hresult htape
    exact ⟨hbal, e, hresult, htape, hrun⟩

end TapeMachine
