import TapeMachine.Proofs.Sequence

/-! # Jumps — where the steps of a run go

    A step takes control one place further, and a jump takes it back to
    just behind an opening bracket.  So the steps of a run are not lost:
    they are the place that was reached and the ways back in the jumps
    that the log tells.

      * `Accounts`: what holds of a state and the jumps noted on the way to
        it.  One step keeps it (`Accounts.act`), so a run keeps it under
        any control and with any table (`Code.run_accounts`).
      * `Accounts.steps_le`: between two jumps control gets through the
        text at most once.
      * `Balanced.runsForever_iff_jumps`: without an end there is no end of
        jumps. -/

namespace TapeMachine

/-! ## Ways back -/

/-- How far control goes back in an event. -/
def Event.back : Event → Nat
  | .jumpBack ip start => ip - start
  | _ => 0

/-- How far control goes back in some events together. -/
def wayBack : List Event → Nat
  | [] => 0
  | e :: events => e.back + wayBack events

theorem wayBack_append (events events' : List Event) :
    wayBack (events ++ events') = wayBack events + wayBack events' := by
  induction events with
  | nil => exact (Nat.zero_add _).symm
  | cons e events ih => rw [List.cons_append, wayBack, wayBack, ih, Nat.add_assoc]

theorem wayBack_reverse (events : List Event) : wayBack events.reverse = wayBack events := by
  induction events with
  | nil => rfl
  | cons e events ih =>
      rw [List.reverse_cons, wayBack_append, ih, wayBack, wayBack, wayBack]
      omega

theorem wayBack_le {m : Nat} {events : List Event} (h : ∀ e ∈ events, e.back ≤ m) :
    wayBack events ≤ events.length * m := by
  induction events with
  | nil => exact Nat.zero_le _
  | cons e events ih =>
      have hfirst : e.back ≤ m := h e List.mem_cons_self
      have hrest := ih fun e' hmem => h e' (List.mem_cons_of_mem e hmem)
      rw [wayBack, List.length_cons, Nat.succ_mul]
      omega

/-! ## Jumps of a run -/

/-- An event tells of one of the first `n` steps: it was taken at a closing
    bracket, the cell was not zero, and control went back to the partner of
    the bracket. -/
def Jumped (text : List Char) (code : Code) (t : Tape) (n : Nat) (e : Event) : Prop :=
  ∃ k s start, k < n ∧ code.Reaches k (.start t) s ∧ s.memory.cell ≠ 0 ∧
    Partners text start s.ip ∧ e = .jumpBack s.ip start

/-- The steps to a state are settled by the place it is at and the jumps
    `seen` on the way, newest first. -/
structure Accounts (text : List Char) (code : Code) (t : Tape) (s : State Tape)
    (seen : List Event) : Prop where
  reaches : code.Reaches s.steps (.start t) s
  ip_le : s.ip ≤ text.length
  steps : s.steps = s.ip + wayBack seen
  jumped : ∀ e ∈ seen, Jumped text code t s.steps e
  length_le : seen.length ≤ s.steps

section Accounting

variable {text : List Char} {code : Code} {t : Tape} {s : State Tape} {seen : List Event}

/-- A jump does not go back further than the text is long. -/
theorem Jumped.back_le {n : Nat} {e : Event} (h : Jumped text code t n e) :
    e.back ≤ text.length := by
  obtain ⟨k, s, start, -, -, -, hpartners, rfl⟩ := h
  have hlt : s.ip < text.length := (List.getElem?_eq_some_iff.mp hpartners.closing).1
  show s.ip - start ≤ text.length
  omega

namespace Accounts

theorem start (text : List Char) (code : Code) (t : Tape) :
    Accounts text code t (.start t) [] where
  reaches := .refl _
  ip_le := Nat.zero_le _
  steps := rfl
  jumped := fun _ hmem => absurd hmem List.not_mem_nil
  length_le := Nat.zero_le _

/-- A step keeps the account.  Where control goes back, the step pays for
    the way from the opening bracket to the closing one. -/
theorem act {i : Instr} (hcode : Code.ofChars text = .ok code) (hi : code[s.ip]? = some i)
    (h : Accounts text code t s seen) :
    ∃ seen', Watch.noteJump (some seen) i s = some seen' ∧
      Accounts text code t (i.act s) seen' := by
  have hlt : s.ip < text.length := Code.lt_length_of_getElem? hcode hi
  have hsteps := h.steps
  have hlength := h.length_le
  have hreaches : code.Reaches (s.steps + 1) (.start t) (i.act s) :=
    h.reaches.trans (.step hi (.refl _))
  have hkept : ∀ e ∈ seen, Jumped text code t (s.steps + 1) e := by
    intro e hmem
    obtain ⟨k, s', start, hk, hrest⟩ := h.jumped e hmem
    exact ⟨k, s', start, Nat.lt_succ_of_lt hk, hrest⟩
  have hpass : (i.act s).ip = s.ip + 1 → Accounts text code t (i.act s) seen := by
    intro hip
    refine ⟨hreaches, by omega, ?_, hkept, Nat.le_succ_of_le hlength⟩
    show s.steps + 1 = (i.act s).ip + wayBack seen
    omega
  cases i with
  | loopEnd start =>
      by_cases hz : s.memory.cell = 0
      · exact ⟨seen, if_pos hz, hpass (if_pos hz)⟩
      · have hpartners : Partners text start s.ip := (Code.partners_iff hcode).mp hi
        have hback := hpartners.lt
        have hip : ((Instr.loopEnd start).act s).ip = start + 1 := if_neg hz
        refine ⟨.jumpBack s.ip start :: seen, if_neg hz, hreaches, by omega, ?_, ?_, ?_⟩
        · rw [hip]
          show s.steps + 1 = start + 1 + (s.ip - start + wayBack seen)
          omega
        · intro e hmem
          rcases List.mem_cons.mp hmem with rfl | hmem
          · exact ⟨s.steps, s, start, Nat.lt_succ_self _, h.reaches, hz, hpartners, rfl⟩
          · exact hkept e hmem
        · exact Nat.succ_le_succ hlength
  | _ => exact ⟨seen, rfl, hpass rfl⟩

/-- A run with `J` jumps gets through the text at most `J + 1` times. -/
theorem steps_le (h : Accounts text code t s seen) :
    s.steps ≤ (seen.length + 1) * text.length := by
  have hway : wayBack seen ≤ seen.length * text.length :=
    wayBack_le fun e hmem => (h.jumped e hmem).back_le
  have hip := h.ip_le
  rw [h.steps, Nat.succ_mul]
  omega

/-- At the end of the code the place is the length of the text. -/
theorem ip_eq (hcode : Code.ofChars text = .ok code) (h : Accounts text code t s seen)
    (hh : code.Halted s) : s.ip = text.length := by
  have hge : code.size ≤ s.ip := Array.getElem?_eq_none_iff.mp hh
  rw [Code.size_of_ofChars hcode] at hge
  exact Nat.le_antisymm h.ip_le hge

end Accounts

/-! ## Runs -/

/-- Watching a step notes its jump, whether the table takes the row or
    not. -/
theorem Watch.jumps_see {i : Instr} {s s' : State Tape} {w w' : Watch}
    (h : see i s s' w = .ok w' ∨ see i s s' w = .error w') :
    w'.jumps = noteJump w.jumps i s := by
  obtain ⟨sink, jumps⟩ := w
  cases sink with
  | none =>
      rw [see_without_sink] at h
      rcases h with h | h
      · obtain rfl := Except.ok.inj h
        rfl
      · cases h
  | some sink =>
      simp only [see] at h
      by_cases hroom : sink.accepts (Row.of i s s').line
      · rw [if_pos hroom] at h
        rcases h with h | h
        · obtain rfl := Except.ok.inj h
          rfl
        · cases h
      · rw [if_neg hroom] at h
        rcases h with h | h
        · cases h
        · obtain rfl := Except.error.inj h
          rfl

/-- A run keeps the account, whatever ends it. -/
theorem Code.run_accounts (hcode : ofChars text = .ok code) (control : Control) (fuel : Nat)
    {w : Watch} (hw : w.jumps = some seen) (h : Accounts text code t s seen) :
    ∃ seen', (code.run control Watch.see fuel s w).notes.jumps = some seen' ∧
      Accounts text code t (code.run control Watch.see fuel s w).state seen' := by
  induction fuel generalizing s seen w with
  | zero => exact ⟨seen, hw, h⟩
  | succ fuel ih =>
      cases hstop : code.stop? control s with
      | some halt =>
          rw [run_of_stop hstop]
          exact ⟨seen, hw, h⟩
      | none =>
          obtain ⟨i, hi, hgo⟩ := run_of_go hstop
          obtain ⟨seen', hnote, h'⟩ := h.act hcode hi
          rw [← hw] at hnote
          cases hsee : Watch.see i s (i.act s) w with
          | error w' =>
              rw [(hgo fuel).2 hsee]
              exact ⟨seen', (Watch.jumps_see (Or.inr hsee)).trans hnote, h'⟩
          | ok w' =>
              rw [(hgo fuel).1 hsee]
              exact ih ((Watch.jumps_see (Or.inl hsee)).trans hnote) h'

/-- At every moment of a run whose jumps are logged from the start, the
    log settles the steps. -/
theorem Code.run_start_accounts (hcode : ofChars text = .ok code) (control : Control)
    (sink : Option Sink) (fuel : Nat) (t : Tape) :
    let o := code.run control Watch.see fuel (.start t) { sink, jumps := some [] }
    ∃ seen, o.notes.events = seen.reverse ∧ Accounts text code t o.state seen := by
  intro o
  obtain ⟨seen, hseen, h⟩ := code.run_accounts hcode control fuel
    (w := { sink, jumps := some [] }) rfl (.start text code t)
  refine ⟨seen, ?_, h⟩
  show (o.notes.jumps.getD []).reverse = seen.reverse
  rw [hseen]
  rfl

/-- A run that finished has left the code. -/
theorem Code.halted_of_finished {control : Control} {fuel : Nat} {w : Watch}
    (h : (code.run control Watch.see fuel s w).halt = .finished) :
    code.Halted (code.run control Watch.see fuel s w).state := by
  rcases code.run_cases control Watch.see fuel s w with
    ⟨hhalt, -⟩ | ⟨n, -, hstop⟩ | ⟨n, s', i, -, -, -, hhalt⟩
  · rw [h] at hhalt
    cases hhalt
  · rw [h] at hstop
    rcases stop?_cases hstop with ⟨-, hend⟩ | ⟨hhalt, -⟩ | ⟨limit, hhalt⟩
    · exact hend
    · cases hhalt
    · cases hhalt
  · rw [h] at hhalt
    cases hhalt

/-- A run without limit is in the state that its steps lead to. -/
theorem Code.run_free_state {n : Nat} (h : code.Reaches n (.start t) s) :
    (code.run {} Watch.see n (.start t) { jumps := some [] }).state = s := by
  have hrun : code.run {} Watch.see (n + 0) (.start t) {} = ⟨s, {}, .unfinished⟩ :=
    run_of_reaches rfl Watch.see_idle h (fun _ _ => rfl) 0
  obtain ⟨w, hw⟩ := run_of_idle_run (some []) hrun
  exact congrArg Outcome.state hw

/-- No run is longer than one that leaves the code. -/
theorem Code.Reaches.le_of_halted {n k : Nat} {s' : State Tape} (h : code.Reaches n (.start t) s)
    (h' : code.Reaches k (.start t) s') (hh : code.Halted s') : n ≤ k := by
  cases hi : code[s.ip]? with
  | none => exact Nat.le_of_eq (h.unique hi h' hh).1
  | some i => exact Nat.le_of_lt (h'.lt_of_goes_on hh h hi)

end Accounting

/-! ## Executions -/

variable {text : String} {code : Code} {t : Tape}

/-- A program never ends exactly if there is no end of its jumps. -/
theorem Balanced.runsForever_iff_jumps (h : Balanced text.toList)
    (hcode : Code.ofText text = .ok code) :
    RunsForever text t ↔ ∀ J, ∃ n, ∀ fuel, n ≤ fuel →
      J ≤ (code.run {} Watch.see fuel (.start t) { jumps := some [] }).notes.events.length := by
  rw [h.runsForever_iff]
  constructor
  · intro hforever J
    refine ⟨(J + 1) * text.length + 1, ?_⟩
    intro fuel hfuel
    -- the run takes as many steps as there is fuel, and few jumps do not do
    rcases code.reaches_of_run_free Watch.see_idle fuel (.start t) with
      ⟨k, s, -, hr, hh, -⟩ | ⟨s, hr, -⟩
    · exact absurd ⟨k, _, _, code, s, hcode, hr, hh, rfl, rfl⟩ hforever
    · obtain ⟨seen, hevents, haccounts⟩ := Code.run_start_accounts hcode {} none fuel t
      have hsteps := haccounts.steps_le
      rw [Code.run_free_state hr, hr.steps_eq, String.length_toList] at hsteps
      have hsteps : 0 + fuel ≤ (seen.length + 1) * text.length := hsteps
      rw [hevents, List.length_reverse]
      by_contra hfew
      have hle := Nat.mul_le_mul_right text.length (show seen.length + 1 ≤ J + 1 by omega)
      omega
  · rintro hmany ⟨k, out, t', code', s, hcode', hr, hh, -, -⟩
    obtain rfl : code = code' := Except.ok.inj (hcode.symm.trans hcode')
    obtain ⟨n, hn⟩ := hmany (k + 1)
    obtain ⟨seen, hevents, haccounts⟩ := Code.run_start_accounts hcode {} none n t
    have hlength := haccounts.length_le
    have hle := haccounts.reaches.le_of_halted hr hh
    have hjumps := hn n (Nat.le_refl n)
    rw [hevents, List.length_reverse] at hjumps
    omega

/-- A program that returns tells its steps in the log. -/
theorem ReturnsAfter.log {k : Nat} {out : String} {t' : Tape} (h : ReturnsAfter text t k out t')
    (hcode : Code.ofText text = .ok code) :
    ∃ e events, (∀ fuel, k < fuel → execute fuel {} { jumps := some [] } text t = some e) ∧
      e.result = .ok out ∧ e.tape = t' ∧
      e.events = .loopsPaired code.loops.length :: events ∧
      k = text.length + wayBack events ∧ k ≤ (events.length + 1) * text.length := by
  obtain ⟨code', s, hcode', hr, hh, rfl, rfl⟩ := h
  obtain rfl : code = code' := Except.ok.inj (hcode.symm.trans hcode')
  have hrun : code.run {} Watch.see (k + 1) (.start t) {} = ⟨s, {}, .finished⟩ := by
    rw [Code.run_of_reaches rfl Watch.see_idle hr (fun _ _ => rfl)]
    simp only [Code.run, show code[s.ip]? = none from hh]
  obtain ⟨w, hw⟩ := Code.run_of_idle_run (some []) hrun
  obtain ⟨seen, hevents, haccounts⟩ := Code.run_start_accounts hcode {} none (k + 1) t
  rw [hw] at hevents haccounts
  have hexecute : execute (k + 1) {} { jumps := some [] } text t
      = Execution.ofOutcome code.loops.length ⟨s, w, .finished⟩ := by
    simp only [execute, hcode, Watch.begin, hw]
  have hk : s.steps = 0 + k := hr.steps_eq
  have hsteps : s.steps = s.ip + wayBack seen := haccounts.steps
  have hip : s.ip = text.toList.length := haccounts.ip_eq hcode hh
  have hle : s.steps ≤ (seen.length + 1) * text.toList.length := haccounts.steps_le
  rw [String.length_toList] at hip hle
  refine ⟨_, w.events, fun fuel hfuel => execute_mono hfuel hexecute, rfl, rfl, ?_, ?_, ?_⟩
  · show .loopsPaired code.loops.length :: w.events ++ [] = _
    rw [List.append_nil]
  · rw [show w.events = seen.reverse from hevents, wayBack_reverse]
    omega
  · rw [show w.events = seen.reverse from hevents, List.length_reverse]
    omega

/-- **Steps, place and jumps balance.**  At every moment of every run of a
    balanced program, under any control and with any table, the steps
    taken are the place reached and the ways back in the jumps logged so
    far; the place is never past the end of the text; and every jump logged
    was made at a closing bracket on a cell that was not zero, back to the
    partner of the bracket.  So an execution that returns takes as many
    steps as the text is long and its jumps go back together, a run with
    `J` jumps takes at most `J + 1` times the length of the text, and a
    program never ends exactly if there is no end of its jumps. -/
theorem steps_balance_jumps {text : String} (hbal : Balanced text.toList) (t : Tape) :
    ∃ code, Code.ofText text = .ok code ∧
    (∀ (control : Control) (sink : Option Sink) (fuel : Nat),
      let o := code.run control Watch.see fuel (.start t) { sink, jumps := some [] }
      code.Reaches o.state.steps (.start t) o.state ∧
      o.state.steps = o.state.ip + wayBack o.notes.events ∧
      o.state.ip ≤ text.length ∧
      (∀ e ∈ o.notes.events, Jumped text.toList code t o.state.steps e) ∧
      o.state.steps ≤ (o.notes.events.length + 1) * text.length ∧
      (o.halt = .finished → o.state.steps = text.length + wayBack o.notes.events)) ∧
    (∀ n s, code.Reaches n (.start t) s →
      (code.run {} Watch.see n (.start t) { jumps := some [] }).state = s) ∧
    (∀ k out t', ReturnsAfter text t k out t' → ∃ e events,
      (∀ fuel, k < fuel → execute fuel {} { jumps := some [] } text t = some e) ∧
      e.result = .ok out ∧ e.tape = t' ∧
      e.events = .loopsPaired code.loops.length :: events ∧
      k = text.length + wayBack events ∧ k ≤ (events.length + 1) * text.length) ∧
    (RunsForever text t ↔ ∀ J, ∃ n, ∀ fuel, n ≤ fuel →
      J ≤ (code.run {} Watch.see fuel (.start t) { jumps := some [] }).notes.events.length) := by
  obtain ⟨code, hcode⟩ : ∃ code, Code.ofText text = .ok code := Code.ofChars_isOk_iff.mpr hbal
  refine ⟨code, hcode, ?_, fun n s => Code.run_free_state, fun k out t' h => h.log hcode,
    hbal.runsForever_iff_jumps hcode⟩
  intro control sink fuel o
  obtain ⟨seen, hevents, h⟩ := Code.run_start_accounts hcode control sink fuel t
  have hway : wayBack o.notes.events = wayBack seen := by rw [hevents, wayBack_reverse]
  have hip := h.ip_le
  have hle := h.steps_le
  rw [String.length_toList] at hip hle
  refine ⟨h.reaches, ?_, hip, ?_, ?_, ?_⟩
  · rw [hway]
    exact h.steps
  · intro e hmem
    rw [hevents, List.mem_reverse] at hmem
    exact h.jumped e hmem
  · rw [hevents, List.length_reverse]
    exact hle
  · intro hhalt
    have hend := h.ip_eq hcode (Code.halted_of_finished hhalt)
    rw [String.length_toList] at hend
    rw [hway, ← hend]
    exact h.steps

/-- A loop that runs twice goes back once: seven steps for five
    characters. -/
theorem steps_balance_jumps_twice :
    Balanced "++[-]".toList ∧ ReturnsAfter "++[-]" .blank 7 "" .blank ∧
    ∃ e events,
      (∀ fuel, 7 < fuel → execute fuel {} { jumps := some [] } "++[-]" .blank = some e) ∧
      e.result = .ok "" ∧ e.tape = .blank ∧ e.events = .loopsPaired 1 :: events ∧
      7 = "++[-]".length + wayBack events ∧ 7 ≤ (events.length + 1) * "++[-]".length := by
  have hbal : Balanced "++[-]".toList := by decide
  obtain ⟨code, hcode, -, -, hreturns, -⟩ := steps_balance_jumps hbal .blank
  obtain rfl : #[.increment, .increment, .loopStart, .decrement, .loopEnd 2] = code :=
    Except.ok.inj hcode
  have hret : ReturnsAfter "++[-]" .blank 7 "" .blank :=
    ⟨_, _, hcode, .step rfl (.step rfl (.step rfl (.step rfl (.step rfl (.step rfl (.step rfl
      (.refl _))))))), rfl, rfl, rfl⟩
  exact ⟨hbal, hret, hreturns 7 "" .blank hret⟩

end TapeMachine
