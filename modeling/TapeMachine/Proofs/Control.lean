import TapeMachine.Proofs.Brackets

/-! # Control — what a limit or a flag cuts off

    A run under control takes the steps of the free run, one by one,
    until something stops it.  Where it stops, and what it leaves behind,
    is read off the free run here.

      * `run_of_stop`, `run_of_go`: what one instruction's worth of a run
        does.  Whether it is stopped does not depend on the observer.
      * `stop?_cases`: what can stop it.
      * `run_add`: fuel may be handed out in portions.
      * `run_cases`: what ends a run.
      * `run_lockstep`: observers that always go on do not disturb a run.
      * `run_within`, `run_beyond`: a run under a limit of `n` steps is
        the free run if that ends within `n` steps, and otherwise stops
        in the state after `n` steps. -/

namespace TapeMachine

namespace Code

variable {M σ τ : Type} [Memory M] {code : Code} {control : Control}

/-! ## One instruction -/

/-- What ends a run before its next instruction, if anything does. -/
def stop? (code : Code) (control : Control) (s : State M) : Option Halt :=
  match code[s.ip]? with
  | none => some .finished
  | some _ =>
      if control.cancelled then some .cancelled
      else if control.exhausted s.steps then some (.limitReached (control.limit.getD 0))
      else none

/-- A run that is stopped is left as it is, whoever observes it. -/
theorem run_of_stop {s : State M} {halt : Halt} (h : code.stop? control s = some halt)
    (observe : Observer M σ) (fuel : Nat) (w : σ) :
    code.run control observe (fuel + 1) s w = ⟨s, w, halt⟩ := by
  unfold stop? at h
  unfold run
  cases hi : code[s.ip]? with
  | none =>
      rw [hi] at h
      obtain rfl := Option.some.inj h
      rfl
  | some i =>
      rw [hi] at h
      by_cases hc : control.cancelled
      · simp only [hc, if_true, Option.some.injEq] at h ⊢
        rw [h]
      · by_cases hx : control.exhausted s.steps
        · simp only [hc, hx, if_true, Bool.false_eq_true, if_false, Option.some.injEq] at h ⊢
          rw [h]
        · simp only [hc, hx, Bool.false_eq_true, if_false] at h
          exact nomatch h

/-- A run that is not stopped carries out its instruction and goes on if
    the observer does. -/
theorem run_of_go {s : State M} (h : code.stop? control s = none) :
    ∃ i, code[s.ip]? = some i ∧
      ∀ {σ : Type} {observe : Observer M σ} {w w' : σ} (fuel : Nat),
        (observe i s (i.act s) w = .ok w' →
          code.run control observe (fuel + 1) s w = code.run control observe fuel (i.act s) w') ∧
        (observe i s (i.act s) w = .error w' →
          code.run control observe (fuel + 1) s w = ⟨i.act s, w', .unobservable s.ip⟩) := by
  unfold stop? at h
  cases hi : code[s.ip]? with
  | none =>
      rw [hi] at h
      exact nomatch h
  | some i =>
      rw [hi] at h
      by_cases hc : control.cancelled
      · simp only [hc, if_true] at h
        exact nomatch h
      · by_cases hx : control.exhausted s.steps
        · simp only [hc, hx, if_true, Bool.false_eq_true, if_false] at h
          exact nomatch h
        · refine ⟨i, rfl, ?_⟩
          intro σ observe w w' fuel
          refine ⟨?_, ?_⟩
          · intro hw
            simp only [run, hi, hc, hx, hw, Bool.false_eq_true, if_false]
          · intro hw
            simp only [run, hi, hc, hx, hw, Bool.false_eq_true, if_false]

omit [Memory M] in
/-- What can stop a run before an instruction: the end of the code, a raised
    flag, or a limit that is used up. -/
theorem stop?_cases {s : State M} {halt : Halt} (h : code.stop? control s = some halt) :
    (halt = .finished ∧ code[s.ip]? = none) ∨
    (halt = .cancelled ∧ control.cancelled = true) ∨
    ∃ limit, halt = .limitReached limit := by
  unfold stop? at h
  split at h
  · rename_i hend
    exact Or.inl ⟨(Option.some.inj h).symm, hend⟩
  · split at h
    · rename_i hflag
      exact Or.inr (Or.inl ⟨(Option.some.inj h).symm, hflag⟩)
    · split at h
      · exact Or.inr (Or.inr ⟨_, (Option.some.inj h).symm⟩)
      · cases h

/-- A run that used up its fuel may be taken up again with more; a run that
    ended does not need it. -/
theorem run_add (observe : Observer M σ) (m n : Nat) (s : State M) (w : σ) :
    code.run control observe (m + n) s w =
      let o := code.run control observe m s w
      if o.halt = .unfinished then code.run control observe n o.state o.notes else o := by
  -- the first portion is used up step by step, and what stops it would
  -- have stopped the whole run at the same place
  induction m generalizing s w with
  | zero =>
      rw [Nat.zero_add]
      rfl
  | succ m ih =>
      rw [show m + 1 + n = m + n + 1 from by omega]
      cases hstop : code.stop? control s with
      | some halt =>
          have hne : halt ≠ .unfinished := by
            rintro rfl
            rcases stop?_cases hstop with ⟨hhalt, -⟩ | ⟨hhalt, -⟩ | ⟨limit, hhalt⟩ <;> cases hhalt
          simp only [run_of_stop hstop, if_neg hne]
      | none =>
          obtain ⟨i, -, hgo⟩ := run_of_go hstop
          cases hw : observe i s (i.act s) w with
          | error w' =>
              rw [(hgo (m + n)).2 hw, (hgo m).2 hw]
              rfl
          | ok w' =>
              rw [(hgo (m + n)).1 hw, (hgo m).1 hw]
              exact ih (i.act s) w'

/-- Two observers that always go on see the same run, and what relates
    their notes after each step relates them at the end. -/
theorem run_lockstep (code : Code) (control : Control) {observe : Observer M σ}
    {observe' : Observer M τ} (R : σ → τ → Prop)
    (hstep : ∀ i s s' w v, R w v →
      ∃ w' v', observe i s s' w = .ok w' ∧ observe' i s s' v = .ok v' ∧ R w' v')
    (fuel : Nat) (s : State M) {w : σ} {v : τ} (h : R w v) :
    ∃ s' halt w' v', code.run control observe fuel s w = ⟨s', w', halt⟩ ∧
      code.run control observe' fuel s v = ⟨s', v', halt⟩ ∧ R w' v' := by
  induction fuel generalizing s w v with
  | zero => exact ⟨s, .unfinished, w, v, rfl, rfl, h⟩
  | succ fuel ih =>
      cases hstop : code.stop? control s with
      | some halt => exact ⟨s, halt, w, v, run_of_stop hstop _ _ _, run_of_stop hstop _ _ _, h⟩
      | none =>
          obtain ⟨i, -, hgo⟩ := run_of_go hstop
          obtain ⟨w', v', hw, hv, h'⟩ := hstep i s (i.act s) w v h
          rw [(hgo fuel).1 hw, (hgo fuel).1 hv]
          exact ih (i.act s) h'

/-- What ends a run: its fuel, something that stops it before an
    instruction, or its observer after one. -/
theorem run_cases (code : Code) (control : Control) (observe : Observer M σ) (fuel : Nat)
    (s : State M) (w : σ) :
    let o := code.run control observe fuel s w
    (o.halt = .unfinished ∧ code.Reaches fuel s o.state) ∨
    (∃ n, code.Reaches n s o.state ∧ code.stop? control o.state = some o.halt) ∨
    ∃ n s' i, code.Reaches n s s' ∧ code[s'.ip]? = some i ∧ o.state = i.act s' ∧
      o.halt = .unobservable s'.ip := by
  induction fuel generalizing s w with
  | zero => exact Or.inl ⟨rfl, .refl s⟩
  | succ fuel ih =>
      cases hstop : code.stop? control s with
      | some halt =>
          rw [run_of_stop hstop]
          exact Or.inr (Or.inl ⟨0, .refl s, hstop⟩)
      | none =>
          obtain ⟨i, hi, hgo⟩ := run_of_go hstop
          cases hw : observe i s (i.act s) w with
          | error w' =>
              rw [(hgo fuel).2 hw]
              exact Or.inr (Or.inr ⟨0, s, i, .refl s, hi, rfl, rfl⟩)
          | ok w' =>
              rw [(hgo fuel).1 hw]
              rcases ih (i.act s) w' with ⟨hhalt, hr⟩ | ⟨n, hr, hhalt⟩ | ⟨n, s', j, hr, hrest⟩
              · exact Or.inl ⟨hhalt, .step hi hr⟩
              · exact Or.inr (Or.inl ⟨n + 1, .step hi hr, hhalt⟩)
              · exact Or.inr (Or.inr ⟨n + 1, s', j, .step hi hr, hrest⟩)

/-- A run whose flag is never raised is not cancelled. -/
theorem run_halt_ne_cancelled (h : control.cancelled = false) (observe : Observer M σ)
    (fuel : Nat) (s : State M) (w : σ) :
    (code.run control observe fuel s w).halt ≠ .cancelled := by
  intro hc
  rcases code.run_cases control observe fuel s w with
    ⟨hhalt, -⟩ | ⟨n, -, hstop⟩ | ⟨n, s', i, -, -, -, hhalt⟩
  · rw [hc] at hhalt
    cases hhalt
  · rcases stop?_cases hstop with ⟨hhalt, -⟩ | ⟨-, hflag⟩ | ⟨limit, hhalt⟩
    · rw [hc] at hhalt
      cases hhalt
    · rw [h] at hflag
      cases hflag
    · rw [hc] at hhalt
      cases hhalt
  · rw [hc] at hhalt
    cases hhalt

/-- A run that used up its fuel took as many steps. -/
theorem reaches_of_unfinished {observe : Observer M σ} {fuel : Nat} {s : State M} {w : σ}
    (h : (code.run control observe fuel s w).halt = .unfinished) :
    code.Reaches fuel s (code.run control observe fuel s w).state := by
  rcases code.run_cases control observe fuel s w with
    ⟨-, hr⟩ | ⟨n, -, hstop⟩ | ⟨n, s', i, -, -, -, hhalt⟩
  · exact hr
  · rw [h] at hstop
    rcases stop?_cases hstop with ⟨hhalt, -⟩ | ⟨hhalt, -⟩ | ⟨limit, hhalt⟩ <;> cases hhalt
  · rw [h] at hhalt
    cases hhalt

/-! ## The free run -/

variable {n : Nat} {s s' : State M}

/-- A run of `n` steps adds `n` to the count of steps. -/
theorem Reaches.steps_eq (h : code.Reaches n s s') : s'.steps = s.steps + n := by
  induction h with
  | refl s => rfl
  | @step n s s' i _ _ ih =>
      rw [ih]
      show s.steps + 1 + n = s.steps + (n + 1)
      omega

/-- A run of `n` steps leads to the state after `n` steps. -/
theorem Reaches.after_eq (h : code.Reaches n s s') : code.after n s = s' := by
  induction h with
  | refl s => rfl
  | step hi _ ih =>
      simp only [after, step?, hi, Option.map_some]
      exact ih

/-- Within `n` steps the machine gets past the end of the code, or it takes
    all of them and has one more to take. -/
theorem halts_within_or_goes_on (code : Code) (n : Nat) (s : State M) :
    (∃ k s', k ≤ n ∧ code.Reaches k s s' ∧ code.Halted s') ∨
      (∃ s' i, code.Reaches n s s' ∧ code[s'.ip]? = some i) := by
  induction n generalizing s with
  | zero =>
      cases hi : code[s.ip]? with
      | none => exact Or.inl ⟨0, s, Nat.le_refl 0, .refl s, hi⟩
      | some i => exact Or.inr ⟨s, i, .refl s, hi⟩
  | succ n ih =>
      cases hi : code[s.ip]? with
      | none => exact Or.inl ⟨0, s, Nat.zero_le _, .refl s, hi⟩
      | some i =>
          rcases ih (i.act s) with ⟨k, s', hk, hr, hh⟩ | ⟨s', j, hr, hj⟩
          · exact Or.inl ⟨k + 1, s', by omega, .step hi hr, hh⟩
          · exact Or.inr ⟨s', j, .step hi hr, hj⟩

/-- A run that gets past the end of the code is longer than any run that
    does not. -/
theorem Reaches.lt_of_goes_on {k : Nat} {s'' : State M} {i : Instr} (h : code.Reaches k s s')
    (hh : code.Halted s') (h' : code.Reaches n s s'') (hi : code[s''.ip]? = some i) : n < k := by
  induction h' generalizing k with
  | refl s =>
      obtain ⟨k', rfl, -⟩ := h.uncons_of_halted hi hh
      omega
  | step hj _ ih =>
      obtain ⟨k', rfl, hrest⟩ := h.uncons_of_halted hj hh
      have := ih hrest hi
      omega

/-! ## Limits -/

variable {observe : Observer M σ} {w : σ}

/-- A limit is not used up by fewer steps. -/
theorem exhausted_of_lt {limit steps : Nat} (h : steps < limit) :
    Control.exhausted { limit := some limit } steps = false :=
  decide_eq_false (by omega)

/-- As long as its limit is not used up, a run may be taken up again after
    some of its steps. -/
theorem run_limited {k : Nat} {m : M} (hobs : ∀ i s s', observe i s s' w = .ok w)
    (hr : code.Reaches k (.start m) s') (hk : k ≤ n) (fuel : Nat) :
    code.run { limit := some n } observe (k + fuel) (.start m) w
      = code.run { limit := some n } observe fuel s' w := by
  refine run_of_reaches rfl hobs hr ?_ fuel
  intro j hj
  exact exhausted_of_lt (by show 0 + j < n; omega)

/-- A run that ends within its limit ends as the free run does. -/
theorem run_within {k fuel : Nat} {m : M} (hobs : ∀ i s s', observe i s s' w = .ok w)
    (hr : code.Reaches k (.start m) s') (hh : code.Halted s') (hk : k ≤ n) (hfuel : n < fuel) :
    code.run { limit := some n } observe fuel (.start m) w = ⟨s', w, .finished⟩ := by
  obtain ⟨rest, rfl⟩ : ∃ rest, fuel = k + (rest + 1) := ⟨fuel - k - 1, by omega⟩
  rw [run_limited hobs hr hk]
  simp only [run, show code[s'.ip]? = none from hh]

/-- A run that goes on beyond its limit stops in the state it has then. -/
theorem run_beyond {fuel : Nat} {m : M} {i : Instr}
    (hobs : ∀ i s s', observe i s s' w = .ok w)
    (hr : code.Reaches n (.start m) s') (hi : code[s'.ip]? = some i) (hfuel : n < fuel) :
    code.run { limit := some n } observe fuel (.start m) w = ⟨s', w, .limitReached n⟩ := by
  obtain ⟨rest, rfl⟩ : ∃ rest, fuel = n + (rest + 1) := ⟨fuel - n - 1, by omega⟩
  have hused : Control.exhausted { limit := some n } s'.steps = true := by
    rw [hr.steps_eq]
    exact decide_eq_true (Nat.le_add_left n 0)
  rw [run_limited hobs hr (Nat.le_refl n)]
  simp only [run, hi, hused, Bool.false_eq_true, if_false, if_true, Option.getD_some]

end Code

/-! ## Executions -/

variable {text : String} {code : Code} {t : Tape} {control : Control} {watch : Watch}

/-- Only a run that used up its fuel tells nothing. -/
theorem Execution.ofOutcome_eq_none_iff {loops : Nat} {o : Outcome Tape Watch} :
    ofOutcome loops o = none ↔ o.halt = .unfinished := by
  obtain ⟨s, w, halt⟩ := o
  cases halt <;> simp [ofOutcome]

/-- A run that tells something has ended. -/
theorem Execution.ended_of_ofOutcome {loops : Nat} {o : Outcome Tape Watch} {e : Execution}
    (h : ofOutcome loops o = some e) : o.halt ≠ .unfinished := by
  intro hun
  rw [ofOutcome_eq_none_iff.mpr hun] at h
  exact nomatch h

/-- Tape and table of an execution are those of its run. -/
theorem Execution.told_of_ofOutcome {loops : Nat} {o : Outcome Tape Watch} {e : Execution}
    (h : ofOutcome loops o = some e) : e.tape = o.state.memory ∧ e.trace = o.notes.trace := by
  obtain ⟨s, w, halt⟩ := o
  cases halt with
  | unfinished => cases h
  | _ =>
      obtain rfl := Option.some.inj h
      exact ⟨rfl, rfl⟩

/-- More fuel does not change an answer. -/
theorem execute_mono {fuel fuel' : Nat} {e : Execution} (hle : fuel ≤ fuel')
    (h : execute fuel control watch text t = some e) :
    execute fuel' control watch text t = some e := by
  obtain ⟨more, rfl⟩ := Nat.exists_eq_add_of_le hle
  rw [← h]
  unfold execute
  cases hcode : Code.ofText text with
  | error u => rfl
  | ok code =>
      cases hbegin : watch.begin with
      | none => rfl
      | some w =>
          simp only [execute, hcode, hbegin] at h ⊢
          rw [Code.run_add, if_neg (Execution.ended_of_ofOutcome h)]

/-- An execution has one answer, whatever the fuel. -/
theorem execute_unique {fuel fuel' : Nat} {e e' : Execution}
    (h : execute fuel control watch text t = some e)
    (h' : execute fuel' control watch text t = some e') : e = e' := by
  have hmax := execute_mono (Nat.le_max_left fuel fuel') h
  rw [execute_mono (Nat.le_max_right fuel fuel') h'] at hmax
  exact (Option.some.inj hmax).symm

/-- Without a sink a step is noted at most as a jump. -/
theorem Watch.see_without_sink (i : Instr) (s s' : State Tape) (jumps : Option (List Event)) :
    see i s s' { jumps } = .ok { jumps := noteJump jumps i s } := by
  cases jumps with
  | none => rfl
  | some seen => rfl

/-- Watching the jumps does not change where a run ends, and how. -/
theorem Code.run_of_idle_run {control : Control} (jumps : Option (List Event)) {fuel : Nat}
    {s s' : State Tape} {halt : Halt}
    (h : code.run control Watch.see fuel s {} = ⟨s', {}, halt⟩) :
    ∃ w, code.run control Watch.see fuel s { jumps } = ⟨s', w, halt⟩ := by
  have hstart : ({ jumps } : Watch).sink = none ∧ ({} : Watch) = {} := ⟨rfl, rfl⟩
  have hstep : ∀ (i : Instr) (s s' : State Tape) (w v : Watch), w.sink = none ∧ v = {} →
      ∃ w' v', Watch.see i s s' w = .ok w' ∧ Watch.see i s s' v = .ok v' ∧
        w'.sink = none ∧ v' = {} := by
    rintro i s s' ⟨sink, jumps⟩ v ⟨hw, rfl⟩
    obtain rfl : sink = none := hw
    exact ⟨_, {}, Watch.see_without_sink i s s' jumps, Watch.see_idle i s s', rfl, rfl⟩
  obtain ⟨s'', halt', w, v, hw, hv, -, -⟩ := code.run_lockstep control
    (fun w v : Watch => w.sink = none ∧ v = {}) hstep fuel s hstart
  rw [h] at hv
  obtain ⟨rfl, -, rfl⟩ := Outcome.mk.inj hv
  exact ⟨w, hw⟩

/-- An execution whose jumps are watched ends where the run without a
    watch does. -/
theorem execute_of_idle_run (hcode : Code.ofText text = .ok code) (control : Control)
    (jumps : Option (List Event)) {fuel : Nat} {s : State Tape} {halt : Halt}
    (h : code.run control Watch.see fuel (.start t) {} = ⟨s, {}, halt⟩) :
    ∃ w, execute fuel control { jumps } text t
      = Execution.ofOutcome code.loops.length ⟨s, w, halt⟩ := by
  obtain ⟨w, hw⟩ := Code.run_of_idle_run jumps h
  refine ⟨w, ?_⟩
  simp only [execute, hcode, Watch.begin, hw]

/-- Executing a program without limit takes `k` steps, prints `out` and
    leaves `t'`. -/
def ReturnsAfter (text : String) (t : Tape) (k : Nat) (out : String) (t' : Tape) : Prop :=
  ∃ code s, Code.ofText text = .ok code ∧ code.Reaches k (.start t) s ∧ code.Halted s ∧
    s.text = out ∧ s.memory = t'

/-- An execution returns exactly if it takes some number of steps. -/
theorem returns_iff_returnsAfter {out : String} {t' : Tape} (hcode : Code.ofText text = .ok code) :
    Returns text t out t' ↔ ∃ k, ReturnsAfter text t k out t' := by
  rw [returns_iff_reaches hcode]
  constructor
  · rintro ⟨n, s, hr, hh, hout, ht'⟩
    exact ⟨n, code, s, hcode, hr, hh, hout, ht'⟩
  · rintro ⟨k, code', s, hcode', hr, hh, hout, ht'⟩
    obtain rfl : code = code' := Except.ok.inj (hcode.symm.trans hcode')
    exact ⟨k, s, hr, hh, hout, ht'⟩

/-- All numbers of steps after which a program returns are the one at which
    its code is left. -/
theorem ReturnsAfter.eq_of_reaches {k n : Nat} {out : String} {t' : Tape} {s : State Tape}
    (h : ReturnsAfter text t k out t') (hcode : Code.ofText text = .ok code)
    (hr : code.Reaches n (.start t) s) (hh : code.Halted s) :
    k = n ∧ s.text = out ∧ s.memory = t' := by
  obtain ⟨code', s', hcode', hr', hh', rfl, rfl⟩ := h
  obtain rfl : code = code' := Except.ok.inj (hcode.symm.trans hcode')
  obtain ⟨rfl, rfl⟩ := hr'.unique hh' hr hh
  exact ⟨rfl, rfl, rfl⟩

/-- Under a limit of `n` steps an execution returns what it returns without
    limit if that takes at most `n` steps; otherwise it stops after `n`
    steps with the tape they have made. -/
theorem execute_limited (hcode : Code.ofText text = .ok code) (jumps : Option (List Event))
    (t : Tape) (n : Nat) :
    ∃ e, (∀ fuel, n < fuel → execute fuel { limit := some n } { jumps } text t = some e) ∧
      (∀ out t', (e.result = .ok out ∧ e.tape = t') ↔ ∃ k, k ≤ n ∧ ReturnsAfter text t k out t') ∧
      ((∀ k out t', ReturnsAfter text t k out t' → n < k) →
        e.result = .error (.stepLimit n) ∧ e.tape = (code.after n (.start t)).memory) := by
  rcases code.halts_within_or_goes_on n (.start t) with ⟨k, s, hk, hr, hh⟩ | ⟨s, i, hr, hi⟩
  · -- the free run ends in time, and no other number of steps ends it
    have hrun := Code.run_within Watch.see_idle hr hh hk (Nat.lt_succ_self n)
    obtain ⟨w, hw⟩ := execute_of_idle_run hcode _ jumps hrun
    refine ⟨_, fun fuel hfuel => execute_mono hfuel hw, ?_, ?_⟩
    · intro out t'
      constructor
      · rintro ⟨hout, rfl⟩
        exact ⟨k, hk, code, s, hcode, hr, hh, Except.ok.inj hout, rfl⟩
      · rintro ⟨k', -, hret⟩
        obtain ⟨-, rfl, rfl⟩ := hret.eq_of_reaches hcode hr hh
        exact ⟨rfl, rfl⟩
    · intro hlate
      have := hlate k _ _ ⟨code, s, hcode, hr, hh, rfl, rfl⟩
      omega
  · -- there is a step left after `n` steps, so a run that ends is longer
    have hrun := Code.run_beyond Watch.see_idle hr hi (Nat.lt_succ_self n)
    obtain ⟨w, hw⟩ := execute_of_idle_run hcode _ jumps hrun
    refine ⟨_, fun fuel hfuel => execute_mono hfuel hw, ?_, ?_⟩
    · intro out t'
      constructor
      · rintro ⟨hout, -⟩
        exact nomatch hout
      · rintro ⟨k, hk, code', s', hcode', hr', hh', -, -⟩
        obtain rfl : code = code' := Except.ok.inj (hcode.symm.trans hcode')
        exact absurd hk (Nat.not_le_of_lt (hr'.lt_of_goes_on hh' hr hi))
    · intro _
      rw [hr.after_eq]
      exact ⟨rfl, rfl⟩

/-- If the flag is raised before the first step, no step is taken, and only
    a program without steps returns. -/
theorem execute_cancelled (hcode : Code.ofText text = .ok code) (jumps : Option (List Event))
    (t : Tape) (limit : Option Nat) {fuel : Nat} (hfuel : 0 < fuel) :
    ∃ e, execute fuel { limit, cancelled := true } { jumps } text t = some e ∧ e.tape = t ∧
      e.result = if text = "" then .ok "" else .error .cancelled := by
  obtain ⟨fuel, rfl⟩ : ∃ k, fuel = k + 1 := ⟨fuel - 1, by omega⟩
  have hglyph := Code.getElem?_glyph hcode 0
  by_cases hempty : text = ""
  · subst hempty
    obtain rfl : code = #[] := Except.ok.inj hcode.symm
    exact ⟨_, rfl, rfl, rfl⟩
  · rw [if_neg hempty]
    cases hi : code[0]? with
    | none =>
        rw [hi] at hglyph
        have hlen : text.toList.length ≤ 0 := List.getElem?_eq_none_iff.mp hglyph.symm
        have hnil : text.toList = [] := List.eq_nil_of_length_eq_zero (Nat.le_zero.mp hlen)
        exact absurd (String.toList_eq_nil_iff.mp hnil) hempty
    | some i =>
        have hrun : code.run { limit, cancelled := true } Watch.see (fuel + 1) (.start t) {}
            = ⟨.start t, {}, .cancelled⟩ := by
          simp only [Code.run, State.start, hi, if_true]
        obtain ⟨w, hw⟩ := execute_of_idle_run hcode _ jumps hrun
        exact ⟨_, hw, rfl, rfl⟩

/-- **A limit cuts the free run.**  Under a limit of `n` steps a balanced
    program ends as it does without limit if that takes at most `n` steps,
    and otherwise stops with the tape as it is after `n` steps.  A flag
    raised from the start stops every program that has a step before it
    takes one.  A program that is not balanced is refused before the tape
    or the trace is touched, whatever else is asked for. -/
theorem limit_cuts_run (text : String) (t : Tape) (jumps : Option (List Event)) :
    (Balanced text.toList → ∃ code, Code.ofText text = .ok code ∧
      (∀ out t', Returns text t out t' ↔ ∃ k, ReturnsAfter text t k out t') ∧
      (∀ n, ∃ e,
        (∀ fuel, n < fuel → execute fuel { limit := some n } { jumps } text t = some e) ∧
        (∀ out t', (e.result = .ok out ∧ e.tape = t') ↔
          ∃ k, k ≤ n ∧ ReturnsAfter text t k out t') ∧
        ((∀ k out t', ReturnsAfter text t k out t' → n < k) →
          e.result = .error (.stepLimit n) ∧ e.tape = (code.after n (.start t)).memory)) ∧
      (∀ limit fuel, 0 < fuel →
        ∃ e, execute fuel { limit, cancelled := true } { jumps } text t = some e ∧ e.tape = t ∧
          e.result = if text = "" then .ok "" else .error .cancelled)) ∧
    (¬ Balanced text.toList → ∃ u, ∀ fuel control watch,
      ∃ e, execute fuel control watch text t = some e ∧ e.result = .error (.unmatched u) ∧
        e.tape = t ∧ e.trace = "") := by
  refine ⟨?_, ?_⟩
  · intro hbal
    obtain ⟨code, hcode⟩ := Code.ofChars_isOk_iff.mpr hbal
    exact ⟨code, hcode, fun out t' => returns_iff_returnsAfter hcode,
      execute_limited hcode jumps t, fun limit fuel => execute_cancelled hcode jumps t limit⟩
  · intro hbal
    cases hcode : Code.ofText text with
    | ok code => exact absurd (Code.ofChars_isOk_iff.mp ⟨code, hcode⟩) hbal
    | error u =>
        refine ⟨u, ?_⟩
        intro fuel control watch
        refine ⟨{ tape := t, result := .error (.unmatched u) }, ?_, rfl, rfl, rfl⟩
        simp only [execute, hcode]

end TapeMachine
