import TapeMachine.Execution

/-! # Exact runs — counting the steps of the machine

    A run is followed here step by step, with the number of steps in
    hand.  `Code.Reaches code n s s'` says that exactly `n` steps lead
    from `s` to `s'`; runs of this kind can be joined, taken apart and
    compared.

      * `run_of_reaches` ties them to the run under control: as long as
        nothing stops it, the run may be taken up again after `n` steps.
      * `returns_iff_reaches` reads off what an execution without limit
        gives: it returns exactly when some number of steps leads past
        the end of the code. -/

namespace TapeMachine

namespace Code

variable {M σ : Type} [Memory M]

/-- Exactly `n` steps lead from one state to another. -/
inductive Reaches (code : Code) : Nat → State M → State M → Prop where
  | refl (s : State M) : Reaches code 0 s s
  | step {n : Nat} {s s' : State M} {i : Instr} :
      code[s.ip]? = some i → Reaches code n (i.act s) s' →
      Reaches code (n + 1) s s'

/-- No step is left at a position past the end. -/
def Halted (code : Code) (s : State M) : Prop := code[s.ip]? = none

variable {code : Code} {n m : Nat} {s s' s'' : State M}

/-- Two runs in a row are one run. -/
theorem Reaches.trans (h1 : code.Reaches n s s') (h2 : code.Reaches m s' s'') :
    code.Reaches (n + m) s s'' := by
  induction h1 with
  | refl s =>
      rw [Nat.zero_add]
      exact h2
  | @step k s _ i hi _ ih =>
      rw [show k + 1 + m = k + m + 1 from by omega]
      exact .step hi (ih h2)

/-- A run from a state whose instruction is known begins with it. -/
theorem Reaches.uncons {i : Instr} (hi : code[s.ip]? = some i)
    (hne : s ≠ s') (h : code.Reaches n s s') :
    ∃ k, n = k + 1 ∧ code.Reaches k (i.act s) s' := by
  cases h with
  | refl => exact absurd rfl hne
  | @step k _ _ j hj hrest =>
      have hij : i = j := Option.some.inj (hi.symm.trans hj)
      rw [hij]
      exact ⟨k, rfl, hrest⟩

/-- A run that ends past the code takes a step wherever there is one. -/
theorem Reaches.uncons_of_halted {i : Instr} (hi : code[s.ip]? = some i)
    (hs' : code.Halted s') (h : code.Reaches n s s') :
    ∃ k, n = k + 1 ∧ code.Reaches k (i.act s) s' := by
  refine h.uncons hi ?_
  intro heq
  rw [heq, show code[s'.ip]? = none from hs'] at hi
  exact nomatch hi

/-- Of two runs that end past the code both end at the same time and in
    the same state. -/
theorem Reaches.unique (h1 : code.Reaches n s s') (hs' : code.Halted s')
    (h2 : code.Reaches m s s'') (hs'' : code.Halted s'') :
    n = m ∧ s' = s'' := by
  induction h1 generalizing m with
  | refl s =>
      cases h2 with
      | refl => exact ⟨rfl, rfl⟩
      | step hi _ =>
          rw [show code[s.ip]? = none from hs'] at hi
          exact nomatch hi
  | step hi _ ih =>
      obtain ⟨k, hk, hrest⟩ := h2.uncons_of_halted hi hs''
      obtain ⟨hn, hs⟩ := ih hs' hrest
      exact ⟨by omega, hs⟩

/-! ## Runs under control -/

variable {control : Control} {observe : Observer M σ} {notes : σ}

/-- As long as the control allows each step and the observer has nothing
    to note, a run may be taken up again after some of its steps. -/
theorem run_of_reaches (hc : control.cancelled = false)
    (hobs : ∀ i s s', observe i s s' notes = .ok notes)
    (h : code.Reaches n s s')
    (hlim : ∀ k, k < n → control.exhausted (s.steps + k) = false)
    (fuel : Nat) :
    code.run control observe (n + fuel) s notes
      = code.run control observe fuel s' notes := by
  induction h with
  | refl s => rw [Nat.zero_add]
  | @step k s s' i hi _ ih =>
      rw [show k + 1 + fuel = k + fuel + 1 from by omega]
      have h0 : control.exhausted s.steps = false := hlim 0 (by omega)
      simp only [run, hi, hc, h0, hobs, Bool.false_eq_true, if_false]
      refine ih ?_
      intro j hj
      have hstep := hlim (j + 1) (by omega)
      rw [show (i.act s).steps + j = s.steps + (j + 1) from by
        show s.steps + 1 + j = _
        omega]
      exact hstep

/-- A run without limit either gets past the end of the code or uses up
    its fuel. -/
theorem reaches_of_run_free (hobs : ∀ i s s', observe i s s' notes = .ok notes) :
    ∀ (fuel : Nat) (s : State M),
      (∃ n s', n < fuel ∧ code.Reaches n s s' ∧ code.Halted s' ∧
        code.run {} observe fuel s notes = ⟨s', notes, .finished⟩) ∨
      (∃ s', code.Reaches fuel s s' ∧
        code.run {} observe fuel s notes = ⟨s', notes, .unfinished⟩) := by
  intro fuel
  induction fuel with
  | zero => intro s; exact Or.inr ⟨s, .refl s, rfl⟩
  | succ fuel ih =>
      intro s
      cases hi : code[s.ip]? with
      | none =>
          refine Or.inl ⟨0, s, by omega, .refl s, hi, ?_⟩
          simp only [run, hi]
      | some i =>
          have hrun : code.run {} observe (fuel + 1) s notes
              = code.run {} observe fuel (i.act s) notes := by
            simp only [run, hi, hobs, Control.exhausted, Bool.false_eq_true, if_false]
          rw [hrun]
          rcases ih (i.act s) with ⟨n, s', hn, hr, hh, ho⟩ | ⟨s', hr, ho⟩
          · exact Or.inl ⟨n + 1, s', by omega, .step hi hr, hh, ho⟩
          · exact Or.inr ⟨s', .step hi hr, ho⟩

end Code

/-! ## Executions without limit -/

/-- Executing a program without limit ends with this output and this
    tape. -/
def Returns (text : String) (t : Tape) (out : String) (t' : Tape) : Prop :=
  ∃ fuel e, execute fuel {} {} text t = some e ∧ e.result = .ok out ∧ e.tape = t'

/-- Executing a program without limit never ends. -/
def RunsForever (text : String) (t : Tape) : Prop :=
  ∀ fuel, execute fuel {} {} text t = none

/-- Without a sink and without a wish for jumps there is nothing to note. -/
theorem Watch.see_idle (i : Instr) (s s' : State Tape) :
    Watch.see i s s' {} = .ok {} := rfl

variable {text : String} {code : Code} {t t' : Tape} {out : String}

/-- An execution of resolved code is read off its run. -/
theorem execute_of_resolved (hcode : Code.ofText text = .ok code) (fuel : Nat) :
    execute fuel {} {} text t
      = Execution.ofOutcome code.loops.length
          (code.run {} Watch.see fuel (.start t) {}) := by
  simp only [execute, hcode, Watch.begin]

/-- An execution returns what the state holds in which the machine gets
    past the end of the code. -/
theorem returns_iff_reaches (hcode : Code.ofText text = .ok code) :
    Returns text t out t' ↔
      ∃ n s, code.Reaches n (.start t) s ∧ code.Halted s ∧
        s.text = out ∧ s.memory = t' := by
  constructor
  · rintro ⟨fuel, e, he, hres, htape⟩
    rw [execute_of_resolved hcode] at he
    rcases code.reaches_of_run_free Watch.see_idle fuel (.start t) with
      ⟨n, s, -, hr, hh, ho⟩ | ⟨s, -, ho⟩
    · rw [ho] at he
      obtain rfl := Option.some.inj he
      exact ⟨n, s, hr, hh, Except.ok.inj hres, htape⟩
    · rw [ho] at he
      exact nomatch he
  · rintro ⟨n, s, hr, hh, rfl, rfl⟩
    have hrun : code.run {} Watch.see (n + 1) (.start t) {} = ⟨s, {}, .finished⟩ := by
      rw [Code.run_of_reaches rfl Watch.see_idle hr (fun _ _ => rfl)]
      simp only [Code.run, show code[s.ip]? = none from hh]
    refine ⟨n + 1, {
      tape := s.memory
      result := .ok s.text
      events := [.loopsPaired code.loops.length] }, ?_, rfl, rfl⟩
    rw [execute_of_resolved hcode, hrun]
    rfl

/-- An execution of resolved code has no answer exactly when it does not
    return. -/
theorem runsForever_iff_not_returns (hcode : Code.ofText text = .ok code) :
    RunsForever text t ↔ ¬ ∃ out t', Returns text t out t' := by
  constructor
  · rintro h ⟨out, t', fuel, e, he, -⟩
    rw [h fuel] at he
    exact nomatch he
  · intro h fuel
    rw [execute_of_resolved hcode]
    rcases code.reaches_of_run_free Watch.see_idle fuel (.start t) with
      ⟨n, s, -, hr, hh, -⟩ | ⟨s, -, ho⟩
    · exact absurd ⟨s.text, s.memory, (returns_iff_reaches hcode).mpr
        ⟨n, s, hr, hh, rfl, rfl⟩⟩ h
    · rw [ho]
      rfl

end TapeMachine
