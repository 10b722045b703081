import TapeMachine.Proofs.Control
import TapeMachine.Limits
import Mathlib.Logic.Relation

/-! # Races — a caller who waits for a worker

    A program may run in a worker of its own while its caller waits for
    the result.  The caller may lose patience at any moment; it then
    raises a flag and goes away, and the worker finds out when it next
    looks.  The two do not wait for each other, so every order of their
    steps has to be reckoned with.

      * `Worker.Step`: what a worker does by itself.  Looking at the flag
        and acting on what was seen are two steps, and a raised flag may
        be seen late.
      * `Race.Step`: the steps of both.
      * `Race.Inv`: what holds at every moment of every race.  A worker
        that has not seen the flag is on the way to the result of the run
        that is never cancelled; one that has seen it is at its end.
      * `Race.exists_answer`: no result is out of reach. -/

namespace TapeMachine

open Relation (ReflTransGen)

/-! ## The worker -/

/-- What a worker is about to do. -/
inductive Worker where
  /-- It has been handed a program and a tape. -/
  | handed (text : String) (tape : Tape)
  /-- It stands between two instructions and has yet to look at the flag. -/
  | ready (code : Code) (s : State Tape) (w : Watch)
  /-- It has looked at the flag and is about to act on what it has seen. -/
  | looked (seen : Bool) (code : Code) (s : State Tape) (w : Watch)
  /-- It has a result to send. -/
  | holding (e : Execution)
  /-- It has sent its result. -/
  | gone

namespace Worker

/-- Resolve the program and write the head of the trace table. -/
def begin (watch : Watch) (text : String) (tape : Tape) : Worker :=
  match Code.ofText text with
  | .error u => .holding { tape, result := .error (.unmatched u) }
  | .ok code =>
      match watch.begin with
      | none =>
          .holding {
            tape
            result := .error (.unwritable 0 Sink.complaint)
            events := [.loopsPaired code.loops.length] }
      | some w => .ready code (.start tape) w

/-- Go on after a piece of the run, or hold its result if it has ended. -/
def resume (code : Code) (o : Outcome Tape Watch) : Worker :=
  match Execution.ofOutcome code.loops.length o with
  | some e => .holding e
  | none => .ready code o.state o.notes

/-- What a worker does by itself, given whether the flag is up.  It may see
    a raised flag late, but it sees no flag that is not up.  Past the end
    of the code it does not look. -/
inductive Step (limits : Limits) (watch : Watch) (flag : Bool) : Worker → Worker → Prop where
  | begin (text : String) (tape : Tape) :
      Step limits watch flag (.handed text tape) (.begin watch text tape)
  | finish {code : Code} {s : State Tape} {w : Watch} :
      code.Halted s →
      Step limits watch flag (.ready code s w)
        (.resume code (code.run { limit := limits.maxSteps } Watch.see 1 s w))
  | look {code : Code} {s : State Tape} {w : Watch} (seen : Bool) :
      ¬ code.Halted s → (seen = true → flag = true) →
      Step limits watch flag (.ready code s w) (.looked seen code s w)
  | act {seen : Bool} {code : Code} {s : State Tape} {w : Watch} :
      Step limits watch flag (.looked seen code s w)
        (.resume code
          (code.run { limit := limits.maxSteps, cancelled := seen } Watch.see 1 s w))

variable {limits : Limits} {watch : Watch} {flag : Bool} {text : String} {tape : Tape}

/-- A worker that has been handed a program has its result at once, or it
    has a run before it that decides the result. -/
theorem begin_cases (watch : Watch) (text : String) (tape : Tape) :
    (∃ e, begin watch text tape = .holding e ∧ e.result ≠ .error .cancelled ∧
      ∀ fuel control, execute fuel control watch text tape = some e) ∨
    (∃ code w, begin watch text tape = .ready code (.start tape) w ∧
      ∀ fuel control, execute fuel control watch text tape
        = Execution.ofOutcome code.loops.length
            (code.run control Watch.see fuel (.start tape) w)) := by
  unfold begin execute
  cases hcode : Code.ofText text with
  | error u => exact Or.inl ⟨_, rfl, fun h => (nomatch h), fun _ _ => rfl⟩
  | ok code =>
      cases hbegin : watch.begin with
      | none => exact Or.inl ⟨_, rfl, fun h => (nomatch h), fun _ _ => rfl⟩
      | some w => exact Or.inr ⟨code, w, rfl, fun _ _ => rfl⟩

/-- One instruction's worth of a run either ends it or leaves the rest of
    it to be run. -/
theorem resume_run_one (code : Code) (control : Control) (s : State Tape) (w : Watch) :
    (∃ e, resume code (code.run control Watch.see 1 s w) = .holding e ∧
      ∀ fuel, Execution.ofOutcome code.loops.length
        (code.run control Watch.see (1 + fuel) s w) = some e) ∨
    (∃ s' w', resume code (code.run control Watch.see 1 s w) = .ready code s' w' ∧
      ∀ fuel, code.run control Watch.see (1 + fuel) s w
        = code.run control Watch.see fuel s' w') := by
  cases hone : Execution.ofOutcome code.loops.length (code.run control Watch.see 1 s w) with
  | none =>
      have hhalt := Execution.ofOutcome_eq_none_iff.mp hone
      refine Or.inr ⟨_, _, by rw [resume, hone], ?_⟩
      intro fuel
      rw [Code.run_add, if_pos hhalt]
  | some e =>
      refine Or.inl ⟨e, by rw [resume, hone], ?_⟩
      intro fuel
      rw [Code.run_add, if_neg (Execution.ended_of_ofOutcome hone), hone]

/-- Executing the program without a flag comes, after some steps, to
    running the code from this state. -/
def Continues (limits : Limits) (watch : Watch) (text : String) (tape : Tape) (code : Code)
    (s : State Tape) (w : Watch) : Prop :=
  ∃ k, ∀ fuel, execute (k + fuel) { limit := limits.maxSteps } watch text tape
    = Execution.ofOutcome code.loops.length
        (code.run { limit := limits.maxSteps } Watch.see fuel s w)

/-- The worker has not seen the flag and is on the way to the result of the
    execution without a flag. -/
def Faithful (limits : Limits) (watch : Watch) (text : String) (tape : Tape) : Worker → Prop
  | .handed text' tape' => text' = text ∧ tape' = tape
  | .ready code s w => Continues limits watch text tape code s w
  | .looked seen code s w => seen = false ∧ Continues limits watch text tape code s w
  | .holding e => ∃ fuel, execute fuel { limit := limits.maxSteps } watch text tape = some e
  | .gone => True

/-- The worker saw the flag in state `s`, and has done nothing since but
    give up. -/
def StoppedAt (s : State Tape) : Worker → Prop
  | .looked seen code s' _ => seen = true ∧ ¬ code.Halted s' ∧ s' = s
  | .holding e => e.tape = s.memory ∧ e.result = .error .cancelled
  | .gone => True
  | _ => False

/-- A worker that has been handed a program begins faithfully. -/
theorem faithful_begin : Faithful limits watch text tape (.begin watch text tape) := by
  rcases begin_cases watch text tape with ⟨e, hbegin, -, hexec⟩ | ⟨code, w, hbegin, hexec⟩
  · rw [hbegin]
    exact ⟨0, hexec 0 _⟩
  · rw [hbegin]
    refine ⟨0, ?_⟩
    intro fuel
    rw [Nat.zero_add, hexec]

/-- A piece of the run without a flag keeps the worker faithful. -/
theorem faithful_resume {code : Code} {s : State Tape} {w : Watch}
    (h : Continues limits watch text tape code s w) :
    Faithful limits watch text tape
      (.resume code (code.run { limit := limits.maxSteps } Watch.see 1 s w)) := by
  obtain ⟨k, hk⟩ := h
  rcases resume_run_one code { limit := limits.maxSteps } s w with
    ⟨e, hres, hrun⟩ | ⟨s', w', hres, hrun⟩
  · rw [hres]
    exact ⟨k + (1 + 0), by rw [hk, hrun]⟩
  · rw [hres]
    refine ⟨k + 1, ?_⟩
    intro fuel
    rw [Nat.add_assoc, hk, hrun]

/-- A faithful worker stays so until it sees the flag. -/
theorem Faithful.step {x y : Worker} (h : x.Faithful limits watch text tape)
    (hstep : Step limits watch flag x y) :
    y.Faithful limits watch text tape ∨ (flag = true ∧ ∃ s, y.StoppedAt s) := by
  cases hstep with
  | begin text' tape' =>
      obtain ⟨rfl, rfl⟩ := h
      exact Or.inl faithful_begin
  | finish _ => exact Or.inl (faithful_resume h)
  | @look code s w seen hgoes hseen =>
      cases seen with
      | false => exact Or.inl ⟨rfl, h⟩
      | true => exact Or.inr ⟨hseen rfl, s, rfl, hgoes, rfl⟩
  | act =>
      obtain ⟨rfl, h⟩ := h
      exact Or.inl (faithful_resume h)

/-- A worker that has seen the flag executes nothing any more. -/
theorem StoppedAt.step {x y : Worker} {s : State Tape} (h : x.StoppedAt s)
    (hstep : Step limits watch flag x y) : y.StoppedAt s := by
  cases hstep with
  | begin => exact h.elim
  | finish => exact h.elim
  | look => exact h.elim
  | @act seen code s' w =>
      obtain ⟨rfl, hgoes, rfl⟩ := h
      cases hi : code[s'.ip]? with
      | none => exact absurd hi hgoes
      | some i =>
          simp only [Code.run, hi, if_true]
          exact ⟨rfl, rfl⟩

/-- By itself a worker does not go away. -/
theorem Step.ne_gone {x y : Worker} (hstep : Step limits watch flag x y) : y ≠ .gone := by
  have hresume : ∀ (code : Code) (o : Outcome Tape Watch), resume code o ≠ .gone := by
    intro code o
    unfold resume
    split
    · exact fun h => nomatch h
    · exact fun h => nomatch h
  cases hstep with
  | begin text tape =>
      rcases begin_cases watch text tape with ⟨e, hbegin, -⟩ | ⟨code, w, hbegin, -⟩
      · rw [hbegin]
        exact fun h => nomatch h
      · rw [hbegin]
        exact fun h => nomatch h
  | finish => exact hresume _ _
  | look => exact fun h => nomatch h
  | act => exact hresume _ _

/-- A worker that never sees a flag gets to every result its run has. -/
theorem ready_reaches_holding {code : Code} {e : Execution} (fuel : Nat) :
    ∀ {s : State Tape} {w : Watch},
      Execution.ofOutcome code.loops.length
        (code.run { limit := limits.maxSteps } Watch.see fuel s w) = some e →
      ReflTransGen (Step limits watch flag) (.ready code s w) (.holding e) := by
  induction fuel with
  | zero => intro s w h; exact nomatch h
  | succ fuel ih =>
      intro s w h
      rw [Nat.add_comm] at h
      have hone : ReflTransGen (Step limits watch flag) (.ready code s w)
          (.resume code (code.run { limit := limits.maxSteps } Watch.see 1 s w)) := by
        by_cases hhalt : code.Halted s
        · exact .single (.finish hhalt)
        · exact .tail (.single (.look false hhalt (fun hf => nomatch hf))) .act
      rcases resume_run_one code { limit := limits.maxSteps } s w with
        ⟨e', hres, hrun⟩ | ⟨s', w', hres, hrun⟩
      · rw [hrun fuel] at h
        obtain rfl := Option.some.inj h
        rwa [hres] at hone
      · rw [hrun fuel] at h
        rw [hres] at hone
        exact hone.trans (ih h)

/-- A worker that never sees a flag gets to the result of the execution. -/
theorem handed_reaches_holding {fuel : Nat} {e : Execution}
    (h : execute fuel { limit := limits.maxSteps } watch text tape = some e) :
    ReflTransGen (Step limits watch flag) (.handed text tape) (.holding e) := by
  refine .head (.begin text tape) ?_
  rcases begin_cases watch text tape with ⟨e', hbegin, -, hexec⟩ | ⟨code, w, hbegin, hexec⟩
  · rw [hexec] at h
    obtain rfl := Option.some.inj h
    rw [hbegin]
  · rw [hexec] at h
    rw [hbegin]
    exact ready_reaches_holding fuel h

end Worker

/-! ## The race -/

/-- What a caller comes back with. -/
inductive Verdict where
  /-- The worker's result. -/
  | answer (e : Execution)
  /-- The wait took longer than so many milliseconds. -/
  | timedOut (timeoutMs : Nat)
  /-- The worker is gone and has left nothing. -/
  | workerLost

/-- Where a caller stands. -/
inductive Caller where
  | waiting
  /-- Its patience is at an end, and it is about to raise the flag. -/
  | expired
  | returned (v : Verdict)

/-- A caller and a worker with what they share. -/
structure Race where
  worker : Worker
  /-- Has the caller raised the flag? -/
  flag : Bool := false
  /-- The message that was sent and not yet received. -/
  mailbox : Option Execution := none
  caller : Caller := .waiting

namespace Race

/-- The moment after the worker has been handed a program and a tape. -/
def start (text : String) (tape : Tape) : Race := { worker := .handed text tape }

/-- One step of either side.  The wait may end at any moment before a
    message has been received, also if one is there already. -/
inductive Step (limits : Limits) (watch : Watch) : Race → Race → Prop where
  | work {r : Race} {x : Worker} :
      Worker.Step limits watch r.flag r.worker x → Step limits watch r { r with worker := x }
  | send {r : Race} {e : Execution} :
      r.worker = .holding e →
      Step limits watch r { r with worker := .gone, mailbox := some e }
  | receive {r : Race} {e : Execution} :
      r.caller = .waiting → r.mailbox = some e →
      Step limits watch r { r with mailbox := none, caller := .returned (.answer e) }
  | expire {r : Race} :
      r.caller = .waiting → Step limits watch r { r with caller := .expired }
  | raise {r : Race} :
      r.caller = .expired →
      Step limits watch r
        { r with flag := true, caller := .returned (.timedOut limits.timeoutMs) }
  | lose {r : Race} :
      r.caller = .waiting → r.worker = .gone → r.mailbox = none →
      Step limits watch r { r with caller := .returned .workerLost }

/-- What holds at every moment of a race. -/
structure Inv (limits : Limits) (watch : Watch) (text : String) (tape : Tape) (r : Race) :
    Prop where
  worker : r.worker.Faithful limits watch text tape ∨
    (r.flag = true ∧ ∃ s, r.worker.StoppedAt s)
  /-- A message from a race without a flag is the result. -/
  mailbox : ∀ e, r.mailbox = some e → r.flag = true ∨
    ∃ fuel, execute fuel { limit := limits.maxSteps } watch text tape = some e
  /-- Only a caller that gave up has raised the flag. -/
  flag : r.flag = true → r.caller = .returned (.timedOut limits.timeoutMs)
  /-- No caller is left waiting for a worker that is gone. -/
  delivered : r.worker = .gone → r.caller = .waiting → ∃ e, r.mailbox = some e
  verdict : ∀ v, r.caller = .returned v → v = .timedOut limits.timeoutMs ∨
    ∃ e fuel, v = .answer e ∧
      execute fuel { limit := limits.maxSteps } watch text tape = some e

variable {limits : Limits} {watch : Watch} {text : String} {tape : Tape} {r r' : Race}

/-- What holds of a race holds when it starts. -/
theorem inv_start : Inv limits watch text tape (.start text tape) where
  worker := Or.inl ⟨rfl, rfl⟩
  mailbox := fun _ h => nomatch h
  flag := fun h => nomatch h
  delivered := fun h => nomatch h
  verdict := fun _ h => nomatch h

/-- While the caller waits the flag is down. -/
theorem Inv.flag_down (h : Inv limits watch text tape r) (hwaiting : r.caller = .waiting) :
    r.flag ≠ true := by
  intro hflag
  rw [h.flag hflag] at hwaiting
  exact nomatch hwaiting

/-- What holds of a race holds after every step. -/
theorem Inv.step (h : Inv limits watch text tape r) (hstep : Step limits watch r r') :
    Inv limits watch text tape r' := by
  cases hstep with
  | @work x hwork =>
      refine ⟨?_, h.mailbox, h.flag, fun hx => absurd hx hwork.ne_gone, h.verdict⟩
      rcases h.worker with hf | ⟨hflag, s, hs⟩
      · exact hf.step hwork
      · exact Or.inr ⟨hflag, s, hs.step hwork⟩
  | @send e hholding =>
      refine ⟨Or.inl trivial, ?_, h.flag, fun _ _ => ⟨e, rfl⟩, h.verdict⟩
      intro e' he'
      obtain rfl := Option.some.inj he'
      rcases h.worker with hf | ⟨hflag, -⟩
      · rw [hholding] at hf
        exact Or.inr hf
      · exact Or.inl hflag
  | @receive e hwaiting hmail =>
      have hflag := h.flag_down hwaiting
      refine ⟨h.worker, fun _ he => (nomatch he), fun hf => absurd hf hflag,
        fun _ hw => (nomatch hw), ?_⟩
      intro v hv
      obtain rfl := Caller.returned.inj hv
      rcases h.mailbox e hmail with hf | ⟨fuel, he⟩
      · -- a result cut short by the flag is never received
        exact absurd hf hflag
      · exact Or.inr ⟨e, fuel, rfl, he⟩
  | expire hwaiting =>
      exact ⟨h.worker, h.mailbox, fun hf => absurd hf (h.flag_down hwaiting),
        fun _ hw => (nomatch hw), fun _ hv => (nomatch hv)⟩
  | raise hexpired =>
      refine ⟨?_, fun _ _ => Or.inl rfl, fun _ => rfl, fun _ hw => (nomatch hw), ?_⟩
      · rcases h.worker with hf | ⟨-, hs⟩
        · exact Or.inl hf
        · exact Or.inr ⟨rfl, hs⟩
      · intro v hv
        exact Or.inl (Caller.returned.inj hv).symm
  | lose hwaiting hgone hempty =>
      -- a worker does not go before its message is in the mailbox
      obtain ⟨e, he⟩ := h.delivered hgone hwaiting
      rw [hempty] at he
      exact nomatch he

/-- A moment that some order of steps leads to. -/
def Reachable (limits : Limits) (watch : Watch) (text : String) (tape : Tape) (r : Race) : Prop :=
  ReflTransGen (Step limits watch) (.start text tape) r

/-- What holds of a race holds at every moment. -/
theorem Reachable.inv (h : Reachable limits watch text tape r) :
    Inv limits watch text tape r := by
  induction h with
  | refl => exact inv_start
  | tail _ hstep ih => exact ih.step hstep

/-- Whatever happens around it, a worker that has seen the flag executes
    nothing any more. -/
theorem stoppedAt_steps {s : State Tape} (h : r.worker.StoppedAt s)
    (hsteps : ReflTransGen (Step limits watch) r r') : r'.worker.StoppedAt s := by
  induction hsteps with
  | refl => exact h
  | tail _ hstep ih =>
      cases hstep with
      | work hwork => exact ih.step hwork
      | send => trivial
      | receive => exact ih
      | expire => exact ih
      | raise => exact ih
      | lose => exact ih

/-- At the moment it has seen the flag, a worker is stopped. -/
theorem Reachable.stoppedAt {code : Code} {s : State Tape} {w : Watch}
    (h : Reachable limits watch text tape r) (hseen : r.worker = .looked true code s w) :
    r.worker.StoppedAt s := by
  rcases h.inv.worker with hf | ⟨-, s', hs'⟩
  · rw [hseen] at hf
    exact absurd hf.1 (by decide)
  · rw [hseen] at hs' ⊢
    exact ⟨rfl, hs'.2.1, rfl⟩

/-- The steps of a worker are steps of its race. -/
theorem steps_of_worker {x y : Worker} {flag : Bool} {mailbox : Option Execution} {caller : Caller}
    (h : ReflTransGen (Worker.Step limits watch flag) x y) :
    ReflTransGen (Step limits watch) ⟨x, flag, mailbox, caller⟩ ⟨y, flag, mailbox, caller⟩ := by
  induction h with
  | refl => exact .refl
  | tail _ hstep ih => exact ih.tail (.work hstep)

/-- Every result of the execution can be the answer. -/
theorem exists_answer {fuel : Nat} {e : Execution}
    (h : execute fuel { limit := limits.maxSteps } watch text tape = some e) :
    ∃ r, Reachable limits watch text tape r ∧ r.caller = .returned (.answer e) := by
  have hwork : Reachable limits watch text tape { worker := .holding e } :=
    steps_of_worker (Worker.handed_reaches_holding h)
  exact ⟨_, (hwork.tail (.send rfl)).tail (.receive rfl rfl), rfl⟩

/-- Every race can be given up. -/
theorem exists_timedOut (limits : Limits) (watch : Watch) (text : String) (tape : Tape) :
    ∃ r, Reachable limits watch text tape r ∧
      r.caller = .returned (.timedOut limits.timeoutMs) :=
  ⟨_, (ReflTransGen.single (.expire rfl)).tail (.raise rfl), rfl⟩

end Race

/-- An execution is cancelled exactly if its run is. -/
theorem Execution.result_cancelled_iff {loops : Nat} {o : Outcome Tape Watch} {e : Execution}
    (h : ofOutcome loops o = some e) : e.result = .error .cancelled ↔ o.halt = .cancelled := by
  obtain ⟨s, w, halt⟩ := o
  cases halt with
  | unfinished => exact nomatch h
  | _ =>
      obtain rfl := Option.some.inj h
      simp

/-- An execution whose flag is never raised is not cancelled. -/
theorem execute_ne_cancelled {fuel : Nat} {limit : Option Nat} {watch : Watch} {text : String}
    {tape : Tape} {e : Execution} (h : execute fuel { limit } watch text tape = some e) :
    e.result ≠ .error .cancelled := by
  rcases Worker.begin_cases watch text tape with ⟨e', -, hne, hexec⟩ | ⟨code, w, -, hexec⟩
  · rw [hexec] at h
    obtain rfl := Option.some.inj h
    exact hne
  · rw [hexec] at h
    rw [Ne, Execution.result_cancelled_iff h]
    exact Code.run_halt_ne_cancelled rfl Watch.see fuel (.start tape) w

end TapeMachine
