import TapeMachine.Proofs.Bounded.Race
import TapeMachine.Session

/-! # Services — a session whose workers outlive their callers

    A session hands each submission to a worker and waits for it.  A
    submission that takes too long is given up and the session goes on
    with a fresh tape, but the worker is not gone: it keeps the old tape
    and may go on stepping while later submissions run.  Here it is shown
    that the session never notices.

      * `Service.Step`: the steps of the session, of the race it waits for
        and of the workers it gave up, in any order.
      * `Service.History`: what a sequence of requests leads to, said
        without workers, from what was asked and what was given up.
      * `Service.Reachable.history`, `Service.exists_of_history`: the
        histories of services are exactly these.
      * `Service.History.unique`: they leave no choice of tapes.
      * `Service.steps_of_submitWithin`: what a session does that counts
        its patience in steps is done by one of the orders. -/

namespace TapeMachine

open Relation (ReflTransGen)

/-- Was the run given up? -/
def Verdict.isTimeout : Verdict → Bool
  | .timedOut _ => true
  | _ => false

/-- The tape that came back, or else the given one. -/
def Verdict.tapeOr (fresh : Tape) : Verdict → Tape
  | .answer e => e.tape
  | _ => fresh

namespace Service

/-- What may be asked of a session. -/
inductive Request where
  | submit (text : String)
  | reset
deriving DecidableEq, Repr

/-- A request that has been dealt with. -/
structure Entry where
  request : Request
  /-- Was it given up? -/
  timedOut : Bool
  /-- The tape of the session afterwards. -/
  tape : Tape
deriving DecidableEq, Repr

/-- What was asked, and whether it was given up. -/
def Entry.fate (x : Entry) : Request × Bool := (x.request, x.timedOut)

end Service

/-- A session with the workers it has called in. -/
structure Service where
  session : Session
  /-- The submission that is being waited for. -/
  current : Option (String × Race) := none
  /-- The races of earlier submissions, whose workers may still be at
      work. -/
  past : List Race := []
  /-- The requests dealt with, newest first. -/
  done : List Service.Entry := []

namespace Service

/-- One step of the session or of any of its workers.  While a submission
    is under way the worker has the tape and the session a fresh one. -/
inductive Step : Service → Service → Prop where
  | submit {v : Service} (text : String) :
      v.current = none →
      Step v { v with
        session := { v.session with tape := .blank }
        current := some (text, .start text v.session.tape) }
  | reset {v : Service} :
      v.current = none →
      Step v { v with
        session := v.session.reset
        done := ⟨.reset, false, v.session.reset.tape⟩ :: v.done }
  | race {v : Service} {text : String} {r r' : Race} :
      v.current = some (text, r) → Race.Step v.session.limits v.session.watch r r' →
      Step v { v with current := some (text, r') }
  | conclude {v : Service} {text : String} {r : Race} {verdict : Verdict} :
      v.current = some (text, r) → r.caller = .returned verdict →
      Step v {
        session := { v.session with tape := verdict.tapeOr v.session.tape }
        current := none
        past := r :: v.past
        done := ⟨.submit text, verdict.isTimeout, verdict.tapeOr v.session.tape⟩ :: v.done }
  | straggle {v : Service} {i : Nat} {r r' : Race} :
      v.past[i]? = some r → Race.Step v.session.limits v.session.watch r r' →
      Step v { v with past := v.past.set i r' }

/-- A moment that some order of steps leads to. -/
def Reachable (session : Session) (v : Service) : Prop := ReflTransGen Step { session } v

/-! ## Histories without workers -/

/-- What a request leads to on a tape: a reset and a submission that is
    given up leave a fresh tape, any other submission the tape of its
    execution under the session's limits. -/
def Entry.Follows (session : Session) (before : Tape) (x : Entry) : Prop :=
  match x.request, x.timedOut with
  | .reset, timedOut => timedOut = false ∧ x.tape = .blank
  | .submit _, true => x.tape = .blank
  | .submit text, false => ∃ patience e,
      executeWithin patience session.limits.maxSteps session.watch text before = some e ∧
        x.tape = e.tape

/-- These requests, newest first, lead from the session's tape to the given
    one. -/
inductive History (session : Session) : List Entry → Tape → Prop where
  | start : History session [] session.tape
  | next {done : List Entry} {before : Tape} {x : Entry} :
      History session done before → x.Follows session before →
      History session (x :: done) x.tape

variable {session : Session}

/-- What a request leads to is determined by what was asked and whether it
    was given up. -/
theorem Entry.Follows.unique {before : Tape} {x y : Entry} (hx : x.Follows session before)
    (hy : y.Follows session before) (h : x.fate = y.fate) : x = y := by
  obtain ⟨request, timedOut, tape⟩ := x
  obtain ⟨request', timedOut', tape'⟩ := y
  obtain ⟨rfl, rfl⟩ := Prod.mk.inj h
  have htape : tape = tape' := by
    cases request with
    | reset => exact hx.2.trans hy.2.symm
    | submit text =>
        cases timedOut with
        | true => exact (show tape = .blank from hx).trans (show tape' = .blank from hy).symm
        | false =>
            obtain ⟨p, e, he, htape⟩ := hx
            obtain ⟨p', e', he', htape'⟩ := hy
            rw [show tape = e.tape from htape, show tape' = e'.tape from htape',
              execute_unique he he']
  rw [htape]

/-- What requests lead to is determined by what was asked and which of them
    were given up. -/
theorem History.unique {done done' : List Entry} {t t' : Tape} (h : History session done t)
    (h' : History session done' t') (hfate : done.map Entry.fate = done'.map Entry.fate) :
    done = done' ∧ t = t' := by
  -- equal fates make the two histories grow by the same request, and the
  -- earlier requests have led both to the same tape
  induction h generalizing done' t' with
  | start =>
      cases h' with
      | start => exact ⟨rfl, rfl⟩
      | next _ _ => exact nomatch hfate
  | @next done before x _ hx ih =>
      cases h' with
      | start => exact nomatch hfate
      | @next done' before' y h' hy =>
          obtain ⟨hhead, htail⟩ := List.cons.inj hfate
          obtain ⟨rfl, rfl⟩ := ih h' htail
          obtain rfl := hx.unique hy hhead
          exact ⟨rfl, rfl⟩

/-! ## Services keep to histories -/

/-- What holds at every moment of a service. -/
structure Inv (session : Session) (v : Service) : Prop where
  limits : v.session.limits = session.limits
  watch : v.session.watch = session.watch
  idle : v.current = none → History session v.done v.session.tape
  busy : ∀ text r, v.current = some (text, r) → v.session.tape = .blank ∧
    ∃ before, History session v.done before ∧
      Race.Reachable session.limits session.watch text before r
  /-- What goes on behind the session's back is what goes on in races. -/
  past : ∀ r ∈ v.past, ∃ text before,
    Race.Reachable session.limits session.watch text before r

/-- What holds of a service holds when it starts. -/
theorem inv_start : Inv session { session } where
  limits := rfl
  watch := rfl
  idle := fun _ => .start
  busy := fun _ _ h => nomatch h
  past := fun _ h => nomatch h

/-- What holds of a service holds after every step. -/
theorem Inv.step {v v' : Service} (h : Inv session v) (hstep : Step v v') : Inv session v' := by
  cases hstep with
  | submit text hidle =>
      refine ⟨h.limits, h.watch, fun hc => (nomatch hc), ?_, h.past⟩
      intro text' r hc
      obtain ⟨rfl, rfl⟩ := Prod.mk.inj (Option.some.inj hc)
      exact ⟨rfl, v.session.tape, h.idle hidle, .refl⟩
  | reset hidle =>
      refine ⟨h.limits, h.watch, fun _ => (h.idle hidle).next ⟨rfl, rfl⟩, ?_, h.past⟩
      intro text r hc
      rw [show v.current = some (text, r) from hc] at hidle
      exact nomatch hidle
  | @race text r r' hcurrent hrace =>
      obtain ⟨hblank, before, hhist, hr⟩ := h.busy text r hcurrent
      rw [h.limits, h.watch] at hrace
      refine ⟨h.limits, h.watch, fun hc => (nomatch hc), ?_, h.past⟩
      intro text' r'' hc
      obtain ⟨rfl, rfl⟩ := Prod.mk.inj (Option.some.inj hc)
      exact ⟨hblank, before, hhist, hr.tail hrace⟩
  | @conclude text r verdict hcurrent hreturned =>
      obtain ⟨hblank, before, hhist, hr⟩ := h.busy text r hcurrent
      refine ⟨h.limits, h.watch, fun _ => hhist.next ?_, fun _ _ hc => (nomatch hc), ?_⟩
      · rcases hr.inv.verdict verdict hreturned with rfl | ⟨e, fuel, rfl, he⟩
        · -- the session still has the fresh tape
          exact hblank
        · exact ⟨fuel, e, he, rfl⟩
      · intro q hq
        rcases List.mem_cons.mp hq with rfl | hq
        · exact ⟨text, before, hr⟩
        · exact h.past q hq
  | @straggle i r r' hi hrace =>
      refine ⟨h.limits, h.watch, h.idle, h.busy, ?_⟩
      intro q hq
      rcases List.mem_or_eq_of_mem_set hq with hq | rfl
      · exact h.past q hq
      · obtain ⟨text, before, hr⟩ := h.past r (List.mem_of_getElem? hi)
        rw [h.limits, h.watch] at hrace
        exact ⟨text, before, hr.tail hrace⟩

/-- What holds of a service holds at every moment. -/
theorem Reachable.inv {v : Service} (h : Reachable session v) : Inv session v := by
  induction h with
  | refl => exact inv_start
  | tail _ hstep ih => exact ih.step hstep

/-- At every moment the requests dealt with form a history. -/
theorem Reachable.history {v : Service} (h : Reachable session v) :
    ∃ t, History session v.done t := by
  cases hc : v.current with
  | none => exact ⟨_, h.inv.idle hc⟩
  | some current =>
      obtain ⟨-, before, hhist, -⟩ := h.inv.busy _ _ hc
      exact ⟨before, hhist⟩

/-! ## Every history is one of a service -/

/-- The steps of the race that is waited for are steps of the service. -/
theorem steps_of_race {v : Service} {text : String} {r r' : Race}
    (hcurrent : v.current = some (text, r))
    (h : ReflTransGen (Race.Step v.session.limits v.session.watch) r r') :
    ReflTransGen Step v { v with current := some (text, r') } := by
  induction h with
  | refl =>
      rw [← hcurrent]
  | tail _ hstep ih => exact ih.tail (.race rfl hstep)

/-- A submission may end with every verdict that its race can have. -/
theorem steps_of_verdict {v : Service} (hidle : v.current = none) {text : String} {r : Race}
    {verdict : Verdict} (hreturned : r.caller = .returned verdict)
    (h : Race.Reachable v.session.limits v.session.watch text v.session.tape r) :
    ReflTransGen Step v {
      session := { v.session with tape := verdict.tapeOr .blank }
      current := none
      past := r :: v.past
      done := ⟨.submit text, verdict.isTimeout, verdict.tapeOr .blank⟩ :: v.done } := by
  refine .head (.submit text hidle) ?_
  refine .trans (steps_of_race rfl h) ?_
  exact .single (.conclude rfl hreturned)

/-- What a session does that waits for so many steps of each submission is
    done by some order of steps, whoever else is at work. -/
theorem steps_of_submitWithin {v : Service} (hidle : v.current = none) (patience : Nat)
    (text : String) :
    ∃ v', ReflTransGen Step v v' ∧ v'.current = none ∧
      v'.session = (v.session.submitWithin patience text).1 ∧
      v'.done = ⟨.submit text,
        (executeWithin patience v.session.limits.maxSteps v.session.watch text
          v.session.tape).isNone,
        v'.session.tape⟩ :: v.done := by
  unfold Session.submitWithin
  cases hexec : executeWithin patience v.session.limits.maxSteps v.session.watch text
      v.session.tape with
  | none =>
      obtain ⟨r, hr, hreturned⟩ := Race.exists_timedOut v.session.limits v.session.watch
        text v.session.tape
      exact ⟨_, steps_of_verdict hidle hreturned hr, rfl, rfl, rfl⟩
  | some e =>
      obtain ⟨r, hr, hreturned⟩ := Race.exists_answer hexec
      exact ⟨_, steps_of_verdict hidle hreturned hr, rfl, rfl, rfl⟩

/-- Every history is the history of some service. -/
theorem exists_of_history {done : List Entry} {t : Tape} (h : History session done t) :
    ∃ v, Reachable session v ∧ v.current = none ∧ v.done = done ∧
      v.session = { session with tape := t } := by
  induction h with
  | start => exact ⟨{ session }, .refl, rfl, rfl, rfl⟩
  | @next done before x _ hx ih =>
      obtain ⟨v, hv, hidle, rfl, hsession⟩ := ih
      obtain ⟨request, timedOut, tape⟩ := x
      cases request with
      | reset =>
          obtain ⟨rfl, rfl⟩ : timedOut = false ∧ tape = .blank := hx
          refine ⟨_, hv.tail (.reset hidle), hidle, rfl, ?_⟩
          rw [Session.reset, hsession]
      | submit text =>
          cases timedOut with
          | true =>
              obtain rfl : tape = .blank := hx
              obtain ⟨r, hr, hreturned⟩ := Race.exists_timedOut v.session.limits v.session.watch
                text v.session.tape
              refine ⟨_, hv.trans (steps_of_verdict hidle hreturned hr), rfl, rfl, ?_⟩
              rw [hsession]
              rfl
          | false =>
              obtain ⟨patience, e, he, rfl⟩ := hx
              obtain ⟨v', hsteps, hidle', hsession', hdone⟩ :=
                steps_of_submitWithin hidle patience text
              rw [hsession] at hsession' hdone
              simp only [Session.submitWithin, he, Option.isNone_some] at hsession' hdone
              rw [hsession'] at hdone
              exact ⟨v', hv.trans hsteps, hidle', hdone, hsession'⟩

end Service

/-- **No order of steps matters.**  Whatever the order of steps, a caller
    comes back with the result of the execution whose flag is never raised,
    which is never a cancelled one, or it gave up; and every such result
    can come back.  A worker that has seen the flag executes nothing any
    more.  The tapes of a session after each of its requests depend only on
    what was asked and on which submissions were given up, and not on what
    the workers given up are doing; every such history can come about, and
    among them the one in which patience is counted in steps. -/
theorem bounded_runs_under_any_interleaving :
    (∀ limits watch text tape r, Race.Reachable limits watch text tape r →
      ∀ v, r.caller = .returned v → v = .timedOut limits.timeoutMs ∨
        ∃ e fuel, v = .answer e ∧
          execute fuel { limit := limits.maxSteps } watch text tape = some e ∧
          e.result ≠ .error .cancelled) ∧
    (∀ limits watch text tape fuel e,
      execute fuel { limit := limits.maxSteps } watch text tape = some e →
      ∃ r, Race.Reachable limits watch text tape r ∧ r.caller = .returned (.answer e)) ∧
    (∀ limits watch text tape r, Race.Reachable limits watch text tape r →
      ∀ code s w, r.worker = .looked true code s w →
      ∀ r', ReflTransGen (Race.Step limits watch) r r' → r'.worker.StoppedAt s) ∧
    (∀ session v, Service.Reachable session v →
      (v.current = none → Service.History session v.done v.session.tape) ∧
      (∀ r ∈ v.past, ∃ text before,
        Race.Reachable session.limits session.watch text before r) ∧
      ∀ v', Service.Reachable session v' →
        v.done.map Service.Entry.fate = v'.done.map Service.Entry.fate →
        v.done = v'.done ∧
          (v.current = none → v'.current = none → v.session.tape = v'.session.tape)) ∧
    (∀ session done t, Service.History session done t →
      ∃ v, Service.Reachable session v ∧ v.current = none ∧ v.done = done) ∧
    (∀ v : Service, v.current = none → ∀ patience text,
      ∃ v', ReflTransGen Service.Step v v' ∧ v'.current = none ∧
        v'.session = (v.session.submitWithin patience text).1 ∧
        v'.done = ⟨.submit text,
          (executeWithin patience v.session.limits.maxSteps v.session.watch text
            v.session.tape).isNone,
          v'.session.tape⟩ :: v.done) := by
  refine ⟨?_, ?_, ?_, ?_, ?_, ?_⟩
  · intro limits watch text tape r hr v hv
    rcases hr.inv.verdict v hv with htimeout | ⟨e, fuel, hanswer, he⟩
    · exact Or.inl htimeout
    · exact Or.inr ⟨e, fuel, hanswer, he, execute_ne_cancelled he⟩
  · intro limits watch text tape fuel e he
    exact Race.exists_answer he
  · intro limits watch text tape r hr code s w hseen r' hsteps
    exact Race.stoppedAt_steps (hr.stoppedAt hseen) hsteps
  · intro session v hv
    refine ⟨hv.inv.idle, hv.inv.past, ?_⟩
    intro v' hv' hfate
    obtain ⟨t, ht⟩ := hv.history
    obtain ⟨t', ht'⟩ := hv'.history
    refine ⟨(ht.unique ht' hfate).1, ?_⟩
    intro hidle hidle'
    exact ((hv.inv.idle hidle).unique (hv'.inv.idle hidle') hfate).2
  · intro session done t h
    obtain ⟨v, hv, hidle, hdone, -⟩ := Service.exists_of_history h
    exact ⟨v, hv, hidle, hdone⟩
  · intro v hidle patience text
    exact Service.steps_of_submitWithin hidle patience text

/-- A worker that is given up after its first step sees the flag before the
    second and keeps the tape of the first. -/
theorem bounded_runs_given_up_after_one_step :
    ∃ r e, Race.Reachable ⟨50, none⟩ {} "+[]" .blank r ∧
      r.caller = .returned (.timedOut 50) ∧ r.worker = .holding e ∧
      e.tape = ⟨[], 1, []⟩ ∧ e.result = .error .cancelled := by
  let code : Code := #[.increment, .loopStart, .loopEnd 1]
  let s : State Tape := { ip := 1, steps := 1, memory := ⟨[], 1, []⟩ }
  have hfirst : ReflTransGen (Worker.Step ⟨50, none⟩ {} false)
      (.handed "+[]" .blank) (.ready code s {}) := by
    refine .head (.begin "+[]" .blank) (.head (.look false ?_ (fun h => nomatch h)) (.single .act))
    exact fun h => nomatch h
  have hgiven : Race.Reachable ⟨50, none⟩ {} "+[]" .blank
      { worker := .ready code s {}, flag := true, caller := .returned (.timedOut 50) } :=
    ((Race.steps_of_worker hfirst).tail (.expire rfl)).tail (.raise rfl)
  have hseen : Race.Reachable ⟨50, none⟩ {} "+[]" .blank
      { worker := .looked true code s {}, flag := true, caller := .returned (.timedOut 50) } :=
    hgiven.tail (.work (.look true (fun h => nomatch h) (fun _ => rfl)))
  have hacted : ReflTransGen (Race.Step ⟨50, none⟩ {})
      { worker := .looked true code s {}, flag := true, caller := .returned (.timedOut 50) }
      { worker := .resume code (code.run { cancelled := true } Watch.see 1 s {})
        flag := true, caller := .returned (.timedOut 50) } := .single (.work .act)
  obtain ⟨-, -, hstopped, -⟩ := bounded_runs_under_any_interleaving
  exact ⟨_, _, hseen.trans hacted, rfl, rfl, hstopped _ _ _ _ _ hseen _ _ _ rfl _ hacted⟩

end TapeMachine
