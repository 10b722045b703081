import TapeMachine.Proofs.Control
import TapeMachine.Proofs.Line
import TapeMachine.Proofs.Table

/-! # Tracing — the table tells the run

    The trace table is written by an observer, so it cannot disturb the
    run.  Here it is shown that it also tells the truth: what each row
    says is compared with the states before and after its step, read as
    lines of cells.  That the text written can be read as these rows, and
    as no others, is a matter of the text alone (`Row.IsTable`).

      * `Code.Traced code s rows s'`: these are the rows of the steps
        from `s` to `s'`.  Everything about the table is read off this
        relation by induction.
      * `run_traced`: what a run writes is a table of this kind, whatever
        ends the run, also if it is only looked at for a while.
      * `Row.tells`: the row of a step tells the step. -/

namespace TapeMachine

/-! ## What a row says -/

/-- Control goes on to the next position and nothing is printed. -/
def State.Passes (s s' : State Tape) : Prop := s'.ip = s.ip + 1 ∧ s'.output = s.output

/-- What an action says about a step that takes the character `c` in state
    `s` and leads to `s'`. -/
def Action.Describes (a : Action) (c : Char) (s s' : State Tape) : Prop :=
  match a with
  | .movedRight offset grew =>
      c = '>' ∧ s'.memory.line = s.memory.line.right ∧ s'.memory.offset = offset ∧
        (grew = true ↔ s.memory.cells.length < s'.memory.cells.length) ∧ s.Passes s'
  | .movedLeft offset =>
      c = '<' ∧ s'.memory.line = s.memory.line.left ∧ s'.memory.offset = offset ∧
        ¬ s.memory.cells.length < s'.memory.cells.length ∧ s.Passes s'
  | .extendedLeft =>
      c = '<' ∧ s'.memory.line = s.memory.line.left ∧ s'.memory.offset = 0 ∧
        s.memory.cells.length < s'.memory.cells.length ∧ s.Passes s'
  | .incremented offset old new =>
      c = '+' ∧ s'.memory.line = s.memory.line.apply .increment ∧ s.memory.offset = offset ∧
        s.memory.cell = old ∧ s'.memory.cell = new ∧ s.Passes s'
  | .decremented offset old new =>
      c = '-' ∧ s'.memory.line = s.memory.line.apply .decrement ∧ s.memory.offset = offset ∧
        s.memory.cell = old ∧ s'.memory.cell = new ∧ s.Passes s'
  | .printed d =>
      c = '.' ∧ s'.memory = s.memory ∧ s'.ip = s.ip + 1 ∧ s'.output = s.output ++ [d]
  | .enteredLoop => c = '[' ∧ s'.memory = s.memory ∧ s.Passes s'
  | .jumpedBack start =>
      c = ']' ∧ s.memory.cell ≠ 0 ∧ s'.memory = s.memory ∧ s'.ip = start + 1 ∧
        s'.output = s.output
  | .leftLoop => c = ']' ∧ s.memory.cell = 0 ∧ s'.memory = s.memory ∧ s.Passes s'
  | .ignored =>
      c ∉ ['>', '<', '+', '-', '.', '[', ']'] ∧ s'.memory = s.memory ∧ s.Passes s'

/-- The character an action prints. -/
def Action.printed? : Action → Option Char
  | .printed c => some c
  | _ => none

/-- The character a row tells to have been printed. -/
def Row.printed? (row : Row) : Option Char := row.action.printed?

/-- A row tells the `k`-th step, which takes the character `c` in state `s`
    and leads to `s'`. -/
structure Row.Tells (row : Row) (k : Nat) (c : Char) (s s' : State Tape) : Prop where
  step : row.step = k
  ip : row.ip = s.ip
  offset : row.offset = s.memory.offset
  cell : row.cell = s.memory.cell
  glyph : row.glyph = c
  action : row.action.Describes c s s'

/-- An instruction of resolved code belongs to a bracket or to the
    character it is written with. -/
theorem Block.mem_code {b : Block} {base : Nat} {i : Instr} (h : i ∈ b.code base) :
    i = .loopStart ∨ (∃ start, i = .loopEnd start) ∨ ∃ c, IsPlain c ∧ i = .ofPlain c := by
  induction b generalizing base with
  | nil => exact nomatch h
  | plain c hc rest ih =>
      rcases List.mem_cons.mp h with rfl | h
      · exact Or.inr (Or.inr ⟨c, hc, rfl⟩)
      · exact ih h
  | loop body rest ihb ihr =>
      rcases List.mem_cons.mp h with rfl | h
      · exact Or.inl rfl
      · rcases List.mem_append.mp h with h | h
        · exact ihb h
        · rcases List.mem_cons.mp h with rfl | h
          · exact Or.inr (Or.inl ⟨base, rfl⟩)
          · exact ihr h

/-- A comment of resolved code is no command. -/
theorem Code.comment_of_resolved {text : List Char} {code : Code} {ip : Nat} {c : Char}
    (h : ofChars text = .ok code) (hi : code[ip]? = some (.comment c)) :
    c ∉ ['>', '<', '+', '-', '.', '[', ']'] := by
  obtain ⟨b, rfl, rfl⟩ := exists_block h
  rw [List.getElem?_toArray] at hi
  rcases Block.mem_code (List.mem_of_getElem? hi) with h | ⟨start, h⟩ | ⟨d, hd, h⟩
  · exact nomatch h
  · exact nomatch h
  · have hcd : c = d := by
      have := congrArg Instr.glyph h
      rwa [Instr.glyph_ofPlain] at this
    subst hcd
    intro hmem
    simp only [List.mem_cons, List.not_mem_nil, or_false] at hmem
    rcases hmem with rfl | rfl | rfl | rfl | rfl | rfl | rfl
    · exact nomatch h
    · exact nomatch h
    · exact nomatch h
    · exact nomatch h
    · exact nomatch h
    · exact absurd rfl hd.1
    · exact absurd rfl hd.2

/-- Where the tape grows to the left, the cursor stays at its left end. -/
theorem Tape.offset_left_of_grows {t : Tape} (h : t.grows .left = true) : t.left.offset = 0 := by
  obtain ⟨before, v, after⟩ := t
  cases before with
  | nil => rfl
  | cons w before => exact nomatch h

/-- The action of a step describes the step. -/
theorem Action.describes_of {text : List Char} {code : Code} {i : Instr} {s : State Tape}
    (h : Code.ofChars text = .ok code) (hi : code[s.ip]? = some i) :
    (Action.of i s.memory (i.act s).memory).Describes i.glyph s (i.act s) := by
  have hpass : (i.act s).ip = s.ip + 1 → (i.act s).printed = s.printed → s.Passes (i.act s) :=
    fun hip hout => ⟨hip, congrArg List.reverse hout⟩
  cases i with
  | right =>
      have hgrows := s.memory.grows_iff .right
      rw [← s.memory.line_apply] at hgrows
      exact ⟨rfl, s.memory.line_right, rfl, hgrows, hpass rfl rfl⟩
  | left =>
      have hgrows := s.memory.grows_iff .left
      rw [← s.memory.line_apply] at hgrows
      show (if s.memory.grows .left then extendedLeft
        else movedLeft s.memory.left.offset).Describes '<' s _
      by_cases hg : s.memory.grows .left = true
      · rw [if_pos hg]
        exact ⟨rfl, s.memory.line_left, Tape.offset_left_of_grows hg, hgrows.mp hg, hpass rfl rfl⟩
      · rw [if_neg hg]
        exact ⟨rfl, s.memory.line_left, rfl, fun hlt => hg (hgrows.mpr hlt), hpass rfl rfl⟩
  | increment => exact ⟨rfl, s.memory.line_apply .increment, rfl, rfl, rfl, hpass rfl rfl⟩
  | decrement => exact ⟨rfl, s.memory.line_apply .decrement, rfl, rfl, rfl, hpass rfl rfl⟩
  | print => exact ⟨rfl, rfl, rfl, List.reverse_cons⟩
  | loopStart => exact ⟨rfl, rfl, hpass rfl rfl⟩
  | loopEnd start =>
      show (if s.memory.cell = 0 then leftLoop else jumpedBack start).Describes ']' s _
      by_cases hz : s.memory.cell = 0
      · rw [if_pos hz]
        exact ⟨rfl, hz, rfl, hpass (if_pos hz) rfl⟩
      · rw [if_neg hz]
        exact ⟨rfl, hz, rfl, if_neg hz, rfl⟩
  | comment c => exact ⟨Code.comment_of_resolved h hi, rfl, hpass rfl rfl⟩

/-- A described step prints what its action says. -/
theorem Action.Describes.output {a : Action} {c : Char} {s s' : State Tape}
    (h : a.Describes c s s') : s'.output = s.output ++ a.printed?.toList := by
  have hquiet : s'.output = s.output → s'.output = s.output ++ [] :=
    fun hout => hout.trans (List.append_nil _).symm
  cases a with
  | movedRight offset grew => exact hquiet h.2.2.2.2.2
  | movedLeft offset => exact hquiet h.2.2.2.2.2
  | extendedLeft => exact hquiet h.2.2.2.2.2
  | incremented offset old new => exact hquiet h.2.2.2.2.2.2
  | decremented offset old new => exact hquiet h.2.2.2.2.2.2
  | printed d => exact h.2.2.2
  | enteredLoop => exact hquiet h.2.2.2
  | jumpedBack start => exact hquiet h.2.2.2.2
  | leftLoop => exact hquiet h.2.2.2.2
  | ignored => exact hquiet h.2.2.2

/-- The words written for an action belong to the character of the step it
    describes. -/
theorem Action.Describes.words {a : Action} {c : Char} {s s' : State Tape}
    (h : a.Describes c s s') : a.Words c a.text := by
  cases a with
  | printed d =>
      refine ⟨h.1, _, Text.Quoted.spells_escape d, ?_⟩
      have htext : (printed d).text = "Output " ++ Text.Quoted.char d := by
        unfold text
        rfl
      rw [htext, ← String.toList_inj]
      simp [Text.Quoted.char]
  | incremented | decremented =>
      refine ⟨h.1, ?_⟩
      unfold text Cell.text
      rfl
  | _ =>
      refine ⟨h.1, ?_⟩
      unfold text
      rfl

/-- The row of a step tells the step. -/
theorem Row.tells {text : List Char} {code : Code} {i : Instr} {s : State Tape}
    (h : Code.ofChars text = .ok code) (hi : code[s.ip]? = some i) :
    (Row.of i s (i.act s)).Tells s.steps i.glyph s (i.act s) :=
  ⟨rfl, rfl, rfl, rfl, rfl, Action.describes_of h hi⟩

/-! ## Tables -/

namespace Code

/-- These are the rows of the steps from one state to another. -/
inductive Traced (code : Code) : State Tape → List Row → State Tape → Prop where
  | refl (s : State Tape) : Traced code s [] s
  | step {s s' : State Tape} {i : Instr} {rows : List Row} :
      code[s.ip]? = some i → Traced code (i.act s) rows s' →
      Traced code s (Row.of i s (i.act s) :: rows) s'

variable {code : Code} {s s' : State Tape} {rows : List Row}

/-- There is one row per step. -/
theorem Traced.reaches (h : code.Traced s rows s') : code.Reaches rows.length s s' := by
  induction h with
  | refl s => exact .refl s
  | step hi _ ih => exact .step hi ih

/-- The `k`-th row is the row of the step after `k` steps. -/
theorem Traced.row {k : Nat} {row : Row} (h : code.Traced s rows s')
    (hrow : rows[k]? = some row) :
    ∃ sk i, code.Reaches k s sk ∧ code[sk.ip]? = some i ∧ row = Row.of i sk (i.act sk) := by
  induction h generalizing k with
  | refl s => exact nomatch hrow
  | @step s s' i rows hi _ ih =>
      cases k with
      | zero => exact ⟨s, i, .refl s, hi, (Option.some.inj hrow).symm⟩
      | succ k =>
          obtain ⟨sk, j, hr, hj, heq⟩ := ih hrow
          exact ⟨sk, j, .step hi hr, hj, heq⟩

/-- The rows of steps are written as a table. -/
theorem Traced.isTable {text : List Char} (hcode : ofChars text = .ok code)
    (h : code.Traced s rows s') :
    Row.IsTable rows (Row.header ++ String.join (rows.map Row.line)) := by
  refine Row.isTable_of_words ?_
  intro row hmem
  obtain ⟨k, hrow⟩ := List.mem_iff_getElem?.mp hmem
  obtain ⟨sk, i, -, hi, rfl⟩ := h.row hrow
  exact (Action.describes_of hcode hi).words

/-- A row that tells of a jump is followed by the row of its target. -/
theorem Traced.row_after_jump {text : List Char} {k start : Nat} {row next : Row}
    (hcode : ofChars text = .ok code) (h : code.Traced s rows s') (hrow : rows[k]? = some row)
    (hjump : row.action = .jumpedBack start) (hnext : rows[k + 1]? = some next) :
    next.ip = start + 1 := by
  obtain ⟨sk, i, hr, hi, rfl⟩ := h.row hrow
  obtain ⟨sn, j, hrn, -, rfl⟩ := h.row hnext
  -- the next row is about the state to which the jump has led
  have hstep : sn = i.act sk := by
    rw [← hrn.after_eq, (hr.trans (.step hi (.refl _))).after_eq]
  have hdescribes : (Row.of i sk (i.act sk)).action.Describes i.glyph sk (i.act sk) :=
    Action.describes_of hcode hi
  rw [hjump] at hdescribes
  show sn.ip = start + 1
  rw [hstep]
  exact hdescribes.2.2.2.1

/-- The output is what the rows tell to have been printed. -/
theorem Traced.output {text : List Char} (hcode : ofChars text = .ok code)
    (h : code.Traced s rows s') :
    s'.output = s.output ++ rows.filterMap Row.printed? := by
  induction h with
  | refl s => exact (List.append_nil _).symm
  | @step s s' i rows hi _ ih =>
      -- the row of the step and the step itself print the same
      have hfirst : (i.act s).output
          = s.output ++ (Row.of i s (i.act s)).printed?.toList :=
        (Action.describes_of hcode hi).output
      rw [ih, hfirst, List.append_assoc]
      cases hp : (Row.of i s (i.act s)).printed? with
      | none =>
          rw [List.filterMap_cons_none hp]
          rfl
      | some c =>
          rw [List.filterMap_cons_some hp]
          rfl

/-! ## What a run writes -/

/-- Watching a step with an unlimited sink writes its row. -/
theorem see_traced (i : Instr) (s s' : State Tape) (written : String)
    (jumps : Option (List Event)) :
    Watch.see i s s' { sink := some { written }, jumps }
      = .ok { sink := some { written := written ++ (Row.of i s s').line },
              jumps := Watch.noteJump jumps i s } := rfl

/-- A run with an unlimited sink adds the rows of its steps to what was
    written, whatever ends it. -/
theorem run_traced (code : Code) (control : Control) (fuel : Nat) (s : State Tape)
    (written : String) (jumps : Option (List Event)) :
    ∃ s' halt rows jumps', code.Traced s rows s' ∧
      code.run control Watch.see fuel s { sink := some { written }, jumps }
        = ⟨s', { sink := some { written := written ++ String.join (rows.map Row.line) },
                 jumps := jumps' }, halt⟩ := by
  have hnone : ∀ text : String, text ++ String.join (List.map Row.line []) = text := by simp
  induction fuel generalizing s written jumps with
  | zero =>
      refine ⟨s, .unfinished, [], jumps, .refl s, ?_⟩
      rw [hnone]
      rfl
  | succ fuel ih =>
      cases hstop : code.stop? control s with
      | some halt =>
          refine ⟨s, halt, [], jumps, .refl s, ?_⟩
          rw [run_of_stop hstop, hnone]
      | none =>
          obtain ⟨i, hi, hgo⟩ := run_of_go hstop
          obtain ⟨s', halt, rows, jumps', htraced, hrun⟩ := ih (i.act s)
            (written ++ (Row.of i s (i.act s)).line) (Watch.noteJump jumps i s)
          refine ⟨s', halt, Row.of i s (i.act s) :: rows, jumps', .step hi htraced, ?_⟩
          rw [(hgo fuel).1 (see_traced i s (i.act s) written jumps), hrun, List.map_cons,
            String.join_cons, String.append_assoc]

end Code

/-- The table begins with its head. -/
theorem Watch.begin_traced (jumps : Option (List Event)) :
    begin { sink := some {}, jumps } = some { sink := some { written := Row.header }, jumps } := by
  simp [begin, Sink.write, Sink.accepts, Sink.append]

/-- Apart from the table, a traced run tells what the same run tells
    without a table. -/
theorem Execution.ofOutcome_untraced (loops : Nat) (s : State Tape) (halt : Halt)
    (written : String) (jumps : Option (List Event)) :
    (ofOutcome loops ⟨s, { sink := some { written }, jumps }, halt⟩).map
        (fun e => { e with trace := "" })
      = ofOutcome loops ⟨s, { jumps }, halt⟩ := by
  cases halt <;> rfl

/-- Tracing changes nothing but the trace. -/
theorem execute_untraced (fuel : Nat) (control : Control) (jumps : Option (List Event))
    (text : String) (t : Tape) :
    (execute fuel control { sink := some {}, jumps } text t).map (fun e => { e with trace := "" })
      = execute fuel control { jumps } text t := by
  cases hcode : Code.ofText text with
  | error u => simp only [execute, hcode, Option.map_some]
  | ok code =>
      -- both watches go on at every step and note the same jumps
      have hstep : ∀ (i : Instr) (s s' : State Tape) (w v : Watch),
          (∃ written, w = { sink := some { written }, jumps := v.jumps } ∧ v.sink = none) →
          ∃ w' v', Watch.see i s s' w = .ok w' ∧ Watch.see i s s' v = .ok v' ∧
            ∃ written, w' = { sink := some { written }, jumps := v'.jumps } ∧ v'.sink = none := by
        rintro i s s' w ⟨sink, jumps⟩ ⟨written, rfl, hv⟩
        obtain rfl : sink = none := hv
        exact ⟨_, _, Code.see_traced i s s' written jumps, Watch.see_without_sink i s s' jumps,
          _, rfl, rfl⟩
      obtain ⟨s, halt, w, ⟨sink, jumps'⟩, hw, hv, written, rfl, hsink⟩ :=
        code.run_lockstep control _ hstep fuel (.start t)
          (w := { sink := some { written := Row.header }, jumps }) (v := { jumps })
          ⟨_, rfl, rfl⟩
      obtain rfl : sink = none := hsink
      simp only [execute, hcode, Watch.begin_traced]
      rw [hw, Execution.ofOutcome_untraced]
      simp only [Watch.begin, hv]

/-- What a finished traced execution returns and writes is read off its
    run. -/
theorem Execution.of_traced {loops : Nat} {s : State Tape} {halt : Halt} {written : String}
    {jumps : Option (List Event)} {e : Execution}
    (h : ofOutcome loops ⟨s, { sink := some { written }, jumps }, halt⟩ = some e) :
    e.trace = written ∧ e.tape = s.memory ∧ ∀ out, e.result = .ok out → out = s.text := by
  cases halt with
  | finished =>
      obtain rfl := Option.some.inj h
      exact ⟨rfl, rfl, fun out hout => (Except.ok.inj hout).symm⟩
  | unfinished => exact nomatch h
  | cancelled =>
      obtain rfl := Option.some.inj h
      exact ⟨rfl, rfl, fun out hout => nomatch hout⟩
  | limitReached limit =>
      obtain rfl := Option.some.inj h
      exact ⟨rfl, rfl, fun out hout => nomatch hout⟩
  | unobservable ip =>
      obtain rfl := Option.some.inj h
      exact ⟨rfl, rfl, fun out hout => nomatch hout⟩

/-- **The trace tells the run and does not change it.**  For every control
    a traced execution differs from the untraced one in its trace only.
    At every moment of a run of a balanced program the text written is two
    lines of headings and one line per step taken, and it can be read as
    one list of rows only.  The `k`-th of them tells the `k`-th step of the
    machine.  A jump is followed by the row of its target, and the output
    of an execution that returns is what the rows tell to have been
    printed. -/
theorem trace_tells_run (text : String) (t : Tape) (control : Control)
    (jumps : Option (List Event)) :
    (∀ fuel,
      (execute fuel control { sink := some {}, jumps } text t).map (fun e => { e with trace := "" })
        = execute fuel control { jumps } text t) ∧
    (Balanced text.toList → ∃ code, Code.ofText text = .ok code ∧ ∀ fuel,
      ∃ (o : Outcome Tape Watch) (rows : List Row),
      o = code.run control Watch.see fuel (.start t)
        { sink := some { written := Row.header }, jumps } ∧
      Row.IsTable rows o.notes.trace ∧
      (∀ rows', Row.IsTable rows' o.notes.trace → rows' = rows) ∧
      code.Reaches rows.length (.start t) o.state ∧
      (∀ k row, rows[k]? = some row → ∃ c s s', code.Reaches k (.start t) s ∧
        text.toList[s.ip]? = some c ∧ code.step? s = some s' ∧ row.Tells k c s s') ∧
      (∀ k row start next, rows[k]? = some row → row.action = .jumpedBack start →
        rows[k + 1]? = some next → next.ip = start + 1) ∧
      ∀ e, execute fuel control { sink := some {}, jumps } text t = some e →
        e.trace = o.notes.trace ∧ e.tape = o.state.memory ∧
        ∀ out, e.result = .ok out → out = String.ofList (rows.filterMap Row.printed?)) := by
  refine ⟨fun fuel => execute_untraced fuel control jumps text t, ?_⟩
  intro hbal
  obtain ⟨code, hcode⟩ : ∃ code, Code.ofText text = .ok code := Code.ofChars_isOk_iff.mpr hbal
  refine ⟨code, hcode, ?_⟩
  intro fuel
  obtain ⟨s, halt, rows, jumps', htraced, hrun⟩ :=
    code.run_traced control fuel (.start t) Row.header jumps
  have htable := htraced.isTable hcode
  refine ⟨_, rows, rfl, ?_⟩
  rw [hrun]
  refine ⟨htable, fun rows' h => h.unique htable, htraced.reaches, ?_,
    fun k row start next => htraced.row_after_jump hcode, ?_⟩
  · intro k row hrow
    obtain ⟨sk, i, hr, hi, rfl⟩ := htraced.row hrow
    have hglyph := Code.getElem?_glyph hcode sk.ip
    rw [hi] at hglyph
    refine ⟨i.glyph, sk, i.act sk, hr, hglyph.symm, ?_, ?_⟩
    · rw [Code.step?, hi]
      rfl
    · have hk : sk.steps = k := hr.steps_eq.trans (Nat.zero_add k)
      rw [← hk]
      exact Row.tells hcode hi
  · intro e he
    simp only [execute, hcode, Watch.begin_traced, hrun] at he
    obtain ⟨htrace, htape, hout⟩ := Execution.of_traced he
    refine ⟨htrace, htape, ?_⟩
    intro out hresult
    rw [hout out hresult, State.text, htraced.output hcode]
    rfl

end TapeMachine
