import TapeMachine.Proofs.Control
import TapeMachine.Proofs.Script.Lines
import TapeMachine.Editor
import Mathlib.Data.List.DropRight

/-! # Agreement — a script does what the editor does with its lines

    The editor answers each line at once, on the tape that the lines
    before it have left.  A script is put together first and run once, on
    a fresh tape.  If every program ends, both come to the same tape, and
    the script prints what the editor has printed since the last
    `:reset`.

      * `Editor.visits`: the submissions that the editor gets to see, each
        with the session that meets it.
      * `Editor.answer_agrees`: with one line more, evaluating the text of
        the script from a fresh tape still gives the editor's tape and its
        outputs since the last reset.
      * `Editor.addLines_agrees`: what follows for all lines, by induction
        on them.
      * `Editor.course_mono`: how long the editor waits makes no difference
        to programs that end. -/

namespace TapeMachine

/-! ## Executions that end -/

section Executions

variable {text : String} {t t' : Tape} {out : String}

/-- If the execution of a balanced program ends, it returns. -/
theorem returns_of_execute {jumps : Option (List Event)} {fuel : Nat} {e : Execution}
    (hbal : Balanced text.toList) (h : execute fuel {} { jumps } text t = some e) :
    ∃ out, e.result = .ok out ∧ Returns text t out e.tape := by
  obtain ⟨code, hcode⟩ := Code.ofChars_isOk_iff.mpr hbal
  rcases code.reaches_of_run_free Watch.see_idle fuel (.start t) with
    ⟨n, s, -, hr, hh, ho⟩ | ⟨s, -, ho⟩
  · obtain ⟨w, hw⟩ := execute_of_idle_run hcode {} jumps ho
    rw [hw] at h
    obtain rfl := Option.some.inj h
    exact ⟨s.text, rfl, (returns_iff_reaches hcode).mpr ⟨n, s, hr, hh, rfl, rfl⟩⟩
  · obtain ⟨w, hw⟩ := execute_of_idle_run hcode {} jumps ho
    rw [hw] at h
    exact nomatch h

/-- With fuel enough the execution of a program that returns ends. -/
theorem Returns.execute (h : Returns text t out t') (jumps : Option (List Event)) :
    ∃ enough, ∀ fuel, enough ≤ fuel → ∃ e, TapeMachine.execute fuel {} { jumps } text t = some e ∧
      e.result = .ok out ∧ e.tape = t' := by
  obtain ⟨b, hb, -⟩ := returns_iff_evaluates.mp h
  have hcode := ofText_of_chars hb
  obtain ⟨n, s, hr, hh, rfl, rfl⟩ := (returns_iff_reaches hcode).mp h
  have hrun : Code.run (b.code 0).toArray {} Watch.see (n + 1) (.start t) {}
      = ⟨s, {}, .finished⟩ := by
    rw [Code.run_of_reaches rfl Watch.see_idle hr (fun _ _ => rfl)]
    simp only [Code.run, show (b.code 0).toArray[s.ip]? = none from hh]
  obtain ⟨w, hw⟩ := execute_of_idle_run hcode {} jumps hrun
  exact ⟨n + 1, fun fuel hfuel => ⟨_, execute_mono hfuel hw, rfl, rfl⟩⟩

end Executions

/-! ## What is printed -/

namespace Emission

@[simp] theorem stdout_nil : stdout [] = "" := rfl

@[simp] theorem stdout_cons_out (text : String) (es : List Emission) :
    stdout (.out text :: es) = text ++ stdout es := by
  simp [stdout]

@[simp] theorem stdout_cons_err (text : String) (es : List Emission) :
    stdout (.err text :: es) = stdout es := by
  simp [stdout]

@[simp] theorem stdout_cons_log (event : Event) (es : List Emission) :
    stdout (.log event :: es) = stdout es := by
  simp [stdout]

@[simp] theorem stdout_append (es es' : List Emission) :
    stdout (es ++ es') = stdout es ++ stdout es' := by
  simp [stdout]

@[simp] theorem stdout_logs (events : List Event) : stdout (logs events) = "" := by
  induction events with
  | nil => rfl
  | cons event events ih =>
      show stdout (.log event :: logs events) = ""
      rw [stdout_cons_log, ih]

end Emission

namespace Session

/-- A session with no limit on the steps of its programs. -/
def unlimited (timeoutMs : Nat) (jumps : Option (List Event)) (t : Tape := .blank) : Session :=
  { tape := t, limits := ⟨timeoutMs, none⟩, watch := { jumps } }

variable {patience : Nat} {text out : String} {e : Execution}

/-- A submission whose execution ends leaves its tape to the session. -/
theorem submitWithin_of_execute {s : Session}
    (h : executeWithin patience s.limits.maxSteps s.watch text s.tape = some e) :
    s.submitWithin patience text
      = ({ s with tape := e.tape }, told text e ++ [.out "\n"]) := by
  simp only [submitWithin, h]

theorem submitWithin_unlimited (timeoutMs : Nat) (jumps : Option (List Event)) (t : Tape) :
    ∃ t', ((unlimited timeoutMs jumps t).submitWithin patience text).1
      = unlimited timeoutMs jumps t' := by
  unfold submitWithin
  split
  · exact ⟨_, rfl⟩
  · exact ⟨.blank, rfl⟩

/-- A submission that returns prints its output and a newline. -/
theorem stdout_told (h : e.result = .ok out) :
    Emission.stdout (told text e ++ [.out "\n"]) = out ++ "\n" := by
  simp [told, h]

end Session

/-! ## What a line adds to a script -/

section Adding

variable {M : Type} [Memory M] {m m' t t' : M} {outs out : List Char}

/-- Blanks do nothing. -/
theorem evaluates_of_allBlank {text : String} (h : Text.allBlank text = true) :
    Evaluates text.toList m out m' ↔ out = [] ∧ m' = m := by
  rw [← evaluates_commandsOf_iff, commandsOf_of_allBlank h]
  constructor
  · rintro ⟨b, hb, heval⟩
    cases b with
    | nil =>
        cases heval
        exact ⟨rfl, rfl⟩
    | plain c hc rest => exact nomatch hb
    | loop body rest => exact nomatch hb
  · rintro ⟨rfl, rfl⟩
    exact .nil _

/-- A line at the end of a text is evaluated after it, whatever becomes of
    the end of the line. -/
theorem Evaluates.add_line {text line : String} (h : Evaluates text.toList m outs t)
    (hline : Evaluates line.toList t out t') :
    Evaluates (text ++ Text.chomped line ++ "\n").toList m (outs ++ out) t' := by
  rw [← evaluates_commandsOf_iff, ← commandsOf_chomped, evaluates_commandsOf_iff] at hline
  have hnewline : Evaluates "\n".toList t' [] t' :=
    (evaluates_of_allBlank (by decide)).mpr ⟨rfl, rfl⟩
  have hall := (h.append hline).append hnewline
  rw [List.append_nil] at hall
  rw [String.toList_append, String.toList_append]
  exact hall

/-- A line that is no meta command is added to the program. -/
theorem Script.addLines_of_text {line : String} (h : MetaCommand.ofText? line = none)
    (script : Script) (rest : List String) :
    script.addLines (Text.chomped line :: rest)
      = Script.addLines { script with program := script.program ++ Text.chomped line ++ "\n" }
          rest := by
  rw [Script.addLines, MetaCommand.ofText?_chomped, h]

end Adding

/-! ## The editor's course -/

namespace Editor

/-- A submission, and the session that meets it. -/
structure Visit where
  session : Session
  text : String

namespace Visit

/-- Is the submission run as a program? -/
def isProgram (v : Visit) : Bool :=
  !Text.allBlank v.text && (MetaCommand.ofText? v.text).isNone

/-- Does the submission ask for a fresh tape? -/
def isReset (v : Visit) : Bool := MetaCommand.ofText? v.text = some .reset

/-- What comes of the submission as a program, for a caller who waits for
    so many steps. -/
def execution? (patience : Nat) (v : Visit) : Option Execution :=
  executeWithin patience v.session.limits.maxSteps v.session.watch v.text v.session.tape

/-- What the submission prints if it is a program and returns. -/
def output? (patience : Nat) (v : Visit) : Option String :=
  if v.isProgram then (v.execution? patience).bind (·.result.toOption) else none

/-- What is written about the submission. -/
def written (patience : Nat) (v : Visit) : List Emission :=
  (answerWithin patience false v.session v.text).written

end Visit

/-- The submissions that an editor answers. -/
def visits (patience : Nat) (s : Session) : List String → List Visit
  | [] => []
  | text :: rest =>
      let a := answerWithin patience false s text
      ⟨s, text⟩ :: if a.ends then [] else visits patience a.session rest

/-- The session in the end. -/
def lastSession (patience : Nat) (s : Session) : List String → Session
  | [] => s
  | text :: rest =>
      let a := answerWithin patience false s text
      if a.ends then a.session else lastSession patience a.session rest

/-- What an editor writes is what it writes about its visits, and a farewell
    if none of them ends the session. -/
theorem playWithin_eq (patience : Nat) (s : Session) (lines : List String) :
    playWithin patience false s lines
      = (visits patience s lines).map (Visit.written patience)
        ++ if (visits patience s lines).any
            (fun v => (answerWithin patience false v.session v.text).ends) then []
          else [farewell] := by
  induction lines generalizing s with
  | nil => rfl
  | cons text rest ih =>
      simp only [playWithin, visits]
      by_cases hends : (answerWithin patience false s text).ends = true
      · simp [Visit.written, hends]
      · simp [Visit.written, hends, ih]

/-- The outputs since the last reset, after one more visit. -/
def hear (patience : Nat) (outs : List String) (v : Visit) : List String :=
  if v.isReset then [] else outs ++ (v.output? patience).toList

/-- The outputs since the last reset, with those that were there before. -/
def heard (patience : Nat) (before : List String) (vs : List Visit) : List String :=
  vs.foldl (hear patience) before

theorem heard_cons (patience : Nat) (outs : List String) (v : Visit) (vs : List Visit) :
    heard patience outs (v :: vs) = heard patience (hear patience outs v) vs := by
  rw [heard, List.foldl_cons, heard]

/-- What is heard in the end is what the visits since the last reset
    print. -/
theorem heard_nil_eq (patience : Nat) (vs : List Visit) :
    heard patience [] vs
      = (vs.rtakeWhile (fun v => !v.isReset)).filterMap (Visit.output? patience) := by
  induction vs using List.reverseRecOn with
  | nil => rfl
  | append_singleton vs v ih =>
      unfold heard at ih ⊢
      rw [List.foldl_append, ih, List.rtakeWhile_concat]
      cases hreset : v.isReset with
      | true => simp [hear, hreset]
      | false =>
          cases hout : v.output? patience <;>
            simp [hear, hreset, hout, List.filterMap_append]

/-! ## Line by line -/

variable {patience timeoutMs : Nat} {jumps : Option (List Event)}

/-- After a submission that does not end the session the editor takes up
    the others. -/
theorem course_of_answer {s s' : Session} {text : String} {written : List Emission}
    (h : answerWithin patience false s text = ⟨s', written, false⟩) (rest : List String) :
    visits patience s (text :: rest) = ⟨s, text⟩ :: visits patience s' rest ∧
      lastSession patience s (text :: rest) = lastSession patience s' rest := by
  simp only [visits, lastSession, h, Bool.false_eq_true, if_false, and_self]

/-- Of a program that ends, the editor keeps the tape and tells the rest. -/
theorem answer_of_program {v : Visit} {e : Execution} (hprogram : v.isProgram = true)
    (he : v.execution? patience = some e) :
    answerWithin patience false v.session v.text
      = ⟨{ v.session with tape := e.tape }, Session.told v.text e ++ [.out "\n"], false⟩ := by
  simp only [Visit.isProgram, Bool.and_eq_true, Bool.not_eq_true', Option.isNone_iff_eq_none]
    at hprogram
  obtain ⟨hblank, hmeta⟩ := hprogram
  simp only [answerWithin, hblank, hmeta, Bool.false_eq_true, if_false,
    Session.submitWithin_of_execute he]

/-- A request to leave ends the session as it is. -/
theorem answer_of_exit {s : Session} {text : String}
    (hexit : MetaCommand.ofText? text = some .exit) :
    answerWithin patience false s text = ⟨s, [], true⟩ := by
  cases hblank : Text.allBlank text with
  | true =>
      rw [MetaCommand.ofText?_of_allBlank hblank] at hexit
      cases hexit
  | false => simp only [answerWithin, hblank, hexit, Bool.false_eq_true, if_false]

/-- The editor sets no limits where there were none. -/
theorem session_answerWithin (patience : Nat) (t : Tape) (text : String) :
    ∃ t', (answerWithin patience false (.unlimited timeoutMs jumps t) text).session
      = .unlimited timeoutMs jumps t' := by
  unfold answerWithin
  split
  · exact ⟨t, rfl⟩
  · split
    · exact ⟨t, rfl⟩
    · exact ⟨t, rfl⟩
    · exact ⟨.blank, rfl⟩
    · exact ⟨t, rfl⟩
    · exact Session.submitWithin_unlimited timeoutMs jumps t

/-- No visit finds a limit if the first does not. -/
theorem unlimited_of_mem_visits {lines : List String} {t : Tape} {v : Visit}
    (h : v ∈ visits patience (.unlimited timeoutMs jumps t) lines) :
    ∃ t', v.session = .unlimited timeoutMs jumps t' := by
  induction lines generalizing t with
  | nil => exact nomatch h
  | cons text rest ih =>
      rcases List.mem_cons.mp h with rfl | h
      · exact ⟨t, rfl⟩
      · obtain ⟨t', ht'⟩ := session_answerWithin patience t text
        split at h
        · exact nomatch h
        · exact ih (ht' ▸ h)

/-- If the submission is a program, it is balanced and ends while the editor
    waits for it. -/
def Visit.Ends (patience : Nat) (v : Visit) : Prop :=
  v.isProgram = true → Balanced v.text.toList ∧ ∃ e, v.execution? patience = some e

/-- A visit that is neither a program nor a reset adds nothing to what is
    heard. -/
theorem hear_of_idle {v : Visit} (hprogram : v.isProgram = false) (hreset : v.isReset = false)
    (outs : List String) : hear patience outs v = outs := by
  simp [hear, hreset, Visit.output?, hprogram]

/-- One submission, unless it ends the session: the script with its line
    still gives the editor's tape and what is heard. -/
theorem answer_agrees {t : Tape} {text : String} {script : Script} {outs : List String}
    (hexit : MetaCommand.ofText? text ≠ some .exit)
    (hends : Visit.Ends patience ⟨.unlimited timeoutMs jumps t, text⟩)
    (h : Evaluates script.program.toList Tape.blank (String.join outs).toList t) :
    ∃ (t' : Tape) (written : List Emission) (script' : Script),
      answerWithin patience false (.unlimited timeoutMs jumps t) text
          = ⟨.unlimited timeoutMs jumps t', written, false⟩ ∧
        (∀ rest, script.addLines (Text.chomped text :: rest) = script'.addLines rest) ∧
        Evaluates script'.program.toList Tape.blank
          (String.join (hear patience outs ⟨.unlimited timeoutMs jumps t, text⟩)).toList t' := by
  cases hblank : Text.allBlank text with
  | true =>
      -- the editor passes the line over, and the script takes it as a comment
      have hmeta := MetaCommand.ofText?_of_allBlank hblank
      refine ⟨t, [], _, ?_, Script.addLines_of_text hmeta script, ?_⟩
      · rw [answerWithin, if_pos hblank]
      · rw [hear_of_idle (by simp [Visit.isProgram, hblank]) (by simp [Visit.isReset, hmeta])]
        have hall := h.add_line ((evaluates_of_allBlank hblank).mpr ⟨rfl, rfl⟩)
        rwa [List.append_nil] at hall
  | false =>
      cases hmeta : MetaCommand.ofText? text with
      | none =>
          have hprogram : Visit.isProgram ⟨.unlimited timeoutMs jumps t, text⟩ = true := by
            simp [Visit.isProgram, hblank, hmeta]
          -- the line is evaluated behind the script as the editor runs it alone
          obtain ⟨hbal, e, he⟩ := hends hprogram
          obtain ⟨out, hout, hreturns⟩ := returns_of_execute hbal he
          have hanswer := answer_of_program hprogram he
          refine ⟨e.tape, _, _, hanswer, Script.addLines_of_text hmeta script, ?_⟩
          have hhear : hear patience outs ⟨.unlimited timeoutMs jumps t, text⟩
              = outs ++ [out] := by
            simp [hear, Visit.isReset, hmeta, Visit.output?, hprogram, he, hout, Except.toOption]
          have hjoin : (String.join (outs ++ [out])).toList
              = (String.join outs).toList ++ out.toList := by simp
          rw [hhear, hjoin]
          exact h.add_line (returns_iff_evaluates.mp hreturns)
      | some command =>
          have hprogram : Visit.isProgram ⟨.unlimited timeoutMs jumps t, text⟩ = false := by
            simp [Visit.isProgram, hmeta]
          cases command with
          | exit => exact absurd hmeta hexit
          | help =>
              refine ⟨t, [.err (MetaCommand.helpText ++ "\n")], { script with showHelp := true },
                ?_, ?_, ?_⟩
              · simp [answerWithin, hblank, hmeta]
              · intro rest
                rw [Script.addLines, MetaCommand.ofText?_chomped, hmeta]
              · rw [hear_of_idle hprogram (by simp [Visit.isReset, hmeta])]
                exact h
          | tape =>
              refine ⟨t, Session.tell (.unlimited timeoutMs jumps t),
                { script with showTape := true }, ?_, ?_, ?_⟩
              · simp [answerWithin, hblank, hmeta]
              · intro rest
                rw [Script.addLines, MetaCommand.ofText?_chomped, hmeta]
              · rw [hear_of_idle hprogram (by simp [Visit.isReset, hmeta])]
                exact h
          | reset =>
              refine ⟨.blank, [.err "tape reset\n"], { script with program := "" }, ?_, ?_, ?_⟩
              · simp [answerWithin, hblank, hmeta, Session.reset, Session.unlimited]
              · intro rest
                rw [Script.addLines, MetaCommand.ofText?_chomped, hmeta]
              · rw [hear, if_pos (by simp [Visit.isReset, hmeta])]
                exact .nil _

/-- As long as every program ends, evaluating the text of the script from a
    fresh tape gives the editor's tape and what it has printed since the
    last reset. -/
theorem addLines_agrees {lines : List String} {t : Tape} {script : Script} {outs : List String}
    (hends : ∀ v ∈ visits patience (.unlimited timeoutMs jumps t) lines, v.Ends patience)
    (h : Evaluates script.program.toList Tape.blank (String.join outs).toList t) :
    Evaluates (script.addLines (lines.map Text.chomped)).program.toList Tape.blank
      (String.join (heard patience outs
        (visits patience (.unlimited timeoutMs jumps t) lines))).toList
      (lastSession patience (.unlimited timeoutMs jumps t) lines).tape := by
  induction lines generalizing t script outs with
  | nil => exact h
  | cons text rest ih =>
      by_cases hexit : MetaCommand.ofText? text = some .exit
      · -- both stop here, whatever follows
        have hidle : hear patience outs ⟨.unlimited timeoutMs jumps t, text⟩ = outs :=
          hear_of_idle (by simp [Visit.isProgram, hexit]) (by simp [Visit.isReset, hexit]) outs
        rw [List.map_cons, Script.addLines, MetaCommand.ofText?_chomped, hexit]
        simp only [visits, lastSession, answer_of_exit hexit, if_true, heard_cons, hidle]
        exact h
      · have hfirst := hends ⟨.unlimited timeoutMs jumps t, text⟩ List.mem_cons_self
        obtain ⟨t', written, script', hanswer, hadd, h'⟩ := answer_agrees hexit hfirst h
        obtain ⟨hvisits, hlast⟩ := course_of_answer hanswer rest
        rw [hvisits] at hends
        rw [List.map_cons, hadd, hvisits, hlast, heard_cons]
        exact ih (fun v hv => hends v (List.mem_cons_of_mem _ hv)) h'

/-! ## Waiting longer -/

/-- Who waits longer for a submission that ends gets the same answer. -/
theorem answerWithin_mono {more : Nat} (hle : patience ≤ more) {s : Session} {text : String}
    (hends : Visit.Ends patience ⟨s, text⟩) :
    answerWithin more false s text = answerWithin patience false s text := by
  cases hprogram : Visit.isProgram ⟨s, text⟩ with
  | true =>
      obtain ⟨-, e, he⟩ := hends hprogram
      have hsubmit : s.submitWithin more text = s.submitWithin patience text := by
        have hmore : executeWithin more s.limits.maxSteps s.watch text s.tape = some e :=
          execute_mono hle he
        have hless : executeWithin patience s.limits.maxSteps s.watch text s.tape = some e := he
        rw [Session.submitWithin, Session.submitWithin, hmore, hless]
      rw [answerWithin, answerWithin, hsubmit]
  | false =>
      unfold answerWithin
      cases hblank : Text.allBlank text with
      | true => rw [if_pos rfl, if_pos rfl]
      | false =>
          cases hmeta : MetaCommand.ofText? text with
          | some command => cases command <;> rfl
          | none => simp [Visit.isProgram, hblank, hmeta] at hprogram

/-- Who waits longer for submissions that all end sees the same course. -/
theorem course_mono {more : Nat} (hle : patience ≤ more) {s : Session} {lines : List String}
    (hends : ∀ v ∈ visits patience s lines, v.Ends patience) :
    visits more s lines = visits patience s lines ∧
      lastSession more s lines = lastSession patience s lines := by
  induction lines generalizing s with
  | nil => exact ⟨rfl, rfl⟩
  | cons text rest ih =>
      have hanswer := answerWithin_mono hle (hends ⟨s, text⟩ List.mem_cons_self)
      simp only [visits, lastSession, hanswer] at hends ⊢
      by_cases hstop : (answerWithin patience false s text).ends = true
      · simp [hstop]
      · simp only [hstop] at hends ⊢
        have := ih fun v hv => hends v (List.mem_cons_of_mem _ hv)
        exact ⟨congrArg _ this.1, this.2⟩

theorem Visit.Ends.mono {more : Nat} (hle : patience ≤ more) {v : Visit} (h : v.Ends patience) :
    v.Ends more := by
  intro hprogram
  obtain ⟨hbal, e, he⟩ := h hprogram
  exact ⟨hbal, e, execute_mono hle he⟩

/-- The outputs of the programs since the last reset. -/
def outputs (patience : Nat) (s : Session) (lines : List String) : List String :=
  ((visits patience s lines).rtakeWhile (fun v => !v.isReset)).filterMap (Visit.output? patience)

theorem Visit.Ends.output?_mono {more : Nat} (hle : patience ≤ more) {v : Visit}
    (h : v.Ends patience) : v.output? more = v.output? patience := by
  unfold Visit.output?
  split
  · rename_i hprogram
    obtain ⟨-, e, he⟩ := h hprogram
    have hmore : v.execution? more = some e := execute_mono hle he
    rw [he, hmore]
  · rfl

theorem outputs_mono {more : Nat} (hle : patience ≤ more) {s : Session} {lines : List String}
    (hends : ∀ v ∈ visits patience s lines, v.Ends patience) :
    outputs more s lines = outputs patience s lines := by
  rw [outputs, outputs, (course_mono hle hends).1]
  refine List.filterMap_congr ?_
  intro v hv
  exact (hends v ((List.rtakeWhile_suffix _ _).mem hv)).output?_mono hle

/-- A program that ends prints its output and a newline. -/
theorem Visit.Ends.stdout_written {v : Visit} {t : Tape} (h : v.Ends patience)
    (hs : v.session = .unlimited timeoutMs jumps t) (hprogram : v.isProgram = true) :
    ∃ out, v.output? patience = some out ∧
      Emission.stdout (v.written patience) = out ++ "\n" := by
  obtain ⟨hbal, e, he⟩ := h hprogram
  have hfree : execute patience {} { jumps } v.text t = some e := by
    rw [Visit.execution?, hs] at he
    exact he
  obtain ⟨out, hout, -⟩ := returns_of_execute hbal hfree
  refine ⟨out, ?_, ?_⟩
  · simp [Visit.output?, hprogram, he, hout, Except.toOption]
  · rw [Visit.written, answer_of_program hprogram he]
    exact Session.stdout_told hout

end Editor

/-! ## The script -/

namespace Script

/-- A text that is not empty is read as it is. -/
theorem submission?_toUTF8 {text : String} (hempty : text.isEmpty = false) :
    submission? text.toUTF8 = some text := by
  have hread : String.fromUTF8? text.toUTF8 = some text := dif_pos text.isValidUTF8
  simp only [submission?, hread, hempty, Bool.false_eq_true, if_false]

theorem submission?_unlines {lines : List String} (hne : lines ≠ []) :
    submission? (Text.unlines lines).toUTF8 = some (Text.unlines lines) := by
  refine submission?_toUTF8 ?_
  cases lines with
  | nil => exact absurd rfl hne
  | cons line rest => simp [Text.unlines]

/-- A script whose program evaluates leaves the tape and prints the output
    that evaluating it gives, unless it is blank and not run at all. -/
theorem performWithin_of_evaluates {script : Script} {t : Tape} {out : String}
    (h : Evaluates script.program.toList Tape.blank out.toList t) (timeoutMs : Nat)
    (jumps : Option (List Event)) :
    ∃ enough, ∀ waits, enough ≤ waits →
      (script.performWithin waits (.unlimited timeoutMs jumps .blank)).1
          = .unlimited timeoutMs jumps t ∧
        Emission.stdout (script.performWithin waits (.unlimited timeoutMs jumps .blank)).2
          = out ++ if Text.allBlank script.program then "" else "\n" := by
  cases hblank : Text.allBlank script.program with
  | true =>
      obtain ⟨hout, rfl⟩ := (evaluates_of_allBlank hblank).mp h
      refine ⟨0, fun waits _ => ?_⟩
      rw [performWithin, if_pos hblank, String.toList_eq_nil_iff.mp hout]
      exact ⟨rfl, rfl⟩
  | false =>
      obtain ⟨enough, henough⟩ := (returns_iff_evaluates.mpr h).execute jumps
      refine ⟨enough, fun waits hwaits => ?_⟩
      obtain ⟨e, he, hout, rfl⟩ := henough waits hwaits
      have hsubmit := Session.submitWithin_of_execute
        (s := .unlimited timeoutMs jumps .blank) he
      simp only [performWithin, hblank, hsubmit]
      exact ⟨rfl, Session.stdout_told hout⟩

/-- Beside its program a script prints nothing. -/
theorem stdout_playWithin (waits : Nat) (session : Session) (text : String) :
    Emission.stdout (playWithin waits session text)
      = Emission.stdout ((parse text).performWithin waits session).2 := by
  simp only [playWithin, Session.tell]
  split <;> split <;> simp

end Script

/-- **A script does what the editor does with its lines.**  Let an editor
    without limits be fed lines, and let every program among those it gets
    to see be balanced and end.  For who waits long enough, the lines sent
    as one text are run as a script that leaves the editor's last tape, and
    it prints what the editor's programs have printed since the last reset,
    with one newline after all if there is a program at all. -/
theorem script_agrees_with_editor (timeoutMs : Nat) (jumps : Option (List Event))
    (lines : List String) (hne : lines ≠ []) (hlines : ∀ line ∈ lines, '\n' ∉ line.toList)
    (patience : Nat)
    (hends : ∀ v ∈ Editor.visits patience (.unlimited timeoutMs jumps) lines,
      v.isProgram = true → Balanced v.text.toList ∧ ∃ e, v.execution? patience = some e) :
    Script.submission? (Text.unlines lines).toUTF8 = some (Text.unlines lines) ∧
    ∃ enough, ∀ waits, enough ≤ waits →
      -- the editor writes about its visits, and each program prints its own output
      (Editor.playWithin waits false (.unlimited timeoutMs jumps) lines
          = (Editor.visits waits (.unlimited timeoutMs jumps) lines).map
              (Editor.Visit.written waits)
            ++ if (Editor.visits waits (.unlimited timeoutMs jumps) lines).any
                (fun v => (Editor.answerWithin waits false v.session v.text).ends) then []
              else [Editor.farewell]) ∧
      (∀ v ∈ Editor.visits waits (.unlimited timeoutMs jumps) lines,
        v.isProgram = true → ∃ out, v.output? waits = some out ∧
          Emission.stdout (v.written waits) = out ++ "\n") ∧
      -- the script leaves the same tape and prints the same
      ((Script.parse (Text.unlines lines)).performWithin waits
          (.unlimited timeoutMs jumps)).1.tape
        = (Editor.lastSession waits (.unlimited timeoutMs jumps) lines).tape ∧
      Emission.stdout (Script.playWithin waits (.unlimited timeoutMs jumps) (Text.unlines lines))
        = String.join (Editor.outputs waits (.unlimited timeoutMs jumps) lines)
          ++ if Text.allBlank (Script.parse (Text.unlines lines)).program then "" else "\n" := by
  refine ⟨Script.submission?_unlines hne, ?_⟩
  have hstart : Evaluates ({} : Script).program.toList Tape.blank (String.join []).toList
      Tape.blank := .nil _
  have hagrees := Editor.addLines_agrees hends hstart
  rw [← Text.lines_unlines hlines, Editor.heard_nil_eq] at hagrees
  obtain ⟨enough, henough⟩ := Script.performWithin_of_evaluates hagrees timeoutMs jumps
  refine ⟨max patience enough, fun waits hwaits => ?_⟩
  have hle : patience ≤ waits := le_trans (le_max_left patience enough) hwaits
  obtain ⟨hsession, hstdout⟩ := henough waits (le_trans (le_max_right patience enough) hwaits)
  obtain ⟨hvisits, hlast⟩ := Editor.course_mono hle hends
  refine ⟨Editor.playWithin_eq waits _ lines, ?_, ?_, ?_⟩
  · intro v hv hprogram
    obtain ⟨t, ht⟩ := Editor.unlimited_of_mem_visits hv
    rw [hvisits] at hv
    exact ((Editor.Visit.Ends.mono hle (hends v hv))).stdout_written ht hprogram
  · rw [hlast, Script.parse, hsession]
    rfl
  · rw [Script.stdout_playWithin, Editor.outputs_mono hle hends]
    exact hstdout

/-- The output before the reset is not printed, the carriage return and the
    blank line do not matter, and the bracket after the exit is not seen. -/
theorem script_agrees_with_editor_reset_and_exit :
    ∃ waits,
      ((Script.parse "+.\n:reset\n++.\r\n\n-.\n:exit\n]\n").performWithin waits
          (.unlimited 5000 none)).1.tape = ⟨[], 1, []⟩ ∧
      Emission.stdout (Script.playWithin waits (.unlimited 5000 none)
          "+.\n:reset\n++.\r\n\n-.\n:exit\n]\n") = "\x02\x01\n" := by
  have hends : ∀ v ∈ Editor.visits 5 (.unlimited 5000 none)
        ["+.", ":reset", "++.\r", "", "-.", ":exit", "]"],
      v.isProgram = true → Balanced v.text.toList ∧ ∃ e, v.execution? 5 = some e := by
    simp only [← Option.isSome_iff_exists]
    decide +kernel
  obtain ⟨-, enough, henough⟩ := script_agrees_with_editor 5000 none _
    (List.cons_ne_nil _ _) (by decide) 5 hends
  have htext : Text.unlines ["+.", ":reset", "++.\r", "", "-.", ":exit", "]"]
      = "+.\n:reset\n++.\r\n\n-.\n:exit\n]\n" := by decide +kernel
  rw [htext] at henough
  obtain ⟨-, -, htape, hout⟩ := henough (max 5 enough) (le_max_right 5 enough)
  rw [(Editor.course_mono (le_max_left 5 enough) hends).2] at htape
  rw [Editor.outputs_mono (le_max_left 5 enough) hends] at hout
  exact ⟨max 5 enough, htape.trans (by decide +kernel), hout.trans (by decide +kernel)⟩

end TapeMachine
