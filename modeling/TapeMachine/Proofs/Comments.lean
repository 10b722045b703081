import TapeMachine.Proofs.Blame
import TapeMachine.Proofs.Structured

/-! # Comments — characters that make no difference

    A character that is no command takes a step and does nothing else.
    Leaving such characters out moves every other character to a smaller
    position, and with it the jumps and the positions of errors; what
    the program does stays the same.

      * `eval_strip_iff`: a tree and the same tree without comments are
        evaluated alike.  The induction is on the tree; how often a loop
        goes round is dealt with once, in `Eval.loop_mono`.
      * `resolve_commandsOf`: the scan for brackets accepts and refuses
        alike, and blames the same bracket.  The induction is on the text
        that is left, and an open loop is known by the number of commands
        before it. -/

namespace TapeMachine

/-- Is this character a command? -/
def isCommand (c : Char) : Bool := ['>', '<', '+', '-', '.', '[', ']'].contains c

/-- The commands of a text, without its comments. -/
def commandsOf (text : List Char) : List Char := text.filter isCommand

/-- The number of commands before a position. -/
def commandsBefore (text : List Char) (ip : Nat) : Nat := (commandsOf (text.take ip)).length

theorem commandsOf_cons_of_command {c : Char} (hc : isCommand c = true) (text : List Char) :
    commandsOf (c :: text) = c :: commandsOf text :=
  List.filter_cons_of_pos hc

theorem commandsOf_cons_of_comment {c : Char} (hc : isCommand c = false) (text : List Char) :
    commandsOf (c :: text) = commandsOf text :=
  List.filter_cons_of_neg (by rw [hc]; exact Bool.false_ne_true)

theorem commandsOf_append (text text' : List Char) :
    commandsOf (text ++ text') = commandsOf text ++ commandsOf text' :=
  List.filter_append text text'

theorem isCommand_glyph (b : Bracket) : isCommand b.glyph = true := by
  cases b <;> decide

/-- A character that is no command is no bracket, and its instruction is a
    comment. -/
theorem ofPlain_of_comment {c : Char} (hc : isCommand c = false) :
    IsPlain c ∧ c ∉ ['>', '<', '+', '-', '.'] := by
  simp only [isCommand, List.contains_eq_mem, List.mem_cons, List.not_mem_nil, or_false,
    decide_eq_false_iff_not, not_or] at hc
  obtain ⟨h₁, h₂, h₃, h₄, h₅, hopen, hclose⟩ := hc
  refine ⟨⟨hopen, hclose⟩, ?_⟩
  simp only [List.mem_cons, List.not_mem_nil, or_false, not_or]
  exact ⟨h₁, h₂, h₃, h₄, h₅⟩

/-! ## Counting commands -/

section Counting

variable {text : List Char} {ip j : Nat} {c : Char}

/-- The text before the next position has one more character. -/
theorem commandsBefore_succ (h : text[ip]? = some c) :
    commandsBefore text (ip + 1) = commandsBefore text ip + (commandsOf [c]).length := by
  unfold commandsBefore
  rw [List.take_add_one, h, Option.toList_some, commandsOf_append, List.length_append]

theorem commandsBefore_succ_of_command (h : text[ip]? = some c) (hc : isCommand c = true) :
    commandsBefore text (ip + 1) = commandsBefore text ip + 1 := by
  rw [commandsBefore_succ h, commandsOf_cons_of_command hc]
  rfl

theorem commandsBefore_succ_of_comment (h : text[ip]? = some c) (hc : isCommand c = false) :
    commandsBefore text (ip + 1) = commandsBefore text ip := by
  rw [commandsBefore_succ h, commandsOf_cons_of_comment hc]
  rfl

/-- Further back there are no fewer commands before a position. -/
theorem commandsBefore_mono (text : List Char) (h : ip ≤ j) :
    commandsBefore text ip ≤ commandsBefore text j :=
  ((List.take_sublist_take_left h).filter isCommand).length_le

/-- Two commands with equally many commands before them are the same. -/
theorem commandsBefore_injective {d : Char} (h : text[ip]? = some c) (hc : isCommand c = true)
    (h' : text[j]? = some d) (hd : isCommand d = true)
    (heq : commandsBefore text ip = commandsBefore text j) : ip = j := by
  have hsucc := commandsBefore_succ_of_command h hc
  have hsucc' := commandsBefore_succ_of_command h' hd
  rcases Nat.lt_trichotomy ip j with hlt | rfl | hgt
  · have := commandsBefore_mono text (show ip + 1 ≤ j from hlt)
    omega
  · rfl
  · have := commandsBefore_mono text (show j + 1 ≤ ip from hgt)
    omega

end Counting

/-! ## Resolving -/

/-- A bracket of a text, found again among the commands of the text. -/
def Unmatched.among (text : List Char) (u : Unmatched) : Unmatched :=
  ⟨commandsBefore text u.position, u.bracket⟩

namespace Code

/-- Has the text been accepted, and if not, why? -/
def acceptance (r : Except Unmatched Code) : Except Unmatched Unit := r.map fun _ => ()

/-- The scan accepts the rest of a text exactly if it accepts the commands of
    this rest, and else blames the same bracket, if the loops left open are
    the same ones. -/
theorem resolve_commandsOf (full : List Char) {text : List Char} {pending : List Nat}
    {done done' : Code} (htext : full.drop done.size = text)
    (hdone' : done'.size = commandsBefore full done.size) :
    acceptance (resolve (commandsOf text) (pending.map (commandsBefore full)) done')
      = (acceptance (resolve text pending done)).mapError (Unmatched.among full) := by
  induction text generalizing pending done done' with
  | nil =>
      cases pending with
      | nil => rfl
      | cons start outer => rfl
  | cons c text ih =>
      obtain ⟨hc, hrest⟩ := read_of_drop htext
      by_cases hcommand : isCommand c = true
      · -- both scans read the command, and both have read one more
        have hpush : ∀ i i', (done'.push i').size = commandsBefore full (done.push i).size := by
          intro i i'
          rw [Array.size_push, Array.size_push, commandsBefore_succ_of_command hc hcommand, hdone']
        rw [commandsOf_cons_of_command hcommand]
        by_cases hopen : c = '['
        · subst hopen
          rw [resolve_opening, resolve_opening, hdone', ← List.map_cons]
          exact ih (hrest _) (hpush _ _)
        · by_cases hclose : c = ']'
          · subst hclose
            cases pending with
            | nil =>
                show Except.error (Unmatched.mk done'.size .closing)
                  = Except.error (Unmatched.mk (commandsBefore full done.size) .closing)
                rw [hdone']
            | cons start outer =>
                rw [List.map_cons, resolve_closing, resolve_closing]
                exact ih (hrest _) (hpush _ _)
          · rw [resolve_plain ⟨hopen, hclose⟩, resolve_plain ⟨hopen, hclose⟩]
            exact ih (hrest _) (hpush _ _)
      · -- only the scan of the whole text takes notice
        have hcomment := Bool.not_eq_true _ ▸ hcommand
        rw [commandsOf_cons_of_comment hcomment, resolve_plain (ofPlain_of_comment hcomment).1]
        refine ih (hrest _) ?_
        rw [Array.size_push, commandsBefore_succ_of_comment hc hcomment, hdone']

/-- A text and its commands are accepted and refused alike. -/
theorem ofChars_commandsOf (text : List Char) :
    acceptance (ofChars (commandsOf text))
      = (acceptance (ofChars text)).mapError (Unmatched.among text) :=
  @resolve_commandsOf text text [] #[] #[] rfl rfl

theorem acceptance_eq_error_iff {r : Except Unmatched Code} {u : Unmatched} :
    acceptance r = .error u ↔ r = .error u := by
  cases r <;> simp [acceptance, Except.map]

/-- The commands of a text are refused exactly if the text is, and for the
    same bracket. -/
theorem ofChars_commandsOf_eq_error_iff {text : List Char} {v : Unmatched} :
    ofChars (commandsOf text) = .error v ↔ ∃ u, ofChars text = .error u ∧ u.among text = v := by
  rw [← acceptance_eq_error_iff, ofChars_commandsOf]
  cases ofChars text with
  | ok code => simp [acceptance, Except.map, Except.mapError]
  | error u => simp [acceptance, Except.map, Except.mapError]

/-- A text is refused for one of its brackets exactly if its commands are
    refused for this bracket. -/
theorem ofChars_eq_error_iff {text : List Char} {u : Unmatched} :
    ofChars text = .error u ↔
      text[u.position]? = some u.bracket.glyph ∧
        ofChars (commandsOf text) = .error (u.among text) := by
  constructor
  · intro h
    exact ⟨ofChars_blames h, ofChars_commandsOf_eq_error_iff.mpr ⟨u, h, rfl⟩⟩
  · rintro ⟨hglyph, h⟩
    obtain ⟨u', htext, hamong⟩ := ofChars_commandsOf_eq_error_iff.mp h
    -- among the commands the two brackets are the same, so they are in the text
    obtain ⟨hposition, hbracket⟩ := Unmatched.mk.inj hamong
    have hsame := commandsBefore_injective (ofChars_blames htext) (isCommand_glyph _) hglyph
      (isCommand_glyph _) hposition
    obtain ⟨position, bracket⟩ := u
    obtain ⟨position', bracket'⟩ := u'
    obtain rfl : position' = position := hsame
    obtain rfl : bracket' = bracket := hbracket
    exact htext

/-- A text is balanced unless it is refused. -/
theorem balanced_iff_not_error {text : List Char} :
    Balanced text ↔ ¬ ∃ u, ofChars text = .error u := by
  rw [← ofChars_isOk_iff]
  cases ofChars text <;> simp

end Code

theorem balanced_commandsOf_iff {text : List Char} :
    Balanced (commandsOf text) ↔ Balanced text := by
  rw [Code.balanced_iff_not_error, Code.balanced_iff_not_error]
  refine not_congr ⟨?_, ?_⟩
  · rintro ⟨v, hv⟩
    obtain ⟨u, hu, -⟩ := Code.ofChars_commandsOf_eq_error_iff.mp hv
    exact ⟨u, hu⟩
  · rintro ⟨u, hu⟩
    exact ⟨_, Code.ofChars_commandsOf_eq_error_iff.mpr ⟨u, hu, rfl⟩⟩

/-! ## Evaluating -/

variable {M : Type} [Memory M]

/-- A loop may be evaluated with another body and another rest, if these
    do what the first ones do. -/
theorem Eval.loop_mono {body body' rest rest' : Block} {m m' : M} {out : List Char}
    (hbody : ∀ {m m' : M} {out}, Eval body m out m' → Eval body' m out m')
    (hrest : ∀ {m m' : M} {out}, Eval rest m out m' → Eval rest' m out m')
    (h : Eval (.loop body rest) m out m') : Eval (.loop body' rest') m out m' := by
  generalize hb : Block.loop body rest = b at h
  induction h with
  | loopDone hfirst hz hlast _ _ =>
      obtain ⟨rfl, rfl⟩ := Block.loop.inj hb
      exact .loopDone (hbody hfirst) hz (hrest hlast)
  | loopAgain hfirst hnz _ _ ih =>
      obtain ⟨rfl, rfl⟩ := Block.loop.inj hb
      exact .loopAgain (hbody hfirst) hnz (ih rfl)
  | _ => exact nomatch hb

namespace Block

/-- A tree without its comments. -/
def strip : Block → Block
  | .nil => .nil
  | .plain c h rest => if isCommand c then .plain c h rest.strip else rest.strip
  | .loop body rest => .loop body.strip rest.strip

/-- What is left of the text of a tree is its commands. -/
theorem chars_strip (b : Block) : b.strip.chars = commandsOf b.chars := by
  induction b with
  | nil => rfl
  | plain c h rest ih =>
      rw [strip, chars]
      by_cases hc : isCommand c = true
      · rw [if_pos hc, chars, ih, commandsOf_cons_of_command hc]
      · rw [if_neg hc, ih, commandsOf_cons_of_comment (Bool.not_eq_true _ ▸ hc)]
  | loop body rest ihb ihr =>
      rw [strip, chars, chars, ihb, ihr, List.cons_append, List.cons_append,
        commandsOf_cons_of_command (by decide), commandsOf_append,
        commandsOf_cons_of_command (by decide)]

end Block

/-- Without its comments a tree is evaluated as with them. -/
theorem eval_strip_iff {b : Block} {m m' : M} {out : List Char} :
    Eval b.strip m out m' ↔ Eval b m out m' := by
  induction b generalizing m m' out with
  | nil => exact Iff.rfl
  | plain c h rest ih =>
      rw [Block.strip]
      by_cases hc : isCommand c = true
      · rw [if_pos hc, eval_plain_iff, eval_plain_iff]
        simp only [ih]
      · rw [if_neg hc, ih, eval_plain_iff,
          Instr.ofPlain_comment (ofPlain_of_comment (Bool.not_eq_true _ ▸ hc)).2]
        constructor
        · intro he
          exact ⟨out, rfl, he⟩
        · rintro ⟨out', rfl, he⟩
          exact he
  | loop body rest ihb ihr =>
      rw [Block.strip]
      exact ⟨Eval.loop_mono ihb.mp ihr.mp, Eval.loop_mono ihb.mpr ihr.mpr⟩

/-- The commands of a text are evaluated as the text is. -/
theorem evaluates_commandsOf_iff {text : List Char} {m m' : M} {out : List Char} :
    Evaluates (commandsOf text) m out m' ↔ Evaluates text m out m' := by
  constructor
  · rintro ⟨b', hb', heval⟩
    have hbal : Balanced text := balanced_commandsOf_iff.mp (hb' ▸ b'.balanced_chars)
    obtain ⟨b, hparse⟩ := Block.parse_isSome_of_balanced hbal
    obtain rfl := Block.parse_eq_some_iff.mp hparse
    obtain rfl := Block.chars_injective (hb'.trans b.chars_strip.symm)
    exact ⟨b, rfl, eval_strip_iff.mp heval⟩
  · rintro ⟨b, rfl, heval⟩
    exact ⟨b.strip, b.chars_strip, eval_strip_iff.mpr heval⟩

/-! ## Executing -/

/-- Executing a program without limit ends with this fault and this tape. -/
def Fails (text : String) (t : Tape) (fault : Fault) (t' : Tape) : Prop :=
  ∃ fuel e, execute fuel {} {} text t = some e ∧ e.result = .error fault ∧ e.tape = t'

variable {text : String} {t t' : Tape} {out : String}

/-- A program is refused for its brackets exactly if it does not resolve,
    and the tape is left as it was. -/
theorem fails_unmatched_iff {u : Unmatched} :
    Fails text t (.unmatched u) t' ↔ Code.ofText text = .error u ∧ t' = t := by
  cases hcode : Code.ofText text with
  | error v =>
      have hexec : ∀ fuel, execute fuel {} {} text t
          = some { tape := t, result := .error (.unmatched v) } := by
        intro fuel
        simp only [execute, hcode]
      constructor
      · rintro ⟨fuel, e, he, hresult, rfl⟩
        rw [hexec] at he
        obtain rfl := Option.some.inj he
        rw [Fault.unmatched.inj (Except.error.inj hresult)]
        exact ⟨rfl, rfl⟩
      · rintro ⟨hv, rfl⟩
        obtain rfl := Except.error.inj hv
        exact ⟨0, _, hexec 0, rfl, rfl⟩
  | ok code =>
      constructor
      · rintro ⟨fuel, e, he, hresult, -⟩
        rw [execute_of_resolved hcode] at he
        rcases code.reaches_of_run_free Watch.see_idle fuel (.start t) with
          ⟨n, s, -, -, -, ho⟩ | ⟨s, -, ho⟩
        · rw [ho] at he
          obtain rfl := Option.some.inj he
          cases hresult
        · rw [ho] at he
          cases he
      · rintro ⟨h, -⟩
        cases h

/-- Executing a program returns what evaluating its text gives. -/
theorem returns_iff_evaluates :
    Returns text t out t' ↔ Evaluates text.toList t out.toList t' := by
  constructor
  · intro h
    cases hcode : Code.ofText text with
    | ok code =>
        obtain ⟨b, hb, -⟩ := Code.exists_block hcode
        exact ⟨b, hb, (returns_iff_eval hb).mp h⟩
    | error u =>
        obtain ⟨fuel, e, he, hresult, -⟩ := h
        simp only [execute, hcode] at he
        obtain rfl := Option.some.inj he
        cases hresult
  · rintro ⟨b, hb, heval⟩
    exact (returns_iff_eval hb).mpr heval

/-- **Comments are free.**  A program returns what it returns without its
    comments.  It is refused for a bracket exactly if it is refused without
    its comments for the same bracket, which is then found by the number of
    commands before it.  That the bracket stands at `ip` has to be said
    there: a comment in front of the bracket has as many commands before
    it.  Neither touches the tape. -/
theorem comments_are_free (text : String) (t : Tape) :
    let bare := String.ofList (commandsOf text.toList)
    (∀ out t', Returns text t out t' ↔ Returns bare t out t') ∧
    (∀ ip bracket t', Fails text t (.unmatched ⟨ip, bracket⟩) t' ↔
      text.toList[ip]? = some bracket.glyph ∧
        Fails bare t (.unmatched ⟨commandsBefore text.toList ip, bracket⟩) t') ∧
    (∀ position bracket t', Fails bare t (.unmatched ⟨position, bracket⟩) t' →
      ∃ ip, Fails text t (.unmatched ⟨ip, bracket⟩) t' ∧
        commandsBefore text.toList ip = position) ∧
    ∀ u t', Fails text t (.unmatched u) t' ∨ Fails bare t (.unmatched u) t' → t' = t := by
  intro bare
  have hbare : bare.toList = commandsOf text.toList := String.toList_ofList
  have hofText : Code.ofText bare = Code.ofChars (commandsOf text.toList) := by
    rw [Code.ofText, hbare]
  refine ⟨?_, ?_, ?_, ?_⟩
  · intro out t'
    rw [returns_iff_evaluates, returns_iff_evaluates, hbare, evaluates_commandsOf_iff]
  · intro ip bracket t'
    rw [fails_unmatched_iff, fails_unmatched_iff, hofText, ← and_assoc]
    exact and_congr_left fun _ => Code.ofChars_eq_error_iff
  · intro position bracket t' h
    rw [fails_unmatched_iff, hofText] at h
    obtain ⟨⟨ip, bracket'⟩, hu, hamong⟩ := Code.ofChars_commandsOf_eq_error_iff.mp h.1
    obtain ⟨hposition, rfl⟩ := Unmatched.mk.inj hamong
    exact ⟨ip, fails_unmatched_iff.mpr ⟨hu, h.2⟩, hposition⟩
  · rintro u t' (h | h)
    · exact (fails_unmatched_iff.mp h).2
    · exact (fails_unmatched_iff.mp h).2

end TapeMachine
