import TapeMachine.Proofs.Script.Agreement
import TapeMachine.Proofs.Script.Split
import TapeMachine.Proofs.Sifting

/-! # Newlines — what a script without meta commands runs

    A script is put together again from its lines, with a newline after
    each.  So a carriage return before a newline is lost, and a last line
    without a newline gets one.  Neither is a command, but both are
    characters, and every character is a place in the code and takes a
    step: a refusal may name another place, and a limit may be reached
    earlier or later.

      * `Text.toList_normalized`: what is put together, told by its
        characters.
      * `Text.endsAtCost_normalized`: what comes of it under a limit, told by
        the run of the text as it was given.
      * `Text.sameUnder_refused_iff`, `Text.sameUnder_limit_iff`: when the
        difference is not to be seen. -/

namespace TapeMachine

/-! ## The text put together -/

namespace Text

/-- Which characters of a text are kept: all but a carriage return before a
    newline. -/
def marks : List Char → List Bool
  | [] => []
  | c :: rest => (!(c == '\r' && rest.head? == some '\n')) :: marks rest

/-- A carriage return stands before a newline. -/
def Carriage (text : List Char) (i : Nat) : Prop := text[i]? = some '\r' ∧ text[i + 1]? = some '\n'

/-- What is added to a text: a newline, unless it is empty or ends with
    one. -/
def ending (text : List Char) : List Char :=
  if text.getLast?.all (· == '\n') then [] else ['\n']

/-- A text put together from its lines. -/
def normalized (text : String) : String := unlines (lines text)

variable {line text : List Char} {lines : List (List Char)} {i : Nat}

theorem length_marks (text : List Char) : (marks text).length = text.length := by
  induction text with
  | nil => rfl
  | cons c text ih => rw [marks, List.length_cons, List.length_cons, ih]

/-- What is lost is a carriage return before a newline. -/
theorem getElem?_marks_iff : (marks text)[i]? = some false ↔ Carriage text i := by
  induction text generalizing i with
  | nil => simp [marks, Carriage]
  | cons c text ih =>
      cases i with
      | zero => simp [marks, Carriage, List.head?_eq_getElem?]
      | succ i => exact ih

theorem sieve_marks (text : List Char) : Sieve text (marks text) where
  length := length_marks text
  comment i c hmark hc := by
    rw [(getElem?_marks_iff.mp hmark).1] at hc
    obtain rfl := Option.some.inj hc
    decide

theorem marks_of_ne {c : Char} (hc : text[i]? = some c) (hne : c ≠ '\r') :
    (marks text)[i]? = some true := by
  have hlt : i < (marks text).length := by
    rw [length_marks]
    exact (List.getElem?_eq_some_iff.mp hc).1
  refine kept_of_not_lost hlt ?_
  intro hlost
  rw [(getElem?_marks_iff.mp hlost).1] at hc
  exact hne (Option.some.inj hc).symm

/-- The newline behind a carriage return that is lost is kept. -/
theorem marks_succ (h : (marks text)[i]? = some false) : (marks text)[i + 1]? = some true :=
  marks_of_ne (getElem?_marks_iff.mp h).2 (by decide)

/-- Of a line nothing is lost, unless a carriage return stands at its end. -/
theorem sift_line (hline : '\n' ∉ line) (rest : List Char)
    (hend : line.getLast? = some '\r' → rest.head? ≠ some '\n') :
    sift (line ++ rest) (marks (line ++ rest)) = line ++ sift rest (marks rest) := by
  induction line with
  | nil => rfl
  | cons c line ih =>
      rw [List.mem_cons, not_or] at hline
      obtain ⟨-, hline⟩ := hline
      have hmark : (c == '\r' && (line ++ rest).head? == some '\n') = false := by
        rw [Bool.and_eq_false_imp, beq_iff_eq]
        rintro rfl
        rw [beq_eq_false_iff_ne]
        cases line with
        | nil => exact hend rfl
        | cons d line =>
            intro hd
            obtain rfl : d = '\n' := Option.some.inj hd
            exact hline List.mem_cons_self
      have hend' : line.getLast? = some '\r' → rest.head? ≠ some '\n' := by
        intro hlast
        refine hend ?_
        rw [List.getLast?_cons, hlast]
        rfl
      rw [List.cons_append, marks, hmark]
      exact congrArg (c :: ·) (ih hline hend')

/-- What a text ends with does not depend on its first line. -/
theorem ending_append (line text : List Char) : ending (line ++ '\n' :: text) = ending text := by
  unfold ending
  rw [List.getLast?_append, List.getLast?_cons]
  cases text.getLast? <;> rfl

/-- Putting lines together keeps the text but for carriage returns, and adds
    an ending. -/
theorem LinesOf.flatMap_eq (h : LinesOf text lines) :
    lines.flatMap (· ++ ['\n']) = sift text (marks text) ++ ending text := by
  induction h with
  | none => rfl
  | @last line hne hline =>
      have hsift := sift_line hline [] (fun _ => by simp)
      rw [List.append_nil] at hsift
      have hending : ending line = ['\n'] := by
        refine if_neg ?_
        rw [List.getLast?_eq_some_getLast hne, Option.all_some, beq_iff_eq]
        intro hlast
        exact hline (hlast ▸ List.getLast_mem hne)
      rw [hsift, hending]
      simp [sift]
  | @newline line text lines hline hret _ ih =>
      have hsift := sift_line hline ('\n' :: text) (fun hlast => absurd hlast hret)
      rw [hsift, ending_append, List.flatMap_cons, ih]
      simp [sift, marks]
  | @carriage line text lines hline _ ih =>
      have hsift := sift_line hline ('\r' :: '\n' :: text) (fun _ => by simp)
      rw [hsift, List.append_cons line, ending_append, List.flatMap_cons, ih]
      simp [sift, marks]

theorem toList_normalized (text : String) :
    (normalized text).toList = sift text.toList (marks text.toList) ++ ending text.toList := by
  have hjoin : (normalized text).toList
      = ((Text.lines text).map String.toList).flatMap (· ++ ['\n']) := by
    rw [normalized, unlines]
    induction Text.lines text with
    | nil => rfl
    | cons line rest ih => simp_all
  rw [hjoin]
  exact (linesOf_iff.mpr rfl).flatMap_eq

/-- The text put together, in two parts. -/
theorem normalized_eq (text : String) :
    normalized text
      = String.ofList (sift text.toList (marks text.toList))
        ++ String.ofList (ending text.toList) := by
  rw [← String.ofList_append, ← toList_normalized, String.ofList_toList]

/-- A text that is not blank is not made blank. -/
theorem allBlank_normalized {text : String} (h : allBlank text = false) :
    allBlank (normalized text) = false := by
  rw [← Bool.not_eq_true] at h ⊢
  intro hblank
  refine h (List.all_eq_true.mpr ?_)
  intro c hc
  by_cases hcr : c = '\r'
  · rw [hcr]
    decide
  · obtain ⟨i, hi⟩ := List.mem_iff_getElem?.mp hc
    have hkept : (sift text.toList (marks text.toList))[place (marks text.toList) i]? = some c := by
      rw [getElem?_sift (marks_of_ne hi hcr), hi]
    have hmem : c ∈ (normalized text).toList := by
      rw [toList_normalized]
      exact List.mem_append_left _ (List.mem_of_getElem? hkept)
    exact List.all_eq_true.mp hblank c hmem

end Text

/-! ## Scripts without meta commands -/

namespace Script

variable {text : String}

/-- A script without meta commands is put together from its lines. -/
theorem parse_of_text (h : ∀ line ∈ Text.lines text, MetaCommand.isText line = true) :
    parse text = { program := Text.normalized text } := by
  have hword : ∀ line ∈ Text.lines text, ∀ command, MetaCommand.standsIn command line = false := by
    intro line hline command
    exact MetaCommand.standsIn_of_text (MetaCommand.ofText?_eq_none_iff.mpr (h line hline)) command
  have hheeded : heeded (Text.lines text) = Text.lines text := by
    refine List.takeWhile_eq_self_iff.mpr fun line hline => ?_
    rw [hword line hline]
    rfl
  have hkept : kept (Text.lines text) = Text.lines text := by
    rw [kept, hheeded]
    refine List.rtakeWhile_eq_self_iff.mpr fun line hline => ?_
    rw [hword line hline]
    rfl
  have hany : ∀ command, (Text.lines text).any (MetaCommand.standsIn command) = false := by
    intro command
    rw [List.any_eq_false]
    intro line hline
    rw [hword line hline]
    exact Bool.false_ne_true
  rw [parse_eq, hheeded, hkept, List.filter_eq_self.mpr h, hany, hany]
  rfl

theorem submission?_of_text (h : Text.allBlank text = false) :
    submission? text.toUTF8 = some text := by
  refine submission?_toUTF8 ?_
  rw [← Bool.not_eq_true, String.isEmpty_iff]
  rintro rfl
  cases h

/-- A script without meta commands is the submission of one program. -/
theorem performWithin_of_text (hblank : Text.allBlank text = false)
    (h : ∀ line ∈ Text.lines text, MetaCommand.isText line = true) (patience : Nat)
    (session : Session) :
    (parse text).performWithin patience session
      = ((session.submitWithin patience (Text.normalized text)).1,
        .log (.runningScript (Text.normalized text).length)
          :: (session.submitWithin patience (Text.normalized text)).2) := by
  rw [parse_of_text h, performWithin]
  simp only [Text.allBlank_normalized hblank, Bool.false_eq_true, if_false]

theorem playWithin_of_text
    (h : ∀ line ∈ Text.lines text, MetaCommand.isText line = true) (patience : Nat)
    (session : Session) :
    playWithin patience session text = ((parse text).performWithin patience session).2 := by
  rw [playWithin, parse_of_text h]
  simp

end Script

/-! ## Executions under the same limit -/

section Executions

variable {p q text : String} {t t' t'' : Tape} {n : Nat} {limit : Option Nat}
  {jumps : Option (List Event)} {result result' : Except Fault String}

/-- Executing a program, under a limit if there is one, comes to this result
    and this tape. -/
def ComesTo (limit : Option Nat) (jumps : Option (List Event)) (text : String) (t : Tape)
    (result : Except Fault String) (t' : Tape) : Prop :=
  ∃ fuel e, execute fuel { limit } { jumps } text t = some e ∧ e.result = result ∧ e.tape = t'

/-- Executing two programs comes to the same, or to nothing both times. -/
def SameUnder (limit : Option Nat) (p q : String) (t : Tape) : Prop :=
  ∀ jumps result t', ComesTo limit jumps p t result t' ↔ ComesTo limit jumps q t result t'

theorem comesTo_refused_iff {u : Unmatched} (h : Code.ofText text = .error u) :
    ComesTo limit jumps text t result t' ↔ result = .error (.unmatched u) ∧ t' = t := by
  have hexec : ∀ fuel, execute fuel { limit } { jumps } text t
      = some { tape := t, result := .error (.unmatched u) } := by
    intro fuel
    simp only [execute, h]
  constructor
  · rintro ⟨fuel, e, he, rfl, rfl⟩
    rw [hexec] at he
    obtain rfl := Option.some.inj he
    exact ⟨rfl, rfl⟩
  · rintro ⟨rfl, rfl⟩
    exact ⟨0, _, hexec 0, rfl, rfl⟩

theorem Balanced.comesTo_iff (h : Balanced text.toList) :
    ComesTo none jumps text t result t' ↔ ∃ out, result = .ok out ∧ Returns text t out t' := by
  constructor
  · rintro ⟨fuel, e, he, rfl, rfl⟩
    exact returns_of_execute h he
  · rintro ⟨out, rfl, hret⟩
    obtain ⟨enough, henough⟩ := hret.execute jumps
    obtain ⟨e, he, hresult, htape⟩ := henough enough (Nat.le_refl enough)
    exact ⟨enough, e, he, hresult, htape⟩

theorem EndsUnder.comesTo_iff (h : EndsUnder n text t result t') :
    ComesTo (some n) jumps text t result' t'' ↔ result' = result ∧ t'' = t' := by
  obtain ⟨e, he, rfl, rfl⟩ := h jumps (n + 1) (Nat.lt_succ_self n)
  constructor
  · rintro ⟨fuel, e', he', rfl, rfl⟩
    obtain rfl := execute_unique he he'
    exact ⟨rfl, rfl⟩
  · rintro ⟨rfl, rfl⟩
    exact ⟨n + 1, e, he, rfl, rfl⟩

theorem EndsUnder.sameUnder_iff (hp : EndsUnder n p t result t')
    (hq : EndsUnder n q t result' t'') :
    SameUnder (some n) p q t ↔ result = result' ∧ t' = t'' := by
  constructor
  · intro hsame
    exact hq.comesTo_iff.mp ((hsame none result t').mp (hp.comesTo_iff.mpr ⟨rfl, rfl⟩))
  · rintro ⟨rfl, rfl⟩ jumps r s
    rw [hp.comesTo_iff, hq.comesTo_iff]

/-- Under a limit of `n` steps `p` ends as `text` does without limit, if the
    `k` steps of the latter cost at most `n`; otherwise it is stopped.  In
    both cases its tape is `t'`. -/
def EndsAtCost (text p : String) (cost : Nat → Nat) (t : Tape) (n : Nat) (t' : Tape) : Prop :=
  (∃ k out, ReturnsAfter text t k out t' ∧ cost k ≤ n ∧ EndsUnder n p t (.ok out) t') ∨
  ((∀ k out t'', ReturnsAfter text t k out t'' → n < cost k) ∧
    EndsUnder n p t (.error (.stepLimit n)) t')

/-- Two programs that end at some cost come to the same exactly if the costs
    allow the same and the tapes are the same. -/
theorem EndsAtCost.sameUnder_iff {cost cost' : Nat → Nat} (hp : EndsAtCost text p cost t n t')
    (hq : EndsAtCost text q cost' t n t'') :
    SameUnder (some n) p q t ↔
      (∀ k out t₁, ReturnsAfter text t k out t₁ → (cost k ≤ n ↔ cost' k ≤ n)) ∧ t' = t'' := by
  rcases hp with ⟨k, out, hret, hk, hp⟩ | ⟨hlate, hp⟩
  · rcases hq with ⟨k', out', hret', hk', hq⟩ | ⟨hlate', hq⟩
    · obtain ⟨rfl, rfl, rfl⟩ := hret.unique hret'
      refine iff_of_true ((hp.sameUnder_iff hq).mpr ⟨rfl, rfl⟩) ⟨?_, rfl⟩
      intro j o t₁ hj
      obtain ⟨rfl, -, -⟩ := hret.unique hj
      exact iff_of_true hk hk'
    · refine iff_of_false ?_ ?_
      · rw [hp.sameUnder_iff hq]
        rintro ⟨hresult, -⟩
        cases hresult
      · rintro ⟨hsame, -⟩
        exact Nat.not_lt_of_le ((hsame k out _ hret).mp hk) (hlate' k out _ hret)
  · rcases hq with ⟨k', out', hret', hk', hq⟩ | ⟨hlate', hq⟩
    · refine iff_of_false ?_ ?_
      · rw [hp.sameUnder_iff hq]
        rintro ⟨hresult, -⟩
        cases hresult
      · rintro ⟨hsame, -⟩
        exact Nat.not_lt_of_le ((hsame k' out' _ hret').mpr hk') (hlate k' out' _ hret')
    · rw [hp.sameUnder_iff hq]
      refine and_congr_left fun _ => iff_of_true rfl ?_
      intro k out t₁ hret
      exact iff_of_false (Nat.not_le_of_lt (hlate k out t₁ hret))
        (Nat.not_le_of_lt (hlate' k out t₁ hret))

end Executions

/-! ## The program under a limit -/

section Limits

variable {text : String} {code : Code} {t t' : Tape} {k n m : Nat} {out : String}

theorem ReturnsAfter.memory_after (h : ReturnsAfter text t k out t')
    (hcode : Code.ofText text = .ok code) (hle : k ≤ m) :
    (code.after m (.start t)).memory = t' := by
  obtain ⟨code', s, hcode', hr, hh, -, rfl⟩ := h
  obtain rfl : code = code' := Except.ok.inj (hcode.symm.trans hcode')
  rw [hr.after_of_halted hh hle]

theorem GoesOn.memory_after (h : GoesOn text t m t') (hcode : Code.ofText text = .ok code) :
    (code.after m (.start t)).memory = t' := by
  obtain ⟨code', s, i, hcode', hr, -, rfl⟩ := h
  obtain rfl : code = code' := Except.ok.inj (hcode.symm.trans hcode')
  rw [hr.after_eq]

/-- A program ends at the cost of its own steps. -/
theorem endsAtCost_self (hcode : Code.ofText text = .ok code) (t : Tape) (n : Nat) :
    EndsAtCost text text id t n (code.after n (.start t)).memory := by
  have hbal : Balanced text.toList := Code.ofChars_isOk_iff.mp ⟨code, hcode⟩
  rcases hbal.returns_or_goesOn t n with ⟨k, out, t', hk, hret⟩ | ⟨t', hon⟩
  · rw [hret.memory_after hcode hk]
    exact Or.inl ⟨k, out, hret, hk, hret.endsUnder hk⟩
  · rw [hon.memory_after hcode]
    refine Or.inr ⟨?_, hon.endsUnder⟩
    intro k out t'' hret
    exact hret.lt_of_goesOn hon

namespace Text

/-- The steps that the program put together from a text takes where the text
    takes `k`. -/
def cost (text : String) (code : Code) (t : Tape) (k : Nat) : Nat :=
  k - code.skips (marks text.toList) k (.start t) + (ending text.toList).length

theorem ending_cases (text : List Char) : ending text = [] ∨ ending text = ['\n'] := by
  unfold ending
  split
  · exact Or.inl rfl
  · exact Or.inr rfl

theorem length_ending_le (text : List Char) : (ending text).length ≤ 1 := by
  rcases ending_cases text with h | h <;> rw [h] <;> decide

theorem returnsAfter_ending (text : List Char) (t : Tape) :
    ReturnsAfter (String.ofList (ending text)) t (ending text).length "" t := by
  rcases ending_cases text with h | h
  · rw [h]
    exact ⟨#[], .start t, rfl, .refl _, rfl, rfl, rfl⟩
  · rw [h]
    exact ⟨#[.comment '\n'], _, rfl, .step rfl (.refl _), rfl, rfl, rfl⟩

theorem goesOn_ending {text : List Char} (h : 0 < (ending text).length) (t : Tape) :
    GoesOn (String.ofList (ending text)) t 0 t := by
  rcases ending_cases text with hend | hend
  · rw [hend] at h
    exact absurd h (Nat.lt_irrefl 0)
  · rw [hend]
    exact ⟨#[.comment '\n'], .start t, _, rfl, .refl _, rfl, rfl⟩

theorem returnsAfter_normalized (h : ReturnsAfter text t k out t')
    (hcode : Code.ofText text = .ok code) :
    ReturnsAfter (normalized text) t (cost text code t k) out t' := by
  have hall := (h.sifted (sieve_marks text.toList) hcode).append
    (returnsAfter_ending text.toList t')
  rw [← normalized_eq, String.append_empty] at hall
  exact hall

theorem goesOn_normalized (h : GoesOn text t m t') (hcode : Code.ofText text = .ok code) :
    GoesOn (normalized text) t (m - code.skips (marks text.toList) m (.start t)) t' := by
  rw [normalized_eq]
  exact (h.sifted (sieve_marks text.toList) hcode fun _ => marks_succ).extend
    (returnsAfter_ending text.toList t).balanced

/-- Where only the newline that was added is left, the program goes on. -/
theorem goesOn_newline (h : ReturnsAfter text t k out t') (hcode : Code.ofText text = .ok code)
    (hadded : 0 < (ending text.toList).length) :
    GoesOn (normalized text) t (k - code.skips (marks text.toList) k (.start t)) t' := by
  rw [normalized_eq]
  exact (goesOn_ending hadded t').append (h.sifted (sieve_marks text.toList) hcode)

/-- The program put together from a text ends at the cost of its steps, with
    the tape that the text has after as many more steps as are skipped. -/
theorem endsAtCost_normalized (hcode : Code.ofText text = .ok code)
    (hm : m = n + code.skips (marks text.toList) m (.start t)) :
    EndsAtCost text (normalized text) (cost text code t) t n (code.after m (.start t)).memory := by
  have hbal : Balanced text.toList := Code.ofChars_isOk_iff.mp ⟨code, hcode⟩
  have hsub : m - code.skips (marks text.toList) m (.start t) = n := by omega
  have hstopped : ∀ t', GoesOn (normalized text) t n t' →
      EndsAtCost text (normalized text) (cost text code t) t n t' := by
    intro t' hgo
    refine Or.inr ⟨?_, hgo.endsUnder⟩
    intro k out t'' hret
    exact (returnsAfter_normalized hret hcode).lt_of_goesOn hgo
  rcases hbal.returns_or_goesOn t m with ⟨k, out, t', hk, hret⟩ | ⟨t', hon⟩
  · rw [hret.memory_after hcode hk]
    by_cases hcost : cost text code t k ≤ n
    · exact Or.inl ⟨k, out, hret, hcost, (returnsAfter_normalized hret hcode).endsUnder hcost⟩
    · -- all is done but the newline
      have hmono := code.sub_skips_mono (marks text.toList) (.start t) hk
      have hlength := length_ending_le text.toList
      unfold cost at hcost
      have hgo := goesOn_newline hret hcode (by omega)
      rw [show k - code.skips (marks text.toList) k (.start t) = n from by omega] at hgo
      exact hstopped t' hgo
  · rw [hon.memory_after hcode]
    have hgo := goesOn_normalized hon hcode
    rw [hsub] at hgo
    exact hstopped t' hgo

end Text

end Limits

/-! ## Refusals -/

namespace Code

/-- Comments at the end of a text do not change why it is refused. -/
theorem ofChars_append_of_error {text tail : List Char} {u : Unmatched}
    (h : ofChars text = .error u) (htail : commandsOf tail = []) :
    ofChars (text ++ tail) = .error u := by
  rw [ofChars_eq_error_iff] at h ⊢
  obtain ⟨hget, hcommands⟩ := h
  have hlt := (List.getElem?_eq_some_iff.mp hget).1
  refine ⟨?_, ?_⟩
  · rw [List.getElem?_append_left hlt, hget]
  · rw [commandsOf_append, htail, List.append_nil, hcommands]
    unfold Unmatched.among commandsBefore
    rw [List.take_append_of_le_length hlt.le]

end Code

namespace Text

variable {text : String} {u : Unmatched}

theorem commandsOf_ending (text : List Char) : commandsOf (ending text) = [] := by
  rcases ending_cases text with h | h <;> rw [h] <;> decide

theorem commandsOf_normalized (text : String) :
    commandsOf (normalized text).toList = commandsOf text.toList := by
  rw [toList_normalized, commandsOf_append, commandsOf_ending, List.append_nil,
    (sieve_marks text.toList).commandsOf_sift]

/-- The program put together from a text is refused for the same bracket. -/
theorem ofText_normalized_of_error (h : Code.ofText text = .error u) :
    Code.ofText (normalized text) = .error (u.placed (place (marks text.toList))) := by
  have hsift : Code.ofChars (sift text.toList (marks text.toList))
      = .error (u.placed (place (marks text.toList))) := by
    rw [Code.ofChars_sift (sieve_marks text.toList),
      show Code.ofChars text.toList = .error u from h]
    rfl
  rw [Code.ofText, toList_normalized]
  exact Code.ofChars_append_of_error hsift (commandsOf_ending text.toList)

/-- A character keeps its place exactly if nothing before it is lost. -/
theorem place_marks_eq_iff {text : List Char} {i : Nat} (h : i ≤ text.length) :
    place (marks text) i = i ↔ ∀ j, j < i → ¬ Carriage text j := by
  have hlength : ((marks text).take i).length = i := by
    rw [List.length_take, length_marks, Nat.min_eq_left h]
  have hall : place (marks text) i = i ↔ ∀ b ∈ (marks text).take i, true = b := by
    rw [← List.count_eq_length, hlength, place]
  rw [hall]
  constructor
  · intro hkept j hj hlost
    have hget : ((marks text).take i)[j]? = some false := by
      rw [List.getElem?_take_of_lt hj]
      exact getElem?_marks_iff.mpr hlost
    cases hkept false (List.mem_of_getElem? hget)
  · intro hnone b hb
    obtain ⟨j, hj⟩ := List.mem_iff_getElem?.mp hb
    have hlt : j < i := hlength ▸ (List.getElem?_eq_some_iff.mp hj).1
    rw [List.getElem?_take_of_lt hlt] at hj
    cases b with
    | true => rfl
    | false => exact absurd (getElem?_marks_iff.mp hj) (hnone j hlt)

/-! ## What is not to be seen -/

variable {code : Code} {t : Tape} {n : Nat} {limit : Option Nat}

/-- A refusal is the same exactly if nothing before the bracket is lost. -/
theorem sameUnder_refused_iff (h : Code.ofText text = .error u) :
    SameUnder limit text (normalized text) t ↔
      ∀ i, i < u.position → ¬ Carriage text.toList i := by
  have hlt := (List.getElem?_eq_some_iff.mp (Code.ofChars_blames h)).1
  have hnormalized := ofText_normalized_of_error h
  rw [← place_marks_eq_iff hlt.le]
  constructor
  · intro hsame
    have hcomes : ComesTo limit none text t (.error (.unmatched u)) t :=
      (comesTo_refused_iff h).mpr ⟨rfl, rfl⟩
    obtain ⟨hfault, -⟩ := (comesTo_refused_iff hnormalized).mp ((hsame none _ t).mp hcomes)
    have hu : u = u.placed (place (marks text.toList)) :=
      Fault.unmatched.inj (Except.error.inj hfault)
    exact (congrArg Unmatched.position hu).symm
  · intro hplace jumps result t'
    have hu : u.placed (place (marks text.toList)) = u := by
      rw [Unmatched.placed, hplace]
    rw [comesTo_refused_iff h, comesTo_refused_iff hnormalized, hu]

/-- Without a limit nothing is to be seen of a text that is not refused. -/
theorem sameUnder_none (hcode : Code.ofText text = .ok code) (t : Tape) :
    SameUnder none text (normalized text) t := by
  have hbal : Balanced text.toList := Code.ofChars_isOk_iff.mp ⟨code, hcode⟩
  have hbal' : Balanced (normalized text).toList := by
    rwa [← balanced_commandsOf_iff, commandsOf_normalized, balanced_commandsOf_iff]
  intro jumps result t'
  rw [hbal.comesTo_iff, hbal'.comesTo_iff]
  refine exists_congr fun out => and_congr_right fun _ => ?_
  rw [returns_iff_evaluates, returns_iff_evaluates, ← evaluates_commandsOf_iff,
    ← commandsOf_normalized, evaluates_commandsOf_iff]

/-- Under a limit nothing is to be seen exactly if the text and the program
    end in time or not both, and the steps that make the difference leave
    the tape as it is. -/
theorem sameUnder_limit_iff (hcode : Code.ofText text = .ok code) :
    SameUnder (some n) text (normalized text) t ↔
      (∀ k out t', ReturnsAfter text t k out t' → (k ≤ n ↔ cost text code t k ≤ n)) ∧
      ∀ m, m = n + code.skips (marks text.toList) m (.start t) →
        (code.after n (.start t)).memory = (code.after m (.start t)).memory := by
  have hself := endsAtCost_self hcode t n
  obtain ⟨m₀, hm₀⟩ := (sieve_marks text.toList).exists_skips hcode (fun _ => marks_succ) n
    (State.start t)
  constructor
  · intro hsame
    refine ⟨((hself.sameUnder_iff (endsAtCost_normalized hcode hm₀)).mp hsame).1, ?_⟩
    intro m hm
    exact ((hself.sameUnder_iff (endsAtCost_normalized hcode hm)).mp hsame).2
  · rintro ⟨htime, htape⟩
    exact (hself.sameUnder_iff (endsAtCost_normalized hcode hm₀)).mpr ⟨htime, htape m₀ hm₀⟩

theorem skips_of_newlines {text : List Char} (h : ∀ i, ¬ Carriage text i) (code : Code) (n : Nat)
    (s : State Tape) : code.skips (marks text) n s = 0 := by
  rw [Code.skips, List.countP_eq_zero]
  intro k _ hlost
  exact h _ (getElem?_marks_iff.mp (beq_iff_eq.mp hlost))

/-- If no carriage return is lost, only a newline that is added and comes one
    step too late is to be seen. -/
theorem sameUnder_limit_iff_of_newlines (hcode : Code.ofText text = .ok code)
    (h : ∀ i, ¬ Carriage text.toList i) :
    SameUnder (some n) text (normalized text) t ↔
      ending text.toList = [] ∨ ¬ ∃ out t', ReturnsAfter text t n out t' := by
  rw [sameUnder_limit_iff hcode]
  simp only [cost, skips_of_newlines h, Nat.sub_zero, Nat.add_zero]
  constructor
  · rintro ⟨htime, -⟩
    refine (ending_cases text.toList).imp_right ?_
    rintro hadded ⟨out, t', hret⟩
    have := (htime n out t' hret).mp (Nat.le_refl n)
    rw [hadded, List.length_singleton] at this
    omega
  · intro hcases
    refine ⟨?_, fun m hm => hm ▸ rfl⟩
    intro k out t' hret
    rcases hcases with hnone | hnever
    · rw [hnone]
      rfl
    · have hk : k ≠ n := by
        rintro rfl
        exact hnever ⟨out, t', hret⟩
      have hlength := length_ending_le text.toList
      omega

end Text

/-- Where two programs come to the same, so do their submissions. -/
theorem SameUnder.submitWithin {p q : String} {limits : Limits} {jumps : Option (List Event)}
    {t : Tape} {patience : Nat} {e e' : Execution} (h : SameUnder limits.maxSteps p q t)
    (hp : executeWithin patience limits.maxSteps { jumps } p t = some e)
    (hq : executeWithin patience limits.maxSteps { jumps } q t = some e') :
    let session : Session := { tape := t, limits, watch := { jumps } }
    e.result = e'.result ∧
    (session.submitWithin patience p).1 = (session.submitWithin patience q).1 ∧
    Emission.stdout (session.submitWithin patience p).2
      = Emission.stdout (session.submitWithin patience q).2 := by
  intro session
  have hsame : e.result = e'.result ∧ e.tape = e'.tape := by
    obtain ⟨fuel, e'', he'', hresult, htape⟩ :=
      (h jumps e.result e.tape).mp ⟨patience, e, hp, rfl, rfl⟩
    obtain rfl := execute_unique he'' hq
    exact ⟨hresult.symm, htape.symm⟩
  obtain ⟨hresult, htape⟩ := hsame
  have hp' := Session.submitWithin_of_execute (s := session) hp
  have hq' := Session.submitWithin_of_execute (s := session) hq
  rw [hp', hq', htape]
  refine ⟨hresult, rfl, ?_⟩
  unfold Session.told
  rw [hresult]
  cases e'.result <;> simp

/-- **A script runs its text with other newlines.**  A text that is not blank
    and has no meta command in it is run, as a script, without the carriage
    returns before its newlines and with a newline at its end, and nothing
    else is done.  Run as it is, the text comes to the same result and the
    same tape, and so prints the same, except that

      * a refusal names another place exactly if a carriage return before the
        bracket is lost;
      * under a limit the two may part, and do so exactly if one of them ends
        in time and the other does not, or if the steps spent on carriage
        returns make a difference to the tape when both are stopped.  In a
        text without such carriage returns this means that it does not end
        with a newline and takes all the steps that the limit allows. -/
theorem script_runs_normalized_text (text : String) (hblank : Text.allBlank text = false)
    (hlines : ∀ line ∈ Text.lines text, MetaCommand.isText line = true) :
    let chars := text.toList
    let marks := Text.marks chars
    let program := Text.normalized text
    -- what is run
    Script.submission? text.toUTF8 = some text ∧
    program.toList = sift chars marks ++ Text.ending chars ∧
    (∀ (patience : Nat) (session : Session),
      let ran := session.submitWithin patience program
      (Script.parse text).performWithin patience session
          = (ran.1, .log (.runningScript program.length) :: ran.2) ∧
        Script.playWithin patience session text
          = .log (.runningScript program.length) :: ran.2) ∧
    -- what the same result and the same tape mean for a new session
    (∀ (limits : Limits) (jumps : Option (List Event)) (patience : Nat) (e e' : Execution),
      let session : Session := { limits, watch := { jumps } }
      SameUnder limits.maxSteps text program .blank →
      executeWithin patience limits.maxSteps { jumps } text .blank = some e →
      executeWithin patience limits.maxSteps { jumps } program .blank = some e' →
      e.result = e'.result ∧
        (session.submitWithin patience text).1
          = ((Script.parse text).performWithin patience session).1 ∧
        Emission.stdout (session.submitWithin patience text).2
          = Emission.stdout (Script.playWithin patience session text)) ∧
    -- when the text is refused
    (∀ u, Code.ofText text = .error u →
      Code.ofText program = .error ⟨place marks u.position, u.bracket⟩ ∧
      ∀ limit t, SameUnder limit text program t ↔
        ∀ i, i < u.position → ¬ Text.Carriage chars i) ∧
    -- when it is run
    ∀ code, Code.ofText text = .ok code → ∀ t,
      SameUnder none text program t ∧
      ∀ n,
        (SameUnder (some n) text program t ↔
          (∀ k out t', ReturnsAfter text t k out t' →
            (k ≤ n ↔ k - code.skips marks k (.start t) + (Text.ending chars).length ≤ n)) ∧
          ∀ m, m = n + code.skips marks m (.start t) →
            (code.after n (.start t)).memory = (code.after m (.start t)).memory) ∧
        ((∀ i, ¬ Text.Carriage chars i) →
          (SameUnder (some n) text program t ↔
            Text.ending chars = [] ∨ ¬ ∃ out t', ReturnsAfter text t n out t')) := by
  intro chars marks program
  have hperform := Script.performWithin_of_text hblank hlines
  have hplay := Script.playWithin_of_text hlines
  refine ⟨Script.submission?_of_text hblank, Text.toList_normalized text, ?_, ?_, ?_, ?_⟩
  · intro patience session
    refine ⟨hperform patience session, ?_⟩
    rw [hplay, hperform]
  · intro limits jumps patience e e' session hsame he he'
    obtain ⟨hresult, hsession, hstdout⟩ := hsame.submitWithin he he'
    refine ⟨hresult, ?_, ?_⟩
    · rw [hsession, hperform]
    · rw [hstdout, hplay, hperform, Emission.stdout_cons_log]
  · intro u hu
    exact ⟨Text.ofText_normalized_of_error hu, fun limit t => Text.sameUnder_refused_iff hu⟩
  · intro code hcode t
    refine ⟨Text.sameUnder_none hcode t, fun n => ⟨Text.sameUnder_limit_iff hcode, ?_⟩⟩
    intro hnewlines
    exact Text.sameUnder_limit_iff_of_newlines hcode hnewlines

/-- Behind a carriage return that is lost, a bracket has another place. -/
theorem script_runs_normalized_text_carriage :
    Text.allBlank "+\r\n]" = false ∧
    (∀ line ∈ Text.lines "+\r\n]", MetaCommand.isText line = true) ∧
    Code.ofText "+\r\n]" = .error ⟨3, .closing⟩ ∧
    Code.ofText (Text.normalized "+\r\n]") = .error ⟨2, .closing⟩ ∧
    ∀ t, ¬ SameUnder none "+\r\n]" (Text.normalized "+\r\n]") t := by
  have hblank : Text.allBlank "+\r\n]" = false := by decide
  have hlines : ∀ line ∈ Text.lines "+\r\n]", MetaCommand.isText line = true := by decide +kernel
  have hcode : Code.ofText "+\r\n]" = .error ⟨3, .closing⟩ := rfl
  obtain ⟨-, -, -, -, hrefused, -⟩ := script_runs_normalized_text "+\r\n]" hblank hlines
  obtain ⟨hplace, hsame⟩ := hrefused _ hcode
  refine ⟨hblank, hlines, hcode, hplace, ?_⟩
  intro t h
  exact (hsame none t).mp h 1 (by decide) ⟨rfl, rfl⟩

/-- With a newline added a program may take one step more than it is allowed:
    the text prints, and its script is stopped. -/
theorem script_stopped_by_added_newline :
    let session : Session := { limits := ⟨1000, some 2⟩ }
    Text.allBlank "+." = false ∧
    (∀ line ∈ Text.lines "+.", MetaCommand.isText line = true) ∧
    Emission.stdout (session.submitWithin 10 "+.").2 = "\x01\n" ∧
    Emission.stdout (Script.playWithin 10 session "+.") = "\n" ∧
    ¬ SameUnder (some 2) "+." (Script.parse "+.").program .blank := by
  refine ⟨by decide, by decide +kernel, by decide +kernel, by decide +kernel, ?_⟩
  have hreturns : ReturnsAfter "+." .blank 2 "\x01" ⟨[], 1, []⟩ :=
    ⟨_, _, rfl, .step rfl (.step rfl (.refl _)), rfl, rfl, rfl⟩
  have hstopped : GoesOn "+.\n" .blank 2 ⟨[], 1, []⟩ :=
    ⟨_, _, _, rfl, .step rfl (.step rfl (.refl _)), rfl, rfl⟩
  have hprogram : (Script.parse "+.").program = "+.\n" := by decide +kernel
  rw [hprogram, (hreturns.endsUnder (Nat.le_refl 2)).sameUnder_iff hstopped.endsUnder]
  rintro ⟨hresult, -⟩
  cases hresult

end TapeMachine
