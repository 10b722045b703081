import TapeMachine.Proofs.Block
import TapeMachine.Proofs.Runs
import Mathlib.Tactic.SplitIfs

/-! # Structured loops — the flat machine runs trees

    The machine knows positions and jumps; it does not know loops.  Here
    the meaning of a tree is said without positions: `Eval b m out m'`
    holds if evaluating the tree `b` on memory `m` ends, prints `out` and
    leaves `m'`.  A loop evaluates its body once, and again as long as
    the cell under the cursor is not zero.

      * `leads_of_eval`: the machine follows every evaluation.  The
        induction is on the evaluation; a repeated loop re-enters its own
        code just behind the opening bracket.
      * `eval_of_reaches`: a run that gets past the end of the code
        evaluates each tree it enters.  The induction is on the number of
        steps, since a jump back does not make the tree smaller.
      * `returns_iff_eval`: executing the text of a tree returns exactly
        what evaluating the tree gives. -/

namespace TapeMachine

variable {M : Type} [Memory M]

/-- Evaluating a tree on a memory ends, prints these characters and
    leaves this memory. -/
inductive Eval : Block → M → List Char → M → Prop where
  | nil (m : M) : Eval .nil m [] m
  | right {h : IsPlain '>'} {rest : Block} {m m' : M} {out : List Char} :
      Eval rest (Memory.right m) out m' → Eval (.plain '>' h rest) m out m'
  | left {h : IsPlain '<'} {rest : Block} {m m' : M} {out : List Char} :
      Eval rest (Memory.left m) out m' → Eval (.plain '<' h rest) m out m'
  | increment {h : IsPlain '+'} {rest : Block} {m m' : M} {out : List Char} :
      Eval rest (Memory.write m (Memory.read m + 1)) out m' →
      Eval (.plain '+' h rest) m out m'
  | decrement {h : IsPlain '-'} {rest : Block} {m m' : M} {out : List Char} :
      Eval rest (Memory.write m (Memory.read m - 1)) out m' →
      Eval (.plain '-' h rest) m out m'
  | print {h : IsPlain '.'} {rest : Block} {m m' : M} {out : List Char} :
      Eval rest m out m' →
      Eval (.plain '.' h rest) m ((Memory.read m).glyph :: out) m'
  | comment {c : Char} {h : IsPlain c} {rest : Block} {m m' : M} {out : List Char} :
      c ∉ ['>', '<', '+', '-', '.'] → Eval rest m out m' →
      Eval (.plain c h rest) m out m'
  | loopDone {body rest : Block} {m m₁ m₂ : M} {out₁ out₂ : List Char} :
      Eval body m out₁ m₁ → Memory.read m₁ = 0 → Eval rest m₁ out₂ m₂ →
      Eval (.loop body rest) m (out₁ ++ out₂) m₂
  | loopAgain {body rest : Block} {m m₁ m₂ : M} {out₁ out₂ : List Char} :
      Eval body m out₁ m₁ → Memory.read m₁ ≠ 0 →
      Eval (.loop body rest) m₁ out₂ m₂ →
      Eval (.loop body rest) m (out₁ ++ out₂) m₂

namespace Instr

/-- What an instruction prints. -/
def emits (i : Instr) (v : Cell) : List Char :=
  match i with
  | .print => [v.glyph]
  | _ => []

/-- A character that is no command does nothing. -/
theorem ofPlain_comment {c : Char} (h : c ∉ ['>', '<', '+', '-', '.']) :
    ofPlain c = .comment c := by
  simp only [List.mem_cons, List.not_mem_nil, or_false, not_or] at h
  simp only [ofPlain, h, if_false]

/-- A character other than a bracket goes on to the next position. -/
theorem next_ofPlain (c : Char) (ip : Nat) (v : Cell) : (ofPlain c).next ip v = ip + 1 := by
  unfold ofPlain
  split_ifs <;> rfl

/-- One instruction, part by part. -/
theorem act_mk (i : Instr) (ip steps : Nat) (m : M) (printed : List Char) :
    i.act ⟨ip, steps, m, printed⟩
      = ⟨i.next ip (Memory.read m), steps + 1, i.onMemory m,
          (i.emits (Memory.read m)).reverse ++ printed⟩ := by
  cases i <;> rfl

/-- On a zero cell a closing bracket goes on to the next position. -/
theorem next_loopEnd_zero (start ip : Nat) : (loopEnd start).next ip 0 = ip + 1 := by
  simp only [next, if_true]

/-- On any other cell a closing bracket does what its opening bracket
    would do. -/
theorem act_loopEnd_again {start ip steps : Nat} {m : M} {printed : List Char}
    (h : Memory.read m ≠ 0) :
    (loopEnd start).act ⟨ip, steps, m, printed⟩
      = loopStart.act ⟨start, steps, m, printed⟩ := by
  rw [act_mk, act_mk]
  show State.mk (if Memory.read m = 0 then ip + 1 else start + 1) _ _ _ = _
  rw [if_neg h]
  rfl

end Instr

/-- Evaluating a character means carrying out its instruction. -/
theorem eval_plain_iff {c : Char} {h : IsPlain c} {rest : Block} {m m' : M} {out : List Char} :
    Eval (.plain c h rest) m out m' ↔
      ∃ out', out = (Instr.ofPlain c).emits (Memory.read m) ++ out' ∧
        Eval rest ((Instr.ofPlain c).onMemory m) out' m' := by
  constructor
  · intro he
    cases he with
    | right hr => exact ⟨out, rfl, hr⟩
    | left hr => exact ⟨out, rfl, hr⟩
    | increment hr => exact ⟨out, rfl, hr⟩
    | decrement hr => exact ⟨out, rfl, hr⟩
    | @print _ _ _ _ out' hr => exact ⟨out', rfl, hr⟩
    | comment hc hr =>
        rw [Instr.ofPlain_comment hc]
        exact ⟨out, rfl, hr⟩
  · rintro ⟨out', rfl, hr⟩
    by_cases hc : c ∈ ['>', '<', '+', '-', '.']
    · simp only [List.mem_cons, List.not_mem_nil, or_false] at hc
      rcases hc with rfl | rfl | rfl | rfl | rfl
      · exact .right hr
      · exact .left hr
      · exact .increment hr
      · exact .decrement hr
      · exact .print hr
    · rw [Instr.ofPlain_comment hc] at hr ⊢
      exact .comment hc hr

/-! ## From evaluations to runs -/

variable {code : Code}

/-- From position `base` the machine gets to position `stop`, takes one
    memory to another and prints these characters, whatever it did
    before. -/
def Code.Leads (code : Code) (base : Nat) (m : M) (out : List Char) (stop : Nat) (m' : M) :
    Prop :=
  ∃ n, ∀ k p, code.Reaches n ⟨base, k, m, p⟩ ⟨stop, k + n, m', out.reverse ++ p⟩

namespace Code.Leads

variable {base mid stop : Nat} {m m₁ m' : M} {out out₁ out₂ : List Char}

/-- One part after another. -/
theorem trans (h₁ : code.Leads base m out₁ mid m₁) (h₂ : code.Leads mid m₁ out₂ stop m') :
    code.Leads base m (out₁ ++ out₂) stop m' := by
  obtain ⟨n₁, h₁⟩ := h₁
  obtain ⟨n₂, h₂⟩ := h₂
  refine ⟨n₁ + n₂, ?_⟩
  intro k p
  have hall := (h₁ k p).trans (h₂ (k + n₁) (out₁.reverse ++ p))
  rw [← List.append_assoc, ← List.reverse_append, Nat.add_assoc] at hall
  exact hall

/-- One instruction. -/
theorem instr {i : Instr} (hi : code[base]? = some i) :
    code.Leads base m (i.emits (Memory.read m)) (i.next base (Memory.read m)) (i.onMemory m) := by
  refine ⟨1, ?_⟩
  intro k p
  refine .step hi ?_
  rw [Instr.act_mk]
  exact .refl _

/-- On a cell that is not zero a closing bracket leads where its opening
    bracket leads. -/
theorem again (hopen : code[base]? = some .loopStart)
    (hclose : code[mid]? = some (.loopEnd base)) (hnz : Memory.read m ≠ 0)
    (hne : base ≠ stop) (h : code.Leads base m out stop m') :
    code.Leads mid m out stop m' := by
  obtain ⟨n, h⟩ := h
  refine ⟨n, ?_⟩
  intro k p
  obtain ⟨j, rfl, hrest⟩ := (h k p).uncons hopen (fun heq => hne (congrArg State.ip heq))
  refine .step hclose ?_
  rw [Instr.act_loopEnd_again hnz]
  exact hrest

/-- A character, and then what follows it. -/
theorem plain {c : Char} {h : IsPlain c} {rest : Block}
    (hat : (Block.plain c h rest).At code base)
    (hrest : code.Leads (base + 1) ((Instr.ofPlain c).onMemory m) out
      (base + 1 + rest.size) m') :
    code.Leads base m ((Instr.ofPlain c).emits (Memory.read m) ++ out)
      (base + (Block.plain c h rest).size) m' := by
  have hfirst := instr (m := m) hat.1
  rw [Instr.next_ofPlain] at hfirst
  rw [Block.add_size_plain]
  exact hfirst.trans hrest

end Code.Leads

/-- The machine follows every evaluation, wherever the tree stands in the
    code. -/
theorem leads_of_eval {b : Block} {m m' : M} {out : List Char} (h : Eval b m out m')
    {base : Nat} (hat : b.At code base) :
    code.Leads base m out (base + b.size) m' := by
  induction h generalizing base with
  | nil m => exact ⟨0, fun k p => .refl _⟩
  | right _ ih => exact .plain hat (ih hat.2)
  | left _ ih => exact .plain hat (ih hat.2)
  | increment _ ih => exact .plain hat (ih hat.2)
  | decrement _ ih => exact .plain hat (ih hat.2)
  | print _ ih => exact .plain hat (ih hat.2)
  | @comment c _ _ m _ _ hc _ ih =>
      have hplain := Code.Leads.plain (m := m) hat (by
        rw [Instr.ofPlain_comment hc]
        exact ih hat.2)
      rw [Instr.ofPlain_comment hc] at hplain
      exact hplain
  | @loopDone body rest m m₁ m₂ out₁ out₂ _ hzero _ ihb ihr =>
      obtain ⟨hopen, hbody, hclose, hrest⟩ := hat
      have hexit := Code.Leads.instr (m := m₁) hclose
      rw [hzero, Instr.next_loopEnd_zero,
        show base + 1 + body.size + 1 = base + body.size + 2 from by omega] at hexit
      have hall := (((Code.Leads.instr hopen).trans (ihb hbody)).trans hexit).trans (ihr hrest)
      rw [Block.add_size_loop]
      simpa only [Instr.emits, List.nil_append, List.append_nil] using hall
  | @loopAgain body rest m m₁ m₂ out₁ out₂ _ hnz _ ihb iha =>
      have hne : base ≠ base + (Block.loop body rest).size := by
        rw [Block.add_size_loop]
        omega
      have hback := Code.Leads.again hat.1 hat.2.2.1 hnz hne (iha hat)
      exact ((Code.Leads.instr hat.1).trans (ihb hat.2.1)).trans hback

/-! ## From runs to evaluations -/

/-- A run that gets past the end of the code evaluates the tree it
    enters, and goes on behind it.  The induction is on the number of
    steps: a jump back re-enters the same tree with fewer steps to go. -/
theorem eval_of_reaches {s' : State M} (hs' : code.Halted s') (n : Nat) :
    ∀ {b : Block} {base k : Nat} {m : M} {p : List Char}, b.At code base →
      code.Reaches n ⟨base, k, m, p⟩ s' →
      ∃ j r out m₁, n = j + r ∧ Eval b m out m₁ ∧
        code.Reaches r ⟨base + b.size, k + j, m₁, out.reverse ++ p⟩ s' := by
  induction n using Nat.strongRecOn with
  | ind n ih =>
    intro b base k m p hat hrun
    cases b with
    | nil => exact ⟨0, n, [], m, by omega, .nil m, hrun⟩
    | plain c hc rest =>
        obtain ⟨n₀, rfl, hrest⟩ := hrun.uncons_of_halted hat.1 hs'
        rw [Instr.act_mk, Instr.next_ofPlain] at hrest
        obtain ⟨j, r, out, m₁, hn, heval, hon⟩ := ih n₀ (by omega) hat.2 hrest
        refine ⟨j + 1, r, _, m₁, by omega, eval_plain_iff.mpr ⟨out, rfl, heval⟩, ?_⟩
        rw [Block.add_size_plain, List.reverse_append, List.append_assoc,
          show k + (j + 1) = k + 1 + j from by omega]
        exact hon
    | loop body rest =>
        have ⟨hopen, hbody, hclose, hrest⟩ := hat
        obtain ⟨n₀, rfl, hin⟩ := hrun.uncons_of_halted hopen hs'
        rw [Instr.act_mk] at hin
        obtain ⟨j, r, out₁, m₁, hn, heval, hend⟩ := ih n₀ (by omega) hbody hin
        by_cases hz : Memory.read m₁ = 0
        · -- the loop is left, and the run goes on with the rest
          obtain ⟨r₀, rfl, hout⟩ := hend.uncons_of_halted hclose hs'
          rw [Instr.act_mk, hz, Instr.next_loopEnd_zero,
            show base + 1 + body.size + 1 = base + body.size + 2 from by omega] at hout
          obtain ⟨j₂, r₂, out₂, m₂, hn₂, heval₂, hon⟩ := ih r₀ (by omega) hrest hout
          refine ⟨j + j₂ + 2, r₂, out₁ ++ out₂, m₂, by omega, .loopDone heval hz heval₂, ?_⟩
          rw [Block.add_size_loop, List.reverse_append, List.append_assoc,
            show k + (j + j₂ + 2) = k + 1 + j + 1 + j₂ from by omega]
          exact hon
        · -- the closing bracket does what the opening one would do
          obtain ⟨r₀, rfl, hback⟩ := hend.uncons_of_halted hclose hs'
          rw [Instr.act_loopEnd_again hz] at hback
          obtain ⟨j₂, r₂, out₂, m₂, hn₂, heval₂, hon⟩ :=
            ih (r₀ + 1) (by omega) hat (.step hopen hback)
          refine ⟨j + j₂ + 1, r₂, out₁ ++ out₂, m₂, by omega, .loopAgain heval hz heval₂, ?_⟩
          rw [List.reverse_append, List.append_assoc,
            show k + (j + j₂ + 1) = k + 1 + j + j₂ from by omega]
          exact hon

/-! ## Texts

    Evaluation can be said of texts as well, piece by piece. -/

/-- Two evaluations in a row are an evaluation of the joined tree. -/
theorem Eval.append {b b' : Block} {m m₁ m₂ : M} {out₁ out₂ : List Char}
    (h₁ : Eval b m out₁ m₁) (h₂ : Eval b' m₁ out₂ m₂) :
    Eval (b.append b') m (out₁ ++ out₂) m₂ := by
  induction h₁ with
  | nil m => exact h₂
  | right _ ih => exact .right (ih h₂)
  | left _ ih => exact .left (ih h₂)
  | increment _ ih => exact .increment (ih h₂)
  | decrement _ ih => exact .decrement (ih h₂)
  | print _ ih => exact .print (ih h₂)
  | comment hc _ ih => exact .comment hc (ih h₂)
  | loopDone hbody hz _ _ ih =>
      rw [List.append_assoc]
      exact .loopDone hbody hz (ih h₂)
  | loopAgain hbody hnz _ _ ih =>
      rw [List.append_assoc]
      exact .loopAgain hbody hnz (ih h₂)

/-- The text is that of a tree, and evaluating the tree ends, prints these
    characters and leaves this memory. -/
def Evaluates (text : List Char) (m : M) (out : List Char) (m' : M) : Prop :=
  ∃ b : Block, b.chars = text ∧ Eval b m out m'

namespace Evaluates

variable {text text' body : List Char} {m m₁ m₂ : M} {out out₁ out₂ : List Char}

/-- Nothing to do. -/
theorem nil (m : M) : Evaluates [] m [] m := ⟨.nil, rfl, .nil m⟩

/-- One text after another. -/
theorem append (h₁ : Evaluates text m out₁ m₁) (h₂ : Evaluates text' m₁ out₂ m₂) :
    Evaluates (text ++ text') m (out₁ ++ out₂) m₂ := by
  obtain ⟨b, rfl, h₁⟩ := h₁
  obtain ⟨b', rfl, h₂⟩ := h₂
  exact ⟨b.append b', b.chars_append b', h₁.append h₂⟩

/-- One character other than a bracket. -/
theorem plain {c : Char} (hc : IsPlain c) (m : M) :
    Evaluates [c] m ((Instr.ofPlain c).emits (Memory.read m)) ((Instr.ofPlain c).onMemory m) := by
  refine ⟨.plain c hc .nil, rfl, eval_plain_iff.mpr ⟨[], ?_, .nil _⟩⟩
  rw [List.append_nil]

/-- A loop that ends after one round. -/
theorem loopDone (h : Evaluates body m out m₁) (hz : Memory.read m₁ = 0) :
    Evaluates ('[' :: body ++ [']']) m out m₁ := by
  obtain ⟨b, rfl, h⟩ := h
  have hloop := Eval.loopDone h hz (.nil m₁)
  rw [List.append_nil] at hloop
  exact ⟨.loop b .nil, rfl, hloop⟩

/-- A loop that goes on after one round. -/
theorem loopAgain (h : Evaluates body m out₁ m₁) (hnz : Memory.read m₁ ≠ 0)
    (hloop : Evaluates ('[' :: body ++ [']']) m₁ out₂ m₂) :
    Evaluates ('[' :: body ++ [']']) m (out₁ ++ out₂) m₂ := by
  obtain ⟨b, rfl, h⟩ := h
  obtain ⟨b', hb', hloop⟩ := hloop
  -- the text of the loop has only one tree
  have hsame : b' = .loop b .nil :=
    Block.chars_injective (hb'.trans (show _ = (Block.loop b .nil).chars from rfl))
  subst hsame
  exact ⟨.loop b .nil, rfl, .loopAgain h hnz hloop⟩

end Evaluates

/-! ## Executions -/

/-- The text of a tree resolves to the code of the tree. -/
theorem ofText_of_chars {b : Block} {text : String} (hb : b.chars = text.toList) :
    Code.ofText text = .ok (b.code 0).toArray := by
  rw [Code.ofText, ← hb, Block.ofChars_chars]

/-- Executing the text of a tree returns exactly what evaluating the tree
    gives. -/
theorem returns_iff_eval {b : Block} {text : String} (hb : b.chars = text.toList)
    {t t' : Tape} {out : String} :
    Returns text t out t' ↔ Eval b t out.toList t' := by
  have hend : ∀ (k : Nat) (m : Tape) (p : List Char),
      Code.Halted (b.code 0).toArray (State.mk (0 + b.size) k m p) := by
    intro k m p
    show (b.code 0).toArray[0 + b.size]? = none
    rw [Nat.zero_add, b.getElem?_code_size]
  rw [returns_iff_reaches (ofText_of_chars hb)]
  constructor
  · rintro ⟨n, s, hrun, hhalt, rfl, rfl⟩
    obtain ⟨j, r, out, m₁, -, heval, hon⟩ := eval_of_reaches hhalt n b.at_zero hrun
    -- the run has no step left behind the tree
    obtain ⟨-, rfl⟩ := (Code.Reaches.refl _).unique (hend _ _ _) hon hhalt
    simpa [State.text, State.output] using heval
  · intro heval
    obtain ⟨n, hn⟩ := leads_of_eval heval b.at_zero
    refine ⟨n, _, hn 0 [], hend _ _ _, ?_, rfl⟩
    simp [State.text, State.output]

/-- Executing a text returns what evaluating it gives. -/
theorem Evaluates.returns {text : List Char} {t t' : Tape} {out : List Char}
    (h : Evaluates text t out t') : Returns (String.ofList text) t (String.ofList out) t' := by
  obtain ⟨b, rfl, h⟩ := h
  refine (returns_iff_eval (String.toList_ofList).symm).mpr ?_
  rw [String.toList_ofList]
  exact h

/-- Executing the text of a tree has no answer exactly when evaluating
    the tree does not end. -/
theorem runsForever_iff_not_eval {b : Block} {text : String} (hb : b.chars = text.toList)
    {t : Tape} : RunsForever text t ↔ ¬ ∃ out t', Eval b t out t' := by
  rw [runsForever_iff_not_returns (ofText_of_chars hb)]
  refine not_congr ⟨?_, ?_⟩
  · rintro ⟨out, t', h⟩
    exact ⟨out.toList, t', (returns_iff_eval hb).mp h⟩
  · rintro ⟨out, t', h⟩
    refine ⟨String.ofList out, t', (returns_iff_eval hb).mpr ?_⟩
    rw [String.toList_ofList]
    exact h

/-- **Jumps implement loops.**  A balanced program has exactly one tree,
    and on every tape executing the program returns an output and a tape
    exactly if evaluating the tree gives them; it runs forever exactly if
    the tree has no evaluation. -/
theorem execute_implements_eval (text : String) (h : Balanced text.toList) :
    ∃ b, Block.parse text.toList = some b ∧
      (∀ b' : Block, b'.chars = text.toList ↔ b' = b) ∧
      ∀ t : Tape,
        (∀ out t', Returns text t out t' ↔ Eval b t out.toList t') ∧
        (RunsForever text t ↔ ¬ ∃ out t', Eval b t out t') := by
  obtain ⟨b, hparse⟩ := Block.parse_isSome_of_balanced h
  have hb : b.chars = text.toList := Block.parse_eq_some_iff.mp hparse
  refine ⟨b, hparse, ?_, ?_⟩
  · intro b'
    exact ⟨fun hb' => Block.chars_injective (hb'.trans hb.symm), fun heq => heq ▸ hb⟩
  · intro t
    exact ⟨fun out t' => returns_iff_eval hb, runsForever_iff_not_eval hb⟩

/-- A loop in a loop, with two rounds of the outer one. -/
theorem execute_implements_eval_nested :
    Balanced "++[>+[-]<-]>+.".toList ∧ Returns "++[>+[-]<-]>+." .blank "\x01" ⟨[0], 1, []⟩ := by
  refine ⟨by decide, ?_⟩
  obtain ⟨b, -, hunique, hall⟩ := execute_implements_eval "++[>+[-]<-]>+." (by decide)
  let body : Block := .plain '>' (by decide) (.plain '+' (by decide)
    (.loop (.plain '-' (by decide) .nil) (.plain '<' (by decide) (.plain '-' (by decide) .nil))))
  let tree : Block := .plain '+' (by decide) (.plain '+' (by decide)
    (.loop body (.plain '>' (by decide) (.plain '+' (by decide) (.plain '.' (by decide) .nil)))))
  obtain rfl : tree = b := (hunique tree).mp (by decide)
  refine ((hall .blank).1 "\x01" _).mpr ?_
  -- the inner loop clears in one round what was put into the second cell
  have hfirst : Eval body (Tape.mk [] 2 []) [] (Tape.mk [] 1 [0]) :=
    .right (.increment (.loopDone (.decrement (.nil _)) rfl (.left (.decrement (.nil _)))))
  have hsecond : Eval body (Tape.mk [] 1 [0]) [] (Tape.mk [] 0 [0]) :=
    .right (.increment (.loopDone (.decrement (.nil _)) rfl (.left (.decrement (.nil _)))))
  exact .increment (.increment (.loopAgain hfirst (by decide)
    (.loopDone hsecond rfl (.right (.increment (.print (.nil _)))))))

end TapeMachine
