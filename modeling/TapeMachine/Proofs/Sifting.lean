import TapeMachine.Proofs.Comments
import TapeMachine.Proofs.Locality
import TapeMachine.Proofs.Sequence

/-! # Sifting — a run with some of its comments left out

    If some comments are left out of a text, what is left runs as the
    whole does, only that it stands still while the whole steps over one
    of them.  So the two runs can be compared step by step, and the steps
    that are saved can be counted.

      * `sift`, `place`: what is left of a list, and where what is left is
        found.
      * `Code.resolve_sift`: what is left of a text resolves to what is
        left of its code.  The induction is on the text still to be read.
      * `Sieve.step_cases`, `Sieve.after_sifted`: one step more, by what
        becomes of its instruction, and all the steps of a run.
      * `ReturnsAfter.sifted`, `GoesOn.sifted`: what this means for a
        program. -/

namespace TapeMachine

/-! ## Lists with marks -/

/-- The elements of a list that are marked with `true`. -/
def sift {α : Type} : List α → List Bool → List α
  | a :: l, true :: marks => a :: sift l marks
  | _ :: l, false :: marks => sift l marks
  | _, _ => []

/-- Where the element at a place is found after sifting. -/
def place (marks : List Bool) (i : Nat) : Nat := (marks.take i).count true

section Marks

variable {α : Type} {marks : List Bool} {i : Nat}

theorem kept_of_not_lost (hlt : i < marks.length) (h : marks[i]? ≠ some false) :
    marks[i]? = some true := by
  rw [List.getElem?_eq_getElem hlt] at h ⊢
  cases hb : marks[i] with
  | true => rfl
  | false =>
      rw [hb] at h
      exact absurd rfl h

theorem place_succ_of_kept (h : marks[i]? = some true) :
    place marks (i + 1) = place marks i + 1 := by
  rw [place, List.take_add_one, h, List.count_append]
  rfl

theorem place_succ_of_lost (h : marks[i]? = some false) : place marks (i + 1) = place marks i := by
  rw [place, List.take_add_one, h, List.count_append]
  rfl

theorem place_cons (b : Bool) (marks : List Bool) (i : Nat) :
    place (b :: marks) (i + 1) = place marks i + if b then 1 else 0 := by
  rw [place, List.take_succ_cons, List.count_cons]
  cases b <;> rfl

/-- A marked element is found at its place. -/
theorem getElem?_sift (h : marks[i]? = some true) (l : List α) :
    (sift l marks)[place marks i]? = l[i]? := by
  induction marks generalizing i l with
  | nil => cases h
  | cons b marks ih =>
      cases l with
      | nil =>
          cases b <;> rfl
      | cons a l =>
          cases i with
          | zero =>
              obtain rfl := Option.some.inj h
              rfl
          | succ i =>
              rw [place_cons]
              cases b with
              | true => exact ih h l
              | false => exact ih h l

theorem length_sift {l : List α} (h : l.length ≤ marks.length) :
    (sift l marks).length = place marks l.length := by
  induction marks generalizing l with
  | nil =>
      obtain rfl := List.eq_nil_of_length_eq_zero (Nat.le_zero.mp h)
      rfl
  | cons b marks ih =>
      cases l with
      | nil => cases b <;> rfl
      | cons a l =>
          have hl := ih (Nat.le_of_succ_le_succ h)
          rw [List.length_cons, place_cons, ← hl]
          cases b <;> rfl

/-- One more element is left if it is marked. -/
theorem sift_concat (l : List α) (a : α) (marks : List Bool) :
    sift (l ++ [a]) marks
      = sift l marks ++ if marks[l.length]? = some true then [a] else [] := by
  induction l generalizing marks with
  | nil =>
      cases marks with
      | nil => rfl
      | cons b marks => cases b <;> rfl
  | cons d l ih =>
      cases marks with
      | nil => rfl
      | cons b marks =>
          cases b with
          | true => exact congrArg (d :: ·) (ih marks)
          | false => exact ih marks

end Marks

/-! ## Codes with marks -/

namespace Instr

theorem eq_comment_of_glyph {i : Instr} (h : isCommand i.glyph = false) : ∃ c, i = .comment c := by
  cases i with
  | comment c => exact ⟨c, rfl⟩
  | _ => cases h

end Instr

/-- The same bracket in a text where places have moved. -/
def Unmatched.placed (f : Nat → Nat) (u : Unmatched) : Unmatched := ⟨f u.position, u.bracket⟩

/-- Marks for the characters of a text that leave out nothing but
    comments. -/
structure Sieve (text : List Char) (marks : List Bool) : Prop where
  length : marks.length = text.length
  comment : ∀ (i : Nat) (c : Char), marks[i]? = some false → text[i]? = some c → isCommand c = false

namespace Sieve

variable {text : List Char} {marks : List Bool} {i : Nat} {c : Char}

theorem tail {b : Bool} (h : Sieve (c :: text) (b :: marks)) : Sieve text marks where
  length := Nat.succ.inj h.length
  comment i := h.comment (i + 1)

/-- Commands are kept. -/
theorem kept (h : Sieve text marks) (hc : text[i]? = some c) (hcommand : isCommand c = true) :
    marks[i]? = some true := by
  have hlt : i < marks.length := by
    rw [h.length]
    exact (List.getElem?_eq_some_iff.mp hc).1
  refine kept_of_not_lost hlt ?_
  intro hlost
  rw [h.comment i c hlost hc] at hcommand
  cases hcommand

/-- Leaving out comments leaves the commands. -/
theorem commandsOf_sift (h : Sieve text marks) :
    commandsOf (sift text marks) = commandsOf text := by
  induction text generalizing marks with
  | nil => cases marks <;> rfl
  | cons c text ih =>
      cases marks with
      | nil => cases h.length
      | cons b marks =>
          cases b with
          | true =>
              have hcons : commandsOf ([c] ++ sift text marks) = commandsOf ([c] ++ text) := by
                rw [commandsOf_append, ih h.tail, ← commandsOf_append]
              exact hcons
          | false =>
              rw [commandsOf_cons_of_comment (h.comment 0 c rfl rfl)]
              exact ih h.tail

end Sieve

namespace Code

/-- What is left of code, with its jumps to where the loops are found. -/
def sifted (marks : List Bool) (code : Code) : Code :=
  ((sift code.toList marks).map (Instr.placed (place marks))).toArray

variable {marks : List Bool} {done code : Code} {i : Instr}

theorem sifted_push_of_kept (h : marks[done.size]? = some true) (i : Instr) :
    sifted marks (done.push i) = (done.sifted marks).push (i.placed (place marks)) := by
  simp only [sifted, Array.toList_push, sift_concat, Array.length_toList, h, if_true,
    List.map_append, List.map_cons, List.map_nil, List.push_toArray]

theorem sifted_push_of_lost (h : marks[done.size]? = some false) (i : Instr) :
    sifted marks (done.push i) = done.sifted marks := by
  have hne : ¬ marks[done.size]? = some true := by
    rw [h]
    decide
  simp only [sifted, Array.toList_push, sift_concat, Array.length_toList, hne, if_false,
    List.append_nil]

theorem size_sifted (h : code.size ≤ marks.length) :
    (code.sifted marks).size = place marks code.size := by
  rw [sifted, List.size_toArray, List.length_map, length_sift (by rwa [Array.length_toList]),
    Array.length_toList]

/-- An instruction that is kept is found at its place. -/
theorem getElem?_sifted {ip : Nat} (h : marks[ip]? = some true) (hi : code[ip]? = some i) :
    (code.sifted marks)[place marks ip]? = some (i.placed (place marks)) := by
  rw [sifted, List.getElem?_toArray, List.getElem?_map, getElem?_sift h, Array.getElem?_toList, hi]
  rfl

/-- What is left of a text resolves to what is left of its code, and is
    refused for the same bracket. -/
theorem resolve_sift {text : List Char} {rest : List Bool} (hrest : marks.drop done.size = rest)
    (hsieve : Sieve text rest) (hsize : done.size ≤ marks.length) (pending : List Nat) :
    resolve (sift text rest) (pending.map (place marks)) (done.sifted marks)
      = ((resolve text pending done).map (sifted marks)).mapError
          (Unmatched.placed (place marks)) := by
  induction text generalizing rest pending done with
  | nil =>
      have hnil : sift ([] : List Char) rest = [] := by cases rest <;> rfl
      rw [hnil]
      cases pending <;> rfl
  | cons c text ih =>
      cases rest with
      | nil => cases hsieve.length
      | cons b rest =>
          have hmark : marks[done.size]? = some b := by
            rw [← Nat.add_zero done.size, ← List.getElem?_drop, hrest]
            rfl
          have hlt : done.size < marks.length := (List.getElem?_eq_some_iff.mp hmark).1
          have hnext : ∀ i, marks.drop (done.push i).size = rest := by
            intro i
            rw [Array.size_push, ← List.drop_drop, hrest]
            rfl
          have hsize' : ∀ i, (done.push i).size ≤ marks.length := by
            intro i
            rw [Array.size_push]
            exact hlt
          cases b with
          | false =>
              have hcomment := hsieve.comment 0 c rfl rfl
              have hgo := ih (hnext (.ofPlain c)) hsieve.tail (hsize' _) pending
              rw [sifted_push_of_lost hmark] at hgo
              rw [resolve_plain (ofPlain_of_comment hcomment).1]
              exact hgo
          | true =>
              show resolve (c :: sift text rest) _ _ = _
              by_cases hopen : c = '['
              · subst hopen
                have hgo := ih (hnext .loopStart) hsieve.tail (hsize' _) (done.size :: pending)
                rw [sifted_push_of_kept hmark] at hgo
                rw [resolve_opening, resolve_opening, size_sifted hsize]
                exact hgo
              · by_cases hclose : c = ']'
                · subst hclose
                  cases pending with
                  | nil =>
                      show Except.error (Unmatched.mk (done.sifted marks).size .closing) = _
                      rw [size_sifted hsize]
                      rfl
                  | cons start outer =>
                      have hgo := ih (hnext (.loopEnd start)) hsieve.tail (hsize' _) outer
                      rw [sifted_push_of_kept hmark] at hgo
                      rw [List.map_cons, resolve_closing, resolve_closing]
                      exact hgo
                · have hgo := ih (hnext (.ofPlain c)) hsieve.tail (hsize' _) pending
                  rw [sifted_push_of_kept hmark, Instr.placed_ofPlain] at hgo
                  rw [resolve_plain ⟨hopen, hclose⟩, resolve_plain ⟨hopen, hclose⟩]
                  exact hgo

theorem ofChars_sift {text : List Char} (h : Sieve text marks) :
    ofChars (sift text marks)
      = ((ofChars text).map (sifted marks)).mapError (Unmatched.placed (place marks)) :=
  @resolve_sift marks #[] text marks rfl h (Nat.zero_le _) []

end Code

/-! ## Runs with marks -/

section Run

variable {M : Type} [Memory M] {text : List Char} {marks : List Bool} {code : Code} {ip n m : Nat}
  {i : Instr}

/-- The state as what is left of the code meets it, with so many steps
    saved. -/
def State.sifted (marks : List Bool) (saved : Nat) (s : State M) : State M :=
  ⟨place marks s.ip, s.steps - saved, s.memory, s.printed⟩

/-- An instruction that is kept does what it has done. -/
theorem Instr.act_sifted {s : State M} {saved : Nat} (hmark : marks[s.ip]? = some true)
    (hstart : ∀ start, i = .loopEnd start → marks[start]? = some true) (hsaved : saved ≤ s.steps) :
    (i.placed (place marks)).act (s.sifted marks saved) = (i.act s).sifted marks saved := by
  have hsteps : s.steps - saved + 1 = s.steps + 1 - saved := by omega
  have hact := i.act_placed (place marks) s (place_succ_of_kept hmark)
    (fun start h => place_succ_of_kept (hstart start h)) (s.steps - saved) []
  rw [List.append_nil, List.append_nil, hsteps] at hact
  exact hact

/-- What becomes of an instruction: there is none, or it is kept together
    with the place it may jump to, or it is a comment and left out. -/
theorem Sieve.cases_at (h : Sieve text marks) (hcode : Code.ofChars text = .ok code) (ip : Nat) :
    (code[ip]? = none ∧ marks[ip]? = none) ∨
    (∃ i, code[ip]? = some i ∧ marks[ip]? = some true ∧
      ∀ start, i = .loopEnd start → marks[start]? = some true) ∨
    ∃ c, code[ip]? = some (.comment c) ∧ marks[ip]? = some false := by
  have hglyph := Code.getElem?_glyph hcode ip
  cases hi : code[ip]? with
  | none =>
      refine Or.inl ⟨rfl, ?_⟩
      rw [hi] at hglyph
      rw [List.getElem?_eq_none_iff, h.length]
      exact List.getElem?_eq_none_iff.mp hglyph.symm
  | some i =>
      rw [hi] at hglyph
      have hlt : ip < marks.length := by
        rw [h.length]
        exact (List.getElem?_eq_some_iff.mp hglyph.symm).1
      cases hmark : marks[ip] with
      | true =>
          refine Or.inr (Or.inl ⟨i, rfl, List.getElem?_eq_some_iff.mpr ⟨hlt, hmark⟩, ?_⟩)
          rintro start rfl
          exact h.kept ((Code.partners_iff hcode).mp hi).opening (by decide)
      | false =>
          have hlost : marks[ip]? = some false := List.getElem?_eq_some_iff.mpr ⟨hlt, hmark⟩
          obtain ⟨c, rfl⟩ := Instr.eq_comment_of_glyph (h.comment ip _ hlost hglyph.symm)
          exact Or.inr (Or.inr ⟨c, rfl, hlost⟩)

/-- Where the whole has no instruction, there is none in what is left. -/
theorem Sieve.getElem?_sifted_eq_none (h : Sieve text marks) (hcode : Code.ofChars text = .ok code)
    (hi : code[ip]? = none) : (code.sifted marks)[place marks ip]? = none := by
  have hsize : code.size = marks.length := by rw [Code.size_of_ofChars hcode, h.length]
  have hle : marks.length ≤ ip := hsize ▸ Array.getElem?_eq_none_iff.mp hi
  rw [Array.getElem?_eq_none_iff, Code.size_sifted hsize.le, hsize]
  simp only [place, List.take_of_length_le hle, List.take_length, Nat.le_refl]

namespace Code

theorem after_succ (code : Code) (n : Nat) (s : State M) :
    code.after (n + 1) s = code.after 1 (code.after n s) := by
  induction n generalizing s with
  | zero => rfl
  | succ n ih =>
      cases hi : code[s.ip]? with
      | none => rw [after_of_end hi, after_of_end hi, after_of_end hi]
      | some i => rw [after_of_instr hi, after_of_instr hi, ih]

/-- Past the end of the code nothing changes any more. -/
theorem Reaches.after_of_halted {s s' : State M} (h : code.Reaches n s s') (hh : code.Halted s')
    (hle : n ≤ m) : code.after m s = s' := by
  induction m, hle using Nat.le_induction with
  | base => exact h.after_eq
  | succ m _ ih => rw [after_succ, ih, after_of_end hh]

/-- If `n` steps have been counted, all of them were taken. -/
theorem reaches_of_steps {s : State M} (h : (code.after n s).steps = s.steps + n) :
    code.Reaches n s (code.after n s) := by
  rcases code.halts_within_or_goes_on n s with ⟨k, s', hk, hr, hh⟩ | ⟨s', i, hr, -⟩
  · rw [hr.after_of_halted hh hk, hr.steps_eq] at h
    obtain rfl := Nat.add_left_cancel h
    rw [hr.after_eq]
    exact hr
  · rw [hr.after_eq]
    exact hr

/-- How many of the first `n` steps are spent on characters that are left
    out. -/
def skips (marks : List Bool) (code : Code) (n : Nat) (s : State M) : Nat :=
  (List.range n).countP fun k => marks[(code.after k s).ip]? == some false

theorem skips_succ (marks : List Bool) (code : Code) (n : Nat) (s : State M) :
    code.skips marks (n + 1) s
      = code.skips marks n s + if marks[(code.after n s).ip]? == some false then 1 else 0 := by
  rw [skips, List.range_succ, List.countP_append, List.countP_singleton]
  rfl

theorem skips_le (marks : List Bool) (code : Code) (n : Nat) (s : State M) :
    code.skips marks n s ≤ n := by
  rw [skips]
  exact List.countP_le_length.trans_eq List.length_range

/-- With more steps no fewer steps are left. -/
theorem sub_skips_mono (marks : List Bool) (code : Code) (s : State M) (h : n ≤ m) :
    n - code.skips marks n s ≤ m - code.skips marks m s := by
  induction m, h using Nat.le_induction with
  | base => exact Nat.le_refl _
  | succ m _ ih =>
      have hle := code.skips_le marks m s
      rw [skips_succ]
      split <;> omega

end Code

/-- One more step, by what becomes of its instruction. -/
theorem Sieve.step_cases (h : Sieve text marks) (hcode : Code.ofChars text = .ok code) (n : Nat)
    (s : State M) :
    (code[(code.after n s).ip]? = none ∧ code.after (n + 1) s = code.after n s ∧
      code.skips marks (n + 1) s = code.skips marks n s) ∨
    (∃ i, code[(code.after n s).ip]? = some i ∧ marks[(code.after n s).ip]? = some true ∧
      (∀ start, i = .loopEnd start → marks[start]? = some true) ∧
      code.after (n + 1) s = i.act (code.after n s) ∧
      code.skips marks (n + 1) s = code.skips marks n s) ∨
    ∃ c, code[(code.after n s).ip]? = some (.comment c) ∧
      marks[(code.after n s).ip]? = some false ∧
      code.after (n + 1) s = (Instr.comment c).act (code.after n s) ∧
      code.skips marks (n + 1) s = code.skips marks n s + 1 := by
  rw [Code.after_succ, Code.skips_succ]
  rcases h.cases_at hcode (code.after n s).ip with
    ⟨hi, hmark⟩ | ⟨i, hi, hmark, hstart⟩ | ⟨c, hi, hmark⟩
  · rw [hmark]
    exact Or.inl ⟨hi, Code.after_of_end hi 1, rfl⟩
  · rw [hmark]
    exact Or.inr (Or.inl ⟨i, hi, rfl, hstart, Code.after_of_instr hi 0, rfl⟩)
  · rw [hmark]
    exact Or.inr (Or.inr ⟨c, hi, rfl, Code.after_of_instr hi 0, rfl⟩)

/-- Only steps that were taken are saved. -/
theorem Sieve.skips_le_steps (h : Sieve text marks) (hcode : Code.ofChars text = .ok code)
    (n : Nat) (s : State M) : code.skips marks n s ≤ (code.after n s).steps := by
  induction n with
  | zero => exact Nat.zero_le _
  | succ n ih =>
      rcases h.step_cases hcode n s with
        ⟨-, hafter, hskips⟩ | ⟨i, -, -, -, hafter, hskips⟩ | ⟨c, -, -, hafter, hskips⟩
      · rw [hafter, hskips]
        exact ih
      · rw [hafter, hskips]
        exact Nat.le_succ_of_le ih
      · rw [hafter, hskips]
        exact Nat.succ_le_succ ih

/-- **What is left runs as the whole does**, without the steps that are
    skipped. -/
theorem Sieve.after_sifted (h : Sieve text marks) (hcode : Code.ofChars text = .ok code) (n : Nat)
    (mem : M) :
    (code.sifted marks).after (n - code.skips marks n (.start mem)) (.start mem)
      = (code.after n (.start mem)).sifted marks (code.skips marks n (.start mem)) := by
  induction n with
  | zero => rfl
  | succ n ih =>
      have hle := code.skips_le marks n (State.start mem)
      rcases h.step_cases hcode n (.start mem) with
        ⟨hi, hafter, hskips⟩ | ⟨i, hi, hmark, hstart, hafter, hskips⟩ |
          ⟨c, hi, hmark, hafter, hskips⟩
      · rw [hafter, hskips, Nat.succ_sub hle, Code.after_succ, ih]
        exact Code.after_of_end (h.getElem?_sifted_eq_none hcode hi) 1
      · rw [hafter, hskips, Nat.succ_sub hle, Code.after_succ, ih,
          Code.after_of_instr (Code.getElem?_sifted hmark hi)]
        exact Instr.act_sifted hmark hstart (h.skips_le_steps hcode n _)
      · -- the state without the comment is the one before it
        rw [hafter, hskips, Nat.succ_sub_succ, ih]
        show State.mk _ _ _ _ = State.mk (place marks (_ + 1)) (_ + 1 - (_ + 1)) _ _
        rw [place_succ_of_lost hmark, Nat.succ_sub_succ]
        rfl

/-- For every number of steps there is a run that leaves so many, if of two
    characters in a row one is kept. -/
theorem Sieve.exists_skips (h : Sieve text marks) (hcode : Code.ofChars text = .ok code)
    (hnext : ∀ ip : Nat, marks[ip]? = some false → marks[ip + 1]? = some true) (n : Nat)
    (s : State M) : ∃ m, m = n + code.skips marks m s := by
  induction n with
  | zero => exact ⟨0, rfl⟩
  | succ n ih =>
      obtain ⟨m, hm⟩ := ih
      rcases h.step_cases hcode m s with
        ⟨-, -, hskips⟩ | ⟨i, -, -, -, -, hskips⟩ | ⟨c, -, hmark, hafter, hskips⟩
      · exact ⟨m + 1, by omega⟩
      · exact ⟨m + 1, by omega⟩
      · -- the character behind the one left out is kept
        have hkept : marks[(code.after (m + 1) s).ip]? = some true := by
          rw [hafter]
          exact hnext _ hmark
        have hstay : code.skips marks (m + 2) s = code.skips marks (m + 1) s := by
          rw [Code.skips_succ, hkept]
          rfl
        exact ⟨m + 2, by omega⟩

end Run

/-! ## Programs with marks -/

section Programs

variable {text : String} {marks : List Bool} {code : Code} {t t' : Tape} {k n : Nat} {out : String}

/-- What is left of a program resolves to what is left of its code. -/
theorem Sieve.ofText_sift (h : Sieve text.toList marks) (hcode : Code.ofText text = .ok code) :
    Code.ofText (String.ofList (sift text.toList marks)) = .ok (code.sifted marks) := by
  rw [Code.ofText, String.toList_ofList, Code.ofChars_sift h,
    show Code.ofChars text.toList = .ok code from hcode]
  rfl

theorem Sieve.reaches_sifted (h : Sieve text.toList marks) (hcode : Code.ofText text = .ok code)
    {s : State Tape} (hr : code.Reaches n (.start t) s) :
    (code.sifted marks).Reaches (n - code.skips marks n (.start t)) (.start t)
      (s.sifted marks (code.skips marks n (.start t))) := by
  have hafter := h.after_sifted hcode n t
  rw [hr.after_eq] at hafter
  rw [← hafter]
  refine Code.reaches_of_steps ?_
  rw [hafter]
  show s.steps - code.skips marks n (.start t) = 0 + (n - code.skips marks n (.start t))
  have hsteps : s.steps = 0 + n := hr.steps_eq
  rw [hsteps, Nat.zero_add, Nat.zero_add]

/-- What is left of a program that returns returns the same, earlier. -/
theorem ReturnsAfter.sifted (hret : ReturnsAfter text t k out t') (h : Sieve text.toList marks)
    (hcode : Code.ofText text = .ok code) :
    ReturnsAfter (String.ofList (sift text.toList marks)) t
      (k - code.skips marks k (.start t)) out t' := by
  obtain ⟨code', s, hcode', hr, hh, rfl, rfl⟩ := hret
  obtain rfl : code = code' := Except.ok.inj (hcode.symm.trans hcode')
  exact ⟨_, _, h.ofText_sift hcode, h.reaches_sifted hcode hr, h.getElem?_sifted_eq_none hcode hh,
    rfl, rfl⟩

/-- What is left of a program that goes on goes on, if of two characters in
    a row one is kept. -/
theorem GoesOn.sifted (hon : GoesOn text t n t') (h : Sieve text.toList marks)
    (hcode : Code.ofText text = .ok code)
    (hnext : ∀ ip : Nat, marks[ip]? = some false → marks[ip + 1]? = some true) :
    GoesOn (String.ofList (sift text.toList marks)) t (n - code.skips marks n (.start t)) t' := by
  obtain ⟨code', s, i, hcode', hr, hi, rfl⟩ := hon
  obtain rfl : code = code' := Except.ok.inj (hcode.symm.trans hcode')
  have hgo : ∃ j, (code.sifted marks)[place marks s.ip]? = some j := by
    rcases h.cases_at hcode s.ip with ⟨hnone, -⟩ | ⟨j, hj, hmark, -⟩ | ⟨c, -, hmark⟩
    · rw [hnone] at hi
      cases hi
    · exact ⟨_, Code.getElem?_sifted hmark hj⟩
    · -- what is left goes on with the next character
      have hkept := hnext s.ip hmark
      rcases h.cases_at hcode (s.ip + 1) with ⟨-, hnone⟩ | ⟨j, hj, -, -⟩ | ⟨c, -, hlost⟩
      · rw [hnone] at hkept
        cases hkept
      · rw [← place_succ_of_lost hmark]
        exact ⟨_, Code.getElem?_sifted hkept hj⟩
      · rw [hlost] at hkept
        cases hkept
  obtain ⟨j, hj⟩ := hgo
  exact ⟨_, _, j, h.ofText_sift hcode, h.reaches_sifted hcode hr, hj, rfl⟩

end Programs

end TapeMachine
