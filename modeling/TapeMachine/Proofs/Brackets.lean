import TapeMachine.Proofs.Block
import TapeMachine.Proofs.Runs
import Mathlib.Tactic.SplitIfs

/-! # Brackets — the loops found are the matching pairs

    Resolving a text is one scan with a stack of open loops.  What the
    scan finds is said here without a stack: two brackets are partners
    if the text between them is balanced.

      * `resolve_isOk_iff`: the scan accepts a text exactly if the text
        closes the loops on the stack and no others.  The induction is on
        the text, and only the height of the stack matters.
      * `Balanced.opens_inside`, `Balanced.closes_inside`: what a bracket
        inside a balanced stretch leaves to be closed, or has to be
        opened before it.  That partners are unique and that pairs never
        cross are readings of these two counts.
      * `Block.exists_opening`, `Block.exists_closing`: in the text of a
        tree every bracket has a partner, and the code at a closing
        bracket names it. -/

namespace TapeMachine

/-! ## Acceptance -/

/-- The text closes `d` more loops than it opens, and at no place more
    than that. -/
structure Closes (d : Nat) (text : List Char) : Prop where
  prefixes : ∀ p, p <+: text → p.count ']' ≤ p.count '[' + d
  whole : text.count ']' = text.count '[' + d

/-- A balanced text closes what it opens. -/
theorem balanced_iff_closes {text : List Char} : Balanced text ↔ Closes 0 text :=
  ⟨fun h => ⟨h.prefixes, h.whole⟩, fun h => ⟨h.prefixes, h.whole⟩⟩

/-- A character in front of a text changes the number of loops to close. -/
theorem closes_cons_iff {c : Char} {d : Nat} (d' : Nat) {text : List Char}
    (hd : [c].count ']' + d' = d + [c].count '[') :
    Closes d (c :: text) ↔ Closes d' text := by
  have hcount : ∀ (x : Char) (p : List Char), (c :: p).count x = [c].count x + p.count x :=
    fun x p => (List.count_append : ([c] ++ p).count x = _)
  constructor
  · intro h
    refine ⟨?_, ?_⟩
    · intro p hp
      have hcp := h.prefixes (c :: p) ((List.prefix_cons_inj c).mpr hp)
      rw [hcount ']', hcount '['] at hcp
      omega
    · have hw := h.whole
      rw [hcount ']', hcount '['] at hw
      omega
  · intro h
    refine ⟨?_, ?_⟩
    · intro p hp
      rcases List.prefix_cons_iff.mp hp with rfl | ⟨p', rfl, hp'⟩
      · exact Nat.zero_le _
      · have hp := h.prefixes p' hp'
        rw [hcount ']', hcount '[']
        omega
    · have hw := h.whole
      rw [hcount ']', hcount '[']
      omega

namespace Code

/-- The scan accepts a text exactly if the text closes the loops that are
    open before it. -/
theorem resolve_isOk_iff {text : List Char} {pending : List Nat} {done : Code} :
    (∃ code, resolve text pending done = .ok code) ↔ Closes pending.length text := by
  induction text generalizing pending done with
  | nil =>
      cases pending with
      | nil =>
          refine ⟨fun _ => ⟨?_, rfl⟩, fun _ => ⟨done, rfl⟩⟩
          intro p hp
          rw [List.prefix_nil.mp hp]
          exact Nat.zero_le _
      | cons start outer =>
          refine ⟨fun ⟨_, h⟩ => (nomatch h), fun h => ?_⟩
          exact absurd h.whole (by simp)
  | cons c text ih =>
      by_cases hopen : c = '['
      · subst hopen
        rw [resolve_opening, ih, closes_cons_iff (pending.length + 1) (by simp)]
        rfl
      · by_cases hclose : c = ']'
        · subst hclose
          cases pending with
          | nil =>
              -- nothing is open, so the first character closes too much
              refine ⟨fun ⟨_, h⟩ => (nomatch h), fun h => ?_⟩
              exact absurd (h.prefixes [']'] (List.prefix_append [']'] text)) (by decide)
          | cons start outer =>
              rw [resolve_closing, ih, closes_cons_iff outer.length]
              simp [Nat.add_comm]
        · rw [resolve_plain ⟨hopen, hclose⟩, ih, closes_cons_iff pending.length]
          rw [List.count_cons_of_ne hclose, List.count_cons_of_ne hopen]
          simp

/-- A text resolves exactly if it is balanced. -/
theorem ofChars_isOk_iff {text : List Char} :
    (∃ code, ofChars text = .ok code) ↔ Balanced text :=
  resolve_isOk_iff.trans balanced_iff_closes.symm

end Code

/-- The text of a tree is balanced. -/
theorem Block.balanced_chars (b : Block) : Balanced b.chars :=
  Code.ofChars_isOk_iff.mp ⟨_, b.ofChars_chars⟩

/-- A balanced text is the text of a tree. -/
theorem Balanced.exists_block {text : List Char} (h : Balanced text) :
    ∃ b : Block, b.chars = text := by
  obtain ⟨b, hb⟩ := Block.parse_isSome_of_balanced h
  exact ⟨b, Block.parse_eq_some_iff.mp hb⟩

theorem Balanced.beside {text text' : List Char} (h : Balanced text) (h' : Balanced text') :
    Balanced (text ++ text') := by
  obtain ⟨b, rfl⟩ := h.exists_block
  obtain ⟨b', rfl⟩ := h'.exists_block
  rw [← Block.chars_append]
  exact (b.append b').balanced_chars

/-! ## Partners -/

/-- The characters strictly between two positions. -/
def between (text : List Char) (o c : Nat) : List Char := text.extract (o + 1) c

/-- A stretch of text falls apart at a character inside it. -/
theorem between_split {text : List Char} {o m c : Nat} {x : Char} (hm : text[m]? = some x)
    (hom : o < m) (hmc : m < c) :
    between text o c = between text o m ++ x :: between text m c := by
  obtain ⟨hlt, hx⟩ := List.getElem?_eq_some_iff.mp hm
  have hdrop : (text.drop (o + 1)).drop (m - (o + 1)) = x :: text.drop (m + 1) := by
    rw [List.drop_drop, show o + 1 + (m - (o + 1)) = m from by omega,
      List.drop_eq_getElem_cons hlt, hx]
  have hlen : c - (o + 1) = m - (o + 1) + (c - (m + 1) + 1) := by omega
  unfold between List.extract
  rw [hlen, List.take_add, hdrop, List.take_succ_cons]

/-- After an opening bracket inside a balanced stretch there is more to
    close than to open. -/
theorem Balanced.opens_inside {text : List Char} {o m c : Nat}
    (h : Balanced (between text o c)) (hm : text[m]? = some '[') (hom : o < m) (hmc : m < c) :
    (between text m c).count '[' < (between text m c).count ']' := by
  rw [between_split hm hom hmc] at h
  have hs := Block.suffixes_of_balanced h _ (List.suffix_append _ _)
  rw [List.count_cons_self, List.count_cons_of_ne (by decide)] at hs
  omega

/-- Before a closing bracket inside a balanced stretch there is more opened
    than closed. -/
theorem Balanced.closes_inside {text : List Char} {o m c : Nat}
    (h : Balanced (between text o c)) (hm : text[m]? = some ']') (hom : o < m) (hmc : m < c) :
    (between text o m).count ']' < (between text o m).count '[' := by
  rw [between_split hm hom hmc, List.append_cons] at h
  have hp := h.prefixes _ (List.prefix_append _ _)
  rw [List.count_append, List.count_append, List.count_singleton_self,
    List.count_singleton, if_neg (by decide)] at hp
  omega

/-- An opening and a closing bracket with balanced text between them. -/
structure Partners (text : List Char) (o c : Nat) : Prop where
  opening : text[o]? = some '['
  closing : text[c]? = some ']'
  lt : o < c
  inner : Balanced (between text o c)

namespace Partners

variable {text : List Char} {o o' c c' : Nat}

/-- No bracket that opens inside a pair has the pair's closing bracket as
    its partner. -/
theorem opening_le (h : Partners text o c) (h' : Partners text o' c) : o' ≤ o := by
  by_contra hlt
  have hcount := h.inner.opens_inside h'.opening (by omega) h'.lt
  have hwhole := h'.inner.whole
  omega

/-- A closing bracket has one partner. -/
theorem opening_unique (h : Partners text o c) (h' : Partners text o' c) : o' = o :=
  Nat.le_antisymm (h.opening_le h') (h'.opening_le h)

/-- No bracket that closes inside a pair has the pair's opening bracket as
    its partner. -/
theorem le_closing (h : Partners text o c) (h' : Partners text o c') : c ≤ c' := by
  by_contra hlt
  have hcount := h.inner.closes_inside h'.closing h'.lt (by omega)
  have hwhole := h'.inner.whole
  omega

/-- An opening bracket has one partner. -/
theorem closing_unique (h : Partners text o c) (h' : Partners text o c') : c' = c :=
  Nat.le_antisymm (h'.le_closing h) (h.le_closing h')

/-- A pair that opens inside another pair closes inside it. -/
theorem nested (h : Partners text o c) (h' : Partners text o' c') (ho : o < o') (hc : o' < c) :
    c' < c := by
  by_contra hlt
  have hne : c ≠ c' := by
    rintro rfl
    exact absurd (h.opening_unique h') (by omega)
  have hopens := h.inner.opens_inside h'.opening ho hc
  have hcloses := h'.inner.closes_inside h.closing hc (by omega)
  omega

/-- A pair that opens after another one lies behind it or inside it. -/
theorem behind_or_inside (h : Partners text o c) (h' : Partners text o' c') (ho : o < o') :
    c < o' ∨ c' < c := by
  by_cases hc : o' < c
  · exact Or.inr (h.nested h' ho hc)
  · -- an opening and a closing bracket do not share a place
    have hne : c ≠ o' := by
      rintro rfl
      exact absurd (h.closing.symm.trans h'.opening) (by decide)
    exact Or.inl (by omega)

/-- Two different pairs lie side by side, or one lies inside the other. -/
theorem apart_or_nested (h : Partners text o c) (h' : Partners text o' c')
    (hne : (c, o) ≠ (c', o')) :
    c < o' ∨ c' < o ∨ (o < o' ∧ c' < c) ∨ (o' < o ∧ c < c') := by
  rcases Nat.lt_trichotomy o o' with hlt | rfl | hgt
  · rcases h.behind_or_inside h' hlt with hc | hc
    · exact Or.inl hc
    · exact Or.inr (Or.inr (Or.inl ⟨hlt, hc⟩))
  · exact absurd (by rw [h'.closing_unique h]) hne
  · rcases h'.behind_or_inside h hgt with hc | hc
    · exact Or.inr (Or.inl hc)
    · exact Or.inr (Or.inr (Or.inr ⟨hgt, hc⟩))

/-- Text in front moves a pair to the right. -/
theorem append_left (p : List Char) (h : Partners text o c) :
    Partners (p ++ text) (p.length + o) (p.length + c) := by
  refine ⟨?_, ?_, ?_, ?_⟩
  · rw [List.getElem?_append_right (by omega), Nat.add_sub_cancel_left]
    exact h.opening
  · rw [List.getElem?_append_right (by omega), Nat.add_sub_cancel_left]
    exact h.closing
  · have := h.lt
    omega
  · have hinner := h.inner
    unfold between List.extract at hinner ⊢
    rw [Nat.add_assoc, List.drop_append, List.drop_eq_nil_of_le (by omega), List.nil_append,
      Nat.add_sub_cancel_left, Nat.add_sub_add_left]
    exact hinner

/-- Text behind leaves a pair where it is. -/
theorem append_right (q : List Char) (h : Partners text o c) : Partners (text ++ q) o c := by
  have hc : c < text.length := (List.getElem?_eq_some_iff.mp h.closing).1
  have ho := h.lt
  refine ⟨?_, ?_, ho, ?_⟩
  · rw [List.getElem?_append_left (by omega)]
    exact h.opening
  · rw [List.getElem?_append_left hc]
    exact h.closing
  · have hinner := h.inner
    unfold between List.extract at hinner ⊢
    rw [List.drop_append_of_le_length (by omega), List.take_append_of_le_length (by simp; omega)]
    exact hinner

end Partners

/-! ## Pairs in trees -/

/-- An instruction is written with the character it stands for. -/
theorem Instr.glyph_ofPlain (c : Char) : (ofPlain c).glyph = c := by
  unfold ofPlain
  split_ifs with h₁ h₂ h₃ h₄ h₅
  · exact h₁.symm
  · exact h₂.symm
  · exact h₃.symm
  · exact h₄.symm
  · exact h₅.symm
  · rfl

/-- Where a value of a list stands that is a body between two values, with
    more behind. -/
theorem getElem?_framed {α : Type} {x y v : α} {body rest : List α} {j : Nat}
    (h : (x :: (body ++ y :: rest))[j]? = some v) :
    (j = 0 ∧ v = x) ∨ (∃ k, j = k + 1 ∧ body[k]? = some v) ∨
      (j = body.length + 1 ∧ v = y) ∨ (∃ k, j = body.length + 2 + k ∧ rest[k]? = some v) := by
  cases j with
  | zero => exact Or.inl ⟨rfl, (Option.some.inj h).symm⟩
  | succ j =>
      rw [List.getElem?_cons_succ] at h
      rcases Nat.lt_trichotomy j body.length with hlt | rfl | hgt
      · rw [List.getElem?_append_left hlt] at h
        exact Or.inr (Or.inl ⟨j, rfl, h⟩)
      · rw [List.getElem?_append_right (Nat.le_refl _), Nat.sub_self] at h
        exact Or.inr (Or.inr (Or.inl ⟨rfl, (Option.some.inj h).symm⟩))
      · obtain ⟨k, rfl⟩ : ∃ k, j = body.length + (k + 1) := ⟨j - body.length - 1, by omega⟩
        rw [List.getElem?_append_right (by omega), Nat.add_sub_cancel_left] at h
        exact Or.inr (Or.inr (Or.inr ⟨k, by omega, h⟩))

namespace Block

@[simp] theorem length_chars (b : Block) : b.chars.length = b.size := by
  induction b with
  | nil => rfl
  | plain c h rest ih => simp only [chars, size, List.length_cons, ih]
  | loop body rest ihb ihr =>
      simp only [chars, size, List.cons_append, List.length_cons, List.length_append, ihb, ihr]
      omega

/-- The code of a tree is spelt like its text. -/
theorem map_glyph_code (b : Block) (base : Nat) : (b.code base).map Instr.glyph = b.chars := by
  induction b generalizing base with
  | nil => rfl
  | plain c h rest ih => simp only [code, chars, List.map_cons, ih, Instr.glyph_ofPlain]
  | loop body rest ihb ihr =>
      simp only [code, chars, List.cons_append, List.map_cons, List.map_append, ihb, ihr,
        Instr.glyph]

/-- A pair behind the first character. -/
theorem partners_plain {c : Char} {hc : IsPlain c} {rest : Block} {o k : Nat}
    (h : Partners rest.chars o k) : Partners (plain c hc rest).chars (o + 1) (k + 1) := by
  have hl := h.append_left [c]
  rwa [List.length_singleton, Nat.add_comm 1 o, Nat.add_comm 1 k] at hl

/-- A pair in the body of a loop. -/
theorem partners_body {body rest : Block} {o k : Nat} (h : Partners body.chars o k) :
    Partners (loop body rest).chars (o + 1) (k + 1) := by
  have hl := (h.append_left ['[']).append_right (']' :: rest.chars)
  rwa [List.length_singleton, Nat.add_comm 1 o, Nat.add_comm 1 k] at hl

/-- A pair behind a loop. -/
theorem partners_rest {body rest : Block} {o k : Nat} (h : Partners rest.chars o k) :
    Partners (loop body rest).chars (body.chars.length + 2 + o) (body.chars.length + 2 + k) := by
  have hl := h.append_left ('[' :: body.chars ++ [']'])
  rw [List.append_assoc] at hl
  have hlen : ('[' :: body.chars ++ [']']).length = body.chars.length + 2 := by simp
  rwa [hlen] at hl

/-- The brackets of a loop. -/
theorem partners_loop (body rest : Block) :
    Partners (loop body rest).chars 0 (body.chars.length + 1) := by
  have hinner : between (loop body rest).chars 0 (body.chars.length + 1) = body.chars := by
    show ((body.chars ++ ']' :: rest.chars).drop 0).take (body.chars.length + 1 - 1) = body.chars
    rw [List.drop_zero, Nat.add_sub_cancel]
    exact List.take_left
  refine ⟨rfl, ?_, Nat.succ_pos _, ?_⟩
  · show (body.chars ++ ']' :: rest.chars)[body.chars.length]? = some ']'
    rw [List.getElem?_append_right (Nat.le_refl _), Nat.sub_self]
    rfl
  · rw [hinner]
    exact body.balanced_chars

/-- Every opening bracket of a tree is closed. -/
theorem exists_closing (b : Block) {o : Nat} (h : b.chars[o]? = some '[') :
    ∃ c, Partners b.chars o c := by
  induction b generalizing o with
  | nil => exact nomatch h
  | plain x hx rest ih =>
      cases o with
      | zero => exact absurd (Option.some.inj h) hx.1
      | succ o =>
          obtain ⟨c, hc⟩ := ih h
          exact ⟨c + 1, partners_plain hc⟩
  | loop body rest ihb ihr =>
      rcases getElem?_framed h with ⟨rfl, -⟩ | ⟨k, rfl, hk⟩ | ⟨-, hbad⟩ | ⟨k, rfl, hk⟩
      · exact ⟨_, partners_loop body rest⟩
      · obtain ⟨c, hc⟩ := ihb hk
        exact ⟨_, partners_body hc⟩
      · exact absurd hbad (by decide)
      · obtain ⟨c, hc⟩ := ihr hk
        exact ⟨_, partners_rest hc⟩

/-- Every closing bracket of a tree has been opened, and the code names the
    place. -/
theorem exists_opening (b : Block) (base : Nat) {c : Nat} (h : b.chars[c]? = some ']') :
    ∃ o, Partners b.chars o c ∧ (b.code base)[c]? = some (.loopEnd (base + o)) := by
  induction b generalizing base c with
  | nil => exact nomatch h
  | plain x hx rest ih =>
      cases c with
      | zero => exact absurd (Option.some.inj h) hx.2
      | succ c =>
          obtain ⟨o, ho, hcode⟩ := ih (base + 1) h
          refine ⟨o + 1, partners_plain ho, ?_⟩
          rw [show base + (o + 1) = base + 1 + o from by omega]
          exact hcode
  | loop body rest ihb ihr =>
      have hlen : (body.code (base + 1)).length = body.chars.length := by simp
      rcases getElem?_framed h with ⟨-, hbad⟩ | ⟨k, rfl, hk⟩ | ⟨rfl, -⟩ | ⟨k, rfl, hk⟩
      · exact absurd hbad (by decide)
      · obtain ⟨o, ho, hcode⟩ := ihb (base + 1) hk
        have hlt := (List.getElem?_eq_some_iff.mp hcode).1
        refine ⟨o + 1, partners_body ho, ?_⟩
        show (body.code (base + 1) ++ _)[k]? = _
        rw [List.getElem?_append_left hlt, hcode, show base + 1 + o = base + (o + 1) from by omega]
      · refine ⟨0, partners_loop body rest, ?_⟩
        show (body.code (base + 1) ++ _)[body.chars.length]? = _
        rw [List.getElem?_append_right (Nat.le_of_eq hlen), hlen, Nat.sub_self]
        rfl
      · obtain ⟨o, ho, hcode⟩ := ihr (base + body.size + 2) hk
        refine ⟨_, partners_rest ho, ?_⟩
        rw [show body.chars.length + 2 + k = body.chars.length + (k + 1) + 1 from by omega]
        show (body.code (base + 1) ++ .loopEnd base :: _)[body.chars.length + (k + 1)]? = _
        rw [List.getElem?_append_right (by omega), hlen, Nat.add_sub_cancel_left,
          List.getElem?_cons_succ, hcode, length_chars]
        congr 2
        omega

end Block

/-! ## The table of loops -/

namespace Code

variable {text : List Char} {code : Code}

/-- The table of loops lists what the closing brackets carry. -/
theorem mem_loops {c o : Nat} : (c, o) ∈ code.loops ↔ code[c]? = some (.loopEnd o) := by
  unfold loops
  rw [List.mem_filterMap]
  constructor
  · rintro ⟨⟨i, position⟩, hmem, hmap⟩
    obtain ⟨start, hstart, heq⟩ := Option.map_eq_some_iff.mp hmap
    obtain ⟨rfl, rfl⟩ := Prod.mk.inj heq
    have hi := List.mem_zipIdx_iff_getElem?.mp hmem
    rw [Array.getElem?_toList] at hi
    cases i with
    | loopEnd start' =>
        obtain rfl : start' = start := Option.some.inj hstart
        exact hi
    | _ => exact nomatch hstart
  · intro hi
    refine ⟨(.loopEnd o, c), List.mem_zipIdx_iff_getElem?.mpr ?_, rfl⟩
    rw [Array.getElem?_toList]
    exact hi

/-- The table is sorted by closing brackets, so none occurs twice. -/
theorem loops_pairwise : code.loops.Pairwise fun p q => p.1 < q.1 := by
  unfold loops
  rw [List.pairwise_filterMap]
  have hidx : (code.toList.zipIdx.map Prod.snd).Pairwise (· < ·) := by
    rw [List.zipIdx_map_snd]
    exact List.pairwise_lt_range'
  rw [List.pairwise_map] at hidx
  refine hidx.imp ?_
  rintro ⟨i, m⟩ ⟨j, n⟩ hlt p hp q hq
  obtain ⟨-, -, rfl⟩ := Option.map_eq_some_iff.mp hp
  obtain ⟨-, -, rfl⟩ := Option.map_eq_some_iff.mp hq
  exact hlt

/-- Resolved code is the code of the tree of its text. -/
theorem exists_block (h : ofChars text = .ok code) :
    ∃ b : Block, b.chars = text ∧ code = (b.code 0).toArray := by
  obtain ⟨b, hparse⟩ := Block.parse_isSome_of_balanced (ofChars_isOk_iff.mp ⟨code, h⟩)
  have hb := Block.parse_eq_some_iff.mp hparse
  refine ⟨b, hb, ?_⟩
  rw [← hb, b.ofChars_chars] at h
  exact (Except.ok.inj h).symm

/-- Resolved code has one instruction per character, written with that
    character. -/
theorem getElem?_glyph (h : ofChars text = .ok code) (ip : Nat) :
    code[ip]?.map Instr.glyph = text[ip]? := by
  obtain ⟨b, rfl, rfl⟩ := exists_block h
  rw [List.getElem?_toArray, ← b.map_glyph_code 0, List.getElem?_map]

theorem size_of_ofChars (h : ofChars text = .ok code) : code.size = text.length := by
  obtain ⟨b, rfl, rfl⟩ := exists_block h
  rw [List.size_toArray, ← b.map_glyph_code 0, List.length_map]

/-- Every instruction has a character of the text. -/
theorem lt_length_of_getElem? {ip : Nat} {i : Instr} (h : ofChars text = .ok code)
    (hi : code[ip]? = some i) : ip < text.length := by
  have hglyph := getElem?_glyph h ip
  rw [hi] at hglyph
  exact (List.getElem?_eq_some_iff.mp hglyph.symm).1

/-- A closing bracket carries the position of its partner. -/
theorem partners_iff (h : ofChars text = .ok code) {c o : Nat} :
    code[c]? = some (.loopEnd o) ↔ Partners text o c := by
  have hfind : text[c]? = some ']' → ∃ o, Partners text o c ∧ code[c]? = some (.loopEnd o) := by
    obtain ⟨b, rfl, rfl⟩ := exists_block h
    intro hc
    obtain ⟨o, ho, hcode⟩ := b.exists_opening 0 hc
    rw [Nat.zero_add, ← List.getElem?_toArray] at hcode
    exact ⟨o, ho, hcode⟩
  constructor
  · intro hcode
    have hc := getElem?_glyph h c
    rw [hcode] at hc
    obtain ⟨o', ho', hcode'⟩ := hfind hc.symm
    rw [hcode] at hcode'
    obtain rfl : o = o' := Instr.loopEnd.inj (Option.some.inj hcode')
    exact ho'
  · intro hp
    obtain ⟨o', ho', hcode⟩ := hfind hp.closing
    rw [hcode, ho'.opening_unique hp]

end Code

/-- A table of pairs (closing position, opening position) that is exactly
    the bracket matching of a text. -/
structure Pairing (text : List Char) (table : List (Nat × Nat)) : Prop where
  /-- No key occurs twice. -/
  keys_nodup : (table.map Prod.fst).Nodup
  /-- The keys are the closing brackets. -/
  mem_keys : ∀ c, c ∈ table.map Prod.fst ↔ text[c]? = some ']'
  /-- No value occurs twice. -/
  values_nodup : (table.map Prod.snd).Nodup
  /-- The values are the opening brackets. -/
  mem_values : ∀ o, o ∈ table.map Prod.snd ↔ text[o]? = some '['
  /-- The value comes first, and what is between is balanced. -/
  inner : ∀ c o, (c, o) ∈ table → o < c ∧ Balanced (between text o c)
  /-- No other opening bracket fits. -/
  unique : ∀ c o, (c, o) ∈ table → ∀ o', text[o']? = some '[' → o' < c →
    Balanced (between text o' c) → o' = o
  /-- Two pairs lie side by side, or one lies inside the other. -/
  apart_or_nested : ∀ c o c' o', (c, o) ∈ table → (c', o') ∈ table → (c, o) ≠ (c', o') →
    c < o' ∨ c' < o ∨ (o < o' ∧ c' < c) ∨ (o' < o ∧ c < c')

/-- The loops found in a text are its bracket matching. -/
theorem Code.pairing_loops {text : List Char} {code : Code} (h : ofChars text = .ok code) :
    Pairing text code.loops := by
  have hpair : ∀ {c o}, (c, o) ∈ code.loops ↔ Partners text o c :=
    mem_loops.trans (partners_iff h)
  refine ⟨?_, ?_, ?_, ?_, ?_, ?_, ?_⟩
  · rw [List.Nodup, List.pairwise_map]
    exact loops_pairwise.imp Nat.ne_of_lt
  · intro c
    rw [List.mem_map]
    constructor
    · rintro ⟨⟨c, o⟩, hmem, rfl⟩
      exact (hpair.mp hmem).closing
    · intro hc
      obtain ⟨b, rfl, -⟩ := exists_block h
      obtain ⟨o, ho, -⟩ := b.exists_opening 0 hc
      exact ⟨(c, o), hpair.mpr ho, rfl⟩
  · rw [List.Nodup, List.pairwise_map]
    refine loops_pairwise.imp_of_mem ?_
    rintro ⟨c, o⟩ ⟨c', o'⟩ hmem hmem' hlt rfl
    -- two closing brackets with one partner are the same
    have := (hpair.mp hmem).closing_unique (hpair.mp hmem')
    exact absurd this (Nat.ne_of_gt hlt)
  · intro o
    rw [List.mem_map]
    constructor
    · rintro ⟨⟨c, o⟩, hmem, rfl⟩
      exact (hpair.mp hmem).opening
    · intro ho
      obtain ⟨b, rfl, -⟩ := exists_block h
      obtain ⟨c, hc⟩ := b.exists_closing ho
      exact ⟨(c, o), hpair.mpr hc, rfl⟩
  · intro c o hmem
    exact ⟨(hpair.mp hmem).lt, (hpair.mp hmem).inner⟩
  · intro c o hmem o' ho' hlt hinner
    have hp := hpair.mp hmem
    exact hp.opening_unique ⟨ho', hp.closing, hlt, hinner⟩
  · intro c o c' o' hmem hmem' hne
    exact (hpair.mp hmem).apart_or_nested (hpair.mp hmem') hne

example : (Code.ofText ">[+>[+-]<]").map Code.loops = .ok [(7, 4), (9, 1)] := by rfl

/-- **Resolving finds the bracket matching.**  A text resolves exactly if
    it is balanced, and the loops then found are exactly its matching
    pairs.  So whenever a run of the code meets a closing bracket, the
    table has a place to go back to, and it lies before the bracket. -/
theorem ofText_pairs_brackets (text : String) :
    ((∃ code, Code.ofText text = .ok code) ↔ Balanced text.toList) ∧
    ∀ code, Code.ofText text = .ok code →
      Pairing text.toList code.loops ∧
      ∀ (t : Tape) (n : Nat) (s : State Tape), code.Reaches n (.start t) s →
        text.toList[s.ip]? = some ']' →
        ∃ o, (s.ip, o) ∈ code.loops ∧ o < s.ip ∧
          ∃ s', code.step? s = some s' ∧
            s'.ip = if s.memory.cell = 0 then s.ip + 1 else o + 1 := by
  refine ⟨Code.ofChars_isOk_iff, ?_⟩
  intro code hcode
  have hpairing := Code.pairing_loops hcode
  refine ⟨hpairing, ?_⟩
  intro t n s _ hip
  obtain ⟨⟨c, o⟩, hmem, rfl⟩ := List.mem_map.mp ((hpairing.mem_keys s.ip).mpr hip)
  refine ⟨o, hmem, (hpairing.inner _ _ hmem).1, (Instr.loopEnd o).act s, ?_, rfl⟩
  rw [Code.step?, Code.mem_loops.mp hmem]
  rfl

end TapeMachine
