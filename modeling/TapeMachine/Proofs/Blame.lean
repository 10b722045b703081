import TapeMachine.Proofs.Brackets

/-! # Blame — the bracket named when a text is refused

    A text can be refused in two ways: a closing bracket comes when no
    loop is open, or the text ends while some are.  The bracket that is
    named is found here by counting and pairing, without a stack.

      * `StillOpen text pos pending`: what the stack of the scan stands
        for at a position.  Between one open bracket and the next, and
        from the last one to the position, the text is balanced.
      * `Code.resolve_blamed`: this holds all through the scan, so it
        holds where the scan gives up.  The induction is on the text that
        is left.
      * `Blamed.firstStray`, `Blamed.lastOpen`: what the two kinds of
        blame say.  Both determine the position, so each is the only
        reason for its refusal. -/

namespace TapeMachine

/-! ## Loops still open -/

/-- A stretch of text in two parts. -/
theorem extract_append_extract (text : List Char) {a b c : Nat} (hab : a ≤ b) (hbc : b ≤ c) :
    text.extract a b ++ text.extract b c = text.extract a c := by
  unfold List.extract
  rw [show c - a = (b - a) + (c - b) by omega, List.take_add, List.drop_drop,
    Nat.add_sub_cancel' hab]

/-- The stretch from an opening bracket on. -/
theorem extract_of_opening {text : List Char} {start pos : Nat} (h : text[start]? = some '[')
    (hlt : start < pos) : text.extract start pos = '[' :: between text start pos := by
  obtain ⟨hlen, hget⟩ := List.getElem?_eq_some_iff.mp h
  unfold between List.extract
  rw [List.drop_eq_getElem_cons hlen, hget,
    show pos - start = pos - (start + 1) + 1 by omega, List.take_succ_cons]

/-- The stretch of a single character. -/
theorem extract_succ {text : List Char} {pos : Nat} {c : Char} (h : text[pos]? = some c) :
    text.extract pos (pos + 1) = [c] := by
  obtain ⟨hlen, hget⟩ := List.getElem?_eq_some_iff.mp h
  unfold List.extract
  rw [List.drop_eq_getElem_cons hlen, hget, Nat.add_sub_cancel_left]
  rfl

/-- At position `pos` of a text these loops are open, the innermost first:
    the text after each opening bracket is balanced up to the next one, or
    up to `pos`. -/
inductive StillOpen (text : List Char) : Nat → List Nat → Prop where
  | none {pos : Nat} : Balanced (text.extract 0 pos) → StillOpen text pos []
  | opened {pos start : Nat} {outer : List Nat} : text[start]? = some '[' → start < pos →
      Balanced (between text start pos) → StillOpen text start outer →
      StillOpen text pos (start :: outer)

namespace StillOpen

variable {text : List Char} {pos pos' start : Nat} {pending outer : List Nat}

/-- A balanced stretch leaves open what was open before it. -/
theorem extend (h : StillOpen text pos pending) (hle : pos ≤ pos')
    (hbal : Balanced (text.extract pos pos')) : StillOpen text pos' pending := by
  cases h with
  | none hfront =>
      refine .none ?_
      rw [← extract_append_extract text (Nat.zero_le pos) hle]
      exact hfront.beside hbal
  | opened hopen hlt hinner houter =>
      refine .opened hopen (by omega) ?_ houter
      unfold between at hinner ⊢
      rw [← extract_append_extract text hlt hle]
      exact hinner.beside hbal

/-- A character other than a bracket changes nothing. -/
theorem plain {c : Char} (h : StillOpen text pos pending) (hget : text[pos]? = some c)
    (hc : IsPlain c) : StillOpen text (pos + 1) pending := by
  refine h.extend (Nat.le_succ pos) ?_
  rw [extract_succ hget]
  exact (Block.plain c hc .nil).balanced_chars

/-- An opening bracket opens a loop. -/
theorem opening (h : StillOpen text pos pending) (hget : text[pos]? = some '[') :
    StillOpen text (pos + 1) (pos :: pending) := by
  refine .opened hget (Nat.lt_succ_self pos) ?_ h
  unfold between List.extract
  rw [Nat.sub_self, List.take_zero]
  exact Block.nil.balanced_chars

/-- A closing bracket closes the innermost loop. -/
theorem closing (h : StillOpen text pos (start :: outer)) (hget : text[pos]? = some ']') :
    StillOpen text (pos + 1) outer := by
  cases h with
  | opened hopen hlt hinner houter =>
      refine houter.extend (by omega) ?_
      obtain ⟨b, hb⟩ := hinner.exists_block
      rw [← extract_append_extract text (Nat.le_of_lt hlt) (Nat.le_succ pos),
        extract_of_opening hopen hlt, extract_succ hget, ← hb]
      exact (Block.loop b .nil).balanced_chars

/-- As long as the scan goes on, no part at the front closes more than it
    opens. -/
theorem prefixes (h : StillOpen text pos pending) :
    ∀ p, p <+: text.extract 0 pos → p.count ']' ≤ p.count '[' := by
  induction h with
  | none hfront => exact hfront.prefixes
  | @opened pos start outer hopen hlt hinner _ ih =>
      intro p hp
      rw [← extract_append_extract text (Nat.zero_le start) (Nat.le_of_lt hlt),
        extract_of_opening hopen hlt] at hp
      obtain ⟨q, hq⟩ := hp
      rcases List.append_eq_append_iff.mp hq with ⟨r, hr, -⟩ | ⟨r, rfl, hr⟩
      · exact ih p ⟨r, hr.symm⟩
      · -- the part reaches beyond the bracket, and what is behind it is balanced
        have hfront := ih _ (List.prefix_refl _)
        cases r with
        | nil =>
            rw [List.append_nil]
            exact hfront
        | cons x r =>
            obtain ⟨rfl, hbehind⟩ := List.cons.inj hr
            have hback := hinner.prefixes r ⟨q, hbehind.symm⟩
            rw [List.count_append, List.count_append, List.count_cons_self,
              List.count_cons_of_ne (by decide)]
            omega

end StillOpen

/-! ## Refusals -/

/-- A bracket that is to blame: it closes where nothing is open, or it is
    the innermost one still open at the end. -/
inductive Blamed (text : List Char) : Unmatched → Prop where
  | closing {ip : Nat} : StillOpen text ip [] → text[ip]? = some ']' → Blamed text ⟨ip, .closing⟩
  | opening {ip : Nat} {outer : List Nat} : StillOpen text text.length (ip :: outer) →
      Blamed text ⟨ip, .opening⟩

namespace Code

/-- What is read next of a text, and what is left of it then. -/
theorem read_of_drop {full text : List Char} {done : Code} {c : Char}
    (h : full.drop done.size = c :: text) :
    full[done.size]? = some c ∧ ∀ i, full.drop (done.push i).size = text := by
  constructor
  · rw [← Nat.add_zero done.size, ← List.getElem?_drop, h]
    rfl
  · intro i
    rw [Array.size_push, ← List.drop_drop, h]
    rfl

/-- If the stack of a scan holds the loops still open, the bracket that the
    scan blames is to blame. -/
theorem resolve_blamed {full text : List Char} {pending : List Nat} {done : Code} {u : Unmatched}
    (htext : full.drop done.size = text) (hsize : done.size ≤ full.length)
    (hopen : StillOpen full done.size pending) (h : resolve text pending done = .error u) :
    Blamed full u := by
  induction text generalizing pending done with
  | nil =>
      have hend : done.size = full.length :=
        Nat.le_antisymm hsize (List.drop_eq_nil_iff.mp htext)
      rw [hend] at hopen
      cases pending with
      | nil => cases h
      | cons start outer =>
          obtain rfl := Except.error.inj h
          exact .opening hopen
  | cons c text ih =>
      obtain ⟨hc, hrest⟩ := read_of_drop htext
      have hlt := (List.getElem?_eq_some_iff.mp hc).1
      have hpush : ∀ i, (done.push i).size = done.size + 1 := fun i => Array.size_push i
      by_cases hbopen : c = '['
      · subst hbopen
        rw [resolve_opening] at h
        refine ih (hrest _) (by rw [hpush]; exact hlt) ?_ h
        rw [hpush]
        exact hopen.opening hc
      · by_cases hbclose : c = ']'
        · subst hbclose
          cases pending with
          | nil =>
              obtain rfl := Except.error.inj h
              exact .closing hopen hc
          | cons start outer =>
              rw [resolve_closing] at h
              refine ih (hrest _) (by rw [hpush]; exact hlt) ?_ h
              rw [hpush]
              exact hopen.closing hc
        · rw [resolve_plain ⟨hbopen, hbclose⟩] at h
          refine ih (hrest _) (by rw [hpush]; exact hlt) ?_ h
          rw [hpush]
          exact hopen.plain hc ⟨hbopen, hbclose⟩

theorem ofChars_blamed {text : List Char} {u : Unmatched} (h : ofChars text = .error u) :
    Blamed text u :=
  @resolve_blamed text text [] #[] u rfl (Nat.zero_le _) (.none Block.nil.balanced_chars) h

/-- The text that is refused has the blamed bracket. -/
theorem ofChars_blames {text : List Char} {u : Unmatched} (h : ofChars text = .error u) :
    text[u.position]? = some u.bracket.glyph := by
  cases ofChars_blamed h with
  | closing _ hget => exact hget
  | opening hopen =>
      cases hopen with
      | opened hget _ _ _ => exact hget

end Code

/-! ## What the blame says -/

/-- No part at the front of the text has more closing than opening
    brackets. -/
def NoStray (text : List Char) : Prop := ∀ p, p <+: text → p.count ']' ≤ p.count '['

/-- The first position up to which, itself included, the text has more
    closing than opening brackets. -/
structure FirstStray (text : List Char) (ip : Nat) : Prop where
  inside : ip < text.length
  more : (text.take (ip + 1)).count '[' < (text.take (ip + 1)).count ']'
  least : ∀ j, j < ip → (text.take (j + 1)).count ']' ≤ (text.take (j + 1)).count '['

/-- The last opening bracket that has no partner. -/
structure LastOpen (text : List Char) (ip : Nat) : Prop where
  opening : text[ip]? = some '['
  alone : ¬ ∃ c, Partners text ip c
  last : ∀ j, ip < j → text[j]? = some '[' → ∃ c, Partners text j c

section Blame

variable {text : List Char} {ip ip' : Nat}

theorem FirstStray.unique (h : FirstStray text ip) (h' : FirstStray text ip') : ip = ip' := by
  rcases Nat.lt_trichotomy ip ip' with hlt | heq | hgt
  · exact absurd h.more (Nat.not_lt_of_le (h'.least ip hlt))
  · exact heq
  · exact absurd h'.more (Nat.not_lt_of_le (h.least ip' hgt))

theorem LastOpen.unique (h : LastOpen text ip) (h' : LastOpen text ip') : ip = ip' := by
  rcases Nat.lt_trichotomy ip ip' with hlt | heq | hgt
  · exact absurd (h.last ip' hlt h'.opening) h'.alone
  · exact heq
  · exact absurd (h'.last ip hgt h.opening) h.alone

/-- Only the text up to the position matters. -/
theorem FirstStray.of_take (h : FirstStray text ip) (more : List Char) :
    FirstStray (text.take (ip + 1) ++ more) ip := by
  have hin := h.inside
  have hsame : ∀ j, j ≤ ip →
      (text.take (ip + 1) ++ more).take (j + 1) = text.take (j + 1) := by
    intro j hj
    rw [List.take_append_of_le_length (by rw [List.length_take]; omega), List.take_take,
      Nat.min_eq_left (by omega)]
  refine ⟨?_, ?_, ?_⟩
  · rw [List.length_append, List.length_take]
    omega
  · rw [hsame ip (Nat.le_refl ip)]
    exact h.more
  · intro j hj
    rw [hsame j (Nat.le_of_lt hj)]
    exact h.least j hj

theorem Blamed.firstStray (h : Blamed text ⟨ip, .closing⟩) : FirstStray text ip := by
  cases h with
  | closing hopen hget =>
      cases hopen with
      | none hbal =>
          have htake : text.take (ip + 1) = text.extract 0 ip ++ [']'] := by
            rw [List.take_add_one, hget]
            rfl
          refine ⟨(List.getElem?_eq_some_iff.mp hget).1, ?_, ?_⟩
          · rw [htake, List.count_append, List.count_append, hbal.whole]
            simp
          · intro j hj
            exact hbal.prefixes _ (List.take_prefix_take_left hj)

/-- If balanced text follows an opening bracket, it has no partner and all
    later ones have. -/
theorem lastOpen_of_balanced (hget : text[ip]? = some '[')
    (hbal : Balanced (text.drop (ip + 1))) : LastOpen text ip := by
  refine ⟨hget, ?_, ?_⟩
  · rintro ⟨c, hc⟩
    -- up to the partner and including it, the rest would close too much
    have hlt := hc.lt
    have hnext : (text.drop (ip + 1))[c - (ip + 1)]? = some ']' := by
      rw [List.getElem?_drop, Nat.add_sub_cancel' hlt]
      exact hc.closing
    have hcount := hbal.prefixes _ (List.take_prefix (c - (ip + 1) + 1) _)
    have hwhole : ((text.drop (ip + 1)).take (c - (ip + 1))).count ']'
        = ((text.drop (ip + 1)).take (c - (ip + 1))).count '[' := hc.inner.whole
    rw [List.take_add_one, hnext, Option.toList_some, List.count_append, List.count_append,
      List.count_singleton_self, List.count_singleton, if_neg (by decide)] at hcount
    omega
  · intro j hj hopen
    obtain ⟨b, hb⟩ := hbal.exists_block
    have hlater : b.chars[j - (ip + 1)]? = some '[' := by
      rw [hb, List.getElem?_drop, Nat.add_sub_cancel' hj]
      exact hopen
    obtain ⟨c, hc⟩ := b.exists_closing hlater
    have hlen : (text.take (ip + 1)).length = ip + 1 := by
      have := (List.getElem?_eq_some_iff.mp hopen).1
      rw [List.length_take]
      omega
    have hpair := hc.append_left (text.take (ip + 1))
    rw [hb, List.take_append_drop, hlen, Nat.add_sub_cancel' hj] at hpair
    exact ⟨_, hpair⟩

theorem Blamed.balanced_behind (h : Blamed text ⟨ip, .opening⟩) :
    text[ip]? = some '[' ∧ Balanced (text.drop (ip + 1)) := by
  cases h with
  | opening hopen =>
      cases hopen with
      | opened hget hlt hinner _ =>
          refine ⟨hget, ?_⟩
          unfold between List.extract at hinner
          rwa [List.take_of_length_le (by rw [List.length_drop])] at hinner

theorem Blamed.lastOpen (h : Blamed text ⟨ip, .opening⟩) : LastOpen text ip :=
  lastOpen_of_balanced h.balanced_behind.1 h.balanced_behind.2

theorem Blamed.noStray (h : Blamed text ⟨ip, .opening⟩) : NoStray text := by
  cases h with
  | opening hopen =>
      intro p hp
      refine hopen.prefixes p ?_
      unfold List.extract
      rwa [List.drop_zero, Nat.sub_zero, List.take_length]

/-- A text in which something strays is not free of strays. -/
theorem FirstStray.not_noStray (h : FirstStray text ip) : ¬ NoStray text := by
  intro hno
  exact absurd h.more (Nat.not_lt_of_le (hno _ (List.take_prefix _ _)))

/-- An opening bracket without partner leaves the text unbalanced. -/
theorem LastOpen.not_balanced (h : LastOpen text ip) : ¬ Balanced text := by
  intro hbal
  obtain ⟨b, rfl⟩ := hbal.exists_block
  exact h.alone (b.exists_closing h.opening)

/-- A text is refused for a closing bracket exactly if it is the first that
    strays. -/
theorem ofChars_eq_closing_iff :
    Code.ofChars text = .error ⟨ip, .closing⟩ ↔ FirstStray text ip := by
  constructor
  · intro h
    exact (Code.ofChars_blamed h).firstStray
  · intro h
    cases hcode : Code.ofChars text with
    | ok code =>
        have hbal := Code.ofChars_isOk_iff.mp ⟨code, hcode⟩
        exact absurd hbal.prefixes h.not_noStray
    | error u =>
        obtain ⟨ip', bracket⟩ := u
        have hblamed := Code.ofChars_blamed hcode
        cases bracket with
        | closing => rw [h.unique hblamed.firstStray]
        | opening => exact absurd hblamed.noStray h.not_noStray

/-- A text is refused for an opening bracket exactly if nothing strays and
    it is the last without partner. -/
theorem ofChars_eq_opening_iff :
    Code.ofChars text = .error ⟨ip, .opening⟩ ↔ NoStray text ∧ LastOpen text ip := by
  constructor
  · intro h
    exact ⟨(Code.ofChars_blamed h).noStray, (Code.ofChars_blamed h).lastOpen⟩
  · rintro ⟨hno, hlast⟩
    cases hcode : Code.ofChars text with
    | ok code => exact absurd (Code.ofChars_isOk_iff.mp ⟨code, hcode⟩) hlast.not_balanced
    | error u =>
        obtain ⟨ip', bracket⟩ := u
        have hblamed := Code.ofChars_blamed hcode
        cases bracket with
        | closing => exact absurd hno hblamed.firstStray.not_noStray
        | opening => rw [hlast.unique hblamed.lastOpen]

end Blame

example : Code.ofText "[a]][" = .error ⟨3, .closing⟩ := by rfl

example : Code.ofText "[[a[]" = .error ⟨1, .opening⟩ := by rfl

/-- **The right bracket is blamed.**  A text is refused for a closing
    bracket exactly if it is the first up to which there are more closing
    than opening brackets, whatever follows.  It is refused for an opening
    bracket exactly if at no place there are more closing than opening
    brackets and it is the last one without a partner; that is the one
    behind which the text is balanced. -/
theorem refusal_blames_bracket (text : String) (ip : Nat) :
    (Code.ofText text = .error ⟨ip, .closing⟩ ↔ FirstStray text.toList ip) ∧
    (Code.ofText text = .error ⟨ip, .closing⟩ → ∀ more : List Char,
      Code.ofChars (text.toList.take (ip + 1) ++ more) = .error ⟨ip, .closing⟩) ∧
    (Code.ofText text = .error ⟨ip, .opening⟩ ↔
      NoStray text.toList ∧ LastOpen text.toList ip) ∧
    (NoStray text.toList → (LastOpen text.toList ip ↔
      text.toList[ip]? = some '[' ∧ Balanced (text.toList.drop (ip + 1)))) := by
  refine ⟨ofChars_eq_closing_iff, ?_, ofChars_eq_opening_iff, ?_⟩
  · intro h more
    exact ofChars_eq_closing_iff.mpr ((ofChars_eq_closing_iff.mp h).of_take more)
  · intro hno
    constructor
    · intro hlast
      have hrefused : Code.ofText text = .error ⟨ip, .opening⟩ :=
        ofChars_eq_opening_iff.mpr ⟨hno, hlast⟩
      exact (Code.ofChars_blamed hrefused).balanced_behind
    · rintro ⟨hget, hbal⟩
      exact lastOpen_of_balanced hget hbal

end TapeMachine
