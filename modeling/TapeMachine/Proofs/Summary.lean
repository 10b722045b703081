import TapeMachine.Proofs.Line

/-! # Summaries — what one line of text tells of a tape

    A tape is shown as the decimals of its cells, with a separator
    between them, and summed up by this text and the place of the cursor.
    Nothing is lost: the text can be read back, since none of the
    characters that end a part occurs inside the part.

      * `split_unique`: a text is cut at its first separator in one way.
      * `decimals_injective`: the cells are told by their decimals, by
        induction on the cells, cutting off one at a time.
      * `Tape.summary_injective`: a tape is told by its summary. -/

namespace TapeMachine

theorem split_unique {c : Char} {a b r s : List Char} (ha : c ∉ a) (hb : c ∉ b)
    (h : a ++ c :: r = b ++ c :: s) : a = b ∧ r = s := by
  induction a generalizing b with
  | nil =>
      cases b with
      | nil => exact ⟨rfl, (List.cons.inj h).2⟩
      | cons d b =>
          obtain ⟨rfl, -⟩ := List.cons.inj h
          exact absurd List.mem_cons_self hb
  | cons d a ih =>
      cases b with
      | nil =>
          obtain ⟨rfl, -⟩ := List.cons.inj h
          exact absurd List.mem_cons_self ha
      | cons e b =>
          obtain ⟨rfl, htail⟩ := List.cons.inj h
          obtain ⟨rfl, hrest⟩ := ih (fun hm => ha (List.mem_cons_of_mem _ hm))
            (fun hm => hb (List.mem_cons_of_mem _ hm)) htail
          exact ⟨rfl, hrest⟩

/-! ## Decimals -/

theorem isDigit_of_mem_natText {n : Nat} {c : Char} (h : c ∈ (toString n).toList) :
    c.isDigit = true := by
  rw [Nat.toString_eq_repr, Nat.toList_repr] at h
  exact Nat.isDigit_of_mem_toDigits (by decide) (by decide) h

/-- A number is told by its digits. -/
theorem natText_injective {n m : Nat} (h : (toString n).toList = (toString m).toList) : n = m := by
  rw [Nat.toString_eq_repr, Nat.toString_eq_repr, Nat.toList_repr, Nat.toList_repr] at h
  rw [← @Nat.ofDigitChars_ten_toDigits n, h, Nat.ofDigitChars_ten_toDigits]

namespace Cell

/-- Digits, with a sign in front of those of a negative number. -/
theorem toList_text (v : Cell) : v.text.toList
    = if 0 ≤ v.toInt then (toString v.toInt.toNat).toList
      else '-' :: (toString (-v.toInt).toNat).toList := by
  rw [text, Int.toString_eq_repr, Int.repr_eq_if]
  split
  · rw [Nat.toString_eq_repr]
  · rw [String.toList_append, Nat.toString_eq_repr]
    rfl

theorem text_injective {v w : Cell} (h : v.text = w.text) : v = w := by
  have hsign : ∀ (n : Nat) (cs : List Char), '-' :: cs ≠ (toString n).toList := by
    intro n cs heq
    have hmem : '-' ∈ (toString n).toList := heq ▸ List.mem_cons_self
    exact absurd (isDigit_of_mem_natText hmem) (by decide)
  have hchars := congrArg String.toList h
  rw [toList_text, toList_text] at hchars
  refine Int32.toInt_inj.mp ?_
  split at hchars
  · split at hchars
    · have := natText_injective hchars
      omega
    · exact absurd hchars.symm (hsign _ _)
  · split at hchars
    · exact absurd hchars (hsign _ _)
    · have := natText_injective (List.cons.inj hchars).2
      omega

/-- A cell is written with digits and a sign. -/
theorem mem_text {v : Cell} {c : Char} (h : c ∈ v.text.toList) : c.isDigit = true ∨ c = '-' := by
  rw [toList_text] at h
  split at h
  · exact Or.inl (isDigit_of_mem_natText h)
  · rcases List.mem_cons.mp h with h | h
    · exact Or.inr h
    · exact Or.inl (isDigit_of_mem_natText h)

end Cell

/-- The decimals of cells, with a separator between them. -/
def decimals (cells : List Cell) : List Char :=
  [',', ' '].intercalate (cells.map fun v => v.text.toList)

theorem decimals_singleton (v : Cell) : decimals [v] = v.text.toList :=
  List.intercalate_singleton

theorem decimals_cons_cons (v w : Cell) (cells : List Cell) :
    decimals (v :: w :: cells) = v.text.toList ++ ',' :: ' ' :: decimals (w :: cells) := by
  simp only [decimals, List.map_cons, List.intercalate_cons_cons, List.append_assoc]
  rfl

theorem mem_decimals {cells : List Cell} {c : Char} (h : c ∈ decimals cells) :
    c.isDigit = true ∨ c ∈ ['-', ',', ' '] := by
  induction cells with
  | nil => cases h
  | cons v cells ih =>
      have hv : c ∈ v.text.toList → c.isDigit = true ∨ c ∈ ['-', ',', ' '] := by
        intro hc
        rcases Cell.mem_text hc with hdigit | rfl
        · exact Or.inl hdigit
        · exact Or.inr (by decide)
      cases cells with
      | nil => exact hv (decimals_singleton v ▸ h)
      | cons w cells =>
          rw [decimals_cons_cons] at h
          rcases List.mem_append.mp h with h | h
          · exact hv h
          · rcases List.mem_cons.mp h with rfl | h
            · exact Or.inr (by decide)
            · rcases List.mem_cons.mp h with rfl | h
              · exact Or.inr (by decide)
              · exact ih h

/-- Decimals do not contain the separator. -/
theorem comma_notMem_text (v : Cell) : ',' ∉ v.text.toList := by
  intro h
  rcases Cell.mem_text h with h | h
  · exact absurd h (by decide)
  · exact absurd h (by decide)

/-- **Cells are told by their decimals.** -/
theorem decimals_injective {vs ws : List Cell} (hvs : vs ≠ []) (hws : ws ≠ [])
    (h : decimals vs = decimals ws) : vs = ws := by
  induction vs generalizing ws with
  | nil => exact absurd rfl hvs
  | cons v vs ih =>
      cases ws with
      | nil => exact absurd rfl hws
      | cons w ws =>
          cases vs with
          | nil =>
              cases ws with
              | nil =>
                  rw [decimals_singleton, decimals_singleton] at h
                  rw [Cell.text_injective (String.toList_inj.mp h)]
              | cons w' ws =>
                  -- a single cell is written without a separator
                  rw [decimals_singleton, decimals_cons_cons] at h
                  refine absurd ?_ (comma_notMem_text v)
                  rw [h]
                  exact List.mem_append_right _ List.mem_cons_self
          | cons v' vs =>
              cases ws with
              | nil =>
                  rw [decimals_singleton, decimals_cons_cons] at h
                  refine absurd ?_ (comma_notMem_text w)
                  rw [← h]
                  exact List.mem_append_right _ List.mem_cons_self
              | cons w' ws =>
                  rw [decimals_cons_cons, decimals_cons_cons] at h
                  obtain ⟨hfirst, hrest⟩ :=
                    split_unique (comma_notMem_text v) (comma_notMem_text w) h
                  rw [Cell.text_injective (String.toList_inj.mp hfirst),
                    ih (List.cons_ne_nil _ _) (List.cons_ne_nil _ _) (List.cons.inj hrest).2]

/-! ## Tapes -/

namespace Tape

theorem cells_ne_nil (t : Tape) : t.cells ≠ [] :=
  List.append_ne_nil_of_right_ne_nil _ (List.cons_ne_nil _ _)

theorem toList_text (t : Tape) : t.text.toList = '[' :: (decimals t.cells ++ [']']) := by
  rw [text, String.toList_append, String.toList_append, String.toList_intercalate, List.map_map]
  rfl

theorem closing_notMem_decimals (cells : List Cell) : ']' ∉ decimals cells := by
  intro h
  rcases mem_decimals h with h | h
  · exact absurd h (by decide)
  · exact absurd h (by decide)

/-- The cells of a tape are told by its text, whatever comes behind it. -/
theorem cells_of_text {t t' : Tape} {r r' : List Char}
    (h : t.text.toList ++ r = t'.text.toList ++ r') : t.cells = t'.cells ∧ r = r' := by
  rw [toList_text, toList_text] at h
  simp only [List.cons_append, List.append_assoc, List.nil_append, List.cons.injEq,
    true_and] at h
  obtain ⟨hcells, hrest⟩ :=
    split_unique (closing_notMem_decimals t.cells) (closing_notMem_decimals t'.cells) h
  exact ⟨decimals_injective t.cells_ne_nil t'.cells_ne_nil hcells, hrest⟩

theorem line_injective {t t' : Tape} (h : t.line = t'.line) : t = t' := by
  obtain ⟨before, v, after⟩ := t
  obtain ⟨before', v', after'⟩ := t'
  have hcells : before.reverse ++ v :: after = before'.reverse ++ v' :: after' :=
    congrArg Line.cells h
  have hoffset : before.length = before'.length := congrArg Line.index h
  obtain ⟨hbefore, hrest⟩ := List.append_inj hcells (by
    rw [List.length_reverse, List.length_reverse, hoffset])
  obtain ⟨rfl, rfl⟩ := List.cons.inj hrest
  rw [List.reverse_inj.mp hbefore]

/-- **A tape is told by its summary.** -/
theorem summary_injective {t t' : Tape} (h : t.summary = t'.summary) : t = t' := by
  have hchars := congrArg String.toList h
  simp only [summary, String.toList_append, List.append_assoc, List.append_cancel_left_eq]
    at hchars
  obtain ⟨hcells, hrest⟩ := cells_of_text hchars
  have hcomma : ∀ n : Nat, ',' ∉ (toString n).toList :=
    fun n hmem => absurd (isDigit_of_mem_natText hmem) (by decide)
  obtain ⟨hoffset, -⟩ := split_unique (hcomma t.offset) (hcomma t'.offset)
    (List.append_cancel_left hrest)
  exact line_injective (Line.ext hcells (natText_injective hoffset))

end Tape

end TapeMachine
