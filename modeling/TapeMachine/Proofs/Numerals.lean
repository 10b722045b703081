import TapeMachine.Text.Blank
import TapeMachine.Text.Numeral
import Mathlib.Data.List.DropRight
import Mathlib.Data.Nat.Digits.Defs
import Mathlib.Tactic.IntervalCases

/-! # Numerals — texts that stand for numbers

    A reader drops blanks, looks for a sign and adds up digits.  Which texts
    it takes, and for which number, is said here without reading: by the
    blanks around a text and by the places of its digits.

      * `trimmed_eq_iff`: trimming leaves the text between the blanks.
      * `digit?_eq_some_iff`, `hexDigit?_eq_some_iff`: which characters are
        digits.
      * `unsigned?_decimal_iff`: an optional plus sign and digits are read
        as the number they denote.  The digits are read from the highest
        place on, so the induction has the number read so far general. -/

namespace TapeMachine.Text

/-! ## Trimming -/

/-- `core` is what is left of a text without the blanks at its ends. -/
structure Trims (text core : List Char) : Prop where
  around : ∃ before behind, text = before ++ (core ++ behind) ∧
    (∀ c ∈ before, isBlank c = true) ∧ ∀ c ∈ behind, isBlank c = true
  first : ∀ c ∈ core.head?, isBlank c = false
  last : ∀ c ∈ core.getLast?, isBlank c = false

/-- What trimming leaves has no blanks at its ends. -/
theorem trims_trimmed (text : List Char) : Trims text (trimmed text) := by
  have hcut : text.dropWhile isBlank = trimmed text ++ (text.dropWhile isBlank).rtakeWhile isBlank :=
    List.rdropWhile_append_rtakeWhile.symm
  refine ⟨⟨text.takeWhile isBlank, (text.dropWhile isBlank).rtakeWhile isBlank, ?_, ?_, ?_⟩, ?_, ?_⟩
  · rw [← hcut, List.takeWhile_append_dropWhile]
  · intro c hmem
    exact List.mem_takeWhile_imp hmem
  · intro c hmem
    exact List.mem_rtakeWhile_imp hmem
  · intro c hc
    -- the first character of the rest is the first that is no blank
    have hhead : c ∈ (text.dropWhile isBlank).head? := by
      rw [hcut]
      exact List.mem_head?_append_of_mem_head? hc
    have := List.head?_dropWhile_not isBlank text
    rw [Option.mem_def] at hhead
    rw [hhead] at this
    simpa using this
  · intro c hc
    obtain ⟨hne, rfl⟩ := List.mem_getLast?_eq_getLast hc
    exact Bool.eq_false_iff.mpr (List.rdropWhile_last_not isBlank _ hne)

/-- Trimming finds the text between the blanks, and there is only one. -/
theorem trimmed_eq_iff {text core : List Char} : trimmed text = core ↔ Trims text core := by
  constructor
  · rintro rfl
    exact trims_trimmed text
  · rintro ⟨⟨before, behind, rfl, hbefore, hbehind⟩, hfirst, hlast⟩
    unfold trimmed
    rw [List.dropWhile_append_of_pos hbefore]
    cases core with
    | nil =>
        rw [List.nil_append, List.dropWhile_eq_nil_iff.mpr hbehind]
        rfl
    | cons c core =>
        have hc : ¬ isBlank c = true := by
          rw [hfirst c rfl]
          exact Bool.false_ne_true
        rw [List.cons_append, List.dropWhile_cons_of_neg hc, ← List.cons_append, List.reverse_append,
          List.dropWhile_append_of_pos fun c hmem => hbehind c (List.mem_reverse.mp hmem)]
        rw [← List.rdropWhile, List.rdropWhile_eq_self_iff]
        intro hne hblank
        rw [hlast _ (List.getLast?_eq_some_getLast hne)] at hblank
        exact Bool.false_ne_true hblank

/-! ## Digits -/

/-- What holds of every code between two characters holds of every
    character between them. -/
theorem forall_of_range {P : Char → Nat → Prop} {low c high : Char} (hc : low ≤ c ∧ c ≤ high)
    (h : ∀ n ≤ high.toNat, low.toNat ≤ n → P (Char.ofNat n) n) : P c c.toNat := by
  have hcode := h c.toNat hc.2 hc.1
  rwa [Char.ofNat_toNat] at hcode

theorem digit?_eq_some_iff {c : Char} {d : Nat} :
    digit? c = some d ↔ d < 10 ∧ c = Nat.digitChar d := by
  constructor
  · intro h
    unfold digit? at h
    split at h
    · rename_i hc
      obtain rfl := Option.some.inj h
      exact forall_of_range (P := fun c n => n - 48 < 10 ∧ c = Nat.digitChar (n - 48)) hc
        (by decide)
    · cases h
  · rintro ⟨hd, rfl⟩
    interval_cases d <;> rfl

/-- A hexadecimal digit of either case and its value. -/
def HexDigit (c : Char) (d : Nat) : Prop :=
  d < 16 ∧ (c = Nat.digitChar d ∨ c = (Nat.digitChar d).toUpper)

instance (c : Char) (d : Nat) : Decidable (HexDigit c d) := inferInstanceAs (Decidable (_ ∧ _))

theorem hexDigit?_eq_some_iff {c : Char} {d : Nat} : hexDigit? c = some d ↔ HexDigit c d := by
  constructor
  · intro h
    unfold hexDigit? at h
    split at h
    · rename_i hc
      obtain rfl := Option.some.inj h
      exact forall_of_range (P := fun c n => HexDigit c (n - 48)) hc (by decide)
    · split at h
      · rename_i hc
        obtain rfl := Option.some.inj h
        exact forall_of_range (P := fun c n => HexDigit c (n - 97 + 10)) hc (by decide)
      · split at h
        · rename_i hc
          obtain rfl := Option.some.inj h
          exact forall_of_range (P := fun c n => HexDigit c (n - 65 + 10)) hc (by decide)
        · cases h
  · rintro ⟨hd, rfl | rfl⟩
    · interval_cases d <;> rfl
    · interval_cases d <;> rfl

/-! ## Decimal numbers -/

/-- One or more decimal digits, the first one the highest, that denote a
    number. -/
def Decimal (cs : List Char) (n : Nat) : Prop :=
  ∃ ds : List Nat, ds ≠ [] ∧ (∀ d ∈ ds, d < 10) ∧ cs = ds.map Nat.digitChar ∧
    n = Nat.ofDigits 10 ds.reverse

/-- Digits continue a number as their places say. -/
theorem digitsFrom_decimal_iff {n m : Nat} {cs : List Char} :
    digitsFrom 10 digit? n cs = some m ↔ ∃ ds : List Nat, (∀ d ∈ ds, d < 10) ∧
      cs = ds.map Nat.digitChar ∧ ds.foldl (fun k d => 10 * k + d) n = m := by
  induction cs generalizing n with
  | nil =>
      constructor
      · intro h
        exact ⟨[], fun d hmem => absurd hmem List.not_mem_nil, rfl, Option.some.inj h⟩
      · rintro ⟨ds, -, hds, rfl⟩
        rw [List.map_eq_nil_iff.mp hds.symm]
        rfl
  | cons c cs ih =>
      constructor
      · intro h
        rw [digitsFrom] at h
        cases hc : digit? c with
        | none =>
            rw [hc] at h
            cases h
        | some d =>
            rw [hc] at h
            obtain ⟨ds, hds, rfl, hm⟩ := ih.mp h
            obtain ⟨hd, rfl⟩ := digit?_eq_some_iff.mp hc
            exact ⟨d :: ds, List.forall_mem_cons.mpr ⟨hd, hds⟩, rfl, hm⟩
      · rintro ⟨_ | ⟨d, ds⟩, hds, hcs, hm⟩
        · cases hcs
        · obtain ⟨hd, hds⟩ := List.forall_mem_cons.mp hds
          obtain ⟨rfl, rfl⟩ := List.cons.inj hcs
          rw [digitsFrom, digit?_eq_some_iff.mpr ⟨hd, rfl⟩]
          exact ih.mpr ⟨ds, hds, rfl, hm⟩

/-- The value of digits read one after the other is that of their places. -/
theorem foldl_eq_ofDigits (ds : List Nat) :
    ds.foldl (fun k d => 10 * k + d) 0 = Nat.ofDigits 10 ds.reverse := by
  rw [Nat.ofDigits_eq_foldr, List.foldr_reverse]
  congr 1
  funext k d
  exact Nat.add_comm _ _

theorem digits?_decimal_iff {cs : List Char} {n : Nat} :
    digits? 10 digit? cs = some n ↔ Decimal cs n := by
  cases cs with
  | nil =>
      constructor
      · intro h
        cases h
      · rintro ⟨ds, hne, -, hds, -⟩
        exact absurd (List.map_eq_nil_iff.mp hds.symm) hne
  | cons c cs =>
      rw [digits?, digitsFrom_decimal_iff]
      constructor
      · rintro ⟨ds, hds, hcs, rfl⟩
        refine ⟨ds, ?_, hds, hcs, foldl_eq_ofDigits ds⟩
        rintro rfl
        cases hcs
      · rintro ⟨ds, -, hds, hcs, rfl⟩
        exact ⟨ds, hds, hcs, foldl_eq_ofDigits ds⟩

/-- No digit is a plus sign. -/
theorem Decimal.ne_plus {c : Char} {cs : List Char} {n : Nat} (h : Decimal (c :: cs) n) :
    c ≠ '+' := by
  obtain ⟨_ | ⟨d, ds⟩, -, hds, hcs, -⟩ := h
  · cases hcs
  · obtain ⟨rfl, -⟩ := List.cons.inj hcs
    have hd := hds d List.mem_cons_self
    interval_cases d <;> decide

/-- An optional plus sign and digits. -/
theorem unsigned?_decimal_iff {cs : List Char} {n : Nat} :
    unsigned? 10 digit? cs = some n ↔ Decimal cs n ∨ ∃ rest, cs = '+' :: rest ∧ Decimal rest n := by
  unfold unsigned?
  split
  · rename_i rest
    rw [digits?_decimal_iff]
    constructor
    · intro h
      exact Or.inr ⟨rest, rfl, h⟩
    · rintro (h | ⟨rest', heq, h⟩)
      · exact absurd rfl h.ne_plus
      · obtain ⟨-, rfl⟩ := List.cons.inj heq
        exact h
  · rename_i hplus
    rw [digits?_decimal_iff]
    constructor
    · exact Or.inl
    · rintro (h | ⟨rest, rfl, -⟩)
      · exact h
      · exact absurd rfl (hplus rest)

end TapeMachine.Text
