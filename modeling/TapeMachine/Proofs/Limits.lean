import TapeMachine.Console.Command
import TapeMachine.Proofs.Numerals

/-! # Limits — which source decides

    A limit may come from a flag, a variable, the settings or nowhere.  The
    first source that gives one decides, and a variable whose text is no
    number is passed over with a warning.

      * `Limits.Numeric`: the texts that stand for a number, told by their
        characters.  `Limits.reading_eq_some_iff` ties the reader to it.
      * `Limits.Source.Gives`: the order of the sources, one constructor for
        each. -/

namespace TapeMachine

namespace Limits

/-! ## Texts of variables -/

/-- A text, blanks around it aside, is an optional plus sign and decimal
    digits that denote a number of 64 bits. -/
def Numeric (text : String) (n : Nat) : Prop :=
  n < UInt64.size ∧ ∃ core, Text.Trims text.toList core ∧
    (Text.Decimal core n ∨ ∃ digits, core = '+' :: digits ∧ Text.Decimal digits n)

theorem natural?_eq_some_iff {text : String} {n : Nat} :
    Text.natural? text = some n ↔
      n < UInt64.size ∧ Text.unsigned? 10 Text.digit? text.toList = some n := by
  unfold Text.natural?
  split
  · rename_i m hm
    rw [hm]
    by_cases hlt : m < UInt64.size
    · rw [if_pos hlt]
      constructor
      · intro h
        obtain rfl := Option.some.inj h
        exact ⟨hlt, rfl⟩
      · exact And.right
    · rw [if_neg hlt]
      constructor
      · intro h
        cases h
      · rintro ⟨hn, h⟩
        obtain rfl := Option.some.inj h
        exact absurd hn hlt
  · rename_i hm
    rw [hm]
    constructor
    · intro h
      cases h
    · rintro ⟨-, h⟩
      cases h

/-- The text of a variable is read as the number it stands for. -/
theorem reading_eq_some_iff {text : String} {n : Nat} :
    reading text = some n ↔ Numeric text n := by
  unfold reading
  rw [natural?_eq_some_iff, Text.trim, String.toList_ofList, Text.unsigned?_decimal_iff]
  constructor
  · rintro ⟨hlt, h⟩
    exact ⟨hlt, _, Text.trims_trimmed _, h⟩
  · rintro ⟨hlt, core, htrims, h⟩
    rw [Text.trimmed_eq_iff.mpr htrims]
    exact ⟨hlt, h⟩

theorem reading_eq_none_iff {text : String} :
    reading text = none ↔ ∀ n, ¬ Numeric text n := by
  rw [Option.eq_none_iff_forall_ne_some]
  exact forall_congr' fun n => not_congr reading_eq_some_iff

/-! ## Sources -/

namespace Source

/-- The source that decides gives a limit of `n`: the flag, else the
    variable if it stands for a number, else the settings. -/
inductive Gives (s : Source) (n : Nat) : Prop where
  | flag : s.flag = some n → Gives s n
  | environ {text : String} :
      s.flag = none → s.environ = some text → Numeric text n → Gives s n
  | setting :
      s.flag = none → (∀ text, s.environ = some text → ∀ m, ¬ Numeric text m) →
      s.setting = some n → Gives s n

/-- The variable is asked and its text does not stand for a number. -/
def Refuses (s : Source) (text : String) : Prop :=
  s.flag = none ∧ s.environ = some text ∧ ∀ n, ¬ Numeric text n

/-- One warning for a variable that is refused, and none otherwise. -/
def Warns (s : Source) (name : String) (events : List Event) : Prop :=
  (∀ text, s.Refuses text → events = [.ignoredVariable name text]) ∧
    ((∀ text, ¬ s.Refuses text) → events = [])

variable {s : Source}

theorem pick_eq_some_iff {n : Nat} : s.pick = some n ↔ s.Gives n := by
  have hrefused : s.environ.bind reading = none ↔
      ∀ text, s.environ = some text → ∀ m, ¬ Numeric text m := by
    rw [Option.bind_eq_none_iff]
    exact forall₂_congr fun _ _ => reading_eq_none_iff
  simp only [pick, Option.orElse_eq_orElse, Option.orElse_eq_or]
  rw [Option.or_eq_some_iff, Option.or_eq_some_iff, Option.or_eq_none_iff, hrefused,
    Option.bind_eq_some_iff]
  constructor
  · rintro ((hflag | ⟨hflag, text, htext, hn⟩) | ⟨⟨hflag, hnone⟩, hsetting⟩)
    · exact .flag hflag
    · exact .environ hflag htext (reading_eq_some_iff.mp hn)
    · exact .setting hflag hnone hsetting
  · rintro (hflag | ⟨hflag, htext, hn⟩ | ⟨hflag, hnone, hsetting⟩)
    · exact Or.inl (Or.inl hflag)
    · exact Or.inl (Or.inr ⟨hflag, _, htext, reading_eq_some_iff.mpr hn⟩)
    · exact Or.inr ⟨⟨hflag, hnone⟩, hsetting⟩

theorem pick_eq_none_iff : s.pick = none ↔ ∀ n, ¬ s.Gives n := by
  rw [Option.eq_none_iff_forall_ne_some]
  exact forall_congr' fun n => not_congr pick_eq_some_iff

/-- A variable that does not stand for a number counts as not set. -/
theorem pick_unset {text : String} (htext : s.environ = some text)
    (hn : ∀ n, ¬ Numeric text n) : ({ s with environ := none } : Source).pick = s.pick := by
  unfold pick
  rw [htext, Option.bind_some, reading_eq_none_iff.mpr hn, Option.bind_none]

theorem warns (s : Source) (name : String) : s.Warns name (s.warnings name) := by
  obtain ⟨flag, environ, setting⟩ := s
  refine ⟨?_, ?_⟩
  · rintro text ⟨hflag, htext, hn⟩
    obtain rfl : flag = none := hflag
    obtain rfl : environ = some text := htext
    simp only [warnings, reading_eq_none_iff.mpr hn, Option.isNone_none, if_true]
  · intro hrefuses
    cases flag with
    | some n => rfl
    | none =>
        cases environ with
        | none => rfl
        | some text =>
            cases hr : reading text with
            | none => exact absurd ⟨rfl, rfl, reading_eq_none_iff.mp hr⟩ (hrefuses text)
            | some n => simp only [warnings, hr, Option.isNone_some, Bool.false_eq_true, if_false]

end Source

end Limits

namespace Console.World

/-- What the variables of a world give for a name: the text of the first
    one with this name, or nothing if there is none. -/
def Sets (w : World) (name : String) : Option String → Prop
  | some text => ∃ before behind, w.environ = before ++ (name, text) :: behind ∧
      ∀ e ∈ before, e.1 ≠ name
  | none => ∀ e ∈ w.environ, e.1 ≠ name

theorem Sets.lookup? {w : World} {name : String} {value : Option String}
    (h : w.Sets name value) : w.lookup? name = value := by
  cases value with
  | none =>
      refine List.lookup_eq_none_iff.mpr ?_
      intro e hmem
      exact bne_iff_ne.mpr (h e hmem).symm
  | some text =>
      obtain ⟨before, behind, henviron, hbefore⟩ := h
      refine List.lookup_eq_some_iff.mpr ⟨before, behind, henviron, ?_⟩
      intro e hmem
      exact bne_iff_ne.mpr (hbefore e hmem).symm

/-- A command settles its limits from its flags, two variables and the
    settings. -/
theorem limits_eq (w : World) (timeoutMs maxSteps : Option Nat) :
    let r := Limits.resolve
      ⟨timeoutMs, w.lookup? Limits.timeoutVariable, w.settings.1.timeoutMs⟩
      ⟨maxSteps, w.lookup? Limits.maxStepsVariable, w.settings.1.maxSteps⟩
    w.limits timeoutMs maxSteps = (r.1, w.settings.2 ++ r.2) := rfl

end Console.World

/-- **Limits are settled by the first source that gives one.**  Each of the
    two limits is that of its flag, else of its variable if the text there
    stands for a number, else of the settings; else the time is 2000
    milliseconds and the steps are not limited.  Neither limit depends on
    the sources of the other, and a variable that does not stand for a
    number may as well not be set.  What is logged is one warning for each
    variable that is asked in vain, and after them the limits.  A command
    takes each text from the first variable with the name for that
    limit. -/
theorem limits_by_precedence (timeout maxSteps : Limits.Source) :
    let r := Limits.resolve timeout maxSteps
    ((∀ n, timeout.Gives n → r.1.timeoutMs = n) ∧
      ((∀ n, ¬ timeout.Gives n) → r.1.timeoutMs = 2000)) ∧
    ((∀ n, maxSteps.Gives n → r.1.maxSteps = some n) ∧
      ((∀ n, ¬ maxSteps.Gives n) → r.1.maxSteps = none)) ∧
    (∀ other, (Limits.resolve timeout other).1.timeoutMs = r.1.timeoutMs ∧
      (Limits.resolve other maxSteps).1.maxSteps = r.1.maxSteps) ∧
    (∀ text, timeout.environ = some text → (∀ n, ¬ Limits.Numeric text n) →
      (Limits.resolve { timeout with environ := none } maxSteps).1 = r.1) ∧
    (∀ text, maxSteps.environ = some text → (∀ n, ¬ Limits.Numeric text n) →
      (Limits.resolve timeout { maxSteps with environ := none }).1 = r.1) ∧
    (∃ first second, timeout.Warns "SCREWTAPE_TIMEOUT_MS" first ∧
      maxSteps.Warns "SCREWTAPE_MAX_STEPS" second ∧
      r.2 = first ++ second ++ [.limitsResolved r.1.timeoutMs r.1.maxSteps]) ∧
    ∀ w : Console.World, w.Sets "SCREWTAPE_TIMEOUT_MS" timeout.environ →
      w.Sets "SCREWTAPE_MAX_STEPS" maxSteps.environ →
      timeout.setting = w.settings.1.timeoutMs → maxSteps.setting = w.settings.1.maxSteps →
      w.limits timeout.flag maxSteps.flag = (r.1, w.settings.2 ++ r.2) := by
  intro r
  refine ⟨⟨?_, ?_⟩, ⟨?_, ?_⟩, fun other => ⟨rfl, rfl⟩, ?_, ?_, ?_, ?_⟩
  · intro n hgives
    show timeout.pick.getD 2000 = n
    rw [Limits.Source.pick_eq_some_iff.mpr hgives]
    rfl
  · intro hnone
    show timeout.pick.getD 2000 = 2000
    rw [Limits.Source.pick_eq_none_iff.mpr hnone]
    rfl
  · intro n hgives
    exact Limits.Source.pick_eq_some_iff.mpr hgives
  · intro hnone
    exact Limits.Source.pick_eq_none_iff.mpr hnone
  · intro text htext hn
    show Limits.mk _ _ = Limits.mk _ _
    rw [Limits.Source.pick_unset htext hn]
  · intro text htext hn
    show Limits.mk _ _ = Limits.mk _ _
    rw [Limits.Source.pick_unset htext hn]
  · exact ⟨_, _, timeout.warns _, maxSteps.warns _, rfl⟩
  · intro w htimeout hmaxSteps hsetting hsetting'
    have hfirst : timeout = ⟨timeout.flag, w.lookup? Limits.timeoutVariable,
        w.settings.1.timeoutMs⟩ := by
      rw [Limits.timeoutVariable, htimeout.lookup?, ← hsetting]
    have hsecond : maxSteps = ⟨maxSteps.flag, w.lookup? Limits.maxStepsVariable,
        w.settings.1.maxSteps⟩ := by
      rw [Limits.maxStepsVariable, hmaxSteps.lookup?, ← hsetting']
    have hlimits := w.limits_eq timeout.flag maxSteps.flag
    rw [← hfirst, ← hsecond] at hlimits
    exact hlimits

/-- Blanks, a sign and zeros in front do no harm, and a number of more than
    64 bits is none. -/
example : Limits.resolve { environ := some " +007\n", setting := some 3 }
      { environ := some "18446744073709551616", setting := some 5 }
    = (⟨7, some 5⟩, [.ignoredVariable "SCREWTAPE_MAX_STEPS" "18446744073709551616",
        .limitsResolved 7 (some 5)]) := by decide

end TapeMachine
