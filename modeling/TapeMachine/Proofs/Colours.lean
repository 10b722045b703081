import TapeMachine.Proofs.Numerals
import TapeMachine.Proofs.Settings
import Mathlib.Data.List.Nodup

/-! # Colours — which texts name the parts of a colour

    A colour by its parts is a number sign and three pairs of characters.
    A pair is meant to be two hexadecimal digits, but the reader of numbers
    that looks at it also takes a plus sign and one digit.

      * `Colour.part?_eq_some_iff`: the pairs that are taken, and for which
        part.
      * `Colour.ofText?_eq_rgb_iff`: the texts that are taken.
      * `Colour.wellFormed_iff`: what is taken besides pairs of digits has a
        plus sign.
      * `Palette.colour_withColours`: where each colour of a palette comes
        from.
      * `Settings.palette_of_document`: colours that are written down are
        loaded again. -/

namespace TapeMachine

namespace Colour

open Text

/-! ## Pairs -/

/-- Two hexadecimal digits that denote a part of a colour. -/
def HexPair (a b : Char) (part : UInt8) : Prop :=
  ∃ x y, HexDigit a x ∧ HexDigit b y ∧ part.toNat = 16 * x + y

/-- A plus sign and one hexadecimal digit that denotes a part of a colour. -/
def PlusPair (a b : Char) (part : UInt8) : Prop := a = '+' ∧ HexDigit b part.toNat

/-- Three pairs of characters, one for each part of a colour. -/
def InPairs (Pair : Char → Char → UInt8 → Prop) (hex : List Char) (red green blue : UInt8) : Prop :=
  ∃ a b c d e f, hex = [a, b, c, d, e, f] ∧ Pair a b red ∧ Pair c d green ∧ Pair e f blue

/-- Six hexadecimal digits of either case. -/
def WellFormed : List Char → UInt8 → UInt8 → UInt8 → Prop := InPairs HexPair

/-- Three pairs of two digits, or of a plus sign and a digit. -/
def Accepted : List Char → UInt8 → UInt8 → UInt8 → Prop :=
  InPairs fun a b part => HexPair a b part ∨ PlusPair a b part

variable {a b : Char} {part : UInt8}

/-- A plus sign is no hexadecimal digit. -/
theorem plus_not_hexDigit {d : Nat} : ¬ HexDigit '+' d := by
  rw [← hexDigit?_eq_some_iff]
  exact Option.some_ne_none _ ∘ Eq.symm

theorem digits?_one : digits? 16 hexDigit? [b] = hexDigit? b := by
  simp only [digits?, digitsFrom]
  cases hexDigit? b with
  | none => rfl
  | some d => exact congrArg some (Nat.zero_add d)

theorem digits?_two : digits? 16 hexDigit? [a, b]
    = (hexDigit? a).bind fun x => (hexDigit? b).map fun y => 16 * x + y := by
  simp only [digits?, digitsFrom]
  cases hexDigit? a with
  | none => rfl
  | some x =>
      cases hexDigit? b with
      | none => rfl
      | some y =>
          show some (16 * (16 * 0 + x) + y) = some (16 * x + y)
          rw [Nat.mul_zero, Nat.zero_add]

/-- A number below 256 is a part of a colour. -/
theorem ofNat_eq_iff {n : Nat} (hn : n < 256) : UInt8.ofNat n = part ↔ part.toNat = n := by
  constructor
  · rintro rfl
    exact UInt8.toNat_ofNat_of_lt hn
  · rintro rfl
    exact UInt8.ofNat_toNat

theorem part?_eq_some_iff : part? a b = some part ↔ HexPair a b part ∨ PlusPair a b part := by
  by_cases hplus : a = '+'
  · subst hplus
    have hpart : part? '+' b = (hexDigit? b).map UInt8.ofNat := congrArg _ digits?_one
    rw [hpart, Option.map_eq_some_iff]
    constructor
    · rintro ⟨d, hd, hpart⟩
      have hdigit := hexDigit?_eq_some_iff.mp hd
      rw [ofNat_eq_iff (Nat.lt_trans hdigit.1 (by decide))] at hpart
      rw [← hpart] at hdigit
      exact Or.inr ⟨rfl, hdigit⟩
    · rintro (⟨x, y, hx, -⟩ | ⟨-, hdigit⟩)
      · exact absurd hx plus_not_hexDigit
      · exact ⟨part.toNat, hexDigit?_eq_some_iff.mpr hdigit, UInt8.ofNat_toNat⟩
  · have hunsigned : unsigned? 16 hexDigit? [a, b] = digits? 16 hexDigit? [a, b] := by
      unfold unsigned?
      split
      · rename_i heq
        exact absurd (List.cons.inj heq).1 hplus
      · rfl
    have hpart : part? a b = ((hexDigit? a).bind fun x =>
        (hexDigit? b).map fun y => 16 * x + y).map UInt8.ofNat := by
      rw [part?, hunsigned, digits?_two]
    rw [hpart, Option.map_eq_some_iff]
    constructor
    · rintro ⟨n, hn, hpart⟩
      obtain ⟨x, hx, hn⟩ := Option.bind_eq_some_iff.mp hn
      obtain ⟨y, hy, rfl⟩ := Option.map_eq_some_iff.mp hn
      have hx := hexDigit?_eq_some_iff.mp hx
      have hy := hexDigit?_eq_some_iff.mp hy
      have hx' := hx.1
      have hy' := hy.1
      exact Or.inl ⟨x, y, hx, hy, (ofNat_eq_iff (by omega)).mp hpart⟩
    · rintro (⟨x, y, hx, hy, hpart⟩ | ⟨heq, -⟩)
      · refine ⟨16 * x + y, ?_, ?_⟩
        · rw [hexDigit?_eq_some_iff.mpr hx, hexDigit?_eq_some_iff.mpr hy]
          rfl
        · rw [← hpart]
          exact UInt8.ofNat_toNat
      · exact absurd heq hplus

/-! ## Texts -/

variable {hex : List Char} {text : String} {red green blue : UInt8}

/-- Behind a number sign three pairs are read, and nothing else. -/
theorem ofHex?_eq_some_iff {colour : Colour} :
    ofHex? hex = some colour ↔
      ∃ red green blue, colour = .rgb red green blue ∧ Accepted hex red green blue := by
  constructor
  · intro h
    unfold ofHex? at h
    split at h
    · split at h
      · rename_i a b c d e f _ _ _ red green blue hred hgreen hblue
        exact ⟨red, green, blue, (Option.some.inj h).symm, a, b, c, d, e, f, rfl,
          part?_eq_some_iff.mp hred, part?_eq_some_iff.mp hgreen, part?_eq_some_iff.mp hblue⟩
      · cases h
    · cases h
  · rintro ⟨red, green, blue, rfl, a, b, c, d, e, f, rfl, hred, hgreen, hblue⟩
    simp only [ofHex?, part?_eq_some_iff.mpr hred, part?_eq_some_iff.mpr hgreen,
      part?_eq_some_iff.mpr hblue]

theorem ofText?_of_trims (h : Trims text.toList ('#' :: hex)) : ofText? text = ofHex? hex := by
  simp only [ofText?, trimmed_eq_iff.mpr h]

/-- A colour by its parts comes from a number sign and three pairs. -/
theorem ofText?_eq_rgb_iff :
    ofText? text = some (.rgb red green blue) ↔
      ∃ hex, Trims text.toList ('#' :: hex) ∧ Accepted hex red green blue := by
  constructor
  · intro h
    unfold ofText? at h
    split at h
    · rename_i hex heq
      obtain ⟨_, _, _, hrgb, haccepted⟩ := ofHex?_eq_some_iff.mp h
      obtain ⟨rfl, rfl, rfl⟩ := Colour.rgb.inj hrgb
      exact ⟨hex, trimmed_eq_iff.mp heq, haccepted⟩
    · obtain ⟨name, -, hname⟩ := Option.map_eq_some_iff.mp h
      cases hname
  · rintro ⟨hex, htrims, haccepted⟩
    rw [ofText?_of_trims htrims]
    exact ofHex?_eq_some_iff.mpr ⟨red, green, blue, rfl, haccepted⟩

theorem ofText?_eq_none (h : Trims text.toList ('#' :: hex))
    (hnot : ∀ red green blue, ¬ Accepted hex red green blue) : ofText? text = none := by
  rw [ofText?_of_trims h, Option.eq_none_iff_forall_ne_some]
  intro colour hcolour
  obtain ⟨red, green, blue, -, haccepted⟩ := ofHex?_eq_some_iff.mp hcolour
  exact hnot red green blue haccepted

/-- A pair that is taken is a pair of digits, unless it has a plus sign. -/
theorem hexPair_iff :
    HexPair a b part ↔ (HexPair a b part ∨ PlusPair a b part) ∧ '+' ∉ [a, b] := by
  constructor
  · rintro ⟨x, y, hx, hy, hpart⟩
    refine ⟨Or.inl ⟨x, y, hx, hy, hpart⟩, ?_⟩
    intro hmem
    rcases List.mem_cons.mp hmem with rfl | hmem
    · exact plus_not_hexDigit hx
    · obtain rfl := List.mem_singleton.mp hmem
      exact plus_not_hexDigit hy
  · rintro ⟨h | ⟨rfl, -⟩, hplus⟩
    · exact h
    · exact absurd List.mem_cons_self hplus

/-- What is taken is six digits, unless there is a plus sign in it. -/
theorem wellFormed_iff :
    WellFormed hex red green blue ↔ Accepted hex red green blue ∧ '+' ∉ hex := by
  constructor
  · rintro ⟨a, b, c, d, e, f, rfl, hred, hgreen, hblue⟩
    obtain ⟨hred, hred'⟩ := hexPair_iff.mp hred
    obtain ⟨hgreen, hgreen'⟩ := hexPair_iff.mp hgreen
    obtain ⟨hblue, hblue'⟩ := hexPair_iff.mp hblue
    refine ⟨⟨a, b, c, d, e, f, rfl, hred, hgreen, hblue⟩, ?_⟩
    simp_all
  · rintro ⟨⟨a, b, c, d, e, f, rfl, hred, hgreen, hblue⟩, hplus⟩
    refine ⟨a, b, c, d, e, f, rfl, hexPair_iff.mpr ⟨hred, ?_⟩, hexPair_iff.mpr ⟨hgreen, ?_⟩,
      hexPair_iff.mpr ⟨hblue, ?_⟩⟩
    all_goals simp_all

/-- Without a plus sign the texts that are taken are those of six digits. -/
theorem ofText?_eq_rgb_iff_of_no_plus (hplus : '+' ∉ text.toList) :
    ofText? text = some (.rgb red green blue) ↔
      ∃ hex, Trims text.toList ('#' :: hex) ∧ WellFormed hex red green blue := by
  rw [ofText?_eq_rgb_iff]
  constructor
  · rintro ⟨hex, htrims, haccepted⟩
    have hhex : '+' ∉ hex := by
      obtain ⟨before, behind, heq, -, -⟩ := htrims.around
      intro hmem
      rw [heq] at hplus
      exact hplus (List.mem_append_right _ (List.mem_append_left _ (List.mem_cons_of_mem _ hmem)))
    exact ⟨hex, htrims, wellFormed_iff.mpr ⟨haccepted, hhex⟩⟩
  · rintro ⟨hex, htrims, hformed⟩
    exact ⟨hex, htrims, (wellFormed_iff.mp hformed).1⟩

/-! ## Writing -/

/-- The three parts of a colour as pairs of digits. -/
def hexChars (digit : Nat → Char) (red green blue : UInt8) : List Char :=
  [red, green, blue].flatMap fun part => [digit (part.toNat / 16), digit (part.toNat % 16)]

/-- A colour as a number sign and six digits. -/
def hexText (digit : Nat → Char) (red green blue : UInt8) : String :=
  String.ofList ('#' :: hexChars digit red green blue)

/-- A digit is no blank and may stand between quotes. -/
theorem hexDigit_plain {c : Char} {d : Nat} (h : HexDigit c d) :
    isBlank c = false ∧ Toml.isQuotable c = true := by
  obtain ⟨hd, rfl | rfl⟩ := h
  · interval_cases d <;> decide
  · interval_cases d <;> decide

variable {digit : Nat → Char}

theorem wellFormed_hexChars (hdigit : ∀ d < 16, HexDigit (digit d) d) :
    WellFormed (hexChars digit red green blue) red green blue := by
  have hpair : ∀ part : UInt8,
      HexPair (digit (part.toNat / 16)) (digit (part.toNat % 16)) part := by
    intro part
    have hlt := part.toNat_lt
    exact ⟨_, _, hdigit _ (by omega), hdigit _ (by omega), (Nat.div_add_mod _ 16).symm⟩
  exact ⟨_, _, _, _, _, _, rfl, hpair red, hpair green, hpair blue⟩

/-- Six digits are digits. -/
theorem WellFormed.hexDigit (h : WellFormed hex red green blue) :
    ∀ c ∈ hex, ∃ d, HexDigit c d := by
  obtain ⟨a, b, c, d, e, f, rfl, ⟨x, x', hx, hx', -⟩, ⟨y, y', hy, hy', -⟩, ⟨z, z', hz, hz', -⟩⟩ := h
  intro c hmem
  simp only [List.mem_cons, List.not_mem_nil, or_false] at hmem
  rcases hmem with rfl | rfl | rfl | rfl | rfl | rfl
  · exact ⟨x, hx⟩
  · exact ⟨x', hx'⟩
  · exact ⟨y, hy⟩
  · exact ⟨y', hy'⟩
  · exact ⟨z, hz⟩
  · exact ⟨z', hz'⟩

/-- There are no blanks to drop around six digits. -/
theorem WellFormed.trims (h : WellFormed hex red green blue) : Trims ('#' :: hex) ('#' :: hex) := by
  refine ⟨⟨[], [], by simp, by simp, by simp⟩, ?_, ?_⟩
  · rintro c ⟨⟩
    decide
  · intro c hc
    rcases List.mem_cons.mp (List.mem_of_getLast? hc) with rfl | hmem
    · decide
    · obtain ⟨d, hd⟩ := h.hexDigit c hmem
      exact (hexDigit_plain hd).1

/-- A colour that is written with digits is read back. -/
theorem ofText?_hexText (hdigit : ∀ d < 16, HexDigit (digit d) d) :
    ofText? (hexText digit red green blue) = some (.rgb red green blue) := by
  have hformed : WellFormed (hexChars digit red green blue) red green blue :=
    wellFormed_hexChars hdigit
  refine ofText?_eq_rgb_iff.mpr ⟨hexChars digit red green blue, ?_, (wellFormed_iff.mp hformed).1⟩
  rw [hexText, String.toList_ofList]
  exact hformed.trims

end Colour

/-! ## Palettes -/

/-- What a palette has a colour for. -/
inductive Role where
  | moveRight
  | moveLeft
  | increment
  | decrement
  | output
  | loop
  | comment
deriving DecidableEq

namespace Role

/-- The key for a colour in the settings. -/
def key : Role → String
  | .moveRight => "move_right"
  | .moveLeft => "move_left"
  | .increment => "increment"
  | .decrement => "decrement"
  | .output => "output"
  | .loop => "loop"
  | .comment => "comment"

theorem key_injective : Function.Injective key := by
  intro role role' h
  cases role <;> cases role' <;> simp_all [key]

theorem isBare_key (role : Role) : Toml.IsBare role.key.toList := by
  cases role <;> exact ⟨by decide, List.all_eq_true.mp (by decide)⟩

/-- A table with an entry for each of some roles has no other entry. -/
theorem lookup_key (roles : List Role) (text : Role → String) (role : Role) :
    (roles.map fun role => (role.key, text role)).lookup role.key
      = if role ∈ roles then some (text role) else none := by
  induction roles with
  | nil => rfl
  | cons first roles ih =>
      rw [List.map_cons, List.lookup_cons, ih]
      by_cases heq : role = first
      · subst heq
        simp
      · have hkey : (role.key == first.key) = false :=
          beq_eq_false_iff_ne.mpr fun hkey => heq (key_injective hkey)
        simp [hkey, heq]

end Role

namespace Palette

/-- The colour of a palette for a role. -/
def colour (p : Palette) : Role → Colour
  | .moveRight => p.moveRight
  | .moveLeft => p.moveLeft
  | .increment => p.increment
  | .decrement => p.decrement
  | .output => p.output
  | .loop => p.loop
  | .comment => p.comment

/-- Each colour comes from the entry under its own key, if that can be
    read, and stays as it is otherwise. -/
theorem colour_withColours (p : Palette) (colours : List (String × String)) (role : Role) :
    (p.withColours colours).colour role
      = ((colours.lookup role.key).bind Colour.ofText?).getD (p.colour role) := by
  cases role <;> rfl

end Palette

namespace Settings

open Colour Text

/-- A colour by its parts is the default or stands under its own key. -/
theorem palette_colour_eq_rgb_iff (s : Settings) (role : Role) (red green blue : UInt8) :
    s.palette.colour role = .rgb red green blue ↔
      (∃ text hex, s.colours.lookup role.key = some text ∧ Trims text.toList ('#' :: hex) ∧
        Accepted hex red green blue) ∨
      ((∀ text, s.colours.lookup role.key = some text → ofText? text = none) ∧
        ({} : Palette).colour role = .rgb red green blue) := by
  rw [palette, Palette.colour_withColours]
  cases hentry : s.colours.lookup role.key with
  | none => simp
  | some text =>
      rw [Option.bind_some]
      cases hread : ofText? text with
      | none =>
          have hnot : ¬ ∃ hex, Trims text.toList ('#' :: hex) ∧ Accepted hex red green blue := by
            rw [← ofText?_eq_rgb_iff, hread]
            exact Option.some_ne_none _ ∘ Eq.symm
          constructor
          · intro h
            refine Or.inr ⟨?_, h⟩
            rintro _ ⟨⟩
            exact hread
          · rintro (⟨_, hex, ⟨⟩, h⟩ | ⟨-, h⟩)
            · exact absurd ⟨hex, h⟩ hnot
            · exact h
      | some colour =>
          constructor
          · rintro rfl
            obtain ⟨hex, h⟩ := ofText?_eq_rgb_iff.mp hread
            exact Or.inl ⟨text, hex, rfl, h⟩
          · rintro (⟨_, hex, ⟨⟩, h⟩ | ⟨h, -⟩)
            · exact Option.some.inj (hread.symm.trans (ofText?_eq_rgb_iff.mpr ⟨hex, h⟩))
            · cases hread.symm.trans (h text rfl)

/-- An entry that begins like a colour by its parts and is none changes
    nothing. -/
theorem palette_colour_of_refused (s : Settings) {role : Role} {text : String} {hex : List Char}
    (hentry : s.colours.lookup role.key = some text) (htrims : Trims text.toList ('#' :: hex))
    (hnot : ∀ red green blue, ¬ Accepted hex red green blue) :
    s.palette.colour role = ({} : Palette).colour role := by
  rw [palette, Palette.colour_withColours, hentry, Option.bind_some, ofText?_eq_none htrims hnot]
  rfl

/-- An entry written with digits gives its role the colour. -/
theorem palette_colour_of_hexText (s : Settings) {role : Role} {digit : Nat → Char}
    (hdigit : ∀ d < 16, HexDigit (digit d) d) {red green blue : UInt8}
    (hentry : s.colours.lookup role.key = some (hexText digit red green blue)) :
    s.palette.colour role = .rgb red green blue := by
  rw [palette, Palette.colour_withColours, hentry, Option.bind_some, ofText?_hexText hdigit]
  rfl

/-- Colours written down for some roles are loaded, and the other roles
    keep theirs. -/
theorem palette_of_document {digit : Nat → Char} (hdigit : ∀ d < 16, HexDigit (digit d) d)
    {roles : List Role} (hnodup : roles.Nodup) (red green blue : Role → UInt8) :
    ∃ s, Settings.parse (document (roles.map fun role =>
        (role.key, hexText digit (red role) (green role) (blue role)))) = some s ∧
      ∀ role, s.palette.colour role
        = if role ∈ roles then .rgb (red role) (green role) (blue role)
          else ({} : Palette).colour role := by
  refine ⟨_, parse_document ?_ ?_, ?_⟩
  · intro entry hmem
    obtain ⟨role, -, rfl⟩ := List.mem_map.mp hmem
    refine ⟨role.isBare_key, ?_⟩
    rw [hexText, String.toList_ofList]
    refine List.forall_mem_cons.mpr ⟨by decide, ?_⟩
    intro c hc
    obtain ⟨d, hd⟩ := (wellFormed_hexChars hdigit).hexDigit c hc
    exact (hexDigit_plain hd).2
  · rw [List.map_map]
    exact hnodup.map Role.key_injective
  · intro role
    rw [palette, Palette.colour_withColours, Role.lookup_key]
    split
    · rw [Option.bind_some, ofText?_hexText hdigit]
      rfl
    · rfl

end Settings

open Colour Text in
/-- A text is a colour by its parts exactly if, blanks around it aside, it
    is a number sign and three pairs, each of them two hexadecimal digits of
    either case or a plus sign and one digit; any other text that begins
    with a number sign is no colour.  Plus signs aside these are the texts
    of six digits.  A palette takes such a colour only from an entry under
    its own key, and an entry with a number sign that is no colour changes
    nothing.  A colour that is written with digits is read back: from its
    text, from an entry with this text, and from a document with such
    entries. -/
theorem hex_colours_read_by_pairs (text : String) (s : Settings) :
    (∀ red green blue, ofText? text = some (.rgb red green blue) ↔
      ∃ hex, Trims text.toList ('#' :: hex) ∧ Accepted hex red green blue) ∧
    (∀ hex, Trims text.toList ('#' :: hex) →
      (∀ red green blue, ¬ Accepted hex red green blue) → ofText? text = none) ∧
    (∀ hex red green blue,
      WellFormed hex red green blue ↔ Accepted hex red green blue ∧ '+' ∉ hex) ∧
    ('+' ∉ text.toList → ∀ red green blue, ofText? text = some (.rgb red green blue) ↔
      ∃ hex, Trims text.toList ('#' :: hex) ∧ WellFormed hex red green blue) ∧
    (∀ role : Role,
      (∀ red green blue, s.palette.colour role = .rgb red green blue ↔
        (∃ text hex, s.colours.lookup role.key = some text ∧ Trims text.toList ('#' :: hex) ∧
          Accepted hex red green blue) ∨
        ((∀ text, s.colours.lookup role.key = some text → ofText? text = none) ∧
          ({} : Palette).colour role = .rgb red green blue)) ∧
      (∀ text hex, s.colours.lookup role.key = some text → Trims text.toList ('#' :: hex) →
        (∀ red green blue, ¬ Accepted hex red green blue) →
        s.palette.colour role = ({} : Palette).colour role)) ∧
    (∀ digit : Nat → Char, (∀ d < 16, HexDigit (digit d) d) → ∀ red green blue,
      ofText? (hexText digit red green blue) = some (.rgb red green blue) ∧
      ∀ role : Role, s.colours.lookup role.key = some (hexText digit red green blue) →
        s.palette.colour role = .rgb red green blue) ∧
    (∀ digit : Nat → Char, (∀ d < 16, HexDigit (digit d) d) →
      ∀ roles : List Role, roles.Nodup → ∀ red green blue : Role → UInt8,
      ∃ s, Settings.parse (Settings.document (roles.map fun role =>
          (role.key, hexText digit (red role) (green role) (blue role)))) = some s ∧
        ∀ role, s.palette.colour role
          = if role ∈ roles then .rgb (red role) (green role) (blue role)
            else ({} : Palette).colour role) := by
  refine ⟨?_, ?_, ?_, ?_, ?_, ?_, ?_⟩
  · intro red green blue
    exact ofText?_eq_rgb_iff
  · intro hex htrims hnot
    exact ofText?_eq_none htrims hnot
  · intro hex red green blue
    exact wellFormed_iff
  · intro hplus red green blue
    exact ofText?_eq_rgb_iff_of_no_plus hplus
  · intro role
    refine ⟨s.palette_colour_eq_rgb_iff role, ?_⟩
    intro text hex hentry htrims hnot
    exact s.palette_colour_of_refused hentry htrims hnot
  · intro digit hdigit red green blue
    refine ⟨ofText?_hexText hdigit, ?_⟩
    intro role hentry
    exact s.palette_colour_of_hexText hdigit hentry
  · intro digit hdigit roles hnodup red green blue
    exact Settings.palette_of_document hdigit hnodup red green blue

open Colour Text in
/-- A plus sign is taken in the place of a first digit: `#+1+2+3` is not a
    number sign and six digits, but it is read, and loaded from settings, as
    the colour `#010203`. -/
theorem plus_taken_for_digit :
    ofText? "#+1+2+3" = some (.rgb 1 2 3) ∧
    (¬ ∃ hex, Trims "#+1+2+3".toList ('#' :: hex) ∧ WellFormed hex 1 2 3) ∧
    ∃ s, Settings.parse (Settings.document [("increment", "#+1+2+3")]) = some s ∧
      s.palette = { increment := .rgb 1 2 3 } := by
  refine ⟨by decide, ?_, _, Settings.parse_document ?_ (by decide), by decide⟩
  · rintro ⟨hex, htrims, hformed⟩
    have htrimmed : trimmed "#+1+2+3".toList = "#+1+2+3".toList := by decide
    have heq : "#+1+2+3".toList = '#' :: hex := htrimmed.symm.trans (trimmed_eq_iff.mpr htrims)
    obtain rfl : "+1+2+3".toList = hex := (List.cons.inj heq).2
    exact (wellFormed_iff.mp hformed).2 (by decide)
  · intro entry hmem
    obtain rfl := List.mem_singleton.mp hmem
    exact ⟨Role.increment.isBare_key, List.all_eq_true.mp (by decide)⟩

end TapeMachine
