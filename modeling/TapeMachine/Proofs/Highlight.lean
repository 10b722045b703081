import TapeMachine.Highlight
import Mathlib.Data.List.Chain

/-! # Groupings — the stretches of a line are the only ones

    A line may be cut into stretches of one style in many ways; if no two
    neighbours have the same style, there is only one.

      * `Grouping.append`, `Grouping.retext`: the two ways in which a
        grouping goes on, by a further stretch or by further text.
      * `Grouping.cons`: a character in front of a grouped line goes on a
        grouping in one of these ways, so `highlight` groups every line.
      * `highlight_append`: a stretch of its own is found again in front
        of a line, so every grouping is found by `highlight`.
      * `Pass.step_holds`: a pass from left to right that holds one
        stretch back until it ends keeps to a grouping of what it has
        seen, and so comes to the same stretches. -/

namespace TapeMachine

variable {p : Palette} {line : List Char} {runs : List Stretch} {c : Char}

/-- Stretches that make up a line: each has some text, all of it in its
    style, and its neighbours have other styles. -/
structure Grouping (p : Palette) (line : List Char) (runs : List Stretch) : Prop where
  whole : runs.flatMap Stretch.text = line
  filled : ∀ r ∈ runs, r.text ≠ []
  styled : ∀ r ∈ runs, ∀ c ∈ r.text, p.style c = r.style
  apart : (runs.map Stretch.style).IsChain (· ≠ ·)

/-! ## The stretches of a line -/

theorem highlight_cons (p : Palette) (c : Char) (line : List Char) :
    highlight p (c :: line) = Stretch.cons p.style c (highlight p line) := rfl

namespace Grouping

theorem nil (p : Palette) : Grouping p [] [] where
  whole := rfl
  filled _ hr := absurd hr List.not_mem_nil
  styled _ hr := absurd hr List.not_mem_nil
  apart := .nil

/-- Text of one style is a stretch. -/
theorem single {style : Style} {text : List Char} (hfilled : text ≠ [])
    (hstyled : ∀ c ∈ text, p.style c = style) : Grouping p text [⟨style, text⟩] := by
  refine ⟨List.append_nil text, ?_, ?_, .singleton _⟩
  · intro r hr
    obtain rfl := List.mem_singleton.mp hr
    exact hfilled
  · intro r hr
    obtain rfl := List.mem_singleton.mp hr
    exact hstyled

/-- Two groupings in a row are one if the stretches that meet have
    different styles. -/
theorem append {line' : List Char} {runs' : List Stretch} (h : Grouping p line runs)
    (h' : Grouping p line' runs')
    (hmeet : ∀ a ∈ runs.getLast?, ∀ b ∈ runs'.head?, a.style ≠ b.style) :
    Grouping p (line ++ line') (runs ++ runs') := by
  refine ⟨?_, ?_, ?_, ?_⟩
  · rw [List.flatMap_append, h.whole, h'.whole]
  · intro r hr
    rcases List.mem_append.mp hr with hr | hr
    · exact h.filled r hr
    · exact h'.filled r hr
  · intro r hr
    rcases List.mem_append.mp hr with hr | hr
    · exact h.styled r hr
    · exact h'.styled r hr
  · rw [List.map_append]
    refine List.isChain_append.mpr ⟨h.apart, h'.apart, ?_⟩
    intro a ha b hb
    rw [List.getLast?_map] at ha
    rw [List.head?_map] at hb
    obtain ⟨r, hr, rfl⟩ := Option.map_eq_some_iff.mp ha
    obtain ⟨r', hr', rfl⟩ := Option.map_eq_some_iff.mp hb
    exact hmeet r hr r' hr'

/-- A stretch may be given other text of its style. -/
theorem retext (before : List Stretch) {after : List Stretch} {style : Style}
    {old text : List Char} (h : Grouping p line (before ++ ⟨style, old⟩ :: after))
    (hfilled : text ≠ []) (hstyled : ∀ c ∈ text, p.style c = style) :
    Grouping p (before.flatMap Stretch.text ++ (text ++ after.flatMap Stretch.text))
      (before ++ ⟨style, text⟩ :: after) := by
  -- the other stretches are members of the old grouping
  have hold : ∀ r, r ∈ before ++ ⟨style, text⟩ :: after →
      r = ⟨style, text⟩ ∨ r ∈ before ++ ⟨style, old⟩ :: after := by
    intro r hr
    rcases List.mem_append.mp hr with hr | hr
    · exact Or.inr (List.mem_append_left _ hr)
    · rcases List.mem_cons.mp hr with rfl | hr
      · exact Or.inl rfl
      · exact Or.inr (List.mem_append_right _ (List.mem_cons_of_mem _ hr))
  refine ⟨?_, ?_, ?_, ?_⟩
  · rw [List.flatMap_append, List.flatMap_cons]
  · intro r hr
    rcases hold r hr with rfl | hr
    · exact hfilled
    · exact h.filled r hr
  · intro r hr
    rcases hold r hr with rfl | hr
    · exact hstyled
    · exact h.styled r hr
  · have hapart := h.apart
    rw [List.map_append] at hapart ⊢
    exact hapart

/-- Only the empty line has no stretches. -/
theorem eq_nil_iff (h : Grouping p line runs) : runs = [] ↔ line = [] := by
  constructor
  · rintro rfl
    exact h.whole.symm
  · intro hline
    cases runs with
    | nil => rfl
    | cons r rest =>
        have hnil : r.text ++ rest.flatMap Stretch.text = [] := h.whole.trans hline
        exact absurd (List.append_eq_nil_iff.mp hnil).1 (h.filled r List.mem_cons_self)

/-- A character is put in front of a grouped line. -/
theorem cons (h : Grouping p line runs) (c : Char) :
    Grouping p (c :: line) (Stretch.cons p.style c runs) := by
  have halone : Grouping p [c] [⟨p.style c, [c]⟩] :=
    single (List.cons_ne_nil c []) (fun d hd => by rw [List.mem_singleton.mp hd])
  cases runs with
  | nil =>
      obtain rfl := h.eq_nil_iff.mp rfl
      exact halone
  | cons s rest =>
      rw [Stretch.cons]
      by_cases hs : s.style = p.style c
      · -- the first stretch takes the character in and keeps its style
        rw [if_pos hs, ← h.whole]
        refine h.retext [] (List.cons_ne_nil c s.text) ?_
        intro d hd
        rcases List.mem_cons.mp hd with rfl | hd
        · exact hs.symm
        · exact h.styled s List.mem_cons_self d hd
      · -- the character is a stretch of its own
        rw [if_neg hs]
        refine halone.append h ?_
        intro a ha b hb
        obtain rfl := Option.some.inj ha
        obtain rfl := Option.some.inj hb
        exact Ne.symm hs

/-- Each character of the line is shown in its own style. -/
theorem shown (h : Grouping p line runs) :
    (runs.flatMap fun r => r.text.map fun c => (c, r.style))
      = line.map fun c => (c, p.style c) := by
  rw [← h.whole, List.map_flatMap]
  refine List.flatMap_congr ?_
  intro r hr
  refine List.map_congr_left ?_
  intro c hc
  rw [h.styled r hr c hc]

end Grouping

theorem highlight_grouping (p : Palette) (line : List Char) :
    Grouping p line (highlight p line) := by
  induction line with
  | nil => exact .nil p
  | cons c line ih => exact ih.cons c

/-! ## No other grouping -/

/-- Text of one style in front of a line that begins in another is a
    stretch of its own. -/
theorem highlight_append {r : Stretch} (hfilled : r.text ≠ [])
    (hstyled : ∀ c ∈ r.text, p.style c = r.style)
    (hnext : ∀ s ∈ (highlight p line).head?, r.style ≠ s.style) :
    highlight p (r.text ++ line) = r :: highlight p line := by
  obtain ⟨style, text⟩ := r
  induction text with
  | nil => exact absurd rfl hfilled
  | cons c text ih =>
      have hc : p.style c = style := hstyled c List.mem_cons_self
      rw [List.cons_append, highlight_cons]
      cases text with
      | nil =>
          -- the line behind the last character begins in another style
          rw [List.nil_append]
          cases hruns : highlight p line with
          | nil => rw [Stretch.cons, hc]
          | cons s rest =>
              have hne : s.style ≠ style := by
                refine Ne.symm (hnext s ?_)
                rw [hruns]
                rfl
              rw [Stretch.cons, hc, if_neg hne]
      | cons d text =>
          have htext := ih (List.cons_ne_nil d text)
            (fun e he => hstyled e (List.mem_cons_of_mem c he)) hnext
          rw [htext, Stretch.cons, if_pos hc.symm]

/-- **Every grouping is the one found.** -/
theorem Grouping.eq_highlight (h : Grouping p line runs) : runs = highlight p line := by
  induction runs generalizing line with
  | nil =>
      obtain rfl := h.eq_nil_iff.mp rfl
      rfl
  | cons r rest ih =>
      have hrest : Grouping p (rest.flatMap Stretch.text) rest :=
        ⟨rfl, fun s hs => h.filled s (List.mem_cons_of_mem r hs),
          fun s hs => h.styled s (List.mem_cons_of_mem r hs), h.apart.tail⟩
      have hfound := ih hrest
      have hnext : ∀ s ∈ (highlight p (rest.flatMap Stretch.text)).head?,
          r.style ≠ s.style := by
        rw [← hfound]
        intro s hs
        cases rest with
        | nil => cases hs
        | cons s' rest =>
            obtain rfl := Option.some.inj hs
            exact (List.isChain_cons_cons.mp h.apart).1
      rw [← h.whole, List.flatMap_cons,
        highlight_append (h.filled r List.mem_cons_self) (h.styled r List.mem_cons_self) hnext,
        ← hfound]

/-! ## One pass -/

/-- A pass over a line: the stretches that are finished, and the style and
    the text of the one that may still grow. -/
structure Pass where
  finished : List Stretch := []
  style : Option Style := none
  held : List Char := []

namespace Pass

variable {pass : Pass}

/-- Take up the next character. -/
def step (p : Palette) (pass : Pass) (c : Char) : Pass :=
  match pass.style with
  | none => { pass with style := some (p.style c), held := pass.held ++ [c] }
  | some s =>
      if s = p.style c then { pass with held := pass.held ++ [c] }
      else ⟨pass.finished ++ [⟨s, pass.held⟩], some (p.style c), [c]⟩

/-- The stretches at the end of the line. -/
def stretches (pass : Pass) : List Stretch :=
  match pass.style with
  | none => pass.finished
  | some s =>
      if pass.held.isEmpty then pass.finished else pass.finished ++ [⟨s, pass.held⟩]

/-- After some characters nothing has been seen, or what is finished and
    what is held group them. -/
inductive Holds (p : Palette) : List Char → Pass → Prop where
  | fresh : Holds p [] {}
  | within {line : List Char} {finished : List Stretch} {s : Style} {held : List Char} :
      held ≠ [] → Grouping p line (finished ++ [⟨s, held⟩]) →
      Holds p line ⟨finished, some s, held⟩

theorem step_holds (h : Holds p line pass) (c : Char) :
    Holds p (line ++ [c]) (pass.step p c) := by
  cases h with
  | fresh => exact .within (List.cons_ne_nil c []) ((Grouping.nil p).cons c)
  | @within _ finished s held hheld hgroup =>
      by_cases hs : s = p.style c
      · -- the stretch that is held grows, and its style is still that of its text
        have hstep : step p ⟨finished, some s, held⟩ c = ⟨finished, some s, held ++ [c]⟩ :=
          if_pos hs
        have hlonger : held ++ [c] ≠ [] := List.append_ne_nil_of_left_ne_nil hheld [c]
        have hstyled : ∀ d ∈ held ++ [c], p.style d = s := by
          intro d hd
          rcases List.mem_append.mp hd with hd | hd
          · exact hgroup.styled ⟨s, held⟩ (List.mem_append_right _ List.mem_cons_self) d hd
          · rw [List.mem_singleton.mp hd, hs]
        rw [hstep]
        refine .within hlonger ?_
        rw [← hgroup.whole]
        simpa using hgroup.retext finished hlonger hstyled
      · -- the stretch that was held is finished, and the next one has another style
        have hstep : step p ⟨finished, some s, held⟩ c
            = ⟨finished ++ [⟨s, held⟩], some (p.style c), [c]⟩ := if_neg hs
        rw [hstep]
        refine .within (List.cons_ne_nil c []) (hgroup.append ((Grouping.nil p).cons c) ?_)
        intro a ha b hb
        rw [List.getLast?_concat] at ha
        obtain rfl := Option.some.inj ha
        obtain rfl := Option.some.inj hb
        exact hs

theorem foldl_holds (h : Holds p line pass) (more : List Char) :
    Holds p (line ++ more) (more.foldl (step p) pass) := by
  induction more generalizing line pass with
  | nil =>
      rw [List.append_nil]
      exact h
  | cons c more ih =>
      rw [List.append_cons]
      exact ih (step_holds h c)

theorem Holds.grouping (h : Holds p line pass) : Grouping p line pass.stretches := by
  cases h with
  | fresh => exact .nil p
  | within hheld hgroup =>
      rw [stretches]
      simp only [List.isEmpty_iff, hheld, if_false]
      exact hgroup

end Pass

/-- The stretches that one pass over a line comes to. -/
def passOver (p : Palette) (line : List Char) : List Stretch :=
  (line.foldl (Pass.step p) {}).stretches

/-- **The stretches of a line are its only grouping.**  They have some text
    each, make up the line, show every character in its own style, and no
    two neighbours have the same style.  Nothing else has these
    properties, so a pass from left to right that holds back one stretch at
    a time finds the same ones, and only an empty line has none. -/
theorem highlight_is_only_grouping (p : Palette) (line : List Char) :
    Grouping p line (highlight p line) ∧
    ((highlight p line).flatMap fun r => r.text.map fun c => (c, r.style))
      = line.map (fun c => (c, p.style c)) ∧
    (∀ runs, Grouping p line runs → runs = highlight p line) ∧
    passOver p line = highlight p line ∧
    (highlight p line = [] ↔ line = []) := by
  have hgroup := highlight_grouping p line
  have hpass : Grouping p line (passOver p line) := (Pass.foldl_holds .fresh line).grouping
  exact ⟨hgroup, hgroup.shown, fun runs h => h.eq_highlight, hpass.eq_highlight,
    hgroup.eq_nil_iff⟩

/-- Commands of one colour are shown together, and a comment of that
    colour apart from them, since it is not bold. -/
example : highlight { increment := .named .red, decrement := .named .red, comment := .named .red }
      ['+', '-', 'x', '>']
    = [⟨⟨.named .red, true⟩, ['+', '-']⟩, ⟨⟨.named .red, false⟩, ['x']⟩,
        ⟨⟨.rgb 137 220 235, true⟩, ['>']⟩] := by decide

end TapeMachine
