import TapeMachine.Proofs.Composer.Length
import Mathlib.Data.List.Forall2
import Mathlib.Tactic.Ring

/-! # Shortest segments — what the search finds and what it misses

    For each counter the search tries one step, the nearest quotient.
    Any other step leaves more of the difference over, and what it saves
    in the loop it loses behind it, with one exception.  If the
    difference lies half-way between two steps, both leave the same over,
    the quotient is rounded up, and the step below would have been one
    command shorter.

      * `Plan.withCounter_length_le`, `Plan.withCounter_halfway`: the
        nearest step is the best one for its counter, or one too long.
      * `Plan.exists_odd_length_le`: a plan at a half is not missed as
        long as the next counter may be used too.  A half needs an even
        counter, and one of the two odd counters beside it does as well.
      * `segment_shortest_iff`: so only the largest counter can be at
        fault, and only where its plan at a half has no rival. -/

namespace TapeMachine

namespace Composer

/-! ## The nearest step -/

theorem nearest_bounds {c : Nat} (hc : 0 < c) (n : Nat) :
    2 * n < 2 * (c * nearest n c) + c ∧ 2 * (c * nearest n c) ≤ 2 * n + c := by
  have hdiv : 2 * c * nearest n c + (2 * n + c) % (2 * c) = 2 * n + c :=
    Nat.div_add_mod (2 * n + c) (2 * c)
  have hmod : (2 * n + c) % (2 * c) < 2 * c := Nat.mod_lt _ (by omega)
  rw [Nat.mul_assoc] at hdiv
  omega

theorem nearest_pos {c n : Nat} (hc : 0 < c) (h : c ≤ 2 * n) : 1 ≤ nearest n c :=
  Nat.div_pos (by omega) (by omega)

namespace Plan

/-- The length of a plan, told by the amount of the difference alone. -/
theorem length_eq {d : Int} (hd : d ≠ 0) (p : Plan) :
    p.length d
      = p.counter + p.step + ((d.natAbs : Int) - (p.counter * p.step : Nat)).natAbs + 7 := by
  have hleft : (p.remainder d).natAbs
      = ((d.natAbs : Int) - (p.counter * p.step : Nat)).natAbs := by
    rw [remainder]
    generalize p.counter * p.step = made
    rcases Int.lt_or_gt_of_ne hd with hneg | hpos
    · rw [Int.sign_eq_neg_one_of_neg hneg]
      omega
    · rw [Int.sign_eq_one_of_pos hpos]
      omega
  rw [length, hleft]

/-- The difference lies half-way between what the loop makes and what it
    would make with a step of one more. -/
def Halfway (p : Plan) (d : Int) : Prop := 2 * d.natAbs = (2 * p.step + 1) * p.counter

variable {d : Int} {p : Plan}

theorem halfway_iff : p.Halfway d ↔ 2 * d.natAbs = 2 * (p.counter * p.step) + p.counter := by
  have hsum : (2 * p.step + 1) * p.counter = 2 * (p.counter * p.step) + p.counter := by ring
  rw [Halfway, hsum]

/-- Half-way the counter is even, and half of it is left over. -/
theorem Halfway.half (h : p.Halfway d) :
    ∃ half, p.counter = 2 * half ∧ d.natAbs = 2 * half * p.step + half := by
  have hsum := halfway_iff.mp h
  obtain ⟨half, hhalf⟩ : ∃ half, p.counter = 2 * half := ⟨p.counter / 2, by omega⟩
  rw [hhalf] at hsum
  exact ⟨half, hhalf, by omega⟩

/-- Two plans at a half with the same counter are the same. -/
theorem Halfway.unique {q : Plan} (h : p.Halfway d) (h' : q.Halfway d) (hpos : 0 < p.counter)
    (heq : p.counter = q.counter) : p = q := by
  obtain ⟨c, s⟩ := p
  obtain ⟨c', s'⟩ := q
  obtain rfl : c = c' := heq
  have hmul : (2 * s + 1) * c = (2 * s' + 1) * c := h.symm.trans h'
  have hstep := Nat.eq_of_mul_eq_mul_right hpos hmul
  rw [show s = s' by omega]

/-- The nearest step is the best one for its counter, but at a half. -/
theorem withCounter_length_le (hd : d ≠ 0) (hc : 2 ≤ p.counter) (hnot : ¬ p.Halfway d) :
    (withCounter d p.counter).length d ≤ p.length d := by
  obtain ⟨c, s⟩ := p
  have hnot' : 2 * d.natAbs ≠ 2 * (c * s) + c := fun heq => hnot (halfway_iff.mpr heq)
  have hc' : 2 ≤ c := hc
  obtain ⟨hlow, hhigh⟩ := nearest_bounds (c := c) (by omega) d.natAbs
  rw [length_eq hd, length_eq hd]
  simp only [withCounter]
  generalize nearest d.natAbs c = k at hlow hhigh ⊢
  rcases Nat.lt_trichotomy s k with hlt | rfl | hgt
  · -- a smaller step leaves more than it saves
    obtain ⟨j, rfl⟩ := Nat.exists_eq_add_of_lt hlt
    have hmul : c * (s + j + 1) = c * s + c * j + c := by ring
    have hrounds : 2 * j ≤ c * j := Nat.mul_le_mul_right j hc'
    rw [hmul] at hlow hhigh ⊢
    rcases Nat.eq_zero_or_pos j with rfl | hj
    · omega
    · omega
  · exact Nat.le_refl _
  · -- a larger step goes too far
    obtain ⟨j, rfl⟩ := Nat.exists_eq_add_of_lt hgt
    have hmul : c * (k + j + 1) = c * k + c * j + c := by ring
    rw [hmul]
    omega

/-- At a half the nearest step is one more than that of the plan, and so is
    the length. -/
theorem withCounter_halfway (hd : d ≠ 0) (hc : 2 ≤ p.counter) (h : p.Halfway d) :
    (withCounter d p.counter).step = p.step + 1 ∧
      (withCounter d p.counter).length d = p.length d + 1 := by
  obtain ⟨c, s⟩ := p
  have hc' : 2 ≤ c := hc
  have hhalf : 2 * d.natAbs = 2 * (c * s) + c := halfway_iff.mp h
  have hstep : nearest d.natAbs c = s + 1 := by
    rw [nearest, show 2 * d.natAbs + c = (s + 1) * (2 * c) by rw [hhalf]; ring]
    exact Nat.mul_div_cancel _ (by omega)
  refine ⟨hstep, ?_⟩
  rw [length_eq hd, length_eq hd]
  simp only [withCounter, hstep]
  rw [show c * (s + 1) = c * s + c by ring]
  omega

/-! ## Odd counters beside a half -/

theorem larger_odd_length_le (hd : d ≠ 0) {half step : Nat} (hstep : 1 ≤ step)
    (hedge : step ≠ 2 * half) (hn : d.natAbs = 2 * half * step + half) :
    ∃ s, (Plan.mk (2 * half + 1) s).length d ≤ 3 * half + step + 7 := by
  -- of the step, one in `2 * half + 1` is made by the larger counter
  obtain ⟨j, r, hr, rfl⟩ : ∃ j r, r ≤ 2 * half ∧ step = (2 * half + 1) * j + r :=
    ⟨step / (2 * half + 1), step % (2 * half + 1),
      Nat.lt_succ_iff.mp (Nat.mod_lt _ (Nat.succ_pos _)), (Nat.div_add_mod _ _).symm⟩
  refine ⟨2 * half * j + r, ?_⟩
  have hover : (d.natAbs : Int) - ((2 * half + 1) * (2 * half * j + r) : Nat) = half - r := by
    rw [hn]
    push_cast
    ring
  have hmul : (2 * half + 1) * j + r = 2 * half * j + r + j := by ring
  rw [hmul] at hstep hedge ⊢
  rw [length_eq hd, hover]
  simp only
  rcases Nat.eq_zero_or_pos j with rfl | hj
  · -- nothing is made by it, but less than the half is left over
    rw [Nat.mul_zero] at hstep hedge ⊢
    omega
  · omega

theorem smaller_odd_length_le (hd : d ≠ 0) {half : Nat} (hlarge : 2 ≤ half)
    (hn : d.natAbs = 2 * half * (2 * half) + half) :
    (Plan.mk (2 * half - 1) (2 * half + 2)).length d ≤ 3 * half + 2 * half + 7 := by
  obtain ⟨k, rfl⟩ := Nat.exists_eq_add_of_le hlarge
  have hover : (d.natAbs : Int) - ((2 * (2 + k) - 1) * (2 * (2 + k) + 2) : Nat) = -k := by
    rw [hn, show 2 * (2 + k) - 1 = 2 * k + 3 by omega]
    push_cast
    ring
  rw [length_eq hd, hover]
  simp only
  omega

/-- A plan at a half is no shorter than the plain run, or than a plan with
    one of the odd counters beside its own. -/
theorem exists_odd_length_le (hd : d ≠ 0) (hc : 2 ≤ p.counter) (hs : 1 ≤ p.step)
    (h : p.Halfway d) :
    d.natAbs ≤ p.length d ∨
      ∃ q : Plan, 2 ≤ q.counter ∧ q.counter ≤ p.counter + 1 ∧ q.counter % 2 = 1 ∧
        q.length d ≤ p.length d := by
  obtain ⟨half, hcounter, hn⟩ := h.half
  have hlen : p.length d = 3 * half + p.step + 7 := by
    rw [length_eq hd, hn, hcounter]
    omega
  rw [hlen, hcounter]
  by_cases hedge : p.step = 2 * half
  · rw [hedge] at hn ⊢
    rcases Nat.lt_or_ge half 2 with hsmall | hlarge
    · -- the difference is five
      obtain rfl : half = 1 := by omega
      exact Or.inl (by omega)
    · have hq := smaller_odd_length_le hd hlarge hn
      exact Or.inr ⟨_, show 2 ≤ 2 * half - 1 by omega, show 2 * half - 1 ≤ 2 * half + 1 by omega,
        show (2 * half - 1) % 2 = 1 by omega, hq⟩
  · obtain ⟨s, hq⟩ := larger_odd_length_le hd hs hedge hn
    exact Or.inr ⟨_, show 2 ≤ 2 * half + 1 by omega, Nat.le_refl _,
      show (2 * half + 1) % 2 = 1 by omega, hq⟩

/-! ## Plans a search could find -/

/-- A plan whose counter is at least two and within the limit, and whose
    step is not zero. -/
structure Fits (limit : Nat) (p : Plan) : Prop where
  two_le : 2 ≤ p.counter
  le_limit : p.counter ≤ limit
  step_pos : 1 ≤ p.step

/-- A plan at a half with the largest counter, shorter than the plain run
    and than every other plan. -/
structure Missed (limit : Nat) (d : Int) (p : Plan) : Prop where
  fits : p.Fits limit
  counter_eq : p.counter = limit
  halfway : p.Halfway d
  lt_plain : (p.commands d).length < (plain d).length
  lt_others : ∀ q : Plan, q.Fits limit → q ≠ p → (p.commands d).length < (q.commands d).length

end Plan

/-! ## Segments -/

variable {limit : Nat} {d : Int} {p : Plan}

/-- A segment is no longer than any plan but one at a half with the largest
    counter. -/
theorem segment_length_le_commands (hp : p.Fits limit) (hhalf : p.Halfway d → p.counter < limit) :
    (segment ⟨true, limit⟩ d).length ≤ (p.commands d).length := by
  have hplain := segment_length_le_plain ⟨true, limit⟩ d
  rw [p.length_commands]
  rcases eq_or_ne d 0 with rfl | hd
  · exact Nat.le_trans hplain (Nat.zero_le _)
  by_cases h : p.Halfway d
  · rcases Plan.exists_odd_length_le hd hp.two_le hp.step_pos h with hle | ⟨q, hq, hlim, hodd, hle⟩
    · exact Nat.le_trans hplain hle
    · have hnot : ¬ q.Halfway d := by
        intro hq'
        obtain ⟨half, heven, -⟩ := hq'.half
        omega
      have hseg : (segment ⟨true, limit⟩ d).length ≤ (Plan.withCounter d q.counter).length d :=
        segment_length_le_withCounter rfl d hq (Nat.le_trans hlim (hhalf h))
      exact Nat.le_trans hseg (Nat.le_trans (Plan.withCounter_length_le hd hq hnot) hle)
  · exact Nat.le_trans (segment_length_le_withCounter rfl d hp.two_le hp.le_limit)
      (Plan.withCounter_length_le hd hp.two_le h)

/-- A segment is at most one command longer than any plan. -/
theorem segment_length_le_commands_succ (hp : p.Fits limit) :
    (segment ⟨true, limit⟩ d).length ≤ (p.commands d).length + 1 := by
  by_cases h : p.Halfway d
  · have hd : d ≠ 0 := by
      rintro rfl
      obtain ⟨half, hcounter, hzero⟩ := h.half
      have := hp.two_le
      simp only [Int.natAbs_zero] at hzero
      omega
    rw [p.length_commands, ← (Plan.withCounter_halfway hd hp.two_le h).2]
    exact segment_length_le_withCounter rfl d hp.two_le hp.le_limit
  · exact Nat.le_succ_of_le (segment_length_le_commands hp (fun h' => absurd h' h))

theorem halfway_of_lt (hp : p.Fits limit)
    (hlt : (p.commands d).length < (segment ⟨true, limit⟩ d).length) :
    p.counter = limit ∧ p.Halfway d := by
  by_contra hnot
  refine absurd (segment_length_le_commands hp ?_) (Nat.not_le.mpr hlt)
  intro hhalf
  exact Nat.lt_of_le_of_ne hp.le_limit fun heq => hnot ⟨heq, hhalf⟩

/-- **A segment is shortest unless a plan is missed.** -/
theorem segment_shortest_iff (limit : Nat) (d : Int) :
    (∀ p : Plan, p.Fits limit → (segment ⟨true, limit⟩ d).length ≤ (p.commands d).length) ↔
      ¬ ∃ p : Plan, p.Missed limit d := by
  constructor
  · rintro hall ⟨p, hp⟩
    have hle := hall p hp.fits
    have hplain := hp.lt_plain
    rw [length_plain] at hplain
    rcases segment_length_eq ⟨true, limit⟩ d with heq | ⟨c, hc, hlim, hcd, heq⟩
    · omega
    · -- the segment comes from another plan
      have hd : d ≠ 0 := by
        rintro rfl
        exact Nat.not_lt_zero _ hplain
      have hother : Plan.withCounter d c ≠ p := by
        rintro rfl
        have hstep := (Plan.withCounter_halfway hd hc hp.halfway).1
        exact absurd hstep (by simp [Plan.withCounter])
      have hlt := hp.lt_others _ ⟨hc, hlim, nearest_pos (by omega) hcd⟩ hother
      rw [Plan.length_commands (Plan.withCounter d c)] at hlt
      omega
  · intro hnone p hp
    by_contra hlt
    obtain ⟨hcounter, hhalf⟩ := halfway_of_lt hp (Nat.not_le.mp hlt)
    refine hnone ⟨p, hp, hcounter, hhalf, ?_, ?_⟩
    · rw [length_plain]
      exact Nat.lt_of_lt_of_le (Nat.not_le.mp hlt) (segment_length_le_plain _ d)
    · intro q hq hne
      by_contra hle
      obtain ⟨hcounter', hhalf'⟩ := halfway_of_lt hq (d := d) (by omega)
      have hpos : 0 < q.counter := Nat.lt_of_lt_of_le Nat.two_pos hq.two_le
      exact hne (hhalf'.unique hhalf hpos (hcounter'.trans hcounter.symm))

/-! ## Programs -/

theorem dot_notMem_plain (d : Int) : '.' ∉ plain d := by
  intro hmem
  rcases mem_plain hmem with h | h
  · exact absurd h (by decide)
  · exact absurd h (by decide)

theorem dot_notMem_segment (options : Options) (d : Int) : '.' ∉ segment options d := by
  rcases segment_cases options d with ⟨hseg, -⟩ | ⟨p, hbest, hseg, -⟩
  · rw [hseg]
    exact dot_notMem_plain d
  · obtain ⟨c, hc, -, hcd, -⟩ := bestPlan_eq_some hbest
    have hd : d ≠ 0 := by
      rintro rfl
      simp only [Int.natAbs_zero] at hcd
      omega
    rw [hseg, p.commands_eq hd, Plan.round]
    simp [dot_notMem_plain]

end Composer

/-- **Segments are shortest, or one command too long.**  The program is made
    of one segment for each character, with a full stop behind it.  A
    segment is no longer than the plain run of its difference, and at most
    one command longer than any plan within the counter limit.  It is no
    longer than all of these exactly if none is missed: if the difference is
    not half-way between two steps of the largest counter, or the plan with
    the lower step has a rival that is as short. -/
theorem segments_shortest_unless_missed (limit : Nat) (text : String) :
    ∃ segments : List (List Char),
      (Composer.compose ⟨true, limit⟩ text).toList = segments.flatMap (· ++ ['.']) ∧
      List.Forall₂ (fun (d : Int) (segment : List Char) =>
          '.' ∉ segment ∧ segment.length ≤ (Composer.plain d).length ∧
          (∀ p : Composer.Plan, p.Fits limit → segment.length ≤ (p.commands d).length + 1) ∧
          ((∀ p : Composer.Plan, p.Fits limit → segment.length ≤ (p.commands d).length) ↔
            ¬ ∃ p : Composer.Plan, p.Missed limit d))
        (Composer.differences 0 (text.toList.map Char.toNat)) segments := by
  refine ⟨(Composer.differences 0 (text.toList.map Char.toNat)).map
    (Composer.segment ⟨true, limit⟩), ?_, ?_⟩
  · rw [Composer.compose, String.toList_ofList, List.flatMap_map]
    rfl
  · rw [List.forall₂_map_right_iff, List.forall₂_same]
    intro d _
    refine ⟨Composer.dot_notMem_segment _ d, ?_, ?_, Composer.segment_shortest_iff limit d⟩
    · rw [Composer.length_plain]
      exact Composer.segment_length_le_plain _ d
    · intro p hp
      exact Composer.segment_length_le_commands_succ hp

/-- With counters up to two, the character with code point 21 is printed by
    21 signs, though a loop of ten steps and one sign more would be shorter. -/
theorem segment_not_shortest_at_half :
    (Composer.compose ⟨true, 2⟩ "\x15").toList = List.replicate 21 '+' ++ ['.'] ∧
      (Composer.Plan.mk 2 10).Fits 2 ∧
      (Composer.Plan.mk 2 10).commands 21 = "<++[>++++++++++<-]>+".toList ∧
      ((Composer.Plan.mk 2 10).commands 21).length < (List.replicate 21 '+').length :=
  ⟨by decide +kernel, ⟨by decide, by decide, by decide⟩, by decide +kernel, by decide +kernel⟩

end TapeMachine
