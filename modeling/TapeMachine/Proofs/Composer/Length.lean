import TapeMachine.Proofs.Composer.Printing

/-! # Lengths — what composed programs cost

    A segment is as long as the shorter of two things: the plain run, and
    the best of the plans that were looked at, one for each counter.  So
    a larger counter limit can only make it shorter, and with it the
    program.

      * `Plan.search_length_le`: no plan that was looked at is shorter
        than the one the search ends with.
      * `segment_length_le_withCounter`, `segment_length_eq`: a segment is
        no longer than the plan of any counter, and as long as one of
        them if it is no plain run.  Counters beyond twice the difference
        are never looked at, and need not be: with them the step is zero,
        so the loop only adds to the plain run.
      * `length_commandsFrom_le`: what holds of the segments holds of the
        programs, by induction on the text. -/

namespace TapeMachine

namespace Composer

theorem length_plain (d : Int) : (plain d).length = d.natAbs := List.length_replicate

/-! ## The search -/

theorem nearest_eq_zero {n divisor : Nat} (h : 2 * n < divisor) : nearest n divisor = 0 :=
  Nat.div_eq_of_lt (by omega)

namespace Plan

/-- The length of a plan counts its commands. -/
theorem length_commands (p : Plan) (d : Int) : (p.commands d).length = p.length d := by
  simp only [commands, length, List.length_append, List.length_cons, List.length_nil,
    List.length_replicate, length_plain]
  omega

theorem shorter_length_le (d : Int) (p q : Plan) :
    (shorter d p q).length d ≤ p.length d ∧ (shorter d p q).length d ≤ q.length d := by
  by_cases hlt : q.length d < p.length d
  · rw [shorter, if_pos hlt]
    exact ⟨Nat.le_of_lt hlt, Nat.le_refl _⟩
  · rw [shorter, if_neg hlt]
    exact ⟨Nat.le_refl _, Nat.not_lt.mp hlt⟩

/-- The search ends with a plan that is no longer than the one it began
    with and than any plan it looked at. -/
theorem search_length_le (d : Int) (n : Nat) : ∀ (best : Plan) (counter : Nat),
    (search d best counter n).length d ≤ best.length d ∧
      ∀ c, counter ≤ c → c < counter + n →
        (search d best counter n).length d ≤ (withCounter d c).length d := by
  induction n with
  | zero =>
      intro best counter
      refine ⟨Nat.le_refl _, ?_⟩
      intro c hle hlt
      omega
  | succ n ih =>
      intro best counter
      obtain ⟨hbest, hplan⟩ := shorter_length_le d best (withCounter d counter)
      obtain ⟨hstart, hlater⟩ := ih (shorter d best (withCounter d counter)) (counter + 1)
      rw [search]
      refine ⟨Nat.le_trans hstart hbest, ?_⟩
      intro c hle hlt
      rcases Nat.eq_or_lt_of_le hle with rfl | hlt'
      · exact Nat.le_trans hstart hplan
      · exact hlater c hlt' (by omega)

end Plan

/-- With loops allowed, the best plan is no longer than that of any counter
    looked at. -/
theorem bestPlan_length_le {options : Options} (hloops : options.loops = true) {d : Int} {c : Nat}
    (hc : 2 ≤ c) (hmax : c ≤ options.maxCounter) (hd : c ≤ 2 * d.natAbs) :
    ∃ p, bestPlan options d = some p ∧ p.length d ≤ (Plan.withCounter d c).length d := by
  obtain ⟨n, hn⟩ : ∃ n, candidates options d = n + 1 :=
    ⟨candidates options d - 1, by unfold candidates; omega⟩
  refine ⟨Plan.search d (.withCounter d 2) 3 n, ?_, ?_⟩
  · rw [bestPlan, hloops, hn]
  · obtain ⟨hfirst, hlater⟩ := Plan.search_length_le d n (.withCounter d 2) 3
    unfold candidates at hn
    rcases Nat.eq_or_lt_of_le hc with rfl | hlt
    · exact hfirst
    · exact hlater c hlt (by omega)

/-! ## Segments -/

theorem segment_length_le_plain (options : Options) (d : Int) :
    (segment options d).length ≤ d.natAbs := by
  unfold segment
  split
  · split
    · rename_i p _ hshort
      rw [p.length_commands]
      exact Nat.le_of_lt hshort
    · exact Nat.le_of_eq (length_plain d)
  · exact Nat.le_of_eq (length_plain d)

/-- A segment is no longer than the best plan. -/
theorem segment_length_le_bestPlan {options : Options} {d : Int} {p : Plan}
    (h : bestPlan options d = some p) : (segment options d).length ≤ p.length d := by
  simp only [segment, h]
  split
  · exact Nat.le_of_eq (p.length_commands d)
  · rename_i hlong
    rw [length_plain]
    exact Nat.not_lt.mp hlong

theorem segment_length_le_withCounter {options : Options} (hloops : options.loops = true) (d : Int)
    {c : Nat} (hc : 2 ≤ c) (hmax : c ≤ options.maxCounter) :
    (segment options d).length ≤ (Plan.withCounter d c).length d := by
  by_cases hd : c ≤ 2 * d.natAbs
  · obtain ⟨p, hbest, hle⟩ := bestPlan_length_le hloops hc hmax hd
    exact Nat.le_trans (segment_length_le_bestPlan hbest) hle
  · -- the loop makes nothing, and the plain run follows it
    refine Nat.le_trans (segment_length_le_plain options d) ?_
    have hzero : nearest d.natAbs c = 0 := nearest_eq_zero (by omega)
    simp only [Plan.withCounter, Plan.length, Plan.remainder, hzero, Nat.mul_zero,
      Int.natCast_zero, Int.mul_zero, Int.sub_zero]
    omega

theorem segment_length_eq (options : Options) (d : Int) :
    (segment options d).length = d.natAbs ∨
      ∃ c, 2 ≤ c ∧ c ≤ options.maxCounter ∧ c ≤ 2 * d.natAbs ∧
        (segment options d).length = (Plan.withCounter d c).length d := by
  rcases segment_cases options d with ⟨hseg, -⟩ | ⟨p, hbest, hseg, -⟩
  · refine Or.inl ?_
    rw [hseg, length_plain]
  · obtain ⟨c, hc, hmax, hcd, rfl⟩ := bestPlan_eq_some hbest
    refine Or.inr ⟨c, hc, hmax, hcd, ?_⟩
    rw [hseg, Plan.length_commands]

/-- More counters to choose from never make a segment longer. -/
theorem segment_length_mono {f f' : Nat} (hle : f ≤ f') (d : Int) :
    (segment ⟨true, f'⟩ d).length ≤ (segment ⟨true, f⟩ d).length := by
  rcases segment_length_eq ⟨true, f⟩ d with heq | ⟨c, hc, hmax, -, heq⟩
  · rw [heq]
    exact segment_length_le_plain _ d
  · rw [heq]
    exact segment_length_le_withCounter rfl d hc (Nat.le_trans hmax hle)

/-- Without loops every segment is a plain run. -/
theorem segment_without_loops (f : Nat) (d : Int) : segment ⟨false, f⟩ d = plain d := by
  have hnone : bestPlan ⟨false, f⟩ d = none := rfl
  rw [segment, hnone]

/-! ## Programs -/

theorem length_commandsFrom_le {options options' : Options}
    (hseg : ∀ d, (segment options d).length ≤ (segment options' d).length) (text : List Char) :
    ∀ last, (commandsFrom options last text).length ≤ (commandsFrom options' last text).length := by
  induction text with
  | nil => intro last; exact Nat.le_refl 0
  | cons c text ih =>
      intro last
      have hfirst := hseg (c.toNat - last)
      have hrest := ih c.toNat
      rw [commandsFrom_cons, commandsFrom_cons]
      simp only [List.length_append]
      omega

/-- The way from a code point through those of a text: the sum of the
    absolute differences between one and the next. -/
def way (last : Nat) : List Char → Nat
  | [] => 0
  | c :: text => ((c.toNat : Int) - last).natAbs + way c.toNat text

theorem length_commandsFrom_without_loops (f : Nat) (text : List Char) :
    ∀ last, (commandsFrom ⟨false, f⟩ last text).length = text.length + way last text := by
  induction text with
  | nil => intro last; rfl
  | cons c text ih =>
      intro last
      rw [commandsFrom_cons, segment_without_loops]
      simp only [List.length_append, List.length_cons, List.length_nil, length_plain, ih, way]
      omega

end Composer

/-- **Tuning never makes a program longer.**  A larger counter limit gives a
    program that is no longer, loops give one that is no longer than without
    them, and without them it has one command for each character and one for
    each unit of the way through the code points.  Whatever the options, the
    program prints the same on every tape whose cell left of the cursor is
    missing or zero. -/
theorem tuning_never_lengthens (text : String) {f f' : Nat} (hle : f ≤ f') (t : Tape)
    (hleft : ∀ v ∈ t.before.head?, v = 0) :
    (Composer.compose ⟨true, f'⟩ text).length ≤ (Composer.compose ⟨true, f⟩ text).length ∧
    (∀ g, (Composer.compose ⟨true, f⟩ text).length ≤ (Composer.compose ⟨false, g⟩ text).length ∧
      (Composer.compose ⟨false, g⟩ text).length
        = text.length + Composer.way 0 text.toList) ∧
    ∃ out, ∀ options, ∃ t', Returns (Composer.compose options text) t out t' := by
  have hlength : ∀ options, (Composer.compose options text).length
      = (Composer.commandsFrom options 0 text.toList).length :=
    fun options => String.length_ofList
  simp only [hlength]
  refine ⟨?_, ?_, ?_⟩
  · exact Composer.length_commandsFrom_le (Composer.segment_length_mono hle) _ 0
  · intro g
    constructor
    · refine Composer.length_commandsFrom_le ?_ _ 0
      intro d
      rw [Composer.segment_without_loops, Composer.length_plain]
      exact Composer.segment_length_le_plain _ d
    · exact Composer.length_commandsFrom_without_loops g text.toList 0
  · refine ⟨String.ofList (text.toList.map fun c => (t.cell + Int32.ofNat c.toNat).glyph), ?_⟩
    intro options
    have hcell : t.cell = t.cell + Int32.ofNat 0 := (Int32.add_zero t.cell).symm
    have heval := Composer.evaluates_commandsFrom options t.cell text.toList 0 t (by decide)
      hcell hleft
    exact ⟨_, heval.returns⟩

/-- Three programs for one character, each shorter than the one before. -/
theorem tuning_never_lengthens_z :
    2 ≤ 32 ∧ (∀ v ∈ Tape.blank.before.head?, v = 0) ∧
      (Composer.compose ⟨true, 32⟩ "z").length = 31 ∧
      (Composer.compose ⟨true, 2⟩ "z").length = 71 ∧
      (Composer.compose ⟨false, 0⟩ "z").length = 1 + 122 ∧
      ∃ out, ∀ options, ∃ t', Returns (Composer.compose options "z") .blank out t' := by
  have hleft : ∀ v ∈ Tape.blank.before.head?, v = 0 := by
    intro v hv
    cases hv
  have hle : 2 ≤ 32 := by decide
  obtain ⟨-, hplain, hout⟩ := tuning_never_lengthens "z" hle .blank hleft
  refine ⟨hle, hleft, by decide +kernel, by decide +kernel, ?_, hout⟩
  exact (hplain 0).2

end TapeMachine
