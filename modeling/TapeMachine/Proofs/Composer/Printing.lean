import TapeMachine.Composer
import TapeMachine.Proofs.Structured

/-! # Printing — composed programs print their text

    A composed program is a row of segments, each followed by a full
    stop.  A segment changes the cell under the cursor by a difference
    and leaves the rest of the tape alone, but for the counter of a loop:
    the cell to the left, which a loop takes from zero up and back down
    to zero.

      * `evaluates_plain`: a run of signs makes its difference.
      * `evaluates_countdown`: a counting loop makes its step once for
        each unit of the counter.  The induction is on the counter.
      * `evaluates_segment`: a segment makes its difference, however it
        was planned.
      * `evaluates_commandsFrom`: the whole program, by induction on the
        text. -/

namespace TapeMachine

/-- Moving left of a cell whose left neighbour is missing or zero comes
    upon a zero cell. -/
theorem Tape.left_of_zero (t : Tape) (hleft : ∀ v ∈ t.before.head?, v = 0) :
    t.left = ⟨t.before.tail, 0, t.cell :: t.after⟩ := by
  obtain ⟨before, v, after⟩ := t
  cases before with
  | nil => rfl
  | cons w before =>
      obtain rfl : w = 0 := hleft w rfl
      rfl

namespace Composer

/-! ## Plain runs -/

/-- Signs of one kind count in the cell under the cursor. -/
theorem evaluates_replicate {c : Char} (hc : IsPlain c) {δ : Cell}
    (hstep : ∀ t : Tape, (Instr.ofPlain c).onMemory t = t.set (t.cell + δ))
    (hquiet : ∀ v, (Instr.ofPlain c).emits v = []) (n : Nat) (t : Tape) :
    Evaluates (List.replicate n c) t [] (t.set (t.cell + Int32.ofNat n * δ)) := by
  induction n generalizing t with
  | zero =>
      rw [show t.set (t.cell + Int32.ofNat 0 * δ) = t from by simp [Tape.set]]
      exact .nil t
  | succ n ih =>
      have hone := Evaluates.plain hc t
      rw [hstep, hquiet] at hone
      have hall := hone.append (ih (t.set (t.cell + δ)))
      rw [show (t.set (t.cell + δ)).set ((t.set (t.cell + δ)).cell + Int32.ofNat n * δ)
          = t.set (t.cell + Int32.ofNat (n + 1) * δ) from by
        simp only [Tape.set, Int32.ofNat_add, Tape.mk.injEq, true_and, and_true]
        grind] at hall
      exact hall

/-- A run of signs makes its difference. -/
theorem evaluates_plain (d : Int) (t : Tape) :
    Evaluates (plain d) t [] (t.set (t.cell + Int32.ofInt d)) := by
  unfold plain sign
  by_cases hd : 0 ≤ d
  · have hval : Int32.ofNat d.natAbs * 1 = Int32.ofInt d := by
      rw [Int32.mul_one, ← Int32.ofInt_eq_ofNat, Int.natAbs_of_nonneg hd]
    rw [if_pos hd, ← hval]
    exact evaluates_replicate (by decide) (fun t => rfl) (fun v => rfl) d.natAbs t
  · have hval : Int32.ofNat d.natAbs * -1 = Int32.ofInt d := by
      rw [Int32.mul_neg, Int32.mul_one, ← Int32.ofInt_eq_ofNat, ← Int32.ofInt_neg]
      congr 1
      omega
    rw [if_neg hd, ← hval]
    refine evaluates_replicate (by decide) (fun t => ?_) (fun v => rfl) d.natAbs t
    show t.set (t.cell - 1) = t.set (t.cell + -1)
    rw [Int32.sub_eq_add_neg]

/-- A plain run has no commands but signs. -/
theorem mem_plain {c : Char} {d : Int} (h : c ∈ plain d) : c = '+' ∨ c = '-' := by
  have hsign : c = sign d := (List.mem_replicate.mp h).2
  by_cases hd : 0 ≤ d
  · rw [sign, if_pos hd] at hsign
    exact Or.inl hsign
  · rw [sign, if_neg hd] at hsign
    exact Or.inr hsign

/-- A run of plus signs. -/
theorem plain_natCast (n : Nat) : plain n = List.replicate n '+' := by
  rw [plain, sign, Int.natAbs_natCast, if_pos (Int.natCast_nonneg n)]

/-- A run of signs that brings a cell nearer to a number. -/
theorem plain_sign_mul {d : Int} (hd : d ≠ 0) (n : Nat) :
    plain (d.sign * n) = List.replicate n (sign d) := by
  rcases Int.lt_or_gt_of_ne hd with hneg | hpos
  · rw [Int.sign_eq_neg_one_of_neg hneg, plain, sign, sign, if_neg (Int.not_le.mpr hneg),
      show (-1 * (n : Int)).natAbs = n from by omega]
    cases n with
    | zero => rfl
    | succ n => rw [if_neg (by omega)]
  · rw [Int.sign_eq_one_of_pos hpos, Int.one_mul, plain_natCast, sign,
      if_pos (Int.le_of_lt hpos)]

/-! ## Counting loops -/

/-- A small positive number is not zero as a cell. -/
theorem ofNat_ne_zero {n : Nat} (hpos : 0 < n) (hlt : n < Int32.size) : Int32.ofNat n ≠ 0 := by
  intro h
  have hint := congrArg Int32.toInt h
  rw [Int32.toInt_ofNat', Int32.toInt_zero, Int.bmod_def] at hint
  simp only [Int32.size] at hint hlt
  split at hint <;> omega

/-- A loop whose body makes a step in the neighbour and counts down by
    one makes the step as often as the counter says. -/
theorem evaluates_countdown {body : List Char} {before after : List Cell} {δ : Cell}
    (hbody : ∀ c v, Evaluates body (Tape.mk before c (v :: after)) []
      ⟨before, c - 1, (v + δ) :: after⟩)
    (n : Nat) (hn : n + 1 < Int32.size) (v : Cell) :
    Evaluates ('[' :: body ++ [']']) (Tape.mk before (Int32.ofNat (n + 1)) (v :: after)) []
      ⟨before, 0, (v + Int32.ofNat (n + 1) * δ) :: after⟩ := by
  induction n generalizing v with
  | zero =>
      have hround := hbody (Int32.ofNat 1) v
      rw [show Int32.ofNat 1 - 1 = 0 from rfl] at hround
      rw [Nat.zero_add, show Int32.ofNat 1 * δ = δ from Int32.one_mul δ]
      exact hround.loopDone rfl
  | succ n ih =>
      have hround := hbody (Int32.ofNat (n + 1 + 1)) v
      rw [show Int32.ofNat (n + 1 + 1) - 1 = Int32.ofNat (n + 1) from by
        rw [Int32.ofNat_add (n + 1) 1]
        exact Int32.add_sub_cancel _ _] at hround
      have hnz : Int32.ofNat (n + 1) ≠ 0 := ofNat_ne_zero (by omega) (by omega)
      have hall := hround.loopAgain hnz (ih (by omega) (v + δ))
      rw [show v + δ + Int32.ofNat (n + 1) * δ = v + Int32.ofNat (n + 1 + 1) * δ from by
        rw [Int32.ofNat_add (n + 1) 1]
        grind] at hall
      exact hall

namespace Plan

/-- One round of the loop of a plan: the step in the cell to the right,
    and one off the counter. -/
def round (p : Plan) (d : Int) : List Char :=
  '>' :: plain (d.sign * p.step) ++ ['<', '-']

/-- The commands of a plan are the counter, the loop and the signs that
    are left. -/
theorem commands_eq (p : Plan) {d : Int} (hd : d ≠ 0) :
    p.commands d = ['<'] ++ (plain p.counter ++ (('[' :: p.round d ++ [']'])
      ++ (['>'] ++ plain (p.remainder d)))) := by
  rw [round, plain_sign_mul hd, plain_natCast, commands]
  simp only [List.cons_append, List.nil_append, List.append_assoc]

/-- One round makes the step. -/
theorem evaluates_round (p : Plan) (d : Int) (before after : List Cell) (c v : Cell) :
    Evaluates (p.round d) (Tape.mk before c (v :: after)) []
      ⟨before, c - 1, (v + Int32.ofInt (d.sign * p.step)) :: after⟩ := by
  have hright : Evaluates ['>'] (Tape.mk before c (v :: after)) [] ⟨c :: before, v, after⟩ :=
    .plain (by decide) _
  have hstep := evaluates_plain (d.sign * p.step) ⟨c :: before, v, after⟩
  have hback : Evaluates ['<', '-']
      (Tape.mk (c :: before) (v + Int32.ofInt (d.sign * p.step)) after) []
      ⟨before, c - 1, (v + Int32.ofInt (d.sign * p.step)) :: after⟩ :=
    (Evaluates.plain (c := '<') (by decide) _).append (.plain (c := '-') (by decide) _)
  exact hright.append (hstep.append hback)

/-- Loop and remainder together make the difference. -/
theorem loop_add_remainder (p : Plan) (d : Int) :
    Int32.ofNat p.counter * Int32.ofInt (d.sign * p.step) + Int32.ofInt (p.remainder d)
      = Int32.ofInt d := by
  rw [← Int32.ofInt_eq_ofNat, ← Int32.ofInt_mul, ← Int32.ofInt_add, remainder]
  congr 1
  rw [Int.natCast_mul]
  grind

/-- A plan makes its difference, with a zero cell to the left for its
    counter. -/
theorem evaluates_commands (p : Plan) {d : Int} (hd : d ≠ 0) (hpos : 0 < p.counter)
    (hlt : p.counter < Int32.size) (t : Tape) (hleft : ∀ v ∈ t.before.head?, v = 0) :
    Evaluates (p.commands d) t []
      ⟨0 :: t.before.tail, t.cell + Int32.ofInt d, t.after⟩ := by
  obtain ⟨n, hn⟩ : ∃ n, p.counter = n + 1 := ⟨p.counter - 1, by omega⟩
  rw [p.commands_eq hd]
  -- onto the counter, which holds zero
  have honto : Evaluates ['<'] t [] ⟨t.before.tail, 0, t.cell :: t.after⟩ := by
    have hstep := Evaluates.plain (c := '<') (by decide) t
    rw [show (Instr.ofPlain '<').onMemory t = ⟨t.before.tail, 0, t.cell :: t.after⟩ from
      t.left_of_zero hleft] at hstep
    exact hstep
  -- up to its value
  have hup := evaluates_plain p.counter ⟨t.before.tail, 0, t.cell :: t.after⟩
  rw [Int32.ofInt_eq_ofNat, Int32.zero_add, Tape.set] at hup
  -- down again, with a step each time
  have hdown := evaluates_countdown (p.evaluates_round d t.before.tail t.after) n
    (by omega) t.cell
  rw [← hn] at hdown
  -- and back, with the signs that are left
  have hback : Evaluates ['>'] (Tape.mk t.before.tail 0
      ((t.cell + Int32.ofNat p.counter * Int32.ofInt (d.sign * p.step)) :: t.after)) []
      ⟨0 :: t.before.tail, t.cell + Int32.ofNat p.counter * Int32.ofInt (d.sign * p.step),
        t.after⟩ :=
    .plain (by decide) _
  have hrest := evaluates_plain (p.remainder d) ⟨0 :: t.before.tail,
    t.cell + Int32.ofNat p.counter * Int32.ofInt (d.sign * p.step), t.after⟩
  rw [Tape.set, Int32.add_assoc, p.loop_add_remainder] at hrest
  exact honto.append (hup.append (hdown.append (hback.append hrest)))

/-- The search ends with the plan it began with or with one of the plans
    it looked at. -/
theorem search_eq (d : Int) (n : Nat) : ∀ (best : Plan) (counter : Nat),
    search d best counter n = best ∨
      ∃ c, counter ≤ c ∧ c < counter + n ∧ search d best counter n = withCounter d c := by
  induction n with
  | zero => intro best counter; exact Or.inl rfl
  | succ n ih =>
      intro best counter
      rw [search]
      rcases ih (shorter d best (withCounter d counter)) (counter + 1) with
        hsame | ⟨c, hle, hlt, heq⟩
      · rw [hsame, shorter]
        by_cases hshort : (withCounter d counter).length d < best.length d
        · rw [if_pos hshort]
          exact Or.inr ⟨counter, by omega, by omega, rfl⟩
        · rw [if_neg hshort]
          exact Or.inl rfl
      · exact Or.inr ⟨c, by omega, by omega, heq⟩

end Plan

/-- The best plan has a counter of at least two, within the options and
    within twice the difference. -/
theorem bestPlan_eq_some {options : Options} {d : Int} {p : Plan}
    (h : bestPlan options d = some p) :
    ∃ c, 2 ≤ c ∧ c ≤ options.maxCounter ∧ c ≤ 2 * d.natAbs ∧ p = .withCounter d c := by
  unfold bestPlan at h
  split at h
  · rename_i n _ hn
    obtain rfl := Option.some.inj h
    unfold candidates at hn
    rcases Plan.search_eq d n (.withCounter d 2) 3 with hfirst | ⟨c, hle, hlt, heq⟩
    · exact ⟨2, by omega, by omega, by omega, hfirst⟩
    · exact ⟨c, by omega, by omega, by omega, heq⟩
  · exact nomatch h

/-! ## Segments -/

/-- A segment is a plain run without a loop, or the commands of the best
    plan with one. -/
theorem segment_cases (options : Options) (d : Int) :
    (segment options d = plain d ∧ '[' ∉ segment options d) ∨
      ∃ p, bestPlan options d = some p ∧ segment options d = p.commands d ∧
        '[' ∈ segment options d := by
  have hplain : '[' ∉ plain d := by
    intro hmem
    rcases mem_plain hmem with h | h
    · exact absurd h (by decide)
    · exact absurd h (by decide)
  unfold segment
  cases hbest : bestPlan options d with
  | none => exact Or.inl ⟨rfl, hplain⟩
  | some p =>
      by_cases hshort : p.length d < d.natAbs
      · refine Or.inr ⟨p, rfl, if_pos hshort, ?_⟩
        simp only [if_pos hshort]
        simp [Plan.commands]
      · refine Or.inl ⟨if_neg hshort, ?_⟩
        simp only [if_neg hshort]
        exact hplain

/-- The cells left of the cursor after a piece of a program: a loop
    leaves a zero cell nearest to it. -/
def counted (program : List Char) (before : List Cell) : List Cell :=
  if '[' ∈ program then 0 :: before.tail else before

/-- The nearest cell stays missing or zero. -/
theorem counted_head {before : List Cell} (hleft : ∀ v ∈ before.head?, v = 0)
    (program : List Char) : ∀ v ∈ (counted program before).head?, v = 0 := by
  unfold counted
  split
  · intro v hv
    exact (Option.some.inj hv).symm
  · exact hleft

/-- One piece after another. -/
theorem counted_append (program program' : List Char) (before : List Cell) :
    counted program' (counted program before) = counted (program ++ program') before := by
  unfold counted
  by_cases h : '[' ∈ program <;> by_cases h' : '[' ∈ program' <;> simp [h, h']

/-- Only a missing cell makes a difference. -/
theorem counted_of_zero {before : List Cell} (hleft : ∀ v ∈ before.head?, v = 0)
    (program : List Char) :
    counted program before = if before = [] ∧ '[' ∈ program then [0] else before := by
  unfold counted
  cases before with
  | nil => simp only [List.tail_nil, true_and]
  | cons w before =>
      obtain rfl : w = 0 := hleft w rfl
      simp

/-- A segment makes its difference. -/
theorem evaluates_segment (options : Options) {d : Int} (hd : 2 * d.natAbs < Int32.size) (t : Tape)
    (hleft : ∀ v ∈ t.before.head?, v = 0) :
    Evaluates (segment options d) t []
      ⟨counted (segment options d) t.before, t.cell + Int32.ofInt d, t.after⟩ := by
  rcases segment_cases options d with ⟨hseg, hno⟩ | ⟨p, hbest, hseg, hyes⟩
  · rw [counted, if_neg hno, hseg]
    exact evaluates_plain d t
  · obtain ⟨c, hc, -, hcd, rfl⟩ := bestPlan_eq_some hbest
    rw [counted, if_pos hyes, hseg]
    refine Plan.evaluates_commands _ ?_ ?_ ?_ t hleft
    · rintro rfl
      simp only [Int.natAbs_zero] at hcd
      omega
    · show 0 < c
      omega
    · exact Nat.lt_of_le_of_lt hcd hd

/-! ## Whole programs -/

/-- Code points are below the end of the code space. -/
theorem toNat_lt (c : Char) : c.toNat < 0x110000 := by
  rcases c.valid with h | ⟨-, h⟩
  · exact Nat.lt_trans h (by decide)
  · exact h

/-- The commands that print a text, one character after another, when the
    last code point printed is `last`. -/
def commandsFrom (options : Options) (last : Nat) (text : List Char) : List Char :=
  (differences last (text.map Char.toNat)).flatMap fun d => segment options d ++ ['.']

/-- The first character comes first. -/
theorem commandsFrom_cons (options : Options) (last : Nat) (c : Char) (text : List Char) :
    commandsFrom options last (c :: text)
      = segment options (c.toNat - last) ++ (['.'] ++ commandsFrom options c.toNat text) := by
  show (segment options (c.toNat - last) ++ ['.']) ++ commandsFrom options c.toNat text = _
  rw [List.append_assoc]

/-- The commands print the text, shifted by what the cell held beyond the
    last code point, and end with the code point of the last character in
    the cell. -/
theorem evaluates_commandsFrom (options : Options) (v : Cell) (text : List Char) :
    ∀ (last : Nat) (t : Tape), last < 0x110000 → t.cell = v + Int32.ofNat last →
      (∀ w ∈ t.before.head?, w = 0) →
      Evaluates (commandsFrom options last text) t
        (text.map fun c => (v + Int32.ofNat c.toNat).glyph)
        ⟨counted (commandsFrom options last text) t.before,
          v + Int32.ofNat ((text.map Char.toNat).getLastD last), t.after⟩ := by
  induction text with
  | nil =>
      intro last t _ hcell _
      show Evaluates [] t [] ⟨t.before, v + Int32.ofNat last, t.after⟩
      rw [← hcell]
      exact .nil t
  | cons c text ih =>
      intro last t hlast hcell hleft
      have hc : c.toNat < 0x110000 := toNat_lt c
      have hvalue : t.cell + Int32.ofInt (c.toNat - last) = v + Int32.ofNat c.toNat := by
        rw [hcell, Int32.ofInt_sub, Int32.ofInt_eq_ofNat, Int32.ofInt_eq_ofNat]
        grind
      have hsmall : 2 * ((c.toNat : Int) - last).natAbs < Int32.size := by
        simp only [Int32.size]
        omega
      -- the segment of the character, its full stop, and the rest
      have hseg := evaluates_segment options (d := c.toNat - last) hsmall t hleft
      rw [hvalue] at hseg
      have hdot : Evaluates ['.'] (Tape.mk (counted (segment options (c.toNat - last)) t.before)
          (v + Int32.ofNat c.toNat) t.after) [(v + Int32.ofNat c.toNat).glyph] _ :=
        .plain (by decide) _
      have hrest := ih c.toNat ⟨counted (segment options (c.toNat - last)) t.before,
        v + Int32.ofNat c.toNat, t.after⟩ hc rfl (counted_head hleft _)
      have hquiet : ∀ before, counted ['.'] before = before := fun before => if_neg (by decide)
      rw [commandsFrom_cons, ← counted_append, ← counted_append, hquiet, List.map_cons,
        List.map_cons, List.getLastD_cons]
      exact hseg.append (hdot.append hrest)

end Composer

/-- A cell that holds a code point prints its character. -/
theorem Cell.glyph_toNat (c : Char) : Cell.glyph (Int32.ofNat c.toNat) = c := by
  have hlt := Composer.toNat_lt c
  have hint : (Int32.ofNat c.toNat).toInt = c.toNat := Int32.toInt_ofNat_of_lt (by omega)
  rw [glyph, hint, Int.toNat_natCast, if_pos ⟨Int.natCast_nonneg _, c.valid⟩, Char.ofNat_toNat]

/-- **Composed programs print their text.**  On every tape whose cell left
    of the cursor is missing or zero, the program composed for a text
    returns the text with each code point shifted by the value under the
    cursor.  The cell under the cursor ends with the last code point on
    top, a zero cell has been made to its left exactly if there was none
    and the program has a loop, and all other cells are as they were. -/
theorem compose_prints (options : Composer.Options) (text : String) (t : Tape)
    (hleft : ∀ v ∈ t.before.head?, v = 0) :
    ∃ out t', Returns (Composer.compose options text) t out t' ∧
      out = String.ofList (text.toList.map fun c => (t.cell + Int32.ofNat c.toNat).glyph) ∧
      (t.cell = 0 → out = text) ∧
      t'.cell = t.cell + Int32.ofNat ((text.toList.map Char.toNat).getLastD 0) ∧
      t'.before = (if t.before = [] ∧ '[' ∈ (Composer.compose options text).toList then [0]
        else t.before) ∧
      t'.after = t.after ∧
      (∀ v ∈ t'.before.head?, v = 0) := by
  have hcell : t.cell = t.cell + Int32.ofNat 0 := (Int32.add_zero t.cell).symm
  have heval := Composer.evaluates_commandsFrom options t.cell text.toList 0 t (by decide)
    hcell hleft
  refine ⟨_, _, heval.returns, rfl, ?_, rfl, ?_, rfl, Composer.counted_head hleft _⟩
  · intro hzero
    rw [hzero]
    simp only [Int32.zero_add, Cell.glyph_toNat, List.map_id', String.ofList_toList]
  · rw [Composer.compose, String.toList_ofList]
    exact Composer.counted_of_zero hleft _

/-- A loop up, a loop down, and a counter made at the left end. -/
theorem compose_prints_both_ways :
    (∀ v ∈ (Tape.mk [] 0 [7]).before.head?, v = 0) ∧
      Returns (Composer.compose {} "zA") ⟨[], 0, [7]⟩ "zA" ⟨[0], 65, [7]⟩ := by
  have hleft : ∀ v ∈ (Tape.mk [] 0 [7]).before.head?, v = 0 := by
    intro v hv
    cases hv
  refine ⟨hleft, ?_⟩
  obtain ⟨out, ⟨before, v, after⟩, hreturns, -, htext, hcell, hbefore, hafter, -⟩ :=
    compose_prints {} "zA" ⟨[], 0, [7]⟩ hleft
  have hloop : '[' ∈ (Composer.compose {} "zA").toList := by decide +kernel
  rw [if_pos ⟨rfl, hloop⟩] at hbefore
  obtain rfl : out = "zA" := htext rfl
  obtain rfl : before = [0] := hbefore
  obtain rfl : v = 65 := hcell
  obtain rfl : after = [7] := hafter
  exact hreturns

end TapeMachine
