import TapeMachine.Proofs.LinkedTape.Links
import Mathlib.Algebra.Order.Group.Int
import Mathlib.Order.Bounds.Image

/-! # Excursions — how far moves stretch a tape

    Moves write nothing, so all they can do to the cells is add zeros at
    the ends.  How many there are can be read off the walk before it is
    made: the displacement from the start is a sum of steps, and the tape
    is stretched on each side by what the furthest displacement is beyond
    the end.

      * `lowest_isLeast`, `highest_isGreatest`: the extrema of the
        displacements, by recursion on the moves.
      * `Line.apply_move`: what one move adds at the ends.
      * `Line.walk_pads`: the cells and the cursor after a walk.  The
        induction is on the moves, from the first one on.  A move past
        the front puts a zero there and shifts the index, so the start of
        the remaining walk is another one.
      * `Tape.walk_line`, `LinkedTape.Laid.walk`: tapes and linked tapes
        walk like their lines, and count the cells by which these get
        longer. -/

namespace TapeMachine

/-- One move of the cursor. -/
inductive Move where
  | left
  | right
deriving DecidableEq, Repr

namespace Move

/-- The move as an operation. -/
def edit : Move → Tape.Edit
  | .left => .left
  | .right => .right

/-- The step of the cursor. -/
def stride : Move → Int
  | .left => -1
  | .right => 1

end Move

/-! ## Displacements -/

/-- The number of moves right less the number of moves left. -/
def displacement : List Move → Int
  | [] => 0
  | m :: moves => m.stride + displacement moves

/-- The displacements after each number of moves, from none to all. -/
def displacements (moves : List Move) : Set Int :=
  {d | ∃ i ≤ moves.length, displacement (moves.take i) = d}

/-- The least displacement. -/
def lowest : List Move → Int
  | [] => 0
  | m :: moves => min 0 (m.stride + lowest moves)

/-- The greatest displacement. -/
def highest : List Move → Int
  | [] => 0
  | m :: moves => max 0 (m.stride + highest moves)

theorem displacements_nil : displacements [] = {0} := by
  ext d
  constructor
  · rintro ⟨i, -, rfl⟩
    rw [List.take_nil]
    rfl
  · rintro rfl
    exact ⟨0, Nat.le_refl 0, rfl⟩

/-- After the first move the rest of the walk begins. -/
theorem displacements_cons (m : Move) (moves : List Move) :
    displacements (m :: moves) = insert 0 ((m.stride + ·) '' displacements moves) := by
  ext d
  constructor
  · rintro ⟨i, hi, rfl⟩
    cases i with
    | zero => exact Or.inl rfl
    | succ i => exact Or.inr ⟨_, ⟨i, Nat.le_of_succ_le_succ hi, rfl⟩, rfl⟩
  · rintro (rfl | ⟨_, ⟨i, hi, rfl⟩, rfl⟩)
    · exact ⟨0, Nat.zero_le _, rfl⟩
    · exact ⟨i + 1, Nat.succ_le_succ hi, rfl⟩

theorem lowest_isLeast (moves : List Move) : IsLeast (displacements moves) (lowest moves) := by
  induction moves with
  | nil =>
      rw [displacements_nil]
      exact isLeast_singleton
  | cons m moves ih =>
      have hmono : Monotone (m.stride + ·) := fun _ _ h => Int.add_le_add_left h _
      rw [displacements_cons]
      exact (hmono.map_isLeast ih).insert 0

theorem highest_isGreatest (moves : List Move) :
    IsGreatest (displacements moves) (highest moves) := by
  induction moves with
  | nil =>
      rw [displacements_nil]
      exact isGreatest_singleton
  | cons m moves ih =>
      have hmono : Monotone (m.stride + ·) := fun _ _ h => Int.add_le_add_left h _
      rw [displacements_cons]
      exact (hmono.map_isGreatest ih).insert 0

theorem lowest_nonpos (moves : List Move) : lowest moves ≤ 0 :=
  (lowest_isLeast moves).2 ⟨0, Nat.zero_le _, rfl⟩

theorem highest_nonneg (moves : List Move) : 0 ≤ highest moves :=
  (highest_isGreatest moves).2 ⟨0, Nat.zero_le _, rfl⟩

/-! ## Lines -/

namespace Line

/-- Make moves one after another. -/
def walk (moves : List Move) (l : Line) : Line := l.applyAll (moves.map Move.edit)

theorem walk_cons (m : Move) (moves : List Move) (l : Line) :
    l.walk (m :: moves) = (l.apply m.edit).walk moves := rfl

theorem length_padded (xs : List Cell) (a b : Nat) :
    (List.replicate a 0 ++ (xs ++ List.replicate b 0)).length = a + (xs.length + b) := by
  rw [List.length_append, List.length_append, List.length_replicate, List.length_replicate]

/-- One move adds a zero at an end exactly if it goes past it. -/
theorem apply_move (m : Move) (l : Line) : ∃ a b : Nat,
    (a : Int) = max 0 (-(l.index + m.stride)) ∧
    (b : Int) = max 0 (l.index + m.stride - (l.cells.length - 1)) ∧
    (l.apply m.edit).cells = List.replicate a 0 ++ (l.cells ++ List.replicate b 0) ∧
    ((l.apply m.edit).index : Int) = l.index + m.stride + a := by
  have hlt := l.index_lt
  have hsame : l.cells = List.replicate 0 0 ++ (l.cells ++ List.replicate 0 0) :=
    (List.append_nil l.cells).symm
  cases m with
  | right =>
      show ∃ a b : Nat, (a : Int) = max 0 (-((l.index : Int) + 1)) ∧
        (b : Int) = max 0 ((l.index : Int) + 1 - (l.cells.length - 1)) ∧ l.right.cells = _ ∧
        (l.right.index : Int) = l.index + 1 + a
      by_cases hinner : l.index + 1 < l.cells.length
      · rw [right_inner hinner]
        exact ⟨0, 0, by omega, by omega, hsame, by simp only; omega⟩
      · rw [right_end (by omega)]
        exact ⟨0, 1, by omega, by omega, rfl, by simp only; omega⟩
  | left =>
      show ∃ a b : Nat, (a : Int) = max 0 (-((l.index : Int) + -1)) ∧
        (b : Int) = max 0 ((l.index : Int) + -1 - (l.cells.length - 1)) ∧ l.left.cells = _ ∧
        (l.left.index : Int) = l.index + -1 + a
      by_cases hfront : l.index = 0
      · rw [left_front hfront]
        refine ⟨1, 0, by omega, by omega, ?_, by simp only; omega⟩
        exact congrArg (0 :: ·) hsame
      · rw [left_inner hfront]
        exact ⟨0, 0, by omega, by omega, hsame, by simp only; omega⟩

/-- The length after a move whose growth is told. -/
theorem length_apply_move {m : Move} {l : Line} {grew : Bool}
    (h : grew = true ↔ l.cells.length < (l.apply m.edit).cells.length) :
    (l.apply m.edit).cells.length = l.cells.length + grew.toNat := by
  obtain ⟨a, b, ha, hb, hcells, -⟩ := l.apply_move m
  have hlt := l.index_lt
  have hlen : (l.apply m.edit).cells.length = a + (l.cells.length + b) := by
    rw [hcells, length_padded]
  have hone : a + b ≤ 1 := by
    cases m with
    | right => simp only [Move.stride] at ha hb; omega
    | left => simp only [Move.stride] at ha hb; omega
  cases grew with
  | true =>
      have := h.mp rfl
      rw [Bool.toNat_true]
      omega
  | false =>
      have : ¬ _ := fun hgt => Bool.false_ne_true (h.mpr hgt)
      rw [Bool.toNat_false]
      omega

/-- **A walk adds zeros at the ends**, as many on each side as its furthest
    displacement is beyond the end. -/
theorem walk_pads (moves : List Move) : ∀ (l : Line) (a b : Nat),
    (a : Int) = max 0 (-(l.index + lowest moves)) →
    (b : Int) = max 0 (l.index + highest moves - (l.cells.length - 1)) →
    (l.walk moves).cells = List.replicate a 0 ++ (l.cells ++ List.replicate b 0) ∧
      ((l.walk moves).index : Int) = l.index + displacement moves + a := by
  induction moves with
  | nil =>
      intro l a b ha hb
      have hlt := l.index_lt
      simp only [lowest, highest] at ha hb
      obtain rfl : a = 0 := by omega
      obtain rfl : b = 0 := by omega
      constructor
      · exact (List.append_nil l.cells).symm
      · show (l.index : Int) = l.index + 0 + (0 : Nat)
        omega
  | cons m moves ih =>
      intro l a b ha hb
      have hlt := l.index_lt
      have hlow := lowest_nonpos moves
      have hhigh := highest_nonneg moves
      simp only [lowest, highest] at ha hb
      -- the first move adds its zeros next to the cells, the others around them
      obtain ⟨a₀, b₀, ha₀, hb₀, hcells₀, hindex₀⟩ := l.apply_move m
      have hlen₀ : (l.apply m.edit).cells.length = a₀ + (l.cells.length + b₀) := by
        rw [hcells₀, length_padded]
      obtain ⟨a₁, rfl⟩ : ∃ a₁, a = a₁ + a₀ := ⟨a - a₀, by omega⟩
      obtain ⟨b₁, rfl⟩ : ∃ b₁, b = b₀ + b₁ := ⟨b - b₀, by omega⟩
      obtain ⟨hcells, hindex⟩ := ih (l.apply m.edit) a₁ b₁ (by omega) (by omega)
      rw [walk_cons, hcells, hindex, hcells₀, List.replicate_add, List.replicate_add]
      constructor
      · simp only [List.append_assoc]
      · rw [hindex₀, displacement]
        omega

end Line

/-! ## Tapes -/

/-- Make moves one after another, and count the cells they make. -/
def Tape.walk : List Move → Tape → Tape × Nat
  | [], t => (t, 0)
  | m :: moves, t =>
      let (t', made) := walk moves (t.apply m.edit)
      (t', (t.grows m.edit).toNat + made)

/-- Make moves one after another, and count those that told of a new cell. -/
def LinkedTape.walk? : List Move → LinkedTape → Option (LinkedTape × Nat)
  | [], l => some (l, 0)
  | m :: moves, l => do
      let (l', grew) ← l.edit? m.edit
      let (l'', made) ← walk? moves l'
      return (l'', grew.toNat + made)

theorem Tape.walk_line (moves : List Move) : ∀ t : Tape,
    (walk moves t).1.line = t.line.walk moves ∧
      t.cells.length + (walk moves t).2 = (walk moves t).1.cells.length := by
  induction moves with
  | nil => intro t; exact ⟨rfl, rfl⟩
  | cons m moves ih =>
      intro t
      obtain ⟨hline, hmade⟩ := ih (t.apply m.edit)
      have hlen : (t.apply m.edit).line.cells.length = t.cells.length + (t.grows m.edit).toNat := by
        rw [t.line_apply]
        exact Line.length_apply_move (t.grows_iff m.edit)
      constructor
      · rw [Line.walk_cons, ← t.line_apply]
        exact hline
      · show t.cells.length + ((t.grows m.edit).toNat + (walk moves (t.apply m.edit)).2) = _
        rw [← Nat.add_assoc, ← hlen]
        exact hmade

theorem LinkedTape.Laid.walk (moves : List Move) :
    ∀ {l : LinkedTape} {path : List Nat} {line : Line}, l.Laid path line →
    ∃ l' path' made, walk? moves l = some (l', made) ∧ l'.Laid path' (line.walk moves) ∧
      line.cells.length + made = (line.walk moves).cells.length := by
  induction moves with
  | nil => intro l path line h; exact ⟨l, path, 0, rfl, h, rfl⟩
  | cons m moves ih =>
      intro l path line h
      obtain ⟨l₁, path₁, grew, hl₁, hlaid, hgrew⟩ := h.apply m.edit
      obtain ⟨l', path', made, hl', hlaid', hmade⟩ := ih hlaid
      refine ⟨l', path', grew.toNat + made, ?_, hlaid', ?_⟩
      · simp only [walk?, hl₁, hl', Option.bind_eq_bind, Option.bind_some, Option.pure_def]
      · rw [← Nat.add_assoc, ← Line.length_apply_move hgrew]
        exact hmade

/-- What moves make of the cells `xs` with `o` of them left of the cursor:
    with `low` and `high` the extrema of the displacements, `a` zeros before
    and `b` zeros behind, all of them new, and the cursor displaced and
    shifted by `a`. -/
def Pads (moves : List Move) (xs : List Cell) (o : Nat) (xs' : List Cell) (o' made : Nat) : Prop :=
  ∃ (low high : Int) (a b : Nat),
    IsLeast (displacements moves) low ∧ IsGreatest (displacements moves) high ∧
    (a : Int) = max 0 (-(o + low)) ∧ (b : Int) = max 0 (o + high - (xs.length - 1)) ∧
    xs' = List.replicate a 0 ++ (xs ++ List.replicate b 0) ∧ made = a + b ∧
    (o' : Int) = o + displacement moves + a

theorem Line.pads (moves : List Move) (l : Line) {made : Nat}
    (hmade : l.cells.length + made = (l.walk moves).cells.length) :
    Pads moves l.cells l.index (l.walk moves).cells (l.walk moves).index made := by
  have ha : ((-(l.index + lowest moves)).toNat : Int) = max 0 (-(l.index + lowest moves)) := by
    omega
  have hb : ((l.index + highest moves - (l.cells.length - 1)).toNat : Int)
      = max 0 (l.index + highest moves - (l.cells.length - 1)) := by
    omega
  obtain ⟨hcells, hindex⟩ := l.walk_pads moves _ _ ha hb
  refine ⟨_, _, _, _, lowest_isLeast moves, highest_isGreatest moves, ha, hb, hcells, ?_, hindex⟩
  rw [hcells, length_padded] at hmade
  omega

/-- **Moves only pad a tape with zeros.**  On every tape, and on every linked
    tape that operations reach from a new one (the blank tape is that of one
    zero cell), moves leave the cells as they are but for zeros at the ends,
    one for each place by which the walk goes beyond them, and as many moves
    tell of a new cell. -/
theorem moves_pad_with_zeros (moves : List Move) :
    (∀ t : Tape, Pads moves t.cells t.offset (t.walk moves).1.cells (t.walk moves).1.offset
      (t.walk moves).2) ∧
    ∀ (v : Cell) (vs : List Cell) (edits : List Tape.Edit), ∃ start l l' xs xs' made,
      LinkedTape.ofCells? (v :: vs) = some start ∧ LinkedTape.editAll? edits start = some l ∧
      l.walk? moves = some (l', made) ∧ l.cells? = some xs ∧ l'.cells? = some xs' ∧
      Pads moves xs l.offset xs' l'.offset made := by
  constructor
  · intro t
    obtain ⟨hline, hmade⟩ := t.walk_line moves
    have hcells : (t.walk moves).1.cells = (t.line.walk moves).cells := congrArg Line.cells hline
    have hoffset : (t.walk moves).1.offset = (t.line.walk moves).index := congrArg Line.index hline
    rw [hcells] at hmade
    rw [hcells, hoffset]
    exact t.line.pads moves hmade
  · intro v vs edits
    obtain ⟨start, path, t, hstart, -, hlaid, -⟩ :=
      LinkedTape.start_ofCells (v :: vs) (List.cons_ne_nil v vs)
    obtain ⟨l, path₁, hl, hlaid₁⟩ := hlaid.applyAll edits
    obtain ⟨l', path', made, hl', hlaid', hmade⟩ := hlaid₁.walk moves
    refine ⟨start, l, l', _, _, made, hstart, hl, hl', hlaid₁.cells, hlaid'.cells, ?_⟩
    rw [hlaid₁.offset, hlaid'.offset]
    exact Line.pads moves _ hmade

end TapeMachine
