import TapeMachine.Proofs.LinkedTape.Layout

/-! # Links — what holds of every linked tape that operations reach

    The links in both directions, the head and the offset say the same
    thing several times over.  A tape is well linked if they agree, if
    following the links from the head passes every node of the store once,
    and if no operation can fail.  All of it is read off the path along
    which the store is laid out.

      * `Laid.wellLinked`: a tape that is laid out is well linked.
      * `Laid.shows`: it shows the cells of its line.
      * `reachable_wellLinked`: every tape that operations reach is well
        linked.
      * `tape_refines_line`: both kinds of tape are lines, as far as their
        views and answers tell. -/

namespace TapeMachine

namespace LinkedTape

/-! ## What the links promise -/

/-- The place of the cell to the right of a place. -/
def next? (l : LinkedTape) (i : Nat) : Option Nat := l.nodes[i]?.bind Node.next

/-- The place of the cell to the left of a place. -/
def prev? (l : LinkedTape) (i : Nat) : Option Nat := l.nodes[i]?.bind Node.prev

/-- Following the links to the right from a place passes these places,
    with these cells, and then stops. -/
inductive Visits (nodes : Array Node) : Option Nat → List Nat → List Cell → Prop where
  | stop : Visits nodes none [] []
  | visit {i : Nat} {node : Node} {path : List Nat} {cells : List Cell} :
      nodes[i]? = some node → Visits nodes node.next path cells →
      Visits nodes (some i) (i :: path) (node.value :: cells)

/-- Links, head and offset agree, and every operation has a result. -/
structure WellLinked (l : LinkedTape) : Prop where
  head_lt : l.head < l.nodes.size
  cursor_lt : l.cursor < l.nodes.size
  next_lt : ∀ i j, l.next? i = some j → j < l.nodes.size
  prev_lt : ∀ i j, l.prev? i = some j → j < l.nodes.size
  /-- The links to the left undo the links to the right. -/
  inverse : ∀ i j, l.next? i = some j ↔ l.prev? j = some i
  /-- Only the head has nothing to its left. -/
  first : ∀ i, i < l.nodes.size → (l.prev? i = none ↔ i = l.head)
  /-- Exactly one cell has nothing to its right. -/
  last : ∃! i, i < l.nodes.size ∧ l.next? i = none
  /-- The links from the head pass every place once; the cells on the way
      are the tape, and the offset counts the links to the cursor. -/
  row : ∃ path cells, Visits l.nodes (some l.head) path cells ∧ path.Nodup ∧
    (∀ i, i ∈ path ↔ i < l.nodes.size) ∧ path[l.offset]? = some l.cursor ∧
    l.cells? = some cells ∧ cells.length = l.nodes.size
  /-- Following the links from any place stops. -/
  stops : ∀ i, i < l.nodes.size → ∃ path cells, Visits l.nodes (some i) path cells
  /-- Reading has a result. -/
  reads : l.read?.isSome
  /-- Every operation has a result. -/
  acts : ∀ e, (l.edit? e).isSome

/-- Only a place in the store has a link. -/
theorem lt_of_link {nodes : Array Node} {link : Node → Option Nat} {i j : Nat}
    (h : nodes[i]?.bind link = some j) : i < nodes.size := by
  obtain ⟨node, hnode, -⟩ := Option.bind_eq_some_iff.mp h
  exact (Array.getElem?_eq_some_iff.mp hnode).1

/-- The cells that are visited are the cells that are listed, for any
    bound that admits the visit. -/
theorem Visits.cellsFrom {nodes : Array Node} {place : Option Nat} {path : List Nat}
    {cells : List Cell} (h : Visits nodes place path cells) :
    ∀ most, path.length ≤ most → cellsFrom? nodes most place = some cells := by
  induction h with
  | stop =>
      intro most _
      rw [cellsFrom?]
  | visit hnode _ ih =>
      intro most hmost
      cases most with
      | zero => exact absurd hmost (Nat.not_succ_le_zero _)
      | succ most =>
          rw [cellsFrom?, hnode]
          exact congrArg (Option.map _) (ih most (Nat.le_of_succ_le_succ hmost))

namespace Laid

variable {l : LinkedTape} {path : List Nat} {line : Line}

/-- The link to the right goes to the next step. -/
theorem next_eq (h : l.Laid path line) {k i : Nat} (hk : path[k]? = some i) :
    l.next? i = path[k + 1]? := by
  obtain ⟨v, -, hnode⟩ := h.node k i hk
  rw [next?, hnode]
  rfl

/-- The link to the left goes to the step before. -/
theorem prev_eq (h : l.Laid path line) {k i : Nat} (hk : path[k]? = some i) :
    l.prev? i = stepBefore path k := by
  obtain ⟨v, -, hnode⟩ := h.node k i hk
  rw [prev?, hnode]
  rfl

/-- A place in the store is a step of the path. -/
theorem step_of_lt (h : l.Laid path line) {i : Nat} (hi : i < l.nodes.size) :
    ∃ k : Nat, path[k]? = some i :=
  List.mem_iff_getElem?.mp ((h.mem i).mpr hi)

/-- Following the links from a step visits the rest of the path. -/
theorem visits_drop (h : l.Laid path line) (n : Nat) : ∀ k, k + n = path.length →
    Visits l.nodes path[k]? (path.drop k) (line.cells.drop k) := by
  induction n with
  | zero =>
      intro k hk
      have hle : path.length ≤ k := Nat.le_of_eq hk.symm
      rw [List.getElem?_eq_none hle, List.drop_of_length_le hle,
        List.drop_of_length_le (Nat.le_trans (Nat.le_of_eq h.length) hle)]
      exact .stop
  | succ n ih =>
      intro k hk
      have hlt : k < path.length := by omega
      have hstep := List.getElem?_eq_getElem hlt
      obtain ⟨v, hv, hnode⟩ := h.node k _ hstep
      obtain ⟨hlt', hval⟩ := List.getElem?_eq_some_iff.mp hv
      rw [hstep, List.drop_eq_getElem_cons hlt, List.drop_eq_getElem_cons hlt', hval]
      exact .visit hnode (ih (k + 1) (by omega))

/-- Following the links from the head visits the whole path. -/
theorem visits_head (h : l.Laid path line) :
    Visits l.nodes (some l.head) path line.cells :=
  h.head ▸ h.visits_drop path.length 0 (Nat.zero_add _)

/-- The cells that are listed are those of the line. -/
theorem cells (h : l.Laid path line) : l.cells? = some line.cells :=
  h.visits_head.cellsFrom _ (Nat.le_of_eq h.size)

/-- The value under the cursor is that of the line. -/
theorem read (h : l.Laid path line) : l.read? = some line.value := by
  rw [read?, h.current]
  rfl

/-- A link to the right is undone by a link to the left. -/
theorem inverse (h : l.Laid path line) (i j : Nat) :
    l.next? i = some j ↔ l.prev? j = some i := by
  constructor
  · intro hnext
    obtain ⟨k, hk⟩ := h.step_of_lt (lt_of_link hnext)
    rw [h.next_eq hk] at hnext
    rw [h.prev_eq hnext]
    exact hk
  · intro hprev
    obtain ⟨k, hk⟩ := h.step_of_lt (lt_of_link hprev)
    rw [h.prev_eq hk] at hprev
    cases k with
    | zero => cases hprev
    | succ k =>
        rw [h.next_eq hprev]
        exact hk

/-- Only the first step has no step before it. -/
theorem first (h : l.Laid path line) {i : Nat} (hi : i < l.nodes.size) :
    l.prev? i = none ↔ i = l.head := by
  obtain ⟨k, hk⟩ := h.step_of_lt hi
  rw [h.prev_eq hk]
  cases k with
  | zero => exact ⟨fun _ => Option.some.inj (hk.symm.trans h.head), fun _ => rfl⟩
  | succ k =>
      constructor
      · intro hnone
        have hlt := (List.getElem?_eq_some_iff.mp hk).1
        have := List.getElem?_eq_none_iff.mp hnone
        omega
      · rintro rfl
        exact absurd (h.step_unique hk h.head) (Nat.succ_ne_zero k)

/-- Only the last step has no step after it. -/
theorem last (h : l.Laid path line) : ∃! i, i < l.nodes.size ∧ l.next? i = none := by
  have hpos := (List.getElem?_eq_some_iff.mp h.head).1
  have hlast := List.getElem?_eq_getElem (show path.length - 1 < path.length by omega)
  refine ⟨_, ⟨h.lt_of_step hlast, ?_⟩, ?_⟩
  · rw [h.next_eq hlast]
    exact List.getElem?_eq_none (by omega)
  · rintro i ⟨hi, hnone⟩
    obtain ⟨k, hk⟩ := h.step_of_lt hi
    rw [h.next_eq hk, List.getElem?_eq_none_iff] at hnone
    have hlt := (List.getElem?_eq_some_iff.mp hk).1
    rw [show k = path.length - 1 by omega] at hk
    exact Option.some.inj (hk.symm.trans hlast)

/-- **A tape that is laid out is well linked.** -/
theorem wellLinked (h : l.Laid path line) : l.WellLinked where
  head_lt := h.lt_of_step h.head
  cursor_lt := h.cursor_lt
  next_lt i j hnext := lt_of_link ((h.inverse i j).mp hnext)
  prev_lt i j hprev := lt_of_link ((h.inverse j i).mpr hprev)
  inverse := h.inverse
  first _ hi := h.first hi
  last := h.last
  row := ⟨path, line.cells, h.visits_head, h.nodup, h.mem, h.offset ▸ h.cursor, h.cells,
    h.length.trans h.size⟩
  stops i hi := by
    obtain ⟨k, hk⟩ := h.step_of_lt hi
    have hlt := (List.getElem?_eq_some_iff.mp hk).1
    exact ⟨_, _, hk ▸ h.visits_drop (path.length - k) k (by omega)⟩
  reads := h.read ▸ rfl
  acts e := by
    obtain ⟨l', path', grew, hl', -⟩ := h.apply e
    rw [hl']
    rfl

end Laid

/-! ## Tapes that operations reach -/

/-- A linked tape shows the same as a tape. -/
structure Shows (l : LinkedTape) (t : Tape) : Prop where
  cells : l.cells? = some t.cells
  offset : l.offset = t.offset
  value : l.read? = some t.cell

/-- A linked tape that is laid out for the line of a tape shows the same. -/
theorem Laid.shows {l : LinkedTape} {path : List Nat} {t : Tape} (h : l.Laid path t.line) :
    l.Shows t :=
  ⟨h.cells, h.offset, h.read.trans (congrArg some t.value_line)⟩

/-- Linked tape and tape start as the same line. -/
theorem start_ofCells (cells : List Cell) (hne : cells ≠ []) :
    ∃ start path t, ofCells? cells = some start ∧ Tape.ofCells? cells = some t ∧
      start.Laid path t.line ∧ t.line = Line.start cells hne := by
  obtain ⟨start, hstart, hlaid⟩ := laid_ofCells cells hne
  obtain ⟨v, vs, rfl⟩ := List.exists_cons_of_ne_nil hne
  exact ⟨start, _, ⟨[], v, vs⟩, hstart, rfl, hlaid, rfl⟩

/-- From a layout of a tape on, operations lead to a well linked tape that
    shows what they make of the tape. -/
theorem Laid.reaches {start : LinkedTape} {path : List Nat} {t : Tape}
    (h : start.Laid path t.line) (edits : List Tape.Edit) :
    ∃ l, editAll? edits start = some l ∧ l.WellLinked ∧
      l.Shows (edits.foldl Tape.apply t) := by
  obtain ⟨l, path', hl, hlaid⟩ := h.applyAll edits
  rw [← t.line_applyAll] at hlaid
  exact ⟨l, hl, hlaid.wellLinked, hlaid.shows⟩

/-- **Every linked tape that operations reach from a new one is well
    linked**, and it is what the same operations make of a tape. -/
theorem reachable_wellLinked (edits : List Tape.Edit) :
    (∃ l, editAll? edits .blank = some l ∧ l.WellLinked ∧
      l.Shows (edits.foldl Tape.apply .blank)) ∧
    ∀ cells : List Cell, cells ≠ [] → ∃ start t l, ofCells? cells = some start ∧
      Tape.ofCells? cells = some t ∧ editAll? edits start = some l ∧ l.WellLinked ∧
      l.Shows (edits.foldl Tape.apply t) := by
  constructor
  · -- the blank tape is the tape of one zero cell
    obtain ⟨start, path, t, hstart, ht, hlaid, -⟩ := start_ofCells [0] (List.cons_ne_nil _ _)
    obtain rfl : LinkedTape.blank = start := Option.some.inj hstart
    obtain rfl : Tape.blank = t := Option.some.inj ht
    exact hlaid.reaches edits
  · intro cells hne
    obtain ⟨start, path, t, hstart, ht, hlaid, -⟩ := start_ofCells cells hne
    obtain ⟨l, hl⟩ := hlaid.reaches edits
    exact ⟨start, t, l, hstart, ht, hl⟩

/-- Growth at both ends, and a value below zero. -/
theorem reachable_wellLinked_both_ends :
    ([5, 7] : List Cell) ≠ [] ∧ ∃ start l, ofCells? [5, 7] = some start ∧
      editAll? [.left, .left, .toTail, .right, .decrement] start = some l ∧ l.WellLinked ∧
      l.cells? = some [0, 0, 5, 7, -1] ∧ l.offset = 4 := by
  have hne : ([5, 7] : List Cell) ≠ [] := List.cons_ne_nil _ _
  refine ⟨hne, ?_⟩
  obtain ⟨start, t, l, hstart, ht, hl, hlinked, hshows⟩ :=
    (reachable_wellLinked [.left, .left, .toTail, .right, .decrement]).2 [5, 7] hne
  obtain rfl : Tape.mk [] 5 [7] = t := Option.some.inj ht
  exact ⟨start, l, hstart, hl, hlinked, hshows.cells, hshows.offset⟩

/-- **Tapes are lines**: after any operations, linked tape and tape list
    the cells of the line, count its index and read its value, and the
    next operation tells of a new cell exactly when the line gets longer. -/
theorem tape_refines_line (cells : List Cell) (hne : cells ≠ []) (edits : List Tape.Edit)
    (e : Tape.Edit) :
    ∃ start t₀ l l' grew, ofCells? cells = some start ∧ Tape.ofCells? cells = some t₀ ∧
      (cells = [0] → start = .blank ∧ t₀ = .blank) ∧
      editAll? edits start = some l ∧ l.edit? e = some (l', grew) ∧
      let line := (Line.start cells hne).applyAll edits
      let t := edits.foldl Tape.apply t₀
      (l.cells? = some line.cells ∧ l.offset = line.index ∧ l.read? = some line.value) ∧
      (t.cells = line.cells ∧ t.offset = line.index ∧ t.cell = line.value) ∧
      (grew = true ↔ line.cells.length < (line.apply e).cells.length) ∧
      (t.grows e = true ↔ line.cells.length < (line.apply e).cells.length) := by
  obtain ⟨start, path, t₀, hstart, ht₀, hlaid, hline⟩ := start_ofCells cells hne
  obtain ⟨l, path', hl, hlaid'⟩ := hlaid.applyAll edits
  obtain ⟨l', path'', grew, hl', -, hgrew⟩ := hlaid'.apply e
  refine ⟨start, t₀, l, l', grew, hstart, ht₀, ?_, hl, hl', ?_⟩
  · rintro rfl
    exact ⟨Option.some.inj hstart.symm, Option.some.inj ht₀.symm⟩
  · have ht := t₀.line_applyAll edits
    rw [hline] at hlaid' hgrew ht
    refine ⟨⟨hlaid'.cells, hlaid'.offset, hlaid'.read⟩, ?_, hgrew, ?_⟩
    · rw [← ht]
      exact ⟨rfl, rfl, (Tape.value_line _).symm⟩
    · rw [← ht]
      exact Tape.grows_iff _ e

/-- Wrapping around below the least value, and growth at the front. -/
theorem tape_refines_line_at_least_value :
    ([-2147483648] : List Cell) ≠ [] ∧ ∃ start l l',
      ofCells? [-2147483648] = some start ∧ editAll? [.decrement, .left] start = some l ∧
      l.cells? = some [0, 2147483647] ∧ l.offset = 0 ∧ l.read? = some 0 ∧
      l.edit? .left = some (l', true) := by
  have hne : ([-2147483648] : List Cell) ≠ [] := List.cons_ne_nil _ _
  refine ⟨hne, ?_⟩
  obtain ⟨start, t₀, l, l', grew, hstart, -, -, hl, hl', ⟨hcells, hoffset, hread⟩, -, hgrew, -⟩ :=
    tape_refines_line [-2147483648] hne [.decrement, .left] .left
  obtain rfl : grew = true := hgrew.mpr ((Line.longer_iff _ _).mpr (Or.inr ⟨rfl, rfl⟩))
  exact ⟨start, l, l', hstart, hl, hcells, hoffset, hread, hl'⟩

end LinkedTape

end TapeMachine
