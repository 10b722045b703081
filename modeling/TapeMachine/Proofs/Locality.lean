import TapeMachine.Proofs.Brackets
import TapeMachine.Proofs.Counting

/-! # Locality — a run depends on the cells it stands on

    The machine reads and writes nothing but the cell under the cursor.
    So two runs that start with the same cells where the first one stands
    take the same course, and a cell that no step counts on is left as it
    was.

    Both are shown on endless tapes, where a cell keeps its position.
    What they mean for a tape that grows is told by how far its first cell
    has moved.

      * `Agree`: two states that differ in nothing but cells
        outside a set of positions.  A step with the cursor inside the set
        keeps it that way (`Agree.act`), so does a run (`Agree.after`).
      * `Code.after_value`: the position a run does not count on.
      * `Tape.SameShape`: tapes as long on either side of the cursor grow
        alike under the same instructions (`Code.grows_alike`). -/

namespace TapeMachine

namespace Code

variable {M : Type} [Memory M] {code : Code} {s : State M}

theorem after_of_end (h : code[s.ip]? = none) (n : Nat) : code.after n s = s := by
  cases n with
  | zero => rfl
  | succ n => simp only [after, step?, h, Option.map_none]

theorem after_of_instr {i : Instr} (h : code[s.ip]? = some i) (n : Nat) :
    code.after (n + 1) s = code.after n (i.act s) := by
  simp only [after, step?, h, Option.map_some]

end Code

/-! ## On endless tapes -/

/-- Two states that differ in nothing but cells outside `D`. -/
structure Agree (D : Set Int) (e f : State EndlessTape) : Prop where
  ip : f.ip = e.ip
  steps : f.steps = e.steps
  printed : f.printed = e.printed
  cursor : f.memory.cursor = e.memory.cursor
  value : ∀ z ∈ D, f.memory.value z = e.memory.value z

namespace Agree

variable {D : Set Int} {e f : State EndlessTape}

theorem read (h : Agree D e f) (hmem : e.memory.cursor ∈ D) :
    Memory.read f.memory = Memory.read e.memory := by
  show f.memory.value f.memory.cursor = e.memory.value e.memory.cursor
  rw [h.cursor, h.value _ hmem]

theorem set (h : Agree D e f) (v : Cell) {z : Int} (hz : z ∈ D) :
    (f.memory.set v).value z = (e.memory.set v).value z := by
  show (if z = f.memory.cursor then v else f.memory.value z)
    = if z = e.memory.cursor then v else e.memory.value z
  rw [h.cursor, h.value z hz]

/-- A step on a cell inside the set. -/
theorem act (h : Agree D e f) (hmem : e.memory.cursor ∈ D) (i : Instr) :
    Agree D (i.act e) (i.act f) := by
  have hread := h.read hmem
  refine ⟨?_, ?_, ?_, ?_, ?_⟩
  · show i.next f.ip (Memory.read f.memory) = i.next e.ip (Memory.read e.memory)
    rw [h.ip, hread]
  · show f.steps + 1 = e.steps + 1
    rw [h.steps]
  · show i.onPrinted (Memory.read f.memory) f.printed = i.onPrinted (Memory.read e.memory) e.printed
    rw [h.printed, hread]
  · cases i with
    | right => exact congrArg (· + 1) h.cursor
    | left => exact congrArg (· - 1) h.cursor
    | _ => exact h.cursor
  · intro z hz
    cases i with
    | increment =>
        show (f.memory.set (Memory.read f.memory + 1)).value z = _
        rw [hread]
        exact h.set _ hz
    | decrement =>
        show (f.memory.set (Memory.read f.memory - 1)).value z = _
        rw [hread]
        exact h.set _ hz
    | _ => exact h.value z hz

/-- A run whose steps are all on cells inside the set. -/
theorem after (code : Code) (n : Nat) : ∀ {e f : State EndlessTape}, Agree D e f →
    (∀ k < n, code[(code.after k e).ip]? ≠ none → (code.after k e).memory.cursor ∈ D) →
    Agree D (code.after n e) (code.after n f) := by
  induction n with
  | zero => intro e f h _; exact h
  | succ n ih =>
      intro e f h hstands
      cases hi : code[e.ip]? with
      | none =>
          rw [Code.after_of_end hi, Code.after_of_end (h.ip ▸ hi)]
          exact h
      | some i =>
          have hmem : e.memory.cursor ∈ D :=
            hstands 0 (Nat.succ_pos n) (hi ▸ Option.some_ne_none i)
          rw [Code.after_of_instr hi, Code.after_of_instr (h.ip ▸ hi)]
          refine ih (h.act hmem i) ?_
          intro k hk
          rw [← Code.after_of_instr hi]
          exact hstands (k + 1) (Nat.succ_lt_succ hk)

end Agree

/-- Does this instruction count in the cell under the cursor? -/
def Instr.counts : Instr → Bool
  | .increment => true
  | .decrement => true
  | _ => false

/-- An instruction keeps a position unless it counts there. -/
theorem Instr.act_value (i : Instr) (e : State EndlessTape) {z : Int}
    (h : i.counts = true → e.memory.cursor ≠ z) :
    (i.act e).memory.value z = e.memory.value z := by
  cases i with
  | increment => exact if_neg (h rfl).symm
  | decrement => exact if_neg (h rfl).symm
  | _ => rfl

/-- A run keeps a position on which no step counts. -/
theorem Code.after_value (code : Code) {z : Int} (n : Nat) : ∀ e : State EndlessTape,
    (∀ k < n, ∀ i, code[(code.after k e).ip]? = some i → i.counts = true →
      (code.after k e).memory.cursor ≠ z) →
    (code.after n e).memory.value z = e.memory.value z := by
  induction n with
  | zero => intro e _; rfl
  | succ n ih =>
      intro e hkeeps
      cases hi : code[e.ip]? with
      | none => rw [after_of_end hi]
      | some i =>
          rw [after_of_instr hi, ih (i.act e)]
          · exact i.act_value e (hkeeps 0 (Nat.succ_pos n) i hi)
          · intro k hk
            rw [← after_of_instr hi]
            exact hkeeps (k + 1) (Nat.succ_lt_succ hk)

/-! ## Growth -/

/-- The number of cells an instruction makes on the right of a tape. -/
def Instr.grownRight (i : Instr) (t : Tape) : Nat :=
  match i with
  | .right => if t.grows .right then 1 else 0
  | _ => 0

/-- The number of cells that the first `n` steps make on the right. -/
def Code.grownRight (code : Code) : Nat → State Tape → Nat
  | 0, _ => 0
  | n + 1, s =>
      match code[s.ip]? with
      | none => 0
      | some i => i.grownRight s.memory + grownRight code n (i.act s)

/-- Two tapes that are equally long on either side of the cursor. -/
structure Tape.SameShape (t u : Tape) : Prop where
  before : u.before.length = t.before.length
  after : u.after.length = t.after.length

namespace Instr

variable {t u : Tape}

theorem grown_sameShape (i : Instr) (h : t.SameShape u) :
    i.grownLeft u = i.grownLeft t ∧ i.grownRight u = i.grownRight t := by
  have hleft : u.grows .left = t.grows .left := by
    show u.before.isEmpty = t.before.isEmpty
    rw [Bool.eq_iff_iff, List.isEmpty_iff_length_eq_zero, List.isEmpty_iff_length_eq_zero, h.before]
  have hright : u.grows .right = t.grows .right := by
    show u.after.isEmpty = t.after.isEmpty
    rw [Bool.eq_iff_iff, List.isEmpty_iff_length_eq_zero, List.isEmpty_iff_length_eq_zero, h.after]
  cases i with
  | left => exact ⟨by rw [grownLeft, grownLeft, hleft], rfl⟩
  | right => exact ⟨rfl, by rw [grownRight, grownRight, hright]⟩
  | _ => exact ⟨rfl, rfl⟩

/-- An instruction moves cells from one side of the cursor to the other, and
    adds those it makes. -/
theorem onMemory_sides (i : Instr) (t : Tape) :
    ((i.onMemory t).before.length : Int) = t.before.length + i.stride + i.grownLeft t ∧
      ((i.onMemory t).after.length : Int) = t.after.length - i.stride + i.grownRight t := by
  obtain ⟨before, v, after⟩ := t
  cases i with
  | left =>
      cases before with
      | nil =>
          show ((0 : Nat) : Int) = (0 : Nat) + -1 + (1 : Nat) ∧
            ((after.length + 1 : Nat) : Int) = after.length - -1 + (0 : Nat)
          omega
      | cons w before =>
          show (before.length : Int) = (before.length + 1 : Nat) + -1 + (0 : Nat) ∧
            ((after.length + 1 : Nat) : Int) = after.length - -1 + (0 : Nat)
          omega
  | right =>
      cases after with
      | nil =>
          show ((before.length + 1 : Nat) : Int) = before.length + 1 + (0 : Nat) ∧
            ((0 : Nat) : Int) = (0 : Nat) - 1 + (1 : Nat)
          omega
      | cons w after =>
          show ((before.length + 1 : Nat) : Int) = before.length + 1 + (0 : Nat) ∧
            (after.length : Int) = (after.length + 1 : Nat) - 1 + (0 : Nat)
          omega
  | _ =>
      show (before.length : Int) = before.length + 0 + (0 : Nat) ∧
        (after.length : Int) = after.length - 0 + (0 : Nat)
      omega

theorem onMemory_sameShape (i : Instr) (h : t.SameShape u) :
    (i.onMemory t).SameShape (i.onMemory u) := by
  obtain ⟨hbefore, hafter⟩ := h
  obtain ⟨hleft, hright⟩ := i.grown_sameShape ⟨hbefore, hafter⟩
  obtain ⟨htb, hta⟩ := i.onMemory_sides t
  obtain ⟨hub, hua⟩ := i.onMemory_sides u
  constructor
  · omega
  · omega

theorem length_onMemory (i : Instr) (t : Tape) :
    (i.onMemory t).cells.length = t.cells.length + i.grownLeft t + i.grownRight t := by
  obtain ⟨hbefore, hafter⟩ := i.onMemory_sides t
  rw [Tape.length_cells, Tape.length_cells]
  omega

end Instr

namespace Code

theorem grown_of_end {code : Code} {s : State Tape} (h : code[s.ip]? = none) (n : Nat) :
    code.grownLeft n s = 0 ∧ code.grownRight n s = 0 := by
  cases n with
  | zero => exact ⟨rfl, rfl⟩
  | succ n =>
      constructor
      · rw [grownLeft, h]
      · rw [grownRight, h]

theorem grown_of_instr {code : Code} {s : State Tape} {i : Instr} (h : code[s.ip]? = some i)
    (n : Nat) :
    code.grownLeft (n + 1) s = i.grownLeft s.memory + code.grownLeft n (i.act s) ∧
      code.grownRight (n + 1) s = i.grownRight s.memory + code.grownRight n (i.act s) := by
  constructor
  · rw [grownLeft, h]
  · rw [grownRight, h]

/-- Under the same instructions tapes of the same shape grow alike. -/
theorem grows_alike (code : Code) (n : Nat) : ∀ {s r : State Tape},
    s.memory.SameShape r.memory → (∀ k < n, (code.after k r).ip = (code.after k s).ip) →
    code.grownLeft n r = code.grownLeft n s ∧ code.grownRight n r = code.grownRight n s ∧
      (code.after n s).memory.SameShape (code.after n r).memory := by
  induction n with
  | zero => intro s r h _; exact ⟨rfl, rfl, h⟩
  | succ n ih =>
      intro s r h hip
      have hsame : r.ip = s.ip := hip 0 (Nat.succ_pos n)
      cases hi : code[s.ip]? with
      | none =>
          have hi' : code[r.ip]? = none := hsame ▸ hi
          obtain ⟨hsl, hsr⟩ := grown_of_end hi (n + 1)
          obtain ⟨hrl, hrr⟩ := grown_of_end hi' (n + 1)
          rw [after_of_end hi, after_of_end hi']
          exact ⟨hrl.trans hsl.symm, hrr.trans hsr.symm, h⟩
      | some i =>
          have hi' : code[r.ip]? = some i := hsame ▸ hi
          have hip' : ∀ k < n, (code.after k (i.act r)).ip = (code.after k (i.act s)).ip := by
            intro k hk
            rw [← after_of_instr hi, ← after_of_instr hi']
            exact hip (k + 1) (Nat.succ_lt_succ hk)
          obtain ⟨hleft, hright⟩ := i.grown_sameShape h
          obtain ⟨hleft', hright', hshape⟩ := ih (i.onMemory_sameShape h) hip'
          obtain ⟨hsl, hsr⟩ := grown_of_instr hi n
          obtain ⟨hrl, hrr⟩ := grown_of_instr hi' n
          rw [after_of_instr hi, after_of_instr hi']
          refine ⟨?_, ?_, hshape⟩
          · rw [hsl, hrl, hleft, hleft']
          · rw [hsr, hrr, hright, hright']

theorem length_after (code : Code) (n : Nat) : ∀ s : State Tape,
    (code.after n s).memory.cells.length
      = s.memory.cells.length + code.grownLeft n s + code.grownRight n s := by
  induction n with
  | zero => intro s; rfl
  | succ n ih =>
      intro s
      cases hi : code[s.ip]? with
      | none =>
          obtain ⟨hleft, hright⟩ := grown_of_end hi (n + 1)
          rw [after_of_end hi, hleft, hright]
          rfl
      | some i =>
          have hlen : (i.act s).memory.cells.length
              = s.memory.cells.length + i.grownLeft s.memory + i.grownRight s.memory :=
            i.length_onMemory s.memory
          obtain ⟨hleft, hright⟩ := grown_of_instr hi n
          rw [after_of_instr hi, ih, hlen, hleft, hright]
          omega

/-! ## On tapes -/

/-- Before step `k` the cursor is on the cell that had index `i` at the
    start. -/
def StandsOn (code : Code) (t : Tape) (k i : Nat) : Prop :=
  (code.after k (.start t)).memory.offset = i + code.grownLeft k (.start t)

/-- The run on a tape, laid on an endless one. -/
theorem after_start_endless (code : Code) (n : Nat) (t : Tape) :
    code.after n (.start (t.endless 0))
      = (code.after n (.start t)).endless (code.grownLeft n (.start t)) := by
  have h := code.after_endless n (.start t) 0
  rwa [Nat.zero_add] at h

/-- On the endless tape the cursor is at the index the cell had. -/
theorem standsOn_iff (code : Code) (t : Tape) (k i : Nat) :
    code.StandsOn t k i ↔ (code.after k (.start (t.endless 0))).memory.cursor = i := by
  rw [code.after_start_endless]
  show (code.after k (.start t)).memory.offset = i + code.grownLeft k (.start t) ↔
    ((code.after k (.start t)).memory.offset : Int) - code.grownLeft k (.start t) = i
  omega

end Code

theorem Tape.endless_value (t : Tape) (grown i : Nat) :
    (t.endless grown).value i = t.cells.getD (i + grown) 0 := by
  have hvalue := t.line.endless_value_natCast grown (i + grown)
  rw [show ((i + grown : Nat) : Int) - grown = i by omega] at hvalue
  exact hvalue

/-- Two runs agree as long as the first one stands on cells that are the
    same at the start. -/
theorem Code.agree_after {code : Code} {t u : Tape} {n k : Nat} (hoffset : u.offset = t.offset)
    (hcells : ∀ j < n, code[(code.after j (.start t)).ip]? ≠ none →
      ∀ i, code.StandsOn t j i → t.cells[i]? = u.cells[i]?)
    (hk : k ≤ n) :
    Agree {z | (u.endless 0).value z = (t.endless 0).value z}
      (code.after k (.start (t.endless 0))) (code.after k (.start (u.endless 0))) := by
  have hcursor : (u.endless 0).cursor = (t.endless 0).cursor :=
    congrArg (fun o : Nat => (o : Int) - (0 : Nat)) hoffset
  refine Agree.after code k ⟨rfl, rfl, rfl, hcursor, fun z hz => hz⟩ ?_
  intro j hj hgoes
  show (u.endless 0).value _ = (t.endless 0).value _
  generalize hz : (code.after j (.start (t.endless 0))).memory.cursor = z
  rcases Int.lt_or_le z 0 with hneg | hpos
  · -- left of both tapes there are zeros
    have hbefore : z + (0 : Nat) < 0 := by omega
    exact (Line.endless_value_before (l := u.line) hbefore).trans
      (Line.endless_value_before (l := t.line) hbefore).symm
  · obtain ⟨i, rfl⟩ := Int.eq_ofNat_of_zero_le hpos
    have hstands : code.StandsOn t j i := (code.standsOn_iff t j i).mpr hz
    rw [code.after_start_endless] at hgoes
    have hsame := hcells j (Nat.lt_of_lt_of_le hj hk) hgoes i hstands
    show (u.endless 0).value i = (t.endless 0).value i
    rw [u.endless_value, t.endless_value, Nat.add_zero, List.getD_eq_getElem?_getD,
      List.getD_eq_getElem?_getD, hsame]

/-- A cell that no step counts on keeps its value where it has moved to. -/
theorem Code.cell_kept {code : Code} {t : Tape} {n i : Nat} {v : Cell} (hv : t.cells[i]? = some v)
    (hkeeps : ∀ k < n, ∀ instr, code[(code.after k (.start t)).ip]? = some instr →
      instr.counts = true → ¬ code.StandsOn t k i) :
    (code.after n (.start t)).memory.cells[i + code.grownLeft n (.start t)]? = some v := by
  have hvalue : (code.after n (.start (t.endless 0))).memory.value i = (t.endless 0).value i := by
    refine code.after_value n (.start (t.endless 0)) ?_
    intro k hk instr hinstr hcounts hcursor
    rw [code.after_start_endless] at hinstr
    exact hkeeps k hk instr hinstr hcounts ((code.standsOn_iff t k i).mpr hcursor)
  have hstart : (t.endless 0).value i = v := by
    rw [t.endless_value, Nat.add_zero, List.getD_eq_getElem?_getD, hv]
    rfl
  -- the cell is still on the tape
  have hlt : i + code.grownLeft n (.start t) < (code.after n (.start t)).memory.cells.length := by
    have hi : i < t.cells.length := (List.getElem?_eq_some_iff.mp hv).1
    have hlen : (code.after n (.start t)).memory.cells.length
        = t.cells.length + code.grownLeft n (.start t) + code.grownRight n (.start t) :=
      code.length_after n (.start t)
    omega
  rw [code.after_start_endless, hstart] at hvalue
  have hend := (Tape.endless_value _ _ i).symm.trans hvalue
  rw [List.getD_eq_getElem _ _ hlt] at hend
  rw [List.getElem?_eq_getElem hlt, hend]

/-- **Runs are local.**  Take two tapes of the same length with the cursor at
    the same offset, which hold the same in every cell on which the cursor
    stands at one of the first `n` steps on the first of them.  Then these
    steps are at the same positions of the program on both tapes, print the
    same, make as many new cells on either side and leave the cursor at the
    same offset.  On every tape, a cell on which none of the first `n` steps
    counts keeps its value, and its index has grown by the number of cells
    made on the left. -/
theorem runs_are_local {text : String} {code : Code} (hcode : Code.ofText text = .ok code)
    (n : Nat) :
    (∀ t u : Tape, t.cells.length = u.cells.length → t.offset = u.offset →
      (∀ k < n, text.toList[(code.after k (.start t)).ip]? ≠ none →
        ∀ i, code.StandsOn t k i → t.cells[i]? = u.cells[i]?) →
      ∀ k ≤ n,
        let s := code.after k (.start t)
        let r := code.after k (.start u)
        r.ip = s.ip ∧ r.output = s.output ∧ r.memory.offset = s.memory.offset ∧
        code.grownLeft k (.start u) = code.grownLeft k (.start t) ∧
        code.grownRight k (.start u) = code.grownRight k (.start t)) ∧
    ∀ t : Tape,
      (code.after n (.start t)).memory.cells.length
        = t.cells.length + code.grownLeft n (.start t) + code.grownRight n (.start t) ∧
      ∀ (i : Nat) (v : Cell), t.cells[i]? = some v →
        (∀ k < n, text.toList[(code.after k (.start t)).ip]? = some '+' ∨
          text.toList[(code.after k (.start t)).ip]? = some '-' → ¬ code.StandsOn t k i) →
        (code.after n (.start t)).memory.cells[i + code.grownLeft n (.start t)]? = some v := by
  have hglyph : ∀ ip, code[ip]?.map Instr.glyph = text.toList[ip]? := Code.getElem?_glyph hcode
  constructor
  · intro t u hlength hoffset hcells k hk s r
    have hagree : ∀ j ≤ k, Agree {z | (u.endless 0).value z = (t.endless 0).value z}
        (code.after j (.start (t.endless 0))) (code.after j (.start (u.endless 0))) := by
      intro j hj
      refine Code.agree_after hoffset.symm ?_ (Nat.le_trans hj hk)
      intro j' hj' hgoes
      refine hcells j' hj' ?_
      rw [← hglyph]
      exact fun hnone => hgoes (Option.map_eq_none_iff.mp hnone)
    have hpath : ∀ j ≤ k, (code.after j (.start u)).ip = (code.after j (.start t)).ip := by
      intro j hj
      have hip := (hagree j hj).ip
      rw [code.after_start_endless, code.after_start_endless] at hip
      exact hip
    have hshape : t.SameShape u := by
      have hsides := t.length_cells
      have hsides' := u.length_cells
      have hbefore : t.before.length = u.before.length := hoffset
      exact ⟨hbefore.symm, by omega⟩
    obtain ⟨hleft, hright, hshape'⟩ := code.grows_alike k (s := .start t) (r := .start u) hshape
      (fun j hj => hpath j (Nat.le_of_lt hj))
    refine ⟨hpath k (Nat.le_refl k), ?_, hshape'.before, hleft, hright⟩
    have hprinted := (hagree k (Nat.le_refl k)).printed
    rw [code.after_start_endless, code.after_start_endless] at hprinted
    exact congrArg List.reverse hprinted
  · intro t
    refine ⟨code.length_after n (.start t), ?_⟩
    intro i v hv hkeeps
    refine Code.cell_kept hv ?_
    intro k hk instr hinstr hcounts
    refine hkeeps k hk ?_
    rw [← hglyph, hinstr]
    cases instr with
    | increment => exact Or.inl rfl
    | decrement => exact Or.inr rfl
    | _ => exact absurd hcounts Bool.false_ne_true

/-- A loop and a step past the left end do not touch the cell on the
    right, which only moves. -/
theorem runs_are_local_past_left_end :
    ∃ code, Code.ofText "[-]<+" = .ok code ∧
      (∀ k < 7, ∀ i, code.StandsOn ⟨[], 2, [7]⟩ k i → i = 0) ∧
      (code.after 7 (.start (Tape.mk [] 2 [9]))).ip
        = (code.after 7 (.start (Tape.mk [] 2 [7]))).ip ∧
      code.grownLeft 7 (.start ⟨[], 2, [7]⟩) = 1 ∧
      code.grownLeft 7 (.start ⟨[], 2, [9]⟩) = 1 ∧
      (code.after 7 (.start (Tape.mk [] 2 [7]))).memory.cells[1 + 1]? = some 7 := by
  let code : Code := #[.loopStart, .decrement, .loopEnd 0, .left, .increment]
  have hcode : Code.ofText "[-]<+" = .ok code := by decide +kernel
  have hfront : ∀ k < 7, (code.after k (.start (Tape.mk [] 2 [7]))).memory.offset = 0 := by
    decide +kernel
  have hstands : ∀ k < 7, ∀ i, code.StandsOn ⟨[], 2, [7]⟩ k i → i = 0 := by
    intro k hk i h
    have hzero := (hfront k hk).symm.trans h
    omega
  obtain ⟨hsame, hkept⟩ := runs_are_local hcode 7
  obtain ⟨hip, -, -, hleft, -⟩ := hsame ⟨[], 2, [7]⟩ ⟨[], 2, [9]⟩ rfl rfl
    (by
      intro k hk _ i h
      obtain rfl := hstands k hk i h
      rfl)
    7 (Nat.le_refl 7)
  have hgrown : code.grownLeft 7 (.start ⟨[], 2, [7]⟩) = 1 := by decide +kernel
  have hcell := (hkept ⟨[], 2, [7]⟩).2 1 7 rfl
    (fun k hk _ h => absurd (hstands k hk 1 h) Nat.one_ne_zero)
  rw [hgrown] at hcell
  exact ⟨code, hcode, hstands, hip, hgrown, hleft.trans hgrown, hcell⟩

end TapeMachine
