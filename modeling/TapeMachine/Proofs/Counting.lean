import TapeMachine.Proofs.Endless
import TapeMachine.Proofs.Structured

/-! # Counting loops — how a loop multiplies

    A body without brackets and full stops moves the cursor and adds to
    the cells it passes, the same each time.  If it comes back to where it
    began and takes one off the cell there, a loop around it runs until
    that cell has gone through all values down to zero, and every other
    cell has then been changed as often.  A loop tests its cell at the
    end, so a cell that holds zero is taken once round.

      * `Instr.onMemory_eq_advance`: on an endless tape an instruction
        adds to the cells around the cursor and moves it.  Two advances
        are one, and so is a whole body (`Code.reaches_body`).
      * `Code.reaches_round`: one step lemma for a round of the loop;
        `Code.reaches_rounds` counts them, by induction on their number.
      * `Code.reaches_of_endless`: what happens on the endless tape
        happens on the tape that was laid on it. -/

namespace TapeMachine

/-! ## What a body does -/

/-- How far an instruction moves the cursor to the right. -/
def Instr.stride : Instr → Int
  | .right => 1
  | .left => -1
  | _ => 0

/-- What an instruction adds to the cell under the cursor. -/
def Instr.gain : Instr → Int
  | .increment => 1
  | .decrement => -1
  | _ => 0

/-- How far a text without brackets moves the cursor to the right. -/
def shift : List Char → Int
  | [] => 0
  | c :: rest => (Instr.ofPlain c).stride + shift rest

/-- What a text without brackets adds to the cell that is `d` places to the
    right of where its cursor begins. -/
def change : List Char → Int → Int
  | [], _ => 0
  | c :: rest, d =>
      (if d = 0 then (Instr.ofPlain c).gain else 0) + change rest (d - (Instr.ofPlain c).stride)

/-- Add to the cells around the cursor, and then move it. -/
def EndlessTape.advance (e : EndlessTape) (f : Int → Int) (m : Int) : EndlessTape where
  value z := e.value z + Int32.ofInt (f (z - e.cursor))
  cursor := e.cursor + m

namespace EndlessTape

variable {e : EndlessTape} {f g : Int → Int} {m k : Int}

theorem advance_zero : e.advance (fun _ => 0) 0 = e := by
  refine EndlessTape.ext ?_ (Int.add_zero _)
  funext z
  exact Int32.add_zero _

theorem advance_advance :
    (e.advance f m).advance g k = e.advance (fun d => f d + g (d - m)) (m + k) := by
  refine EndlessTape.ext ?_ (Int.add_assoc _ _ _)
  funext z
  show e.value z + Int32.ofInt (f (z - e.cursor)) + Int32.ofInt (g (z - (e.cursor + m)))
    = e.value z + Int32.ofInt (f (z - e.cursor) + g (z - e.cursor - m))
  rw [Int32.ofInt_add, Int32.add_assoc, Int.sub_sub]

/-- What is read after the cursor has come back. -/
theorem read_advance : Memory.read (e.advance f 0) = Memory.read e + Int32.ofInt (f 0) := by
  show e.value (e.cursor + 0) + Int32.ofInt (f (e.cursor + 0 - e.cursor))
    = e.value e.cursor + Int32.ofInt (f 0)
  rw [Int.add_zero, Int.sub_self]

end EndlessTape

/-- An instruction changes the cell under the cursor or moves the cursor. -/
theorem Instr.onMemory_eq_advance (i : Instr) (e : EndlessTape) :
    i.onMemory e = e.advance (fun d => if d = 0 then i.gain else 0) i.stride := by
  have hidle : (fun d : Int => if d = 0 then (0 : Int) else 0) = fun _ => 0 := by
    funext d
    exact ite_self 0
  have hmove : ∀ m, (⟨e.value, e.cursor + m⟩ : EndlessTape) = e.advance (fun _ => 0) m := by
    intro m
    refine EndlessTape.ext ?_ rfl
    funext z
    exact (Int32.add_zero _).symm
  have hset : ∀ x : Int, e.set (Memory.read e + Int32.ofInt x)
      = e.advance (fun d => if d = 0 then x else 0) 0 := by
    intro x
    refine EndlessTape.ext ?_ (Int.add_zero _).symm
    funext z
    show (if z = e.cursor then e.value e.cursor + Int32.ofInt x else e.value z)
      = e.value z + Int32.ofInt (if z - e.cursor = 0 then x else 0)
    by_cases hz : z = e.cursor
    · rw [if_pos hz, if_pos (by omega), hz]
    · rw [if_neg hz, if_neg (by omega)]
      exact (Int32.add_zero _).symm
  cases i with
  | right =>
      simp only [gain, hidle]
      exact hmove 1
  | left =>
      simp only [gain, hidle]
      exact hmove (-1)
  | increment => exact hset 1
  | decrement =>
      have hneg : (-1 : Cell) = Int32.ofInt (-1) := rfl
      show e.set (Memory.read e - 1) = _
      rw [Int32.sub_eq_add_neg, hneg, hset]
      rfl
  | _ =>
      simp only [gain, hidle]
      exact EndlessTape.advance_zero.symm

/-- A body advances by its first character and then by the rest. -/
theorem EndlessTape.advance_cons (e : EndlessTape) (c : Char) (rest : List Char) :
    e.advance (change (c :: rest)) (shift (c :: rest))
      = ((Instr.ofPlain c).onMemory e).advance (change rest) (shift rest) := by
  rw [Instr.onMemory_eq_advance, advance_advance]
  rfl

/-! ## Rounds of the loop -/

/-- The code of a loop around a text without brackets. -/
def loopCode (body : List Char) : Code :=
  (.loopStart :: (body.map .ofPlain ++ [.loopEnd 0]) : List Instr).toArray

namespace Code

/-- Text without brackets resolves character by character. -/
theorem resolve_plains {body : List Char} (hplain : ∀ c ∈ body, IsPlain c) (text : List Char)
    (pending : List Nat) (done : Code) :
    resolve (body ++ text) pending done
      = resolve text pending (done ++ (body.map .ofPlain).toArray) := by
  induction body generalizing done with
  | nil => simp
  | cons c body ih =>
      have hrest : ∀ c ∈ body, IsPlain c := fun c hc => hplain c (List.mem_cons_of_mem _ hc)
      rw [List.cons_append, resolve_plain (hplain c List.mem_cons_self), ih hrest]
      congr 1
      simp

theorem ofChars_loop {body : List Char} (hplain : ∀ c ∈ body, IsPlain c) :
    ofChars ('[' :: body ++ [']']) = .ok (loopCode body) := by
  rw [ofChars, List.cons_append, resolve_opening, resolve_plains hplain]
  show Except.ok _ = Except.ok _
  congr 1
  simp [loopCode]

section Rounds

variable {body : List Char}

theorem getElem?_loopCode_body {j : Nat} {c : Char} (h : body[j]? = some c) :
    (loopCode body)[1 + j]? = some (.ofPlain c) := by
  have hlt := (List.getElem?_eq_some_iff.mp h).1
  rw [loopCode, List.getElem?_toArray, Nat.add_comm, List.getElem?_cons_succ,
    List.getElem?_append_left (by rw [List.length_map]; exact hlt), List.getElem?_map, h]
  rfl

theorem getElem?_loopCode_end : (loopCode body)[1 + body.length]? = some (.loopEnd 0) := by
  rw [loopCode, List.getElem?_toArray, Nat.add_comm, List.getElem?_cons_succ,
    List.getElem?_append_right (by rw [List.length_map]), List.length_map, Nat.sub_self]
  rfl

theorem getElem?_loopCode_past : (loopCode body)[2 + body.length]? = none := by
  rw [loopCode, List.getElem?_toArray]
  refine List.getElem?_eq_none ?_
  simp
  omega

/-- Where text without brackets and full stops stands in the code, running
    it advances the tape and prints nothing. -/
theorem reaches_body {code : Code} {base : Nat}
    (hcode : ∀ (j : Nat) (c : Char), body[j]? = some c → code[base + j]? = some (.ofPlain c))
    (hquiet : ∀ c ∈ body, c ≠ '.') (steps : Nat) (e : EndlessTape) (printed : List Char) :
    code.Reaches body.length ⟨base, steps, e, printed⟩
      ⟨base + body.length, steps + body.length, e.advance (change body) (shift body), printed⟩ := by
  induction body generalizing base steps e with
  | nil =>
      show code.Reaches 0 _ ⟨base, steps, e.advance (fun _ => 0) 0, printed⟩
      rw [EndlessTape.advance_zero]
      exact .refl _
  | cons c rest ih =>
      have hsilent : (Instr.ofPlain c).emits (Memory.read e) = [] := by
        have hc := hquiet c List.mem_cons_self
        unfold Instr.ofPlain
        split_ifs <;> rfl
      have hcode' : ∀ (j : Nat) (d : Char), rest[j]? = some d →
          code[base + 1 + j]? = some (.ofPlain d) := by
        intro j d hd
        rw [show base + 1 + j = base + (j + 1) by omega]
        exact hcode (j + 1) d hd
      have hrest := ih hcode' (fun d hd => hquiet d (List.mem_cons_of_mem c hd)) (steps + 1)
        ((Instr.ofPlain c).onMemory e)
      refine .step (hcode 0 c rfl) ?_
      rw [Instr.act_mk, Instr.next_ofPlain, hsilent, EndlessTape.advance_cons, List.length_cons,
        show base + (rest.length + 1) = base + 1 + rest.length by omega,
        show steps + (rest.length + 1) = steps + 1 + rest.length by omega]
      exact hrest

/-- One round: the body, and then back to its beginning unless the cell
    holds zero. -/
theorem reaches_round (hquiet : ∀ c ∈ body, c ≠ '.') (hback : shift body = 0) (steps : Nat)
    (e : EndlessTape) (printed : List Char) :
    (loopCode body).Reaches (body.length + 1) ⟨1, steps, e, printed⟩
      ⟨if Memory.read (e.advance (change body) 0) = 0 then 2 + body.length else 1,
        steps + (body.length + 1), e.advance (change body) 0, printed⟩ := by
  have hbody := reaches_body (fun j c => getElem?_loopCode_body) hquiet steps e printed
  rw [hback] at hbody
  refine hbody.trans (.step getElem?_loopCode_end ?_)
  rw [Instr.act_mk, show 2 + body.length = 1 + body.length + 1 by omega]
  exact .refl _

end Rounds

end Code

/-! ## Counting the rounds -/

/-- A number is zero as a cell exactly if the number of values of a cell
    divides it. -/
theorem ofInt_eq_zero_iff {x : Int} : Int32.ofInt x = 0 ↔ (Int32.size : Int) ∣ x := by
  rw [Int.dvd_iff_bmod_eq_zero, ← Int32.toInt_ofInt, ← Int32.toInt_zero, Int32.toInt_inj]

/-- How often one has to be taken off a cell until it holds zero, at least
    once: one more than the rest of `v - 1` modulo `2 ^ 32`. -/
def rounds (v : Cell) : Nat := ((v.toInt - 1) % Int32.size).toNat + 1

section Rounds

variable {v : Cell} {k : Nat}

theorem steps_succ (k l : Nat) : 1 + (k + 1) * l = 1 + k * l + l := by
  rw [Nat.add_one_mul, Nat.add_assoc]

theorem sub_ofNat (v : Cell) (k : Nat) : v - Int32.ofNat k = Int32.ofInt (v.toInt - k) := by
  rw [Int32.ofInt_sub, Int32.ofInt_toInt, Int32.ofInt_eq_ofNat]

theorem sub_rounds : v - Int32.ofNat (rounds v) = 0 := by
  rw [sub_ofNat, ofInt_eq_zero_iff, rounds]
  simp only [Int32.size]
  omega

/-- Before the last round the cell does not hold zero. -/
theorem sub_ne_zero_of_lt_rounds (hpos : 0 < k) (hlt : k < rounds v) : v - Int32.ofNat k ≠ 0 := by
  rw [sub_ofNat, Ne, ofInt_eq_zero_iff]
  unfold rounds at hlt
  simp only [Int32.size] at hlt ⊢
  omega

end Rounds

/-- The tape after `k` rounds of a body that comes back. -/
def EndlessTape.turned (e : EndlessTape) (body : List Char) (k : Nat) : EndlessTape :=
  e.advance (fun d => k * change body d) 0

namespace EndlessTape

variable (e : EndlessTape) {body : List Char}

theorem turned_zero (body : List Char) : e.turned body 0 = e := by
  unfold turned
  simp only [Int.natCast_zero, Int.zero_mul]
  exact advance_zero

theorem turned_succ (body : List Char) (k : Nat) :
    (e.turned body k).advance (change body) 0 = e.turned body (k + 1) := by
  unfold turned
  rw [advance_advance]
  congr 1
  funext d
  rw [Int.sub_zero, Int.natCast_succ, Int.add_mul, Int.one_mul]

theorem value_turned (body : List Char) (k : Nat) (z : Int) : (e.turned body k).value z
    = e.value z + Int32.ofNat k * Int32.ofInt (change body (z - e.cursor)) := by
  show e.value z + Int32.ofInt (k * change body (z - e.cursor)) = _
  rw [Int32.ofInt_mul, Int32.ofInt_eq_ofNat]

/-- Each round takes one off the cell of the loop. -/
theorem read_turned (hdown : Int32.ofInt (change body 0) = -1) (k : Nat) :
    Memory.read (e.turned body k) = Memory.read e - Int32.ofNat k := by
  unfold turned
  rw [read_advance, Int32.ofInt_mul, Int32.ofInt_eq_ofNat, hdown, Int32.mul_neg, Int32.mul_one,
    Int32.sub_eq_add_neg]

end EndlessTape

namespace Code

section Loop

variable {body : List Char} {e : EndlessTape} {v : Cell} (hquiet : ∀ c ∈ body, c ≠ '.')
  (hback : shift body = 0) (hdown : Int32.ofInt (change body 0) = -1) (hv : Memory.read e = v)

include hquiet hback hdown hv

/-- The machine begins round after round, as long as the cell of the loop
    does not hold zero. -/
theorem reaches_rounds {k : Nat} (hk : k < rounds v) :
    (loopCode body).Reaches (1 + k * (body.length + 1)) (.start e)
      ⟨1, 1 + k * (body.length + 1), e.turned body k, []⟩ := by
  induction k with
  | zero =>
      rw [e.turned_zero, Nat.zero_mul]
      exact .step rfl (.refl _)
  | succ k ih =>
      have hround := reaches_round hquiet hback (1 + k * (body.length + 1)) (e.turned body k) []
      rw [e.turned_succ, e.read_turned hdown, hv,
        if_neg (sub_ne_zero_of_lt_rounds k.succ_pos hk)] at hround
      rw [steps_succ]
      exact (ih (by omega)).trans hround

/-- In each round the machine passes the body character by character. -/
theorem reaches_inside {k j : Nat} (hk : k < rounds v) (hj : j ≤ body.length) :
    ∃ u, (loopCode body).Reaches (1 + k * (body.length + 1) + j) (.start e) u ∧ u.ip = 1 + j := by
  have hcode : ∀ (i : Nat) (c : Char), (body.take j)[i]? = some c →
      (loopCode body)[1 + i]? = some (.ofPlain c) := by
    intro i c hc
    rw [List.getElem?_take] at hc
    split at hc
    · exact getElem?_loopCode_body hc
    · cases hc
  have hpart := reaches_body hcode (fun c hc => hquiet c (List.mem_of_mem_take hc))
    (1 + k * (body.length + 1)) (e.turned body k) []
  rw [List.length_take, Nat.min_eq_left hj] at hpart
  exact ⟨_, (reaches_rounds hquiet hback hdown hv hk).trans hpart, rfl⟩

/-- After the last round the loop is left. -/
theorem reaches_exit :
    (loopCode body).Reaches (1 + rounds v * (body.length + 1)) (.start e)
      ⟨2 + body.length, 1 + rounds v * (body.length + 1), e.turned body (rounds v), []⟩ := by
  obtain ⟨k, hk⟩ : ∃ k, rounds v = k + 1 := ⟨_, rfl⟩
  have hround := reaches_round hquiet hback (1 + k * (body.length + 1)) (e.turned body k) []
  rw [e.turned_succ, ← hk, e.read_turned hdown, hv, if_pos sub_rounds] at hround
  have hall := (reaches_rounds hquiet hback hdown hv (k := k) (by omega)).trans hround
  rwa [← steps_succ, ← hk] at hall

end Loop

end Code

/-! ## On a tape -/

/-- What happens on an endless tape happens on the tape that was laid on
    it. -/
theorem Code.reaches_of_endless {code : Code} {n : Nat} {u : State EndlessTape} (s : State Tape)
    (grown : Nat) (h : code.Reaches n (s.endless grown) u) :
    ∃ s', code.Reaches n s s' ∧ u = s'.endless (grown + code.grownLeft n s) := by
  generalize hstart : s.endless grown = x at h
  induction h generalizing s grown with
  | refl x =>
      subst hstart
      exact ⟨s, .refl s, rfl⟩
  | @step n x u i hi _ ih =>
      subst hstart
      have hi' : code[s.ip]? = some i := hi
      obtain ⟨s', hr, hu⟩ := ih (i.act s) _ (i.act_endless s grown).symm
      refine ⟨s', .step hi' hr, ?_⟩
      rw [hu, grownLeft, hi', Nat.add_assoc]

/-- The cell that is `d` places to the right of the cursor, zero where the
    tape has none. -/
def Tape.around (t : Tape) (d : Int) : Cell :=
  if 0 ≤ t.offset + d then t.cells.getD (t.offset + d).toNat 0 else 0

theorem Tape.value_endless (t : Tape) (grown : Nat) (d : Int) :
    (t.endless grown).value ((t.endless grown).cursor + d) = t.around d := by
  show (if 0 ≤ (t.offset : Int) - grown + d + grown
    then t.cells.getD ((t.offset : Int) - grown + d + grown).toNat 0 else 0) = t.around d
  rw [show (t.offset : Int) - grown + d + grown = t.offset + d by omega]
  rfl

theorem Tape.around_zero (t : Tape) : t.around 0 = t.cell := by
  rw [← t.value_endless 0, Int.add_zero]
  exact t.endless_read 0

/-- **A counting loop multiplies.**  Take a body without brackets and full
    stops that comes back to where it began and takes one off the cell
    there, modulo `2 ^ 32`.  On every tape a loop around it returns after
    `n` rounds, where `n` is the rest of `v - 1` modulo `2 ^ 32` plus one
    for a cell that holds `v`; in each round the machine passes the body
    from its first character to the closing bracket.  It prints nothing
    and ends on the cell it began on, which then holds zero, and what the
    body adds to any other cell has been added `n` times. -/
theorem counting_loop_multiplies (body : List Char) (hplain : ∀ c ∈ body, IsPlain c ∧ c ≠ '.')
    (hback : shift body = 0) (hdown : Int32.ofInt (change body 0) = -1) (t : Tape) :
    let text := String.ofList ('[' :: body ++ [']'])
    let n := rounds t.cell
    let steps := 1 + n * (body.length + 1)
    ∃ code t', Code.ofText text = .ok code ∧ Returns text t "" t' ∧
      ReturnsAfter text t steps "" t' ∧
      (∀ k j, k < n → j ≤ body.length →
        (code.after (1 + k * (body.length + 1) + j) (.start t)).ip = 1 + j) ∧
      t'.cell = 0 ∧
      t'.offset = t.offset + code.grownLeft steps (.start t) ∧
      ∀ d : Int, d ≠ 0 →
        t'.around d = t.around d + Int32.ofNat n * Int32.ofInt (change body d) := by
  intro text n steps
  have hcode : Code.ofText text = .ok (loopCode body) := by
    rw [Code.ofText, String.toList_ofList]
    exact Code.ofChars_loop fun c hc => (hplain c hc).1
  have hquiet : ∀ c ∈ body, c ≠ '.' := fun c hc => (hplain c hc).2
  have hread : Memory.read (t.endless 0) = t.cell := t.endless_read 0
  -- the whole run, on the endless tape and then on the tape
  obtain ⟨s, hrun, hs⟩ := Code.reaches_of_endless (.start t) 0
    (Code.reaches_exit hquiet hback hdown hread)
  have hip : 2 + body.length = s.ip := congrArg State.ip hs
  have hprinted : [] = s.printed := congrArg State.printed hs
  have hmemory : (t.endless 0).turned body n
      = s.memory.endless (0 + (loopCode body).grownLeft steps (.start t)) :=
    congrArg State.memory hs
  have haround : ∀ d, s.memory.around d
      = t.around d + Int32.ofNat n * Int32.ofInt (change body d) := by
    intro d
    rw [← s.memory.value_endless, ← hmemory, EndlessTape.value_turned, ← t.value_endless 0]
    show (t.endless 0).value ((t.endless 0).cursor + 0 + d)
        + Int32.ofNat n * Int32.ofInt (change body ((t.endless 0).cursor + 0 + d
          - (t.endless 0).cursor)) = _
    rw [Int.add_zero, show ∀ c : Int, c + d - c = d from fun c => by omega]
  have hafter : ReturnsAfter text t steps "" s.memory := by
    refine ⟨_, s, hcode, hrun, ?_, ?_, rfl⟩
    · rw [Code.Halted, ← hip]
      exact Code.getElem?_loopCode_past
    · rw [State.text, State.output, ← hprinted]
      rfl
  refine ⟨_, s.memory, hcode, (returns_iff_returnsAfter hcode).mpr ⟨_, hafter⟩, hafter,
    ?_, ?_, ?_, fun d _ => haround d⟩
  · intro k j hk hj
    obtain ⟨u, hu, huip⟩ := Code.reaches_inside hquiet hback hdown hread hk hj
    obtain ⟨s', hs', rfl⟩ := Code.reaches_of_endless (.start t) 0 hu
    rw [hs'.after_eq]
    exact huip
  · rw [← Tape.around_zero, haround, t.around_zero, hdown, Int32.mul_neg, Int32.mul_one,
      ← Int32.sub_eq_add_neg, sub_rounds]
  · have hcursor : (t.offset : Int) - (0 : Nat) + 0
        = s.memory.offset - (0 + (loopCode body).grownLeft steps (.start t) : Nat) :=
      congrArg EndlessTape.cursor hmemory
    omega

/-- A cell below zero goes down through the least value, and one that holds
    zero goes through all of them; comments count as steps. -/
theorem counting_loop_multiplies_wraps :
    ((∀ c ∈ "->++< ".toList, IsPlain c ∧ c ≠ '.') ∧ shift "->++< ".toList = 0 ∧
      Int32.ofInt (change "->++< ".toList 0) = -1) ∧
    (∃ t', ReturnsAfter "[->++< ]" ⟨[], -3, []⟩ (1 + 4294967293 * 7) "" t' ∧
      t'.cell = 0 ∧ t'.around 1 = -6) ∧
    ∃ t', ReturnsAfter "[->++< ]" ⟨[], 0, [5]⟩ (1 + 4294967296 * 7) "" t' ∧
      t'.cell = 0 ∧ t'.around 1 = 5 := by
  have hplain : ∀ c ∈ "->++< ".toList, IsPlain c ∧ c ≠ '.' := by simp [IsPlain]
  have hback : shift "->++< ".toList = 0 := by decide
  have hdown : Int32.ofInt (change "->++< ".toList 0) = -1 := by decide
  refine ⟨⟨hplain, hback, hdown⟩, ?_, ?_⟩
  · obtain ⟨-, t', -, -, hafter, -, hcell, -, haround⟩ :=
      counting_loop_multiplies "->++< ".toList hplain hback hdown ⟨[], -3, []⟩
    exact ⟨t', hafter, hcell, (haround 1 (by decide)).trans (by decide)⟩
  · obtain ⟨-, t', -, -, hafter, -, hcell, -, haround⟩ :=
      counting_loop_multiplies "->++< ".toList hplain hback hdown ⟨[], 0, [5]⟩
    exact ⟨t', hafter, hcell, (haround 1 (by decide)).trans (by decide)⟩

end TapeMachine
