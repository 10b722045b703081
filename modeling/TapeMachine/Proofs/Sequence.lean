import TapeMachine.Proofs.Control
import TapeMachine.Proofs.Structured

/-! # Sequences — one program behind another

    The code of two programs in a row is the code of the first, followed
    by the code of the second with its jumps moved back.  So the first
    program runs as if it were alone, and then the second runs as if it
    were alone, from the tape it finds and with its steps counted on.

      * `Block.code_append`: where the two parts stand.
      * `Reaches.extend`, `Reaches.behind`: a run of either part is a run
        of the whole.
      * `ReturnsAfter.append`, `GoesOn.append`: how many steps the whole
        takes, and what a limit leaves of it.
      * `returns_append_iff`: what the whole returns without limit. -/

namespace TapeMachine

/-! ## Moving code -/

namespace Instr

/-- The same instruction in code where places have moved. -/
def placed (f : Nat → Nat) : Instr → Instr
  | .loopEnd start => .loopEnd (f start)
  | i => i

/-- The instruction of a character other than a bracket knows no place. -/
theorem placed_ofPlain (f : Nat → Nat) (c : Char) : (ofPlain c).placed f = ofPlain c := by
  unfold ofPlain
  split_ifs <;> rfl

end Instr

namespace Block

theorem code_add (b : Block) (d base : Nat) :
    b.code (d + base) = (b.code base).map (Instr.placed (d + ·)) := by
  induction b generalizing base with
  | nil => rfl
  | plain c h rest ih =>
      simp only [code, List.map_cons, Instr.placed_ofPlain, Nat.add_assoc, ih]
  | loop body rest ihb ihr =>
      simp only [code, List.cons_append, List.map_cons, List.map_append, Instr.placed,
        Nat.add_assoc, ihb, ihr]

theorem code_append (b b' : Block) (base : Nat) :
    (b.append b').code base = b.code base ++ b'.code (base + b.size) := by
  induction b generalizing base with
  | nil => rfl
  | plain c h rest ih =>
      rw [add_size_plain]
      simp only [append, code, ih, List.cons_append]
  | loop body rest _ ih =>
      rw [add_size_loop]
      simp only [append, code, ih, List.cons_append, List.append_assoc]

/-- The first of two trees stands where it stands alone. -/
theorem getElem?_code_append_left {b : Block} (b' : Block) {ip : Nat} {i : Instr}
    (h : (b.code 0).toArray[ip]? = some i) : ((b.append b').code 0).toArray[ip]? = some i := by
  rw [List.getElem?_toArray] at h ⊢
  have hlt := (List.getElem?_eq_some_iff.mp h).1
  rw [code_append, List.getElem?_append_left hlt, h]

/-- The second of two trees stands behind the first. -/
theorem getElem?_code_append_right (b b' : Block) (ip : Nat) :
    ((b.append b').code 0).toArray[b.size + ip]?
      = (b'.code 0).toArray[ip]?.map (Instr.placed (b.size + ·)) := by
  have hlen : (b.code 0).length ≤ b.size + ip := by
    rw [length_code]
    omega
  rw [List.getElem?_toArray, List.getElem?_toArray, code_append, List.getElem?_append_right hlen,
    length_code, Nat.add_sub_cancel_left, Nat.zero_add, ← Nat.add_zero b.size, code_add,
    List.getElem?_map, Nat.add_zero]

end Block

/-! ## Runs of the parts -/

namespace Code

variable {M : Type} [Memory M] {code code' : Code} {n : Nat} {s s' : State M}

/-- Code that has the same instructions, and maybe more, takes the same
    steps. -/
theorem Reaches.extend (hmore : ∀ (ip : Nat) (i : Instr), code[ip]? = some i → code'[ip]? = some i)
    (h : code.Reaches n s s') : code'.Reaches n s s' := by
  induction h with
  | refl s => exact .refl s
  | step hi _ ih => exact .step (hmore _ _ hi) ih

end Code

/-- An instruction does in code where places have moved what it does alone,
    if neighbouring places have moved to neighbouring ones. -/
theorem Instr.act_placed {M : Type} [Memory M] (i : Instr) (f : Nat → Nat) (s : State M)
    (hnext : f (s.ip + 1) = f s.ip + 1)
    (hstart : ∀ start, i = .loopEnd start → f (start + 1) = f start + 1) (k : Nat)
    (p : List Char) :
    (i.placed f).act ⟨f s.ip, k, s.memory, s.printed ++ p⟩
      = ⟨f (i.act s).ip, k + 1, (i.act s).memory, (i.act s).printed ++ p⟩ := by
  cases i with
  | loopEnd start =>
      show State.mk (if Memory.read s.memory = 0 then f s.ip + 1 else f start + 1) _ _ _
        = State.mk (f (if Memory.read s.memory = 0 then s.ip + 1 else start + 1)) _ _ _
      rw [← hnext, ← hstart start rfl]
      split <;> rfl
  | _ =>
      show State.mk (f s.ip + 1) _ _ _ = State.mk (f (s.ip + 1)) _ _ _
      rw [hnext]
      rfl

/-- The state of a program that runs behind another one: the code begins
    at `base`, and the first program took `k` steps and printed `p`. -/
def State.behind {M : Type} (s : State M) (base k : Nat) (p : List Char) : State M :=
  ⟨base + s.ip, k + s.steps, s.memory, s.printed ++ p⟩

/-- A run may take place behind other code. -/
theorem Code.Reaches.behind {M : Type} [Memory M] {code code' : Code} {n base : Nat}
    {s s' : State M} (hcode : ∀ ip, code'[base + ip]? = code[ip]?.map (Instr.placed (base + ·)))
    (h : code.Reaches n s s') (k : Nat) (p : List Char) :
    code'.Reaches n (s.behind base k p) (s'.behind base k p) := by
  induction h with
  | refl s => exact .refl _
  | @step n s s' i hi _ ih =>
      have hi' : code'[(s.behind base k p).ip]? = some (i.placed (base + ·)) := by
        show code'[base + s.ip]? = _
        rw [hcode, hi]
        rfl
      have hact : (i.placed (base + ·)).act (s.behind base k p) = (i.act s).behind base k p :=
        i.act_placed (base + ·) s rfl (fun _ _ => rfl) (k + s.steps) p
      refine .step hi' ?_
      rw [hact]
      exact ih

/-! ## Programs that return, and programs that go on -/

theorem Balanced.append {p q : String} (hp : Balanced p.toList) (hq : Balanced q.toList) :
    Balanced (p ++ q).toList := by
  rw [String.toList_append]
  exact hp.beside hq

/-- After `n` steps a program has a step left, and its tape is `t'`. -/
def GoesOn (text : String) (t : Tape) (n : Nat) (t' : Tape) : Prop :=
  ∃ code s i, Code.ofText text = .ok code ∧ code.Reaches n (.start t) s ∧
    code[s.ip]? = some i ∧ s.memory = t'

variable {p q text : String} {t t' t'' : Tape} {k j n : Nat} {o out : String}

theorem ReturnsAfter.balanced (h : ReturnsAfter text t k out t') : Balanced text.toList := by
  obtain ⟨code, -, hcode, -⟩ := h
  exact Code.ofChars_isOk_iff.mp ⟨code, hcode⟩

theorem GoesOn.balanced (h : GoesOn text t n t') : Balanced text.toList := by
  obtain ⟨code, -, -, hcode, -⟩ := h
  exact Code.ofChars_isOk_iff.mp ⟨code, hcode⟩

theorem ReturnsAfter.unique (h : ReturnsAfter text t k o t') (h' : ReturnsAfter text t j out t'') :
    k = j ∧ o = out ∧ t' = t'' := by
  obtain ⟨code, s, hcode, hr, hh, rfl, rfl⟩ := h'
  obtain ⟨rfl, rfl, rfl⟩ := h.eq_of_reaches hcode hr hh
  exact ⟨rfl, rfl, rfl⟩

/-- A program that goes on after `n` steps returns later. -/
theorem ReturnsAfter.lt_of_goesOn (h : ReturnsAfter text t k out t') (h' : GoesOn text t n t'') :
    n < k := by
  obtain ⟨code, s, hcode, hr, hh, -, -⟩ := h
  obtain ⟨code', s', i, hcode', hr', hi, -⟩ := h'
  obtain rfl : code = code' := Except.ok.inj (hcode.symm.trans hcode')
  exact hr.lt_of_goes_on hh hr' hi

/-- Within `n` steps a balanced program returns, or it goes on. -/
theorem Balanced.returns_or_goesOn (h : Balanced text.toList) (t : Tape) (n : Nat) :
    (∃ k out t', k ≤ n ∧ ReturnsAfter text t k out t') ∨ ∃ t', GoesOn text t n t' := by
  obtain ⟨code, hcode⟩ := Code.ofChars_isOk_iff.mpr h
  rcases code.halts_within_or_goes_on n (.start t) with ⟨k, s, hk, hr, hh⟩ | ⟨s, i, hr, hi⟩
  · exact Or.inl ⟨k, _, _, hk, code, s, hcode, hr, hh, rfl, rfl⟩
  · exact Or.inr ⟨_, code, s, i, hcode, hr, hi, rfl⟩

/-- A program that returns leaves its code at the end. -/
theorem ReturnsAfter.reaches {b : Block} (hb : b.chars = text.toList)
    (h : ReturnsAfter text t k o t') :
    Code.Reaches (b.code 0).toArray k (.start t) ⟨b.size, k, t', o.toList.reverse⟩ := by
  obtain ⟨code, s, hcode, hr, hh, rfl, rfl⟩ := h
  obtain rfl : (b.code 0).toArray = code := Except.ok.inj ((ofText_of_chars hb).symm.trans hcode)
  obtain ⟨j, r, out, m, rfl, -, hon⟩ := eval_of_reaches hh k b.at_zero hr
  rw [Nat.zero_add] at hon
  -- no step is left behind the tree
  have hend : Code.Halted (b.code 0).toArray
      (⟨b.size, 0 + j, m, out.reverse ++ []⟩ : State Tape) := b.getElem?_code_size
  obtain ⟨rfl, rfl⟩ := (Code.Reaches.refl _).unique hend hon hh
  simpa [State.text, State.output] using hr

/-- The state in which the second program starts. -/
theorem ReturnsAfter.reaches_behind {b b' : Block} (hb : b.chars = p.toList)
    (h : ReturnsAfter p t k o t') {s : State Tape}
    (hs : Code.Reaches (b'.code 0).toArray n (.start t') s) :
    Code.Reaches ((b.append b').code 0).toArray (k + n) (.start t)
      (s.behind b.size k o.toList.reverse) := by
  have hfirst := (h.reaches hb).extend fun ip i => b.getElem?_code_append_left b'
  exact hfirst.trans (hs.behind (b.getElem?_code_append_right b') k o.toList.reverse)

/-- The text of two programs in a row is that of two trees in a row. -/
theorem chars_append_eq {b b' : Block} (hb : b.chars = p.toList) (hb' : b'.chars = q.toList) :
    (b.append b').chars = (p ++ q).toList := by
  rw [Block.chars_append, hb, hb', String.toList_append]

/-- The steps of two programs in a row add up, and so do their outputs. -/
theorem ReturnsAfter.append (h : ReturnsAfter p t k o t') (h' : ReturnsAfter q t' j out t'') :
    ReturnsAfter (p ++ q) t (k + j) (o ++ out) t'' := by
  obtain ⟨b, hb⟩ := h.balanced.exists_block
  obtain ⟨b', hb'⟩ := h'.balanced.exists_block
  refine ⟨_, _, ofText_of_chars (chars_append_eq hb hb'), h.reaches_behind hb (h'.reaches hb'),
    ?_, ?_, rfl⟩
  · show ((b.append b').code 0).toArray[b.size + b'.size]? = none
    rw [Block.getElem?_code_append_right, b'.getElem?_code_size]
    rfl
  · simp [State.text, State.output, State.behind]

/-- While the second program goes on, so do both in a row. -/
theorem GoesOn.append (h : ReturnsAfter p t k o t') (h' : GoesOn q t' n t'') :
    GoesOn (p ++ q) t (k + n) t'' := by
  obtain ⟨b, hb⟩ := h.balanced.exists_block
  obtain ⟨b', hb'⟩ := h'.balanced.exists_block
  obtain ⟨code, s, i, hcode, hr, hi, rfl⟩ := h'
  obtain rfl := Except.ok.inj ((ofText_of_chars hb').symm.trans hcode)
  refine ⟨_, _, i.placed (b.size + ·), ofText_of_chars (chars_append_eq hb hb'),
    h.reaches_behind hb hr, ?_, rfl⟩
  show ((b.append b').code 0).toArray[b.size + s.ip]? = _
  rw [Block.getElem?_code_append_right, hi]
  rfl

/-- While the first program goes on, so do both in a row. -/
theorem GoesOn.extend (h : GoesOn p t n t') (hq : Balanced q.toList) : GoesOn (p ++ q) t n t' := by
  obtain ⟨b, hb⟩ := h.balanced.exists_block
  obtain ⟨b', hb'⟩ := hq.exists_block
  obtain ⟨code, s, i, hcode, hr, hi, rfl⟩ := h
  obtain rfl := Except.ok.inj ((ofText_of_chars hb).symm.trans hcode)
  have hmore : ∀ ip i, (b.code 0).toArray[ip]? = some i →
      ((b.append b').code 0).toArray[ip]? = some i := fun ip i => b.getElem?_code_append_left b'
  exact ⟨_, s, i, ofText_of_chars (chars_append_eq hb hb'), hr.extend hmore, hmore _ _ hi, rfl⟩

/-! ## Without limit -/

/-- If the first of two programs returns, both in a row return exactly if
    the second does from there on. -/
theorem ReturnsAfter.append_iff (h : ReturnsAfter p t k o t') (hq : Balanced q.toList) :
    ReturnsAfter (p ++ q) t n out t'' ↔
      ∃ j out', n = k + j ∧ out = o ++ out' ∧ ReturnsAfter q t' j out' t'' := by
  constructor
  · intro hall
    rcases hq.returns_or_goesOn t' n with ⟨j, out', t₂, -, hret⟩ | ⟨t₂, hon⟩
    · obtain ⟨rfl, rfl, rfl⟩ := hall.unique (h.append hret)
      exact ⟨j, out', rfl, rfl, hret⟩
    · -- then both in a row would go on beyond the steps they take
      have := hall.lt_of_goesOn (hon.append h)
      omega
  · rintro ⟨j, out', rfl, rfl, hret⟩
    exact h.append hret

/-- A balanced program returns exactly if it returns after some number of
    steps. -/
theorem Balanced.returns_iff (h : Balanced text.toList) :
    Returns text t out t' ↔ ∃ k, ReturnsAfter text t k out t' := by
  obtain ⟨code, hcode⟩ := Code.ofChars_isOk_iff.mpr h
  exact returns_iff_returnsAfter hcode

/-- A balanced program runs forever exactly if it returns after no number
    of steps. -/
theorem Balanced.runsForever_iff (h : Balanced text.toList) :
    RunsForever text t ↔ ¬ ∃ k out t', ReturnsAfter text t k out t' := by
  obtain ⟨code, hcode⟩ := Code.ofChars_isOk_iff.mpr h
  rw [runsForever_iff_not_returns hcode]
  refine not_congr ⟨?_, ?_⟩
  · rintro ⟨out, t', hret⟩
    obtain ⟨k, hk⟩ := h.returns_iff.mp hret
    exact ⟨k, out, t', hk⟩
  · rintro ⟨k, out, t', hk⟩
    exact ⟨out, t', h.returns_iff.mpr ⟨k, hk⟩⟩

/-- If the first of two programs returns, both in a row run forever exactly
    if the second does from there on. -/
theorem ReturnsAfter.runsForever_append_iff (h : ReturnsAfter p t k o t')
    (hq : Balanced q.toList) : RunsForever (p ++ q) t ↔ RunsForever q t' := by
  rw [(h.balanced.append hq).runsForever_iff, hq.runsForever_iff]
  refine not_congr ⟨?_, ?_⟩
  · rintro ⟨n, out, t'', hall⟩
    obtain ⟨j, out', -, -, hret⟩ := (h.append_iff hq).mp hall
    exact ⟨j, out', t'', hret⟩
  · rintro ⟨j, out', t'', hret⟩
    exact ⟨k + j, o ++ out', t'', h.append hret⟩

/-- Two balanced programs in a row return what the first returns and then
    the second, on the tape that the first has left. -/
theorem returns_append_iff (hp : Balanced p.toList) (hq : Balanced q.toList) :
    Returns (p ++ q) t out t'' ↔
      ∃ o out' t', Returns p t o t' ∧ Returns q t' out' t'' ∧ out = o ++ out' := by
  have hpq := hp.append hq
  constructor
  · intro hall
    obtain ⟨n, hn⟩ := hpq.returns_iff.mp hall
    rcases hp.returns_or_goesOn t n with ⟨k, o, t', -, hk⟩ | ⟨t', hon⟩
    · obtain ⟨j, out', -, rfl, hj⟩ := (hk.append_iff hq).mp hn
      exact ⟨o, out', t', hp.returns_iff.mpr ⟨k, hk⟩, hq.returns_iff.mpr ⟨j, hj⟩, rfl⟩
    · -- the whole cannot return while its first part goes on
      exact absurd (hn.lt_of_goesOn (hon.extend hq)) (Nat.lt_irrefl n)
  · rintro ⟨o, out', t', hret, hret', rfl⟩
    obtain ⟨k, hk⟩ := hp.returns_iff.mp hret
    obtain ⟨j, hj⟩ := hq.returns_iff.mp hret'
    exact hpq.returns_iff.mpr ⟨k + j, hk.append hj⟩

/-- Programs run one after another on one tape return these outputs joined
    and leave this tape. -/
def ReturnsInTurn : List String → Tape → String → Tape → Prop
  | [], t, out, t' => out = "" ∧ t' = t
  | p :: rest, t, out, t' =>
      ∃ o out' t₁, Returns p t o t₁ ∧ ReturnsInTurn rest t₁ out' t' ∧ out = o ++ out'

theorem balanced_join {pieces : List String} (h : ∀ p ∈ pieces, Balanced p.toList) :
    Balanced (String.join pieces).toList := by
  induction pieces with
  | nil => exact Block.nil.balanced_chars
  | cons p rest ih =>
      rw [String.join_cons]
      exact (h p List.mem_cons_self).append (ih fun q hq => h q (List.mem_cons_of_mem p hq))

/-- The empty program returns nothing and leaves its tape. -/
theorem returns_empty_iff : Returns "" t out t' ↔ out = "" ∧ t' = t := by
  rw [returns_iff_eval (b := .nil) rfl]
  constructor
  · intro h
    generalize hout : out.toList = cs at h
    cases h
    exact ⟨String.toList_eq_nil_iff.mp hout, rfl⟩
  · rintro ⟨rfl, rfl⟩
    exact .nil _

/-- Balanced pieces joined return what they return one after another. -/
theorem returns_join_iff {pieces : List String} (h : ∀ p ∈ pieces, Balanced p.toList) :
    Returns (String.join pieces) t out t' ↔ ReturnsInTurn pieces t out t' := by
  induction pieces generalizing t out with
  | nil => exact returns_empty_iff
  | cons p rest ih =>
      have hrest : ∀ q ∈ rest, Balanced q.toList := fun q hq => h q (List.mem_cons_of_mem p hq)
      rw [String.join_cons, returns_append_iff (h p List.mem_cons_self) (balanced_join hrest)]
      constructor
      · rintro ⟨o, out', t₁, hp, hr, rfl⟩
        exact ⟨o, out', t₁, hp, (ih hrest).mp hr, rfl⟩
      · rintro ⟨o, out', t₁, hp, hr, rfl⟩
        exact ⟨o, out', t₁, hp, (ih hrest).mpr hr, rfl⟩

/-! ## Under a limit -/

/-- With fuel enough for a limit of `n` steps, executing a program under
    that limit ends with this result and this tape. -/
def EndsUnder (n : Nat) (text : String) (t : Tape) (result : Except Fault String) (t' : Tape) :
    Prop :=
  ∀ jumps fuel, n < fuel → ∃ e, execute fuel { limit := some n } { jumps } text t = some e ∧
    e.result = result ∧ e.tape = t'

/-- Under a limit that it does not use up a program returns. -/
theorem ReturnsAfter.endsUnder (h : ReturnsAfter text t k out t') (hk : k ≤ n) :
    EndsUnder n text t (.ok out) t' := by
  intro jumps fuel hfuel
  obtain ⟨code, hcode⟩ := Code.ofChars_isOk_iff.mpr h.balanced
  obtain ⟨e, he, hok, -⟩ := execute_limited hcode jumps t n
  exact ⟨e, he fuel hfuel, (hok out t').mpr ⟨k, hk, h⟩⟩

/-- Under a limit after which it goes on a program is stopped. -/
theorem GoesOn.endsUnder (h : GoesOn text t n t') :
    EndsUnder n text t (.error (.stepLimit n)) t' := by
  intro jumps fuel hfuel
  have hlate : ∀ k out t', ReturnsAfter text t k out t' → n < k :=
    fun k out t' hret => hret.lt_of_goesOn h
  obtain ⟨code, s, i, hcode, hr, hi, rfl⟩ := h
  obtain ⟨e, he, -, hstop⟩ := execute_limited hcode jumps t n
  obtain ⟨hresult, htape⟩ := hstop hlate
  rw [hr.after_eq] at htape
  exact ⟨e, he fuel hfuel, hresult, htape⟩

/-- **Programs in a row.**  If a balanced program returns after `k` steps,
    then with another one behind it the execution is that of the second
    from there on: without limit the steps and the outputs add up, and a
    limit of `N ≥ k` steps leaves the second program `N - k` of them, with
    `N` in the report.  Under a limit that the first program uses up the
    second one makes no difference.  So balanced pieces may be run one
    after another on the same tape, or joined. -/
theorem execute_in_sequence :
    (∀ (p q : String), Balanced p.toList → Balanced q.toList → ∀ (t : Tape),
      (∀ k o t', ReturnsAfter p t k o t' →
        (∀ n out t'', ReturnsAfter (p ++ q) t n out t'' ↔
          ∃ j out', n = k + j ∧ out = o ++ out' ∧ ReturnsAfter q t' j out' t'') ∧
        (RunsForever (p ++ q) t ↔ RunsForever q t') ∧
        ∀ N, k ≤ N →
          (∃ out t'', EndsUnder (N - k) q t' (.ok out) t'' ∧
            EndsUnder N (p ++ q) t (.ok (o ++ out)) t'') ∨
          ∃ t'', EndsUnder (N - k) q t' (.error (.stepLimit (N - k))) t'' ∧
            EndsUnder N (p ++ q) t (.error (.stepLimit N)) t'') ∧
      ∀ N, (∀ k o t', ReturnsAfter p t k o t' → N < k) →
        ∃ t', EndsUnder N p t (.error (.stepLimit N)) t' ∧
          EndsUnder N (p ++ q) t (.error (.stepLimit N)) t') ∧
    ∀ pieces : List String, (∀ p ∈ pieces, Balanced p.toList) → ∀ t out t',
      Returns (String.join pieces) t out t' ↔ ReturnsInTurn pieces t out t' := by
  refine ⟨?_, fun pieces h t out t' => returns_join_iff h⟩
  intro p q hp hq t
  constructor
  · intro k o t' h
    refine ⟨fun n out t'' => h.append_iff hq, h.runsForever_append_iff hq, ?_⟩
    intro N hk
    rcases hq.returns_or_goesOn t' (N - k) with ⟨j, out, t'', hj, hret⟩ | ⟨t'', hon⟩
    · exact Or.inl ⟨out, t'', hret.endsUnder hj, (h.append hret).endsUnder (by omega)⟩
    · have hall := hon.append h
      rw [Nat.add_sub_cancel' hk] at hall
      exact Or.inr ⟨t'', hon.endsUnder, hall.endsUnder⟩
  · intro N hlate
    rcases hp.returns_or_goesOn t N with ⟨k, o, t', hk, hret⟩ | ⟨t', hon⟩
    · have := hlate k o t' hret
      omega
    · exact ⟨t', hon.endsUnder, (hon.extend hq).endsUnder⟩

/-- A loop behind a program finds the cell that was left to it, and a limit
    may be used up before it begins. -/
theorem execute_in_sequence_loop_behind :
    Balanced "+.".toList ∧ Balanced "[-].".toList ∧
    ReturnsAfter "+." .blank 2 "\x01" ⟨[], 1, []⟩ ∧
    ReturnsAfter ("+." ++ "[-].") .blank 6 "\x01\x00" ⟨[], 0, []⟩ ∧
    ∃ t', EndsUnder 1 "+." .blank (.error (.stepLimit 1)) t' ∧
      EndsUnder 1 ("+." ++ "[-].") .blank (.error (.stepLimit 1)) t' := by
  have hp : Balanced "+.".toList := by decide
  have hq : Balanced "[-].".toList := by decide
  have hfirst : ReturnsAfter "+." .blank 2 "\x01" ⟨[], 1, []⟩ :=
    ⟨_, _, rfl, .step rfl (.step rfl (.refl _)), rfl, rfl, rfl⟩
  have hsecond : ReturnsAfter "[-]." ⟨[], 1, []⟩ 4 "\x00" ⟨[], 0, []⟩ :=
    ⟨_, _, rfl, .step rfl (.step rfl (.step rfl (.step rfl (.refl _)))), rfl, rfl, rfl⟩
  obtain ⟨hrow, hcut⟩ := execute_in_sequence.1 "+." "[-]." hp hq .blank
  obtain ⟨hiff, -, -⟩ := hrow 2 "\x01" ⟨[], 1, []⟩ hfirst
  refine ⟨hp, hq, hfirst, (hiff 6 _ _).mpr ⟨4, "\x00", rfl, rfl, hsecond⟩, hcut 1 ?_⟩
  intro k o t' hret
  obtain ⟨rfl, -, -⟩ := hfirst.unique hret
  decide

end TapeMachine
