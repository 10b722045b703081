import TapeMachine.Code
import Mathlib.Data.List.Infix

/-! # Blocks — programs as trees of characters and loops

    A program whose brackets pair up is a tree: a row of single
    characters and loops, where the body of a loop is again such a row.
    `Block` is the type of these trees, with no way to write down one
    that is ill-formed.

      * `parse_eq_some_iff`: parsing finds the tree of a text, and every
        tree is the only one of its text.
      * `parse_isSome_of_balanced`: every text whose brackets balance has
        a tree.  Balance is said by counting brackets in prefixes.
      * `ofChars_chars`: the text of a tree resolves to the code that is
        read off the tree. -/

namespace TapeMachine

/-- A character that is not a bracket. -/
abbrev IsPlain (c : Char) : Prop := c ≠ '[' ∧ c ≠ ']'

/-- No prefix has more closing than opening brackets, and the whole has
    equally many of both. -/
structure Balanced (text : List Char) : Prop where
  /-- Nothing is closed that was not opened before. -/
  prefixes : ∀ p, p <+: text → p.count ']' ≤ p.count '['
  /-- Nothing is left open. -/
  whole : text.count ']' = text.count '['

instance (text : List Char) : Decidable (Balanced text) :=
  decidable_of_iff
    ((∀ p ∈ text.inits, p.count ']' ≤ p.count '[') ∧ text.count ']' = text.count '[')
    ⟨fun h => ⟨fun p hp => h.1 p ((List.mem_inits p text).mpr hp), h.2⟩,
      fun h => ⟨fun p hp => h.prefixes p ((List.mem_inits p text).mp hp), h.whole⟩⟩

namespace Code

/-- An opening bracket opens a loop. -/
theorem resolve_opening (text : List Char) (pending : List Nat) (done : Code) :
    resolve ('[' :: text) pending done
      = resolve text (done.size :: pending) (done.push .loopStart) := rfl

/-- A closing bracket closes the loop opened last. -/
theorem resolve_closing (text : List Char) (start : Nat) (pending : List Nat) (done : Code) :
    resolve (']' :: text) (start :: pending) done
      = resolve text pending (done.push (.loopEnd start)) := rfl

/-- Any other character leaves the open loops as they are. -/
theorem resolve_plain {c : Char} (hc : IsPlain c) (text : List Char) (pending : List Nat)
    (done : Code) :
    resolve (c :: text) pending done = resolve text pending (done.push (.ofPlain c)) :=
  (if_neg hc.1).trans (if_neg hc.2)

end Code

/-- A program as a tree: a row of characters and loops. -/
inductive Block where
  | nil
  /-- A character other than a bracket, and what follows it. -/
  | plain (c : Char) (h : IsPlain c) (rest : Block)
  /-- A loop, and what follows it. -/
  | loop (body rest : Block)
deriving DecidableEq

namespace Block

/-- The text of a tree. -/
def chars : Block → List Char
  | .nil => []
  | .plain c _ rest => c :: rest.chars
  | .loop body rest => '[' :: body.chars ++ ']' :: rest.chars

/-- The number of characters of a tree. -/
def size : Block → Nat
  | .nil => 0
  | .plain _ _ rest => rest.size + 1
  | .loop body rest => body.size + rest.size + 2

/-- One tree after another. -/
def append : Block → Block → Block
  | .nil, b => b
  | .plain c h rest, b => .plain c h (rest.append b)
  | .loop body rest, b => .loop body (rest.append b)

/-- Where a tree ends that begins with a character. -/
theorem add_size_plain (base : Nat) (c : Char) (h : IsPlain c) (rest : Block) :
    base + (plain c h rest).size = base + 1 + rest.size := by
  rw [size]
  omega

/-- Where a tree ends that begins with a loop. -/
theorem add_size_loop (base : Nat) (body rest : Block) :
    base + (loop body rest).size = base + body.size + 2 + rest.size := by
  rw [size]
  omega

@[simp] theorem chars_append (b b' : Block) :
    (b.append b').chars = b.chars ++ b'.chars := by
  induction b with
  | nil => rfl
  | plain c h rest ih => simp only [append, chars, ih, List.cons_append]
  | loop body rest _ ih => simp only [append, chars, ih, List.cons_append, List.append_assoc]

@[simp] theorem append_nil (b : Block) : b.append .nil = b := by
  induction b with
  | nil => rfl
  | plain c h rest ih => simp only [append, ih]
  | loop body rest _ ih => simp only [append, ih]

/-- The text of a loop with more text behind it. -/
theorem chars_loop_append (body rest : Block) (text : List Char) :
    (loop body rest).chars ++ text
      = '[' :: (body.chars ++ ']' :: (rest.chars ++ text)) := by
  simp only [chars, List.cons_append, List.append_assoc]

/-! ## Parsing

    A text is read from its end.  What has been read is a row of trees,
    the first of them still growing at its front; between two of them
    stands a closing bracket whose partner has not been met. -/

/-- Put one character in front of what has been read. -/
def extend (c : Char) : List Block → Option (List Block)
  | [] => none
  | b :: outer =>
      if hclose : c = ']' then some (.nil :: b :: outer)
      else if hopen : c = '[' then
        match outer with
        | [] => none
        | rest :: outer => some (.loop b rest :: outer)
      else some (.plain c ⟨hopen, hclose⟩ b :: outer)

/-- Read a text from its end. -/
def read : List Char → Option (List Block)
  | [] => some [.nil]
  | c :: text => (read text).bind (extend c)

/-- The tree of a text, if its brackets pair up. -/
def parse (text : List Char) : Option Block :=
  match read text with
  | some [b] => some b
  | _ => none

/-- The text that has been read. -/
def joined : List Block → List Char
  | [] => []
  | [b] => b.chars
  | b :: outer => b.chars ++ ']' :: joined outer

/-- A character other than a bracket goes in front of the first tree. -/
theorem extend_plain {c : Char} (hc : IsPlain c) (b : Block) (outer : List Block) :
    extend c (b :: outer) = some (.plain c hc b :: outer) :=
  (dif_neg hc.2).trans (dif_neg hc.1)

/-- Putting a character in front puts it in front of the text. -/
theorem joined_extend {c : Char} {bs bs' : List Block} (h : extend c bs = some bs') :
    joined bs' = c :: joined bs := by
  cases bs with
  | nil => exact nomatch h
  | cons b outer =>
      by_cases hclose : c = ']'
      · rw [hclose] at h ⊢
        obtain rfl := Option.some.inj h
        rfl
      · by_cases hopen : c = '['
        · rw [hopen] at h ⊢
          -- a loop takes up the first two trees
          cases outer with
          | nil => exact nomatch h
          | cons rest outer =>
              obtain rfl := Option.some.inj h
              cases outer with
              | nil => rfl
              | cons b' outer => simp only [joined, chars, List.cons_append, List.append_assoc]
        · rw [extend_plain ⟨hopen, hclose⟩] at h
          obtain rfl := Option.some.inj h
          cases outer with
          | nil => rfl
          | cons b' outer => rfl

/-- What has been read is the text. -/
theorem joined_read {text : List Char} {bs : List Block} (h : read text = some bs) :
    joined bs = text := by
  induction text generalizing bs with
  | nil =>
      obtain rfl := Option.some.inj h
      rfl
  | cons c text ih =>
      obtain ⟨bs₀, h0, hext⟩ := Option.bind_eq_some_iff.mp h
      rw [joined_extend hext, ih h0]

/-- Reading the text of a tree puts the tree in front. -/
theorem read_chars_append (b : Block) {text : List Char} {b₀ : Block} {outer : List Block}
    (h : read text = some (b₀ :: outer)) :
    read (b.chars ++ text) = some (b.append b₀ :: outer) := by
  induction b generalizing text b₀ outer with
  | nil => exact h
  | plain c hc rest ih =>
      show (read (rest.chars ++ text)).bind (extend c) = _
      rw [ih h, Option.bind_some, extend_plain hc]
      rfl
  | loop body rest ihb ihr =>
      have hclose : read (']' :: (rest.chars ++ text)) = some (.nil :: rest.append b₀ :: outer) := by
        show (read (rest.chars ++ text)).bind (extend ']') = _
        rw [ihr h]
        rfl
      have hbody := ihb hclose
      rw [append_nil] at hbody
      rw [chars_loop_append]
      show (read (body.chars ++ ']' :: (rest.chars ++ text))).bind (extend '[') = _
      rw [hbody]
      rfl

/-- Parsing finds a tree exactly if the text is the tree's text. -/
theorem parse_eq_some_iff {text : List Char} {b : Block} :
    parse text = some b ↔ b.chars = text := by
  constructor
  · intro h
    unfold parse at h
    split at h
    · rename_i b' hread
      obtain rfl := Option.some.inj h
      exact joined_read hread
    · exact nomatch h
  · rintro rfl
    have hread : read (b.chars ++ []) = some [b.append .nil] := read_chars_append b rfl
    rw [List.append_nil, append_nil] at hread
    unfold parse
    rw [hread]

/-- A text has at most one tree. -/
theorem chars_injective {b b' : Block} (h : b.chars = b'.chars) : b = b' := by
  have hb := parse_eq_some_iff.mpr h
  have hb' := parse_eq_some_iff.mpr (rfl : b'.chars = b'.chars)
  exact Option.some.inj (hb.symm.trans hb')

/-! ## Balance -/

/-- A text can be read if no part at its end has more opening than
    closing brackets; each closing bracket without partner leaves one
    more tree. -/
theorem read_of_suffixes {text : List Char}
    (h : ∀ s, s <:+ text → s.count '[' ≤ s.count ']') :
    ∃ bs, read text = some bs ∧ bs.length + text.count '[' = text.count ']' + 1 := by
  induction text with
  | nil => exact ⟨[.nil], rfl, rfl⟩
  | cons c text ih =>
      have hcount := h (c :: text) (List.suffix_refl _)
      obtain ⟨bs, hread, hlen⟩ := ih (fun s hs => h s (hs.trans (List.suffix_cons c text)))
      have hstep : read (c :: text) = extend c bs := by
        show (read text).bind (extend c) = extend c bs
        rw [hread]
        rfl
      rw [hstep]
      cases bs with
      | nil =>
          have := h text (List.suffix_cons c text)
          simp only [List.length_nil] at hlen
          omega
      | cons b outer =>
          simp only [List.length_cons] at hlen
          by_cases hclose : c = ']'
          · subst hclose
            refine ⟨.nil :: b :: outer, rfl, ?_⟩
            rw [List.count_cons_self, List.count_cons_of_ne (by decide)]
            simp only [List.length_cons]
            omega
          · by_cases hopen : c = '['
            · subst hopen
              rw [List.count_cons_self, List.count_cons_of_ne (by decide)] at hcount ⊢
              -- the count of brackets leaves a second tree for the loop
              cases outer with
              | nil =>
                  simp only [List.length_nil] at hlen
                  omega
              | cons rest outer =>
                  refine ⟨.loop b rest :: outer, rfl, ?_⟩
                  simp only [List.length_cons] at hlen ⊢
                  omega
            · refine ⟨_, extend_plain ⟨hopen, hclose⟩ b outer, ?_⟩
              rw [List.count_cons_of_ne hopen, List.count_cons_of_ne hclose]
              exact hlen

/-- Counted from the end, the brackets of a balanced text balance too. -/
theorem suffixes_of_balanced {text : List Char} (h : Balanced text) :
    ∀ s, s <:+ text → s.count '[' ≤ s.count ']' := by
  rintro s ⟨p, rfl⟩
  have hp := h.prefixes p (List.prefix_append p s)
  have hw := h.whole
  rw [List.count_append, List.count_append] at hw
  omega

/-- A balanced text has a tree. -/
theorem parse_isSome_of_balanced {text : List Char} (h : Balanced text) :
    ∃ b, parse text = some b := by
  obtain ⟨bs, hread, hlen⟩ := read_of_suffixes (suffixes_of_balanced h)
  have hone : bs.length = 1 := by
    have := h.whole
    omega
  obtain ⟨b, rfl⟩ := List.length_eq_one_iff.mp hone
  refine ⟨b, ?_⟩
  unfold parse
  rw [hread]

/-! ## Code -/

/-- The code of a tree whose text begins at position `base`. -/
def code : Block → (base : Nat) → List Instr
  | .nil, _ => []
  | .plain c _ rest, base => .ofPlain c :: rest.code (base + 1)
  | .loop body rest, base =>
      .loopStart :: body.code (base + 1)
        ++ .loopEnd base :: rest.code (base + body.size + 2)

@[simp] theorem length_code (b : Block) (base : Nat) : (b.code base).length = b.size := by
  induction b generalizing base with
  | nil => rfl
  | plain c h rest ih => simp only [code, size, List.length_cons, ih]
  | loop body rest ihb ihr =>
      simp only [code, size, List.cons_append, List.length_cons, List.length_append, ihb, ihr]
      omega

/-- Resolving the text of a tree appends the tree's code and leaves the
    open loops as they were. -/
theorem resolve_chars_append (b : Block) (text : List Char) (pending : List Nat) (done : Code) :
    Code.resolve (b.chars ++ text) pending done
      = Code.resolve text pending (done ++ (b.code done.size).toArray) := by
  induction b generalizing text pending done with
  | nil => simp only [chars, code, List.nil_append, Array.append_empty]
  | plain c hc rest ih =>
      show Code.resolve (c :: (rest.chars ++ text)) pending done = _
      rw [Code.resolve_plain hc, ih]
      congr 1
      simp [code]
  | loop body rest ihb ihr =>
      rw [chars_loop_append, Code.resolve_opening, ihb, Code.resolve_closing, ihr]
      congr 1
      -- the rest starts after both brackets and the body
      have hsize : ((done.push .loopStart
          ++ (body.code (done.push .loopStart).size).toArray).push (.loopEnd done.size)).size
          = done.size + body.size + 2 := by
        simp only [Array.size_push, Array.size_append, List.size_toArray, length_code]
        omega
      rw [hsize]
      simp [code]

/-- The text of a tree resolves to the code of the tree. -/
theorem ofChars_chars (b : Block) : Code.ofChars b.chars = .ok (b.code 0).toArray := by
  have h := resolve_chars_append b [] [] #[]
  rw [List.append_nil] at h
  rw [Code.ofChars, h]
  simp [Code.resolve]

/-- The code of a tree ends where its text ends. -/
theorem getElem?_code_size (b : Block) : (b.code 0).toArray[b.size]? = none := by
  rw [List.getElem?_toArray]
  exact List.getElem?_eq_none (Nat.le_of_eq (length_code b 0))

/-! ## Places -/

/-- The code holds the code of a tree at position `base`. -/
def At (code : Code) : (base : Nat) → Block → Prop
  | _, .nil => True
  | base, .plain c _ rest =>
      code[base]? = some (.ofPlain c) ∧ At code (base + 1) rest
  | base, .loop body rest =>
      code[base]? = some .loopStart ∧ At code (base + 1) body ∧
        code[base + 1 + body.size]? = some (.loopEnd base) ∧
        At code (base + body.size + 2) rest

/-- Code that agrees with the code of a tree from a position on holds the
    tree there. -/
theorem at_of_getElem? {code : Code} (b : Block) (base : Nat)
    (h : ∀ j i, (b.code base)[j]? = some i → code[base + j]? = some i) :
    At code base b := by
  induction b generalizing base with
  | nil => trivial
  | plain c hc rest ih =>
      refine ⟨h 0 _ rfl, ih (base + 1) ?_⟩
      intro j i hj
      have := h (j + 1) i hj
      rwa [show base + (j + 1) = base + 1 + j from by omega] at this
  | loop body rest ihb ihr =>
      have hbody : ∀ j, j < body.size →
          ((loop body rest).code base)[j + 1]? = (body.code (base + 1))[j]? := by
        intro j hj
        show (body.code (base + 1) ++ .loopEnd base :: _)[j]? = _
        rw [List.getElem?_append_left (by simpa using hj)]
      have hrest : ∀ j, ((loop body rest).code base)[body.size + 1 + j]?
          = (Instr.loopEnd base :: rest.code (base + body.size + 2))[j]? := by
        intro j
        rw [show body.size + 1 + j = body.size + j + 1 from by omega]
        show (body.code (base + 1) ++ .loopEnd base :: _)[body.size + j]? = _
        rw [List.getElem?_append_right (by simp), length_code]
        congr 1
        omega
      refine ⟨h 0 _ rfl, ihb (base + 1) ?_, ?_, ihr _ ?_⟩
      · intro j i hj
        have hlt : j < body.size := by
          have := (List.getElem?_eq_some_iff.mp hj).1
          rwa [length_code] at this
        have := h (j + 1) i ((hbody j hlt).trans hj)
        rwa [show base + (j + 1) = base + 1 + j from by omega] at this
      · have := h (body.size + 1 + 0) _ (hrest 0)
        rwa [show base + (body.size + 1 + 0) = base + 1 + body.size from by omega] at this
      · intro j i hj
        have := h (body.size + 1 + (j + 1)) i ((hrest (j + 1)).trans hj)
        rwa [show base + (body.size + 1 + (j + 1)) = base + body.size + 2 + j from by omega]
          at this

/-- The code of a tree holds the tree at its beginning. -/
theorem at_zero (b : Block) : At (b.code 0).toArray 0 b := by
  refine at_of_getElem? b 0 ?_
  intro j i hj
  rw [Nat.zero_add, List.getElem?_toArray]
  exact hj

end Block

end TapeMachine
