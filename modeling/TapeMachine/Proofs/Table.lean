import TapeMachine.Trace
import TapeMachine.Proofs.Numerals
import TapeMachine.Proofs.Summary

/-! # Tables — what the text of a trace shows

    A table is two lines of headings and one line for each row: numbers in
    columns, the character of the step, and some words.  Here the text is
    described column by column, without writing it, and then two things
    are shown: what is written fits the description, and there is only one
    way to read it.

      * `Row.Shows`, `Row.IsTable`: the description of a line and of a
        table.
      * `Row.shows_line`: a line that is written fits it.
      * `Row.Shows.unique`: a line is read in one way, whatever comes
        behind it.  It is cut at the spaces behind its numbers, at the bars
        and at its end.
      * `Row.IsTable.unique`: a table is read in one way, by induction on
        its rows. -/

namespace TapeMachine

/-! ## Hexadecimal digits -/

theorem digitChar_injective {d e : Nat} (hd : d < 16) (he : e < 16)
    (h : Nat.digitChar d = Nat.digitChar e) : d = e := by
  have hread : Text.hexDigit? (Nat.digitChar d) = some d :=
    Text.hexDigit?_eq_some_iff.mpr ⟨hd, Or.inl rfl⟩
  have hread' : Text.hexDigit? (Nat.digitChar e) = some e :=
    Text.hexDigit?_eq_some_iff.mpr ⟨he, Or.inl rfl⟩
  rw [h, hread'] at hread
  exact (Option.some.inj hread).symm

/-- A number is told by its hexadecimal digits. -/
theorem toDigits_injective {n m : Nat} (h : Nat.toDigits 16 n = Nat.toDigits 16 m) : n = m := by
  induction n using Nat.strongRecOn generalizing m with
  | ind n ih =>
      have hpos : ∀ k, 0 < (Nat.toDigits 16 k).length := fun k => Nat.length_toDigits_pos
      rw [Nat.toDigits_eq_if (by decide), Nat.toDigits_eq_if (n := m) (by decide)] at h
      split at h
      · rename_i hn
        split at h
        · rename_i hm
          exact digitChar_injective hn hm (List.cons.inj h).1
        · have hlength := congrArg List.length h
          have := hpos (m / 16)
          simp only [List.length_append, List.length_cons, List.length_nil] at hlength
          omega
      · split at h
        · have hlength := congrArg List.length h
          have := hpos (n / 16)
          simp only [List.length_append, List.length_cons, List.length_nil] at hlength
          omega
        · obtain ⟨hdiv, hlast⟩ := List.append_inj' h rfl
          have hdiv : n / 16 = m / 16 := ih (n / 16) (by omega) hdiv
          have hmod : n % 16 = m % 16 :=
            digitChar_injective (Nat.mod_lt _ (by decide)) (Nat.mod_lt _ (by decide))
              (List.cons.inj hlast).1
          omega

/-- Hexadecimal digits are on one line. -/
theorem newline_notMem_toDigits (n : Nat) : '\n' ∉ Nat.toDigits 16 n := by
  have hdigit : ∀ d < 16, '\n' ≠ Nat.digitChar d := by decide
  induction n using Nat.strongRecOn with
  | ind n ih =>
      rw [Nat.toDigits_eq_if (by decide)]
      split
      · rename_i hn
        intro hmem
        exact hdigit n hn (List.mem_singleton.mp hmem)
      · intro hmem
        rcases List.mem_append.mp hmem with hmem | hmem
        · exact ih (n / 16) (by omega) hmem
        · exact hdigit (n % 16) (Nat.mod_lt _ (by decide)) (List.mem_singleton.mp hmem)

/-! ## Quoted characters -/

namespace Text.Quoted

/-- The characters with a letter of their own, by that letter. -/
def letters : List (Char × Char) :=
  [('0', '\x00'), ('t', '\t'), ('r', '\r'), ('n', '\n'), ('\\', '\\'), ('\'', '\'')]

/-- How a character is spelled between single quotes: behind a backslash
    by its letter or by the digits of its code point, or as it is. -/
inductive Spells (c : Char) : List Char → Prop where
  | letter {l : Char} : letters.lookup l = some c → Spells c ['\\', l]
  | code : c ∉ letters.map Prod.snd → isUnprintable c = true →
      Spells c ('\\' :: 'u' :: '\x7b' :: (Nat.toDigits 16 c.toNat ++ ['\x7d']))
  | plain : c ∉ letters.map Prod.snd → isUnprintable c = false → Spells c [c]

theorem spells_escape (c : Char) : Spells c (escape '\'' c) := by
  unfold escape
  split_ifs with h0 ht hr hn hslash hprint
  · subst h0
    exact .letter (by decide)
  · subst ht
    exact .letter (by decide)
  · subst hr
    exact .letter (by decide)
  · subst hn
    exact .letter (by decide)
  · rcases hslash with rfl | rfl
    · exact .letter (by decide)
    · exact .letter (by decide)
  · exact .code (by simp_all [letters]) hprint
  · exact .plain (by simp_all [letters]) (Bool.eq_false_iff.mpr hprint)

/-- A spelling is that of one character. -/
theorem Spells.unique {c d : Char} {body : List Char} (h : Spells c body) (h' : Spells d body) :
    c = d := by
  cases h with
  | letter hc =>
      cases h' with
      | letter hd => exact Option.some.inj (hc.symm.trans hd)
  | code hc =>
      generalize hbody : '\\' :: 'u' :: '\x7b' :: (Nat.toDigits 16 c.toNat ++ ['\x7d']) = body at h'
      cases h' with
      | letter hd => simp at hbody
      | code hd =>
          simp only [List.cons.injEq, true_and] at hbody
          exact Char.toNat_inj.mp (toDigits_injective (List.append_cancel_right hbody))
      | plain hd => simp at hbody
  | plain hc =>
      cases h' with
      | plain hd => rfl

/-- A spelling is on one line. -/
theorem Spells.newline_notMem {c : Char} {body : List Char} (h : Spells c body) : '\n' ∉ body := by
  cases h with
  | @letter l hc =>
      have hl : '\n' ≠ l := by
        rintro rfl
        cases hc
      simpa using hl
  | code hc => simpa using newline_notMem_toDigits c.toNat
  | plain hc =>
      have hne : '\n' ≠ c := by
        rintro rfl
        exact hc (by decide)
      simpa using hne

end Text.Quoted

/-! ## Words -/

/-- A character that is neither digit nor sign is in no number. -/
theorem notMem_numbers {c : Char} (h : c.isDigit = false ∧ c ≠ '-') :
    (∀ n : Nat, c ∉ (toString n).toList) ∧ ∀ v : Cell, c ∉ (toString v.toInt).toList := by
  have hdigit : ¬ c.isDigit = true := Bool.eq_false_iff.mp h.1
  refine ⟨fun n hmem => hdigit (isDigit_of_mem_natText hmem), ?_⟩
  intro v hmem
  rcases Cell.mem_text hmem with hd | hd
  · exact hdigit hd
  · exact h.2 hd

namespace Action

/-- The words for an action, in a row with the character `c`. -/
def Words (a : Action) (c : Char) (words : String) : Prop :=
  match a with
  | .movedRight offset grew =>
      c = '>' ∧
        words = "Moved cursor to cell " ++ toString offset ++ if grew then " (new cell)" else ""
  | .movedLeft offset => c = '<' ∧ words = "Moved cursor to cell " ++ toString offset
  | .extendedLeft => c = '<' ∧ words = "Extended tape left; cursor on new head"
  | .incremented offset old new =>
      c = '+' ∧ words = "Increment cell[" ++ toString offset ++ "] from " ++ toString old.toInt
        ++ " to " ++ toString new.toInt
  | .decremented offset old new =>
      c = '-' ∧ words = "Decrement cell[" ++ toString offset ++ "] from " ++ toString old.toInt
        ++ " to " ++ toString new.toInt
  | .printed d =>
      c = '.' ∧ ∃ body, Text.Quoted.Spells d body ∧ words = "Output '" ++ String.ofList body ++ "'"
  | .enteredLoop => c = '[' ∧ words = "Loop start (no-op)"
  | .jumpedBack start =>
      c = ']' ∧ words = "Cell != 0; jump back to matching '[' at IP " ++ toString start
  | .leftLoop => c = ']' ∧ words = "Exit loop (cell is 0)"
  | .ignored => c ∉ ['>', '<', '+', '-', '.', '[', ']'] ∧ words = "Ignored"

variable {a a' : Action} {c : Char} {words : String}

/-- Words are on one line. -/
theorem Words.newline_notMem (h : a.Words c words) : '\n' ∉ words.toList := by
  obtain ⟨hnat, hcell⟩ := notMem_numbers (c := '\n') (by decide)
  cases a with
  | movedRight offset grew =>
      obtain ⟨-, rfl⟩ := h
      simp only [String.toList_append, List.mem_append, hnat, or_false]
      cases grew <;> decide
  | printed d =>
      obtain ⟨-, body, hbody, rfl⟩ := h
      simp only [String.toList_append, String.toList_ofList, List.mem_append, hbody.newline_notMem,
        or_false]
      decide
  | movedLeft | incremented | decremented | jumpedBack =>
      obtain ⟨-, rfl⟩ := h
      simp only [String.toList_append, List.mem_append, hnat, hcell, or_false]
      decide
  | extendedLeft | enteredLoop | leftLoop | ignored =>
      obtain ⟨-, rfl⟩ := h
      decide

/-- The words for a change of a cell tell the place and both numbers. -/
theorem change_unique {lead : String} {o o' : Nat} {v v' w w' : Cell}
    (h : lead ++ toString o ++ "] from " ++ toString v.toInt ++ " to " ++ toString w.toInt
      = lead ++ toString o' ++ "] from " ++ toString v'.toInt ++ " to " ++ toString w'.toInt) :
    o = o' ∧ v = v' ∧ w = w' := by
  obtain ⟨hnat, -⟩ := notMem_numbers (c := ']') (by decide)
  obtain ⟨-, hcell⟩ := notMem_numbers (c := ' ') (by decide)
  have hchars := congrArg String.toList h
  simp only [String.toList_append, List.append_assoc, List.append_cancel_left_eq] at hchars
  obtain ⟨hoffset, hchars⟩ := split_unique (hnat o) (hnat o') hchars
  obtain ⟨hold, hnew⟩ := split_unique (hcell v) (hcell v')
    (List.append_cancel_left_eq " from ".toList _ _ ▸ hchars)
  have hnew : (toString w.toInt).toList = (toString w'.toInt).toList :=
    List.append_cancel_left_eq "to ".toList _ _ ▸ hnew
  exact ⟨natText_injective hoffset, Cell.text_injective (String.toList_inj.mp hold),
    Cell.text_injective (String.toList_inj.mp hnew)⟩

theorem number_unique {lead : String} {n m : Nat} (h : lead ++ toString n = lead ++ toString m) :
    n = m := by
  have hchars := congrArg String.toList h
  rw [String.toList_append, String.toList_append, List.append_cancel_left_eq] at hchars
  exact natText_injective hchars

/-- The words for a move tell the place and whether it is new. -/
theorem move_unique {lead : String} {o o' : Nat} {grew grew' : Bool}
    (h : (lead ++ toString o ++ if grew then " (new cell)" else "")
      = lead ++ toString o' ++ if grew' then " (new cell)" else "") :
    o = o' ∧ grew = grew' := by
  obtain ⟨hnat, -⟩ := notMem_numbers (c := ' ') (by decide)
  -- with a space behind it the number ends at a space in either case
  have htail : ∀ b : Bool, (if b then " (new cell)" else "").toList ++ [' ']
      = ' ' :: if b then "(new cell) ".toList else [] := by decide
  have htold : ∀ b b' : Bool, (if b then "(new cell) ".toList else [])
      = (if b' then "(new cell) ".toList else []) → b = b' := by decide
  have hchars := congrArg (·.toList ++ [' ']) h
  simp only [String.toList_append, List.append_assoc, htail, List.append_cancel_left_eq] at hchars
  obtain ⟨hoffset, hrest⟩ := split_unique (hnat o) (hnat o') hchars
  exact ⟨natText_injective hoffset, htold grew grew' hrest⟩

/-- Words tell the action, in a row whose character is known. -/
theorem Words.unique (h : a.Words c words) (h' : a'.Words c words) : a = a' := by
  cases a with
  | movedRight offset grew =>
      obtain ⟨rfl, rfl⟩ := h
      cases a' with
      | movedRight offset' grew' =>
          obtain ⟨rfl, rfl⟩ := move_unique h'.2
          rfl
      | _ => simp [Words] at h'
  | movedLeft offset =>
      obtain ⟨rfl, rfl⟩ := h
      cases a' with
      | movedLeft offset' => rw [number_unique h'.2]
      | extendedLeft => exact absurd (congrArg String.toList h'.2) (by simp)
      | _ => simp [Words] at h'
  | extendedLeft =>
      obtain ⟨rfl, rfl⟩ := h
      cases a' with
      | movedLeft offset' => exact absurd (congrArg String.toList h'.2) (by simp)
      | extendedLeft => rfl
      | _ => simp [Words] at h'
  | incremented offset old new =>
      obtain ⟨rfl, rfl⟩ := h
      cases a' with
      | incremented offset' old' new' =>
          obtain ⟨rfl, rfl, rfl⟩ := change_unique h'.2
          rfl
      | _ => simp [Words] at h'
  | decremented offset old new =>
      obtain ⟨rfl, rfl⟩ := h
      cases a' with
      | decremented offset' old' new' =>
          obtain ⟨rfl, rfl, rfl⟩ := change_unique h'.2
          rfl
      | _ => simp [Words] at h'
  | printed d =>
      obtain ⟨rfl, body, hbody, rfl⟩ := h
      cases a' with
      | printed d' =>
          obtain ⟨-, body', hbody', heq⟩ := h'
          have hchars := congrArg String.toList heq
          simp only [String.toList_append, String.toList_ofList, List.append_assoc,
            List.append_cancel_left_eq, List.append_cancel_right_eq] at hchars
          subst hchars
          rw [hbody.unique hbody']
      | _ => simp [Words] at h'
  | enteredLoop =>
      obtain ⟨rfl, rfl⟩ := h
      cases a' with
      | enteredLoop => rfl
      | _ => simp [Words] at h'
  | jumpedBack start =>
      obtain ⟨rfl, rfl⟩ := h
      cases a' with
      | jumpedBack start' => rw [number_unique h'.2]
      | leftLoop => exact absurd (congrArg String.toList h'.2) (by simp)
      | _ => simp [Words] at h'
  | leftLoop =>
      obtain ⟨rfl, rfl⟩ := h
      cases a' with
      | jumpedBack start' => exact absurd (congrArg String.toList h'.2) (by simp)
      | leftLoop => rfl
      | _ => simp [Words] at h'
  | ignored =>
      obtain ⟨hc, rfl⟩ := h
      cases a' with
      | ignored => rfl
      | _ =>
          obtain ⟨rfl, -⟩ := h'
          exact absurd (by decide) hc

end Action

/-! ## Columns -/

/-- A text in a column: itself and the spaces that it takes to fill the
    width. -/
def InColumn (width : Nat) (text column : List Char) : Prop :=
  ∃ n, column = text ++ List.replicate n ' ' ∧ column.length = max width text.length

theorem toList_pushn (text : String) (c : Char) (n : Nat) :
    (text.pushn c n).toList = text.toList ++ List.replicate n c := by
  rw [String.pushn_eq_repeat_push]
  induction n with
  | zero => exact (List.append_nil _).symm
  | succ n ih => rw [Nat.repeat, String.toList_push, ih, List.append_assoc, List.replicate_succ']

theorem inColumn_pad (width : Nat) (text : String) :
    InColumn width text.toList (Row.pad width text).toList := by
  refine ⟨width - text.length, toList_pushn text ' ' _, ?_⟩
  rw [Row.pad, String.length_toList, String.length_toList, String.length_pushn]
  omega

/-- A column without a space in its text is cut off at the bar behind
    it. -/
theorem InColumn.unique {width : Nat} {text text' column column' rest rest' : List Char}
    (h : InColumn width text column) (h' : InColumn width text' column') (hspace : ' ' ∉ text)
    (hspace' : ' ' ∉ text') (heq : column ++ ' ' :: '|' :: rest = column' ++ ' ' :: '|' :: rest') :
    text = text' ∧ rest = rest' := by
  obtain ⟨n, rfl, -⟩ := h
  obtain ⟨n', rfl, -⟩ := h'
  -- one of the spaces may as well stand in front
  have hfront : ∀ (k : Nat) (cs : List Char),
      List.replicate k ' ' ++ ' ' :: cs = ' ' :: (List.replicate k ' ' ++ cs) := by
    intro k cs
    rw [List.append_cons, ← List.replicate_succ', List.replicate_succ, List.cons_append]
  have hbar : ∀ k, '|' ∉ List.replicate k ' ' := by
    intro k hmem
    exact absurd (List.eq_of_mem_replicate hmem) (by decide)
  rw [List.append_assoc, List.append_assoc, hfront, hfront] at heq
  obtain ⟨htext, hbehind⟩ := split_unique hspace hspace' heq
  exact ⟨htext, (split_unique (hbar n) (hbar n') hbehind).2⟩

/-! ## Rows -/

namespace Row

/-- A line of text shows a row: the number of the step, the place, the
    offset and the cell in columns, the character, and the words for what
    was done. -/
def Shows (row : Row) (line : List Char) : Prop :=
  ∃ step ip offset cell words,
    InColumn 4 (toString row.step).toList step ∧ InColumn 3 (toString row.ip).toList ip ∧
    InColumn 3 (toString row.offset).toList offset ∧
    InColumn 4 (toString row.cell.toInt).toList cell ∧
    row.action.Words row.glyph words ∧
    line = [step, " | ".toList, ip, " | ".toList, offset, " | ".toList, cell, " |  ".toList,
      [row.glyph], "    | ".toList, words.toList, ['\n']].flatten

/-- A row whose words belong to its character is written as a line that
    shows it. -/
theorem shows_line {row : Row} (h : row.action.Words row.glyph row.action.text) :
    row.Shows row.line.toList := by
  refine ⟨_, _, _, _, row.action.text, inColumn_pad _ _, inColumn_pad _ _, inColumn_pad _ _,
    inColumn_pad _ _, h, ?_⟩
  have hglyph : row.glyph.toString.toList = [row.glyph] := String.toList_singleton row.glyph
  have hend : "\n".toList = ['\n'] := by decide
  simp only [line, Cell.text, String.toList_append, hglyph, hend, List.flatten_cons,
    List.flatten_nil, List.append_nil, List.append_assoc]

example : (⟨7, 12, 3, -1, '>', .movedRight 4 true⟩ : Row).line
    = "7    | 12  | 3   | -1   |  >    | Moved cursor to cell 4 (new cell)\n" := by decide

/-- A line is read in one way, whatever comes behind it. -/
theorem Shows.unique {row row' : Row} {text text' rest rest' : List Char} (h : row.Shows text)
    (h' : row'.Shows text') (heq : text ++ rest = text' ++ rest') : row = row' ∧ rest = rest' := by
  obtain ⟨hnat, hcell⟩ := notMem_numbers (c := ' ') (by decide)
  obtain ⟨step, ip, offset, cell, words, hstep, hip, hoffset, hvalue, hwords, rfl⟩ := h
  obtain ⟨step', ip', offset', cell', words', hstep', hip', hoffset', hvalue', hwords', rfl⟩ := h'
  simp only [List.flatten_cons, List.flatten_nil, List.append_assoc] at heq
  obtain ⟨hstep, heq⟩ := hstep.unique hstep' (hnat _) (hnat _) heq
  obtain ⟨hip, heq⟩ := hip.unique hip' (hnat _) (hnat _) (List.cons.inj heq).2
  obtain ⟨hoffset, heq⟩ := hoffset.unique hoffset' (hnat _) (hnat _) (List.cons.inj heq).2
  obtain ⟨hvalue, heq⟩ := hvalue.unique hvalue' (hcell _) (hcell _) (List.cons.inj heq).2
  obtain ⟨hglyph, heq⟩ := List.cons.inj (List.cons.inj (List.cons.inj heq).2).2
  have heq := List.append_cancel_left_eq "    | ".toList _ _ ▸ heq
  obtain ⟨hlast, hrest⟩ :=
    split_unique hwords.newline_notMem hwords'.newline_notMem heq
  rw [← hglyph, ← String.toList_inj.mp hlast] at hwords'
  obtain ⟨_, _, _, _, _, _⟩ := row
  obtain ⟨_, _, _, _, _, _⟩ := row'
  refine ⟨?_, hrest⟩
  rw [Row.mk.injEq]
  exact ⟨natText_injective hstep, natText_injective hip, natText_injective hoffset,
    Cell.text_injective (String.toList_inj.mp hvalue), hglyph, hwords.unique hwords'⟩

/-- A line is not empty. -/
theorem Shows.ne_nil {row : Row} {text : List Char} (h : row.Shows text) : text ≠ [] := by
  obtain ⟨step, ip, offset, cell, words, -, -, -, -, -, rfl⟩ := h
  simp

/-- Lines of text that show rows, one after the other. -/
inductive Lines : List Row → List Char → Prop where
  | nil : Lines [] []
  | cons {row : Row} {rows : List Row} {line text : List Char} :
      row.Shows line → Lines rows text → Lines (row :: rows) (line ++ text)

/-- A text is the table with these rows: two lines of headings and one line
    for each row. -/
def IsTable (rows : List Row) (text : String) : Prop :=
  ∃ body, Lines rows body ∧
    text.toList = ("STEP | IP  | PTR | CELL | INSTR | ACTION\n"
      ++ "-----+-----+-----+------+-------+"
      ++ "------------------------------------------------\n").toList ++ body

/-- Rows are written as lines that show them. -/
theorem lines_of_words {rows : List Row}
    (h : ∀ row ∈ rows, row.action.Words row.glyph row.action.text) :
    Lines rows (rows.flatMap fun row => row.line.toList) := by
  induction rows with
  | nil => exact .nil
  | cons row rows ih =>
      exact .cons (shows_line (h row List.mem_cons_self))
        (ih fun row' hmem => h row' (List.mem_cons_of_mem row hmem))

/-- What is written is a table. -/
theorem isTable_of_words {rows : List Row}
    (h : ∀ row ∈ rows, row.action.Words row.glyph row.action.text) :
    IsTable rows (header ++ String.join (rows.map line)) := by
  refine ⟨_, lines_of_words h, ?_⟩
  rw [String.toList_append, String.toList_join, List.flatMap_map]
  rfl

/-- Lines are read in one way. -/
theorem Lines.unique {rows rows' : List Row} {text : List Char} (h : Lines rows text)
    (h' : Lines rows' text) : rows = rows' := by
  induction h generalizing rows' with
  | nil =>
      generalize hempty : ([] : List Char) = text at h'
      cases h' with
      | nil => rfl
      | cons hline _ => exact absurd (List.append_eq_nil_iff.mp hempty.symm).1 hline.ne_nil
  | @cons row rows line rest hline _ ih =>
      generalize htext : line ++ rest = text at h'
      cases h' with
      | nil => exact absurd (List.append_eq_nil_iff.mp htext).1 hline.ne_nil
      | cons hline' hrest' =>
          obtain ⟨rfl, rfl⟩ := hline.unique hline' htext
          rw [ih hrest']

/-- A table is read in one way. -/
theorem IsTable.unique {rows rows' : List Row} {text : String} (h : IsTable rows text)
    (h' : IsTable rows' text) : rows = rows' := by
  obtain ⟨body, hbody, htext⟩ := h
  obtain ⟨body', hbody', htext'⟩ := h'
  obtain rfl : body = body' := List.append_cancel_left (htext.symm.trans htext')
  exact hbody.unique hbody'

end Row

end TapeMachine
