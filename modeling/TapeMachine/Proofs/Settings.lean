import TapeMachine.Settings
import Mathlib.Data.List.TakeWhile

/-! # Settings — colours written down are read back

    A table of colours is written as a document with one line for each
    entry.  Reading the document gives the table back, as long as no key
    occurs twice, every key is bare and every text can stand between
    quotes as it is.

      * `Toml.IsBare.key?`, `Toml.line?_entry`: what is read of one line.
      * `Toml.readFrom_entries`: the lines below one header, by induction on
        the entries with the lines read so far general.
      * `Toml.addLines_entries`: a line with a new key goes to the end of
        its table. -/

namespace TapeMachine

namespace Toml

/-! ## Characters -/

/-- A bare key does not hold any character that means something else. -/
theorem isBareKey_ne {c x : Char} (h : isBareKey c = true) (hx : isBareKey x = false) : c ≠ x := by
  rintro rfl
  rw [h] at hx
  cases hx

theorem cons_ne_of_isBareKey {c x : Char} (h : isBareKey c = true) (hx : isBareKey x = false)
    {cs cs' : List Char} : c :: cs ≠ x :: cs' := by
  intro heq
  exact isBareKey_ne h hx (List.cons.inj heq).1

/-- May a character stand between double quotes as it is? -/
def isQuotable (c : Char) : Bool := isPlain c && c != '"' && c != '\\'

/-- Without carriage returns there is nothing to unify. -/
theorem unifyFrom_eq {cs : List Char} (h : '\r' ∉ cs) (done : List Char) :
    unifyFrom done cs = some (done.reverse ++ cs) := by
  fun_induction unifyFrom done cs with
  | case1 done => rw [List.append_nil]
  | case2 done rest ih => exact absurd List.mem_cons_self h
  | case3 done rest hnot => exact absurd List.mem_cons_self h
  | case4 done c rest hnot hc ih =>
      rw [ih fun hmem => h (List.mem_cons_of_mem c hmem), List.reverse_cons, List.append_assoc,
        List.singleton_append]

theorem skipGaps_cons {c : Char} (h : isGap c = false) (cs : List Char) :
    skipGaps (c :: cs) = c :: cs := by
  refine List.dropWhile_cons_of_neg ?_
  rw [h]
  exact Bool.false_ne_true

/-! ## Keys -/

/-- The characters of a bare key. -/
structure IsBare (key : List Char) : Prop where
  ne_nil : key ≠ []
  isBareKey : ∀ c ∈ key, isBareKey c = true

namespace IsBare

variable {key rest : List Char} {x : Char}

theorem exists_cons (h : IsBare key) : ∃ c more, key = c :: more ∧ Toml.isBareKey c = true := by
  obtain ⟨c, more, rfl⟩ := List.exists_cons_of_ne_nil h.ne_nil
  exact ⟨c, more, rfl, h.isBareKey c List.mem_cons_self⟩

/-- A bare key is read up to the first character it cannot hold. -/
theorem simpleKey? (h : IsBare key) (hx : Toml.isBareKey x = false) :
    Toml.simpleKey? (key ++ x :: rest) = some (String.ofList key, x :: rest) := by
  have hstop : ¬ Toml.isBareKey x = true := by
    rw [hx]
    exact Bool.false_ne_true
  have htake : (key ++ x :: rest).takeWhile Toml.isBareKey = key := by
    rw [List.takeWhile_append_of_pos h.isBareKey, List.takeWhile_cons_of_neg hstop, List.append_nil]
  have hdrop : (key ++ x :: rest).dropWhile Toml.isBareKey = x :: rest := by
    rw [List.dropWhile_append_of_pos h.isBareKey, List.dropWhile_cons_of_neg hstop]
  obtain ⟨c, more, rfl, hc⟩ := h.exists_cons
  unfold Toml.simpleKey?
  split
  · rename_i heq
    exact absurd heq (cons_ne_of_isBareKey hc (by decide))
  · rename_i heq
    exact absurd heq (cons_ne_of_isBareKey hc (by decide))
  · simp only [htake, hdrop, List.isEmpty_cons, Bool.false_eq_true, if_false]

theorem skipGaps (h : IsBare key) : Toml.skipGaps (key ++ rest) = key ++ rest := by
  obtain ⟨c, more, rfl, hc⟩ := h.exists_cons
  refine skipGaps_cons ?_ _
  have hspace : c ≠ ' ' := isBareKey_ne hc (by decide)
  have htab : c ≠ '\t' := isBareKey_ne hc (by decide)
  simp [isGap, hspace, htab]

/-- A bare key without a dot behind it is a whole key. -/
theorem key? (h : IsBare key) (hx : Toml.isBareKey x = false) {y : Char} {after : List Char}
    (hafter : Toml.skipGaps (x :: rest) = y :: after) (hy : y ≠ '.') :
    Toml.key? (key ++ x :: rest) = some (⟨[], String.ofList key⟩, y :: after) := by
  have hkeys : ∀ fuel, keysFrom (fuel + 1) [] (key ++ x :: rest)
      = some ([String.ofList key], y :: after) := by
    intro fuel
    simp only [keysFrom, h.skipGaps, h.simpleKey? hx, hafter]
    split
    · rename_i heq
      exact absurd (List.cons.inj heq).1 hy
    · rfl
  unfold Toml.key?
  rw [hkeys]
  rfl

end IsBare

/-! ## Lines -/

/-- A string between quotes is read up to the closing quote. -/
theorem basicFrom_eq {cs : List Char} (h : ∀ c ∈ cs, isQuotable c = true) (done rest : List Char) :
    basicFrom .between done (cs ++ '"' :: rest)
      = some (String.ofList (done.reverse ++ cs), rest) := by
  induction cs generalizing done with
  | nil =>
      rw [List.nil_append, basicFrom, if_pos rfl, if_pos rfl, List.append_nil]
  | cons c cs ih =>
      have hc := h c List.mem_cons_self
      simp only [isQuotable, Bool.and_eq_true, bne_iff_ne] at hc
      obtain ⟨⟨hplain, hquote⟩, hslash⟩ := hc
      rw [List.cons_append, basicFrom, if_pos rfl, if_neg hquote, if_neg hslash, if_pos hplain,
        ih fun c' hmem => h c' (List.mem_cons_of_mem c hmem), List.reverse_cons, List.append_assoc,
        List.singleton_append]

/-- One line of a table: a bare key and a text between quotes. -/
def entryChars (entry : String × String) : List Char :=
  entry.1.toList ++ ' ' :: '=' :: ' ' :: '"' :: (entry.2.toList ++ ['"', '\n'])

/-- An entry that can be written as a line. -/
structure Writable (entry : String × String) : Prop where
  bare : IsBare entry.1.toList
  quotable : ∀ c ∈ entry.2.toList, isQuotable c = true

variable {entry : String × String}

/-- What a line says. -/
def entryLine (entry : String × String) : Key × Value := (⟨[], entry.1⟩, .string entry.2)

/-- A text between quotes is not taken for one between triple quotes. -/
theorem string?_quoted {cs : List Char} (h : ∀ c ∈ cs, isQuotable c = true) (rest : List Char) :
    string? ('"' :: (cs ++ '"' :: '\n' :: rest)) = some (String.ofList cs, '\n' :: rest) := by
  have hbasic := basicFrom_eq h [] ('\n' :: rest)
  cases cs with
  | nil => exact hbasic
  | cons c cs =>
      have hc : c ≠ '"' := by
        rintro rfl
        exact absurd (h '"' List.mem_cons_self) (by decide)
      unfold string?
      split
      · rename_i heq
        exact absurd (List.cons.inj (List.cons.inj heq).2).1 hc
      · rename_i heq
        exact absurd (List.cons.inj heq).1 (by decide)
      · rename_i heq
        rw [← (List.cons.inj heq).2]
        exact hbasic
      · rename_i heq
        exact absurd (List.cons.inj heq).1 (by decide)
      · rename_i hquote _
        exact absurd rfl (hquote _)

theorem value?_quoted {cs : List Char} (h : ∀ c ∈ cs, isQuotable c = true) (fuel depth : Nat)
    (rest : List Char) :
    value? (fuel + 1) depth ('"' :: (cs ++ '"' :: '\n' :: rest))
      = some (.string (String.ofList cs), '\n' :: rest) := by
  show (string? ('"' :: (cs ++ '"' :: '\n' :: rest))).map
    (fun read => (Value.string read.1, read.2)) = _
  rw [string?_quoted h]
  rfl

theorem line?_entry (h : Writable entry) (rest : List Char) :
    line? (entryChars entry ++ rest) = some (entryLine entry, rest) := by
  have hkey : key? (entryChars entry ++ rest)
      = some (⟨[], entry.1⟩, '=' :: ' ' :: '"' :: (entry.2.toList ++ '"' :: '\n' :: rest)) := by
    have hbare : key? (entry.1.toList
          ++ ' ' :: '=' :: ' ' :: '"' :: (entry.2.toList ++ '"' :: '\n' :: rest))
        = some (⟨[], String.ofList entry.1.toList⟩,
            '=' :: ' ' :: '"' :: (entry.2.toList ++ '"' :: '\n' :: rest)) :=
      h.bare.key? (by decide) rfl (by decide)
    rw [String.ofList_toList] at hbare
    simpa [entryChars] using hbare
  have hvalue := value?_quoted h.quotable
    (2 * (' ' :: '"' :: (entry.2.toList ++ '"' :: '\n' :: rest)).length + 1) 0 rest
  have hgap : skipGaps (' ' :: '"' :: (entry.2.toList ++ '"' :: '\n' :: rest))
      = '"' :: (entry.2.toList ++ '"' :: '\n' :: rest) := rfl
  have hend : endLine ('\n' :: rest) = some rest := rfl
  rw [String.ofList_toList] at hvalue
  simp only [line?, hkey, hgap, hvalue, hend, Option.map_some, entryLine]

/-! ## Sections -/

theorem header?_bare {name : List Char} (h : IsBare name) (rest : List Char) :
    header? ('[' :: (name ++ ']' :: '\n' :: rest))
      = some (⟨⟨[], String.ofList name⟩, false, []⟩, rest) := by
  have hkey : key? (name ++ ']' :: '\n' :: rest)
      = some (⟨[], String.ofList name⟩, ']' :: '\n' :: rest) :=
    h.key? (by decide) rfl (by decide)
  have hend : endLine ('\n' :: rest) = some rest := rfl
  obtain ⟨c, more, rfl, hc⟩ := h.exists_cons
  unfold header?
  split
  · rename_i heq
    exact absurd (List.cons.inj heq).2 (cons_ne_of_isBareKey hc (by decide))
  · rename_i heq
    rw [← (List.cons.inj heq).2, hkey]
    simp only [hend, Option.map_some]
  · rename_i hnot
    exact absurd rfl (hnot _)

/-- A line is added to what was read before. -/
theorem readFrom_entry (h : Writable entry) (fuel : Nat) (draft : Draft) (rest : List Char) :
    readFrom (fuel + 1) draft (entryChars entry ++ rest)
      = readFrom fuel (draft.addLine (entryLine entry)) rest := by
  have hline := line?_entry h rest
  obtain ⟨c, more, hkey, hc⟩ := h.bare.exists_cons
  have hchars : entryChars entry ++ rest
      = entry.1.toList ++ (' ' :: '=' :: ' ' :: '"' :: (entry.2.toList ++ ['"', '\n']) ++ rest) :=
    List.append_assoc _ _ _
  have hgaps : skipGaps (entryChars entry ++ rest) = entryChars entry ++ rest := by
    rw [hchars]
    exact h.bare.skipGaps
  rw [readFrom, hgaps]
  rw [hchars, hkey] at hline ⊢
  split
  · rename_i heq
    cases heq
  · rename_i heq
    exact absurd heq (cons_ne_of_isBareKey hc (by decide))
  · rename_i heq
    exact absurd heq (cons_ne_of_isBareKey hc (by decide))
  · rename_i heq
    exact absurd heq (cons_ne_of_isBareKey hc (by decide))
  · simp only [hline]

/-- The lines below a header are read one after the other. -/
theorem readFrom_entries {entries : List (String × String)} (h : ∀ e ∈ entries, Writable e)
    {fuel : Nat} (hfuel : entries.length < fuel) (s : Section) :
    readFrom fuel { sections := [s] } (entries.flatMap entryChars)
      = some { sections := [{ s with lines := (entries.map entryLine).reverse ++ s.lines }] } := by
  induction entries generalizing fuel s with
  | nil =>
      obtain ⟨k, rfl⟩ : ∃ k, fuel = k + 1 := ⟨fuel - 1, by omega⟩
      rfl
  | cons e entries ih =>
      obtain ⟨k, rfl⟩ : ∃ k, fuel = k + 1 := ⟨fuel - 1, by omega⟩
      have hlt : entries.length < k := Nat.lt_of_succ_lt_succ hfuel
      rw [List.flatMap_cons, readFrom_entry (h e List.mem_cons_self)]
      show readFrom k { sections := [{ s with lines := entryLine e :: s.lines }] } _ = _
      rw [ih (fun e' hmem => h e' (List.mem_cons_of_mem e hmem)) hlt, List.map_cons,
        List.reverse_cons, List.append_assoc, List.singleton_append]

/-! ## Tables -/

/-- A new key goes to the end of its table. -/
theorem put_of_new {entries : Entries} {key : String} (h : ∀ e ∈ entries, e.1 ≠ key) (v : Value) :
    entries.put key v = entries ++ [(key, v)] := by
  induction entries with
  | nil => rfl
  | cons e entries ih =>
      rw [Entries.put, if_neg (h e List.mem_cons_self),
        ih fun e' hmem => h e' (List.mem_cons_of_mem e hmem)]
      rfl

/-- Lines with new keys go to the end of their table, one after the
    other. -/
theorem addLines_entries {entries : List (String × String)} (done : Entries)
    (hnodup : (entries.map Prod.fst).Nodup)
    (hnew : ∀ e ∈ entries, ∀ e' ∈ done, e'.1 ≠ e.1) :
    addLines done (entries.map entryLine)
      = some (done ++ entries.map fun e => (e.1, .string e.2)) := by
  induction entries generalizing done with
  | nil => exact congrArg some (List.append_nil done).symm
  | cons e entries ih =>
      obtain ⟨hfirst, hnodup⟩ := List.nodup_cons.mp hnodup
      have hget : done.get? e.1 = none := by
        refine List.lookup_eq_none_iff.mpr ?_
        intro e' hmem
        exact bne_iff_ne.mpr (hnew e List.mem_cons_self e' hmem).symm
      have hadd : done.add [] e.1 (.string e.2) = some (done ++ [(e.1, .string e.2)]) := by
        simp only [Entries.add, Entries.change, Entries.addNew, hget]
        rw [put_of_new (hnew e List.mem_cons_self)]
        rfl
      show (done.add [] e.1 (.string e.2)).bind (addLines · (entries.map entryLine)) = _
      rw [hadd, Option.bind_some, ih _ hnodup]
      · rw [List.append_assoc]
        rfl
      · intro e' hmem e'' hmem'
        rcases List.mem_append.mp hmem' with hdone | hlast
        · exact hnew e' (List.mem_cons_of_mem e hmem) e'' hdone
        · rw [List.mem_singleton.mp hlast]
          rintro heq
          exact hfirst (heq ▸ List.mem_map_of_mem hmem)

/-! ## Documents -/

variable {entries : List (String × String)}

/-- The lines of entries have no carriage return. -/
theorem return_notMem_entries (h : ∀ e ∈ entries, Writable e) :
    '\r' ∉ entries.flatMap entryChars := by
  rw [List.mem_flatMap]
  rintro ⟨e, hmem, hreturn⟩
  have hplain : ∀ cs : List Char, (∀ c ∈ cs, isQuotable c = true) → '\r' ∉ cs :=
    fun cs hcs hmem => absurd (hcs _ hmem) (by decide)
  have hbare : '\r' ∉ e.1.toList :=
    fun hmem' => absurd ((h e hmem).bare.isBareKey _ hmem') (by decide)
  have htext := hplain _ (h e hmem).quotable
  simp [entryChars, hbare, htext] at hreturn

/-- Every entry takes up some characters. -/
theorem length_le_entries (entries : List (String × String)) :
    entries.length ≤ (entries.flatMap entryChars).length := by
  induction entries with
  | nil => exact Nat.le_refl _
  | cons e entries ih =>
      simp only [List.flatMap_cons, List.length_append, List.length_cons, entryChars]
      omega

/-- A single section is gathered into a single table. -/
theorem gather_section {name : String} {lines : List (Key × Value)} {inner : Entries}
    (h : addLines [] lines = some inner) :
    Draft.gather { sections := [⟨⟨[], name⟩, false, lines.reverse⟩] }
      = some [(name, .table .header inner)] := by
  have hinstall : Section.addTo [] ⟨⟨[], name⟩, false, lines.reverse.reverse⟩
      = some [(name, .table .header inner)] := by
    rw [List.reverse_reverse]
    show (addLines [] lines).map _ = _
    rw [h]
    rfl
  show (Section.addTo [] ⟨⟨[], name⟩, false, lines.reverse.reverse⟩).bind some = _
  rw [hinstall]
  rfl

/-- A header and the lines below it are read as one table. -/
theorem parse_section {name : List Char} (hname : IsBare name) (h : ∀ e ∈ entries, Writable e)
    (hnodup : (entries.map Prod.fst).Nodup) :
    parse (String.ofList ('[' :: (name ++ ']' :: '\n' :: entries.flatMap entryChars)))
      = some [(String.ofList name, .table .header (entries.map fun e => (e.1, .string e.2)))] := by
  have hreturn : '\r' ∉ '[' :: (name ++ ']' :: '\n' :: entries.flatMap entryChars) := by
    have hbare : '\r' ∉ name := fun hmem => absurd (hname.isBareKey _ hmem) (by decide)
    simp [hbare, return_notMem_entries h]
  have hunify : unifyLineEnds
        (dropMark ('[' :: (name ++ ']' :: '\n' :: entries.flatMap entryChars)))
      = some ('[' :: (name ++ ']' :: '\n' :: entries.flatMap entryChars)) :=
    unifyFrom_eq hreturn []
  have hfuel : entries.length
      < ('[' :: (name ++ ']' :: '\n' :: entries.flatMap entryChars)).length := by
    have := length_le_entries entries
    simp only [List.length_cons, List.length_append]
    omega
  have hread : ∀ fuel, entries.length < fuel →
      readFrom (fuel + 1) {} ('[' :: (name ++ ']' :: '\n' :: entries.flatMap entryChars))
        = some { sections := [⟨⟨[], String.ofList name⟩, false,
            (entries.map entryLine).reverse⟩] } := by
    intro fuel hlt
    have hgaps : skipGaps ('[' :: (name ++ ']' :: '\n' :: entries.flatMap entryChars))
        = '[' :: (name ++ ']' :: '\n' :: entries.flatMap entryChars) :=
      skipGaps_cons (by decide) _
    simp only [readFrom, hgaps, header?_bare hname, readFrom_entries h hlt, List.append_nil]
  have hlines := addLines_entries [] hnodup (fun e _ e' hmem => absurd hmem List.not_mem_nil)
  unfold parse
  rw [String.toList_ofList, hunify]
  simp only [hread _ hfuel, Option.bind_some]
  exact gather_section hlines

end Toml

namespace Settings

open Toml

/-- A table of colours as a document. -/
def document (colours : List (String × String)) : String :=
  String.ofList ('[' :: ("colors".toList ++ ']' :: '\n' :: colours.flatMap entryChars))

/-- The texts of a table of colours. -/
theorem mapM_text? (colours : List (String × String)) :
    (colours.map fun e => (e.1, Value.string e.2)).mapM
        (fun entry : String × Value => (text? entry.2).map fun text => (entry.1, text))
      = some colours := by
  induction colours with
  | nil => rfl
  | cons e colours ih =>
      rw [List.map_cons, List.mapM_cons, ih]
      rfl

/-- Colours that are written down are read back. -/
theorem parse_document {colours : List (String × String)} (h : ∀ e ∈ colours, Writable e)
    (hnodup : (colours.map Prod.fst).Nodup) :
    Settings.parse (document colours) = some { colours } := by
  have hname : IsBare "colors".toList := ⟨by decide, List.all_eq_true.mp (by decide)⟩
  have hroot := parse_section hname h hnodup
  rw [String.ofList_toList] at hroot
  have hcolours : readColours {} (.table .header (colours.map fun e => (e.1, .string e.2)))
      = some { colours } := by
    simp only [readColours, mapM_text?, Option.map_some]
  unfold Settings.parse document
  rw [hroot]
  exact hcolours

end Settings

end TapeMachine
