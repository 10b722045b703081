import TapeMachine.Proofs.Blame
import TapeMachine.Proofs.Control

/-! # Pointing — the caret stands under the character meant

    A fault that knows its place is shown with a window of the code and a
    caret below it.  The place comes from the scan for brackets or from
    the run, and either has just read the character there; so it lies
    within the code, and the window has that character.

      * `Code.run_unobservable`: where a run is given up there is an
        instruction, whoever observes it.
      * `execute_located`: what follows for the faults of an execution.
      * `Caret.getElem?_window`: what the window shows at each place, from
        which the character above the caret is read off.
      * `Caret.points_report`: what is printed, line by line. -/

namespace TapeMachine

/-! ## Places -/

namespace Code

variable {M σ : Type} [Memory M] {code : Code} {control : Control}

/-- Where a run is given up there is an instruction. -/
theorem run_unobservable {observe : Observer M σ} {fuel ip : Nat} {s : State M} {w : σ}
    (h : (code.run control observe fuel s w).halt = .unobservable ip) :
    ∃ i, code[ip]? = some i := by
  rcases code.run_cases control observe fuel s w with
    ⟨hhalt, -⟩ | ⟨n, -, hstop⟩ | ⟨n, s', i, -, hi, -, hhalt⟩
  · rw [h] at hhalt
    cases hhalt
  · rw [h] at hstop
    rcases stop?_cases hstop with ⟨hhalt, -⟩ | ⟨hhalt, -⟩ | ⟨limit, hhalt⟩ <;> cases hhalt
  · rw [h] at hhalt
    obtain rfl : ip = s'.ip := Halt.unobservable.inj hhalt
    exact ⟨i, hi⟩

end Code

/-- If a fault names a place, it lies within the text, except that a table
    without a head is told at place 0.  The place of a bracket has it. -/
def Fault.Located (text : List Char) (headless : Prop) : Fault → Prop
  | .unmatched u => text[u.position]? = some u.bracket.glyph
  | .unwritable ip _ => ip < text.length ∨ headless ∧ ip = 0
  | _ => True

/-- Every fault of an execution is located. -/
theorem execute_located {text : String} {fuel : Nat} {control : Control} {watch : Watch}
    {t : Tape} {e : Execution} {fault : Fault} (h : execute fuel control watch text t = some e)
    (hfault : e.result = .error fault) : fault.Located text.toList (watch.begin = none) := by
  cases hcode : Code.ofText text with
  | error u =>
      simp only [execute, hcode] at h
      obtain rfl := Option.some.inj h
      obtain rfl := Except.error.inj hfault
      exact Code.ofChars_blames hcode
  | ok code =>
      cases hbegin : watch.begin with
      | none =>
          simp only [execute, hcode, hbegin] at h
          obtain rfl := Option.some.inj h
          obtain rfl := Except.error.inj hfault
          exact Or.inr ⟨rfl, rfl⟩
      | some w =>
          simp only [execute, hcode, hbegin] at h
          cases hrun : code.run control Watch.see fuel (.start t) w with
          | mk s w' halt =>
              rw [hrun] at h
              cases halt with
              | unfinished => cases h
              | finished =>
                  obtain rfl := Option.some.inj h
                  cases hfault
              | unobservable ip =>
                  obtain rfl := Option.some.inj h
                  obtain rfl := Except.error.inj hfault
                  obtain ⟨i, hi⟩ := Code.run_unobservable (congrArg Outcome.halt hrun)
                  exact Or.inl (Code.lt_length_of_getElem? hcode hi)
              | _ =>
                  obtain rfl := Option.some.inj h
                  obtain rfl := Except.error.inj hfault
                  trivial

/-! ## Windows -/

namespace Caret

variable {code : List Char} {position : Nat}

/-- The position behind the last character in the window. -/
def stop (code : List Char) (position : Nat) : Nat := min (position + reach + 1) code.length

/-- The window does not end before it begins, as long as the position is not
    further behind the end of the code than the window reaches. -/
theorem first_le_stop_iff : first position ≤ stop code position ↔
    position ≤ code.length + reach := by
  simp only [first, stop, reach]
  omega

theorem length_window : (window code position).length = stop code position - first position := by
  have hstop : stop code position ≤ code.length := Nat.min_le_right _ _
  rw [window, List.length_map, List.length_take, List.length_drop]
  show min (stop code position - first position) (code.length - first position) = _
  omega

theorem length_window_le : (window code position).length ≤ 65 := by
  rw [length_window]
  simp only [first, stop, reach]
  omega

/-- What the window shows. -/
theorem getElem?_window {i : Nat} (hi : i < (window code position).length) :
    (window code position)[i]? = code[first position + i]?.map shown := by
  rw [length_window, stop] at hi
  rw [window, List.getElem?_map, List.getElem?_take_of_lt hi, List.getElem?_drop]

/-- The caret stands within the window. -/
theorem column_lt (h : position < code.length) :
    position - first position < (window code position).length := by
  rw [length_window]
  simp only [first, stop, reach]
  omega

/-- The character above the caret is the one meant. -/
theorem getElem?_column (h : position < code.length) :
    (window code position)[position - first position]? = code[position]?.map shown := by
  have hfirst : first position ≤ position := Nat.sub_le position reach
  rw [getElem?_window (column_lt h), Nat.add_sub_cancel' hfirst]

/-- The window is on one line. -/
theorem newline_notMem_window : '\n' ∉ window code position := by
  intro hmem
  obtain ⟨c, -, hc⟩ := List.mem_map.mp hmem
  unfold shown at hc
  split at hc
  · exact absurd hc (by decide)
  · rename_i hblank
    subst hc
    exact hblank (by decide)

/-- Behind the end of the code there is nothing above the caret. -/
theorem getElem?_column_of_le (h : code.length ≤ position) :
    (window code position)[position - first position]? = none := by
  rw [List.getElem?_eq_none_iff, length_window]
  simp only [first, stop, reach]
  omega

/-- What is printed about a place: a line with the message and the place,
    a line with the window, and a line with a caret in the column of the
    character at the place. -/
def Points (code : List Char) (position : Nat) (message printed : String) : Prop :=
  ∃ above column,
    printed = message ++ " at instruction " ++ toString position ++ "\n"
      ++ String.ofList above ++ "\n"
      ++ String.ofList (List.replicate column ' ' ++ ['^']) ++ "\n" ∧
    above = [' ', ' '] ++ window code position ∧ '\n' ∉ above ∧
    above[column]? = code[position]?.map shown

/-- Every report points at its place. -/
theorem points_report (message text : String) (position : Nat) :
    Points text.toList position message (report message text position) := by
  refine ⟨_, position - first position + 2, ?_, rfl, ?_, ?_⟩
  · rw [← String.toList_inj]
    simp [report, mark, List.replicate_succ]
  · intro hmem
    rcases List.mem_append.mp hmem with hmem | hmem
    · exact absurd hmem (by decide)
    · exact newline_notMem_window hmem
  · show (window text.toList position)[position - first position]? = _
    by_cases h : position < text.toList.length
    · exact getElem?_column h
    · rw [getElem?_column_of_le (Nat.le_of_not_lt h), List.getElem?_eq_none (Nat.le_of_not_lt h)]
      rfl

theorem shown_glyph (b : Bracket) : shown b.glyph = b.glyph := by
  cases b <;> decide

end Caret

theorem Fault.named_eq (program : Option String) (message : String) :
    named program message = program.elim "" (· ++ ": ") ++ message := by
  cases program with
  | none => simp [named]
  | some name => rfl

/-- **The caret points at the fault.**  A fault of an execution that names a
    place names one within the code, unless the head of the table is refused,
    which is told at place 0; and so does every run that its observer gives
    up.  For each place within the code the window has at most 65
    characters, those of the code from 32 before the place on with a space
    for every blank, and the caret stands under the character at the place,
    which for a stray bracket is the bracket named.  What is printed about
    the fault is three lines: the message with the bracket and its place,
    the window, and the caret in the column of the character meant.  The
    length of the window is a difference, and it does not go below zero
    exactly for places up to 32 behind the end. -/
theorem caret_points_at_fault (text : String) :
    let shows := fun c => if Text.isBlank c then ' ' else c
    (∀ fuel control watch t e, execute fuel control watch text t = some e →
      (∀ u, e.result = .error (.unmatched u) →
        u.position < text.length ∧
        ∃ column, Caret.mark u.position = List.replicate column ' ' ++ ['^'] ∧
          (Caret.window text.toList u.position)[column]? = some u.bracket.glyph ∧
          ∀ program, Caret.Points text.toList u.position
            (program.elim "" (· ++ ": ")
              ++ ("Parse error: unmatched bracket '" ++ u.bracket.glyph.toString ++ "'"))
            (Fault.report program text (.unmatched u))) ∧
      ∀ ip reason, e.result = .error (.unwritable ip reason) →
        (ip < text.length ∨ watch.begin = none ∧ ip = 0) ∧
        ∀ program, Caret.Points text.toList ip
          (program.elim "" (· ++ ": ") ++ ("I/O error: " ++ reason))
          (Fault.report program text (.unwritable ip reason))) ∧
    (∀ code, Code.ofText text = .ok code → ∀ (σ : Type) control (observe : Observer Tape σ)
      fuel s w ip, (code.run control observe fuel s w).halt = .unobservable ip →
        ip < text.length) ∧
    (∀ position, position < text.length →
      (Caret.window text.toList position).length ≤ 65 ∧
      (∀ i, i < (Caret.window text.toList position).length →
        (Caret.window text.toList position)[i]? = text.toList[position - 32 + i]?.map shows) ∧
      ∃ column, Caret.mark position = List.replicate column ' ' ++ ['^'] ∧
        (Caret.window text.toList position)[column]? = text.toList[position]?.map shows) ∧
    ∀ position,
      (Caret.window text.toList position).length
        = min (position + Caret.reach + 1) text.length - Caret.first position ∧
      (Caret.first position ≤ min (position + Caret.reach + 1) text.length ↔
        position ≤ text.length + 32) := by
  intro shows
  rw [← String.length_toList]
  refine ⟨?_, ?_, ?_, fun position => ⟨Caret.length_window, Caret.first_le_stop_iff⟩⟩
  · intro fuel control watch t e h
    refine ⟨?_, ?_⟩
    · intro u hu
      have hglyph : text.toList[u.position]? = some u.bracket.glyph := execute_located h hu
      have hlt := (List.getElem?_eq_some_iff.mp hglyph).1
      refine ⟨hlt, _, rfl, ?_, ?_⟩
      · rw [Caret.getElem?_column hlt, hglyph, Option.map_some, Caret.shown_glyph]
      · intro program
        rw [← Fault.named_eq]
        exact Caret.points_report _ text u.position
    · intro ip reason hip
      refine ⟨execute_located h hip, ?_⟩
      intro program
      rw [← Fault.named_eq]
      exact Caret.points_report _ text ip
  · intro code hcode σ control observe fuel s w ip h
    obtain ⟨i, hi⟩ := Code.run_unobservable h
    exact Code.lt_length_of_getElem? hcode hi
  · intro position h
    exact ⟨Caret.length_window_le, fun i hi => Caret.getElem?_window hi, _, rfl,
      Caret.getElem?_column h⟩

/-- A newline and a tab are shown as spaces, and the caret is clipped to
    the window. -/
example : Caret.window "é\n\t[".toList 3 = "é  [".toList ∧ Caret.mark 3 = "   ^".toList ∧
    Caret.window [] 32 = [] ∧ Caret.mark 40 = List.replicate 32 ' ' ++ ['^'] := by decide

end TapeMachine
