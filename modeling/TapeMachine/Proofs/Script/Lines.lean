import TapeMachine.Proofs.Comments
import TapeMachine.Script
import Mathlib.Data.List.TakeWhile

/-! # Lines of scripts — what cutting a text leaves of it

    A script is cut into lines before it is understood, and a carriage
    return at the end of a line is lost on the way.  Neither matters to
    what a line means: whether it is a meta command, and what it does as
    a program.

      * `Text.lines_unlines`: cutting finds the lines that were put
        together, but for carriage returns.
      * `MetaCommand.ofText?_chomped`, `commandsOf_chomped`: these are not
        missed. -/

namespace TapeMachine

namespace Text

/-- Lines put together to a text, with a newline after each. -/
def unlines (lines : List String) : String := String.join (lines.map (· ++ "\n"))

/-- A line without a carriage return at its end. -/
def chomped (line : String) : String := String.ofList (chomp line.toList.reverse).reverse

/-- What is lost is a carriage return or nothing. -/
theorem toList_chomped (line : String) :
    line.toList = (chomped line).toList ++ ['\r'] ∨ line.toList = (chomped line).toList := by
  rw [chomped, String.toList_ofList]
  by_cases h : ∃ rest, line.toList.reverse = '\r' :: rest
  · obtain ⟨rest, hrest⟩ := h
    refine Or.inl ?_
    rw [hrest, chomp, ← List.reverse_cons, ← hrest, List.reverse_reverse]
  · refine Or.inr ?_
    have hchomp : chomp line.toList.reverse = line.toList.reverse := by
      unfold chomp
      split
      · rename_i rest hrest
        exact absurd ⟨rest, hrest⟩ h
      · rfl
    rw [hchomp, List.reverse_reverse]

/-- The first newline ends the first line. -/
theorem linesFrom_append {line : List Char} (h : '\n' ∉ line) (before rest : List Char) :
    linesFrom before (line ++ '\n' :: rest)
      = (chomp (line.reverse ++ before)).reverse :: linesFrom [] rest := by
  induction line generalizing before with
  | nil =>
      show linesFrom before ('\n' :: rest) = _
      rw [linesFrom, if_pos rfl]
      rfl
  | cons c line ih =>
      have hc : c ≠ '\n' := fun heq => h (heq ▸ List.mem_cons_self)
      have hline : '\n' ∉ line := fun hmem => h (List.mem_cons_of_mem c hmem)
      rw [List.cons_append, linesFrom, if_neg hc, ih hline, List.reverse_cons, List.append_assoc]
      rfl

/-- Cutting a text that was put together finds its lines, without their
    carriage returns. -/
theorem lines_unlines {lines : List String} (h : ∀ line ∈ lines, '\n' ∉ line.toList) :
    Text.lines (unlines lines) = lines.map chomped := by
  induction lines with
  | nil => rfl
  | cons line rest ih =>
      have htext : (unlines (line :: rest)).toList
          = line.toList ++ '\n' :: (unlines rest).toList := by
        simp [unlines]
      have hrest := ih fun line' hmem => h line' (List.mem_cons_of_mem line hmem)
      unfold Text.lines at hrest ⊢
      rw [htext, linesFrom_append (h line List.mem_cons_self), List.append_nil, List.map_cons,
        hrest]
      rfl

/-! ## Blanks -/

/-- A blank at the end is trimmed away. -/
theorem trimmed_append_blank {c : Char} (hc : isBlank c = true) (cs : List Char) :
    trimmed (cs ++ [c]) = trimmed cs := by
  unfold trimmed
  rw [List.dropWhile_append]
  split
  · rename_i hnil
    rw [List.isEmpty_iff.mp hnil, List.dropWhile_cons_of_pos hc]
    rfl
  · rw [List.reverse_append, List.reverse_singleton, List.singleton_append,
      List.dropWhile_cons_of_pos hc]

/-- A carriage return at the end of a line is trimmed away. -/
theorem trim_chomped (line : String) : trim (chomped line) = trim line := by
  unfold trim
  rcases toList_chomped line with h | h
  · rw [h, trimmed_append_blank (by decide)]
  · rw [h]

theorem trim_of_allBlank {text : String} (h : allBlank text = true) : trim text = "" := by
  have hdrop : text.toList.dropWhile isBlank = [] :=
    List.dropWhile_eq_nil_iff.mpr (List.all_eq_true.mp h)
  rw [trim, trimmed, hdrop]
  rfl

end Text

/-- A carriage return at its end does not make a line another meta
    command. -/
theorem MetaCommand.ofText?_chomped (line : String) :
    ofText? (Text.chomped line) = ofText? line := by
  unfold ofText?
  rw [Text.trim_chomped]

theorem MetaCommand.ofText?_of_allBlank {text : String} (h : Text.allBlank text = true) :
    ofText? text = none := by
  unfold ofText?
  rw [Text.trim_of_allBlank h]
  rfl

theorem isCommand_of_blank {c : Char} (h : Text.isBlank c = true) : isCommand c = false := by
  rw [Bool.eq_false_iff]
  intro hc
  simp only [isCommand, List.contains_eq_mem, List.mem_cons, List.not_mem_nil, or_false,
    decide_eq_true_eq] at hc
  rcases hc with rfl | rfl | rfl | rfl | rfl | rfl | rfl <;> exact absurd h (by decide)

theorem commandsOf_of_allBlank {text : String} (h : Text.allBlank text = true) :
    commandsOf text.toList = [] := by
  refine List.filter_eq_nil_iff.mpr ?_
  intro c hc
  rw [isCommand_of_blank (List.all_eq_true.mp h c hc)]
  exact Bool.false_ne_true

/-- A carriage return at the end of a line is no command. -/
theorem commandsOf_chomped (line : String) :
    commandsOf (Text.chomped line).toList = commandsOf line.toList := by
  rcases Text.toList_chomped line with h | h
  · rw [h, commandsOf_append, show commandsOf ['\r'] = [] from by decide, List.append_nil]
  · rw [h]

end TapeMachine
