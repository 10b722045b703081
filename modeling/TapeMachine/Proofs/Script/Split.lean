import TapeMachine.Proofs.Script.Lines
import Mathlib.Data.List.DropRight

/-! # Splitting scripts — which lines make up the program

    A script is read line by line, and what a line does depends on those
    around it: `:exit` ends the reading, and `:reset` takes back what was
    read before.  What is left in the end is told here without reading:
    from the first `:exit` on nothing counts, and of the rest only what
    comes after the last `:reset` is program text.

      * `Text.LinesOf`: what the lines of a text are.
      * `Script.addLines_eq_foldl`: reading stops at the first `:exit`, so
        a script is taken apart by one step for each line before it.
      * `Script.foldl_add`: what the steps have come to, by induction from
        the last line.
      * `Script.exists_positions`: the same lines, told by their positions. -/

namespace TapeMachine

/-! ## Lines -/

namespace Text

/-- A text and its lines.  A line ends with a newline or with a carriage
    return and a newline, and neither is part of it.  Text behind the last
    newline is a line too, and a carriage return in it is kept. -/
inductive LinesOf : List Char → List (List Char) → Prop where
  | none : LinesOf [] []
  | last {line : List Char} : line ≠ [] → '\n' ∉ line → LinesOf line [line]
  | newline {line text : List Char} {lines : List (List Char)} : '\n' ∉ line →
      line.getLast? ≠ some '\r' → LinesOf text lines →
      LinesOf (line ++ '\n' :: text) (line :: lines)
  | carriage {line text : List Char} {lines : List (List Char)} : '\n' ∉ line →
      LinesOf text lines → LinesOf (line ++ '\r' :: '\n' :: text) (line :: lines)

variable {line text : List Char} {lines : List (List Char)}

theorem chomp_of_ne (h : line.getLast? ≠ some '\r') : (chomp line.reverse).reverse = line := by
  rw [← List.head?_reverse] at h
  unfold chomp
  split
  · rename_i rest hrest
    rw [hrest] at h
    exact absurd rfl h
  · exact List.reverse_reverse line

/-- Text without a newline goes on with the line that was begun. -/
theorem linesFrom_last (h : '\n' ∉ line) (before : List Char) :
    linesFrom before line
      = if (line.reverse ++ before).isEmpty then [] else [(line.reverse ++ before).reverse] := by
  induction line generalizing before with
  | nil => rfl
  | cons c line ih =>
      have hc : c ≠ '\n' := fun heq => h (heq ▸ List.mem_cons_self)
      have hline : '\n' ∉ line := fun hmem => h (List.mem_cons_of_mem c hmem)
      rw [linesFrom, if_neg hc, ih hline, List.reverse_cons, List.append_assoc]
      rfl

theorem LinesOf.eq_linesFrom (h : LinesOf text lines) : lines = linesFrom [] text := by
  induction h with
  | none => rfl
  | @last line hne hline =>
      rw [linesFrom_last hline, List.append_nil, List.reverse_reverse]
      exact (if_neg (by simpa using hne)).symm
  | newline hline hret _ ih =>
      rw [linesFrom_append hline, List.append_nil, chomp_of_ne hret, ← ih]
  | @carriage line text lines hline _ ih =>
      have hline' : '\n' ∉ line ++ ['\r'] := by simpa using hline
      rw [List.append_cons, linesFrom_append hline', List.append_nil, List.reverse_append,
        List.reverse_singleton, List.singleton_append, chomp, List.reverse_reverse, ← ih]

/-- What is cut off are lines, if the line that was begun has no newline. -/
theorem linesOf_linesFrom {before : List Char} (h : '\n' ∉ before) (text : List Char) :
    LinesOf (before.reverse ++ text) (linesFrom before text) := by
  induction text generalizing before with
  | nil =>
      rw [linesFrom, List.append_nil]
      cases before with
      | nil => exact .none
      | cons c before =>
          refine .last ?_ ?_
          · simp
          · rwa [List.mem_reverse]
  | cons c text ih =>
      rw [linesFrom]
      by_cases hc : c = '\n'
      · rw [if_pos hc, hc]
        have hrest : LinesOf text (linesFrom [] text) := ih List.not_mem_nil
        by_cases hret : before.reverse.getLast? = some '\r'
        · obtain ⟨line, hline⟩ := List.getLast?_eq_some_iff.mp hret
          obtain rfl : before = '\r' :: line.reverse := by
            rw [← List.reverse_reverse before, hline, List.reverse_append]
            rfl
          rw [hline, List.append_assoc, chomp, List.reverse_reverse]
          refine .carriage ?_ hrest
          intro hmem
          exact h (List.mem_cons_of_mem _ (List.mem_reverse.mpr hmem))
        · have hline : '\n' ∉ before.reverse := by rwa [List.mem_reverse]
          have hkept := chomp_of_ne hret
          rw [List.reverse_reverse] at hkept
          rw [hkept]
          exact .newline hline hret hrest
      · rw [if_neg hc, ← List.singleton_append, ← List.append_assoc, ← List.reverse_cons]
        refine ih ?_
        rintro (_ | ⟨_, hmem⟩)
        · exact hc rfl
        · exact h hmem

/-- **Cutting a text gives its lines**, and these are the only ones. -/
theorem linesOf_iff {text : String} {lines : List (List Char)} :
    LinesOf text.toList lines ↔ lines = (Text.lines text).map String.toList := by
  have hlines : (Text.lines text).map String.toList = linesFrom [] text.toList := by
    rw [Text.lines, List.map_map]
    exact (List.map_congr_left fun line _ => String.toList_ofList).trans (List.map_id _)
  rw [hlines]
  constructor
  · intro h
    exact h.eq_linesFrom
  · rintro rfl
    exact linesOf_linesFrom List.not_mem_nil text.toList

end Text

/-! ## Meta commands -/

namespace MetaCommand

/-- The words for a meta command. -/
def words : MetaCommand → List String
  | .exit => [":exit", ":quit"]
  | .help => [":help"]
  | .reset => [":reset"]
  | .tape => [":tape"]

/-- Is a line, blanks at its ends aside, a word for this command? -/
def standsIn (command : MetaCommand) (line : String) : Bool :=
  command.words.contains (Text.trim line)

/-- Is a line, blanks at its ends aside, none of the words for a command? -/
def isText (line : String) : Bool :=
  !([":exit", ":quit", ":help", ":reset", ":tape"].contains (Text.trim line))

theorem ofText?_eq_some_iff {line : String} {command : MetaCommand} :
    ofText? line = some command ↔ command.standsIn line = true := by
  unfold ofText?
  split <;> cases command <;> simp_all [standsIn, words]

theorem ofText?_eq_none_iff {line : String} : ofText? line = none ↔ isText line = true := by
  unfold ofText?
  split <;> simp_all [isText]

/-- A line is a word for one command at most. -/
theorem standsIn_of_ofText? {line : String} {given : MetaCommand}
    (h : ofText? line = some given) (command : MetaCommand) :
    command.standsIn line = decide (command = given) := by
  rw [Bool.eq_iff_iff, ← ofText?_eq_some_iff, h, decide_eq_true_iff, Option.some.injEq, eq_comm]

theorem standsIn_of_text {line : String} (h : ofText? line = none) (command : MetaCommand) :
    command.standsIn line = false := by
  rw [Bool.eq_false_iff, ne_eq, ← ofText?_eq_some_iff, h]
  exact fun hsome => Option.some_ne_none _ hsome.symm

theorem isText_of_ofText? {line : String} {given : MetaCommand} (h : ofText? line = some given) :
    isText line = false := by
  rw [Bool.eq_false_iff, ne_eq, ← ofText?_eq_none_iff, h]
  exact Option.some_ne_none _

end MetaCommand

/-! ## Reading a script -/

namespace Script

open MetaCommand (standsIn isText)

/-- The lines that are read: those before the first `:exit`. -/
def heeded (lines : List String) : List String :=
  lines.takeWhile fun line => !standsIn .exit line

/-- The lines that are read and not taken back: those after the last
    `:reset`. -/
def kept (lines : List String) : List String :=
  (heeded lines).rtakeWhile fun line => !standsIn .reset line

/-- Take up one line. -/
def add (s : Script) (line : String) : Script :=
  match MetaCommand.ofText? line with
  | none => { s with program := s.program ++ line ++ "\n" }
  | some .exit => s
  | some .help => { s with showHelp := true }
  | some .reset => { s with program := "" }
  | some .tape => { s with showTape := true }

theorem heeded_cons_of_exit {line : String} (h : MetaCommand.ofText? line = some .exit)
    (rest : List String) : heeded (line :: rest) = [] := by
  rw [heeded, List.takeWhile_cons_of_neg]
  rw [MetaCommand.standsIn_of_ofText? h]
  decide

theorem heeded_cons {line : String} (h : MetaCommand.ofText? line ≠ some .exit)
    (rest : List String) : heeded (line :: rest) = line :: heeded rest := by
  rw [heeded, List.takeWhile_cons_of_pos]
  · rfl
  · rw [ne_eq, MetaCommand.ofText?_eq_some_iff, Bool.not_eq_true] at h
    rw [h]
    rfl

/-- Reading takes up one line after the other until it is to end. -/
theorem addLines_eq_foldl (s : Script) (lines : List String) :
    s.addLines lines = (heeded lines).foldl add s := by
  induction lines generalizing s with
  | nil => rfl
  | cons line rest ih =>
      by_cases hexit : MetaCommand.ofText? line = some .exit
      · rw [heeded_cons_of_exit hexit, addLines, hexit]
        rfl
      · rw [heeded_cons hexit, List.foldl_cons, ← ih, addLines, add]
        cases hmeta : MetaCommand.ofText? line with
        | none => rfl
        | some command =>
            cases command with
            | exit => exact absurd hmeta hexit
            | _ => rfl

/-- What is left of lines that were all taken up. -/
theorem foldl_add (lines : List String) :
    lines.foldl add {} =
      { program := Text.unlines
          ((lines.rtakeWhile fun line => !standsIn .reset line).filter isText)
        showHelp := lines.any (standsIn .help)
        showTape := lines.any (standsIn .tape) } := by
  -- from the last line: it is added, or it takes back all text, or it sets a mark
  induction lines using List.reverseRecOn with
  | nil => rfl
  | append_singleton lines line ih =>
      rw [List.foldl_append, ih, List.foldl_cons, List.foldl_nil, add, List.rtakeWhile_concat,
        List.any_append, List.any_append]
      cases hmeta : MetaCommand.ofText? line with
      | none =>
          have htext := MetaCommand.ofText?_eq_none_iff.mp hmeta
          have hword := MetaCommand.standsIn_of_text hmeta
          simp [hword, htext, Text.unlines, String.append_assoc]
      | some command =>
          have htext := MetaCommand.isText_of_ofText? hmeta
          have hword := MetaCommand.standsIn_of_ofText? hmeta
          cases command <;> simp [hword, htext, Text.unlines]

/-- The parts of a script. -/
theorem parse_eq (text : String) :
    parse text =
      { program := Text.unlines ((kept (Text.lines text)).filter isText)
        showHelp := (heeded (Text.lines text)).any (standsIn .help)
        showTape := (heeded (Text.lines text)).any (standsIn .tape) } := by
  rw [parse, addLines_eq_foldl, foldl_add]
  rfl

/-! ## Lines by their positions -/

/-- Is the line at a position a word for this command? -/
def At (command : MetaCommand) (lines : List String) (i : Nat) : Prop :=
  ∃ line, lines[i]? = some line ∧ standsIn command line = true

/-- The line at a position is part of the program: it is no command, no
    `:exit` stands before it, and no `:reset` behind it, unless an `:exit`
    comes first. -/
structure Counts (lines : List String) (i : Nat) : Prop where
  text : ∃ line, lines[i]? = some line ∧ isText line = true
  read : ∀ e, e < i → ¬ At .exit lines e
  fresh : ∀ r, i < r → At .reset lines r → ∃ e, e < r ∧ At .exit lines e

variable {command : MetaCommand} {line : String} {rest : List String} {i : Nat}

theorem at_cons_zero : At command (line :: rest) 0 ↔ standsIn command line = true := by
  simp [At]

theorem not_at_exit_zero (h : MetaCommand.ofText? line ≠ some .exit) :
    ¬ At .exit (line :: rest) 0 := by
  rw [at_cons_zero, ← MetaCommand.ofText?_eq_some_iff]
  exact h

/-- Behind a line that is no `:exit`, an `:exit` stands one line earlier. -/
theorem exit_before_succ_iff (h : MetaCommand.ofText? line ≠ some .exit) {r : Nat} :
    (∃ e, e < r + 1 ∧ At .exit (line :: rest) e) ↔ ∃ e, e < r ∧ At .exit rest e := by
  constructor
  · rintro ⟨e, he, hat⟩
    cases e with
    | zero => exact absurd hat (not_at_exit_zero h)
    | succ e => exact ⟨e, Nat.lt_of_succ_lt_succ he, hat⟩
  · rintro ⟨e, he, hat⟩
    exact ⟨e + 1, Nat.succ_lt_succ he, hat⟩

/-- No line is taken back exactly if every `:reset` stands behind an
    `:exit`. -/
theorem no_reset_iff (lines : List String) :
    (∀ line ∈ heeded lines, standsIn .reset line = false) ↔
      ∀ r, At .reset lines r → ∃ e, e < r ∧ At .exit lines e := by
  induction lines with
  | nil =>
      refine iff_of_true (fun line hline => absurd hline List.not_mem_nil) ?_
      rintro r ⟨line, hline, -⟩
      cases hline
  | cons line rest ih =>
      by_cases hexit : MetaCommand.ofText? line = some .exit
      · -- the first line ends the reading, and it is no `:reset` itself
        rw [heeded_cons_of_exit hexit]
        refine iff_of_true (fun line hline => absurd hline List.not_mem_nil) ?_
        intro r hr
        cases r with
        | zero =>
            rw [at_cons_zero, MetaCommand.standsIn_of_ofText? hexit] at hr
            cases hr
        | succ r =>
            refine ⟨0, Nat.succ_pos r, at_cons_zero.mpr ?_⟩
            exact MetaCommand.ofText?_eq_some_iff.mp hexit
      · rw [heeded_cons hexit, List.forall_mem_cons, ih]
        constructor
        · rintro ⟨hline, hrest⟩ r hr
          cases r with
          | zero =>
              rw [at_cons_zero, hline] at hr
              cases hr
          | succ r => exact (exit_before_succ_iff hexit).mpr (hrest r hr)
        · intro h
          refine ⟨?_, ?_⟩
          · rw [Bool.eq_false_iff]
            intro hreset
            obtain ⟨e, he, -⟩ := h 0 (at_cons_zero.mpr hreset)
            exact Nat.not_lt_zero e he
          · intro r hr
            exact (exit_before_succ_iff hexit).mp (h (r + 1) hr)

theorem counts_cons_zero (h : MetaCommand.ofText? line ≠ some .exit) :
    Counts (line :: rest) 0 ↔
      isText line = true ∧ ∀ line ∈ heeded rest, standsIn .reset line = false := by
  rw [no_reset_iff]
  constructor
  · rintro ⟨⟨line', hline', htext⟩, -, hfresh⟩
    obtain rfl := Option.some.inj hline'
    refine ⟨htext, ?_⟩
    intro r hr
    exact (exit_before_succ_iff h).mp (hfresh (r + 1) (Nat.succ_pos r) hr)
  · rintro ⟨htext, hfresh⟩
    refine ⟨⟨line, rfl, htext⟩, fun e he => absurd he (Nat.not_lt_zero e), ?_⟩
    intro r hlt hr
    obtain ⟨r, rfl⟩ := Nat.exists_eq_succ_of_ne_zero (Nat.ne_of_gt hlt)
    exact (exit_before_succ_iff h).mpr (hfresh r hr)

theorem counts_cons_succ (h : MetaCommand.ofText? line ≠ some .exit) :
    Counts (line :: rest) (i + 1) ↔ Counts rest i := by
  constructor
  · rintro ⟨htext, hread, hfresh⟩
    refine ⟨htext, fun e he => hread (e + 1) (Nat.succ_lt_succ he), ?_⟩
    intro r hlt hr
    exact (exit_before_succ_iff h).mp (hfresh (r + 1) (Nat.succ_lt_succ hlt) hr)
  · rintro ⟨htext, hread, hfresh⟩
    refine ⟨htext, ?_, ?_⟩
    · intro e he
      cases e with
      | zero => exact not_at_exit_zero h
      | succ e => exact hread e (Nat.lt_of_succ_lt_succ he)
    · intro r hlt hr
      obtain ⟨r, rfl⟩ := Nat.exists_eq_succ_of_ne_zero (Nat.ne_of_gt (Nat.zero_lt_of_lt hlt))
      exact (exit_before_succ_iff h).mpr (hfresh r (Nat.lt_of_succ_lt_succ hlt) hr)

/-- Nothing counts from an `:exit` on. -/
theorem not_counts_of_exit (h : MetaCommand.ofText? line = some .exit) (i : Nat) :
    ¬ Counts (line :: rest) i := by
  rintro ⟨⟨line', hline', htext⟩, hread, -⟩
  cases i with
  | zero =>
      obtain rfl := Option.some.inj hline'
      rw [MetaCommand.isText_of_ofText? h] at htext
      cases htext
  | succ i =>
      refine hread 0 (Nat.succ_pos i) (at_cons_zero.mpr ?_)
      exact MetaCommand.ofText?_eq_some_iff.mp h

/-- A line in front is kept if it is text and nothing is taken back. -/
theorem filter_kept_cons (h : MetaCommand.ofText? line ≠ some .exit) :
    (kept (line :: rest)).filter isText =
      if isText line = true ∧ ∀ line ∈ heeded rest, standsIn .reset line = false then
        line :: (kept rest).filter isText
      else (kept rest).filter isText := by
  unfold kept
  rw [heeded_cons h, List.rtakeWhile, List.rtakeWhile, List.reverse_cons, List.takeWhile_append]
  by_cases hfresh : ∀ line ∈ heeded rest, standsIn .reset line = false
  · -- all lines behind are kept, so this one is asked
    have hall : (heeded rest).reverse.takeWhile (fun line => !standsIn .reset line)
        = (heeded rest).reverse := by
      rw [List.takeWhile_eq_self_iff]
      intro line hline
      rw [hfresh line (List.mem_reverse.mp hline)]
      rfl
    rw [hall, if_pos rfl, List.reverse_append, List.reverse_reverse, List.filter_append]
    cases hmeta : MetaCommand.ofText? line with
    | none =>
        have htext := MetaCommand.ofText?_eq_none_iff.mp hmeta
        have hword := MetaCommand.standsIn_of_text hmeta .reset
        rw [if_pos ⟨htext, hfresh⟩, List.takeWhile_cons_of_pos (by rw [hword]; rfl),
          List.takeWhile_nil, List.reverse_singleton, List.filter_cons_of_pos htext]
        rfl
    | some command =>
        have htext := MetaCommand.isText_of_ofText? hmeta
        rw [if_neg (by rw [htext]; exact fun hand => Bool.false_ne_true hand.1),
          List.append_left_eq_self, List.filter_eq_nil_iff]
        intro line' hline'
        have hmem := (List.takeWhile_prefix _).mem (List.mem_reverse.mp hline')
        rw [List.mem_singleton.mp hmem, htext]
        exact Bool.false_ne_true
  · -- a line behind takes back this one
    have hnot : ((heeded rest).reverse.takeWhile fun line => !standsIn .reset line).length
        ≠ (heeded rest).reverse.length := by
      intro hlen
      have hall := (List.takeWhile_prefix _).eq_of_length hlen
      refine hfresh fun line hline => ?_
      have hword := List.takeWhile_eq_self_iff.mp hall line (List.mem_reverse.mpr hline)
      simpa using hword
    rw [if_neg hnot, if_neg (fun hand => hfresh hand.2)]

/-- **The lines of the program are those that count**, in their order and
    each of them once. -/
theorem exists_positions (lines : List String) :
    ∃ positions : List Nat, positions.Pairwise (· < ·) ∧
      (∀ i, i ∈ positions ↔ Counts lines i) ∧
      (kept lines).filter isText = positions.filterMap (lines[·]?) := by
  induction lines with
  | nil =>
      refine ⟨[], .nil, ?_, rfl⟩
      intro i
      refine iff_of_false List.not_mem_nil ?_
      rintro ⟨⟨line, hline, -⟩, -, -⟩
      cases hline
  | cons line rest ih =>
      by_cases hexit : MetaCommand.ofText? line = some .exit
      · refine ⟨[], .nil, ?_, ?_⟩
        · intro i
          exact iff_of_false List.not_mem_nil (not_counts_of_exit hexit i)
        · rw [kept, heeded_cons_of_exit hexit]
          rfl
      · obtain ⟨positions, hsorted, hmem, hlines⟩ := ih
        -- the positions of the rest are one greater now
        have hsorted' : (positions.map (· + 1)).Pairwise (· < ·) :=
          List.pairwise_map.mpr (hsorted.imp fun hlt => Nat.succ_lt_succ hlt)
        have hmem' : ∀ i, i + 1 ∈ positions.map (· + 1) ↔ Counts (line :: rest) (i + 1) := by
          intro i
          rw [counts_cons_succ hexit, ← hmem i]
          simp
        have hlines' : (positions.map (· + 1)).filterMap ((line :: rest)[·]?)
            = (kept rest).filter isText := by
          rw [hlines, List.filterMap_map]
          rfl
        rw [filter_kept_cons hexit]
        by_cases hcounts : Counts (line :: rest) 0
        · refine ⟨0 :: positions.map (· + 1), ?_, ?_, ?_⟩
          · refine List.pairwise_cons.mpr ⟨?_, hsorted'⟩
            intro i hi
            obtain ⟨j, -, rfl⟩ := List.mem_map.mp hi
            exact Nat.succ_pos j
          · intro i
            cases i with
            | zero => exact iff_of_true List.mem_cons_self hcounts
            | succ i => rw [List.mem_cons, ← hmem' i]; simp
          · rw [if_pos ((counts_cons_zero hexit).mp hcounts), ← hlines']
            rfl
        · refine ⟨positions.map (· + 1), hsorted', ?_, ?_⟩
          · intro i
            cases i with
            | zero => exact iff_of_false (by simp) hcounts
            | succ i => exact hmem' i
          · rw [if_neg (fun hand => hcounts ((counts_cons_zero hexit).mpr hand)), hlines']

end Script

/-- **A script is split as its lines say.**  The lines of a text are cut at
    its newlines.  Those before the first `:exit` are read, and the program
    is put together, with a newline after each, from the lines of text after
    the last `:reset` among them; help and tape are shown if one of the
    lines read asks for it.  Put otherwise, the program consists of the
    lines at the positions that count, in their order and each once. -/
theorem script_splits_lines (text : String) :
    let lines := Text.lines text
    let read := lines.takeWhile fun line => !MetaCommand.standsIn .exit line
    let kept := read.rtakeWhile fun line => !MetaCommand.standsIn .reset line
    (∀ cut, Text.LinesOf text.toList cut ↔ cut = lines.map String.toList) ∧
    (Script.parse text).program = Text.unlines (kept.filter MetaCommand.isText) ∧
    ((Script.parse text).showHelp = true ↔ ∃ line ∈ read, MetaCommand.standsIn .help line = true) ∧
    ((Script.parse text).showTape = true ↔ ∃ line ∈ read, MetaCommand.standsIn .tape line = true) ∧
    ∃ positions : List Nat, positions.Pairwise (· < ·) ∧
      (∀ i, i ∈ positions ↔ Script.Counts lines i) ∧
      (Script.parse text).program = Text.unlines (positions.filterMap (lines[·]?)) := by
  intro lines read kept
  obtain ⟨positions, hsorted, hmem, hlines⟩ := Script.exists_positions lines
  refine ⟨fun cut => Text.linesOf_iff, ?_, ?_, ?_, positions, hsorted, hmem, ?_⟩
  · rw [Script.parse_eq]
    rfl
  · rw [Script.parse_eq]
    exact List.any_eq_true
  · rw [Script.parse_eq]
    exact List.any_eq_true
  · rw [Script.parse_eq, hlines]

/-- A mark set before a `:reset` stays, a `:reset` after the exit does
    nothing, and a line that only begins with a command is text. -/
example : Script.parse ":tape\n+\n :reset\t\n:reset it\r\n-\n:quit\n:help\n:reset\n"
    = ⟨":reset it\n-\n", false, true⟩ := by decide +kernel

end TapeMachine
