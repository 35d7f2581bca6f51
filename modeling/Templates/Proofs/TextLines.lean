import Mathlib.Data.List.Basic
import Templates.Text.Lines

/-!
# The lines of a text and its line feeds

`charLines` takes a text apart at its first line feed: the text in front of it, without a carriage
return at its end (`closedLine`), is the first line, and the others are the lines of the rest
(`charLines_append`). Two things follow. Texts without line feeds and carriage returns are the lines
of the text that they make (`charLines_flatMap_line`), and the line of a place is counted by the
line feeds in front of it (`getElem?_charLines_count`).
-/

namespace Templates

/-! ## The first line -/

theorem linesFrom_eq (done : List (List Char)) (line text : List Char) :
    linesFrom done line text = done.reverse ++ linesFrom [] line text := by
  induction text generalizing done line with
  | nil =>
    unfold linesFrom
    split <;> simp
  | cons c cs ih =>
    unfold linesFrom
    split
    · rw [ih (closedLine line :: done), ih [closedLine line]]
      simp
    · exact ih done (c :: line)

theorem linesFrom_append {cs : List Char} (hcs : '\n' ∉ cs) (done : List (List Char))
    (line text : List Char) :
    linesFrom done line (cs ++ text) = linesFrom done (cs.reverse ++ line) text := by
  induction cs generalizing line with
  | nil => rfl
  | cons c cs ih =>
    obtain ⟨hc, hrest⟩ : c ≠ '\n' ∧ '\n' ∉ cs := by simpa [eq_comm] using hcs
    rw [List.cons_append, linesFrom, if_neg hc, ih hrest]
    simp

/-- The first line is the text in front of the first line feed, and the others are those of the
rest. -/
theorem charLines_append {line : List Char} (hline : '\n' ∉ line) (text : List Char) :
    charLines (line ++ '\n' :: text) = closedLine line.reverse :: charLines text := by
  unfold charLines
  rw [linesFrom_append hline, linesFrom, if_pos rfl, linesFrom_eq, List.append_nil]
  rfl

/-- A text without line feeds is one line. -/
theorem charLines_of_not_mem {line : List Char} (hline : '\n' ∉ line) (hne : line ≠ []) :
    charLines line = [line] := by
  have happend := linesFrom_append hline [] [] []
  rw [List.append_nil, List.append_nil] at happend
  rw [charLines, happend, linesFrom]
  simp [hne]

/-- Induction on a text, one line at a time. -/
theorem firstLine_induction {motive : List Char → Prop}
    (last : ∀ line, '\n' ∉ line → motive line)
    (closed : ∀ line text, '\n' ∉ line → motive text → motive (line ++ '\n' :: text))
    (text : List Char) : motive text := by
  by_cases htext : '\n' ∈ text
  · obtain ⟨line, rest, hsplit, hline⟩ := List.eq_append_cons_of_mem htext
    rw [hsplit]
    exact closed line rest hline (firstLine_induction last closed rest)
  · exact last text htext
termination_by text.length
decreasing_by rw [hsplit, List.length_append, List.length_cons]; omega

/-! ## The end of a line -/

theorem closedLine_concat (line : List Char) : closedLine (line ++ ['\r']).reverse = line := by
  rw [List.reverse_append]
  exact List.reverse_reverse line

theorem closedLine_of_ne {line : List Char} (h : line.getLast? ≠ some '\r') :
    closedLine line.reverse = line := by
  unfold closedLine
  split
  · next cs hcs =>
    refine absurd ?_ h
    rw [← List.head?_reverse, hcs]
    rfl
  · exact List.reverse_reverse line

/-- A line loses nothing at its end but a carriage return. -/
theorem closedLine_cases (line : List Char) :
    line = closedLine line.reverse ∨ line = closedLine line.reverse ++ ['\r'] := by
  by_cases h : line.getLast? = some '\r'
  · obtain ⟨start, rfl⟩ := List.getLast?_eq_some_iff.mp h
    rw [closedLine_concat]
    exact Or.inr rfl
  · exact Or.inl (closedLine_of_ne h).symm

/-- A word stays on its line. -/
theorem infix_closedLine {word line : List Char} (h : word <:+: line) (hword : '\r' ∉ word) :
    word <:+: closedLine line.reverse := by
  rcases closedLine_cases line with hline | hline
  · rwa [← hline]
  · rw [hline, List.infix_concat_iff, List.suffix_concat_iff] at h
    rcases h with (rfl | ⟨start, rfl, -⟩) | h
    · exact List.nil_infix
    · simp at hword
    · exact h

theorem getElem?_closedLine {row : List Char} {i : Nat} {c : Char} (h : row[i]? = some c)
    (hc : c ≠ '\r') : (closedLine row.reverse)[i]? = some c := by
  rcases closedLine_cases row with hrow | hrow
  · rwa [← hrow]
  · rw [hrow, List.getElem?_append] at h
    split at h
    · exact h
    · exact absurd (List.mem_singleton.mp (List.mem_of_getElem? h)) hc

/-! ## Lines and line feeds -/

/-- No line holds a line feed. -/
theorem not_mem_of_mem_charLines (text : List Char) : ∀ line ∈ charLines text, '\n' ∉ line := by
  induction text using firstLine_induction with
  | last line hline =>
    rcases eq_or_ne line [] with rfl | hne
    · exact List.forall_mem_nil _
    · rw [charLines_of_not_mem hline hne]
      exact List.forall_mem_singleton.mpr hline
  | closed line text hline ih =>
    rw [charLines_append hline]
    refine List.forall_mem_cons.mpr ⟨fun hmem => hline ?_, ih⟩
    rcases closedLine_cases line with h | h
    · rwa [h]
    · rw [h]
      exact List.mem_append_left _ hmem

/-- Texts without line feeds and carriage returns are the lines of the text that they make. -/
theorem charLines_flatMap_line {rows : List (List Char)}
    (hrows : ∀ row ∈ rows, '\n' ∉ row ∧ '\r' ∉ row) :
    charLines (rows.flatMap (· ++ ['\n'])) = rows := by
  induction rows with
  | nil => rfl
  | cons row rows ih =>
    obtain ⟨⟨hfeed, hreturn⟩, hrest⟩ := List.forall_mem_cons.mp hrows
    have hlast : row.getLast? ≠ some '\r' := fun h => hreturn (List.mem_of_getLast? h)
    rw [List.flatMap_cons, List.append_assoc, List.singleton_append, charLines_append hfeed,
      closedLine_of_ne hlast, ih hrest]

/-! ## The line of a place -/

/-- The text between the line feeds around a place. -/
def rowAround (before after : List Char) : List Char :=
  (before.reverse.takeWhile (· ≠ '\n')).reverse ++ after.takeWhile (· ≠ '\n')

theorem takeWhile_ne_feed_append {cs : List Char} (h : '\n' ∉ cs) (rest : List Char) :
    (cs ++ rest).takeWhile (· ≠ '\n') = cs ++ rest.takeWhile (· ≠ '\n') :=
  List.takeWhile_append_of_pos fun _ hc => decide_eq_true (ne_of_mem_of_not_mem hc h)

theorem takeWhile_ne_feed_of_not_mem {cs : List Char} (h : '\n' ∉ cs) :
    cs.takeWhile (· ≠ '\n') = cs := by
  have happend := takeWhile_ne_feed_append h []
  rwa [List.takeWhile_nil, List.append_nil] at happend

theorem rowAround_of_not_mem {before : List Char} (h : '\n' ∉ before) (after : List Char) :
    rowAround before after = before ++ after.takeWhile (· ≠ '\n') := by
  rw [rowAround, takeWhile_ne_feed_of_not_mem (mt List.mem_reverse.mp h), List.reverse_reverse]

theorem rowAround_append (first rest after : List Char) :
    rowAround (first ++ '\n' :: rest) after = rowAround rest after := by
  have hstop : (first ++ '\n' :: rest).reverse.takeWhile (· ≠ '\n') =
      rest.reverse.takeWhile (· ≠ '\n') := by
    have hfeed : ('\n' :: first.reverse).takeWhile (· ≠ '\n') = [] := rfl
    rw [List.reverse_append, List.reverse_cons, List.append_assoc, List.singleton_append,
      List.takeWhile_append, hfeed, List.append_nil]
    split
    · next hall => exact ((List.takeWhile_prefix _).eq_of_length hall).symm
    · rfl
  rw [rowAround, hstop, rowAround]

/-- The line that a place is on is counted by the line feeds in front of the place. There is none
behind the last line feed of a text. -/
theorem getElem?_charLines_count (before after : List Char) :
    (charLines (before ++ after))[before.count '\n']? =
      if '\n' ∈ after then some (closedLine (rowAround before after).reverse)
      else if rowAround before after = [] then none
      else some (rowAround before after) := by
  induction before using firstLine_induction with
  | last before hbefore =>
    rw [List.count_eq_zero.mpr hbefore, rowAround_of_not_mem hbefore]
    by_cases hafter : '\n' ∈ after
    · obtain ⟨rest, text, rfl, hrest⟩ := List.eq_append_cons_of_mem hafter
      have hline : '\n' ∉ before ++ rest := by simp [hbefore, hrest]
      have hstop : (rest ++ '\n' :: text).takeWhile (· ≠ '\n') = rest :=
        (takeWhile_ne_feed_append hrest _).trans (List.append_nil rest)
      rw [if_pos hafter, hstop, ← List.append_assoc, charLines_append hline,
        List.getElem?_cons_zero]
    · have hline : '\n' ∉ before ++ after := by simp [hbefore, hafter]
      rw [if_neg hafter, takeWhile_ne_feed_of_not_mem hafter]
      by_cases hempty : before ++ after = []
      · rw [if_pos hempty, hempty]
        rfl
      · rw [if_neg hempty, charLines_of_not_mem hline hempty, List.getElem?_cons_zero]
  -- The place is behind the first line, which is taken off.
  | closed first rest hfirst ih =>
    have hcount : (first ++ '\n' :: rest).count '\n' = rest.count '\n' + 1 := by
      rw [List.count_append, List.count_eq_zero.mpr hfirst, List.count_cons_self, Nat.zero_add]
    rw [hcount, List.append_assoc, List.cons_append, charLines_append hfirst,
      List.getElem?_cons_succ, ih, rowAround_append]

/-- A word is on the line of its first character. -/
theorem exists_line_of_word {word : List Char} (hne : word ≠ []) (hfeed : '\n' ∉ word)
    (hreturn : '\r' ∉ word) (before after : List Char) :
    ∃ line, (charLines (before ++ (word ++ after)))[before.count '\n']? = some line ∧
      word <:+: line := by
  have hinfix : word <:+: rowAround before (word ++ after) := by
    rw [rowAround, takeWhile_ne_feed_append hfeed]
    exact ⟨_, _, List.append_assoc ..⟩
  rw [getElem?_charLines_count]
  by_cases hafter : '\n' ∈ word ++ after
  · rw [if_pos hafter]
    exact ⟨_, rfl, infix_closedLine hinfix hreturn⟩
  · have hrow : rowAround before (word ++ after) ≠ [] := by
      intro hnil
      exact hne (List.infix_nil.mp (hnil ▸ hinfix))
    rw [if_neg hafter, if_neg hrow]
    exact ⟨_, rfl, hinfix⟩

/-- A character is on its line as far to the right as the text in front of it reaches. -/
theorem exists_line_of_char {c : Char} (hfeed : c ≠ '\n') (hreturn : c ≠ '\r')
    (before after : List Char) :
    ∃ row, (charLines (before ++ c :: after))[before.count '\n']? = some row ∧
      row[(before.reverse.takeWhile (· ≠ '\n')).length]? = some c := by
  have hrow : (rowAround before (c :: after))[(before.reverse.takeWhile (· ≠ '\n')).length]? =
      some c := by
    have hkept : (c :: after).takeWhile (· ≠ '\n') = c :: after.takeWhile (· ≠ '\n') :=
      List.takeWhile_cons_of_pos (decide_eq_true hfeed)
    rw [rowAround, hkept, ← List.length_reverse, List.getElem?_append_right (Nat.le_refl _),
      Nat.sub_self, List.getElem?_cons_zero]
  have hne : rowAround before (c :: after) ≠ [] := by
    intro hnil
    rw [hnil] at hrow
    cases hrow
  rw [getElem?_charLines_count, if_neg hne]
  split
  · exact ⟨_, rfl, getElem?_closedLine hrow hreturn⟩
  · exact ⟨_, rfl, hrow⟩

/-- The last line of a text is as long as the text reaches behind its last line feed. -/
theorem length_line_of_end (text : List Char) :
    ((charLines text)[text.count '\n']?.getD []).length =
      (text.reverse.takeWhile (· ≠ '\n')).length := by
  have hline := getElem?_charLines_count text []
  have hrow : (rowAround text []).length = (text.reverse.takeWhile (· ≠ '\n')).length :=
    (congrArg List.length (List.append_nil _)).trans List.length_reverse
  rw [List.append_nil, if_neg List.not_mem_nil] at hline
  rw [hline, ← hrow]
  by_cases hnil : rowAround text [] = []
  · rw [if_pos hnil, hnil]
    rfl
  · rw [if_neg hnil]
    rfl

end Templates
