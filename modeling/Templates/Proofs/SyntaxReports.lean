import Templates.Command.Run
import Templates.Proofs.ErrorOrder
import Templates.Proofs.TextLines
import Templates.Proofs.TokenTiling

/-!
# The caret under a syntax error

An error has the line and the column of a token; `syntaxReport?` shows a line of `textLines`, which
has no carriage return at its end. The two agree: the shown line has the token in its column, since
the first character of a token is no blank and so not part of a line end, and the end of a text is
the end of its last line (`token_on_shownLine`). The last two rows of a report have gutters of the
same width, so the caret is under that character (`syntaxReport_of_mem_errors`). There is a report
only up to the column `maxCaretColumn` (`syntaxReport_farRight`).
-/

namespace Templates

/-- The line of a text that a report shows: the one that the position names, if it has that many. -/
def shownLine (source : String) (p : Position) : String := (textLines source)[p.line - 1]?.getD ""

theorem toList_shownLine (source : String) (p : Position) :
    (shownLine source p).toList = (charLines source.toList)[p.line - 1]?.getD [] := by
  rw [shownLine, textLines, List.getElem?_map]
  cases (charLines source.toList)[p.line - 1]? with
  | none => rfl
  | some line => exact String.toList_ofList

theorem line_placeBehind (before : List Char) :
    (placeBehind before).line - 1 = before.count '\n' := Nat.add_sub_cancel_left ..

theorem column_placeBehind (before : List Char) :
    (placeBehind before).column - 1 = (before.reverse.takeWhile (· ≠ '\n')).length :=
  Nat.add_sub_cancel_left ..

/-! ## Places on the shown line -/

/-- The shown line has a character that is no blank in the column of its position. -/
theorem getElem?_shownLine {source : String} {front cs : List Char} {c : Char}
    (hsplit : source.toList = front ++ c :: cs) (hblank : isBlank c = false) :
    (shownLine source (placeBehind front)).toList[(placeBehind front).column - 1]? = some c := by
  have hfeed : c ≠ '\n' := by
    rintro rfl
    exact absurd hblank (by decide)
  have hreturn : c ≠ '\r' := by
    rintro rfl
    exact absurd hblank (by decide)
  obtain ⟨line, hline, hchar⟩ := exists_line_of_char hfeed hreturn front cs
  rw [toList_shownLine, line_placeBehind, column_placeBehind, hsplit, hline]
  exact hchar

/-- The end of a text is the end of its last line. -/
theorem length_shownLine_end (source : String) :
    (shownLine source (placeBehind source.toList)).length =
      (placeBehind source.toList).column - 1 := by
  rw [← String.length_toList, toList_shownLine, line_placeBehind, column_placeBehind]
  exact length_line_of_end source.toList

theorem exists_isAt_of_mem_errors_parseSource {source : String} {e : SyntaxError}
    (he : e ∈ (parseSource source).errors) : ∃ t ∈ tokenize source, e.IsAt t := by
  obtain ⟨ts, last, htokens, hlast, hts, -⟩ := exists_tokenize_eq_concat source
  rw [parseSource, htokens] at he
  rw [htokens]
  exact exists_isAt_of_mem_errors hlast hts e he

theorem one_le_of_mem_tokenize {source : String} {t : Token} (ht : t ∈ tokenize source) :
    1 ≤ t.pos.line ∧ 1 ≤ t.pos.column := by
  have hplace : ∃ before, t.pos = placeBehind before := by
    by_cases hkind : t.kind = .eof
    · exact ⟨_, pos_of_mem_tokenize_of_eof ht hkind⟩
    · obtain ⟨front, -, -, -, hpos, -⟩ := exists_cut_of_mem_tokenize ht hkind
      exact ⟨front, hpos⟩
  obtain ⟨before, hpos⟩ := hplace
  rw [hpos]
  exact ⟨Nat.le_add_right 1 _, Nat.le_add_right 1 _⟩

/-- The shown line has the token in the column of its position, or it is the end of the text. -/
theorem token_on_shownLine {source : String} {t : Token} (ht : t ∈ tokenize source) :
    (t.kind = .eof → t.pos.column - 1 = (shownLine source t.pos).length) ∧
      (t.kind ≠ .eof → ∃ front c lexeme rest, source.toList = front ++ (c :: lexeme ++ rest) ∧
        t.pos = placeBehind front ∧ LexemeAt (c :: lexeme) rest t.lexeme ∧
          (shownLine source t.pos).toList[t.pos.column - 1]? = some c) := by
  refine ⟨fun hkind => ?_, fun hkind => ?_⟩
  · rw [pos_of_mem_tokenize_of_eof ht hkind]
    exact (length_shownLine_end source).symm
  · obtain ⟨front, c, cs, hsplit, hpos, hcut⟩ := exists_cut_of_mem_tokenize ht hkind
    have htext : (cut c cs).text ++ (cut c cs).rest = c :: cs := append_cut c cs
    have hlexeme : LexemeAt (cut c cs).text (cut c cs).rest t.lexeme := lexemeAt_cut c cs _ hcut
    obtain ⟨d, lexeme, htake⟩ := List.exists_cons_of_ne_nil (text_cut_ne_nil c cs)
    rw [htake] at htext hlexeme
    obtain ⟨rfl, hrest⟩ := List.cons.inj htext
    refine ⟨front, d, lexeme, (cut d cs).rest, by rw [hsplit, ← htext], hpos, hlexeme, ?_⟩
    rw [hpos]
    exact getElem?_shownLine hsplit (not_isBlank_of_lexeme? hcut)

/-! ## The rows of a report -/

theorem feed_not_mem_numbered (source : String) (p : Position) :
    '\n' ∉ (toString p.line ++ " | " ++ shownLine source p).toList := by
  have hnumber : '\n' ∉ (toString p.line).toList := by
    intro hmem
    have hdigits : '\n' ∈ Nat.toDigits 10 p.line := Nat.toList_repr ▸ hmem
    exact absurd (Nat.isDigit_of_mem_toDigits (by decide) (by decide) hdigits) (by decide)
  have hline : '\n' ∉ (shownLine source p).toList := by
    rw [toList_shownLine]
    cases hshown : (charLines source.toList)[p.line - 1]? with
    | none => exact List.not_mem_nil
    | some line => exact not_mem_of_mem_charLines _ line (List.mem_of_getElem? hshown)
  rw [String.toList_append, String.toList_append, List.mem_append, List.mem_append]
  rintro ((h | h) | h)
  · exact hnumber h
  · exact absurd h (by decide)
  · exact hline h

/-- A report ends with the row of the line and the row of the caret. -/
theorem syntaxReport_rows (path source : String) {e : SyntaxError}
    (hfits : e.pos.column ≤ maxCaretColumn) : ∃ head gutter blanks : String,
      syntaxReport? path (textLines source).toArray e =
          some (head ++ "\n" ++ (toString e.pos.line ++ " | " ++ shownLine source e.pos) ++ "\n" ++
            (gutter ++ " | " ++ blanks ++ "^")) ∧
        gutter.length = (toString e.pos.line).length ∧ blanks.length = e.pos.column - 1 ∧
        ∀ c ∈ gutter.toList ++ blanks.toList, c = ' ' := by
  let gutter := String.ofList (List.replicate (toString e.pos.line).length ' ')
  let blanks := String.ofList (List.replicate (e.pos.column - 1) ' ')
  let head := "syntax error: " ++ e.message ++ "\n" ++ "  --> " ++ path ++ ":" ++
    toString e.pos.line ++ ":" ++ toString e.pos.column ++ "\n" ++ gutter ++ " |"
  refine ⟨head, gutter, blanks, ?_, ?_, ?_, ?_⟩
  · have hcaret : padLeft e.pos.column "^" = blanks ++ "^" := rfl
    rw [syntaxReport?, if_neg (Nat.not_lt.mpr hfits), hcaret, List.getElem?_toArray]
    simp [shownLine, head, gutter, String.append_assoc]
  · simp [gutter]
  · simp [blanks]
  · simp [gutter, blanks]

/-- Columns behind gutters of the same width are one above the other. -/
theorem getElem?_behind_gutter {number gutter : String} (h : gutter.length = number.length)
    (line blanks : String) :
    (number ++ " | " ++ line).toList[(gutter ++ " | " ++ blanks).length]? =
      line.toList[blanks.length]? := by
  have hwidth : (gutter ++ " | " ++ blanks).length =
      (number ++ " | ").toList.length + blanks.length := by
    simp only [String.length_append, String.length_toList, h]
  rw [String.toList_append, hwidth, List.getElem?_append_right (Nat.le_add_right _ _),
    Nat.add_sub_cancel_left]

/-- Every syntax error of a source text is at a token, on a line of the text or at the end of one.
Up to the column `maxCaretColumn` it has a report, which ends with two rows: that line behind its
number and, behind a gutter of the same width, the caret under the first character of the token. -/
theorem syntaxReport_of_mem_errors (path : String) {source : String} {e : SyntaxError}
    (he : e ∈ (parseSource source).errors) :
    let line := shownLine source e.pos
    let numbered := toString e.pos.line ++ " | " ++ line
    (1 ≤ e.pos.line ∧ 1 ≤ e.pos.column ∧ e.pos.column ≤ line.length + 1) ∧
      (∃ t ∈ tokenize source, e.IsAt t ∧ (t.kind ≠ .eof → ∃ front c lexeme rest,
        source.toList = front ++ (c :: lexeme ++ rest) ∧ t.pos = placeBehind front ∧
          LexemeAt (c :: lexeme) rest t.lexeme ∧ line.toList[e.pos.column - 1]? = some c)) ∧
      (e.pos.column ≤ maxCaretColumn → ∃ head gutter blanks : String,
        syntaxReport? path (textLines source).toArray e =
            some (head ++ "\n" ++ numbered ++ "\n" ++ (gutter ++ " | " ++ blanks ++ "^")) ∧
          gutter.length = (toString e.pos.line).length ∧
          (∀ c ∈ gutter.toList ++ blanks.toList, c = ' ') ∧ '\n' ∉ numbered.toList ∧
          numbered.toList[(gutter ++ " | " ++ blanks).length]? = line.toList[e.pos.column - 1]?) ∧
      (maxCaretColumn < e.pos.column →
        syntaxReport? path (textLines source).toArray e = none) := by
  intro line numbered
  obtain ⟨t, ht, hat⟩ := exists_isAt_of_mem_errors_parseSource he
  obtain ⟨hend, hchar⟩ := token_on_shownLine ht
  rw [← hat.1] at hend hchar
  obtain ⟨hline, hcolumn⟩ : 1 ≤ e.pos.line ∧ 1 ≤ e.pos.column := by
    rw [hat.1]
    exact one_le_of_mem_tokenize ht
  have hwithin : e.pos.column - 1 ≤ line.length := by
    by_cases hkind : t.kind = .eof
    · exact Nat.le_of_eq (hend hkind)
    · obtain ⟨_, _, _, _, -, -, -, habove⟩ := hchar hkind
      have hlt := (List.getElem?_eq_some_iff.mp habove).1
      rw [String.length_toList] at hlt
      exact Nat.le_of_lt hlt
  refine ⟨⟨hline, hcolumn, by omega⟩, ⟨t, ht, hat, hat.1 ▸ hchar⟩, fun hfits => ?_, fun hfar => ?_⟩
  · obtain ⟨head, gutter, blanks, hreport, hgutter, hblanks, hspaces⟩ :=
      syntaxReport_rows path source hfits
    refine ⟨head, gutter, blanks, hreport, hgutter, hspaces, feed_not_mem_numbered source e.pos, ?_⟩
    rw [← hblanks]
    exact getElem?_behind_gutter hgutter line blanks
  · rw [syntaxReport?, if_pos hfar]

/-- An error at a character behind a string over two lines. Its line, which is not the first one,
holds a character of two bytes and ends with a carriage return. -/
theorem syntaxReport_of_mem_errors_secondLine :
    let source := "\x7b\x7b 'a\né' + , \x7d\x7d\r\n"
    let e : SyntaxError := ⟨⟨2, 6⟩, .noOperand .illegal⟩
    let numbered := "2 | é' + , \x7d\x7d"
    e ∈ (parseSource source).errors ∧
      (shownLine source e.pos).toList[e.pos.column - 1]? = some ',' ∧
      ∃ head gutter blanks : String,
        syntaxReport? "page" (textLines source).toArray e =
          some (head ++ "\n" ++ numbered ++ "\n" ++ (gutter ++ " | " ++ blanks ++ "^")) ∧
        numbered.toList[(gutter ++ " | " ++ blanks).length]? = some ',' := by
  intro source e numbered
  have he : e ∈ (parseSource source).errors := by decide +kernel
  have hrow : toString e.pos.line ++ " | " ++ shownLine source e.pos = numbered := by
    decide +kernel
  have hchar : (shownLine source e.pos).toList[e.pos.column - 1]? = some ',' := by decide +kernel
  obtain ⟨-, -, hreport, -⟩ := syntaxReport_of_mem_errors "page" he
  obtain ⟨head, gutter, blanks, hreport, -, -, -, habove⟩ := hreport (by decide)
  rw [hrow] at hreport habove
  exact ⟨he, hchar, head, gutter, blanks, hreport, habove.trans hchar⟩

/-! ## Too far to the right -/

theorem placeBehind_replicate_space (n : Nat) :
    placeBehind (List.replicate n ' ') = ⟨1, 1 + n⟩ := by
  have hcount : (List.replicate n ' ').count '\n' = 0 := List.count_eq_zero.mpr (by simp)
  rw [placeBehind, hcount, List.reverse_replicate, List.takeWhile_replicate]
  simp

theorem cut_spaces_outputClose (n : Nat) :
    cut ' ' (List.replicate n ' ' ++ ['\x7d', '\x7d']) =
      ⟨.blank, List.replicate (n + 1) ' ', ['\x7d', '\x7d']⟩ := by
  have hblank : ∀ c ∈ List.replicate n ' ', isBlank c = true := by
    intro c hc
    rw [List.eq_of_mem_replicate hc]
    decide
  have hbrace : ∀ c ∈ ['\x7d', '\x7d'].head?, isBlank c = false :=
    forall_head?_cons (by decide) ['\x7d']
  rw [cut, if_pos (by decide), (span_append hblank hbrace).1, (span_append hblank hbrace).2]
  rfl

theorem tokenize_spaces_outputClose {n : Nat} (hn : n ≠ 0) :
    ∃ q, tokenize (String.ofList (List.replicate n ' ' ++ ['\x7d', '\x7d'])) =
      [⟨.punctuation .outputClose, "\x7d\x7d", ⟨1, 1 + n⟩⟩, .endOfText q] := by
  obtain ⟨m, rfl⟩ := Nat.exists_eq_succ_of_ne_zero hn
  have hplace : Position.first.after (List.replicate (m + 1) ' ') = ⟨1, 1 + (m + 1)⟩ :=
    (placeBehind_append [] _).symm.trans (placeBehind_replicate_space (m + 1))
  have hlast (p : Position) : (piecesFrom [] p ['\x7d', '\x7d']).filterMap Piece.token? =
      [⟨.punctuation .outputClose, "\x7d\x7d", p⟩] := by
    rw [piecesFrom_cons]
    have hcut : cut '\x7d' ['\x7d'] =
        ⟨.token (.punctuation .outputClose) "\x7d\x7d", ['\x7d', '\x7d'], []⟩ := by decide
    rw [hcut, piecesFrom]
    rfl
  refine ⟨Position.first.after (List.replicate (m + 1) ' ' ++ ['\x7d', '\x7d']), ?_⟩
  rw [tokenize_eq, pieces, String.toList_ofList, List.replicate_succ, List.cons_append,
    piecesFrom_cons, cut_spaces_outputClose, hplace, List.filterMap_cons, hlast]
  rfl

/-- An error behind `maxCaretColumn` blanks has no report. -/
theorem syntaxReport_farRight :
    let source := String.ofList (List.replicate maxCaretColumn ' ' ++ ['\x7d', '\x7d'])
    let e : SyntaxError := ⟨⟨1, 65536⟩, .noOperand (.punctuation .outputClose)⟩
    e ∈ (parseSource source).errors ∧
      ∀ path, syntaxReport? path (textLines source).toArray e = none := by
  intro source e
  obtain ⟨q, htokens⟩ : ∃ q, tokenize source =
      [⟨.punctuation .outputClose, "\x7d\x7d", ⟨1, 1 + maxCaretColumn⟩⟩, .endOfText q] :=
    tokenize_spaces_outputClose (by decide)
  have hparse : (parseSource source).errors = [e] := by
    rw [parseSource, htokens]
    rfl
  refine ⟨hparse ▸ List.mem_singleton_self e, fun path => ?_⟩
  rw [syntaxReport?, if_pos (by decide)]

end Templates
