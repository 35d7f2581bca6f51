import Templates.Layout

/-!
# Writing line by line

`Template.text` writes rows that know their depth. `Template.print` writes the same text with a
`LineWriter`, which does not know the tree: `indent` and `dedent` change its depth, and `write` puts
the indentation in front of the first text on a line. The functions `Expr.print`, `Stmt.print` and
`printBody` write a tree piece by piece and pass the writer along.

The two agree (`Template.print_eq_text`). A text may be written in several pieces (`write_write`),
so an expression is written as `Expr.text` (`Expr.print_eq`), and `endLine` turns what was written
on a line into a row at the depth of the writer (`endLine_write`). By induction over the tree, a
statement adds its `Stmt.rows` to a writer that is `Ready` and leaves the depth as it was
(`Stmt.print_eq`), whatever `indent` and `dedent` do in between (`inBody_eq`).
-/

namespace Templates

/-! ## The writer -/

/-- A text that is being written. -/
structure LineWriter where
  /-- The text so far. -/
  output : String
  /-- The depth of the next line. -/
  depth : Nat
  /-- The number of spaces for each step of `depth`. -/
  indentWidth : Nat
  /-- Nothing has been written on the current line. -/
  atLineStart : Bool
  deriving DecidableEq, Repr

namespace LineWriter

/-- The writer of an empty text. -/
def start (style : Style) : LineWriter := ⟨"", 0, style.indentWidth, true⟩

/-- Makes the lines that follow one step deeper. -/
def indent (w : LineWriter) : LineWriter := { w with depth := w.depth + 1 }

/-- Takes back one `indent`. Depth `0` stays as it is. -/
def dedent (w : LineWriter) : LineWriter := { w with depth := w.depth - 1 }

/-- Writes a text, behind the indentation if it is the first on its line. -/
def write (w : LineWriter) (text : String) : LineWriter :=
  if text.isEmpty then w
  else
    let before := if w.atLineStart then w.output.pushn ' ' (w.depth * w.indentWidth) else w.output
    { w with output := before ++ text, atLineStart := false }

/-- Ends the current line. -/
def endLine (w : LineWriter) : LineWriter :=
  { w with output := w.output.push '\n', atLineStart := true }

/-- Writes `{%` and the word of a tag. -/
def openTag (w : LineWriter) (word : Keyword) : LineWriter :=
  ((w.write Punctuation.tagOpen.spelling).write " ").write word.spelling

/-- Writes `%}` and ends the line. -/
def closeTag (w : LineWriter) : LineWriter :=
  ((w.write " ").write Punctuation.tagClose.spelling).endLine

/-- Writes a tag with nothing but a word. -/
def wordTag (w : LineWriter) (word : Keyword) : LineWriter := (w.openTag word).closeTag

/-- Writes the opening delimiter of a tag that writes a value. -/
def openOutput (w : LineWriter) : LineWriter :=
  (w.write Punctuation.outputOpen.spelling).write " "

/-- Writes the closing delimiter of a tag that writes a value and ends the line. -/
def closeOutput (w : LineWriter) : LineWriter :=
  ((w.write " ").write Punctuation.outputClose.spelling).endLine

/-- Writes something between parentheses, if they are asked for. -/
def inParens (parens : Bool) (inner : LineWriter → LineWriter) (w : LineWriter) : LineWriter :=
  if parens then
    (inner (w.write Punctuation.parenOpen.spelling)).write Punctuation.parenClose.spelling
  else inner w

/-- Writes a body, one step deeper if it is to be `indented`. -/
def inBody (indented : Bool) (inner : LineWriter → LineWriter) (w : LineWriter) : LineWriter :=
  if indented then (inner w.indent).dedent else inner w

end LineWriter

/-! ## Writing a tree -/

/-- Writes an expression. -/
def Expr.print : Expr → LineWriter → LineWriter
  | .ident _ name, w => w.write name
  | .int _ value, w => w.write (toString value.toInt)
  | .str _ value, w => w.write (StringLiteral.quote value)
  | .bool _ value, w => w.write (boolText value)
  | .null _, w => w.write Keyword.null.spelling
  | .unary _ op x, w =>
    LineWriter.inParens (x.precedence < .unary) x.print (w.write op.sign.spelling)
  | .binary _ op l r, w =>
    let w := LineWriter.inParens (l.precedence < op.precedence) l.print w
    let w := ((w.write " ").write op.sign.spelling).write " "
    LineWriter.inParens (r.precedence ≤ op.precedence) r.print w
  | .attr _ x name, w =>
    let w := LineWriter.inParens (x.precedence < .attr) x.print w
    (w.write Operator.dot.spelling).write name
  | .filter _ x name, w =>
    let w := LineWriter.inParens (x.precedence < .filter) x.print w
    (w.write (" " ++ Operator.pipe.spelling ++ " ")).write name

/-- Writes a tag with a word and an expression. -/
def printCondition (word : Keyword) (condition : Expr) (w : LineWriter) : LineWriter :=
  (condition.print ((w.openTag word).write " ")).closeTag

/-- Writes the tag that opens a loop. -/
def printLoopHead (item : Name) (sequence : Expr) (w : LineWriter) : LineWriter :=
  let w := ((w.openTag .for_).write " ").write item.text
  (sequence.print (w.write (" " ++ Keyword.in_.spelling ++ " "))).closeTag

/-- Writes the tag that opens a block. -/
def printBlockHead (name : Option Name) (w : LineWriter) : LineWriter :=
  match name with
  | some name => (((w.openTag .block).write " ").write name.text).closeTag
  | none => w.wordTag .block

/-- Writes a bare expression; `afterBare` tells that it follows another one. -/
def printBare (afterBare : Bool) (x : Expr) (w : LineWriter) : LineWriter :=
  (LineWriter.inParens (afterBare && x.leadsWithMinus) x.print w).endLine

mutual

/-- Writes a statement. -/
def Stmt.print (style : Style) (afterBare : Bool) : Stmt → LineWriter → LineWriter
  | .set _ name value, w =>
    let w := ((w.openTag .set).write " ").write name.text
    (value.print (w.write (" " ++ Operator.assign.spelling ++ " "))).closeTag
  | .cond _ condition body rest, w =>
    rest.print style (.inBody true (printBody style false body) (printCondition .if_ condition w))
  | .loop _ item sequence body, w =>
    let w := printLoopHead item sequence w
    (LineWriter.inBody true (printBody style false body) w).wordTag .endfor
  | .block _ name body, w =>
    let w := printBlockHead name w
    (LineWriter.inBody style.indentBlocks (printBody style false body) w).wordTag .endblock
  | .output _ value, w => (value.print w.openOutput).closeOutput
  | .bare value, w => printBare afterBare value w

/-- Writes the branches of a conditional behind one of them. -/
def Branches.print (style : Style) : Branches → LineWriter → LineWriter
  | .done, w => w.wordTag .endif
  | .otherwise body, w =>
    (LineWriter.inBody true (printBody style false body) (w.wordTag .else_)).wordTag .endif
  | .elseIf condition body rest, w =>
    rest.print style (.inBody true (printBody style false body) (printCondition .elif condition w))

/-- Writes a body; `afterBare` tells that it follows a bare expression. -/
def printBody (style : Style) (afterBare : Bool) : List Stmt → LineWriter → LineWriter
  | [], w => w
  | s :: ss, w => printBody style s.isBare ss (s.print style afterBare w)

end

/-- The text of a template as a `LineWriter` writes it. -/
def Template.print (style : Style) (t : Template) : String :=
  (printBody style false t (.start style)).output

/-! ## What the writer does -/

namespace LineWriter

variable {style : Style} {w : LineWriter}

/-- Two texts written in succession are one text. -/
theorem write_write (w : LineWriter) (a b : String) : (w.write a).write b = w.write (a ++ b) := by
  by_cases ha : a = ""
  · subst ha
    simp [write]
  · by_cases hb : b = ""
    · subst hb
      simp [write]
    · simp [write, ha, hb, String.append_assoc]

theorem inParens_eq {inner : LineWriter → LineWriter} {text : String}
    (h : ∀ w, inner w = w.write text) (parens : Bool) (w : LineWriter) :
    inParens parens inner w = w.write (Expr.wrap parens text) := by
  cases parens with
  | false => exact h w
  | true =>
    rw [inParens, if_pos rfl, h, write_write, write_write, Expr.wrap, if_pos rfl]
    rfl

end LineWriter

/-- An expression is written as `Expr.text`. -/
theorem Expr.print_eq (x : Expr) (w : LineWriter) : x.print w = w.write x.text := by
  induction x generalizing w with
  | ident | int | str | bool | null => rfl
  | unary _ op x ih => rw [print, LineWriter.inParens_eq ih, LineWriter.write_write, text]
  | binary _ op l r ihl ihr =>
    simp only [print, LineWriter.inParens_eq ihl, LineWriter.inParens_eq ihr,
      LineWriter.write_write, text]
  | attr _ x name ih =>
    simp only [print, LineWriter.inParens_eq ih, LineWriter.write_write, text]
  | filter _ x name ih =>
    simp only [print, LineWriter.inParens_eq ih, LineWriter.write_write, text,
      String.append_assoc]

namespace LineWriter

variable {style : Style} {w : LineWriter}

/-- The writer is at the start of a line and indents as the style says. -/
structure Ready (style : Style) (w : LineWriter) : Prop where
  atLineStart : w.atLineStart = true
  indentWidth : w.indentWidth = style.indentWidth

/-- Adds the lines of some rows. -/
def addRows (style : Style) (rows : List Row) (w : LineWriter) : LineWriter :=
  { w with output := rows.foldl (Row.writeTo style) w.output }

theorem ready_start (style : Style) : (start style).Ready style := ⟨rfl, rfl⟩

theorem Ready.indent (h : w.Ready style) : w.indent.Ready style := ⟨h.1, h.2⟩

theorem Ready.addRows (h : w.Ready style) (rows : List Row) : (w.addRows style rows).Ready style :=
  ⟨h.1, h.2⟩

theorem addRows_append (rows rows' : List Row) :
    w.addRows style (rows ++ rows') = (w.addRows style rows).addRows style rows' := by
  simp only [addRows, List.foldl_append]

/-- A line that is ended is a row at the depth of the writer. -/
theorem endLine_write (h : w.Ready style) (text : String) :
    (w.write text).endLine = w.addRows style [⟨w.depth, text⟩] := by
  by_cases hempty : text = ""
  · subst hempty
    simp [write, endLine, addRows, Row.writeTo, h.atLineStart]
  · simp [write, endLine, addRows, Row.writeTo, hempty, h.atLineStart, h.indentWidth]

theorem closeTag_write (h : w.Ready style) (text : String) :
    (w.write text).closeTag =
      w.addRows style [⟨w.depth, text ++ " " ++ Punctuation.tagClose.spelling⟩] := by
  rw [closeTag, write_write, write_write, endLine_write h, String.append_assoc]

theorem closeOutput_write (h : w.Ready style) (text : String) :
    (w.write text).closeOutput =
      w.addRows style [⟨w.depth, text ++ " " ++ Punctuation.outputClose.spelling⟩] := by
  rw [closeOutput, write_write, write_write, endLine_write h, String.append_assoc]

theorem wordTag_eq (h : w.Ready style) (word : Keyword) :
    w.wordTag word = w.addRows style [⟨w.depth, Templates.wordTag word⟩] := by
  simp only [wordTag, openTag, write_write, closeTag_write h, Templates.wordTag,
    String.append_assoc]

/-- `dedent` behind a body gives back the depth in front of it. -/
theorem inBody_eq {inner : LineWriter → LineWriter} (rows : Nat → List Row)
    (hinner : ∀ w : LineWriter, w.Ready style → inner w = w.addRows style (rows w.depth))
    (h : w.Ready style) (indented : Bool) :
    inBody indented inner w =
      w.addRows style (rows (if indented then w.depth + 1 else w.depth)) := by
  cases indented with
  | false => exact hinner w h
  | true =>
    rw [inBody, if_pos rfl, hinner w.indent h.indent]
    rfl

/-- The row of a tag and the rows of the body behind it. -/
theorem inBody_addRows {inner : LineWriter → LineWriter} (rows : Nat → List Row)
    (hinner : ∀ w : LineWriter, w.Ready style → inner w = w.addRows style (rows w.depth))
    (h : w.Ready style) (head : Row) (indented : Bool) :
    inBody indented inner (w.addRows style [head]) =
      w.addRows style (head :: rows (if indented then w.depth + 1 else w.depth)) := by
  rw [inBody_eq rows hinner (h.addRows [head]), ← addRows_append]
  rfl

end LineWriter

/-! ## What is written -/

section Print

variable {style : Style} {w : LineWriter}

theorem printCondition_eq (h : w.Ready style) (word : Keyword) (condition : Expr) :
    printCondition word condition w =
      w.addRows style [⟨w.depth, headTag word condition.text⟩] := by
  simp only [printCondition, LineWriter.openTag, condition.print_eq, LineWriter.write_write,
    LineWriter.closeTag_write h, headTag, String.append_assoc]

theorem printLoopHead_eq (h : w.Ready style) (item : Name) (sequence : Expr) :
    printLoopHead item sequence w =
      w.addRows style [⟨w.depth, headTag .for_ (loopHead item sequence)⟩] := by
  simp only [printLoopHead, LineWriter.openTag, sequence.print_eq, LineWriter.write_write,
    LineWriter.closeTag_write h, headTag, loopHead, String.append_assoc]

theorem printBlockHead_eq (h : w.Ready style) (name : Option Name) :
    printBlockHead name w = w.addRows style [⟨w.depth, blockTag name⟩] := by
  cases name with
  | none => exact LineWriter.wordTag_eq h .block
  | some name =>
    simp only [printBlockHead, LineWriter.openTag, LineWriter.write_write,
      LineWriter.closeTag_write h, blockTag, headTag, String.append_assoc]

theorem printBare_eq (h : w.Ready style) (afterBare : Bool) (x : Expr) :
    printBare afterBare x w = w.addRows style [⟨w.depth, bareText afterBare x⟩] := by
  rw [printBare, LineWriter.inParens_eq x.print_eq, LineWriter.endLine_write h, bareText]

mutual

/-- A statement adds its `Stmt.rows` at the depth of the writer. -/
theorem Stmt.print_eq : ∀ (s : Stmt) (afterBare : Bool) {w : LineWriter}, w.Ready style →
    s.print style afterBare w = w.addRows style (s.rows style w.depth afterBare)
  | .set _ name value, _, w, h => by
    simp only [Stmt.print, Stmt.rows, LineWriter.openTag, value.print_eq, LineWriter.write_write,
      LineWriter.closeTag_write h, headTag, setHead, String.append_assoc]
  | .cond _ condition body rest, _, w, h => by
    have hbody := LineWriter.inBody_addRows (bodyRows style · false body) (printBody_eq body false)
      h ⟨w.depth, headTag .if_ condition.text⟩ true
    rw [Stmt.print, printCondition_eq h, hbody, rest.print_eq (h.addRows _),
      ← LineWriter.addRows_append]
    rfl
  | .loop _ item sequence body, _, w, h => by
    have hbody := LineWriter.inBody_addRows (bodyRows style · false body) (printBody_eq body false)
      h ⟨w.depth, headTag .for_ (loopHead item sequence)⟩ true
    rw [Stmt.print, printLoopHead_eq h, hbody, LineWriter.wordTag_eq (h.addRows _),
      ← LineWriter.addRows_append]
    rfl
  | .block _ name body, _, w, h => by
    have hbody := LineWriter.inBody_addRows (bodyRows style · false body) (printBody_eq body false)
      h ⟨w.depth, blockTag name⟩ style.indentBlocks
    rw [Stmt.print, printBlockHead_eq h, hbody, LineWriter.wordTag_eq (h.addRows _),
      ← LineWriter.addRows_append]
    rfl
  | .output _ value, _, w, h => by
    simp only [Stmt.print, Stmt.rows, LineWriter.openOutput, value.print_eq,
      LineWriter.write_write, LineWriter.closeOutput_write h, outputTag]
  | .bare value, afterBare, w, h => printBare_eq h afterBare value

theorem Branches.print_eq : ∀ (rest : Branches) {w : LineWriter}, w.Ready style →
    rest.print style w = w.addRows style (rest.rows style w.depth)
  | .done, w, h => LineWriter.wordTag_eq h .endif
  | .otherwise body, w, h => by
    have hbody := LineWriter.inBody_addRows (bodyRows style · false body) (printBody_eq body false)
      h ⟨w.depth, wordTag .else_⟩ true
    rw [Branches.print, LineWriter.wordTag_eq h, hbody, LineWriter.wordTag_eq (h.addRows _),
      ← LineWriter.addRows_append]
    rfl
  | .elseIf condition body rest, w, h => by
    have hbody := LineWriter.inBody_addRows (bodyRows style · false body) (printBody_eq body false)
      h ⟨w.depth, headTag .elif condition.text⟩ true
    rw [Branches.print, printCondition_eq h, hbody, rest.print_eq (h.addRows _),
      ← LineWriter.addRows_append]
    rfl

/-- A body adds its `bodyRows` at the depth of the writer. -/
theorem printBody_eq : ∀ (body : List Stmt) (afterBare : Bool) (w : LineWriter), w.Ready style →
    printBody style afterBare body w = w.addRows style (bodyRows style w.depth afterBare body)
  | [], _, _, _ => rfl
  | s :: ss, afterBare, w, h => by
    rw [printBody, s.print_eq afterBare h, printBody_eq ss s.isBare _ (h.addRows _), bodyRows,
      LineWriter.addRows_append]
    rfl

end

/-- A `LineWriter` writes the canonical text. -/
theorem Template.print_eq_text (style : Style) (t : Template) :
    Template.print style t = Template.text style t := by
  rw [Template.print, printBody_eq t false _ (LineWriter.ready_start style)]
  rfl

end Print

end Templates
