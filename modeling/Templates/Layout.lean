import Templates.Expr.Text
import Templates.Stmt

/-!
# Layout of a template

The canonical form has one row for every tag and every bare expression. A `Row` knows its depth, and
`Row.text` is the same for every `Style`. A body inside a conditional or a loop is one step deeper
than its tags; a block is a part of the page and its body stays level, unless `Style.indentBlocks`
is set. `Template.text` writes the rows one after the other; `Template.print`, in
`Templates.Proofs.LineWriter`, writes the same text with a depth that is counted up and down.

Two bare expressions in succession need care: a minus sign at the start of the second would join
them to one subtraction, so `bareText` puts such an expression in parentheses.
-/

namespace Templates

/-- The ways to show depth. -/
structure Style where
  /-- The number of spaces for each step of depth. -/
  indentWidth : Nat := 4
  /-- The body of a block is a step deeper than its tags. -/
  indentBlocks : Bool := false
  deriving DecidableEq, Repr, Inhabited

/-- One line of the canonical form. -/
structure Row where
  /-- The number of bodies around it that count as deeper. -/
  depth : Nat
  /-- The text behind the indentation. -/
  text : String
  deriving DecidableEq, Repr

/-- The line of a row; an empty row is not indented. -/
def Row.line (style : Style) (r : Row) : String :=
  if r.text.isEmpty then "\n"
  else String.ofList (List.replicate (r.depth * style.indentWidth) ' ') ++ r.text ++ "\n"

/-- Writes the line of a row behind a text. -/
def Row.writeTo (style : Style) (out : String) (r : Row) : String :=
  if r.text.isEmpty then out.push '\n'
  else (out.pushn ' ' (r.depth * style.indentWidth) ++ r.text).push '\n'

/-- The text in front of the line stays as it is. -/
theorem Row.writeTo_eq (style : Style) (out : String) (r : Row) :
    r.writeTo style out = out ++ r.line style := by
  have hpush (n : Nat) : out.pushn ' ' n = out ++ String.ofList (List.replicate n ' ') := by
    induction n with
    | zero => simp [String.pushn, Nat.repeat]
    | succ n ih =>
      rw [String.pushn_eq_repeat_push] at ih ⊢
      rw [Nat.repeat, ih, List.replicate_succ', String.ofList_append, ← String.append_assoc]
      rfl
  unfold writeTo line
  split
  · rfl
  · rw [hpush, String.push_eq_append]
    simp only [String.append_assoc]
    rfl

/-! ## The text of tags -/

/-- A statement tag with nothing but a word. -/
def wordTag (word : Keyword) : String :=
  Punctuation.tagOpen.spelling ++ " " ++ word.spelling ++ " " ++ Punctuation.tagClose.spelling

/-- A statement tag with a word and what belongs to it. -/
def headTag (word : Keyword) (head : String) : String :=
  Punctuation.tagOpen.spelling ++ " " ++ word.spelling ++ " " ++ head ++ " " ++
    Punctuation.tagClose.spelling

/-- A tag that writes a value. -/
def outputTag (x : Expr) : String :=
  Punctuation.outputOpen.spelling ++ " " ++ x.text ++ " " ++ Punctuation.outputClose.spelling

/-- The head of a `set` tag. -/
def setHead (name : Name) (value : Expr) : String :=
  name.text ++ " " ++ Operator.assign.spelling ++ " " ++ value.text

/-- The head of a `for` tag. -/
def loopHead (item : Name) (sequence : Expr) : String :=
  item.text ++ " " ++ Keyword.in_.spelling ++ " " ++ sequence.text

/-- The tag that opens a block. -/
def blockTag : Option Name → String
  | some name => headTag .block name.text
  | none => wordTag .block

/-- A bare expression; `afterBare` tells that it follows another one. -/
def bareText (afterBare : Bool) (x : Expr) : String :=
  Expr.wrap (afterBare && x.leadsWithMinus) x.text

/-- The statement is a bare expression. -/
def Stmt.isBare : Stmt → Bool
  | bare _ => true
  | _ => false

/-! ## Rows -/

mutual

/-- The rows of a statement. -/
def Stmt.rows (style : Style) (depth : Nat) (afterBare : Bool) : Stmt → List Row
  | .set _ name value => [⟨depth, headTag .set (setHead name value)⟩]
  | .cond _ condition body rest =>
    ⟨depth, headTag .if_ condition.text⟩ ::
      (bodyRows style (depth + 1) false body ++ rest.rows style depth)
  | .loop _ item sequence body =>
    ⟨depth, headTag .for_ (loopHead item sequence)⟩ ::
      (bodyRows style (depth + 1) false body ++ [⟨depth, wordTag .endfor⟩])
  | .block _ name body =>
    ⟨depth, blockTag name⟩ ::
      (bodyRows style (if style.indentBlocks then depth + 1 else depth) false body ++
        [⟨depth, wordTag .endblock⟩])
  | .output _ value => [⟨depth, outputTag value⟩]
  | .bare value => [⟨depth, bareText afterBare value⟩]

/-- The rows of the branches of a conditional behind one of them. -/
def Branches.rows (style : Style) (depth : Nat) : Branches → List Row
  | .done => [⟨depth, wordTag .endif⟩]
  | .otherwise body =>
    ⟨depth, wordTag .else_⟩ ::
      (bodyRows style (depth + 1) false body ++ [⟨depth, wordTag .endif⟩])
  | .elseIf condition body rest =>
    ⟨depth, headTag .elif condition.text⟩ ::
      (bodyRows style (depth + 1) false body ++ rest.rows style depth)

/-- The rows of a body; `afterBare` tells that it follows a bare expression. -/
def bodyRows (style : Style) (depth : Nat) (afterBare : Bool) : List Stmt → List Row
  | [] => []
  | s :: ss => s.rows style depth afterBare ++ bodyRows style depth s.isBare ss

end

/-- The rows of a template. -/
def Template.rows (style : Style) (t : Template) : List Row := bodyRows style 0 false t

/-- The canonical text of a template. -/
def Template.text (style : Style) (t : Template) : String :=
  (Template.rows style t).foldl (Row.writeTo style) ""

/-- The canonical text consists of the lines of the rows. -/
theorem Template.text_eq_join (style : Style) (t : Template) :
    Template.text style t = String.join ((Template.rows style t).map (Row.line style)) := by
  have hwrite : Row.writeTo style = fun out r => out ++ r.line style := by
    funext out r
    exact r.writeTo_eq style out
  simp only [Template.text, String.join, List.foldl_map, hwrite]

end Templates
