import Templates.Expr.Text
import Templates.Reader
import Templates.Text.Quoted

/-!
# Dumps

The texts that `--lex` and `--parse` print: `Token.dump` writes a token on one line, `Template.dump`
a template as an indented outline of its tree. Every part of the tree has its name in the outline,
and texts are `quoted` so that every character is visible.
-/

namespace Templates

/-! ## Names of tokens -/

/-- The name of a reserved word in a dump. -/
def Keyword.label : Keyword → String
  | if_ => "If"
  | elif => "Elif"
  | else_ => "Else"
  | endif => "EndIf"
  | for_ => "For"
  | in_ => "In"
  | endfor => "EndFor"
  | set => "Set"
  | block => "Block"
  | endblock => "EndBlock"
  | true_ => "True"
  | false_ => "False"
  | null => "Null"

/-- The name of an operator sign in a dump. -/
def Operator.label : Operator → String
  | assign => "Assign"
  | plus => "Plus"
  | minus => "Minus"
  | bang => "Bang"
  | star => "Star"
  | slash => "Slash"
  | dot => "Dot"
  | pipe => "Pipe"
  | less => "Lt"
  | greater => "Gt"
  | equal => "EqEq"
  | notEqual => "NotEq"
  | lessEqual => "LtEq"
  | greaterEqual => "GtEq"

/-- The name of a punctuation mark in a dump. -/
def Punctuation.label : Punctuation → String
  | outputOpen => "OutputOpen"
  | outputClose => "OutputClose"
  | tagOpen => "TagOpen"
  | tagClose => "TagClose"
  | parenOpen => "LParen"
  | parenClose => "RParen"

/-- The name of an operator in front of an operand in a dump. -/
def UnaryOp.label : UnaryOp → String
  | not => "Not"
  | neg => "Neg"

/-- The name of an operator between operands in a dump. -/
def BinaryOp.label : BinaryOp → String
  | add => "Add"
  | sub => "Sub"
  | mul => "Mul"
  | div => "Div"
  | eq => "Eq"
  | ne => "NotEq"
  | lt => "Lt"
  | gt => "Gt"
  | le => "LtEq"
  | ge => "GtEq"

/-- The kind of a token in a dump. -/
def TokenKind.dump : TokenKind → String
  | keyword k => "Keyword(" ++ k.label ++ ")"
  | operator o => "Operator(" ++ o.label ++ ")"
  | punctuation p => "Punctuation(" ++ p.label ++ ")"
  | ident => "Ident"
  | int => "Int"
  | string => "String"
  | illegal => "Illegal"
  | eof => "Eof"

/-- A token on one line. -/
def Token.dump (t : Token) : String :=
  "Token \x7b kind: " ++ t.kind.dump ++ ", literal: " ++ quoted t.literal ++ ", line: " ++
    toString t.pos.line ++ ", column: " ++ toString t.pos.column ++ " \x7d"

/-! ## Outlines -/

/-- An outline: a text, or parts between an opening and a closing text, where a part may be named.
-/
inductive Outline
  /-- A text on one line. -/
  | leaf (s : String)
  /-- A part with its name. -/
  | named (name : String) (part : Outline)
  /-- Parts, each on lines of its own, between two texts. -/
  | group (opener : String) (parts : List Outline) (closer : String)

namespace Outline

/-- The spaces in front of a line at a depth. -/
def indent (depth : Nat) : String := String.ofList (List.replicate (4 * depth) ' ')

mutual

/-- The text of an outline that begins on a line at a depth. -/
def render (depth : Nat) : Outline → String
  | leaf s => s
  | named name part => name ++ ": " ++ part.render depth
  | group opener [] closer => opener ++ closer
  | group opener (p :: ps) closer =>
    opener ++ "\n" ++ renderParts (depth + 1) (p :: ps) ++ indent depth ++ closer

/-- The lines of some parts at a depth. -/
def renderParts (depth : Nat) : List Outline → String
  | [] => ""
  | p :: ps => indent depth ++ p.render depth ++ ",\n" ++ renderParts depth ps

end

/-- A part with named parts of its own. -/
def record (name : String) (parts : List Outline) : Outline := group (name ++ " \x7b") parts "\x7d"

/-- A case with its parts. -/
def case_ (name : String) (parts : List Outline) : Outline := group (name ++ "(") parts ")"

/-- A row of parts. -/
def row (parts : List Outline) : Outline := group "[" parts "]"

/-- A text, quoted. -/
def string (s : String) : Outline := leaf (quoted s)

/-- A part in its place in the template. -/
def placed (pos : Position) (part : Outline) : Outline :=
  record "Spanned"
    [named "node" part,
      named "span"
        (record "Span"
          [named "line" (leaf (toString pos.line)), named "column" (leaf (toString pos.column))])]

end Outline

open Outline

/-- The outline of a name. -/
def Name.outline (n : Name) : Outline := placed n.pos (string n.text)

/-- The outline of an expression. -/
def Expr.outline : Expr → Outline
  | .ident pos name => placed pos (case_ "Ident" [string name])
  | .int pos value => placed pos (case_ "Int" [leaf (toString value.toInt)])
  | .str pos value => placed pos (case_ "Str" [string value])
  | .bool pos value => placed pos (case_ "Bool" [leaf (Expr.boolText value)])
  | .null pos => placed pos (leaf "Null")
  | .unary pos op x => placed pos (case_ "Prefix" [leaf op.label, x.outline])
  | .binary pos op l r => placed pos (case_ "Infix" [l.outline, leaf op.label, r.outline])
  | .attr pos x name => placed pos (case_ "Attribute" [x.outline, string name])
  | .filter pos x name => placed pos (case_ "Filter" [x.outline, string name])

mutual

/-- The outline of a statement. -/
def Stmt.outline : Stmt → Outline
  | .set pos name value =>
    placed pos
      (case_ "Set" [record "SetStmt" [named "name" name.outline, named "value" value.outline]])
  | .cond pos condition body rest =>
    placed pos
      (case_ "If"
        [record "IfStmt"
          [named "condition" condition.outline,
            named "consequence" (record "Block" [named "statements" (row (bodyOutlines body))]),
            named "elseifs" (row rest.elseIfOutlines),
            named "alternative" rest.alternativeOutline]])
  | .loop pos item sequence body =>
    placed pos
      (case_ "For"
        [record "ForStmt"
          [named "iterator" item.outline, named "sequence" sequence.outline,
            named "body" (record "Block" [named "statements" (row (bodyOutlines body))])]])
  | .block pos name body =>
    placed pos
      (case_ "Block"
        [record "BlockStmt"
          [named "name" (name.elim (leaf "None") fun n => case_ "Some" [n.outline]),
            named "body" (record "Block" [named "statements" (row (bodyOutlines body))])]])
  | .output pos value => placed pos (case_ "Output" [value.outline])
  | .bare value => placed value.pos (case_ "Expr" [value.outline])

/-- The outlines of the branches with a condition behind one of them. -/
def Branches.elseIfOutlines : Branches → List Outline
  | .done | .otherwise _ => []
  | .elseIf condition body rest =>
    record "ElseIf"
        [named "condition" condition.outline,
          named "consequence" (record "Block" [named "statements" (row (bodyOutlines body))])] ::
      rest.elseIfOutlines

/-- The outline of the branch without a condition. -/
def Branches.alternativeOutline : Branches → Outline
  | .done => leaf "None"
  | .otherwise body =>
    case_ "Some" [record "Block" [named "statements" (row (bodyOutlines body))]]
  | .elseIf _ _ rest => rest.alternativeOutline

/-- The outlines of the statements of a body. -/
def bodyOutlines : List Stmt → List Outline
  | [] => []
  | s :: ss => s.outline :: bodyOutlines ss

end

/-- The outline of a template. -/
def Template.dump (t : Template) : String :=
  (record "Program" [named "statements" (row (bodyOutlines t))]).render 0

end Templates
