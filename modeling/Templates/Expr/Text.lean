import Templates.Expr
import Templates.StringLiteral
import Templates.Text.Quoted

/-!
# Text of an expression

Two forms. `Expr.grouped` shows the tree: every operation is in parentheses, except attributes,
which bind tighter than anything in front of them. `Expr.text` is the canonical form: an operand has
parentheses only where it binds looser than the operation around it. Operations are grouped from the
left, so a right operand has parentheses also where it binds equally.
-/

namespace Templates.Expr

/-- The spelling of a truth value. -/
def boolText (b : Bool) : String := (if b then Keyword.true_ else Keyword.false_).spelling

/-- The tree with every operation in parentheses. -/
def grouped : Expr → String
  | ident _ name => name
  | int _ value => toString value.toInt
  | str _ value => quoted value
  | bool _ value => boolText value
  | null _ => Keyword.null.spelling
  | unary _ op x => "(" ++ op.sign.spelling ++ x.grouped ++ ")"
  | binary _ op l r => "(" ++ l.grouped ++ " " ++ op.sign.spelling ++ " " ++ r.grouped ++ ")"
  | attr _ x name => x.grouped ++ Operator.dot.spelling ++ name
  | filter _ x name => "(" ++ x.grouped ++ " " ++ Operator.pipe.spelling ++ " " ++ name ++ ")"

/-- A text in parentheses, if they are asked for. -/
def wrap (parens : Bool) (text : String) : String :=
  if parens then Punctuation.parenOpen.spelling ++ text ++ Punctuation.parenClose.spelling else text

/-- The canonical text, with the parentheses that the grouping needs. -/
def text : Expr → String
  | ident _ name => name
  | int _ value => toString value.toInt
  | str _ value => StringLiteral.quote value
  | bool _ value => boolText value
  | null _ => Keyword.null.spelling
  | unary _ op x => op.sign.spelling ++ wrap (x.precedence < .unary) x.text
  | binary _ op l r =>
    wrap (l.precedence < op.precedence) l.text ++ " " ++ op.sign.spelling ++ " " ++
      wrap (r.precedence ≤ op.precedence) r.text
  | attr _ x name => wrap (x.precedence < .attr) x.text ++ Operator.dot.spelling ++ name
  | filter _ x name =>
    wrap (x.precedence < .filter) x.text ++ " " ++ Operator.pipe.spelling ++ " " ++ name

/-- The canonical text begins with a minus sign: the leftmost operand that has no parentheses is a
negation. -/
def leadsWithMinus : Expr → Bool
  | unary _ .neg _ => true
  | binary _ op l _ => op.precedence ≤ l.precedence && l.leadsWithMinus
  | attr _ x _ => .attr ≤ x.precedence && x.leadsWithMinus
  | filter _ x _ => .filter ≤ x.precedence && x.leadsWithMinus
  | _ => false

end Templates.Expr
