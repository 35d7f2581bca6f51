import Templates.Position
import Templates.Vocabulary

/-!
# Expressions

An expression is a tree; every node knows the place of the token it was built from: an atom its own
token, an operation its operator. Names behind `.` and `|` are attributes and filters, never
references to a variable.

`Expr.grouped`, with every operation in parentheses, and the canonical `Expr.text`, with only the
parentheses that are needed, are in `Templates.Expr.Text`.
-/

namespace Templates

/-- An operator in front of its operand. -/
inductive UnaryOp
  | not
  | neg
  deriving DecidableEq, Repr

namespace UnaryOp

/-- The sign of the operator. -/
def sign : UnaryOp → Operator
  | not => .bang
  | neg => .minus

/-- The operator that a sign denotes in front of an operand. -/
def ofSign? : Operator → Option UnaryOp
  | .bang => some not
  | .minus => some neg
  | _ => none

end UnaryOp

/-- An operator between two operands. -/
inductive BinaryOp
  | add
  | sub
  | mul
  | div
  | eq
  | ne
  | lt
  | gt
  | le
  | ge
  deriving DecidableEq, Repr

namespace BinaryOp

/-- The sign of the operator. -/
def sign : BinaryOp → Operator
  | add => .plus
  | sub => .minus
  | mul => .star
  | div => .slash
  | eq => .equal
  | ne => .notEqual
  | lt => .less
  | gt => .greater
  | le => .lessEqual
  | ge => .greaterEqual

/-- The operator that a sign denotes between two operands. `.` and `|` take a name on their right
and are not among them. -/
def ofSign? : Operator → Option BinaryOp
  | .plus => some add
  | .minus => some sub
  | .star => some mul
  | .slash => some div
  | .equal => some eq
  | .notEqual => some ne
  | .less => some lt
  | .greater => some gt
  | .lessEqual => some le
  | .greaterEqual => some ge
  | _ => none

/-- The precedence of the operator, which is that of its sign. -/
def precedence (op : BinaryOp) : Precedence := op.sign.precedence?.getD .lowest

theorem ofSign?_sign (op : BinaryOp) : ofSign? op.sign = some op := by
  cases op <;> rfl

end BinaryOp

/-- An expression. -/
inductive Expr
  /-- A reference to a variable. -/
  | ident (pos : Position) (name : String)
  /-- A whole number. -/
  | int (pos : Position) (value : Int64)
  /-- A string. -/
  | str (pos : Position) (value : String)
  /-- A truth value. -/
  | bool (pos : Position) (value : Bool)
  /-- The missing value. -/
  | null (pos : Position)
  /-- An operation on one operand. -/
  | unary (pos : Position) (op : UnaryOp) (operand : Expr)
  /-- An operation on two operands. -/
  | binary (pos : Position) (op : BinaryOp) (left right : Expr)
  /-- An attribute of an object. -/
  | attr (pos : Position) (object : Expr) (name : String)
  /-- A filter applied to an input. -/
  | filter (pos : Position) (input : Expr) (name : String)
  deriving DecidableEq, Repr

namespace Expr

/-- The place of the token that the node was built from. -/
def pos : Expr → Position
  | ident p _ | int p _ | str p _ | bool p _ | null p | unary p _ _ | binary p _ _ _ | attr p _ _
  | filter p _ _ => p

/-- The precedence of the node as an operand. Atoms bind as tightly as anything can, so they
never need parentheses. -/
def precedence : Expr → Precedence
  | ident .. | int .. | str .. | bool .. | null .. | unary .. => .unary
  | binary _ op _ _ => op.precedence
  | attr .. => .attr
  | filter .. => .filter

/-- The same tree with every position forgotten. -/
def erase : Expr → Expr
  | ident _ name => ident .first name
  | int _ value => int .first value
  | str _ value => str .first value
  | bool _ value => bool .first value
  | null _ => null .first
  | unary _ op x => unary .first op x.erase
  | binary _ op l r => binary .first op l.erase r.erase
  | attr _ x name => attr .first x.erase name
  | filter _ x name => filter .first x.erase name

end Expr

end Templates
