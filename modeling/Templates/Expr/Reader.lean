import Templates.Expr
import Templates.IntLiteral
import Templates.SyntaxError

/-!
# Reading an expression

An expression is read one token at a time. An `ExprReader` holds a stack of operations that wait for
their right operand, together with the operand that is complete so far. An operator first completes
every waiting operation that binds at least as tightly as itself (`settle`), which groups equal
operators from the left; a token that is no operator completes all of them up to the innermost open
parenthesis, and with none open it ends the expression without belonging to it.
-/

namespace Templates

/-- An operation that waits for its right operand, or an open parenthesis. -/
inductive Pending
  /-- An operator that waits for its operand. -/
  | unary (pos : Position) (op : UnaryOp)
  /-- An operator with its left operand. -/
  | binary (pos : Position) (op : BinaryOp) (left : Expr)
  /-- An open parenthesis. -/
  | paren
  deriving DecidableEq, Repr

/-- An operator that takes a name on its right. -/
inductive Link
  | attr
  | filter
  deriving DecidableEq, Repr

/-- The expression that the operator builds. -/
def Link.build (pos : Position) (x : Expr) (name : String) : Link → Expr
  | attr => .attr pos x name
  | filter => .filter pos x name

/-- An operator behind an operand. -/
inductive Joint
  /-- It takes a name on its right. -/
  | link (l : Link)
  /-- It takes an operand on its right. -/
  | binary (op : BinaryOp)
  deriving DecidableEq, Repr

namespace Joint

/-- The operator that a token denotes behind an operand. -/
def ofKind? : TokenKind → Option Joint
  | .operator .dot => some (link .attr)
  | .operator .pipe => some (link .filter)
  | .operator sign => (BinaryOp.ofSign? sign).map binary
  | _ => none

/-- The sign of the operator. -/
def sign : Joint → Operator
  | link .attr => .dot
  | link .filter => .pipe
  | binary op => op.sign

/-- The precedence of the operator, which is that of its sign. -/
def precedence (j : Joint) : Precedence := j.sign.precedence?.getD .lowest

theorem ofKind?_sign (j : Joint) : ofKind? (.operator j.sign) = some j := by
  rcases j with (l | op)
  · cases l <;> rfl
  · cases op <;> rfl

/-- The signs that can stand behind an operand are those that have a precedence. -/
theorem precedence?_eq_map_ofKind? (o : Operator) :
    o.precedence? = (ofKind? (.operator o)).map precedence := by
  cases o <;> rfl

end Joint

/-- Completes the waiting operations that bind at least as tightly as `bound`, innermost first, up
to an open parenthesis. -/
def settle (bound : Precedence) : List Pending → Expr → List Pending × Expr
  | .unary pos op :: pending, x => settle bound pending (.unary pos op x)
  | .binary pos op left :: pending, x =>
    if bound ≤ op.precedence then settle bound pending (.binary pos op left x)
    else (.binary pos op left :: pending, x)
  | pending, x => (pending, x)

/-- The state of reading an expression. -/
inductive ExprReader
  /-- An operand has to begin. -/
  | operand (pending : List Pending)
  /-- The name behind `.` or `|` has to come. -/
  | name (pending : List Pending) (pos : Position) (link : Link) (x : Expr)
  /-- An operand is complete. -/
  | complete (pending : List Pending) (x : Expr)
  deriving DecidableEq, Repr

/-- The effect of a token on an expression that is being read. -/
inductive ExprStep
  /-- The token belongs to it. -/
  | more (reader : ExprReader)
  /-- It ended in front of the token. -/
  | done (x : Expr)
  /-- The token must not stand there. -/
  | fail (fault : SyntaxFault)
  deriving DecidableEq, Repr

namespace ExprReader

/-- Nothing has been read. -/
def start : ExprReader := operand []

/-- Reads a token where an operand has to begin. -/
def readOperand (pending : List Pending) (t : Token) : Except SyntaxFault ExprReader :=
  match t.kind with
  | .ident => .ok (complete pending (.ident t.pos t.literal))
  | .int =>
    match IntLiteral.value? t.literal with
    | some n => .ok (complete pending (.int t.pos n))
    | none => .error (.badInteger t.literal)
  | .string => .ok (complete pending (.str t.pos t.literal))
  | .keyword .true_ => .ok (complete pending (.bool t.pos true))
  | .keyword .false_ => .ok (complete pending (.bool t.pos false))
  | .keyword .null => .ok (complete pending (.null t.pos))
  | .operator sign =>
    match UnaryOp.ofSign? sign with
    | some op => .ok (operand (.unary t.pos op :: pending))
    | none => .error (.noOperand t.kind)
  | .punctuation .parenOpen => .ok (operand (.paren :: pending))
  | kind => .error (.noOperand kind)

/-- Reads a token where a name has to come. -/
def readName (pending : List Pending) (pos : Position) (link : Link) (x : Expr) (t : Token) :
    Except SyntaxFault ExprReader :=
  if t.kind = .ident then .ok (complete pending (link.build pos x t.literal))
  else .error (.expected .ident t.kind)

/-- Takes an operator behind a complete operand. -/
def join (pending : List Pending) (x : Expr) (pos : Position) (j : Joint) : ExprReader :=
  let (pending, x) := settle j.precedence pending x
  match j with
  | .link l => name pending pos l x
  | .binary op => operand (.binary pos op x :: pending)

/-- Reads a token behind a complete operand. -/
def readJoint (pending : List Pending) (x : Expr) (t : Token) : ExprStep :=
  match Joint.ofKind? t.kind with
  | some j => .more (join pending x t.pos j)
  | none =>
    match settle .lowest pending x with
    | ([], x) => .done x
    | (_ :: pending, x) =>
      if t.kind = .punctuation .parenClose then .more (complete pending x)
      else .fail (.expected (.punctuation .parenClose) t.kind)

/-- A step that cannot end the expression. -/
def inside : Except SyntaxFault ExprReader → ExprStep
  | .ok r => .more r
  | .error f => .fail f

/-- Reads one token. -/
def step (r : ExprReader) (t : Token) : ExprStep :=
  match r with
  | operand pending => inside (readOperand pending t)
  | name pending pos link x => inside (readName pending pos link x t)
  | complete pending x => readJoint pending x t

end ExprReader

end Templates
