import Templates.Expr

/-!
# Statements

A template is a list of statements: tags that bind, branch, repeat or group, tags that write the
value of an expression, and bare expressions outside any tag. The position of a statement is that of
its opening delimiter, the position of a bare expression that of the expression.

The branches behind the first one of a conditional form a chain of their own, `Branches`, so that an
`else` can only be the last of them.
-/

namespace Templates

/-- A name that a tag introduces. -/
structure Name where
  /-- The name as written. -/
  text : String
  /-- The position of its token. -/
  pos : Position
  deriving DecidableEq, Repr, Inhabited

mutual

/-- A statement of a template. -/
inductive Stmt
  /-- `set`: binds a name to a value. -/
  | set (pos : Position) (name : Name) (value : Expr)
  /-- `if`: a condition, the body it guards, and the branches behind it. -/
  | cond (pos : Position) (condition : Expr) (body : List Stmt) (rest : Branches)
  /-- `for`: a name that runs through a sequence, and a body. -/
  | loop (pos : Position) (item : Name) (sequence : Expr) (body : List Stmt)
  /-- `block`: a body that may have a name. -/
  | block (pos : Position) (name : Option Name) (body : List Stmt)
  /-- A tag that writes a value. -/
  | output (pos : Position) (value : Expr)
  /-- An expression outside any tag. -/
  | bare (value : Expr)

/-- The branches of a conditional behind one of them. -/
inductive Branches
  /-- `endif`. -/
  | done
  /-- `else` and its body, then `endif`. -/
  | otherwise (body : List Stmt)
  /-- `elif`: a condition, its body and what follows that. -/
  | elseIf (condition : Expr) (body : List Stmt) (rest : Branches)

end

/-- A template. -/
abbrev Template := List Stmt

/-! ## Templates up to positions -/

/-- The same name with its position forgotten. -/
def Name.erase (n : Name) : Name := ⟨n.text, .first⟩

mutual

/-- The same statement with every position forgotten. -/
def Stmt.erase : Stmt → Stmt
  | .set _ name value => .set .first name.erase value.erase
  | .cond _ condition body rest => .cond .first condition.erase (eraseBody body) rest.erase
  | .loop _ item sequence body => .loop .first item.erase sequence.erase (eraseBody body)
  | .block _ name body => .block .first (name.map Name.erase) (eraseBody body)
  | .output _ value => .output .first value.erase
  | .bare value => .bare value.erase

/-- The same branches with every position forgotten. -/
def Branches.erase : Branches → Branches
  | .done => .done
  | .otherwise body => .otherwise (eraseBody body)
  | .elseIf condition body rest => .elseIf condition.erase (eraseBody body) rest.erase

/-- The same body with every position forgotten. -/
def eraseBody : List Stmt → List Stmt
  | [] => []
  | s :: ss => s.erase :: eraseBody ss

end

/-! ## Expressions of a template -/

mutual

/-- The expressions that the tags of a statement and of its bodies hold, in order. -/
def Stmt.expressions : Stmt → List Expr
  | .set _ _ value => [value]
  | .cond _ condition body rest => condition :: (bodyExpressions body ++ rest.expressions)
  | .loop _ _ sequence body => sequence :: bodyExpressions body
  | .block _ _ body => bodyExpressions body
  | .output _ value => [value]
  | .bare value => [value]

/-- The expressions of the branches of a conditional behind one of them. -/
def Branches.expressions : Branches → List Expr
  | .done => []
  | .otherwise body => bodyExpressions body
  | .elseIf condition body rest => condition :: (bodyExpressions body ++ rest.expressions)

/-- The expressions of a body. -/
def bodyExpressions : List Stmt → List Expr
  | [] => []
  | s :: ss => s.expressions ++ bodyExpressions ss

end

end Templates
