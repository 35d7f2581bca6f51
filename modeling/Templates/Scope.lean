import Templates.Stmt

/-!
# Scope of names

A reference is defined if its name is built in, is a parameter of the template, is the name of a
loop around the reference, or was bound by a `set` in front of it that the reference can still see.
Only the body of a loop is a scope: what is bound inside is forgotten behind it, while branches and
blocks bind in the scope around them. The value of a `set` is read before its name is bound, and the
sequence of a loop before its name is.

`bodyScope` passes the visible names along as one list (`ScopeState.seen`), so a scope that ends
puts the list back as it was. A name that is bound again is not listed again. `Template.inspect`, in
`Templates.Proofs.ScopeFrames`, does the same with a stack of frames.
-/

namespace Templates

/-- Names that every template can use: the global functions and the words of tests, which also occur
in text outside tags. -/
def builtinNames : List String :=
  ["true", "false", "null", "None", "range", "dict", "lipsum", "cycler", "joiner", "namespace",
    "in", "is", "not", "and", "or", "defined", "undefined", "callable", "divisible", "by", "eq",
    "equalto", "even", "ne", "odd"]

/-- The name is built in. -/
def isBuiltin (name : String) : Bool := builtinNames.contains name

/-- The references to variables in an expression, in order, and others behind them. -/
def Expr.referencesBefore (others : List Name) : Expr → List Name
  | .ident pos name => ⟨name, pos⟩ :: others
  | .int .. | .str .. | .bool .. | .null .. => others
  | .unary _ _ x => x.referencesBefore others
  | .binary _ _ l r => l.referencesBefore (r.referencesBefore others)
  | .attr _ x _ => x.referencesBefore others
  | .filter _ x _ => x.referencesBefore others

/-- The references to variables in an expression, in order. -/
def Expr.references (x : Expr) : List Name := x.referencesBefore []

/-- `referencesBefore` puts the references in front of the others. -/
theorem Expr.referencesBefore_eq (x : Expr) (others : List Name) :
    x.referencesBefore others = x.references ++ others := by
  unfold references
  induction x generalizing others with
  | ident | int | str | bool | null => rfl
  | unary _ _ x ih | attr _ x _ ih | filter _ x _ ih => exact ih others
  | binary _ _ l r ihl ihr =>
    simp only [referencesBefore]
    rw [ihl, ihr, ihl (r.referencesBefore []), List.append_assoc]

/-- The references of an operation are those of its operands, from left to right. -/
@[simp] theorem Expr.references_binary (pos : Position) (op : BinaryOp) (l r : Expr) :
    (Expr.binary pos op l r).references = l.references ++ r.references :=
  l.referencesBefore_eq r.references

/-- The reference has a meaning where the names in `seen` can be seen. -/
def isDefined (seen : List String) (name : String) : Bool := seen.contains name || isBuiltin name

/-- The references in an expression that have no meaning. -/
def Expr.undefined (seen : List String) (x : Expr) : List Name :=
  x.references.filter fun r => !isDefined seen r.text

/-- The state of looking at the references of a template. -/
structure ScopeState where
  /-- The references without a meaning, last first. -/
  undefined : List Name
  /-- The names that can be seen. -/
  seen : List String
  deriving DecidableEq, Repr

namespace ScopeState

/-- Looks at the references in an expression, which binds nothing. -/
def read (s : ScopeState) (x : Expr) : ScopeState :=
  { s with undefined := (x.undefined s.seen).reverse ++ s.undefined }

/-- Binds a name. -/
def bind (s : ScopeState) (name : Name) : ScopeState := { s with seen := s.seen.insert name.text }

/-- Enters a scope in which a name can be seen that is not bound around it. -/
def enter (s : ScopeState) (name : Name) : ScopeState := { s with seen := name.text :: s.seen }

end ScopeState

mutual

/-- Looks at a statement. -/
def Stmt.scope (s : ScopeState) : Stmt → ScopeState
  | .set _ name value => (s.read value).bind name
  | .cond _ condition body rest => rest.scope (bodyScope (s.read condition) body)
  | .loop _ item sequence body =>
    { bodyScope ((s.read sequence).enter item) body with seen := s.seen }
  | .block _ _ body => bodyScope s body
  | .output _ value => s.read value
  | .bare value => s.read value

/-- Looks at the branches of a conditional behind one of them. -/
def Branches.scope (s : ScopeState) : Branches → ScopeState
  | .done => s
  | .otherwise body => bodyScope s body
  | .elseIf condition body rest => rest.scope (bodyScope (s.read condition) body)

/-- Looks at a body, one statement after the other. -/
def bodyScope (s : ScopeState) : List Stmt → ScopeState
  | [] => s
  | stmt :: body => bodyScope (stmt.scope s) body

end

/-- The references of a template that have no meaning, in order, given its parameters. -/
def Template.undefined (params : List String) (t : Template) : List Name :=
  (bodyScope ⟨[], params⟩ t).undefined.reverse

end Templates
