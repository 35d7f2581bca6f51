/-!
# Vocabulary

The words and signs of the template language: reserved words, operators and punctuation, each with
its spelling and its role. Every other module asks here; no spelling of a token is written down
twice.
-/

namespace Templates

/-! ## Reserved words -/

/-- A reserved word. Reserved words are told apart by case: `If` is a plain name. -/
inductive Keyword
  | if_
  | elif
  | else_
  | endif
  | for_
  | in_
  | endfor
  | set
  | block
  | endblock
  | true_
  | false_
  | null
  deriving DecidableEq, Repr, Inhabited

/-- The role of a reserved word in a tag. -/
inductive Keyword.Role
  /-- It opens a statement. -/
  | statement
  /-- It starts another branch of an open conditional. -/
  | branch
  /-- It closes an open block. -/
  | closing
  /-- It separates the parts of a statement's header. -/
  | clause
  /-- It is a value. -/
  | literal
  deriving DecidableEq, Repr

namespace Keyword

/-- Every reserved word. -/
def all : List Keyword :=
  [if_, elif, else_, endif, for_, in_, endfor, set, block, endblock, true_, false_, null]

/-- The spelling of the word in a template. -/
def spelling : Keyword → String
  | if_ => "if"
  | elif => "elif"
  | else_ => "else"
  | endif => "endif"
  | for_ => "for"
  | in_ => "in"
  | endfor => "endfor"
  | set => "set"
  | block => "block"
  | endblock => "endblock"
  | true_ => "true"
  | false_ => "false"
  | null => "null"

/-- The role of the word in a tag. -/
def role : Keyword → Role
  | if_ | for_ | set | block => .statement
  | elif | else_ => .branch
  | endif | endfor | endblock => .closing
  | in_ => .clause
  | true_ | false_ | null => .literal

/-- The word ends the body of the construct around it when it follows `{%`. -/
def endsBody (k : Keyword) : Bool := k.role = .branch || k.role = .closing

/-- The reserved word with this spelling. -/
def ofSpelling? (s : String) : Option Keyword := all.find? (·.spelling == s)

end Keyword

/-! ## Operators -/

/-- The precedence of an operator, loosest first. -/
inductive Precedence
  | lowest
  | equality
  | comparison
  | sum
  | product
  | filter
  | attr
  | unary
  deriving DecidableEq, Repr, Inhabited

namespace Precedence

/-- The place in the order, loosest first. -/
def rank : Precedence → Nat
  | lowest => 0
  | equality => 1
  | comparison => 2
  | sum => 3
  | product => 4
  | filter => 5
  | attr => 6
  | unary => 7

instance : LE Precedence := ⟨fun p q => p.rank ≤ q.rank⟩

instance : LT Precedence := ⟨fun p q => p.rank < q.rank⟩

instance (p q : Precedence) : Decidable (p ≤ q) := inferInstanceAs (Decidable (p.rank ≤ q.rank))

instance (p q : Precedence) : Decidable (p < q) := inferInstanceAs (Decidable (p.rank < q.rank))

end Precedence

/-- An operator sign. -/
inductive Operator
  | assign
  | plus
  | minus
  | bang
  | star
  | slash
  | dot
  | pipe
  | less
  | greater
  | equal
  | notEqual
  | lessEqual
  | greaterEqual
  deriving DecidableEq, Repr, Inhabited

namespace Operator

/-- Every operator sign. -/
def all : List Operator :=
  [assign, plus, minus, bang, star, slash, dot, pipe, less, greater, equal, notEqual, lessEqual,
    greaterEqual]

/-- The spelling of the sign in a template. -/
def spelling : Operator → String
  | assign => "="
  | plus => "+"
  | minus => "-"
  | bang => "!"
  | star => "*"
  | slash => "/"
  | dot => "."
  | pipe => "|"
  | less => "<"
  | greater => ">"
  | equal => "=="
  | notEqual => "!="
  | lessEqual => "<="
  | greaterEqual => ">="

/-- The precedence of the sign between two operands; `none` if it cannot be there. -/
def precedence? : Operator → Option Precedence
  | equal | notEqual => some .equality
  | less | greater | lessEqual | greaterEqual => some .comparison
  | plus | minus => some .sum
  | star | slash => some .product
  | pipe => some .filter
  | dot => some .attr
  | assign | bang => none

/-- The operator with this spelling. -/
def ofSpelling? (s : String) : Option Operator := all.find? (·.spelling == s)

end Operator

/-! ## Punctuation -/

/-- A delimiter of a tag, or a parenthesis. -/
inductive Punctuation
  | outputOpen
  | outputClose
  | tagOpen
  | tagClose
  | parenOpen
  | parenClose
  deriving DecidableEq, Repr, Inhabited

/-- The role of a punctuation mark. -/
inductive Punctuation.Role
  /-- It opens a tag. -/
  | opener
  /-- It closes a tag. -/
  | closer
  /-- It groups an expression. -/
  | grouping
  deriving DecidableEq, Repr

namespace Punctuation

/-- Every punctuation mark. -/
def all : List Punctuation := [outputOpen, outputClose, tagOpen, tagClose, parenOpen, parenClose]

/-- The spelling of the mark in a template. -/
def spelling : Punctuation → String
  | outputOpen => "\x7b\x7b"
  | outputClose => "\x7d\x7d"
  | tagOpen => "\x7b%"
  | tagClose => "%\x7d"
  | parenOpen => "("
  | parenClose => ")"

/-- The role of the mark. -/
def role : Punctuation → Role
  | outputOpen | tagOpen => .opener
  | outputClose | tagClose => .closer
  | parenOpen | parenClose => .grouping

/-- The punctuation mark with this spelling. -/
def ofSpelling? (s : String) : Option Punctuation := all.find? (·.spelling == s)

end Punctuation

end Templates
