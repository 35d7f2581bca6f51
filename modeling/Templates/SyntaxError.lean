import Templates.Token

/-!
# Syntax errors

A `SyntaxFault` is a way in which a list of tokens can be wrong. It is found at one token, and a
`SyntaxError` has the position of that token.
-/

namespace Templates

/-- A fault at a token. -/
inductive SyntaxFault
  /-- Another token has to stand here. -/
  | expected (wanted found : TokenKind)
  /-- An operand has to begin here. -/
  | noOperand (found : TokenKind)
  /-- A literal that is no number of 64 bits. -/
  | badInteger (literal : String)
  /-- A tag that ends a body where no body is open. -/
  | unopened (word : Keyword)
  /-- A tag that begins with no statement. -/
  | unknownTag (found : TokenKind)
  deriving DecidableEq, Repr

/-- The wording of a fault. -/
def SyntaxFault.message : SyntaxFault → String
  | expected wanted found =>
    "expected next token to be " ++ wanted.name ++ ", got " ++ found.name ++ " instead"
  | noOperand found => "no prefix parse function for " ++ found.name ++ " found"
  | badInteger literal => "could not parse \"" ++ literal ++ "\" as integer"
  | unopened word => "unexpected '" ++ word.spelling ++ "' tag with no open block"
  | unknownTag found =>
    "unknown tag: expected a statement keyword, got " ++ found.name ++ " instead"

/-- A fault in its place. -/
structure SyntaxError where
  /-- The position of the token at which the fault was found. -/
  pos : Position
  /-- The fault. -/
  fault : SyntaxFault
  deriving DecidableEq, Repr

namespace SyntaxError

/-- The wording of the error, without its place. -/
def message (e : SyntaxError) : String := e.fault.message

/-- The error on one line: its place, then its wording. -/
def text (e : SyntaxError) : String :=
  toString e.pos.line ++ ":" ++ toString e.pos.column ++ ": " ++ e.message

end SyntaxError

end Templates
