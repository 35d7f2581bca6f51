import Templates.Position
import Templates.Vocabulary

/-!
# Tokens

The parts of a template without white space and comments. A token keeps its text apart from its
kind: for a string literal that text is the value, for every other token it is the token as written.
-/

namespace Templates

/-- The kind of a token. -/
inductive TokenKind
  /-- A reserved word. -/
  | keyword (word : Keyword)
  /-- An operator sign. -/
  | operator (sign : Operator)
  /-- A delimiter or a parenthesis. -/
  | punctuation (mark : Punctuation)
  /-- A name. -/
  | ident
  /-- A run of digits. -/
  | int
  /-- A string literal. -/
  | string
  /-- A character that begins no token, or a string literal without its end. -/
  | illegal
  /-- The end of the template. -/
  | eof
  deriving DecidableEq, Repr, Inhabited

namespace TokenKind

/-- The name of the kind in messages: its spelling if it has only one. -/
def name : TokenKind → String
  | keyword k => k.spelling
  | operator o => o.spelling
  | punctuation p => p.spelling
  | ident => "IDENT"
  | int => "INT"
  | string => "STRING"
  | illegal => "ILLEGAL"
  | eof => "EOF"

/-- The token opens a tag. -/
def opensTag : TokenKind → Bool
  | punctuation p => p.role = .opener
  | _ => false

/-- The token closes a tag. -/
def closesTag : TokenKind → Bool
  | punctuation p => p.role = .closer
  | _ => false

/-- The precedence of the token as an operator between two operands. -/
def precedence? : TokenKind → Option Precedence
  | operator o => o.precedence?
  | _ => none

end TokenKind

/-- A token of a template. -/
structure Token where
  /-- The kind of the token. -/
  kind : TokenKind
  /-- Its text: the value of a string literal, else the token as written. -/
  literal : String
  /-- The position of its first character. -/
  pos : Position
  deriving DecidableEq, Repr, Inhabited

namespace Token

/-- The end of a template, at a position. -/
def endOfText (pos : Position) : Token := ⟨.eof, "", pos⟩

end Token

end Templates
