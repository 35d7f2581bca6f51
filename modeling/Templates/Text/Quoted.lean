import Templates.Text.Hidden

/-!
# Quoted text

The form in which a dump shows a text: between double quotes, with every character visible. Quotes,
backslashes and the common control characters have an escape of their own; hidden characters are
written by their number in hexadecimal. This form is for reading; templates have string literals of
their own in `Templates.StringLiteral`.
-/

namespace Templates

/-- A character by its number: `\u{1f600}`, in lower case and without padding. -/
def codeEscape (c : Char) : List Char := ['\\', 'u', '{'] ++ Nat.toDigits 16 c.toNat ++ ['}']

/-- A character as a quoted text shows it. -/
def visible (c : Char) : List Char :=
  match c with
  | '"' => ['\\', '"']
  | '\\' => ['\\', '\\']
  | '\n' => ['\\', 'n']
  | '\r' => ['\\', 'r']
  | '\t' => ['\\', 't']
  | '\x00' => ['\\', '0']
  | _ => if isHidden c then codeEscape c else [c]

/-- A text between double quotes, with every character visible. -/
def quoted (s : String) : String := String.ofList ('"' :: (s.toList.flatMap visible ++ ['"']))

end Templates
