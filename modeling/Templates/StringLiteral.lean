/-!
# String literals

A string literal is enclosed in two equal quotes, single or double. Inside, a backslash gives a
quote, a backslash, a line feed, a tab or a carriage return its meaning as a character of the value;
in front of anything else it is a character of its own. `StringLiteral.scan` reads a literal and
`StringLiteral.quote` writes one, always between double quotes.
-/

namespace Templates.StringLiteral

/-- The characters that a backslash followed by `c` stands for. -/
def escaped (c : Char) : List Char :=
  match c with
  | '\\' => ['\\']
  | '"' => ['"']
  | '\'' => ['\'']
  | 'n' => ['\n']
  | 't' => ['\t']
  | 'r' => ['\r']
  | _ => ['\\', c]

/-- The result of reading a string literal behind its opening quote. -/
inductive Scan
  /-- The closing quote was found: the value, the text behind the opening quote up to the closing
  one and including it, and what follows. -/
  | closed (value text rest : List Char)
  /-- The text ended first. -/
  | unclosed
  deriving DecidableEq, Repr

/-- Scans on behind the opening quote; `value` and `text` hold what has been read, backwards. -/
def scanFrom (quote : Char) (value text : List Char) : List Char → Scan
  | [] => .unclosed
  | c :: cs =>
    if c = quote then .closed value.reverse (c :: text).reverse cs
    else if c = '\\' then
      match cs with
      | [] => .unclosed
      | d :: ds => scanFrom quote ((escaped d).reverse ++ value) (d :: c :: text) ds
    else scanFrom quote (c :: value) (c :: text) cs

/-- Scans the text behind an opening quote. -/
def scan (quote : Char) (cs : List Char) : Scan := scanFrom quote [] [] cs

/-- A character of a value as a literal writes it. -/
def escape (c : Char) : List Char :=
  match c with
  | '\\' => ['\\', '\\']
  | '"' => ['\\', '"']
  | '\n' => ['\\', 'n']
  | '\t' => ['\\', 't']
  | '\r' => ['\\', 'r']
  | _ => [c]

/-- The literal of a value, between double quotes. -/
def quote (value : String) : String :=
  String.ofList ('"' :: (value.toList.flatMap escape ++ ['"']))

/-- A closed literal and what follows it make up the scanned text. -/
theorem append_of_scanFrom_eq_closed {q : Char} {cs v t value text rest : List Char}
    (h : scanFrom q v t cs = .closed value text rest) : text ++ rest = t.reverse ++ cs := by
  fun_induction scanFrom q v t cs with
  | case1 => cases h
  | case2 => cases h; simp
  | case3 => cases h
  | case4 v t _ _ _ ih => simpa using ih h
  | case5 v t _ _ _ _ ih => simpa using ih h

/-- A closed literal and what follows it make up the scanned text. -/
theorem append_of_scan_eq_closed {q : Char} {cs value text rest : List Char}
    (h : scan q cs = .closed value text rest) : text ++ rest = cs := by
  simpa using append_of_scanFrom_eq_closed h

end Templates.StringLiteral
