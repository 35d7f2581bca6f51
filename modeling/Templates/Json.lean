/-!
# JSON texts

Reading of JSON, as strict as its standard: nothing but the four blanks of JSON around tokens, no
raw control character and no half of a surrogate pair in a string, no number beyond the range of
double precision, and nothing behind the value. Containers are nested at most 127 deep. Of several
fields with one name the last counts.

A text is cut into tokens first. The tokens are then read one at a time with a stack of the
containers that are open.
-/

namespace Templates

/-- A JSON value. Numbers are known to be in range and are kept as written. -/
inductive Json
  | null
  | bool (value : Bool)
  | number (literal : String)
  | string (value : String)
  | array (items : List Json)
  | object (fields : List (String × Json))

namespace Json

/-- The value of a field; the last one of its name counts. -/
def field? (fields : List (String × Json)) (name : String) : Option Json :=
  (fields.reverse.find? (·.1 == name)).map (·.2)

/-! ## Strings -/

/-- The value of a hexadecimal digit. -/
def hexDigit? (c : Char) : Option Nat :=
  if c.isDigit then some (c.toNat - '0'.toNat)
  else if 'a' ≤ c ∧ c ≤ 'f' then some (c.toNat - 'a'.toNat + 10)
  else if 'A' ≤ c ∧ c ≤ 'F' then some (c.toNat - 'A'.toNat + 10)
  else none

/-- The number that four hexadecimal digits denote. -/
def hex? (ds : List Char) : Option Nat :=
  ds.foldlM (fun n c => (hexDigit? c).map fun d => 16 * n + d) 0

/-- The number is the first half of a surrogate pair. -/
def isHighHalf (n : Nat) : Bool := 0xD800 ≤ n && n < 0xDC00

/-- The number is the second half of a surrogate pair. -/
def isLowHalf (n : Nat) : Bool := 0xDC00 ≤ n && n < 0xE000

/-- The character of a surrogate pair. -/
def ofHalves (high low : Nat) : Char :=
  Char.ofNat (0x10000 + 1024 * (high - 0xD800) + (low - 0xDC00))

/-- The meaning of a backslash in front of a character. -/
def escape? : Char → Option Char
  | '"' => some '"'
  | '\\' => some '\\'
  | '/' => some '/'
  | 'b' => some '\x08'
  | 'f' => some '\x0c'
  | 'n' => some '\n'
  | 'r' => some '\r'
  | 't' => some '\t'
  | _ => none

/-- Splits the text behind an opening quote at its closing one; `done` is held backwards. -/
def stringBody? (done : List Char) : List Char → Option (List Char × List Char)
  | [] => none
  | '"' :: cs => some (done.reverse, cs)
  | '\\' :: c :: cs => stringBody? (c :: '\\' :: done) cs
  | c :: cs => stringBody? (c :: done) cs

/-- The value of the text between two quotes; `high` is the first half of a surrogate pair whose
second half has to follow, `done` the value so far, backwards. -/
def decode? (high : Option Nat) (done : List Char) : List Char → Option (List Char)
  | [] => if high.isNone then some done.reverse else none
  | '\\' :: 'u' :: a :: b :: c :: d :: cs =>
    match hex? [a, b, c, d], high with
    | none, _ => none
    | some n, some h => if isLowHalf n then decode? none (ofHalves h n :: done) cs else none
    | some n, none =>
      if isHighHalf n then decode? (some n) done cs
      else if isLowHalf n then none
      else decode? none (Char.ofNat n :: done) cs
  | '\\' :: c :: cs =>
    match escape? c, high with
    | some e, none => decode? none (e :: done) cs
    | _, _ => none
  | c :: cs =>
    if high.isSome || c = '\\' || c.toNat < 0x20 then none else decode? none (c :: done) cs

/-! ## Numbers -/

/-- Reads digits as long as the number fits into 64 bits, and counts the others. -/
def leading (n dropped : Nat) : List Char → Nat × Nat
  | [] => (n, dropped)
  | c :: cs =>
    let next := 10 * n + (c.toNat - '0'.toNat)
    if dropped = 0 ∧ next < UInt64.size then leading next 0 cs else leading n (dropped + 1) cs

/-- The number of 53 significant bits that is nearest to a number, an even one where two are. -/
def round53 (n : Nat) : Nat :=
  let unit := Nat.pow 2 (n.log2 - 52)
  let below := n / unit
  let rest := 2 * (n % unit)
  if unit < rest ∨ (rest = unit ∧ below % 2 = 1) then (below + 1) * unit else below * unit

/-- The least number that is too large for double precision: the one half-way between the largest
double and the next power of two. -/
def tooLarge : Nat := Nat.pow 2 1024 - Nat.pow 2 970

/-- The decimal number with these digits and this exponent is within the range of double precision.
It is taken as the product of the digits that fit into 64 bits and a power of ten, each rounded to a
double. -/
def inRange (digits : List Char) (exponent : Int) : Bool :=
  let (n, dropped) := leading 0 0 digits
  let exponent := exponent + dropped
  if n = 0 || exponent ≤ 0 then true
  else if 308 < exponent then false
  else decide (round53 n * round53 (Nat.pow 10 exponent.toNat) < tooLarge)

/-- Splits the digits off a text. -/
def digitsOf (cs : List Char) : List Char × List Char :=
  (cs.takeWhile Char.isDigit, cs.dropWhile Char.isDigit)

/-- The digits of a fraction, which is none or has at least one digit, and what follows. -/
def fraction? : List Char → Option (List Char × List Char)
  | '.' :: cs =>
    match digitsOf cs with
    | ([], _) => none
    | found => some found
  | cs => some ([], cs)

/-- An exponent, which is zero if there is none, and what follows. -/
def exponent? : List Char → Option (Int × List Char)
  | c :: cs =>
    if c = 'e' || c = 'E' then
      let (negative, cs) :=
        match cs with
        | '-' :: cs => (true, cs)
        | '+' :: cs => (false, cs)
        | cs => (false, cs)
      match digitsOf cs with
      | ([], _) => none
      | (digits, cs) =>
        let n : Int := Nat.ofDigitChars 10 digits 0
        some (if negative then -n else n, cs)
    else some (0, c :: cs)
  | [] => some (0, [])

/-- The text is a number without a sign. -/
def isMagnitude (text : List Char) : Bool :=
  match digitsOf text with
  | ([], _) => false
  | ('0' :: _ :: _, _) => false
  | (whole, cs) =>
    match fraction? cs with
    | none => false
    | some (part, cs) =>
      match exponent? cs with
      | some (exponent, []) => inRange (whole ++ part) (exponent - part.length)
      | _ => false

/-- The text is a number. -/
def isNumber : List Char → Bool
  | '-' :: cs => isMagnitude cs
  | cs => isMagnitude cs

/-- The character can be part of a number. -/
def isNumeric (c : Char) : Bool :=
  c.isDigit || c = '-' || c = '+' || c = '.' || c = 'e' || c = 'E'

/-! ## Tokens -/

/-- A token of a JSON text. -/
inductive Lexeme
  | openArray
  | closeArray
  | openObject
  | closeObject
  | comma
  | colon
  /-- A value that is not a container. -/
  | scalar (value : Json)

/-- A number at the start of a text, and what follows. All that can stand in a number belongs to it,
as no token begins with such a character behind a number. -/
def number? (cs : List Char) : Option (Lexeme × List Char) :=
  let text := cs.takeWhile isNumeric
  if isNumber text then some (.scalar (.number (String.ofList text)), cs.dropWhile isNumeric)
  else none

/-- The token at the start of a text, and what follows. -/
def lexeme? : List Char → Option (Lexeme × List Char)
  | '[' :: cs => some (.openArray, cs)
  | ']' :: cs => some (.closeArray, cs)
  | '{' :: cs => some (.openObject, cs)
  | '}' :: cs => some (.closeObject, cs)
  | ',' :: cs => some (.comma, cs)
  | ':' :: cs => some (.colon, cs)
  | '"' :: cs => do
    let (body, cs) ← stringBody? [] cs
    let value ← decode? none [] body
    some (.scalar (.string (String.ofList value)), cs)
  | 't' :: 'r' :: 'u' :: 'e' :: cs => some (.scalar (.bool true), cs)
  | 'f' :: 'a' :: 'l' :: 's' :: 'e' :: cs => some (.scalar (.bool false), cs)
  | 'n' :: 'u' :: 'l' :: 'l' :: cs => some (.scalar .null, cs)
  | cs => number? cs

/-- The character is a blank of JSON. -/
def isBlank (c : Char) : Bool := c = ' ' || c = '\t' || c = '\n' || c = '\r'

/-- The tokens of a text. A token is never empty, so as many steps as the text has characters are
enough. -/
def lexemes? (steps : Nat) (done : List Lexeme) (cs : List Char) : Option (List Lexeme) :=
  match cs.dropWhile isBlank, steps with
  | [], _ => some done.reverse
  | _, 0 => none
  | cs, steps + 1 =>
    match lexeme? cs with
    | some (l, rest) => lexemes? steps (l :: done) rest
    | none => none

/-! ## Values -/

/-- A container that waits for the value at hand; what it holds already, last first. -/
inductive Container
  /-- An array. -/
  | array (items : List Json)
  /-- An object, and the name of the field at hand. -/
  | object (fields : List (String × Json)) (name : String)

/-- What has to come. -/
inductive Awaited
  /-- A value. -/
  | value
  /-- A value, or the end of an array that is empty so far. -/
  | firstItem
  /-- The name of a field, or the end of an object that is empty so far. -/
  | firstName
  /-- The name of a field, behind others. -/
  | name (fields : List (String × Json))
  /-- The colon behind the name of a field. -/
  | colon (fields : List (String × Json)) (name : String)
  /-- What follows a complete value. -/
  | next (value : Json)

/-- The state of reading: the containers around what has to come, innermost first. -/
structure Reading where
  /-- What has to come. -/
  awaited : Awaited
  /-- The open containers. -/
  containers : List Container

/-- The greatest depth of nested containers. -/
def maxDepth : Nat := 127

namespace Reading

/-- Begins a value. -/
def begin? (r : Reading) : Lexeme → Option Reading
  | .scalar v => some { r with awaited := .next v }
  | .openArray =>
    if r.containers.length < maxDepth then some ⟨.firstItem, .array [] :: r.containers⟩ else none
  | .openObject =>
    if r.containers.length < maxDepth then some ⟨.firstName, r.containers⟩ else none
  | _ => none

/-- Reads the token behind a complete value. -/
def after? (v : Json) : List Container → Lexeme → Option Reading
  | .array items :: outer, .comma => some ⟨.value, .array (v :: items) :: outer⟩
  | .array items :: outer, .closeArray => some ⟨.next (.array (v :: items).reverse), outer⟩
  | .object fields name :: outer, .comma => some ⟨.name ((name, v) :: fields), outer⟩
  | .object fields name :: outer, .closeObject =>
    some ⟨.next (.object ((name, v) :: fields).reverse), outer⟩
  | _, _ => none

/-- Reads one token. -/
def step? (r : Reading) (l : Lexeme) : Option Reading :=
  match r.awaited, l with
  | .value, l => r.begin? l
  | .firstItem, .closeArray => some ⟨.next (.array []), r.containers.tail⟩
  | .firstItem, l => r.begin? l
  | .firstName, .closeObject => some { r with awaited := .next (.object []) }
  | .firstName, .scalar (.string name) => some { r with awaited := .colon [] name }
  | .name fields, .scalar (.string name) => some { r with awaited := .colon fields name }
  | .colon fields name, .colon => some ⟨.value, .object fields name :: r.containers⟩
  | .next v, l => after? v r.containers l
  | _, _ => none

end Reading

/-- The value that a text denotes, if the text is JSON. -/
def read? (text : String) : Option Json := do
  let cs := text.toList
  let lexemes ← lexemes? cs.length [] cs
  let reading ← lexemes.foldlM Reading.step? ⟨.value, []⟩
  match reading with
  | ⟨.next v, []⟩ => some v
  | _ => none

end Json

end Templates
