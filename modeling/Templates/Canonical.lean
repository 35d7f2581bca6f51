import Templates.Layout
import Templates.Reader
import Templates.Text.Lines

/-!
# Canonical form of a source text

`canonical` gives the `Template.text` of the template that `readTemplate` reads from a source text
without syntax errors. `isCanonical` compares a text with its canonical form as a whole,
`canonicalDiff` compares it line by line.
-/

namespace Templates

/-- The syntax errors that keep a text from having a canonical form. -/
structure FormatError where
  /-- The errors, in the order of the text. -/
  errors : List SyntaxError
  deriving DecidableEq, Repr

/-- The wording of the refusal. -/
def FormatError.message (e : FormatError) : String :=
  "cannot format a template with syntax errors: " ++
    "; ".intercalate (e.errors.map SyntaxError.text)

/-- The template that a source text denotes, if it has no syntax error. -/
def readTemplate (source : String) : Except FormatError Template :=
  let parsed := parseSource source
  if parsed.errors.isEmpty then .ok parsed.template else .error ⟨parsed.errors⟩

/-- The canonical form of a source text. -/
def canonical (style : Style) (source : String) : Except FormatError String :=
  (readTemplate source).map (Template.text style)

/-- The source text is in canonical form. -/
def isCanonical (source : String) : Except FormatError Bool :=
  (canonical {} source).map fun text => decide (source = text)

/-! ## Differences -/

/-- One of two texts that are compared. -/
inductive Side
  | old
  | new
  deriving DecidableEq, Repr

/-- The mark in front of a line of one text. -/
def Side.mark : Side → String
  | old => "-"
  | new => "+"

/-- A line that is not the same in both texts. -/
structure DiffEntry where
  /-- The text that it belongs to. -/
  side : Side
  /-- Its number in that text, counted from one. -/
  number : Nat
  /-- The line. -/
  line : String
  deriving DecidableEq, Repr

/-- An entry on a line of its own: its mark, its number right-aligned in four places, and the line.
-/
def DiffEntry.text (e : DiffEntry) : String :=
  let digits := toString e.number
  let gap := String.ofList (List.replicate (4 - digits.length) ' ')
  e.side.mark ++ gap ++ digits ++ " | " ++ e.line ++ "\n"

/-- The entries of a pair of lines of one number; equal lines have none, and empty ones are left
out. -/
def pairEntries (number : Nat) (old new : String) : List DiffEntry :=
  if old = new then []
  else [⟨.old, number, old⟩, ⟨.new, number, new⟩].filter fun e => !e.line.isEmpty

/-- Goes on comparing lines from a number on; `done` holds the entries so far, backwards. Where one
of the texts has ended, its lines count as empty. -/
def diffEntriesFrom (done : List DiffEntry) (number : Nat) :
    List String → List String → List DiffEntry
  | [], [] => done.reverse
  | old :: olds, [] =>
    diffEntriesFrom ((pairEntries number old "").reverse ++ done) (number + 1) olds []
  | [], new :: news =>
    diffEntriesFrom ((pairEntries number "" new).reverse ++ done) (number + 1) [] news
  | old :: olds, new :: news =>
    diffEntriesFrom ((pairEntries number old new).reverse ++ done) (number + 1) olds news

/-- The differences between two texts, line against line. -/
def diffEntries (old new : String) : List DiffEntry :=
  diffEntriesFrom [] 1 (textLines old) (textLines new)

/-- The differences between two texts as a text. -/
def diffText (old new : String) : String :=
  String.join ((diffEntries old new).map DiffEntry.text)

/-- The differences between a source text and its canonical form; `none` if they are equal. -/
def canonicalDiff (source : String) : Except FormatError (Option String) :=
  (canonical {} source).map fun text => if source = text then none else some (diffText source text)

end Templates
