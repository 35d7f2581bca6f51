/-!
# Lines of a text

A text is a sequence of lines, each closed by a line feed; the last one may lack it, and a text that
ends with a line feed has no empty line behind it. A carriage return just in front of a line feed
belongs to the line's end and is dropped, any other one is text of its line.
-/

namespace Templates

/-- The text of a line closed by a line feed, from its characters backwards. -/
def closedLine : List Char → List Char
  | '\r' :: line => line.reverse
  | line => line.reverse

/-- Goes on splitting: `done` holds the lines so far, `line` the characters of the current one, both
backwards. -/
def linesFrom (done : List (List Char)) (line : List Char) : List Char → List (List Char)
  | [] => (if line.isEmpty then done else line.reverse :: done).reverse
  | c :: cs =>
    if c = '\n' then linesFrom (closedLine line :: done) [] cs else linesFrom done (c :: line) cs

/-- The lines of a list of characters, without their ends. -/
def charLines (text : List Char) : List (List Char) := linesFrom [] [] text

/-- The lines of a text, without their ends. -/
def textLines (s : String) : List String := (charLines s.toList).map String.ofList

example : textLines "a\r\n\r\r\n\nb\r" = ["a", "\r", "", "b\r"] := by decide

end Templates
