import Templates.Diagnostic
import Templates.Text.Blank
import Templates.Text.Cyrillic
import Templates.Text.Lines
import Templates.Text.Occurrences
import Templates.Token.Piece

/-!
# Checks on the raw text

`checkStructure` looks at a source text before it is read, for letters of a foreign script, comments
(`lineFindings`), delimiters that do not occur equally often (`unbalancedDelimiters`), and tags that
do not close each other (`tagFaults`). The checks catch in one finding what would otherwise surface
as a series of syntax errors.
-/

namespace Templates

/-! ## Single lines -/

/-- Goes on checking lines from a number on; `done` holds the findings so far, backwards. -/
def lineFindingsFrom (file : String) (check : List Char → Option Finding)
    (done : List Diagnostic) (number : Nat) : List (List Char) → List Diagnostic
  | [] => done.reverse
  | line :: lines =>
    let done :=
      match check line with
      | some finding => ⟨file, number, finding, some (String.ofList line)⟩ :: done
      | none => done
    lineFindingsFrom file check done (number + 1) lines

/-- The findings of a check that looks at lines one by one. -/
def lineFindings (file : String) (check : List Char → Option Finding) (lines : List (List Char)) :
    List Diagnostic :=
  lineFindingsFrom file check [] 1 lines

/-- The first letter of a foreign script. -/
def foreignLetter? (line : List Char) : Option Finding :=
  (line.find? isCyrillic).map .foreignLetter

/-- The delimiters of comments. -/
def commentPair : Pair := ⟨"\x7b#", "#\x7d"⟩

/-- The characters of each of them. -/
def commentMarks : List (List Char) := [commentPair.opener.toList, commentPair.closer.toList]

/-- A delimiter of a comment. -/
def comment? (line : List Char) : Option Finding :=
  if commentMarks.any fun mark => 0 < occurrences mark line then some .comment else none

/-! ## Delimiters -/

/-- The delimiters that have to occur equally often. -/
def delimiterPairs : List Pair :=
  [⟨Punctuation.outputOpen.spelling, Punctuation.outputClose.spelling⟩,
    ⟨Punctuation.tagOpen.spelling, Punctuation.tagClose.spelling⟩, commentPair]

/-- Delimiters that do not occur equally often. -/
def unbalancedDelimiters (file : String) (text : List Char) : List Diagnostic :=
  delimiterPairs.filterMap fun pair =>
    let opened := occurrences pair.opener.toList text
    let closed := occurrences pair.closer.toList text
    if opened = closed then none else some ⟨file, 1, .unbalanced pair opened closed, none⟩

/-! ## Tags that open and close -/

/-- The words that open a construct and close it. -/
def tagPairs : List Pair :=
  [⟨Keyword.if_.spelling, Keyword.endif.spelling⟩, ⟨Keyword.for_.spelling, Keyword.endfor.spelling⟩,
    ⟨Keyword.block.spelling, Keyword.endblock.spelling⟩]

/-- The pair that a word opens. -/
def pairOpenedBy? (tag : String) : Option Pair := tagPairs.find? (·.opener == tag)

/-- The pair that a word closes. -/
def pairClosedBy? (tag : String) : Option Pair := tagPairs.find? (·.closer == tag)

/-- The name of a tag that begins at the start of a text: a name behind `{%`, with blanks between
them or not. -/
def tagName? : List Char → Option String
  | '{' :: '%' :: cs =>
    match cs.dropWhile isBlank with
    | c :: ds =>
      if Cut.beginsName c then some (String.ofList (c :: ds.takeWhile Cut.continuesName)) else none
    | [] => none
  | _ => none

/-- Goes on looking for tags; `done` holds the names found, backwards. -/
def tagNamesFrom (done : List String) : List Char → List String
  | [] => done.reverse
  | c :: cs => tagNamesFrom ((tagName? (c :: cs)).toList ++ done) cs

/-- The names of all tags of a text, in order. -/
def tagNames (text : List Char) : List String := tagNamesFrom [] text

/-- The first fault in a row of tag names; `pending` holds the open constructs, innermost first.
Names that neither open nor close a construct do not matter. -/
def tagFault? (pending : List Pair) : List String → Option Finding
  | [] => if pending.isEmpty then none else some (.unclosed (pending.reverse.map Pair.opener))
  | tag :: tags =>
    match pairOpenedBy? tag with
    | some pair => tagFault? (pair :: pending) tags
    | none =>
      if (pairClosedBy? tag).isNone then tagFault? pending tags
      else
        match pending with
        | [] => some (.unexpectedCloser tag)
        | pair :: pending =>
          if pair.closer = tag then tagFault? pending tags else some (.mismatchedCloser pair tag)

/-- The first fault in the tags of a text. -/
def tagFaults (file : String) (text : List Char) : List Diagnostic :=
  (tagFault? [] (tagNames text)).toList.map fun finding => ⟨file, 1, finding, none⟩

/-- Every check on the raw text, in order. -/
def checkStructure (file source : String) : List Diagnostic :=
  let text := source.toList
  let lines := charLines text
  lineFindings file foreignLetter? lines ++ lineFindings file comment? lines ++
    unbalancedDelimiters file text ++ tagFaults file text

end Templates
