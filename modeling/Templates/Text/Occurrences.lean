/-!
# Occurrences of a word in a text

Occurrences are found from left to right and do not overlap: once one is found, the search goes on
behind it, so `{{{` holds one `{{`.
-/

namespace Templates

/-- Counts on how often `first` followed by `others` occurs: `skip` characters still belong to the
occurrence found last, `found` is the count so far. -/
def occurrencesFrom (first : Char) (others : List Char) (skip found : Nat) : List Char → Nat
  | [] => found
  | c :: cs =>
    match skip with
    | k + 1 => occurrencesFrom first others k found cs
    | 0 =>
      if c = first && others.isPrefixOf cs then
        occurrencesFrom first others others.length (found + 1) cs
      else occurrencesFrom first others 0 found cs

/-- The number of occurrences of a word in a list of characters; the empty word has none. -/
def occurrences (word text : List Char) : Nat :=
  match word with
  | [] => 0
  | first :: others => occurrencesFrom first others 0 0 text

example : occurrences "\x7b\x7b".toList "\x7b\x7b\x7b \x7b\x7b\x7b\x7b".toList = 3 := by decide

end Templates
