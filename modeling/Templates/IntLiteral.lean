/-!
# Whole numbers

A whole number is written with decimal digits and at most one sign in front of them. It has to fit
into 64 bits; a text that does not denote such a number is no literal.
-/

namespace Templates.IntLiteral

/-- The least number that is too large for a literal with either sign. -/
def tooLarge : Nat := 9223372036854775809

/-- The number that a row of decimal digits denotes, but at most `tooLarge`. -/
def capped (cs : List Char) : Nat :=
  cs.foldl (fun n c => min tooLarge (10 * n + (c.toNat - '0'.toNat))) 0

/-- The number that a row of decimal digits denotes, as `capped`; `none` if there is no digit or
another character. -/
def natural? (cs : List Char) : Option Nat :=
  if cs ≠ [] ∧ cs.all Char.isDigit then some (capped cs) else none

/-- The number that digits with a sign or without one denote. -/
def integer? : List Char → Option Int
  | '-' :: cs => (natural? cs).map fun n => -(n : Int)
  | '+' :: cs => (natural? cs).map Int.ofNat
  | cs => (natural? cs).map Int.ofNat

/-- The number that a literal denotes, if it fits into 64 bits. -/
def value? (literal : String) : Option Int64 :=
  match integer? literal.toList with
  | some n => if Int64.minValue.toInt ≤ n ∧ n ≤ Int64.maxValue.toInt then some (.ofInt n) else none
  | none => none

/-- Every digit counts up to the point where the number is too large. -/
theorem capped_eq_min (cs : List Char) : capped cs = min tooLarge (Nat.ofDigitChars 10 cs 0) := by
  suffices h : ∀ n, cs.foldl (fun n c => min tooLarge (10 * n + (c.toNat - '0'.toNat)))
      (min tooLarge n) = min tooLarge (Nat.ofDigitChars 10 cs n) from h 0
  induction cs with
  | nil => intro n; rfl
  | cons c cs ih =>
    intro n
    have hstep : min tooLarge (10 * min tooLarge n + (c.toNat - '0'.toNat)) =
        min tooLarge (10 * n + (c.toNat - '0'.toNat)) := by omega
    rw [List.foldl_cons, hstep, ih]
    rfl

end Templates.IntLiteral
