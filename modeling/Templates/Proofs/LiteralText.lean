import Templates.IntLiteral
import Templates.StringLiteral

/-!
# Written literals are read back

`StringLiteral.scan` gives back every string from the literal that `StringLiteral.quote` writes for
it, whatever follows the literal, and `IntLiteral.value?` every number from its decimal text.
-/

namespace Templates

namespace StringLiteral

/-- The escape of a character is scanned as the character. -/
theorem scanFrom_escape (c : Char) (value text rest : List Char) :
    scanFrom '"' value text (escape c ++ rest) =
      scanFrom '"' (c :: value) ((escape c).reverse ++ text) rest := by
  unfold escape
  split
  · simp [scanFrom, escaped]
  · simp [scanFrom, escaped]
  · simp [scanFrom, escaped]
  · simp [scanFrom, escaped]
  · simp [scanFrom, escaped]
  · next hslash hquote _ _ _ =>
    have hq : c ≠ '"' := fun h => hquote h
    have hs : c ≠ '\\' := fun h => hslash h
    rw [List.singleton_append, scanFrom.eq_def]
    simp [hq, hs]

theorem scanFrom_flatMap_escape (cs value text rest : List Char) :
    scanFrom '"' value text (cs.flatMap escape ++ '"' :: rest) =
      .closed (value.reverse ++ cs) (text.reverse ++ (cs.flatMap escape ++ ['"'])) rest := by
  induction cs generalizing value text with
  | nil =>
    rw [scanFrom.eq_def]
    simp
  | cons c cs ih =>
    rw [List.flatMap_cons, List.append_assoc, scanFrom_escape, ih]
    simp

/-- `scan` gives back the value of a written literal and the text behind it. -/
theorem scan_flatMap_escape (cs rest : List Char) :
    scan '"' (cs.flatMap escape ++ '"' :: rest) = .closed cs (cs.flatMap escape ++ ['"']) rest :=
  scanFrom_flatMap_escape cs [] [] rest

end StringLiteral

namespace IntLiteral

theorem isDigit_of_mem_toDigits_ten {n : Nat} : ∀ c ∈ Nat.toDigits 10 n, c.isDigit = true :=
  fun _ hc => Nat.isDigit_of_mem_toDigits (by decide) (by decide) hc

theorem natural?_toDigits {n : Nat} (h : n < tooLarge) : natural? (Nat.toDigits 10 n) = some n := by
  have hcapped : capped (Nat.toDigits 10 n) = n := by
    rw [capped_eq_min, Nat.ofDigitChars_ten_toDigits]
    omega
  have hdigits := List.all_eq_true.mpr (isDigit_of_mem_toDigits_ten (n := n))
  simp [natural?, Nat.toDigits_ne_nil, hcapped, hdigits]

theorem integer?_of_isDigit {cs : List Char} (h : ∀ c ∈ cs, c.isDigit = true) :
    integer? cs = (natural? cs).map Int.ofNat := by
  unfold integer?
  split
  · exact absurd (h '-' List.mem_cons_self) (by decide)
  · exact absurd (h '+' List.mem_cons_self) (by decide)
  · rfl

/-- The decimal digits of a number, behind a minus sign if it is negative. -/
theorem toList_toString (n : Int) :
    (toString n).toList = (if n < 0 then ['-'] else []) ++ Nat.toDigits 10 n.natAbs := by
  cases n with
  | ofNat m => exact Nat.toList_repr
  | negSucc m =>
    rw [if_pos (Int.negSucc_lt_zero m)]
    have htext : toString (Int.negSucc m) = "-" ++ (m + 1).repr := rfl
    rw [htext, String.toList_append, Nat.toList_repr]
    rfl

theorem toList_toString_toInt {v : Int64} (h : 0 ≤ v.toInt) :
    (toString v.toInt).toList = Nat.toDigits 10 v.toInt.toNat := by
  have habs : v.toInt.natAbs = v.toInt.toNat := by omega
  rw [toList_toString, if_neg (by omega), List.nil_append, habs]

theorem integer?_toString {n : Int} (h : n.natAbs < tooLarge) :
    integer? (toString n).toList = some n := by
  rw [toList_toString]
  split
  · next hneg =>
    rw [List.singleton_append, integer?, natural?_toDigits h]
    have hvalue : -(n.natAbs : Int) = n := by omega
    exact congrArg some hvalue
  · next hnonneg =>
    rw [List.nil_append, integer?_of_isDigit isDigit_of_mem_toDigits_ten, natural?_toDigits h]
    have hvalue : (n.natAbs : Int) = n := by omega
    exact congrArg some hvalue

/-- `value?` gives back a number from its text. -/
theorem value?_toString_toInt (v : Int64) : value? (toString v.toInt) = some v := by
  have hmin : Int64.minValue.toInt ≤ v.toInt := v.minValue_le_toInt
  have hmax : v.toInt ≤ Int64.maxValue.toInt := v.toInt_le
  have hlt : v.toInt.natAbs < tooLarge := by
    have : Int64.minValue.toInt = -9223372036854775808 := by decide
    have : Int64.maxValue.toInt = 9223372036854775807 := by decide
    unfold tooLarge
    omega
  unfold value?
  rw [integer?_toString hlt]
  simp only [hmin, hmax, and_self, if_true, Int64.ofInt_toInt]

/-- A literal of digits denotes the number of the digits. -/
theorem toInt_of_value?_eq_some {literal : String} {v : Int64}
    (hdigits : ∀ c ∈ literal.toList, c.isDigit = true) (h : value? literal = some v) :
    v.toInt = Nat.ofDigitChars 10 literal.toList 0 := by
  unfold value? at h
  rw [integer?_of_isDigit hdigits] at h
  split at h
  · next n hn =>
    obtain ⟨m, hm, rfl⟩ := Option.map_eq_some_iff.mp hn
    split at h
    · next hrange =>
      cases h
      have hle : (m : Int) ≤ 9223372036854775807 := hrange.2
      have hlt : Int.ofNat m < 2 ^ 63 := Int.lt_of_le_of_lt hrange.2 (by decide)
      rw [Int64.toInt_ofInt_of_le hrange.1 hlt]
      -- The literal is in range, so no digit was cut off.
      have hcapped : m = min tooLarge (Nat.ofDigitChars 10 literal.toList 0) := by
        unfold natural? at hm
        split at hm
        · rw [← capped_eq_min]
          exact (Option.some.inj hm).symm
        · cases hm
      have hm : m = Nat.ofDigitChars 10 literal.toList 0 := by
        unfold tooLarge at hcapped
        omega
      rw [← hm]
      rfl
    · cases h
  · cases h

theorem zero_le_of_value?_eq_some {literal : String} {v : Int64}
    (hdigits : ∀ c ∈ literal.toList, c.isDigit = true) (h : value? literal = some v) :
    0 ≤ v.toInt := by
  rw [toInt_of_value?_eq_some hdigits h]
  exact Int.natCast_nonneg _

end IntLiteral

end Templates
