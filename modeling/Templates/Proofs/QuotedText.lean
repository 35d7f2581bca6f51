import Templates.Proofs.Lexemes
import Templates.Text.Quoted

/-!
# Quoted texts are told apart

`quoted` gives different texts for different strings, and a quoted text shows where it ends: a
string and the text behind it can be read back from the two together (`quoted_append_inj`).
`visibleChar` reads one character back. A character that is written as itself is neither a quote nor
a backslash; behind a backslash, one letter decides, and a code is a number in braces.
-/

namespace Templates

/-! ## Hexadecimal digits -/

/-- Induction on the hexadecimal digits of a number. -/
theorem toDigits_sixteen_induction {motive : Nat → List Char → Prop}
    (digit : ∀ d < 16, motive d [d.digitChar])
    (more : ∀ n cs d, d < 16 → motive n cs → motive (16 * n + d) (cs ++ [d.digitChar])) (n : Nat) :
    motive n (Nat.toDigits 16 n) := by
  induction n using Nat.strongRecOn with
  | ind n ih =>
    by_cases hn : n < 16
    · rw [Nat.toDigits_of_lt_base hn]
      exact digit n hn
    · have hquotient := ih (n / 16) (by omega)
      have hstep := more _ _ (n % 16) (Nat.mod_lt n (by decide)) hquotient
      rw [Nat.div_add_mod] at hstep
      rw [Nat.toDigits_of_base_le (by decide) (by omega)]
      exact hstep

/-- The value of a hexadecimal digit in lower case. -/
def hexDigitValue (c : Char) : Nat := if c.isDigit then c.toNat - 48 else c.toNat - 87

/-- The number that hexadecimal digits denote. -/
def hexValue (cs : List Char) : Nat := cs.foldl (fun n c => 16 * n + hexDigitValue c) 0

theorem hexDigitValue_digitChar : ∀ d < 16, hexDigitValue d.digitChar = d := by decide

theorem hexValue_toDigits (n : Nat) : hexValue (Nat.toDigits 16 n) = n := by
  refine toDigits_sixteen_induction (motive := fun n cs => hexValue cs = n) ?_ ?_ n
  · intro d hd
    simp [hexValue, hexDigitValue_digitChar d hd]
  · intro n cs d hd ih
    rw [hexValue, List.foldl_append]
    change 16 * hexValue cs + hexDigitValue d.digitChar = 16 * n + d
    rw [ih, hexDigitValue_digitChar d hd]

theorem brace_not_mem_toDigits (n : Nat) : '}' ∉ Nat.toDigits 16 n := by
  have hdigit : ∀ d < 16, '}' ≠ Nat.digitChar d := by decide
  refine toDigits_sixteen_induction (motive := fun _ cs => '}' ∉ cs) ?_ ?_ n
  · intro d hd
    exact mt List.mem_singleton.mp (hdigit d hd)
  · intro _ cs d hd ih
    rw [List.mem_append, List.mem_singleton, not_or]
    exact ⟨ih, hdigit d hd⟩

/-! ## Characters -/

/-- The character of an escape, given the text behind its backslash, and the rest of the text. -/
def escapedChar : List Char → Option (Char × List Char)
  | 'n' :: cs => some ('\n', cs)
  | 'r' :: cs => some ('\r', cs)
  | 't' :: cs => some ('\t', cs)
  | '0' :: cs => some ('\x00', cs)
  | 'u' :: '{' :: cs =>
    some (Char.ofNat (hexValue (cs.takeWhile (· ≠ '}'))), (cs.dropWhile (· ≠ '}')).tail)
  | c :: cs => some (c, cs)
  | [] => none

/-- The first character that a quoted text shows, and the rest of the text. -/
def visibleChar : List Char → Option (Char × List Char)
  | '\\' :: cs => escapedChar cs
  | c :: cs => some (c, cs)
  | [] => none

theorem visibleChar_codeEscape (c : Char) (rest : List Char) :
    visibleChar (codeEscape c ++ rest) = some (c, rest) := by
  have hdigits : ∀ d ∈ Nat.toDigits 16 c.toNat, decide (d ≠ '}') = true := by
    intro d hd
    refine decide_eq_true ?_
    rintro rfl
    exact brace_not_mem_toDigits c.toNat hd
  have hbrace : ∀ d ∈ ('}' :: rest).head?, decide (d ≠ '}') = false :=
    forall_head?_cons (by decide) rest
  obtain ⟨htake, hdrop⟩ := span_append hdigits hbrace
  have htext : codeEscape c ++ rest =
      '\\' :: 'u' :: '{' :: (Nat.toDigits 16 c.toNat ++ '}' :: rest) := by
    simp [codeEscape]
  rw [htext, visibleChar, escapedChar, htake, hdrop]
  simp [hexValue_toDigits]

/-- A character that is shown is read back, whatever follows it. -/
theorem visibleChar_visible (c : Char) (rest : List Char) :
    visibleChar (visible c ++ rest) = some (c, rest) := by
  unfold visible
  split
  case h_7 hslash _ _ _ _ =>
    split
    · exact visibleChar_codeEscape c rest
    · rw [List.singleton_append, visibleChar]
      exact hslash
  all_goals rfl

theorem visible_append_inj {c d : Char} {r s : List Char}
    (h : visible c ++ r = visible d ++ s) : c = d ∧ r = s := by
  have hread := visibleChar_visible c r
  rw [h, visibleChar_visible d s] at hread
  obtain ⟨rfl, rfl⟩ := Prod.mk.inj (Option.some.inj hread)
  exact ⟨rfl, rfl⟩

/-- The text of a character does not begin with a quote. -/
theorem exists_visible_eq_cons (c : Char) : ∃ d ds, visible c = d :: ds ∧ d ≠ '"' := by
  unfold visible
  split
  case h_7 hquote _ _ _ _ _ =>
    split
    · exact ⟨'\\', _, rfl, by decide⟩
    · exact ⟨c, [], rfl, hquote⟩
  all_goals exact ⟨'\\', _, rfl, by decide⟩

/-! ## Texts -/

theorem flatMap_visible_append_inj {cs ds r s : List Char}
    (h : cs.flatMap visible ++ '"' :: r = ds.flatMap visible ++ '"' :: s) : cs = ds ∧ r = s := by
  induction cs generalizing ds with
  | nil =>
    cases ds with
    | nil => exact ⟨rfl, (List.cons.inj h).2⟩
    | cons d ds =>
      obtain ⟨e, es, hes, he⟩ := exists_visible_eq_cons d
      rw [List.flatMap_cons, hes] at h
      exact absurd (List.cons.inj h).1.symm he
  | cons c cs ih =>
    cases ds with
    | nil =>
      obtain ⟨e, es, hes, he⟩ := exists_visible_eq_cons c
      rw [List.flatMap_cons, hes] at h
      exact absurd (List.cons.inj h).1 he
    | cons d ds =>
      rw [List.flatMap_cons, List.flatMap_cons, List.append_assoc, List.append_assoc] at h
      obtain ⟨rfl, hrest⟩ := visible_append_inj h
      obtain ⟨rfl, hrs⟩ := ih hrest
      exact ⟨rfl, hrs⟩

/-- A quoted text and the text behind it can be read back from the two together. -/
theorem quoted_append_inj {a b : String} {r s : List Char}
    (h : (quoted a).toList ++ r = (quoted b).toList ++ s) : a = b ∧ r = s := by
  have htext (text : String) (rest : List Char) : (quoted text).toList ++ rest =
      '"' :: (text.toList.flatMap visible ++ '"' :: rest) := by
    simp [quoted]
  rw [htext, htext] at h
  obtain ⟨hlist, hrest⟩ := flatMap_visible_append_inj (List.cons.inj h).2
  exact ⟨String.toList_inj.mp hlist, hrest⟩

end Templates
