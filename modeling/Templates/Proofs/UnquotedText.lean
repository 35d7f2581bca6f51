import Templates.Proofs.NamedTrees

/-!
# Expressions that are shown as they are

`Expr.grouped` of a name, a number, a truth value or `null` has no parentheses and no quotes: it
consists of letters, digits, underscores and minus signs. Such a text determines the expression
(`Expr.ofUnquotedText`), and it ends where another kind of character begins
(`Expr.plain_append_inj`).
-/

namespace Templates

theorem continuesName_of_isDigit {c : Char} (h : c.isDigit = true) :
    Cut.continuesName c = true := by
  simp [Cut.continuesName, Char.isAlphanum, h]

/-- A word is no number. -/
theorem value?_of_isWord {word : String} (h : IsWord word.toList) :
    IntLiteral.value? word = none := by
  obtain ⟨c, cs, hword, hc, -⟩ := h
  have hdigit : c.isDigit = false := by
    rw [Bool.eq_false_iff]
    intro hdigit
    rw [not_beginsName_of_isDigit hdigit] at hc
    cases hc
  have hminus : c ≠ '-' := by
    rintro rfl
    exact absurd hc (by decide)
  have hplus : c ≠ '+' := by
    rintro rfl
    exact absurd hc (by decide)
  have hread : IntLiteral.integer? (c :: cs) = none := by
    simp [IntLiteral.integer?, IntLiteral.natural?, hdigit, hminus, hplus]
  rw [IntLiteral.value?, hword, hread]

theorem isWord_of_ofSpelling?_eq_some {text : String} {k : Keyword}
    (h : Keyword.ofSpelling? text = some k) : IsWord text.toList := by
  have hspelling : k.spelling = text := by simpa using List.find?_some h
  rw [← hspelling]
  exact isWord_spelling k

namespace Expr

/-- The expression is shown as it is. -/
def isPlain : Expr → Bool
  | ident .. | int .. | bool .. | null _ => true
  | _ => false

/-- The character can be part of a name or a number. -/
def plainChar (c : Char) : Bool := Cut.continuesName c || c = '-'

/-- The expression that a text without parentheses and quotes shows. -/
def ofUnquotedText (text : String) : Expr :=
  match Keyword.ofSpelling? text with
  | some .true_ => bool .first true
  | some .false_ => bool .first false
  | some .null => null .first
  | _ =>
    match IntLiteral.value? text with
    | some v => int .first v
    | none => ident .first text

theorem ofUnquotedText_grouped {x : Expr} (hplain : x.isPlain = true) (h : x.Named) :
    ofUnquotedText x.grouped = x.erase := by
  cases x with
  | ident _ name =>
    have hnumber : IntLiteral.value? name = none := value?_of_isWord h.1
    simp only [ofUnquotedText, grouped, h.2, hnumber]
    rfl
  | int _ value =>
    have hvalue := IntLiteral.value?_toString_toInt value
    have hword : Keyword.ofSpelling? (toString value.toInt) = none := by
      cases hk : Keyword.ofSpelling? (toString value.toInt) with
      | none => rfl
      | some k =>
        rw [value?_of_isWord (isWord_of_ofSpelling?_eq_some hk)] at hvalue
        cases hvalue
    simp only [ofUnquotedText, grouped, hword, hvalue]
    rfl
  | bool _ b => cases b <;> rfl
  | null => rfl
  | str | unary | binary | attr | filter => cases hplain

theorem plainChar_of_continuesName {c : Char} (h : Cut.continuesName c = true) :
    plainChar c = true := Bool.or_eq_true_iff.mpr (Or.inl h)

/-- All characters of the text can stand in a name or a number, and it is not a minus sign alone. -/
structure IsUnquotedText (text : List Char) : Prop where
  plainChar : ∀ c ∈ text, plainChar c = true
  exists_continuesName : ∃ c ∈ text, Cut.continuesName c = true

theorem isUnquotedText_of_isWord {text : List Char} (h : IsWord text) : IsUnquotedText text := by
  refine ⟨fun c hc => plainChar_of_continuesName (h.continuesName c hc), ?_⟩
  obtain ⟨c, cs, rfl, hc, -⟩ := h
  exact ⟨c, List.mem_cons_self, continuesName_of_beginsName hc⟩

theorem isUnquotedText_toString (n : Int) : IsUnquotedText (toString n).toList := by
  have hdigits : ∀ c ∈ Nat.toDigits 10 n.natAbs, Cut.continuesName c = true := by
    intro c hc
    exact continuesName_of_isDigit (IntLiteral.isDigit_of_mem_toDigits_ten c hc)
  rw [IntLiteral.toList_toString]
  constructor
  · intro c hc
    rcases List.mem_append.mp hc with hsign | hdigit
    · split at hsign
      · obtain rfl := List.mem_singleton.mp hsign
        rfl
      · cases hsign
    · exact plainChar_of_continuesName (hdigits c hdigit)
  · obtain ⟨d, ds, hds⟩ := List.exists_cons_of_ne_nil
      (Nat.toDigits_ne_nil (b := 10) (n := n.natAbs))
    have hd : d ∈ Nat.toDigits 10 n.natAbs := hds ▸ List.mem_cons_self
    exact ⟨d, List.mem_append_right _ hd, hdigits d hd⟩

theorem isUnquotedText_grouped {x : Expr} (hplain : x.isPlain = true) (h : x.Named) :
    IsUnquotedText x.grouped.toList := by
  cases x with
  | ident _ name => exact isUnquotedText_of_isWord h.1
  | int _ value => exact isUnquotedText_toString _
  | bool _ b => exact isUnquotedText_of_isWord (isWord_spelling _)
  | null => exact isUnquotedText_of_isWord (isWord_spelling _)
  | str | unary | binary | attr | filter => cases hplain

theorem plain_append_inj {x y : Expr} (hxplain : x.isPlain = true) (hx : x.Named)
    (hyplain : y.isPlain = true) (hy : y.Named) {r s : List Char}
    (hr : ∀ c ∈ r.head?, plainChar c = false) (hs : ∀ c ∈ s.head?, plainChar c = false)
    (h : x.grouped.toList ++ r = y.grouped.toList ++ s) : x.erase = y.erase ∧ r = s := by
  obtain ⟨htext, hrs⟩ := stretch_append_inj (isUnquotedText_grouped hxplain hx).plainChar
    (isUnquotedText_grouped hyplain hy).plainChar hr hs h
  have hread := ofUnquotedText_grouped hxplain hx
  rw [String.toList_inj.mp htext, ofUnquotedText_grouped hyplain hy] at hread
  exact ⟨hread.symm, hrs⟩

end Expr

end Templates
