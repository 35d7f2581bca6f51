import Mathlib.Data.List.Basic
import Templates.Proofs.TokenSense

/-!
# Tokens tile their text

A source text consists of tokens with gaps between them: `Tiles before text ts` says that `text`,
with `before` in front of it, falls into gaps and the lexemes of the tokens `ts` in turn. A gap is
white space and comments (`IsGap`); a lexeme fits its token, is at the position of the token, and is
the longest that begins there (`LexemeAt`). None of this mentions `cut`; that it takes off either a
part of a gap (`isGap_cut`) or the lexeme of a token (`lexemeAt_cut`) is the main step.
-/

namespace Templates

/-! ## Places -/

/-- The place behind a text: each line feed in it starts a line, and the characters behind the last
one fill the columns. -/
def placeBehind (text : List Char) : Position :=
  ⟨1 + text.count '\n', 1 + (text.reverse.takeWhile (· ≠ '\n')).length⟩

theorem placeBehind_concat (text : List Char) (c : Char) :
    placeBehind (text ++ [c]) = (placeBehind text).next c := by
  unfold placeBehind Position.next
  by_cases hc : c = '\n'
  · subst hc
    simp [Nat.add_assoc]
  · have hcount : List.count '\n' [c] = 0 := List.count_eq_zero.mpr (by simpa [eq_comm] using hc)
    rw [List.count_append, hcount, List.reverse_append, List.reverse_singleton,
      List.singleton_append, List.takeWhile_cons_of_pos (by simpa using hc), if_neg hc]
    rfl

theorem placeBehind_append (before text : List Char) :
    placeBehind (before ++ text) = (placeBehind before).after text := by
  induction text generalizing before with
  | nil => rw [List.append_nil, Position.after_nil]
  | cons c cs ih =>
    have hsplit : before ++ c :: cs = before ++ [c] ++ cs := by simp
    rw [hsplit, ih, placeBehind_concat, Position.after_cons]

/-! ## Comments -/

/-- The delimiter that ends a comment does not occur. -/
def NoCommentEnd (text : List Char) : Prop := ¬ ['#', '}'] <:+: text

theorem noCommentEnd_nil : NoCommentEnd [] := by
  simp [NoCommentEnd]

theorem noCommentEnd_cons {c : Char} {cs : List Char} :
    NoCommentEnd (c :: cs) ↔ (c = '#' → cs.head? ≠ some '}') ∧ NoCommentEnd cs := by
  unfold NoCommentEnd
  rw [List.infix_cons_iff, not_or]
  refine and_congr_left fun _ => ?_
  cases cs with
  | nil => simp
  | cons d ds => simp [eq_comm]

/-- `IsComment text rest`: in front of `rest`, the text is a comment. -/
inductive IsComment : List Char → List Char → Prop
  /-- It ends with the first `#}` behind its first two characters. -/
  | closed {body rest : List Char} (h : NoCommentEnd (body ++ ['#'])) :
    IsComment ('{' :: '#' :: (body ++ ['#', '}'])) rest
  /-- It has no end and takes all of the text. -/
  | unclosed {body : List Char} (h : NoCommentEnd body) : IsComment ('{' :: '#' :: body) []

/-- The piece `k` is what is left of a comment, behind `text` backwards and in front of `cs`. -/
def EndsComment (text cs : List Char) (k : Cut) : Prop :=
  (∃ body rest, cs = body ++ '#' :: '}' :: rest ∧ NoCommentEnd (body ++ ['#']) ∧
      k = ⟨.comment, text.reverse ++ (body ++ ['#', '}']), rest⟩) ∨
    NoCommentEnd cs ∧ k = ⟨.comment, text.reverse ++ cs, []⟩

theorem EndsComment.cons {c : Char} {text cs : List Char} {k : Cut}
    (hc : c = '#' → cs.head? ≠ some '}') (h : EndsComment (c :: text) cs k) :
    EndsComment text (c :: cs) k := by
  rcases h with ⟨body, rest, rfl, hbody, rfl⟩ | ⟨hcs, rfl⟩
  · have hhead : c = '#' → (body ++ ['#']).head? ≠ some '}' := by
      intro hsign
      cases body with
      | nil => simp
      | cons d ds => exact hc hsign
    exact Or.inl ⟨c :: body, rest, rfl, noCommentEnd_cons.mpr ⟨hhead, hbody⟩, by simp⟩
  · exact Or.inr ⟨noCommentEnd_cons.mpr ⟨hc, hcs⟩, by simp⟩

theorem endsComment_commentFrom (text cs : List Char) :
    EndsComment text cs (Cut.commentFrom text cs) := by
  fun_induction Cut.commentFrom text cs with
  | case1 text => exact Or.inr ⟨noCommentEnd_nil, by simp⟩
  | case2 text ds =>
    have hsign : NoCommentEnd ['#'] := noCommentEnd_cons.mpr ⟨by simp, noCommentEnd_nil⟩
    exact Or.inl ⟨[], ds, rfl, hsign, by simp⟩
  | case3 text cs hends ih =>
    refine ih.cons fun _ hhead => ?_
    obtain ⟨ds, hcs⟩ := List.head?_eq_some_iff.mp hhead
    exact hends ds hcs
  | case4 text c cs hc ih => exact ih.cons fun hsign => absurd hsign hc

/-! ## Gaps -/

/-- `IsGap gap rest`: in front of `rest`, the text `gap` is white space and comments. -/
inductive IsGap : List Char → List Char → Prop
  | nil {rest : List Char} : IsGap [] rest
  | blank {c : Char} {gap rest : List Char} (hc : isBlank c = true) (h : IsGap gap rest) :
    IsGap (c :: gap) rest
  | comment {text gap rest : List Char} (ht : IsComment text (gap ++ rest)) (h : IsGap gap rest) :
    IsGap (text ++ gap) rest

theorem IsGap.blanks {cs gap rest : List Char} (hcs : ∀ c ∈ cs, isBlank c = true)
    (h : IsGap gap rest) : IsGap (cs ++ gap) rest := by
  induction cs with
  | nil => exact h
  | cons c cs ih =>
    obtain ⟨hc, hrest⟩ := List.forall_mem_cons.mp hcs
    exact .blank hc (ih hrest)

/-! ## String literals -/

/-- `Unescapes quote body value`: between two of these quotes, `body` is written for `value`. -/
inductive Unescapes (quote : Char) : List Char → List Char → Prop
  | nil : Unescapes quote [] []
  | plain {c : Char} {body value : List Char} (hquote : c ≠ quote) (hc : c ≠ '\\')
    (h : Unescapes quote body value) : Unescapes quote (c :: body) (c :: value)
  | escaped {c : Char} {body value : List Char} (h : Unescapes quote body value) :
    Unescapes quote ('\\' :: c :: body) (StringLiteral.escaped c ++ value)

/-- The text behind an opening quote goes to its end without a closing one; a backslash may be its
last character. -/
def Unterminated (quote : Char) (text : List Char) : Prop :=
  ∃ body value, Unescapes quote body value ∧ (text = body ∨ text = body ++ ['\\'])

/-- The scan `s` is that of a string literal of which `text` has been read, backwards, and stands
for `value`, and `cs` is left. -/
def EndsString (quote : Char) (value text cs : List Char) (s : StringLiteral.Scan) : Prop :=
  (∃ body value' rest, cs = body ++ quote :: rest ∧ Unescapes quote body value' ∧
      s = .closed (value.reverse ++ value') (text.reverse ++ (body ++ [quote])) rest) ∨
    Unterminated quote cs ∧ s = .unclosed

/-- A character or an escape that stands for `w` is read. -/
theorem EndsString.append {quote : Char} {u w value text cs : List Char} {s : StringLiteral.Scan}
    (hu : ∀ body value', Unescapes quote body value' → Unescapes quote (u ++ body) (w ++ value'))
    (h : EndsString quote (w.reverse ++ value) (u.reverse ++ text) cs s) :
    EndsString quote value text (u ++ cs) s := by
  rcases h with ⟨body, value', rest, rfl, hbody, rfl⟩ | ⟨⟨body, value', hbody, hcs⟩, rfl⟩
  · exact Or.inl ⟨u ++ body, w ++ value', rest, by simp, hu _ _ hbody, by simp⟩
  · refine Or.inr ⟨⟨u ++ body, w ++ value', hu _ _ hbody, ?_⟩, rfl⟩
    rcases hcs with rfl | rfl
    · exact Or.inl rfl
    · exact Or.inr (by rw [List.append_assoc])

theorem endsString_scanFrom (quote : Char) (value text cs : List Char) :
    EndsString quote value text cs (StringLiteral.scanFrom quote value text cs) := by
  fun_induction StringLiteral.scanFrom quote value text cs with
  | case1 => exact Or.inr ⟨⟨[], [], .nil, Or.inl rfl⟩, rfl⟩
  | case2 _ _ cs => exact Or.inl ⟨[], [], cs, rfl, .nil, by simp⟩
  | case3 => exact Or.inr ⟨⟨[], [], .nil, Or.inr rfl⟩, rfl⟩
  | case4 value text d ds _ ih =>
    exact EndsString.append (u := ['\\', d]) (fun _ _ h => .escaped h) ih
  | case5 value text c cs hquote hc ih =>
    exact EndsString.append (u := [c]) (w := [c]) (fun _ _ h => .plain hquote hc h) ih

/-! ## Lexemes -/

/-- The two quotes. -/
def quotes : List Char := ['"', '\'']

/-- No piece of a source text but an illegal character begins with `c` in front of `cs`. -/
structure BeginsNothing (c : Char) (cs : List Char) : Prop where
  not_blank : isBlank c = false
  not_name : Cut.beginsName c = false
  not_digit : c.isDigit = false
  not_quote : c ∉ quotes
  not_comment : ¬ ['{', '#'] <+: c :: cs
  not_operator : ∀ o : Operator, ¬ o.spelling.toList <+: c :: cs
  not_punctuation : ∀ p : Punctuation, ¬ p.spelling.toList <+: c :: cs

/-- The operators that a `=` makes another operator of. -/
def extensibleOperators : List Operator := [.assign, .bang, .less, .greater]

/-- The text `lexeme`, with `after` behind it, is that of the token. -/
structure LexemeAt (lexeme after : List Char) (l : Lexeme) : Prop where
  /-- All but strings are kept as written. -/
  verbatim : l.kind ≠ .string → l.literal.toList = lexeme
  /-- A string is the value of the text between its quotes. -/
  string : l.kind = .string → ∃ quote ∈ quotes, ∃ body,
    lexeme = quote :: (body ++ [quote]) ∧ Unescapes quote body l.literal.toList
  /-- An illegal token is one character, or a string literal that the text ends in. -/
  illegal : l.kind = .illegal → (∃ c, lexeme = [c] ∧ BeginsNothing c after) ∨
    after = [] ∧ ∃ quote ∈ quotes, ∃ body, lexeme = quote :: body ∧ Unterminated quote body
  /-- Names and reserved words take all that can go on with them. -/
  word_apart : (l.kind = .ident ∨ ∃ k, l.kind = .keyword k) → EndsWord after
  /-- Numbers take all digits. -/
  int_apart : l.kind = .int → ∀ c ∈ after.head?, c.isDigit = false
  /-- Operators take a `=` that makes another operator of them. -/
  sign_apart : ∀ o ∈ extensibleOperators, l.kind = .operator o → after.head? ≠ some '='

theorem head?_dropWhile {p : Char → Bool} (cs : List Char) :
    ∀ c ∈ (cs.dropWhile p).head?, p c = false := by
  intro c hc
  have hnot := List.head?_dropWhile_not p cs
  rw [Option.mem_def.mp hc] at hnot
  simpa using hnot

theorem lexemeAt_word (text : List Char) {rest : List Char} (hrest : EndsWord rest) :
    LexemeAt text rest ⟨Cut.wordKind (String.ofList text), String.ofList text⟩ := by
  have hkind : Cut.wordKind (String.ofList text) = .ident ∨
      ∃ k, Cut.wordKind (String.ofList text) = .keyword k := by
    unfold Cut.wordKind
    split
    · exact Or.inr ⟨_, rfl⟩
    · exact Or.inl rfl
  generalize Cut.wordKind (String.ofList text) = kind at hkind
  have hverbatim : (String.ofList text).toList = text := String.toList_ofList
  rcases hkind with rfl | ⟨k, rfl⟩
  · exact ⟨fun _ => hverbatim, nofun, nofun, fun _ => hrest, nofun, nofun⟩
  · exact ⟨fun _ => hverbatim, nofun, nofun, fun _ => hrest, nofun, nofun⟩

theorem lexemeAt_int (text : List Char) {rest : List Char}
    (hrest : ∀ c ∈ rest.head?, c.isDigit = false) :
    LexemeAt text rest ⟨.int, String.ofList text⟩ := by
  refine ⟨fun _ => String.toList_ofList, nofun, nofun, ?_, fun _ => hrest, nofun⟩
  rintro (h | ⟨k, h⟩) <;> cases h

theorem lexemeAt_string {quote : Char} (hquote : quote ∈ quotes) (cs : List Char) :
    ∀ l ∈ (Cut.string quote cs).content.lexeme?,
      LexemeAt (Cut.string quote cs).text (Cut.string quote cs).rest l := by
  intro l hl
  rcases endsString_scanFrom quote [] [] cs with
    ⟨body, value, rest, rfl, hbody, hscan⟩ | ⟨hcs, hscan⟩
  · have hcut : Cut.string quote (body ++ quote :: rest) =
        ⟨.token .string (String.ofList value), quote :: (body ++ [quote]), rest⟩ := by
      rw [Cut.string, StringLiteral.scan, hscan]
      rfl
    rw [hcut] at hl ⊢
    cases hl
    refine ⟨fun h => absurd rfl h, fun _ => ⟨quote, hquote, body, rfl, ?_⟩, fun h => ?_,
      fun h => ?_, fun h => ?_, fun _ _ h => ?_⟩
    · show Unescapes quote body (String.ofList value).toList
      rw [String.toList_ofList]
      exact hbody
    · cases h
    · rcases h with h | ⟨k, h⟩ <;> cases h
    · cases h
    · cases h
  · have hcut : Cut.string quote cs = Cut.verbatim .illegal (quote :: cs) [] := by
      rw [Cut.string, StringLiteral.scan, hscan]
    rw [hcut] at hl ⊢
    cases hl
    refine ⟨fun _ => String.toList_ofList, fun h => ?_, fun _ => ?_, fun h => ?_, fun h => ?_,
      fun _ _ h => ?_⟩
    · cases h
    · exact Or.inr ⟨rfl, quote, hquote, cs, rfl, hcs⟩
    · rcases h with h | ⟨k, h⟩ <;> cases h
    · cases h
    · cases h

/-! ## Signs -/

theorem sign?_operator (o : Operator) : Cut.sign? o.spelling.toList = some (.operator o) := by
  cases o <;> rfl

theorem sign?_punctuation (p : Punctuation) :
    Cut.sign? p.spelling.toList = some (.punctuation p) := by
  cases p <;> rfl

/-- The kind of a sign. -/
theorem kind_of_sign? {text : List Char} {kind : TokenKind} (h : Cut.sign? text = some kind) :
    (∃ o : Operator, kind = .operator o ∧ text = o.spelling.toList) ∨
      ∃ p : Punctuation, kind = .punctuation p ∧ text = p.spelling.toList := by
  have hspelled : Lexeme.Spelled ⟨kind, String.ofList text⟩ := Cut.spelled_of_sign? h
  rcases Option.or_eq_some_iff.mp h with ho | ⟨-, hp⟩
  · obtain ⟨o, -, rfl⟩ := Option.map_eq_some_iff.mp ho
    exact Or.inl ⟨o, rfl, by rw [← String.toList_ofList (l := text)]; exact congrArg _ hspelled⟩
  · obtain ⟨p, -, rfl⟩ := Option.map_eq_some_iff.mp hp
    exact Or.inr ⟨p, rfl, by rw [← String.toList_ofList (l := text)]; exact congrArg _ hspelled⟩

/-- A sign has one character or two, so only these need to be looked at. -/
theorem not_prefix_of_sign? {c : Char} {cs u : List Char} {kind : TokenKind}
    (hu : Cut.sign? u = some kind) (hshort : Cut.sign? [c] = none)
    (hlong : ∀ d ∈ cs.head?, Cut.sign? [c, d] = none) : ¬ u <+: c :: cs := by
  rintro ⟨ds, hds⟩
  have hlength : u.length = 1 ∨ u.length = 2 := by
    rcases kind_of_sign? hu with ⟨o, -, rfl⟩ | ⟨p, -, rfl⟩
    · cases o <;> decide
    · cases p <;> decide
  rcases hlength with h | h
  · obtain ⟨x, rfl⟩ := List.length_eq_one_iff.mp h
    obtain ⟨rfl, -⟩ := List.cons.inj hds
    simp [hshort] at hu
  · obtain ⟨x, y, rfl⟩ := List.length_eq_two.mp h
    obtain ⟨rfl, rfl⟩ := List.cons.inj hds
    simp [hlong y rfl] at hu

theorem lexemeAt_verbatim_sign {text rest : List Char} {kind : TokenKind}
    (hkind : Cut.sign? text = some kind)
    (hrest : ∀ o ∈ extensibleOperators, kind = .operator o → rest.head? ≠ some '=') :
    LexemeAt text rest ⟨kind, String.ofList text⟩ := by
  rcases kind_of_sign? hkind with ⟨o, rfl, -⟩ | ⟨p, rfl, -⟩
  · refine ⟨fun _ => String.toList_ofList, nofun, nofun, ?_, nofun, hrest⟩
    rintro (h | ⟨k, h⟩) <;> cases h
  · refine ⟨fun _ => String.toList_ofList, nofun, nofun, ?_, nofun, hrest⟩
    rintro (h | ⟨k, h⟩) <;> cases h

/-- An operator that a `=` can go on with is one character, and with a `=` it is a sign again. -/
theorem sign?_of_extensible {o : Operator} (ho : o ∈ extensibleOperators) :
    ∃ c, o.spelling.toList = [c] ∧ Cut.sign? [c, '='] ≠ none := by
  simp only [extensibleOperators, List.mem_cons, List.not_mem_nil, or_false] at ho
  rcases ho with rfl | rfl | rfl | rfl <;> exact ⟨_, rfl, by decide⟩

theorem lexemeAt_shortSign {c : Char} {cs : List Char}
    (hcs : ∀ d ∈ cs.head?, Cut.sign? [c, d] = none)
    (hnothing : Cut.sign? [c] = none → BeginsNothing c cs) :
    ∀ l ∈ (Cut.shortSign c cs).content.lexeme?, LexemeAt [c] cs l := by
  intro l hl
  cases hl
  cases hsign : Cut.sign? [c] with
  | none =>
    refine ⟨fun _ => String.toList_ofList, nofun, fun _ => ?_, ?_, nofun, nofun⟩
    · exact Or.inl ⟨c, rfl, hnothing hsign⟩
    · rintro (h | ⟨k, h⟩) <;> cases h
  | some kind =>
    refine lexemeAt_verbatim_sign hsign fun o ho hkind hhead => ?_
    obtain ⟨d, hd, hpair⟩ := sign?_of_extensible ho
    rcases kind_of_sign? hsign with ⟨o', rfl, hc⟩ | ⟨p, rfl, -⟩
    · cases hkind
      rw [hd] at hc
      cases hc
      exact hpair (hcs '=' hhead)
    · cases hkind

/-- A sign that is not the start of any other piece. -/
theorem lexemeAt_sign {c : Char} {cs : List Char} (hblank : isBlank c = false)
    (hname : Cut.beginsName c = false) (hdigit : c.isDigit = false) (hquote : c ∉ quotes)
    (hcomment : ¬ ['{', '#'] <+: c :: cs) :
    ∀ l ∈ (Cut.sign c cs).content.lexeme?,
      LexemeAt (Cut.sign c cs).text (Cut.sign c cs).rest l := by
  have hshort (hcs : ∀ d ∈ cs.head?, Cut.sign? [c, d] = none) :
      ∀ l ∈ (Cut.shortSign c cs).content.lexeme?, LexemeAt [c] cs l := by
    refine lexemeAt_shortSign hcs fun hsign => ⟨hblank, hname, hdigit, hquote, hcomment, ?_, ?_⟩
    · exact fun o => not_prefix_of_sign? (sign?_operator o) hsign hcs
    · exact fun p => not_prefix_of_sign? (sign?_punctuation p) hsign hcs
  cases cs with
  | nil => exact hshort nofun
  | cons d ds =>
    cases hkind : Cut.sign? [c, d] with
    | none =>
      have hcut : Cut.sign c (d :: ds) = Cut.shortSign c (d :: ds) := by simp only [Cut.sign, hkind]
      rw [hcut]
      refine hshort fun e he => ?_
      cases he
      exact hkind
    | some kind =>
      have hcut : Cut.sign c (d :: ds) = Cut.verbatim kind [c, d] ds := by
        simp only [Cut.sign, hkind]
      rw [hcut]
      intro l hl
      cases hl
      refine lexemeAt_verbatim_sign hkind fun o ho hoperator _ => ?_
      obtain ⟨x, hx, -⟩ := sign?_of_extensible ho
      rcases kind_of_sign? hkind with ⟨o', rfl, hpair⟩ | ⟨p, rfl, -⟩
      · cases hoperator
        rw [hx] at hpair
        cases hpair
      · cases hoperator

/-! ## Cutting -/

theorem Cut.brace_eq (cs : List Char) (h : ¬ ['#'] <+: cs) : Cut.brace cs = Cut.sign '{' cs := by
  unfold Cut.brace
  split
  · next ds => exact absurd ⟨ds, rfl⟩ h
  · rfl

/-- `cut` takes off the lexeme of a token, if its piece is one. -/
theorem lexemeAt_cut (c : Char) (cs : List Char) :
    ∀ l ∈ (cut c cs).content.lexeme?, LexemeAt (cut c cs).text (cut c cs).rest l := by
  unfold cut
  split
  · nofun
  split
  · intro l hl
    cases hl
    exact lexemeAt_word _ (head?_dropWhile cs)
  split
  · intro l hl
    cases hl
    exact lexemeAt_int _ (head?_dropWhile cs)
  split
  · next hquote => exact lexemeAt_string (by simpa [quotes] using hquote) cs
  next hblank hname hdigit hquote =>
    have hnot : c ∉ quotes := by simpa [quotes] using hquote
    split
    · next hbrace =>
      subst hbrace
      by_cases hcomment : ['#'] <+: cs
      · obtain ⟨ds, rfl⟩ := hcomment
        intro l hl
        simp [Cut.brace, Cut.content_commentFrom, Content.lexeme?] at hl
      · rw [Cut.brace_eq cs hcomment]
        refine lexemeAt_sign (by decide) (by decide) (by decide) hnot ?_
        simpa using hcomment
    · next hbrace =>
      refine lexemeAt_sign (by simpa using hblank) (by simpa using hname) (by simpa using hdigit)
        hnot ?_
      rintro ⟨ds, hds⟩
      exact hbrace (List.cons.inj hds).1.symm

theorem lexeme?_sign_ne_none (c : Char) (cs : List Char) :
    (Cut.sign c cs).content.lexeme? ≠ none := by
  intro h
  unfold Cut.sign at h
  split at h
  · cases h
  · split at h <;> cases h

theorem lexeme?_string_ne_none (quote : Char) (cs : List Char) :
    (Cut.string quote cs).content.lexeme? ≠ none := by
  intro h
  unfold Cut.string at h
  split at h <;> cases h

/-- A piece that is no lexeme is white space or a comment. -/
theorem cut_of_lexeme?_eq_none {c : Char} {cs : List Char}
    (h : (cut c cs).content.lexeme? = none) :
    isBlank c = true ∧ cut c cs = ⟨.blank, c :: cs.takeWhile isBlank, cs.dropWhile isBlank⟩ ∨
      ∃ ds, c = '{' ∧ cs = '#' :: ds ∧ cut c cs = Cut.commentFrom ['#', '{'] ds := by
  by_cases hblank : isBlank c = true
  · exact Or.inl ⟨hblank, if_pos hblank⟩
  rw [cut, if_neg hblank] at h ⊢
  by_cases hname : Cut.beginsName c = true
  · rw [if_pos hname] at h
    cases h
  rw [if_neg hname] at h ⊢
  by_cases hdigit : c.isDigit = true
  · rw [if_pos hdigit] at h
    cases h
  rw [if_neg hdigit] at h ⊢
  by_cases hquote : (decide (c = '"') || decide (c = '\'')) = true
  · rw [if_pos hquote] at h
    exact absurd h (lexeme?_string_ne_none c cs)
  rw [if_neg hquote] at h ⊢
  by_cases hbrace : c = '{'
  · rw [if_pos hbrace] at h ⊢
    by_cases hcomment : ['#'] <+: cs
    · obtain ⟨ds, rfl⟩ := hcomment
      exact Or.inr ⟨ds, hbrace, rfl, rfl⟩
    · rw [Cut.brace_eq cs hcomment] at h
      exact absurd h (lexeme?_sign_ne_none '{' cs)
  · rw [if_neg hbrace] at h
    exact absurd h (lexeme?_sign_ne_none c cs)

/-- A piece that is no lexeme makes the gap behind it longer. -/
theorem isGap_cut {c : Char} {cs gap rest : List Char} (h : (cut c cs).content.lexeme? = none)
    (hrest : (cut c cs).rest = gap ++ rest) (hgap : IsGap gap rest) :
    IsGap ((cut c cs).text ++ gap) rest := by
  rcases cut_of_lexeme?_eq_none h with ⟨hblank, hcut⟩ | ⟨ds, rfl, rfl, hcut⟩
  · rw [hcut]
    refine hgap.blanks (List.forall_mem_cons.mpr ⟨hblank, ?_⟩)
    exact List.all_eq_true.mp List.all_takeWhile
  · rw [hcut] at hrest ⊢
    rcases endsComment_commentFrom ['#', '{'] ds with ⟨body, rest', -, hbody, hk⟩ | ⟨hds, hk⟩
    · rw [hk]
      exact .comment (.closed hbody) hgap
    · rw [hk] at hrest ⊢
      obtain ⟨rfl, rfl⟩ := List.append_eq_nil_iff.mp hrest.symm
      exact .comment (.unclosed hds) hgap

/-! ## Tilings -/

/-- `Tiles before text ts`: behind `before`, the text consists of gaps and lexemes in turn, and the
tokens `ts` are those of the lexemes, in their places. -/
inductive Tiles : List Char → List Char → List Token → Prop
  | last {before gap : List Char} (hgap : IsGap gap []) : Tiles before gap []
  | cons {before gap lexeme after : List Char} {t : Token} {ts : List Token}
    (hgap : IsGap gap (lexeme ++ after)) (hne : lexeme ≠ [])
    (hlexeme : LexemeAt lexeme after t.lexeme) (hgenuine : t.lexeme.Genuine)
    (hspelled : t.lexeme.Spelled) (hpos : t.pos = placeBehind (before ++ gap))
    (h : Tiles (before ++ (gap ++ lexeme)) after ts) :
    Tiles before (gap ++ (lexeme ++ after)) (t :: ts)

/-- A gap in front of a tiling makes its first gap longer. -/
theorem Tiles.lengthen {before piece text : List Char} {ts : List Token}
    (hpiece : ∀ gap rest, text = gap ++ rest → IsGap gap rest → IsGap (piece ++ gap) rest)
    (h : Tiles (before ++ piece) text ts) : Tiles before (piece ++ text) ts := by
  cases h with
  | last hgap =>
    exact .last (hpiece _ _ (List.append_nil _).symm hgap)
  | cons hgap hne hlexeme hgenuine hspelled hpos h =>
    rw [← List.append_assoc]
    refine .cons (hpiece _ _ rfl hgap) hne hlexeme hgenuine hspelled ?_ ?_
    · rw [hpos, List.append_assoc]
    · simpa only [List.append_assoc] using h

theorem Piece.token?_eq (p : Piece) :
    p.token? = p.content.lexeme?.map fun l => ⟨l.kind, l.literal, p.pos⟩ := by
  obtain ⟨pos, text, content⟩ := p
  cases content <;> rfl

/-- The pieces of a text that are lexemes give the tokens of a tiling. -/
theorem tiles_piecesFrom (before text : List Char) :
    Tiles before text ((piecesFrom [] (placeBehind before) text).filterMap Piece.token?) := by
  induction text using cut_induction generalizing before with
  | nil =>
    rw [piecesFrom]
    exact .last .nil
  | cons c cs ih =>
    have hrest := ih (before ++ (cut c cs).text)
    rw [placeBehind_append] at hrest
    have htext : c :: cs = (cut c cs).text ++ (cut c cs).rest := (append_cut c cs).symm
    rw [piecesFrom_cons, List.filterMap_cons, Piece.token?_eq, htext]
    cases hlexeme : (cut c cs).content.lexeme? with
    | none =>
      exact hrest.lengthen fun gap rest hsplit hgap => isGap_cut hlexeme hsplit hgap
    | some l =>
      have hplace : placeBehind before = placeBehind (before ++ []) := by rw [List.append_nil]
      exact .cons .nil (text_cut_ne_nil c cs) (lexemeAt_cut c cs l hlexeme)
        (genuine_cut c cs l hlexeme) (spelled_cut c cs l hlexeme) hplace hrest

theorem Tiles.ne_eof {before text : List Char} {ts : List Token} (h : Tiles before text ts) :
    ∀ t ∈ ts, t.kind ≠ .eof := by
  induction h with
  | last => exact List.forall_mem_nil _
  | cons _ _ _ hgenuine _ _ _ ih => exact List.forall_mem_cons.mpr ⟨hgenuine.2, ih⟩

/-- The tokens of a source text tile it, and the only end token is the last one, at the position
behind the text. -/
theorem tokenize_tiles (source : String) :
    ∃ ts, tokenize source = ts ++ [.endOfText (placeBehind source.toList)] ∧
      (∀ t ∈ ts, t.kind ≠ .eof) ∧ Tiles [] source.toList ts := by
  have htiles : Tiles [] source.toList ((pieces source.toList).filterMap Piece.token?) :=
    tiles_piecesFrom [] source.toList
  have hplace : Position.first.after source.toList = placeBehind source.toList :=
    (placeBehind_append [] source.toList).symm
  refine ⟨(pieces source.toList).filterMap Piece.token?, ?_, htiles.ne_eof, htiles⟩
  rw [tokenize_eq, hplace]

/-! ## Where tokens are cut off -/

theorem not_isBlank_of_lexeme? {c : Char} {cs : List Char} {l : Lexeme}
    (h : (cut c cs).content.lexeme? = some l) : isBlank c = false := by
  by_cases hblank : isBlank c = true
  · rw [cut, if_pos hblank] at h
    cases h
  · simpa using hblank

/-- Every token of a text behind `before` is cut off at its position. -/
theorem exists_cut_of_mem_piecesFrom (before text : List Char) :
    ∀ t ∈ (piecesFrom [] (placeBehind before) text).filterMap Piece.token?, ∃ front c cs,
      before ++ text = front ++ c :: cs ∧ t.pos = placeBehind front ∧
        (cut c cs).content.lexeme? = some t.lexeme := by
  induction text using cut_induction generalizing before with
  | nil => simp [piecesFrom]
  | cons c cs ih =>
    have hrest := ih (before ++ (cut c cs).text)
    rw [placeBehind_append, List.append_assoc, append_cut] at hrest
    intro t ht
    rw [piecesFrom_cons, List.filterMap_cons, Piece.token?_eq] at ht
    cases hlexeme : (cut c cs).content.lexeme? with
    | none =>
      rw [hlexeme] at ht
      exact hrest t ht
    | some l =>
      rw [hlexeme] at ht
      rcases List.mem_cons.mp ht with rfl | ht
      · exact ⟨before, c, cs, rfl, rfl, hlexeme⟩
      · exact hrest t ht

/-- Every token of a source text but the end token is cut off at its position. -/
theorem exists_cut_of_mem_tokenize {source : String} {t : Token} (ht : t ∈ tokenize source)
    (hkind : t.kind ≠ .eof) : ∃ front c cs, source.toList = front ++ c :: cs ∧
      t.pos = placeBehind front ∧ (cut c cs).content.lexeme? = some t.lexeme := by
  rw [tokenize_eq] at ht
  rcases List.mem_append.mp ht with ht | hend
  · exact exists_cut_of_mem_piecesFrom [] source.toList t ht
  · rw [List.mem_singleton.mp hend] at hkind
    exact absurd rfl hkind

/-- The end token is at the position behind the text. -/
theorem pos_of_mem_tokenize_of_eof {source : String} {t : Token} (ht : t ∈ tokenize source)
    (hkind : t.kind = .eof) : t.pos = placeBehind source.toList := by
  rw [tokenize_eq] at ht
  rcases List.mem_append.mp ht with ht | hend
  · exact absurd hkind ((tiles_piecesFrom [] source.toList).ne_eof t ht)
  · rw [List.mem_singleton.mp hend]
    exact (placeBehind_append [] source.toList).symm

end Templates
