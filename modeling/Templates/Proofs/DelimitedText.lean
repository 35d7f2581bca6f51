import Mathlib.Data.List.DropRight
import Templates.Lint.Structure
import Templates.Proofs.TokenTiling

/-!
# Delimiters in a text and among its tokens

`checkStructure` counts delimiters and looks for tag names character by character, inside and
outside of tokens. `Delimited text ps names` is the shape of a text in which `occurrences` counts
the delimiters `ps` (`Delimited.occurrences_eq`) and `tagNames` finds `names`
(`Delimited.tagNames_eq`): delimiters and `Unmarked` stretches in turn, and no delimiter runs into a
second one.

A `PlainText` has neither comments nor illegal characters, and its string literals are `Unmarked`.
It is `Delimited` if its tokens are `WellPlaced` (`delimited_of_wellPlaced`).
-/

namespace Templates

/-! ## Characters of delimiters -/

/-- The characters that delimiters consist of. -/
def markChars : List Char := ['{', '}', '%', '#']

/-- No character of a delimiter occurs. -/
def Unmarked (text : List Char) : Prop := ∀ c ∈ text, c ∉ markChars

instance (text : List Char) : Decidable (Unmarked text) := List.decidableBAll _ text

/-- The delimiter of a tag, not a parenthesis. -/
def Punctuation.IsDelimiter (p : Punctuation) : Prop := p.role ≠ .grouping

/-- The text has the delimiters `ps`, of which each `{%` is followed by one of `names`. -/
inductive Delimited : List Char → List Punctuation → List String → Prop
  | nil : Delimited [] [] []
  | stretch {cs text : List Char} {ps : List Punctuation} {names : List String}
    (hcs : Unmarked cs) (h : Delimited text ps names) : Delimited (cs ++ text) ps names
  | mark {p : Punctuation} {text : List Char} {ps : List Punctuation} {names : List String}
    (hp : p.IsDelimiter) (htag : p ≠ .tagOpen) (hnext : ∀ c ∈ text.head?, c ∉ ['}', '%', '#'])
    (h : Delimited text ps names) : Delimited (p.spelling.toList ++ text) (p :: ps) names
  | tag {name : String} {text : List Char} {ps : List Punctuation} {names : List String}
    (hname : tagName? ('{' :: '%' :: text) = some name)
    (hnext : ∀ c ∈ text.head?, c ∉ ['}', '%', '#']) (h : Delimited text ps names) :
    Delimited ('{' :: '%' :: text) (.tagOpen :: ps) (name :: names)

/-! ## Counting -/

section Pair

variable {a b c : Char} {text : List Char}

theorem occurrencesFrom_eq_add (first : Char) (others : List Char) (skip found : Nat)
    (text : List Char) :
    occurrencesFrom first others skip found text =
      found + occurrencesFrom first others skip 0 text := by
  induction text generalizing skip found with
  | nil => rfl
  | cons c cs ih =>
    cases skip with
    | succ k => exact ih k found
    | zero =>
      simp only [occurrencesFrom]
      split
      · rw [ih _ (found + 1), ih _ (0 + 1)]
        omega
      · exact ih 0 found

theorem occurrences_pair_of_ne (hc : c ≠ a) :
    occurrences [a, b] (c :: text) = occurrences [a, b] text := by
  simp [occurrences, occurrencesFrom, hc]

theorem occurrences_pair_of_next (hnext : ∀ d ∈ text.head?, d ≠ b) :
    occurrences [a, b] (a :: text) = occurrences [a, b] text := by
  have hprefix : [b].isPrefixOf text = false := by
    cases text with
    | nil => rfl
    | cons d ds =>
      have hd : (b == d) = false := beq_eq_false_iff_ne.mpr (hnext d rfl).symm
      show ((b == d) && [].isPrefixOf ds) = false
      rw [hd, Bool.false_and]
  simp only [occurrences, occurrencesFrom, hprefix, Bool.and_false, Bool.false_eq_true, if_false]

theorem occurrences_pair_self :
    occurrences [a, b] (a :: b :: text) = occurrences [a, b] text + 1 := by
  have hfirst : occurrences [a, b] (a :: b :: text) = occurrencesFrom a [b] 0 1 text := by
    simp [occurrences, occurrencesFrom, List.isPrefixOf]
  rw [hfirst, occurrencesFrom_eq_add, Nat.add_comm]
  rfl

theorem occurrences_pair_append {cs : List Char} (hcs : ∀ c ∈ cs, c ≠ a) :
    occurrences [a, b] (cs ++ text) = occurrences [a, b] text := by
  induction cs with
  | nil => rfl
  | cons c cs ih =>
    obtain ⟨hc, hrest⟩ := List.forall_mem_cons.mp hcs
    rw [List.cons_append, occurrences_pair_of_ne hc, ih hrest]

end Pair

theorem Unmarked.ne {cs : List Char} (h : Unmarked cs) {a : Char} (ha : a ∈ markChars) :
    ∀ c ∈ cs, c ≠ a := by
  rintro c hc rfl
  exact h c hc ha

/-- The delimiters of tags and of comments. -/
def markWords : List (List Char) :=
  [['{', '{'], ['}', '}'], ['{', '%'], ['%', '}'], ['{', '#'], ['#', '}']]

theorem exists_pair_of_mem_markWords {word : List Char} (h : word ∈ markWords) :
    ∃ a b, word = [a, b] ∧ a ∈ markChars := by
  simp only [markWords, List.mem_cons, List.not_mem_nil, or_false] at h
  rcases h with rfl | rfl | rfl | rfl | rfl | rfl <;> exact ⟨_, _, rfl, by decide⟩

theorem Punctuation.IsDelimiter.exists_pair {p : Punctuation} (h : p.IsDelimiter) :
    ∃ x y, p.spelling.toList = [x, y] := by
  cases p with
  | parenOpen | parenClose => exact absurd rfl h
  | _ => exact ⟨_, _, rfl⟩

/-- A character that has to follow a delimiter for another one to begin at its second character. -/
theorem mem_of_overlap (p : Punctuation) : ∀ word ∈ markWords, p.spelling.toList ≠ word →
    p.spelling.toList[1]? = word[0]? → (word[1]?.all fun b => b ∈ ['}', '%', '#']) = true := by
  cases p <;> decide

/-- A delimiter is counted once, and no other one begins in it. -/
theorem occurrences_mark {p : Punctuation} (hp : p.IsDelimiter) {word : List Char}
    (hword : word ∈ markWords) {text : List Char} (hnext : ∀ c ∈ text.head?, c ∉ ['}', '%', '#']) :
    occurrences word (p.spelling.toList ++ text) =
      occurrences word text + if p.spelling.toList = word then 1 else 0 := by
  have hoverlap := mem_of_overlap p word hword
  obtain ⟨a, b, rfl, -⟩ := exists_pair_of_mem_markWords hword
  obtain ⟨x, y, hxy⟩ := hp.exists_pair
  rw [hxy] at hoverlap ⊢
  by_cases hsame : [x, y] = [a, b]
  · cases hsame
    rw [if_pos rfl]
    exact occurrences_pair_self
  · -- Another one would begin at the second character, and that takes what cannot follow here.
    have hsecond : occurrences [a, b] (y :: text) = occurrences [a, b] text := by
      by_cases hy : y = a
      · subst hy
        refine occurrences_pair_of_next ?_
        rintro c hc rfl
        exact hnext c hc (of_decide_eq_true (hoverlap hsame rfl))
      · exact occurrences_pair_of_ne hy
    have hfirst : occurrences [a, b] (x :: y :: text) = occurrences [a, b] (y :: text) := by
      by_cases hx : x = a
      · subst hx
        refine occurrences_pair_of_next ?_
        rintro c hc rfl
        cases hc
        exact hsame rfl
      · exact occurrences_pair_of_ne hx
    rw [if_neg hsame]
    exact hfirst.trans hsecond

/-- `occurrences` in a `Delimited` text counts the delimiters. -/
theorem Delimited.occurrences_eq {text : List Char} {ps : List Punctuation} {names : List String}
    (h : Delimited text ps names) {word : List Char} (hword : word ∈ markWords) :
    occurrences word text = ps.countP fun p => p.spelling.toList = word := by
  obtain ⟨a, b, hpair, ha⟩ := exists_pair_of_mem_markWords hword
  induction h with
  | nil => rw [hpair]; rfl
  | stretch hcs _ ih =>
    rw [hpair, occurrences_pair_append (hcs.ne ha), ← hpair, ih]
  | mark hp _ hnext _ ih =>
    rw [occurrences_mark hp hword hnext, ih, List.countP_cons]
    simp only [decide_eq_true_eq]
  | @tag name text ps names _ hnext _ ih =>
    have hp : Punctuation.tagOpen.IsDelimiter := nofun
    have hmark := occurrences_mark hp hword hnext
    rw [List.countP_cons, ← ih]
    simp only [decide_eq_true_eq]
    exact hmark

/-! ## Names of tags -/

theorem tagNamesFrom_eq (done : List String) (text : List Char) :
    tagNamesFrom done text = done.reverse ++ tagNames text := by
  unfold tagNames
  induction text generalizing done with
  | nil => simp [tagNamesFrom]
  | cons c cs ih =>
    rw [tagNamesFrom, tagNamesFrom, ih, ih (_ ++ [])]
    simp

theorem tagNames_cons (c : Char) (cs : List Char) :
    tagNames (c :: cs) = (tagName? (c :: cs)).toList ++ tagNames cs := by
  rw [tagNames, tagNamesFrom, tagNamesFrom_eq]
  cases tagName? (c :: cs) <;> rfl

theorem tagNames_cons_of_ne {c : Char} (hc : c ≠ '{') (cs : List Char) :
    tagNames (c :: cs) = tagNames cs := by
  have hname : tagName? (c :: cs) = none := by
    unfold tagName?
    split
    · next h => exact absurd (List.cons.inj h).1 hc
    · rfl
  rw [tagNames_cons, hname]
  rfl

theorem tagNames_brace {cs : List Char} (hcs : ∀ c ∈ cs.head?, c ≠ '%') :
    tagNames ('{' :: cs) = tagNames cs := by
  have hname : tagName? ('{' :: cs) = none := by
    unfold tagName?
    split
    · next h =>
      obtain ⟨-, rfl⟩ := List.cons.inj h
      exact absurd rfl (hcs '%' rfl)
    · rfl
  rw [tagNames_cons, hname]
  rfl

theorem tagName?_congr {cs ds : List Char} (h : cs.dropWhile isBlank = ds.dropWhile isBlank) :
    tagName? ('{' :: '%' :: cs) = tagName? ('{' :: '%' :: ds) := by
  simp only [tagName?, h]

theorem tagName?_of_beginsName {c : Char} (hc : Cut.beginsName c = true) (cs : List Char) :
    tagName? ('{' :: '%' :: c :: cs) =
      some (String.ofList (c :: cs.takeWhile Cut.continuesName)) := by
  have hblank : ¬ isBlank c = true := by
    rw [not_isBlank_of_beginsName hc]
    nofun
  simp only [tagName?, List.dropWhile_cons_of_neg hblank, hc, if_true]

/-- `tagNames` of a `Delimited` text are its names. -/
theorem Delimited.tagNames_eq {text : List Char} {ps : List Punctuation} {names : List String}
    (h : Delimited text ps names) : tagNames text = names := by
  induction h with
  | nil => rfl
  | @stretch cs text ps names hcs _ ih =>
    have hbrace := hcs.ne (a := '{') (by decide)
    clear hcs
    induction cs with
    | nil => exact ih
    | cons c cs ihcs =>
      obtain ⟨hc, hrest⟩ := List.forall_mem_cons.mp hbrace
      rw [List.cons_append, tagNames_cons_of_ne hc, ihcs hrest]
  | @mark p text ps names hp htag hnext _ ih =>
    cases p with
    | parenOpen | parenClose => exact absurd rfl hp
    | tagOpen => exact absurd rfl htag
    | outputOpen =>
      have hpercent : ∀ c ∈ text.head?, c ≠ '%' := by
        rintro c hc rfl
        exact hnext _ hc (by decide)
      have hfirst : tagNames ('{' :: '{' :: text) = tagNames ('{' :: text) := by
        refine tagNames_brace ?_
        rintro c hc rfl
        cases hc
      exact hfirst.trans ((tagNames_brace hpercent).trans ih)
    | outputClose | tagClose =>
      exact (tagNames_cons_of_ne (by decide) _).trans ((tagNames_cons_of_ne (by decide) _).trans ih)
  | @tag name text ps names hname _ _ ih =>
    rw [tagNames_cons, hname, tagNames_cons_of_ne (by decide), ih]
    rfl

/-! ## Delimiters among tokens -/

namespace TokenKind

/-- The delimiter that the token is. -/
def delimiter? : TokenKind → Option Punctuation
  | punctuation p => if p.role = .grouping then none else some p
  | _ => none

theorem delimiter?_eq_some_iff {k : TokenKind} {p : Punctuation} :
    k.delimiter? = some p ↔ k = .punctuation p ∧ p.IsDelimiter := by
  constructor
  · intro h
    cases k with
    | punctuation q =>
      simp only [delimiter?, Option.ite_none_left_eq_some, Option.some.injEq] at h
      obtain ⟨hq, rfl⟩ := h
      exact ⟨rfl, hq⟩
    | _ => cases h
  · rintro ⟨rfl, hp⟩
    exact if_neg hp

end TokenKind

/-- The words behind `{%`. -/
def tagWords : List TokenKind → List Keyword
  | [] => []
  | .punctuation .tagOpen :: .keyword w :: ks => w :: tagWords ks
  | _ :: ks => tagWords ks

/-- No closing delimiter follows another delimiter, and a word follows `{%`. -/
def WellPlaced : List TokenKind → Prop
  | [] => True
  | k :: ks =>
    (k.delimiter?.isSome → ∀ next ∈ ks.head?, next.closesTag = false) ∧
      (k = .punctuation .tagOpen → ∃ w, ks.head? = some (.keyword w)) ∧ WellPlaced ks

theorem tagWords_cons_of_ne {k : TokenKind} (h : k ≠ .punctuation .tagOpen) (ks : List TokenKind) :
    tagWords (k :: ks) = tagWords ks := by
  rw [tagWords.eq_def]
  split
  · next hnil => cases hnil
  · next hcons => exact absurd (List.cons.inj hcons).1 h
  · next hcons => rw [(List.cons.inj hcons).2]

/-! ## Lexemes -/

theorem unmarked_of_forall {cs : List Char} (p : Char → Bool) (hp : markChars.any p = false)
    (h : ∀ c ∈ cs, p c = true) : Unmarked cs := by
  intro c hc hmark
  exact List.any_eq_false.mp hp c hmark (h c hc)

theorem IsWord.unmarked {cs : List Char} (h : IsWord cs) : Unmarked cs := by
  obtain ⟨c, cs, rfl, hc, hcs⟩ := h
  refine unmarked_of_forall (fun c => Cut.beginsName c || Cut.continuesName c) (by decide) ?_
  refine List.forall_mem_cons.mpr ⟨by simp [hc], fun d hd => ?_⟩
  simp [List.all_eq_true.mp hcs d hd]

/-- A backslash does not change the characters of `markChars` in a string literal. -/
theorem Unescapes.unmarked {quote : Char} {body value : List Char} (h : Unescapes quote body value)
    (hvalue : Unmarked value) : Unmarked body := by
  induction h with
  | nil => exact hvalue
  | plain _ _ _ ih =>
    obtain ⟨hc, hrest⟩ := List.forall_mem_cons.mp hvalue
    exact List.forall_mem_cons.mpr ⟨hc, ih hrest⟩
  | @escaped c body value _ ih =>
    obtain ⟨hescaped, hrest⟩ := List.forall_mem_append.mp hvalue
    have hkept : (markChars.all fun m => m ∈ StringLiteral.escaped m) = true := by decide
    have hc : c ∉ markChars := by
      intro hmark
      exact hescaped c (of_decide_eq_true (List.all_eq_true.mp hkept c hmark)) hmark
    exact List.forall_mem_cons.mpr ⟨by decide, List.forall_mem_cons.mpr ⟨hc, ih hrest⟩⟩

theorem LexemeAt.unmarked {lexeme after : List Char} {l : Lexeme} (h : LexemeAt lexeme after l)
    (hgenuine : l.Genuine) (hspelled : l.Spelled) (hlegal : l.kind ≠ .illegal)
    (hstring : l.kind = .string → Unmarked l.literal.toList)
    (hdelimiter : l.kind.delimiter? = none) : Unmarked lexeme := by
  obtain ⟨kind, literal⟩ := l
  cases kind with
  | keyword k =>
    have hliteral : literal = k.spelling := hspelled
    rw [← h.verbatim nofun, hliteral]
    exact (isWord_spelling k).unmarked
  | operator o =>
    have hliteral : literal = o.spelling := hspelled
    rw [← h.verbatim nofun, hliteral]
    cases o <;> decide
  | punctuation p =>
    have hliteral : literal = p.spelling := hspelled
    rw [← h.verbatim nofun, hliteral]
    cases p with
    | parenOpen | parenClose => decide
    | _ => cases hdelimiter
  | ident =>
    have hname : IsName literal := hgenuine.1
    rw [← h.verbatim nofun]
    exact hname.1.unmarked
  | int =>
    rw [← h.verbatim nofun]
    exact unmarked_of_forall Char.isDigit (by decide) hgenuine.1
  | string =>
    obtain ⟨quote, hquote, body, hlexeme, hbody⟩ := h.string rfl
    have hnot : Unmarked quotes := by decide
    rw [hlexeme]
    refine List.forall_mem_cons.mpr ⟨hnot quote hquote, List.forall_mem_append.mpr ⟨?_, ?_⟩⟩
    · exact hbody.unmarked (hstring rfl)
    · exact List.forall_mem_singleton.mpr (hnot quote hquote)
  | illegal => exact absurd rfl hlegal
  | eof => exact absurd rfl hgenuine.2

/-! ## Plain texts -/

/-- A text without comments and illegal characters, and without the characters of delimiters in its
string literals. -/
structure PlainText (text : List Char) : Prop where
  uncommented : ∀ p ∈ pieces text, p.content ≠ .comment
  legal : ∀ l ∈ lexemes text, l.kind ≠ .illegal
  strings : ∀ l ∈ lexemes text, l.kind = .string → Unmarked l.literal.toList

theorem map_content_piecesFrom (pos pos' : Position) (text : List Char) :
    (piecesFrom [] pos text).map Piece.content = (piecesFrom [] pos' text).map Piece.content := by
  induction text using cut_induction generalizing pos pos' with
  | nil => rw [piecesFrom, piecesFrom]
  | cons c cs ih =>
    rw [piecesFrom_cons, piecesFrom_cons, List.map_cons, List.map_cons, ih (pos.after _)]

namespace PlainText

variable {c : Char} {cs text : List Char}

theorem content_ne_comment (h : PlainText (c :: cs)) : (cut c cs).content ≠ .comment := by
  have hall := h.uncommented
  rw [pieces, piecesFrom_cons] at hall
  exact hall _ List.mem_cons_self

theorem rest (h : PlainText (c :: cs)) : PlainText (cut c cs).rest := by
  have hlexemes : ∀ l ∈ lexemes (cut c cs).rest, l ∈ lexemes (c :: cs) := by
    intro l hl
    rw [lexemes_cons]
    exact List.mem_append_right _ hl
  refine ⟨?_, fun l hl => h.legal l (hlexemes l hl), fun l hl => h.strings l (hlexemes l hl)⟩
  have hall := h.uncommented
  rw [pieces, piecesFrom_cons] at hall
  have hcontents := map_content_piecesFrom (Position.first.after (cut c cs).text) .first
    (cut c cs).rest
  intro p hp hcomment
  have hmem : Content.comment ∈ (piecesFrom [] .first (cut c cs).rest).map Piece.content :=
    List.mem_map.mpr ⟨p, hp, hcomment⟩
  rw [← hcontents] at hmem
  obtain ⟨q, hq, hq'⟩ := List.mem_map.mp hmem
  exact hall q (List.mem_cons_of_mem _ hq) hq'

/-- The first piece of a `PlainText` is a blank, or a lexeme that is a delimiter or `Unmarked`. -/
theorem cut_cases (h : PlainText (c :: cs)) :
    (isBlank c = true ∧ cut c cs = ⟨.blank, c :: cs.takeWhile isBlank, cs.dropWhile isBlank⟩ ∧
        lexemes (c :: cs) = lexemes (cut c cs).rest) ∨
      ∃ l, lexemes (c :: cs) = l :: lexemes (cut c cs).rest ∧
        (cut c cs).content = .token l.kind l.literal ∧
        ((∃ p : Punctuation, l.kind = .punctuation p ∧ p.IsDelimiter ∧
            (cut c cs).text = p.spelling.toList) ∨
          l.kind.delimiter? = none ∧ Unmarked (cut c cs).text) := by
  cases hlexeme : (cut c cs).content.lexeme? with
  | none =>
    rcases cut_of_lexeme?_eq_none hlexeme with ⟨hblank, hcut⟩ | ⟨ds, rfl, rfl, hcut⟩
    · refine Or.inl ⟨hblank, hcut, ?_⟩
      rw [lexemes_cons, hlexeme]
      rfl
    · exact absurd (by rw [hcut, Cut.content_commentFrom]) h.content_ne_comment
  | some l =>
    have hlexemes : lexemes (c :: cs) = l :: lexemes (cut c cs).rest := by
      rw [lexemes_cons, hlexeme]
      rfl
    have hmem : l ∈ lexemes (c :: cs) := hlexemes ▸ List.mem_cons_self
    have hat := lexemeAt_cut c cs l hlexeme
    have hspelled := spelled_cut c cs l hlexeme
    have hcontent : (cut c cs).content = .token l.kind l.literal := by
      cases hc : (cut c cs).content with
      | token kind literal =>
        rw [hc] at hlexeme
        cases hlexeme
        rfl
      | _ => rw [hc] at hlexeme; cases hlexeme
    refine Or.inr ⟨l, hlexemes, hcontent, ?_⟩
    cases hdelimiter : l.kind.delimiter? with
    | none =>
      have hgenuine := genuine_cut c cs l hlexeme
      exact Or.inr ⟨rfl, hat.unmarked hgenuine hspelled (h.legal l hmem) (h.strings l hmem)
        hdelimiter⟩
    | some p =>
      obtain ⟨hkind, hp⟩ := TokenKind.delimiter?_eq_some_iff.mp hdelimiter
      obtain ⟨kind, literal⟩ := l
      subst hkind
      have hliteral : literal = p.spelling := hspelled
      exact Or.inl ⟨p, rfl, hp, by rw [← hliteral]; exact (hat.verbatim nofun).symm⟩

/-- In front of a token that is no closing delimiter, no delimiter goes on. -/
theorem not_mem_of_head (h : PlainText text)
    (hhead : ∀ l ∈ (lexemes text).head?, l.kind.closesTag = false) :
    ∀ c ∈ text.head?, c ∉ ['}', '%', '#'] := by
  intro c hc
  obtain ⟨cs, rfl⟩ := List.head?_eq_some_iff.mp hc
  have hfirst := head?_text_cut c cs
  rcases h.cut_cases with ⟨hblank, -⟩ | ⟨l, hlexemes, -, ⟨p, hkind, hp, htext⟩ | ⟨-, hunmarked⟩⟩
  · have hnot : ['}', '%', '#'].any isBlank = false := by decide
    exact fun hmem => List.any_eq_false.mp hnot c hmem hblank
  · have hopens := hhead l (by rw [hlexemes]; rfl)
    rw [hkind] at hopens
    rw [htext] at hfirst
    cases p with
    | outputOpen | tagOpen => cases hfirst; decide
    | outputClose | tagClose => cases hopens
    | parenOpen | parenClose => exact absurd rfl hp
  · have hmem : c ∈ (cut c cs).text := List.mem_of_mem_head? hfirst
    intro hc'
    refine hunmarked c hmem ?_
    simp only [List.mem_cons, List.not_mem_nil, or_false] at hc'
    rcases hc' with rfl | rfl | rfl <;> decide

/-- `tagName?` finds the reserved word behind `{%`. -/
theorem tagName?_of_head {w : Keyword} {ls : List Lexeme} {l : Lexeme} (h : PlainText text)
    (hlexemes : lexemes text = l :: ls) (hl : l.kind = .keyword w) :
    tagName? ('{' :: '%' :: text) = some w.spelling := by
  induction text using cut_induction with
  | nil =>
    rw [lexemes_nil] at hlexemes
    cases hlexemes
  | cons c cs ih =>
    rcases h.cut_cases with ⟨hblank, hcut, hsame⟩ | ⟨l', hcons, hcontent, -⟩
    · rw [← ih h.rest (hsame ▸ hlexemes), hcut]
      refine tagName?_congr ?_
      rw [List.dropWhile_cons_of_pos hblank, List.dropWhile_idempotent]
    · obtain ⟨rfl, -⟩ := List.cons.inj (hcons.symm.trans hlexemes)
      have hlexeme : (cut c cs).content.lexeme? = some l' := by rw [hcontent]; rfl
      have hspelling : l'.literal = w.spelling := by
        have hspelled := spelled_cut c cs l' hlexeme
        obtain ⟨kind, literal⟩ := l'
        subst hl
        exact hspelled
      have htext : (cut c cs).text = w.spelling.toList := by
        rw [← hspelling]
        exact ((lexemeAt_cut c cs l' hlexeme).verbatim (by rw [hl]; nofun)).symm
      obtain ⟨d, ds, hword, hd, hds⟩ := isWord_spelling w
      have hc : Cut.beginsName c = true := by
        have hfirst := head?_text_cut c cs
        rw [htext, hword] at hfirst
        cases hfirst
        exact hd
      have hblank : isBlank c = false := not_isBlank_of_beginsName hc
      have hcut : (cut c cs).text = c :: cs.takeWhile Cut.continuesName := by
        simp [cut, hblank, hc]
      rw [tagName?_of_beginsName hc, ← hcut, htext, String.ofList_toList]

end PlainText

/-- A `PlainText` with `WellPlaced` tokens has the delimiters and the tag names of its tokens. -/
theorem delimited_of_wellPlaced {text : List Char} (h : PlainText text)
    (hplaced : WellPlaced ((lexemes text).map Lexeme.kind)) :
    Delimited text (((lexemes text).map Lexeme.kind).filterMap TokenKind.delimiter?)
      ((tagWords ((lexemes text).map Lexeme.kind)).map Keyword.spelling) := by
  induction text using cut_induction with
  | nil =>
    rw [lexemes_nil]
    exact .nil
  | cons c cs ih =>
    have htext : c :: cs = (cut c cs).text ++ (cut c cs).rest := (append_cut c cs).symm
    rcases h.cut_cases with ⟨hblank, hcut, hsame⟩ | ⟨l, hcons, -, hcase⟩
    · have hunmarked : Unmarked (cut c cs).text := by
        rw [hcut]
        refine unmarked_of_forall isBlank (by decide) (List.forall_mem_cons.mpr ⟨hblank, ?_⟩)
        exact List.all_eq_true.mp List.all_takeWhile
      rw [hsame] at hplaced ⊢
      rw [htext]
      exact .stretch hunmarked (ih h.rest hplaced)
    · rw [hcons, List.map_cons] at hplaced ⊢
      obtain ⟨hclose, hword, hrest⟩ := hplaced
      have hinner := ih h.rest hrest
      rw [htext]
      rcases hcase with ⟨p, hkind, hp, hspelling⟩ | ⟨hdelimiter, hunmarked⟩
      -- The token behind a delimiter closes nothing, so the delimiter runs into no other.
      · have hnext : ∀ d ∈ (cut c cs).rest.head?, d ∉ ['}', '%', '#'] := by
          refine h.rest.not_mem_of_head fun m hm => ?_
          refine hclose ?_ m.kind ?_
          · rw [TokenKind.delimiter?_eq_some_iff.mpr ⟨hkind, hp⟩]
            rfl
          · rw [List.head?_map, Option.mem_def.mp hm]
            rfl
        rw [List.filterMap_cons, TokenKind.delimiter?_eq_some_iff.mpr ⟨hkind, hp⟩, hspelling]
        by_cases htag : p = .tagOpen
        · subst htag
          obtain ⟨w, hw⟩ := hword hkind
          rw [List.head?_map, Option.map_eq_some_iff] at hw
          obtain ⟨m, hm, hmkind⟩ := hw
          obtain ⟨ms, hms⟩ := List.head?_eq_some_iff.mp hm
          have hname := h.rest.tagName?_of_head hms hmkind
          rw [hms, List.map_cons, hmkind] at hinner ⊢
          have hskip : tagWords (.keyword w :: ms.map Lexeme.kind) =
              tagWords (ms.map Lexeme.kind) := rfl
          rw [hskip] at hinner
          rw [hkind]
          exact .tag hname hnext hinner
        · rw [tagWords_cons_of_ne (by rw [hkind]; simpa using htag)]
          exact .mark hp htag hnext hinner
      · have htag : l.kind ≠ .punctuation .tagOpen := by
          intro hkind
          rw [hkind] at hdelimiter
          cases hdelimiter
        rw [List.filterMap_cons, hdelimiter, tagWords_cons_of_ne htag]
        exact .stretch hunmarked hinner

end Templates
