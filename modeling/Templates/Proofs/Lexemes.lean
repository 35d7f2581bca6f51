import Templates.Expr
import Templates.Proofs.LiteralText
import Templates.Token.Piece

/-!
# Tokens without their places

The tokens of a text do not depend on the place of the text. `lexemes` gives them without their
positions, so the tokens of a long text can be put together from those of its parts.

For each part of a canonical text there is a lemma that takes it off the front of a text: names and
reserved words (`lexemes_word`), numbers (`lexemes_int`), string literals (`lexemes_quote`),
operators with a blank behind them (`lexemes_operator`) and those without (`lexemes_unary`,
`lexemes_dot`), and delimiters (`lexemes_punctuation`). A word or a number ends in front of a text
that `EndsWord`.
-/

namespace Templates

/-- A token without its place. -/
structure Lexeme where
  /-- The kind of the token. -/
  kind : TokenKind
  /-- Its text: the value of a string literal, else the token as written. -/
  literal : String
  deriving DecidableEq, Repr

namespace Lexeme

/-- The lexeme of a kind that has only one spelling. -/
def fixed (kind : TokenKind) : Lexeme := ⟨kind, kind.name⟩

end Lexeme

/-- The token without its place. -/
def Token.lexeme (t : Token) : Lexeme := ⟨t.kind, t.literal⟩

/-- The token that a piece with this content is the text of. -/
def Content.lexeme? : Content → Option Lexeme
  | token kind literal => some ⟨kind, literal⟩
  | _ => none

/-- The tokens of a text without their places. -/
def lexemes (text : List Char) : List Lexeme :=
  (pieces text).filterMap fun p => p.content.lexeme?

/-! ## Cutting from the front -/

/-- The lexemes of a text do not depend on its position. -/
theorem filterMap_lexeme?_piecesFrom (pos pos' : Position) (text : List Char) :
    (piecesFrom [] pos text).filterMap (fun p => p.content.lexeme?) =
      (piecesFrom [] pos' text).filterMap fun p => p.content.lexeme? := by
  induction text using cut_induction generalizing pos pos' with
  | nil => simp [piecesFrom]
  | cons c cs ih =>
    rw [piecesFrom_cons, piecesFrom_cons, List.filterMap_cons, List.filterMap_cons,
      ih (pos.after _) (pos'.after _)]

@[simp] theorem lexemes_nil : lexemes [] = [] := by
  simp [lexemes, pieces, piecesFrom]

theorem lexemes_cons (c : Char) (cs : List Char) :
    lexemes (c :: cs) = (cut c cs).content.lexeme?.toList ++ lexemes (cut c cs).rest := by
  unfold lexemes pieces
  rw [piecesFrom_cons, List.filterMap_cons, filterMap_lexeme?_piecesFrom _ .first]
  cases (cut c cs).content.lexeme? <;> rfl

/-- The tokens of a source text have the lexemes of the text, up to the end token. -/
theorem map_lexeme_tokenize (source : String) :
    (tokenize source).map Token.lexeme = lexemes source.toList ++ [⟨.eof, ""⟩] := by
  rw [tokenize_eq, List.map_append, List.map_filterMap]
  -- The end token is the same on both sides; what remains is one piece at a time.
  congr 1
  unfold lexemes
  congr 1
  funext p
  unfold Piece.token? Content.lexeme?
  split <;> simp [Token.lexeme, *]

theorem exists_tokenize_eq_cons {source : String} {l : Lexeme} {ls : List Lexeme}
    (h : lexemes source.toList = l :: ls) : ∃ t ts, tokenize source = t :: ts ∧ t.lexeme = l := by
  have htokens := map_lexeme_tokenize source
  rw [h] at htokens
  obtain ⟨t, ts, hts, ht, -⟩ := List.map_eq_cons_iff.mp htokens
  exact ⟨t, ts, hts, ht⟩

theorem lexemes_of_cut {c : Char} {cs rest : List Char} {kind : TokenKind} {literal : String}
    (text : List Char) (h : cut c cs = ⟨.token kind literal, text, rest⟩) :
    lexemes (c :: cs) = ⟨kind, literal⟩ :: lexemes rest := by
  rw [lexemes_cons, h]
  rfl

/-! ## Blanks -/

theorem lexemes_dropWhile_isBlank (cs : List Char) :
    lexemes (cs.dropWhile isBlank) = lexemes cs := by
  cases cs with
  | nil => rfl
  | cons c cs =>
    by_cases hc : isBlank c = true
    · rw [List.dropWhile_cons_of_pos hc, lexemes_cons c cs]
      simp [cut, hc, Content.lexeme?]
    · rw [List.dropWhile_cons_of_neg hc]

theorem lexemes_cons_of_isBlank {c : Char} (h : isBlank c = true) (cs : List Char) :
    lexemes (c :: cs) = lexemes cs := by
  rw [← lexemes_dropWhile_isBlank, List.dropWhile_cons_of_pos h, lexemes_dropWhile_isBlank]

@[simp] theorem lexemes_space (cs : List Char) : lexemes (' ' :: cs) = lexemes cs :=
  lexemes_cons_of_isBlank (by decide) cs

@[simp] theorem lexemes_newline (cs : List Char) : lexemes ('\n' :: cs) = lexemes cs :=
  lexemes_cons_of_isBlank (by decide) cs

@[simp] theorem lexemes_replicate_space (n : Nat) (cs : List Char) :
    lexemes (List.replicate n ' ' ++ cs) = lexemes cs := by
  induction n with
  | zero => rfl
  | succ n ih => rw [List.replicate_succ, List.cons_append, lexemes_space, ih]

/-! ## Names, reserved words and numbers -/

theorem forall_head?_cons {p : Char → Prop} {c : Char} (h : p c) (cs : List Char) :
    ∀ d ∈ (c :: cs).head?, p d := by
  intro d hd
  cases hd
  exact h

/-- The text does not go on with a name or a number in front of it. -/
def EndsWord (text : List Char) : Prop := ∀ c ∈ text.head?, Cut.continuesName c = false

theorem endsWord_cons {c : Char} (h : Cut.continuesName c = false) (cs : List Char) :
    EndsWord (c :: cs) := forall_head?_cons h cs

/-- The characters can form a name or a reserved word. -/
def IsWord (text : List Char) : Prop :=
  ∃ c cs, text = c :: cs ∧ Cut.beginsName c = true ∧ cs.all Cut.continuesName = true

theorem isWord_cons {c : Char} {cs : List Char} :
    IsWord (c :: cs) ↔ Cut.beginsName c = true ∧ cs.all Cut.continuesName = true := by
  constructor
  · rintro ⟨d, ds, hcs, hd, hds⟩
    obtain ⟨rfl, rfl⟩ := List.cons.inj hcs
    exact ⟨hd, hds⟩
  · intro h
    exact ⟨c, cs, rfl, h⟩

instance : ∀ text : List Char, Decidable (IsWord text)
  | [] => isFalse fun ⟨_, _, h, _⟩ => List.cons_ne_nil _ _ h.symm
  | _ :: _ => decidable_of_iff _ isWord_cons.symm

theorem continuesName_of_beginsName {c : Char} (h : Cut.beginsName c = true) :
    Cut.continuesName c = true := by
  unfold Cut.beginsName at h
  unfold Cut.continuesName Char.isAlphanum
  grind

theorem IsWord.continuesName {text : List Char} (h : IsWord text) :
    ∀ c ∈ text, Cut.continuesName c = true := by
  obtain ⟨c, cs, rfl, hc, hcs⟩ := h
  exact List.forall_mem_cons.mpr ⟨continuesName_of_beginsName hc, List.all_eq_true.mp hcs⟩

theorem IsWord.not_mem {text : List Char} (h : IsWord text) {c : Char}
    (hc : Cut.continuesName c = false) : c ∉ text := by
  intro hmem
  rw [h.continuesName c hmem] at hc
  cases hc

theorem span_append {p : Char → Bool} {cs rest : List Char} (hcs : ∀ c ∈ cs, p c = true)
    (hrest : ∀ c ∈ rest.head?, p c = false) :
    (cs ++ rest).takeWhile p = cs ∧ (cs ++ rest).dropWhile p = rest := by
  rw [List.takeWhile_append_of_pos hcs, List.dropWhile_append_of_pos hcs]
  cases rest with
  | nil => simp
  | cons d rest => simp [hrest d rfl]

/-- A stretch of characters of one kind ends where another kind begins. -/
theorem stretch_append_inj {p : Char → Bool} {a b r s : List Char} (ha : ∀ c ∈ a, p c = true)
    (hb : ∀ c ∈ b, p c = true) (hr : ∀ c ∈ r.head?, p c = false) (hs : ∀ c ∈ s.head?, p c = false)
    (h : a ++ r = b ++ s) : a = b ∧ r = s := by
  obtain ⟨htakea, hdropa⟩ := span_append ha hr
  obtain ⟨htakeb, hdropb⟩ := span_append hb hs
  rw [h] at htakea hdropa
  exact ⟨htakea.symm.trans htakeb, hdropa.symm.trans hdropb⟩

/-- A letter of the alphabet or an underscore is recognized by its code point. -/
theorem toNat_of_beginsName {c : Char} (h : Cut.beginsName c = true) :
    65 ≤ c.toNat ∧ c.toNat ≤ 90 ∨ 97 ≤ c.toNat ∧ c.toNat ≤ 122 ∨ c.toNat = 95 := by
  rcases Bool.or_eq_true_iff.mp h with halpha | hunderscore
  · rcases Bool.or_eq_true_iff.mp halpha with hupper | hlower
    · have hrange : c.val ≥ 'A'.val ∧ c.val ≤ 'Z'.val := of_decide_eq_true hupper
      simp only [UInt32.le_iff_toNat_le, ge_iff_le] at hrange
      exact Or.inl hrange
    · have hrange := Bool.and_eq_true_iff.mp hlower
      simp only [decide_eq_true_eq, UInt32.le_iff_toNat_le, ge_iff_le] at hrange
      exact Or.inr (Or.inl hrange)
  · have hc : c = '_' := of_decide_eq_true hunderscore
    subst hc
    exact Or.inr (Or.inr rfl)

theorem toNat_of_isDigit {c : Char} (h : c.isDigit = true) : 48 ≤ c.toNat ∧ c.toNat ≤ 57 := by
  simp only [Char.isDigit, Bool.and_eq_true, decide_eq_true_eq, UInt32.le_iff_toNat_le,
    ge_iff_le] at h
  exact h

theorem not_isBlank_of_beginsName {c : Char} (h : Cut.beginsName c = true) :
    isBlank c = false := by
  have := toNat_of_beginsName h
  simp only [isBlank, blankRanges, liesInRanges]
  grind

theorem not_isBlank_of_isDigit {c : Char} (h : c.isDigit = true) : isBlank c = false := by
  have := toNat_of_isDigit h
  simp only [isBlank, blankRanges, liesInRanges]
  grind

theorem not_beginsName_of_isDigit {c : Char} (h : c.isDigit = true) :
    Cut.beginsName c = false := by
  rw [Bool.eq_false_iff]
  intro hbegins
  have := toNat_of_isDigit h
  have := toNat_of_beginsName hbegins
  omega

theorem not_isDigit_of_endsWord {text : List Char} (h : EndsWord text) :
    ∀ c ∈ text.head?, c.isDigit = false := by
  intro c hc
  have hcontinues := h c hc
  simp only [Cut.continuesName, Char.isAlphanum, Bool.or_eq_false_iff] at hcontinues
  exact hcontinues.1.2

/-- A word in front of a text that `EndsWord`. -/
theorem lexemes_word {word : String} (hword : IsWord word.toList) {rest : List Char}
    (hrest : EndsWord rest) :
    lexemes (word.toList ++ rest) = ⟨Cut.wordKind word, word⟩ :: lexemes rest := by
  obtain ⟨c, cs, hcs, hc, hall⟩ := hword
  obtain ⟨htake, hdrop⟩ := span_append (List.all_eq_true.mp hall) hrest
  rw [hcs, List.cons_append]
  refine lexemes_of_cut (c :: cs) ?_
  simp [cut, not_isBlank_of_beginsName hc, hc, htake, hdrop, Cut.word, ← hcs]

theorem lexemes_digits {digits : String} (hne : digits.toList ≠ [])
    (hall : ∀ d ∈ digits.toList, d.isDigit = true) {rest : List Char} (hrest : EndsWord rest) :
    lexemes (digits.toList ++ rest) = ⟨.int, digits⟩ :: lexemes rest := by
  obtain ⟨c, cs, hcs⟩ := List.exists_cons_of_ne_nil hne
  rw [hcs] at hall
  have hc := hall c List.mem_cons_self
  obtain ⟨htake, hdrop⟩ := span_append (fun d hd => hall d (List.mem_cons_of_mem c hd))
    (not_isDigit_of_endsWord hrest)
  rw [hcs, List.cons_append]
  refine lexemes_of_cut (c :: cs) ?_
  simp [cut, not_isBlank_of_isDigit hc, not_beginsName_of_isDigit hc, hc, htake, hdrop,
    Cut.verbatim, ← hcs]

theorem lexemes_int {v : Int64} (hv : 0 ≤ v.toInt) {rest : List Char} (hrest : EndsWord rest) :
    lexemes ((toString v.toInt).toList ++ rest) = ⟨.int, toString v.toInt⟩ :: lexemes rest := by
  refine lexemes_digits ?_ ?_ hrest
  · rw [IntLiteral.toList_toString_toInt hv]
    exact Nat.toDigits_ne_nil
  · rw [IntLiteral.toList_toString_toInt hv]
    exact IntLiteral.isDigit_of_mem_toDigits_ten

/-- A string literal, whatever follows it. -/
theorem lexemes_quote (value : String) (rest : List Char) :
    lexemes ((StringLiteral.quote value).toList ++ rest) = ⟨.string, value⟩ :: lexemes rest := by
  rw [StringLiteral.quote, String.toList_ofList, List.cons_append, List.append_assoc]
  refine lexemes_of_cut ('"' :: (value.toList.flatMap StringLiteral.escape ++ ['"'])) ?_
  have hscan := StringLiteral.scan_flatMap_escape value.toList rest
  have hcut (cs : List Char) : cut '"' cs = Cut.string '"' cs := rfl
  simp [hcut, Cut.string, hscan]

/-! ## Reserved words and signs -/

theorem isWord_spelling (k : Keyword) : IsWord k.spelling.toList := by
  cases k <;> exact ⟨_, _, rfl, by decide, by decide⟩

theorem lexemes_keyword (k : Keyword) {rest : List Char} (hrest : EndsWord rest) :
    lexemes (k.spelling.toList ++ rest) = .fixed (.keyword k) :: lexemes rest := by
  have hkind : Cut.wordKind k.spelling = .keyword k := by cases k <;> decide
  rw [lexemes_word (isWord_spelling k) hrest, hkind]
  rfl

theorem lexemes_operator (o : Operator) (rest : List Char) :
    lexemes (o.spelling.toList ++ ' ' :: rest) = .fixed (.operator o) :: lexemes rest := by
  rw [← lexemes_space rest]
  -- With the blank in sight, no sign can go on, and every case computes.
  cases o <;> exact lexemes_of_cut _ rfl

/-- Two characters are a sign only if they spell one. -/
theorem sign?_pair_eq_none {c d : Char} (ho : ∀ o : Operator, o.spelling.toList ≠ [c, d])
    (hp : ∀ p : Punctuation, p.spelling.toList ≠ [c, d]) : Cut.sign? [c, d] = none := by
  have hoperator : Operator.ofSpelling? (String.ofList [c, d]) = none := by
    refine List.find?_eq_none.mpr fun o _ h => ho o ?_
    rw [eq_of_beq h, String.toList_ofList]
  have hpunctuation : Punctuation.ofSpelling? (String.ofList [c, d]) = none := by
    refine List.find?_eq_none.mpr fun p _ h => hp p ?_
    rw [eq_of_beq h, String.toList_ofList]
  simp only [Cut.sign?, hoperator, hpunctuation, Option.map_none, Option.none_or]

/-- A sign of one character, in front of a text that does not make it a longer sign. -/
theorem lexemes_shortSign {c : Char} {kind : TokenKind} {rest : List Char}
    (hcut : ∀ cs, cut c cs = Cut.sign c cs) (hkind : Cut.sign? [c] = some kind)
    (hrest : ∀ d ∈ rest.head?, Cut.sign? [c, d] = none) :
    lexemes (c :: rest) = ⟨kind, String.ofList [c]⟩ :: lexemes rest := by
  refine lexemes_of_cut [c] ?_
  rw [hcut]
  cases rest with
  | nil => simp [Cut.sign, Cut.shortSign, Cut.verbatim, hkind]
  | cons d ds => simp [Cut.sign, Cut.shortSign, Cut.verbatim, hkind, hrest d rfl]

theorem sign?_pair_of_mem {c : Char} (hc : c ∈ ['-', '.', '(', ')']) (d : Char) :
    Cut.sign? [c, d] = none := by
  refine sign?_pair_eq_none (fun o h => ?_) fun p h => ?_
  · cases o <;> simp [Operator.spelling] at h <;> simp [← h.1] at hc
  · cases p <;> simp [Punctuation.spelling] at h <;> simp [← h.1] at hc

theorem sign?_bang {d : Char} (hd : d ≠ '=') : Cut.sign? ['!', d] = none := by
  refine sign?_pair_eq_none (fun o h => ?_) fun p h => ?_
  · cases o <;> simp_all [Operator.spelling, eq_comm]
  · cases p <;> simp_all [Punctuation.spelling]

theorem lexemes_minus (rest : List Char) :
    lexemes ('-' :: rest) = .fixed (.operator .minus) :: lexemes rest :=
  lexemes_shortSign (fun _ => rfl) rfl fun d _ => sign?_pair_of_mem (by simp) d

theorem lexemes_unary (op : UnaryOp) {rest : List Char} (hrest : rest.head? ≠ some '=') :
    lexemes (op.sign.spelling.toList ++ rest) = .fixed (.operator op.sign) :: lexemes rest := by
  cases op with
  | not =>
    refine lexemes_shortSign (fun _ => rfl) rfl fun d hd => ?_
    exact sign?_bang fun h => hrest (h ▸ hd)
  | neg => exact lexemes_minus rest

theorem lexemes_dot (rest : List Char) :
    lexemes (Operator.dot.spelling.toList ++ rest) = .fixed (.operator .dot) :: lexemes rest :=
  lexemes_shortSign (c := '.') (fun _ => rfl) rfl fun d _ => sign?_pair_of_mem (by simp) d

/-- A delimiter or a parenthesis, whatever follows it. -/
theorem lexemes_punctuation (p : Punctuation) (rest : List Char) :
    lexemes (p.spelling.toList ++ rest) = .fixed (.punctuation p) :: lexemes rest := by
  cases p with
  | parenOpen =>
    exact lexemes_shortSign (c := '(') (fun _ => rfl) rfl fun d _ => sign?_pair_of_mem (by simp) d
  | parenClose =>
    exact lexemes_shortSign (c := ')') (fun _ => rfl) rfl fun d _ => sign?_pair_of_mem (by simp) d
  | _ => exact lexemes_of_cut _ rfl

/-! ## What every text yields -/

/-- The text is a name: a word that is not reserved. -/
def IsName (name : String) : Prop := IsWord name.toList ∧ Keyword.ofSpelling? name = none

instance (name : String) : Decidable (IsName name) := inferInstanceAs (Decidable (_ ∧ _))

/-- The literal fits the kind: that of an identifier is a name, and that of a number consists of
digits. -/
def Lexeme.Fits (l : Lexeme) : Prop :=
  match l.kind with
  | .ident => IsName l.literal
  | .int => ∀ c ∈ l.literal.toList, c.isDigit = true
  | _ => True

/-- The lexeme is one of a piece of text: it fits and is not the end of a template. -/
def Lexeme.Genuine (l : Lexeme) : Prop := l.Fits ∧ l.kind ≠ .eof

namespace Cut

theorem genuine_word {c : Char} {cs rest : List Char} (hc : beginsName c = true)
    (hcs : cs.all continuesName = true) :
    ∀ l ∈ (word (c :: cs) rest).content.lexeme?, l.Genuine := by
  intro l hl
  cases hl
  unfold wordKind
  split
  · exact ⟨trivial, by simp⟩
  · next hfree => exact ⟨⟨⟨c, cs, String.toList_ofList, hc, hcs⟩, hfree⟩, by simp⟩

theorem genuine_of_sign? {text : List Char} {kind : TokenKind} (h : sign? text = some kind)
    (literal : String) : Lexeme.Genuine ⟨kind, literal⟩ := by
  rcases Option.or_eq_some_iff.mp h with ho | ⟨-, hp⟩
  · obtain ⟨o, -, rfl⟩ := Option.map_eq_some_iff.mp ho
    exact ⟨trivial, by simp⟩
  · obtain ⟨p, -, rfl⟩ := Option.map_eq_some_iff.mp hp
    exact ⟨trivial, by simp⟩

theorem genuine_shortSign (c : Char) (cs : List Char) :
    ∀ l ∈ (shortSign c cs).content.lexeme?, l.Genuine := by
  intro l hl
  cases hl
  cases hkind : sign? [c] with
  | none => exact ⟨trivial, by simp⟩
  | some kind => exact genuine_of_sign? hkind _

theorem genuine_sign (c : Char) (cs : List Char) :
    ∀ l ∈ (sign c cs).content.lexeme?, l.Genuine := by
  unfold sign
  split
  · exact genuine_shortSign c []
  · split
    · next kind hkind =>
      intro l hl
      cases hl
      exact genuine_of_sign? hkind _
    · exact genuine_shortSign c _

theorem content_commentFrom (text cs : List Char) : (commentFrom text cs).content = .comment := by
  fun_induction commentFrom text cs with
  | case1 => rfl
  | case2 => rfl
  | case3 _ _ _ ih => exact ih
  | case4 _ _ _ _ ih => exact ih

end Cut

theorem genuine_cut (c : Char) (cs : List Char) :
    ∀ l ∈ (cut c cs).content.lexeme?, l.Genuine := by
  unfold cut
  split
  · simp [Content.lexeme?]
  split
  · next hc => exact Cut.genuine_word hc List.all_takeWhile
  split
  · next hc =>
    intro l hl
    cases hl
    refine ⟨?_, by simp⟩
    show ∀ d ∈ (String.ofList (c :: cs.takeWhile Char.isDigit)).toList, d.isDigit = true
    rw [String.toList_ofList]
    exact List.forall_mem_cons.mpr ⟨hc, List.all_eq_true.mp List.all_takeWhile⟩
  split
  · unfold Cut.string
    split <;> simp [Content.lexeme?, Cut.verbatim, Lexeme.Genuine, Lexeme.Fits]
  split
  · unfold Cut.brace
    split
    · simp [Cut.content_commentFrom, Content.lexeme?]
    · exact Cut.genuine_sign _ _
  · exact Cut.genuine_sign c cs

/-- Every token of a text has a literal that fits its kind. -/
theorem genuine_of_mem_lexemes {text : List Char} : ∀ l ∈ lexemes text, l.Genuine := by
  induction text using cut_induction with
  | nil => simp
  | cons c cs ih =>
    intro l hl
    rw [lexemes_cons] at hl
    rcases List.mem_append.mp hl with hcut | hrest
    · exact genuine_cut c cs l (Option.mem_toList.mp hcut)
    · exact ih l hrest

/-- `tokenize` gives the tokens of `lexemes` and one end token behind them. -/
theorem exists_tokenize_eq_concat (source : String) :
    ∃ ts e, tokenize source = ts ++ [e] ∧ e.kind = .eof ∧ (∀ t ∈ ts, t.kind ≠ .eof) ∧
      ts.map Token.lexeme = lexemes source.toList := by
  obtain ⟨us, vs, htokens, hus, hvs⟩ := List.map_eq_append_iff.mp (map_lexeme_tokenize source)
  obtain ⟨e, rfl, he⟩ := List.map_eq_singleton_iff.mp hvs
  refine ⟨us, e, htokens, congrArg Lexeme.kind he, fun t ht => ?_, hus⟩
  exact (genuine_of_mem_lexemes t.lexeme (hus ▸ List.mem_map_of_mem ht)).2

theorem takeWhile_ne_eof_concat {ts : List Token} {e : Token} (he : e.kind = .eof)
    (hts : ∀ t ∈ ts, t.kind ≠ .eof) : (ts ++ [e]).takeWhile (·.kind ≠ .eof) = ts := by
  rw [List.takeWhile_append_of_pos fun t ht => decide_eq_true (hts t ht),
    List.takeWhile_cons_of_neg (by simp [he]), List.append_nil]

/-- The tokens in front of the end token have the lexemes of the text. -/
theorem map_lexeme_takeWhile_tokenize (source : String) :
    ((tokenize source).takeWhile (·.kind ≠ .eof)).map Token.lexeme = lexemes source.toList := by
  obtain ⟨ts, e, htokens, he, hts, hlexemes⟩ := exists_tokenize_eq_concat source
  rw [htokens, takeWhile_ne_eof_concat he hts, hlexemes]

end Templates
