import Templates.Proofs.TokenTiling

/-!
# Tokens can be spelled and read again

`respell` writes every token but the end token and puts one space between each two: a string as the
literal that `StringLiteral.quote` writes for its value, any other token as it is. The text has the
same tokens again (`lexemes_respell`). For each token, a space behind it, or the end of the text,
neither joins it to the next one nor splits it (`lexemes_spelling`); an illegal token that goes to
the end of its text stays the last one.
-/

namespace Templates

namespace Lexeme

/-- A token as it is written: a string between double quotes, else its literal. -/
def spelling (l : Lexeme) : String :=
  if l.kind = .string then StringLiteral.quote l.literal else l.literal

theorem spelling_of_ne {l : Lexeme} (h : l.kind ≠ .string) : l.spelling = l.literal := if_neg h

end Lexeme

/-- The tokens written one behind the other, with a space between each two. -/
def spaced (ls : List Lexeme) : String := " ".intercalate (ls.map Lexeme.spelling)

/-- The tokens in front of the end of a template, written with a space between each two. -/
def respell (ts : List Token) : String :=
  spaced ((ts.filter (·.kind ≠ .eof)).map Token.lexeme)

/-- The text is empty or begins with a space. -/
def SetOff (text : List Char) : Prop := ∀ c ∈ text.head?, c = ' '

theorem SetOff.endsWord {text : List Char} (h : SetOff text) : EndsWord text := by
  intro c hc
  rw [h c hc]
  decide

/-- The text behind a token of a spaced text. -/
def gapBefore (ls : List Lexeme) : List Char :=
  match ls with
  | [] => []
  | ls => ' ' :: (spaced ls).toList

theorem setOff_gapBefore (ls : List Lexeme) : SetOff (gapBefore ls) := by
  intro c hc
  cases ls with
  | nil => cases hc
  | cons l ls =>
    cases hc
    rfl

theorem toList_spaced_cons (l : Lexeme) (ls : List Lexeme) :
    (spaced (l :: ls)).toList = l.spelling.toList ++ gapBefore ls := by
  cases ls with
  | nil => simp [spaced, gapBefore]
  | cons m ls => simp [spaced, gapBefore, String.intercalate_cons_cons]

theorem lexemes_gapBefore (ls : List Lexeme) :
    lexemes (gapBefore ls) = lexemes (spaced ls).toList := by
  cases ls with
  | nil => rfl
  | cons l ls => exact lexemes_space _

/-! ## Single tokens -/

theorem lexemes_operator_setOff (o : Operator) {rest : List Char} (h : SetOff rest) :
    lexemes (o.spelling.toList ++ rest) = .fixed (.operator o) :: lexemes rest := by
  cases rest with
  | nil => cases o <;> exact lexemes_of_cut _ rfl
  | cons c rest =>
    rw [h c rfl, lexemes_operator, lexemes_space]

/-- A character that begins no piece still begins none in front of a space. -/
theorem lexemes_illegal {c : Char} {cs rest : List Char} (hc : BeginsNothing c cs)
    (h : SetOff rest) : lexemes (c :: rest) = ⟨.illegal, String.ofList [c]⟩ :: lexemes rest := by
  have hshort : Cut.sign? [c] = none := by
    cases hsign : Cut.sign? [c] with
    | none => rfl
    | some kind =>
      rcases kind_of_sign? hsign with ⟨o, -, ho⟩ | ⟨p, -, hp⟩
      · exact absurd (ho ▸ List.prefix_append [c] cs) (hc.not_operator o)
      · exact absurd (hp ▸ List.prefix_append [c] cs) (hc.not_punctuation p)
  have hlong : ∀ d ∈ rest.head?, Cut.sign? [c, d] = none := by
    intro d hd
    rw [h d hd]
    refine sign?_pair_eq_none (fun o ho => ?_) fun p hp => ?_
    · cases o <;> simp [Operator.spelling] at ho
    · cases p <;> simp [Punctuation.spelling] at hp
  have hcut : cut c rest = Cut.sign c rest := by
    have hquotes : c ≠ '"' ∧ c ≠ '\'' := by simpa [quotes] using hc.not_quote
    have hbrace : c = '{' → Cut.brace rest = Cut.sign '{' rest := by
      intro _
      refine Cut.brace_eq rest ?_
      rintro ⟨ds, rfl⟩
      exact absurd (h '#' rfl) (by decide)
    by_cases hc' : c = '{'
    · subst hc'
      exact hbrace rfl
    · simp [cut, hc.not_blank, hc.not_name, hc.not_digit, hquotes, hc']
  have hsign : Cut.sign c rest = Cut.shortSign c rest := by
    cases rest with
    | nil => rfl
    | cons d rest => simp only [Cut.sign, hlong d rfl]
  refine lexemes_of_cut [c] ?_
  rw [hcut, hsign, Cut.shortSign, hshort]
  rfl

/-- A token that was cut off a text is read again from its spelling. One that is cut off at the end
of the text has to stay at the end. -/
theorem lexemes_spelling {c : Char} {cs rest : List Char} {l : Lexeme}
    (hl : (cut c cs).content.lexeme? = some l) (hset : SetOff rest)
    (hlast : (cut c cs).rest = [] → rest = []) :
    lexemes (l.spelling.toList ++ rest) = l :: lexemes rest := by
  have hlexeme : LexemeAt (cut c cs).text (cut c cs).rest l := lexemeAt_cut c cs l hl
  obtain ⟨hfits, heof⟩ : l.Genuine := genuine_cut c cs l hl
  have hspelled : l.Spelled := spelled_cut c cs l hl
  by_cases hstring : l.kind = .string
  · rw [Lexeme.spelling, if_pos hstring, lexemes_quote, ← hstring]
  have hliteral : l.literal.toList = (cut c cs).text := hlexeme.verbatim hstring
  rw [Lexeme.spelling_of_ne hstring]
  obtain ⟨kind, literal⟩ := l
  cases kind with
  | string => exact absurd rfl hstring
  | eof => exact absurd rfl heof
  | keyword k =>
    obtain rfl : literal = k.spelling := hspelled
    exact lexemes_keyword k hset.endsWord
  | operator o =>
    obtain rfl : literal = o.spelling := hspelled
    exact lexemes_operator_setOff o hset
  | punctuation p =>
    obtain rfl : literal = p.spelling := hspelled
    exact lexemes_punctuation p rest
  | ident =>
    obtain ⟨hword, hfree⟩ : IsName literal := hfits
    have hkind : Cut.wordKind literal = .ident := by rw [Cut.wordKind, hfree]
    rw [lexemes_word hword hset.endsWord, hkind]
  | int =>
    have hne : literal.toList ≠ [] := by
      rw [hliteral]
      exact text_cut_ne_nil c cs
    exact lexemes_digits hne hfits hset.endsWord
  | illegal =>
    rcases hlexeme.illegal rfl with ⟨d, htext, hnothing⟩ | ⟨hend, -⟩
    · have hd : literal = String.ofList [d] := by
        rw [← htext, ← hliteral, String.ofList_toList]
      rw [hliteral, htext, hd]
      exact lexemes_illegal hnothing hset
    -- Nothing was left behind the token, so its spelling is all of the text that it was cut off.
    · have hall : literal.toList = c :: cs := by
        have happend := append_cut c cs
        rwa [hend, List.append_nil, ← hliteral] at happend
      rw [hlast hend, List.append_nil, hall, lexemes_cons, hl, hend]
      rfl

/-! ## Rows of tokens -/

theorem lexemes_spaced (text : List Char) :
    lexemes (spaced (lexemes text)).toList = lexemes text := by
  induction text using cut_induction with
  | nil => simp [spaced]
  | cons c cs ih =>
    rw [lexemes_cons]
    cases hl : (cut c cs).content.lexeme? with
    | none => exact ih
    | some l =>
      have hlast : (cut c cs).rest = [] → gapBefore (lexemes (cut c cs).rest) = [] := by
        intro hend
        rw [hend, lexemes_nil]
        rfl
      show lexemes (spaced (l :: lexemes (cut c cs).rest)).toList = l :: lexemes (cut c cs).rest
      rw [toList_spaced_cons, lexemes_spelling hl (setOff_gapBefore _) hlast, lexemes_gapBefore, ih]

theorem respell_tokenize (source : String) :
    respell (tokenize source) = spaced (lexemes source.toList) := by
  obtain ⟨ts, e, htokens, he, hts, hlexemes⟩ := exists_tokenize_eq_concat source
  have hfilter : (tokenize source).filter (·.kind ≠ .eof) = ts := by
    rw [htokens, List.filter_append, List.filter_eq_self.mpr (by simpa using hts)]
    simp [he]
  rw [respell, hfilter, hlexemes]

/-- `respell` of the tokens of a text has the `lexemes` of the text. `StringLiteral.quote` writes
one token in front of any text: a string with the given value, and the text behind it is cut as if
it stood alone. -/
theorem lexemes_respell (source : String) :
    (tokenize (respell (tokenize source))).map Token.lexeme =
        (tokenize source).map Token.lexeme ∧
      ∀ (value : String) (rest : List Char), ∃ cs,
        (StringLiteral.quote value).toList ++ rest = '"' :: cs ∧
          cut '"' cs = ⟨.token .string value, (StringLiteral.quote value).toList, rest⟩ := by
  refine ⟨?_, fun value rest => ?_⟩
  · rw [map_lexeme_tokenize, map_lexeme_tokenize, respell_tokenize, lexemes_spaced]
  · have hquote : (StringLiteral.quote value).toList =
        '"' :: (value.toList.flatMap StringLiteral.escape ++ ['"']) := String.toList_ofList
    refine ⟨value.toList.flatMap StringLiteral.escape ++ '"' :: rest, by simp [hquote], ?_⟩
    show Cut.string '"' _ = _
    rw [Cut.string, StringLiteral.scan_flatMap_escape, hquote]
    simp

/-- A brace, a sign that begins nothing and a string without its end stay what they are. -/
example : respell (tokenize "a=='\"\t'\x7b@#b 1.'c d") =
    "a == \"\\\"\\t\" \x7b @ # b 1 . 'c d" := by
  decide +kernel

end Templates
