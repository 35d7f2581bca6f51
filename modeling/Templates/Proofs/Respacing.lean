import Templates.Proofs.PositionErasure
import Templates.Proofs.StructureChecks

/-!
# White space and comments mean nothing

`Respaced text text'` says that `text'` is `text` with fillers, white space and closed comments, put
in at places that are inside no token and no comment. A filler separates two tokens but never joins
or splits a token (`cut_append`), so the two texts have the same tokens up to positions
(`Respaced.lexemes_eq`). As `parse` does not look at positions (`parse_erase_congr`), they denote
the same template up to positions and have the same canonical form (`parseSource_respaced`).
-/

namespace Templates

/-! ## Fillers -/

/-- Text that separates tokens and means nothing: white space, or a comment with its end. -/
inductive IsFiller : List Char → Prop
  | blanks {cs : List Char} (h : ∀ c ∈ cs, isBlank c = true) : IsFiller cs
  | comment {body : List Char} (h : NoCommentEnd (body ++ ['#'])) :
    IsFiller ('{' :: '#' :: (body ++ ['#', '}']))

theorem commentFrom_cons (text : List Char) {c : Char} {cs : List Char}
    (h : c = '#' → cs.head? ≠ some '}') :
    Cut.commentFrom text (c :: cs) = Cut.commentFrom (c :: text) cs := by
  have hnext : ∀ ds, c = '#' → cs = '}' :: ds → False := by
    rintro ds hc rfl
    exact h hc rfl
  rw [Cut.commentFrom.eq_def]
  split
  · contradiction
  · next hcons =>
    cases hcons
    split
    · next hc =>
      split
      · exact (hnext _ hc rfl).elim
      · rfl
    · rfl

/-- A comment ends with the first of its end delimiters, whatever follows. -/
theorem commentFrom_append (text : List Char) {body : List Char}
    (h : NoCommentEnd (body ++ ['#'])) (rest : List Char) :
    Cut.commentFrom text (body ++ '#' :: '}' :: rest) =
      ⟨.comment, text.reverse ++ (body ++ ['#', '}']), rest⟩ := by
  induction body generalizing text with
  | nil => simp [Cut.commentFrom]
  | cons c body ih =>
    rw [List.cons_append, noCommentEnd_cons] at h
    obtain ⟨hsign, hbody⟩ := h
    have hhead : (body ++ '#' :: '}' :: rest).head? = (body ++ ['#']).head? := by
      cases body <;> rfl
    rw [List.cons_append, commentFrom_cons text fun hc => hhead ▸ hsign hc, ih _ hbody]
    simp

/-- A filler has no tokens. -/
theorem lexemes_filler {filler : List Char} (h : IsFiller filler) (rest : List Char) :
    lexemes (filler ++ rest) = lexemes rest := by
  cases h with
  | blanks h =>
    induction filler with
    | nil => rfl
    | cons c cs ih =>
      obtain ⟨hc, hcs⟩ := List.forall_mem_cons.mp h
      rw [List.cons_append, lexemes_cons_of_isBlank hc, ih hcs]
  | @comment body h =>
    have hcut : cut '{' ('#' :: (body ++ ['#', '}']) ++ rest) =
        Cut.commentFrom ['#', '{'] (body ++ '#' :: '}' :: rest) := by
      rw [List.cons_append, List.append_assoc]
      rfl
    rw [List.cons_append, lexemes_cons, hcut, commentFrom_append _ h]
    rfl

/-- A filler that is not empty begins with a blank or with the brace of a comment. -/
theorem IsFiller.head {filler : List Char} (h : IsFiller filler) :
    ∀ c ∈ filler.head?, isBlank c = true ∨ c = '{' := by
  intro c hc
  cases h with
  | blanks h => exact Or.inl (h c (List.mem_of_mem_head? hc))
  | comment => exact Or.inr (by simpa using hc.symm)

/-! ## Respacing -/

/-- `Respaced text text'`: `text'` is `text` with fillers put in at places that are inside no token
and no comment. A comment without its end takes all of the text, so nothing can be put behind it. -/
inductive Respaced : List Char → List Char → Prop
  /-- The rest stays as it is. -/
  | same (text : List Char) : Respaced text text
  /-- A filler is put in. -/
  | insert {filler text text' : List Char} (hfiller : IsFiller filler) (h : Respaced text text') :
    Respaced text (filler ++ text')
  /-- White space or a closed comment of the text is kept. -/
  | filler {filler text text' : List Char} (hfiller : IsFiller filler) (h : Respaced text text') :
    Respaced (filler ++ text) (filler ++ text')
  /-- A token is kept. -/
  | token {c : Char} {cs text' : List Char} (htoken : (cut c cs).content.lexeme? ≠ none)
    (h : Respaced (cut c cs).rest text') : Respaced (c :: cs) ((cut c cs).text ++ text')

/-- A text goes on as another does, or it goes on with a filler. -/
def GoesOnAs (text text' : List Char) : Prop :=
  text'.head? = text.head? ∨ ∃ c ∈ text'.head?, isBlank c = true ∨ c = '{'

theorem Respaced.goesOnAs {text text' : List Char} (h : Respaced text text') :
    GoesOnAs text text' := by
  induction h with
  | same => exact Or.inl rfl
  | @insert filler text text' hfiller h ih =>
    cases filler with
    | nil => exact ih
    | cons c cs => exact Or.inr ⟨c, rfl, hfiller.head c rfl⟩
  | @filler filler text text' hfiller h ih =>
    cases filler with
    | nil => exact ih
    | cons c cs => exact Or.inl rfl
  | @token c cs text' htoken h ih =>
    refine Or.inl ?_
    rw [List.head?_append_of_ne_nil _ (text_cut_ne_nil c cs), head?_text_cut]
    rfl

/-! ## Tokens keep apart -/

theorem GoesOnAs.head {p : Char → Prop} {text text' : List Char} (h : GoesOnAs text text')
    (hp : ∀ c, isBlank c = true ∨ c = '{' → p c) (htext : ∀ c ∈ text.head?, p c) :
    ∀ c ∈ text'.head?, p c := by
  intro c hc
  rcases h with hsame | ⟨d, hd, hfiller⟩
  · exact htext c (hsame ▸ hc)
  · cases Option.mem_unique hc hd
    exact hp c hfiller

theorem not_continuesName_of_filler {c : Char} (h : isBlank c = true ∨ c = '{') :
    Cut.continuesName c = false := by
  rcases h with hblank | rfl
  · rw [Bool.eq_false_iff]
    intro hcontinues
    have hcase : Cut.beginsName c = true ∨ c.isDigit = true := by
      simp only [Cut.continuesName, Cut.beginsName, Char.isAlphanum, Bool.or_eq_true]
        at hcontinues ⊢
      tauto
    rcases hcase with hname | hdigit
    · simp [not_isBlank_of_beginsName hname] at hblank
    · simp [not_isBlank_of_isDigit hdigit] at hblank
  · decide

theorem not_isDigit_of_filler {c : Char} (h : isBlank c = true ∨ c = '{') : c.isDigit = false :=
  (not_isDigit_of_endsWord (endsWord_cons (not_continuesName_of_filler h) [])) c rfl

/-- A sign of one character makes no longer sign with the beginning of a filler. -/
theorem sign?_pair_of_filler {c d : Char} {kind : TokenKind} (hc : Cut.sign? [c] = some kind)
    (hd : isBlank d = true ∨ d = '{') : Cut.sign? [c, d] = none := by
  have hnot : ∀ e ∈ ['=', '}', '%'], d ≠ e := by
    rintro e he rfl
    have hblank : ['=', '}', '%'].any (fun e => isBlank e || e = '{') = false := by decide
    simpa [hd] using List.any_eq_false.mp hblank d he
  refine sign?_pair_eq_none (fun o ho => ?_) fun p hp => ?_
  · have hsecond : '=' = d := by
      cases o <;> simp [Operator.spelling] at ho <;> exact ho.2
    exact hnot '=' (by simp) hsecond.symm
  · have hsecond : '{' = c ∨ d ∈ ['=', '}', '%'] := by
      cases p <;> simp [Punctuation.spelling] at hp <;> simp [← hp.1, ← hp.2]
    rcases hsecond with rfl | hmem
    · cases hc
    · exact hnot d hmem rfl

theorem scanFrom_of_unescapes {quote : Char} {body value' : List Char}
    (h : Unescapes quote body value') (hquote : quote ≠ '\\') (value text rest : List Char) :
    StringLiteral.scanFrom quote value text (body ++ quote :: rest) =
      .closed (value.reverse ++ value') (text.reverse ++ (body ++ [quote])) rest := by
  induction h generalizing value text with
  | nil =>
    rw [List.nil_append, StringLiteral.scanFrom.eq_def]
    simp
  | plain hc hslash _ ih =>
    rw [List.cons_append, StringLiteral.scanFrom.eq_def]
    simp [hc, hslash, ih]
  | escaped _ ih =>
    rw [List.cons_append, List.cons_append, StringLiteral.scanFrom.eq_def]
    simp [hquote.symm, ih]

namespace Cut

theorem string_append {quote : Char} {cs : List Char} {l : Lexeme} (hquote : quote ∈ quotes)
    (hl : (string quote cs).content.lexeme? = some l) (hlegal : l.kind ≠ .illegal)
    (text' : List Char) : ∃ ts, (string quote cs).text = quote :: ts ∧
      string quote (ts ++ text') = ⟨(string quote cs).content, quote :: ts, text'⟩ := by
  have hslash : quote ≠ '\\' := by
    rintro rfl
    simp [quotes] at hquote
  rcases endsString_scanFrom quote [] [] cs with
    ⟨body, value, rest, rfl, hbody, hscan⟩ | ⟨-, hscan⟩
  · have hcut (rest : List Char) : string quote (body ++ quote :: rest) =
        ⟨.token .string (String.ofList value), quote :: (body ++ [quote]), rest⟩ := by
      rw [string, StringLiteral.scan, scanFrom_of_unescapes hbody hslash]
      rfl
    refine ⟨body ++ [quote], by rw [hcut], ?_⟩
    rw [List.append_assoc, List.singleton_append, hcut, hcut]
  · rw [string, StringLiteral.scan, hscan] at hl
    cases hl
    exact absurd rfl hlegal

theorem sign_eq_shortSign {c : Char} {cs : List Char}
    (h : ∀ d ∈ cs.head?, sign? [c, d] = none) : sign c cs = shortSign c cs := by
  cases cs with
  | nil => rfl
  | cons d ds => simp only [sign, h d rfl]

theorem sign_append {c : Char} {cs text' : List Char} {l : Lexeme}
    (hl : (sign c cs).content.lexeme? = some l) (hlegal : l.kind ≠ .illegal)
    (hnext : GoesOnAs (sign c cs).rest text') :
    ∃ ts, (sign c cs).text = c :: ts ∧ sign? (c :: ts) ≠ none ∧
      sign c (ts ++ text') = ⟨(sign c cs).content, c :: ts, text'⟩ := by
  by_cases hshort : ∀ d ∈ cs.head?, sign? [c, d] = none
  · rw [sign_eq_shortSign hshort] at hl hnext ⊢
    have hkind : sign? [c] ≠ none := by
      intro hnone
      cases hl
      exact hlegal (by rw [hnone]; rfl)
    obtain ⟨kind, hkind⟩ := Option.ne_none_iff_exists'.mp hkind
    have hshort' := hnext.head (fun d hd => sign?_pair_of_filler hkind hd) hshort
    exact ⟨[], rfl, by simp [hkind], sign_eq_shortSign hshort'⟩
  -- A sign of two characters does not look at what follows it.
  · push Not at hshort
    obtain ⟨d, hd, hpair⟩ := hshort
    obtain ⟨ds, rfl⟩ := List.head?_eq_some_iff.mp hd
    obtain ⟨kind, hkind⟩ := Option.ne_none_iff_exists'.mp hpair
    have hsign (ds : List Char) : sign c (d :: ds) = verbatim kind [c, d] ds := by
      simp only [sign, hkind]
    refine ⟨[d], by rw [hsign]; rfl, hpair, ?_⟩
    rw [List.singleton_append, hsign, hsign]
    rfl

end Cut

/-- `cut` takes the same token off a text that goes on with a filler. -/
theorem cut_append {c : Char} {cs text' : List Char} {l : Lexeme}
    (hl : (cut c cs).content.lexeme? = some l) (hlegal : l.kind ≠ .illegal)
    (hnext : GoesOnAs (cut c cs).rest text') :
    ∃ ts, (cut c cs).text = c :: ts ∧
      cut c (ts ++ text') = ⟨(cut c cs).content, c :: ts, text'⟩ := by
  by_cases hblank : isBlank c = true
  · simp [cut, hblank, Content.lexeme?] at hl
  by_cases hname : Cut.beginsName c = true
  · have hcut (cs : List Char) : cut c cs =
        Cut.word (c :: cs.takeWhile Cut.continuesName) (cs.dropWhile Cut.continuesName) := by
      simp [cut, hblank, hname]
    rw [hcut] at hnext ⊢
    have hrest := hnext.head (fun _ => not_continuesName_of_filler) (head?_dropWhile cs)
    obtain ⟨htake, hdrop⟩ := span_append (List.all_eq_true.mp List.all_takeWhile) hrest
    refine ⟨cs.takeWhile Cut.continuesName, rfl, ?_⟩
    rw [hcut, htake, hdrop]
    rfl
  by_cases hdigit : c.isDigit = true
  · have hcut (cs : List Char) : cut c cs =
        Cut.verbatim .int (c :: cs.takeWhile Char.isDigit) (cs.dropWhile Char.isDigit) := by
      simp [cut, hblank, hname, hdigit]
    rw [hcut] at hnext ⊢
    have hrest := hnext.head (fun _ => not_isDigit_of_filler) (head?_dropWhile cs)
    obtain ⟨htake, hdrop⟩ := span_append (List.all_eq_true.mp List.all_takeWhile) hrest
    refine ⟨cs.takeWhile Char.isDigit, rfl, ?_⟩
    rw [hcut, htake, hdrop]
    rfl
  by_cases hquote : c = '"' ∨ c = '\''
  · have hcut (cs : List Char) : cut c cs = Cut.string c cs := by
      simp [cut, hblank, hname, hdigit, hquote]
    rw [hcut] at hl ⊢
    have hmem : c ∈ quotes := by simpa [quotes] using hquote
    obtain ⟨ts, htext, hts⟩ := Cut.string_append hmem hl hlegal text'
    exact ⟨ts, htext, by rw [hcut, hts]⟩
  by_cases hbrace : c = '{'
  · subst hbrace
    have hcut (cs : List Char) : cut '{' cs = Cut.brace cs := rfl
    have hcomment : ¬ ['#'] <+: cs := by
      rintro ⟨ds, rfl⟩
      simp [hcut, Cut.brace, Cut.content_commentFrom, Content.lexeme?] at hl
    rw [hcut, Cut.brace_eq cs hcomment] at hl hnext ⊢
    obtain ⟨ts, htext, hsign, hts⟩ := Cut.sign_append hl hlegal hnext
    refine ⟨ts, htext, ?_⟩
    rw [hcut, Cut.brace_eq, hts]
    -- A brace alone is no sign, so what follows it is the same in both texts.
    cases ts with
    | nil => exact absurd rfl hsign
    | cons d ts =>
      have happend := Cut.append_sign '{' cs
      rw [htext] at happend
      have hd : d ≠ '#' := by
        rintro rfl
        exact hcomment ⟨ts ++ (Cut.sign '{' cs).rest, (List.cons.inj happend).2⟩
      simpa [eq_comm] using hd
  · have hcut (cs : List Char) : cut c cs = Cut.sign c cs := by
      have hquotes := not_or.mp hquote
      simp [cut, hblank, hname, hdigit, hquotes, hbrace]
    rw [hcut] at hl hnext ⊢
    obtain ⟨ts, htext, -, hts⟩ := Cut.sign_append hl hlegal hnext
    exact ⟨ts, htext, by rw [hcut, hts]⟩

/-- `Respaced` texts have the same `lexemes`. -/
theorem Respaced.lexemes_eq {text text' : List Char} (h : Respaced text text')
    (hlegal : ∀ l ∈ lexemes text, l.kind ≠ .illegal) : lexemes text' = lexemes text := by
  induction h with
  | same => rfl
  | insert hfiller _ ih => rw [lexemes_filler hfiller, ih hlegal]
  | filler hfiller _ ih =>
    rw [lexemes_filler hfiller] at hlegal
    rw [lexemes_filler hfiller, lexemes_filler hfiller, ih hlegal]
  | @token c cs text' htoken h ih =>
    obtain ⟨l, hl⟩ := Option.ne_none_iff_exists'.mp htoken
    rw [lexemes_cons, hl] at hlegal ⊢
    obtain ⟨ts, htext, hcut⟩ := cut_append hl (hlegal l (by simp)) h.goesOnAs
    rw [htext, List.cons_append, lexemes_cons, hcut]
    simp only [hl]
    rw [ih fun m hm => hlegal m (List.mem_append_right _ hm)]

/-- Texts with the same `lexemes` are read as the same up to positions. -/
theorem parseSource_erase_congr {source source' : String}
    (h : lexemes source'.toList = lexemes source.toList) :
    (parseSource source').erase = (parseSource source).erase :=
  parse_erase_congr (by rw [map_lexeme_tokenize, map_lexeme_tokenize, h])

/-- If a text reads without an error, so does a text that is `Respaced` from it: it denotes the same
template up to positions and has the same canonical form in every style. -/
theorem parseSource_respaced {source source' : String}
    (h : Respaced source.toList source'.toList) (hclean : (parseSource source).errors = []) :
    (parseSource source').errors = [] ∧
      eraseBody (parseSource source').template = eraseBody (parseSource source).template ∧
      ∀ style, canonical style source' = canonical style source := by
  have hsame := parseSource_erase_congr (h.lexemes_eq fun l hl =>
    (turns_of_parse hclean).legal _ (List.mem_map_of_mem hl))
  have htemplate : eraseBody (parseSource source').template =
      eraseBody (parseSource source).template := congrArg Parsed.template hsame
  have herrors : (parseSource source').errors.map SyntaxError.erase =
      (parseSource source).errors.map SyntaxError.erase := congrArg Parsed.errors hsame
  have hclean' : (parseSource source').errors = [] := by
    rw [hclean, List.map_nil, List.map_eq_nil_iff] at herrors
    exact herrors
  refine ⟨hclean', htemplate, fun style => ?_⟩
  have hsource : parseSource source = ⟨(parseSource source).template, []⟩ := by rw [← hclean]
  have hsource' : parseSource source' = ⟨(parseSource source').template, []⟩ := by rw [← hclean']
  rw [canonical_eq_ok hsource style, canonical_eq_ok hsource' style,
    Template.text_congr style htemplate]

/-- A comment right behind an opening delimiter, which makes three braces and holds a delimiter, a
comment behind a sign, and blanks at both ends; a delimiter in a string literal stays. -/
theorem parseSource_respaced_touchingComments :
    let source := "\x7b\x7b-'\x7d\x7d'\x7d\x7d"
    let source' := "\n\x7b\x7b\x7b# \x7b% #\x7d- \x7b##\x7d'\x7d\x7d'\t\x7d\x7d "
    Respaced source.toList source'.toList ∧ (parseSource source).errors = [] ∧
      (parseSource source').errors = [] ∧
      eraseBody (parseSource source').template = eraseBody (parseSource source).template ∧
      ∀ style, canonical style source' = canonical style source := by
  intro source source'
  have hblank (c : Char) (hc : isBlank c = true) : IsFiller [c] := .blanks (by simpa using hc)
  have hempty : IsFiller ['{', '#', '#', '}'] :=
    @IsFiller.comment [] (noCommentEnd_cons.mpr ⟨by simp, noCommentEnd_nil⟩)
  have hcomment : IsFiller ['{', '#', ' ', '{', '%', ' ', '#', '}'] :=
    @IsFiller.comment [' ', '{', '%', ' '] (by simp [noCommentEnd_cons, noCommentEnd_nil])
  have htext : source.toList = ['{', '{', '-', '\'', '}', '}', '\'', '}', '}'] := by decide
  have htext' : source'.toList = ['\n', '{', '{', '{', '#', ' ', '{', '%', ' ', '#', '}', '-', ' ',
    '{', '#', '#', '}', '\'', '}', '}', '\'', '\t', '}', '}', ' '] := by decide
  have h : Respaced source.toList source'.toList := by
    rw [htext, htext']
    refine .insert (hblank '\n' rfl) ?_
    refine .token (c := '{') (by decide) ?_
    refine .insert hcomment ?_
    refine .token (c := '-') (by decide) ?_
    refine .insert (hblank ' ' rfl) ?_
    refine .insert hempty ?_
    refine .token (c := '\'') (by decide) ?_
    refine .insert (hblank '\t' rfl) ?_
    refine .token (c := '}') (by decide) ?_
    exact .insert (hblank ' ' rfl) (.same [])
  have hclean : (parseSource source).errors = [] := by decide +kernel
  exact ⟨h, hclean, parseSource_respaced h hclean⟩

end Templates
