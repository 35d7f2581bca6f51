import Templates.Proofs.CanonicalText

/-!
# The canonical form says the same

Bringing a text into canonical form changes white space, parentheses, the quotes and escapes of
strings and the spelling of numbers, and nothing else. `senses` is what is left of the tokens
without all that. The tokens of a source text have the senses of the tree that they read as
(`BodyReading.senses_eq`), and so have those of its canonical text, in the same order
(`senses_canonical`).
-/

namespace Templates

/-- The meaning of a token. -/
inductive TokenSense
  /-- A number, however it is spelled. -/
  | number (value : Nat)
  /-- Any other token, as it is. -/
  | other (l : Lexeme)
  deriving DecidableEq

namespace Lexeme

/-- The meaning of a token; a parenthesis has none. -/
def sense? (l : Lexeme) : Option TokenSense :=
  match l.kind with
  | .punctuation .parenOpen | .punctuation .parenClose => none
  | .int => some (.number (Nat.ofDigitChars 10 l.literal.toList 0))
  | _ => some (.other l)

/-- A token of a kind that has only one spelling is spelled that way. -/
def Spelled (l : Lexeme) : Prop :=
  match l.kind with
  | .keyword _ | .operator _ | .punctuation _ => l.literal = l.kind.name
  | _ => True

end Lexeme

/-- The meanings of tokens, in order. -/
def senses (ls : List Lexeme) : List TokenSense := ls.filterMap Lexeme.sense?

@[simp] theorem senses_nil : senses [] = [] := rfl

@[simp] theorem senses_append (ls ms : List Lexeme) : senses (ls ++ ms) = senses ls ++ senses ms :=
  List.filterMap_append

@[simp] theorem senses_cons (l : Lexeme) (ls : List Lexeme) :
    senses (l :: ls) = l.sense?.toList ++ senses ls := by
  rw [senses, List.filterMap_cons]
  cases l.sense? <;> rfl

@[simp] theorem senses_parenLexemes (parens : Bool) (ls : List Lexeme) :
    senses (parenLexemes parens ls) = senses ls := by
  cases parens with
  | false => rfl
  | true => simp [parenLexemes, Lexeme.fixed, Lexeme.sense?]

/-! ## Spellings of the tokens of a text -/

namespace Cut

theorem spelled_word (text rest : List Char) :
    ∀ l ∈ (word text rest).content.lexeme?, l.Spelled := by
  intro l hl
  cases hl
  unfold wordKind
  split
  · next k hk =>
    have hspelling := List.find?_some hk
    exact (eq_of_beq hspelling).symm
  · trivial

theorem spelled_of_sign? {text : List Char} {kind : TokenKind} (h : sign? text = some kind) :
    Lexeme.Spelled ⟨kind, String.ofList text⟩ := by
  rcases Option.or_eq_some_iff.mp h with ho | ⟨-, hp⟩
  · obtain ⟨o, hfind, rfl⟩ := Option.map_eq_some_iff.mp ho
    have hspelling := List.find?_some hfind
    exact (eq_of_beq hspelling).symm
  · obtain ⟨p, hfind, rfl⟩ := Option.map_eq_some_iff.mp hp
    have hspelling := List.find?_some hfind
    exact (eq_of_beq hspelling).symm

theorem spelled_shortSign (c : Char) (cs : List Char) :
    ∀ l ∈ (shortSign c cs).content.lexeme?, l.Spelled := by
  intro l hl
  cases hl
  cases hkind : sign? [c] with
  | none => trivial
  | some kind => exact spelled_of_sign? hkind

theorem spelled_sign (c : Char) (cs : List Char) :
    ∀ l ∈ (sign c cs).content.lexeme?, l.Spelled := by
  unfold sign
  split
  · exact spelled_shortSign c []
  · split
    · next kind hkind =>
      intro l hl
      cases hl
      exact spelled_of_sign? hkind
    · exact spelled_shortSign c _

end Cut

theorem spelled_cut (c : Char) (cs : List Char) : ∀ l ∈ (cut c cs).content.lexeme?, l.Spelled := by
  unfold cut
  split
  · simp [Content.lexeme?]
  split
  · exact Cut.spelled_word _ _
  split
  · simp [Cut.verbatim, Content.lexeme?, Lexeme.Spelled]
  split
  · unfold Cut.string
    split <;> simp [Content.lexeme?, Cut.verbatim, Lexeme.Spelled]
  split
  · unfold Cut.brace
    split
    · simp [Cut.content_commentFrom, Content.lexeme?]
    · exact Cut.spelled_sign _ _
  · exact Cut.spelled_sign c cs

theorem spelled_of_mem_lexemes {text : List Char} : ∀ l ∈ lexemes text, l.Spelled := by
  induction text using cut_induction with
  | nil => simp
  | cons c cs ih =>
    intro l hl
    rw [lexemes_cons] at hl
    rcases List.mem_append.mp hl with hcut | hrest
    · exact spelled_cut c cs l (Option.mem_toList.mp hcut)
    · exact ih l hrest

/-! ## The senses of a tree -/

/-- The tokens can be tokens of a text: their literals fit their kinds. -/
def Exact (ts : List Token) : Prop := ∀ t ∈ ts, t.lexeme.Fits ∧ t.lexeme.Spelled

@[simp] theorem exact_append {ts us : List Token} : Exact (ts ++ us) ↔ Exact ts ∧ Exact us :=
  List.forall_mem_append

@[simp] theorem exact_cons {t : Token} {ts : List Token} :
    Exact (t :: ts) ↔ (t.lexeme.Fits ∧ t.lexeme.Spelled) ∧ Exact ts :=
  List.forall_mem_cons

/-- A token of a kind with one spelling is the token that stands for the kind. -/
theorem Token.lexeme_eq_fixed {t : Token} {kind : TokenKind} (ht : t.lexeme.Spelled)
    (hk : t.kind = kind)
    (hfixed : (∃ k, kind = .keyword k) ∨ (∃ o, kind = .operator o) ∨ ∃ p, kind = .punctuation p) :
    t.lexeme = .fixed kind := by
  obtain ⟨_, literal, pos⟩ := t
  subst hk
  rcases hfixed with ⟨k, rfl⟩ | ⟨o, rfl⟩ | ⟨p, rfl⟩
  · exact congrArg _ ht
  · exact congrArg _ ht
  · exact congrArg _ ht

section Spelled

variable {t : Token}

theorem Token.lexeme_keyword (ht : t.lexeme.Spelled) {k : Keyword} (hk : t.kind = .keyword k) :
    t.lexeme = .fixed (.keyword k) := lexeme_eq_fixed ht hk (Or.inl ⟨k, rfl⟩)

theorem Token.lexeme_operator (ht : t.lexeme.Spelled) {o : Operator} (ho : t.kind = .operator o) :
    t.lexeme = .fixed (.operator o) := lexeme_eq_fixed ht ho (Or.inr (Or.inl ⟨o, rfl⟩))

theorem Token.lexeme_punctuation (ht : t.lexeme.Spelled) {p : Punctuation}
    (hp : t.kind = .punctuation p) : t.lexeme = .fixed (.punctuation p) :=
  lexeme_eq_fixed ht hp (Or.inr (Or.inr ⟨p, rfl⟩))

theorem Token.lexeme_ident (hk : t.kind = .ident) : t.lexeme = ⟨.ident, t.literal⟩ := by
  rw [lexeme, hk]

end Spelled

theorem senses_atom {t : Token} {x : Expr} (ht : t.lexeme.Fits ∧ t.lexeme.Spelled) (hx : Atom t x) :
    t.lexeme.sense?.toList = senses x.lexemes := by
  cases hx with
  | ident hk => simp [Token.lexeme, hk, Expr.lexemes]
  | @int n hk hn =>
    have hdigits : ∀ c ∈ t.literal.toList, c.isDigit = true := by
      simpa [Lexeme.Fits, Token.lexeme, hk] using ht.1
    have hnonneg := IntLiteral.zero_le_of_value?_eq_some hdigits hn
    -- The number is written without leading zeros, and read back as it is.
    have hvalue : Nat.ofDigitChars 10 (toString n.toInt).toList 0 =
        Nat.ofDigitChars 10 t.literal.toList 0 := by
      rw [IntLiteral.toList_toString_toInt hnonneg, Nat.ofDigitChars_ten_toDigits,
        IntLiteral.toInt_of_value?_eq_some hdigits hn]
      rfl
    rw [Expr.lexemes, senses_cons, senses_nil, List.append_nil, Token.lexeme, hk]
    simp only [Lexeme.sense?, hvalue]
  | str hk => simp [Token.lexeme, hk, Expr.lexemes]
  | true_ hk => simp [Token.lexeme_keyword ht.2 hk, Expr.lexemes]
  | false_ hk => simp [Token.lexeme_keyword ht.2 hk, Expr.lexemes]
  | null hk => simp [Token.lexeme_keyword ht.2 hk, Expr.lexemes]

/-- The tokens of an expression have the senses of `Expr.lexemes`. -/
theorem Layer.Derives.senses_eq {l : Layer} {ts : List Token} {x : Expr} (h : l.Derives ts x)
    (hts : Exact ts) : senses (ts.map Token.lexeme) = senses x.lexemes := by
  induction h with
  | @atom t x hx =>
    have hexact := hts t List.mem_cons_self
    simpa using senses_atom hexact hx
  | @unary t op ts x ht hx ih =>
    obtain ⟨hexact, hrest⟩ := exact_cons.mp hts
    simp [Expr.lexemes, ih hrest, Token.lexeme_operator hexact.2 ht]
  | @paren o c ts x ho hx hc ih =>
    simp only [exact_cons, exact_append] at hts
    obtain ⟨hopen, hinner, hclose, -⟩ := hts
    have ho' := Token.lexeme_punctuation hopen.2 ho
    have hc' := Token.lexeme_punctuation hclose.2 hc
    simp [ih hinner, ho', hc', Lexeme.fixed, Lexeme.sense?]
  | @link k t n ts x hx ht hn ih =>
    simp only [exact_cons, exact_append] at hts
    obtain ⟨hobject, hsign, hname, -⟩ := hts
    have ht' := Token.lexeme_operator hsign.2 ht
    have hn' := Token.lexeme_ident hn
    cases k <;> simp [Link.build, Expr.lexemes, Link.sign, ih hobject, ht', hn']
  | @binary l op t ts us x y hl hx ht hy ihx ihy =>
    simp only [exact_cons, exact_append] at hts
    obtain ⟨hleft, hsign, hright⟩ := hts
    have ht' := Token.lexeme_operator hsign.2 ht
    simp [Expr.lexemes, ihx hleft, ihy hright, ht']
  | single hx ih => exact ih hts

/-! ## Statements -/

theorem TagAt.senses_eq {pos : Position} {word : Keyword} {inner ts : List Token} {ls : List Lexeme}
    (h : TagAt pos word inner ts) (hts : Exact ts)
    (hinner : Exact inner → senses (inner.map Token.lexeme) = senses ls) :
    senses (ts.map Token.lexeme) = senses (tagLexemes word ls) := by
  obtain ⟨ho, -, hw, hc⟩ := h
  simp only [exact_cons, exact_append] at hts
  obtain ⟨hopen, hword, hinner', hclose, -⟩ := hts
  have ho' := Token.lexeme_punctuation hopen.2 ho
  have hw' := Token.lexeme_keyword hword.2 hw
  have hc' := Token.lexeme_punctuation hclose.2 hc
  simp [tagLexemes, hinner hinner', ho', hw', hc']

/-- The name and the word in the head of a tag, in front of its expression. -/
theorem senses_name_cons {n t : Token} {us : List Token} {kind : TokenKind} {x : Expr}
    (hn : n.kind = .ident) (ht : t.lexeme.Spelled → t.lexeme = .fixed kind)
    (hx : Layer.Derives .equality us x) (hts : Exact (n :: t :: us)) :
    senses ((n :: t :: us).map Token.lexeme) =
      senses (⟨.ident, n.name.text⟩ :: .fixed kind :: x.lexemes) := by
  simp only [exact_cons] at hts
  obtain ⟨-, hword, hus⟩ := hts
  simp [Token.lexeme_ident hn, Token.name, ht hword.2, hx.senses_eq hus]

theorem senses_blockName {n : Option Token} (hn : ∀ t ∈ n, t.kind = .ident) :
    senses (n.toList.map Token.lexeme) = senses (nameLexemes (n.map Token.name)) := by
  cases n with
  | none => rfl
  | some n => simp [nameLexemes, Token.name, Token.lexeme_ident (hn n rfl)]

mutual

/-- The tokens of a body have the senses of `bodyLexemes`. -/
theorem BodyReading.senses_eq : ∀ {ts : List Token} {body : List Stmt} (afterBare : Bool),
    BodyReading ts body → Exact ts →
      senses (ts.map Token.lexeme) = senses (bodyLexemes afterBare body)
  | _, _, _, .nil, _ => rfl
  | _, _, afterBare, .cons (s := s) h hs _, hts => by
    obtain ⟨hstmt, hrest⟩ := exact_append.mp hts
    rw [List.map_append, senses_append, h.senses_eq afterBare hstmt, hs.senses_eq s.isBare hrest,
      bodyLexemes, senses_append]

theorem StmtReading.senses_eq : ∀ {ts : List Token} {s : Stmt} (afterBare : Bool),
    StmtReading ts s → Exact ts → senses (ts.map Token.lexeme) = senses (s.lexemes afterBare)
  | _, _, _, .bare hx, hts => by
    rw [hx.senses_eq hts, Stmt.lexemes, senses_parenLexemes]
  | _, _, _, .output ho hx hc, hts => by
    simp only [exact_cons, exact_append] at hts
    obtain ⟨hopen, hinner, hclose, -⟩ := hts
    have ho' := Token.lexeme_punctuation hopen.2 ho
    have hc' := Token.lexeme_punctuation hclose.2 hc
    simp [Stmt.lexemes, hx.senses_eq hinner, ho', hc']
  | _, _, _, .set hn ha hx ht, hts =>
    ht.senses_eq hts (senses_name_cons hn (fun h => Token.lexeme_operator h ha) hx)
  | _, _, _, .cond hx ht hb hr, hts => by
    simp only [exact_append] at hts
    obtain ⟨htag, hbody, hrest⟩ := hts
    simp [Stmt.lexemes, ht.senses_eq htag hx.senses_eq, hb.senses_eq false hbody,
      hr.senses_eq hrest]
  | _, _, _, .loop hn hi hx ht hb hend, hts => by
    simp only [exact_append] at hts
    obtain ⟨htag, hbody, hlast⟩ := hts
    have hhead := ht.senses_eq htag
      (senses_name_cons hn (fun h => Token.lexeme_keyword h hi) hx)
    simp [Stmt.lexemes, hhead, hb.senses_eq false hbody, hend.senses_eq hlast fun _ => rfl]
  | _, _, _, .block hn ht hb hend, hts => by
    simp only [exact_append] at hts
    obtain ⟨htag, hbody, hlast⟩ := hts
    simp [Stmt.lexemes, ht.senses_eq htag fun _ => senses_blockName hn,
      hb.senses_eq false hbody, hend.senses_eq hlast fun _ => rfl]

theorem BranchesReading.senses_eq : ∀ {ts : List Token} {rest : Branches},
    BranchesReading ts rest → Exact ts → senses (ts.map Token.lexeme) = senses rest.lexemes
  | _, _, .done ht, hts => ht.senses_eq hts fun _ => rfl
  | _, _, .otherwise ht hb hend, hts => by
    simp only [exact_append] at hts
    obtain ⟨htag, hbody, hlast⟩ := hts
    simp [Branches.lexemes, ht.senses_eq htag fun _ => rfl, hb.senses_eq false hbody,
      hend.senses_eq hlast fun _ => rfl]
  | _, _, .elseIf hx ht hb hr, hts => by
    simp only [exact_append] at hts
    obtain ⟨htag, hbody, hrest⟩ := hts
    simp [Branches.lexemes, ht.senses_eq htag hx.senses_eq, hb.senses_eq false hbody,
      hr.senses_eq hrest]

end

/-! ## Source texts -/

/-- A source text without syntax errors has a canonical form in every style, and the tokens of the
two texts have the same `senses`. -/
theorem senses_canonical {source : String} (h : (parseSource source).errors = []) (style : Style) :
    ∃ text, canonical style source = .ok text ∧
      senses ((tokenize text).map Token.lexeme) = senses ((tokenize source).map Token.lexeme) := by
  have hparse : parseSource source = ⟨(parseSource source).template, []⟩ := by rw [← h]
  refine ⟨_, canonical_eq_ok hparse style, ?_⟩
  have hread := bodyReading_of_parse h
  have htokens := map_lexeme_takeWhile_tokenize source
  have hexact : Exact ((tokenize source).takeWhile (·.kind ≠ .eof)) := by
    intro t ht
    have hmem : t.lexeme ∈ lexemes source.toList := htokens ▸ List.mem_map_of_mem ht
    exact ⟨(genuine_of_mem_lexemes _ hmem).1, spelled_of_mem_lexemes _ hmem⟩
  have hsource := hread.senses_eq false hexact
  rw [htokens] at hsource
  rw [map_lexeme_tokenize, map_lexeme_tokenize,
    lexemes_text style (bodySpellable_parseSource source), senses_append, senses_append, hsource]
  rfl

/-- Parentheses that nothing needs, leading zeros, a quote with an escape, a comment and a name that
only differs from a reserved word by its case. -/
theorem senses_canonical_conditional :
    let source := "\x7b%if(a.b)%\x7d\x7b\x7b((-007))\x7d\x7d\x7b# c #\x7d\n 'it\\'s'" ++
      "\x7b%else%\x7d\x7b%block If%\x7d\x7b%endblock%\x7d\x7b%endif%\x7d"
    (parseSource source).errors = [] ∧ ∃ text, canonical {} source = .ok text ∧
      senses ((tokenize text).map Token.lexeme) = senses ((tokenize source).map Token.lexeme) := by
  intro source
  have herrors : (parseSource source).errors = [] := by decide +kernel
  exact ⟨herrors, senses_canonical herrors {}⟩

end Templates
