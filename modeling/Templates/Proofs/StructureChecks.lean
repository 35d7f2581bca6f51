import Templates.Lint
import Templates.Proofs.DelimitedText
import Templates.Proofs.ReaderInvariant

/-!
# The checks on the raw text and the reader

`checkStructure` and `parse` agree on ordinary templates: if a text without comments is read without
an error and its string literals have no characters of delimiters, the checks find no error
(`lintSource_of_parse`).

`Turns pending left ks` says what the tokens `ks` of a construct do to the checks: they are
`WellPlaced` and `Balanced`, and the tags among them turn the list of open constructs `pending` into
`left`. It is closed under appending, so it follows `BodyReading`.
-/

namespace Templates

/-! ## Delimiters and tag names -/

/-- The delimiters occur equally often, pair by pair. -/
def Balanced (ps : List Punctuation) : Prop :=
  ∀ pair ∈ delimiterPairs, (ps.countP fun p => p.spelling.toList = pair.opener.toList) =
    ps.countP fun p => p.spelling.toList = pair.closer.toList

instance (ps : List Punctuation) : Decidable (Balanced ps) :=
  inferInstanceAs (Decidable (∀ pair ∈ delimiterPairs, _))

theorem Balanced.append {ps qs : List Punctuation} (hps : Balanced ps) (hqs : Balanced qs) :
    Balanced (ps ++ qs) := by
  intro pair hpair
  rw [List.countP_append, List.countP_append, hps pair hpair, hqs pair hpair]

section TagFault

variable {pair : Pair} {pending : List Pair} {names : List String}

theorem tagFault?_opener (hpair : pair ∈ tagPairs) :
    tagFault? pending (pair.opener :: names) = tagFault? (pair :: pending) names := by
  have hopens : ∀ pair ∈ tagPairs, pairOpenedBy? pair.opener = some pair := by decide
  simp only [tagFault?, hopens pair hpair]

/-- A closing name opens nothing and closes something. -/
theorem pairClosedBy?_closer : ∀ pair ∈ tagPairs,
    pairOpenedBy? pair.closer = none ∧ (pairClosedBy? pair.closer).isNone = false := by decide

theorem tagFault?_closer (hpair : pair ∈ tagPairs) :
    tagFault? (pair :: pending) (pair.closer :: names) = tagFault? pending names := by
  obtain ⟨hopened, hclosed⟩ := pairClosedBy?_closer pair hpair
  simp only [tagFault?, hopened, hclosed, Bool.false_eq_true, if_false, if_true]

/-- A tag within a construct opens nothing and closes nothing. -/
theorem tagFault?_within {word : Keyword} (hword : word ∈ [.set, .elif, .else_]) :
    tagFault? pending (word.spelling :: names) = tagFault? pending names := by
  have hneither : ∀ word ∈ [Keyword.set, .elif, .else_], pairOpenedBy? word.spelling = none ∧
      (pairClosedBy? word.spelling).isNone = true := by decide
  obtain ⟨hopened, hclosed⟩ := hneither word hword
  simp only [tagFault?, hopened, hclosed, if_true]

end TagFault

/-! ## Tokens without delimiters -/

/-- The token is legal and not a delimiter. -/
def TokenKind.Quiet (k : TokenKind) : Prop := k ≠ .illegal ∧ k.delimiter? = none

instance (k : TokenKind) : Decidable k.Quiet := inferInstanceAs (Decidable (_ ∧ _))

theorem TokenKind.Quiet.closesTag {k : TokenKind} (h : k.Quiet) : k.closesTag = false := by
  obtain ⟨-, hdelimiter⟩ := h
  cases k with
  | punctuation p =>
    cases p with
    | outputClose | tagClose => cases hdelimiter
    | _ => rfl
  | _ => rfl

theorem TokenKind.Quiet.ne_tagOpen {k : TokenKind} (h : k.Quiet) : k ≠ .punctuation .tagOpen := by
  rintro rfl
  cases h.2

theorem quiet_operator (o : Operator) : (TokenKind.operator o).Quiet := ⟨nofun, rfl⟩

theorem quiet_keyword (w : Keyword) : (TokenKind.keyword w).Quiet := ⟨nofun, rfl⟩

theorem quiet_ident : TokenKind.ident.Quiet := ⟨nofun, rfl⟩

/-- An expression holds no delimiters. -/
theorem Layer.Derives.quiet {l : Layer} {ts : List Token} {x : Expr} (h : l.Derives ts x) :
    ∀ t ∈ ts, t.kind.Quiet := by
  induction h with
  | atom h =>
    intro t ht
    rw [List.mem_singleton.mp ht]
    cases h with
    | ident h | int h | str h | true_ h | false_ h | null h => rw [h]; exact ⟨nofun, rfl⟩
  | unary ht _ ih => exact List.forall_mem_cons.mpr ⟨ht ▸ quiet_operator _, ih⟩
  | @paren o c ts x ho _ hc ih =>
    have hopen : o.kind.Quiet := by rw [ho]; decide
    have hclose : c.kind.Quiet := by rw [hc]; decide
    simpa [or_imp, forall_and, hopen, hclose] using ih
  | @link k t n ts x _ ht hn ih =>
    have hsign : t.kind.Quiet := ht ▸ quiet_operator _
    have hname : n.kind.Quiet := hn ▸ quiet_ident
    simpa [or_imp, forall_and, hsign, hname] using ih
  | @binary l op t ts us x y _ _ ht _ ihx ihy =>
    have hsign : t.kind.Quiet := ht ▸ quiet_operator _
    simpa [or_imp, forall_and, hsign] using And.intro ihx ihy
  | single _ ih => exact ih

section Quiet

variable {ks ls : List TokenKind}

theorem wellPlaced_quiet_append (hks : ∀ k ∈ ks, k.Quiet) (hls : WellPlaced ls) :
    WellPlaced (ks ++ ls) := by
  induction ks with
  | nil => exact hls
  | cons k ks ih =>
    obtain ⟨hk, hrest⟩ := List.forall_mem_cons.mp hks
    refine ⟨?_, fun htag => absurd htag hk.ne_tagOpen, ih hrest⟩
    rw [hk.2]
    nofun

theorem tagWords_quiet_append (hks : ∀ k ∈ ks, k.Quiet) : tagWords (ks ++ ls) = tagWords ls := by
  induction ks with
  | nil => rfl
  | cons k ks ih =>
    obtain ⟨hk, hrest⟩ := List.forall_mem_cons.mp hks
    rw [List.cons_append, tagWords_cons_of_ne hk.ne_tagOpen, ih hrest]

theorem filterMap_delimiter?_quiet (hks : ∀ k ∈ ks, k.Quiet) :
    ks.filterMap TokenKind.delimiter? = [] :=
  List.filterMap_eq_nil_iff.mpr fun k hk => (hks k hk).2

/-! ## Lists of tokens -/

theorem WellPlaced.append (hks : WellPlaced ks) (hls : WellPlaced ls)
    (hhead : ∀ k ∈ ls.head?, k.closesTag = false) : WellPlaced (ks ++ ls) := by
  induction ks with
  | nil => exact hls
  | cons k ks ih =>
    obtain ⟨hclose, hword, hrest⟩ := hks
    refine ⟨fun hk => ?_, fun hk => ?_, ih hrest⟩
    · cases ks with
      | nil => exact hhead
      | cons l ks => exact hclose hk
    · obtain ⟨w, hw⟩ := hword hk
      obtain ⟨ks, rfl⟩ := List.head?_eq_some_iff.mp hw
      exact ⟨w, rfl⟩

theorem WellPlaced.tagWords_append (hks : WellPlaced ks) :
    tagWords (ks ++ ls) = tagWords ks ++ tagWords ls := by
  induction ks with
  | nil => rfl
  | cons k ks ih =>
    obtain ⟨-, hword, hrest⟩ := hks
    by_cases htag : k = .punctuation .tagOpen
    · obtain ⟨w, hw⟩ := hword htag
      obtain ⟨ks, rfl⟩ := List.head?_eq_some_iff.mp hw
      subst htag
      exact congrArg (w :: ·) (ih hrest)
    · rw [List.cons_append, tagWords_cons_of_ne htag, tagWords_cons_of_ne htag, ih hrest]

end Quiet

/-- The checks on the raw text pass over the tokens `ks`: these are placed as in a template, they
close what delimiters they open, and their tags turn the open constructs `pending` into `left`. -/
structure Turns (pending left : List Pair) (ks : List TokenKind) : Prop where
  legal : ∀ k ∈ ks, k ≠ .illegal
  placed : WellPlaced ks
  head : ∀ k ∈ ks.head?, k.closesTag = false
  balanced : Balanced (ks.filterMap TokenKind.delimiter?)
  fault : ∀ names, tagFault? pending ((tagWords ks).map Keyword.spelling ++ names) =
    tagFault? left names

section Turns

variable {pending between left : List Pair} {ks ls : List TokenKind}

theorem Turns.append (hks : Turns pending between ks) (hls : Turns between left ls) :
    Turns pending left (ks ++ ls) where
  legal := List.forall_mem_append.mpr ⟨hks.legal, hls.legal⟩
  placed := hks.placed.append hls.placed hls.head
  head := by
    cases ks with
    | nil => exact hls.head
    | cons k ks => exact hks.head
  balanced := by
    rw [List.filterMap_append]
    exact hks.balanced.append hls.balanced
  fault := by
    intro names
    rw [hks.placed.tagWords_append, List.map_append, List.append_assoc, hks.fault, hls.fault]

theorem turns_quiet (hks : ∀ k ∈ ks, k.Quiet) : Turns pending pending ks where
  legal k hk := (hks k hk).1
  placed := by
    have hplaced : WellPlaced (ks ++ []) := wellPlaced_quiet_append hks trivial
    rwa [List.append_nil] at hplaced
  head k hk := (hks k (List.mem_of_mem_head? hk)).closesTag
  balanced := by
    rw [filterMap_delimiter?_quiet hks]
    decide
  fault := by
    have hwords : tagWords (ks ++ []) = [] := tagWords_quiet_append hks
    rw [List.append_nil] at hwords
    intro names
    rw [hwords]
    rfl

/-- Tokens between two delimiters: there is at least one, and behind `{%` it is a word. -/
theorem turns_enclosed {o c : Punctuation} {k : TokenKind} (ho : o.role = .opener)
    (hc : c.role = .closer) (hpair : Balanced [o, c]) (hks : ∀ l ∈ k :: ks, l.Quiet)
    (hword : o = .tagOpen → ∃ w, k = .keyword w)
    (hfault : ∀ names, tagFault? pending
      ((tagWords (.punctuation o :: (k :: ks ++ [.punctuation c]))).map Keyword.spelling ++ names) =
        tagFault? left names) :
    Turns pending left (.punctuation o :: (k :: ks ++ [.punctuation c])) where
  legal := by
    have hinner : ∀ l ∈ k :: ks, l ≠ .illegal := fun l hl => (hks l hl).1
    have hclose : ∀ l ∈ [TokenKind.punctuation c], l ≠ .illegal :=
      List.forall_mem_singleton.mpr nofun
    exact List.forall_mem_cons.mpr ⟨nofun, List.forall_mem_append.mpr ⟨hinner, hclose⟩⟩
  placed := by
    have hclose : c ≠ .tagOpen := by
      rintro rfl
      cases hc
    have hlast : WellPlaced [.punctuation c] :=
      ⟨nofun, fun htag => absurd (TokenKind.punctuation.inj htag) hclose, trivial⟩
    refine ⟨fun _ next hnext => ?_, fun htag => ?_, wellPlaced_quiet_append hks hlast⟩
    · cases hnext
      exact (hks k List.mem_cons_self).closesTag
    · obtain ⟨w, hw⟩ := hword (TokenKind.punctuation.inj htag)
      exact ⟨w, congrArg some hw⟩
  head := by
    intro l hl
    cases hl
    show decide (o.role = .closer) = false
    rw [ho]
    rfl
  balanced := by
    have hopener : (TokenKind.punctuation o).delimiter? = some o :=
      TokenKind.delimiter?_eq_some_iff.mpr ⟨rfl, ne_of_eq_of_ne ho (by decide)⟩
    have hcloser : (TokenKind.punctuation c).delimiter? = some c :=
      TokenKind.delimiter?_eq_some_iff.mpr ⟨rfl, ne_of_eq_of_ne hc (by decide)⟩
    rw [List.filterMap_cons, hopener, List.filterMap_append, filterMap_delimiter?_quiet hks,
      List.filterMap_cons, hcloser]
    exact hpair
  fault := hfault

/-! ## The grammar -/

theorem Layer.Derives.turns {l : Layer} {ts : List Token} {x : Expr} (h : l.Derives ts x) :
    Turns pending pending (ts.map Token.kind) :=
  turns_quiet (List.forall_mem_map.mpr h.quiet)

/-- A statement tag does to the open constructs what its word does. -/
theorem TagAt.turns {pos : Position} {word : Keyword} {inner ts : List Token}
    (h : TagAt pos word inner ts) (hinner : ∀ t ∈ inner, t.kind.Quiet)
    (hfault : ∀ names, tagFault? pending (word.spelling :: names) = tagFault? left names) :
    Turns pending left (ts.map Token.kind) := by
  obtain ⟨ho, -, hw, hc⟩ := h
  have hquiet : ∀ k ∈ TokenKind.keyword word :: inner.map Token.kind, k.Quiet :=
    List.forall_mem_cons.mpr ⟨quiet_keyword word, List.forall_mem_map.mpr hinner⟩
  have hwords : tagWords (.punctuation .tagOpen :: (.keyword word :: inner.map Token.kind ++
      [.punctuation .tagClose])) = [word] :=
    congrArg (word :: ·) (tagWords_quiet_append (List.forall_mem_cons.mp hquiet).2)
  rw [List.map_cons, List.map_cons, List.map_append, List.map_singleton, ho, hw, hc]
  exact turns_enclosed rfl rfl (by decide) hquiet (fun _ => ⟨word, rfl⟩) (by rwa [hwords])

theorem TagAt.turns_opener {pos : Position} {word closer : Keyword} {inner ts : List Token}
    (h : TagAt pos word inner ts) (hinner : ∀ t ∈ inner, t.kind.Quiet)
    (hpair : ⟨word.spelling, closer.spelling⟩ ∈ tagPairs) :
    Turns pending (⟨word.spelling, closer.spelling⟩ :: pending) (ts.map Token.kind) :=
  h.turns hinner fun _ => tagFault?_opener hpair

theorem TagAt.turns_closer {pos : Position} {opener word : Keyword} {ts : List Token}
    (h : TagAt pos word [] ts) (hpair : ⟨opener.spelling, word.spelling⟩ ∈ tagPairs) :
    Turns (⟨opener.spelling, word.spelling⟩ :: pending) pending (ts.map Token.kind) :=
  h.turns nofun fun _ => tagFault?_closer hpair

theorem TagAt.turns_within {pos : Position} {word : Keyword} {inner ts : List Token}
    (h : TagAt pos word inner ts) (hinner : ∀ t ∈ inner, t.kind.Quiet)
    (hword : word ∈ [.set, .elif, .else_]) : Turns pending pending (ts.map Token.kind) :=
  h.turns hinner fun _ => tagFault?_within hword

theorem turns_output {o c : Token} {ts : List Token} {x : Expr}
    (ho : o.kind = .punctuation .outputOpen) (hx : Layer.Derives .equality ts x)
    (hc : c.kind = .punctuation .outputClose) :
    Turns pending pending ((o :: (ts ++ [c])).map Token.kind) := by
  obtain ⟨t, us, rfl⟩ := List.exists_cons_of_ne_nil hx.ne_nil
  have hquiet : ∀ k ∈ t.kind :: us.map Token.kind, k.Quiet := List.forall_mem_map.mpr hx.quiet
  have hwords : tagWords (.punctuation .outputOpen :: (t.kind :: us.map Token.kind ++
      [.punctuation .outputClose])) = [] := by
    rw [tagWords_cons_of_ne (by decide), tagWords_quiet_append hquiet]
    rfl
  rw [List.map_cons, List.map_append, List.map_singleton, ho, hc]
  exact turns_enclosed rfl rfl (by decide) hquiet nofun (by rw [hwords]; exact fun _ => rfl)

theorem Turns.construct {ts us vs : List Token} (hts : Turns pending between (ts.map Token.kind))
    (hus : Turns between between (us.map Token.kind))
    (hvs : Turns between left (vs.map Token.kind)) :
    Turns pending left ((ts ++ (us ++ vs)).map Token.kind) := by
  rw [List.map_append, List.map_append]
  exact hts.append (hus.append hvs)

end Turns

mutual

-- A statement leaves what is open around it as it is; the branches of a conditional, in front of
-- which its tag is open, close that.

/-- A body leaves the open constructs as they are. -/
theorem BodyReading.turns : ∀ {ts : List Token} {body : List Stmt}, BodyReading ts body →
    ∀ pending, Turns pending pending (ts.map Token.kind)
  | _, _, .nil, _ => turns_quiet nofun
  | _, _, .cons h hs _, pending => by
    rw [List.map_append]
    exact (h.turns pending).append (hs.turns pending)

theorem StmtReading.turns : ∀ {ts : List Token} {s : Stmt}, StmtReading ts s →
    ∀ pending, Turns pending pending (ts.map Token.kind)
  | _, _, .bare hx, _ => hx.turns
  | _, _, .output ho hx hc, _ => turns_output ho hx hc
  | _, _, .set hn ha hx ht, _ => by
    have hinner := List.forall_mem_cons.mpr ⟨ha ▸ quiet_operator _, hx.quiet⟩
    exact ht.turns_within (List.forall_mem_cons.mpr ⟨hn ▸ quiet_ident, hinner⟩) (by decide)
  | _, _, .cond hx ht hb hr, pending =>
    (ht.turns_opener hx.quiet (by decide)).construct (hb.turns _) (hr.turns pending)
  | _, _, .loop hn hi hx ht hb hend, _ => by
    have hheader := List.forall_mem_cons.mpr ⟨hi ▸ quiet_keyword _, hx.quiet⟩
    have hinner := List.forall_mem_cons.mpr ⟨hn ▸ quiet_ident, hheader⟩
    exact (ht.turns_opener hinner (by decide)).construct (hb.turns _)
      (hend.turns_closer (by decide))
  | _, _, .block hn ht hb hend, _ => by
    have hinner := fun t ht => (hn t (Option.mem_toList.mp ht)) ▸ quiet_ident
    exact (ht.turns_opener hinner (by decide)).construct (hb.turns _)
      (hend.turns_closer (by decide))

theorem BranchesReading.turns : ∀ {ts : List Token} {rest : Branches}, BranchesReading ts rest →
    ∀ pending, Turns (⟨Keyword.if_.spelling, Keyword.endif.spelling⟩ :: pending) pending
      (ts.map Token.kind)
  | _, _, .done ht, _ => ht.turns_closer (by decide)
  | _, _, .otherwise ht hb hend, _ =>
    (ht.turns_within nofun (by decide)).construct (hb.turns _) (hend.turns_closer (by decide))
  | _, _, .elseIf hx ht hb hr, pending =>
    (ht.turns_within hx.quiet (by decide)).construct (hb.turns _) (hr.turns pending)

end

/-! ## Texts -/

/-- Lines are numbered from the given number on, and each finding shows its line. -/
theorem exists_of_mem_lineFindingsFrom {file : String} {check : List Char → Option Finding}
    {done : List Diagnostic} {number : Nat} {lines : List (List Char)} {d : Diagnostic}
    (h : d ∈ lineFindingsFrom file check done number lines) :
    d ∈ done ∨ ∃ i line finding, lines[i]? = some line ∧ check line = some finding ∧
      d = ⟨file, number + i, finding, some (String.ofList line)⟩ := by
  induction lines generalizing done number with
  | nil => exact Or.inl (List.mem_reverse.mp h)
  | cons line lines ih =>
    rw [lineFindingsFrom] at h
    rcases ih h with hdone | ⟨i, found, finding, hfound, hcheck, hd⟩
    · cases hline : check line with
      | none =>
        rw [hline] at hdone
        exact Or.inl hdone
      | some finding =>
        rw [hline] at hdone
        rcases List.mem_cons.mp hdone with hd | hdone
        · exact Or.inr ⟨0, line, finding, rfl, hline, hd⟩
        · exact Or.inl hdone
    · rw [Nat.add_right_comm] at hd
      exact Or.inr ⟨i + 1, found, finding, hfound, hcheck, hd⟩

theorem exists_of_mem_lineFindings {file : String} {check : List Char → Option Finding}
    {lines : List (List Char)} {d : Diagnostic} (h : d ∈ lineFindings file check lines) :
    ∃ i line finding, lines[i]? = some line ∧ check line = some finding ∧
      d = ⟨file, 1 + i, finding, some (String.ofList line)⟩ := by
  rcases exists_of_mem_lineFindingsFrom h with hnil | hline
  · cases hnil
  · exact hline

/-- The findings of `lineFindings` are warnings. -/
theorem isError_of_mem_lineFindings {file : String} {check : List Char → Option Finding}
    (hcheck : ∀ line, ∀ finding ∈ check line, finding.severity = .warning)
    {lines : List (List Char)} {d : Diagnostic} (h : d ∈ lineFindings file check lines) :
    d.isError = false := by
  obtain ⟨-, line, finding, -, hline, rfl⟩ := exists_of_mem_lineFindings h
  have hseverity := hcheck line finding hline
  unfold Diagnostic.isError Diagnostic.severity
  rw [hseverity]
  rfl

theorem severity_foreignLetter? (line : List Char) :
    ∀ finding ∈ foreignLetter? line, finding.severity = .warning := by
  intro finding hfinding
  obtain ⟨c, -, rfl⟩ := Option.map_eq_some_iff.mp hfinding
  rfl

theorem severity_comment? (line : List Char) :
    ∀ finding ∈ comment? line, finding.severity = .warning := by
  intro finding hfinding
  simp only [comment?, Option.mem_def, Option.ite_none_right_eq_some, Option.some.injEq]
    at hfinding
  obtain ⟨-, rfl⟩ := hfinding
  rfl

theorem unbalancedDelimiters_eq_nil {text : List Char} {ps : List Punctuation}
    {names : List String} (h : Delimited text ps names) (hps : Balanced ps) (file : String) :
    unbalancedDelimiters file text = [] := by
  have hwords : ∀ pair ∈ delimiterPairs,
      pair.opener.toList ∈ markWords ∧ pair.closer.toList ∈ markWords := by decide
  refine List.filterMap_eq_nil_iff.mpr fun pair hpair => ?_
  obtain ⟨hopener, hcloser⟩ := hwords pair hpair
  simp only [h.occurrences_eq hopener, h.occurrences_eq hcloser, hps pair hpair, if_true]

/-- The tokens of a text that is read without an error leave no construct open. -/
theorem turns_of_parse {source : String} (h : (parseSource source).errors = []) :
    Turns [] [] ((lexemes source.toList).map Lexeme.kind) := by
  have hkinds : ((tokenize source).takeWhile (·.kind ≠ .eof)).map Token.kind =
      (lexemes source.toList).map Lexeme.kind := by
    rw [← map_lexeme_takeWhile_tokenize, List.map_map]
    rfl
  rw [← hkinds]
  exact (bodyReading_of_parse h).turns []

/-- A text that is read without an error is `Delimited`, with balanced delimiters and tag names. -/
theorem exists_delimited_of_parse {source : String} (h : (parseSource source).errors = [])
    (huncommented : ∀ p ∈ pieces source.toList, p.content ≠ .comment)
    (hstrings : ∀ t ∈ tokenize source, t.kind = .string →
      ∀ c ∈ t.literal.toList, c ∉ ['{', '}', '%', '#']) :
    ∃ ps names, Delimited source.toList ps names ∧ Balanced ps ∧ tagFault? [] names = none := by
  have hturns := turns_of_parse h
  have htoken : ∀ l ∈ lexemes source.toList, ∃ t ∈ tokenize source, t.lexeme = l := by
    intro l hl
    have hmem := List.mem_append_left [⟨.eof, ""⟩] hl
    rw [← map_lexeme_tokenize] at hmem
    exact List.mem_map.mp hmem
  have hplain : PlainText source.toList := by
    refine ⟨huncommented, fun l hl => ?_, fun l hl hkind => ?_⟩
    · exact hturns.legal _ (List.mem_map_of_mem hl)
    · obtain ⟨t, ht, rfl⟩ := htoken l hl
      exact hstrings t ht hkind
  have hfault := hturns.fault []
  rw [List.append_nil] at hfault
  exact ⟨_, _, delimited_of_wellPlaced hplain hturns.placed, hturns.balanced, hfault⟩

/-- If a text is read without an error, has no comments and no character of a delimiter in a string
literal, then `checkStructure` finds no error in it, so that `lintSource` checks its references if
there are parameters. -/
theorem lintSource_of_parse {source : String} (h : (parseSource source).errors = [])
    (huncommented : ∀ p ∈ pieces source.toList, p.content ≠ .comment)
    (hstrings : ∀ t ∈ tokenize source, t.kind = .string →
      ∀ c ∈ t.literal.toList, c ∉ ['{', '}', '%', '#']) (file : String) :
    (∀ d ∈ checkStructure file source, d.isError = false) ∧
      ∀ params, lintSource file source (some params) =
        checkStructure file source ++ (undefinedNames file params (parseSource source).template).map
          (Diagnostic.withLine (textLines source).toArray) := by
  obtain ⟨ps, names, hdelimited, hbalanced, hfault⟩ :=
    exists_delimited_of_parse h huncommented hstrings
  have hclean : ∀ d ∈ checkStructure file source, d.isError = false := by
    intro d hd
    have htags : tagFaults file source.toList = [] := by
      unfold tagFaults
      rw [hdelimited.tagNames_eq, hfault]
      rfl
    simp only [checkStructure, unbalancedDelimiters_eq_nil hdelimited hbalanced, htags,
      List.append_nil] at hd
    rcases List.mem_append.mp hd with hletter | hcomment
    · exact isError_of_mem_lineFindings severity_foreignLetter? hletter
    · exact isError_of_mem_lineFindings severity_comment? hcomment
  refine ⟨hclean, fun params => ?_⟩
  have hany : (checkStructure file source).any Diagnostic.isError = false :=
    List.any_eq_false.mpr fun d hd => by rw [hclean d hd]; nofun
  simp only [lintSource, hany, h, List.isEmpty_nil, Bool.not_true, Bool.false_eq_true, if_false]

/-- Delimiters that touch, blanks and a line feed behind an opening one, names that begin like
reserved words, the word of a tag in a string literal, and a letter that is worth a warning. -/
theorem lintSource_of_parse_touchingTags :
    let source := "\x7b%\n if iffy%\x7d\x7b\x7bendify\x7d\x7d\x7b%for setter in\tblocks%\x7d" ++
      "\x7b%block%\x7d\x7b\x7b \"endif ж\" \x7d\x7d\x7b%endblock%\x7d\x7b%endfor%\x7d" ++
      "\x7b% else%\x7d\x7b% set x = -1 < y %\x7d\x7b%endif%\x7d"
    (parseSource source).errors = [] ∧ (∀ p ∈ pieces source.toList, p.content ≠ .comment) ∧
      (∀ t ∈ tokenize source, t.kind = .string →
        ∀ c ∈ t.literal.toList, c ∉ ['{', '}', '%', '#']) ∧
      (∀ d ∈ checkStructure "page" source, d.isError = false) ∧
      ∀ params, lintSource "page" source (some params) =
        checkStructure "page" source ++
          (undefinedNames "page" params (parseSource source).template).map
            (Diagnostic.withLine (textLines source).toArray) := by
  intro source
  have h : (parseSource source).errors = [] := by decide +kernel
  have huncommented : ∀ p ∈ pieces source.toList, p.content ≠ .comment := by decide +kernel
  have hstrings : ∀ t ∈ tokenize source, t.kind = .string → Unmarked t.literal.toList := by
    decide +kernel
  exact ⟨h, huncommented, hstrings, lintSource_of_parse h huncommented hstrings "page"⟩

end Templates
