import Templates.Proofs.ReaderInvariant
import Templates.Proofs.TextLexemes

/-!
# A canonical text is read back

The tokens of a canonical text read as the tree that it was written for. An expression is derived on
the layer of its precedence (`Expr.restores`), because `Expr.text` has parentheses wherever a layer
asks for something tighter. The statements of a body are told apart because a bare expression that
follows another one never begins with an operator between two operands (`Stmt.head_lexemes`).

With `lexemes_text` it follows that the text of a template has no syntax error and denotes the
template (`parseSource_text`).
-/

namespace Templates

/-! ## Expressions -/

theorem Precedence.layer_le {p q : Precedence} (h : ¬ q < p) : p.layer ≤ q.layer := by
  revert h
  cases p <;> cases q <;> decide

theorem Token.kind_of_lexeme {t : Token} {kind : TokenKind} (h : t.lexeme = .fixed kind) :
    t.kind = kind := congrArg Lexeme.kind h

/-- On the layer, tokens with these lexemes derive the expression up to positions. -/
def Layer.Restores (l : Layer) (ls : List Lexeme) (x : Expr) : Prop :=
  ∀ ts : List Token, ts.map Token.lexeme = ls → ∃ y, l.Derives ts y ∧ y.erase = x.erase

namespace Layer

variable {k l : Layer} {ls : List Lexeme} {x : Expr}

/-- Parentheses make every layer fit; without them the layer must not be too tight. -/
theorem Restores.parens (h : k.Restores ls x) {parens : Bool} (hl : parens = false → l ≤ k) :
    l.Restores (parenLexemes parens ls) x := by
  intro ts hts
  cases parens with
  | false =>
    obtain ⟨y, hy, herase⟩ := h ts hts
    exact ⟨y, hy.mono (hl rfl), herase⟩
  | true =>
    obtain ⟨o, us, rfl, ho, hus⟩ := List.map_eq_cons_iff.mp hts
    obtain ⟨vs, ws, rfl, hvs, hws⟩ := List.map_eq_append_iff.mp hus
    obtain ⟨c, rfl, hc⟩ := List.map_eq_singleton_iff.mp hws
    obtain ⟨y, hy, herase⟩ := h vs hvs
    have hparen : Derives .unary (o :: (vs ++ [c])) y :=
      .paren (Token.kind_of_lexeme ho) (hy.mono (equality_le k)) (Token.kind_of_lexeme hc)
    exact ⟨y, hparen.mono (le_unary l), herase⟩

theorem Restores.operand (h : x.precedence.layer.Restores ls x) (p : Precedence) :
    p.layer.Restores (parenLexemes (x.precedence < p) ls) x :=
  h.parens fun hlt => Precedence.layer_le (of_decide_eq_false hlt)

theorem Restores.rightOperand (h : x.precedence.layer.Restores ls x) (op : BinaryOp) :
    op.layer.tighter.Restores (parenLexemes (x.precedence ≤ op.precedence) ls) x := by
  refine h.parens fun hle => tighter_le_of_not_le ?_
  rw [← BinaryOp.le_precedence_iff]
  exact of_decide_eq_false hle

theorem restores_atom {l : Lexeme}
    (h : ∀ t : Token, t.lexeme = l → ∃ y, Atom t y ∧ y.erase = x.erase) : unary.Restores [l] x := by
  intro ts hts
  obtain ⟨t, rfl, ht⟩ := List.map_eq_singleton_iff.mp hts
  obtain ⟨y, hy, herase⟩ := h t ht
  exact ⟨y, .atom hy, herase⟩

theorem Restores.unary (op : UnaryOp) (pos : Position) (h : unary.Restores ls x) :
    Layer.unary.Restores (.fixed (.operator op.sign) :: ls) (.unary pos op x) := by
  intro ts hts
  obtain ⟨t, us, rfl, ht, hus⟩ := List.map_eq_cons_iff.mp hts
  obtain ⟨y, hy, herase⟩ := h us hus
  exact ⟨_, .unary (Token.kind_of_lexeme ht) hy, by simp [Expr.erase, herase]⟩

theorem Restores.binary (op : BinaryOp) (pos : Position) {ms : List Lexeme} {y : Expr}
    (hx : op.layer.Restores ls x) (hy : op.layer.tighter.Restores ms y) :
    op.layer.Restores (ls ++ .fixed (.operator op.sign) :: ms) (.binary pos op x y) := by
  intro ts hts
  obtain ⟨us, vs, rfl, hus, hvs⟩ := List.map_eq_append_iff.mp hts
  obtain ⟨t, ws, rfl, ht, hws⟩ := List.map_eq_cons_iff.mp hvs
  obtain ⟨x', hx', hxerase⟩ := hx us hus
  obtain ⟨y', hy', hyerase⟩ := hy ws hws
  exact ⟨_, .binary rfl hx' (Token.kind_of_lexeme ht) hy', by simp [Expr.erase, hxerase, hyerase]⟩

theorem Restores.link (k : Link) (pos : Position) (name : String) (h : link.Restores ls x) :
    Layer.link.Restores (ls ++ [.fixed (.operator k.sign), ⟨.ident, name⟩])
      (k.build pos x name) := by
  intro ts hts
  obtain ⟨us, vs, rfl, hus, hvs⟩ := List.map_eq_append_iff.mp hts
  obtain ⟨t, ws, rfl, ht, hws⟩ := List.map_eq_cons_iff.mp hvs
  obtain ⟨n, rfl, hn⟩ := List.map_eq_singleton_iff.mp hws
  obtain ⟨y, hy, herase⟩ := h us hus
  have hkind : n.kind = .ident := congrArg Lexeme.kind hn
  have hname : n.literal = name := congrArg Lexeme.literal hn
  refine ⟨_, .link hy (Token.kind_of_lexeme ht) hkind, ?_⟩
  cases k <;> simp [Link.build, Expr.erase, herase, hname]

end Layer

/-- The tokens of an expression derive it on the layer of its precedence. -/
theorem Expr.restores {x : Expr} (h : x.Spellable) : x.precedence.layer.Restores x.lexemes x := by
  induction x with
  | ident _ name =>
    refine Layer.restores_atom fun t ht => ?_
    cases t
    cases ht
    exact ⟨_, .ident rfl, rfl⟩
  | int _ value =>
    refine Layer.restores_atom fun t ht => ?_
    cases t
    cases ht
    exact ⟨_, .int rfl (IntLiteral.value?_toString_toInt value), rfl⟩
  | str _ value =>
    refine Layer.restores_atom fun t ht => ?_
    cases t
    cases ht
    exact ⟨_, .str rfl, rfl⟩
  | bool _ b =>
    refine Layer.restores_atom fun t ht => ?_
    cases b with
    | true => exact ⟨_, .true_ (Token.kind_of_lexeme ht), rfl⟩
    | false => exact ⟨_, .false_ (Token.kind_of_lexeme ht), rfl⟩
  | null =>
    exact Layer.restores_atom fun t ht => ⟨_, .null (Token.kind_of_lexeme ht), rfl⟩
  | unary pos op x ih => exact ((ih h).operand .unary).unary op pos
  | binary pos op l r ihl ihr =>
    have hl := (ihl h.1).operand op.precedence
    rw [op.layer_precedence] at hl
    rw [precedence, op.layer_precedence]
    exact hl.binary op pos ((ihr h.2).rightOperand op)
  | attr pos x name ih => exact ((ih h.1).operand .attr).link .attr pos name
  | filter pos x name ih => exact ((ih h.1).operand .filter).link .filter pos name

theorem Expr.exists_derives {x : Expr} (h : x.Spellable) {ts : List Token}
    (hts : ts.map Token.lexeme = x.lexemes) :
    ∃ y, Layer.Derives .equality ts y ∧ y.erase = x.erase := by
  obtain ⟨y, hy, herase⟩ := restores h ts hts
  exact ⟨y, hy.mono (Layer.equality_le _), herase⟩

/-! ## Where a statement begins -/

theorem parenLexemes_append_head {parens : Bool} {ls : List Lexeme} (ms : List Lexeme)
    (h : parens = false → ∃ l ks, ls = l :: ks ∧ l.kind.precedence? = none) :
    ∃ l ks, parenLexemes parens ls ++ ms = l :: ks ∧ l.kind.precedence? = none := by
  cases parens with
  | false =>
    obtain ⟨l, ks, rfl, hl⟩ := h rfl
    exact ⟨l, ks ++ ms, rfl, hl⟩
  | true => exact ⟨_, _, rfl, rfl⟩

/-- A left operand leads with a minus sign only where it has no parentheses. -/
theorem operand_append_head {x : Expr} {p : Precedence} (ms : List Lexeme)
    (ih : x.leadsWithMinus = false → ∃ l ls, x.lexemes = l :: ls ∧ l.kind.precedence? = none)
    (h : (p ≤ x.precedence && x.leadsWithMinus) = false) :
    ∃ l ls, parenLexemes (x.precedence < p) x.lexemes ++ ms = l :: ls ∧
      l.kind.precedence? = none := by
  refine parenLexemes_append_head ms fun hlt => ih ?_
  have hle : p ≤ x.precedence := Nat.le_of_not_lt (of_decide_eq_false hlt)
  simpa [hle] using h

/-- An expression that does not lead with a minus sign begins with no operator between operands. -/
theorem Expr.head_lexemes {x : Expr} (h : x.leadsWithMinus = false) :
    ∃ l ls, x.lexemes = l :: ls ∧ l.kind.precedence? = none := by
  induction x with
  | ident | int | str | bool | null => exact ⟨_, _, rfl, rfl⟩
  | unary _ op x =>
    cases op with
    | not => exact ⟨_, _, rfl, rfl⟩
    | neg => cases h
  | binary _ op l r ihl => exact operand_append_head _ ihl h
  | attr _ x name ih => exact operand_append_head _ ih h
  | filter _ x name ih => exact operand_append_head _ ih h

/-- Behind a bare expression, no statement begins with an operator between operands. -/
theorem Stmt.head_lexemes (s : Stmt) :
    ∃ l ls, s.lexemes true = l :: ls ∧ l.kind.precedence? = none := by
  cases s with
  | bare value =>
    rw [lexemes, Bool.true_and, ← List.append_nil (parenLexemes _ _)]
    exact parenLexemes_append_head _ Expr.head_lexemes
  | _ => exact ⟨_, _, rfl, rfl⟩

theorem stops_of_map_lexeme {ts : List Token} {body : List Stmt}
    (h : ts.map Token.lexeme = bodyLexemes true body) (hne : ts ≠ []) : Stops ts := by
  cases body with
  | nil => exact absurd (List.map_eq_nil_iff.mp h) hne
  | cons s ss =>
    obtain ⟨l, ls, hls, hl⟩ := s.head_lexemes
    rw [bodyLexemes, hls] at h
    obtain ⟨t, us, rfl, rfl, -⟩ := List.map_eq_cons_iff.mp h
    exact ⟨t, us, rfl, hl⟩

/-! ## Statements -/

theorem exists_tagAt {ts : List Token} {word : Keyword} {ls : List Lexeme}
    (h : ts.map Token.lexeme = tagLexemes word ls) :
    ∃ pos us, TagAt pos word us ts ∧ us.map Token.lexeme = ls := by
  obtain ⟨o, us, rfl, ho, hus⟩ := List.map_eq_cons_iff.mp h
  obtain ⟨w, vs, rfl, hw, hvs⟩ := List.map_eq_cons_iff.mp hus
  obtain ⟨inner, ws, rfl, hinner, hws⟩ := List.map_eq_append_iff.mp hvs
  obtain ⟨c, rfl, hc⟩ := List.map_eq_singleton_iff.mp hws
  exact ⟨o.pos, inner, ⟨Token.kind_of_lexeme ho, rfl, Token.kind_of_lexeme hw,
    Token.kind_of_lexeme hc⟩, hinner⟩

theorem exists_wordTagAt {ts : List Token} {word : Keyword}
    (h : ts.map Token.lexeme = tagLexemes word []) : ∃ pos, TagAt pos word [] ts := by
  obtain ⟨pos, us, ht, hus⟩ := exists_tagAt h
  rw [List.map_eq_nil_iff] at hus
  exact ⟨pos, hus ▸ ht⟩

/-- The tokens of a name and of a word behind it give the name. -/
theorem exists_name_cons {ts : List Token} {name : Name} {kind : TokenKind} {ls : List Lexeme}
    (h : ts.map Token.lexeme = ⟨.ident, name.text⟩ :: .fixed kind :: ls) :
    ∃ n t us, ts = n :: t :: us ∧ n.kind = .ident ∧ n.name.erase = name.erase ∧ t.kind = kind ∧
      us.map Token.lexeme = ls := by
  obtain ⟨n, us, rfl, hn, hus⟩ := List.map_eq_cons_iff.mp h
  obtain ⟨t, vs, rfl, ht, hvs⟩ := List.map_eq_cons_iff.mp hus
  have hname : n.literal = name.text := congrArg Lexeme.literal hn
  exact ⟨n, t, vs, rfl, congrArg Lexeme.kind hn, by simp [Token.name, Name.erase, hname],
    Token.kind_of_lexeme ht, hvs⟩

theorem exists_blockName {ts : List Token} {name : Option Name}
    (h : ts.map Token.lexeme = nameLexemes name) :
    ∃ n : Option Token, ts = n.toList ∧ (∀ t ∈ n, t.kind = .ident) ∧
      (n.map Token.name).map Name.erase = name.map Name.erase := by
  cases name with
  | none =>
    rw [nameLexemes, List.map_eq_nil_iff] at h
    exact ⟨none, h, by simp, rfl⟩
  | some name =>
    obtain ⟨t, rfl, ht⟩ := List.map_eq_singleton_iff.mp h
    have hname : t.literal = name.text := congrArg Lexeme.literal ht
    refine ⟨some t, rfl, ?_, by simp [Token.name, Name.erase, hname]⟩
    intro u hu
    cases hu
    exact congrArg Lexeme.kind ht

theorem Stmt.isBare_erase (s : Stmt) : s.erase.isBare = s.isBare := by
  cases s <;> rfl

theorem exists_three_parts {ts : List Token} {ks ls ms : List Lexeme}
    (h : ts.map Token.lexeme = ks ++ (ls ++ ms)) :
    ∃ us vs ws, ts = us ++ (vs ++ ws) ∧ us.map Token.lexeme = ks ∧ vs.map Token.lexeme = ls ∧
      ws.map Token.lexeme = ms := by
  obtain ⟨us, xs, rfl, hus, hxs⟩ := List.map_eq_append_iff.mp h
  obtain ⟨vs, ws, rfl, hvs, hws⟩ := List.map_eq_append_iff.mp hxs
  exact ⟨us, vs, ws, rfl, hus, hvs, hws⟩

mutual

/-- The tokens of a statement read as the statement. -/
theorem Stmt.exists_reading : ∀ (s : Stmt) {afterBare : Bool} {ts : List Token}, s.Spellable →
    ts.map Token.lexeme = s.lexemes afterBare → ∃ s', StmtReading ts s' ∧ s'.erase = s.erase
  | .set _ name value, _, ts, h, hts => by
    obtain ⟨pos, us, ht, hus⟩ := exists_tagAt hts
    obtain ⟨n, a, vs, rfl, hn, hname, ha, hvs⟩ := exists_name_cons hus
    obtain ⟨y, hy, herase⟩ := Expr.exists_derives h.2 hvs
    exact ⟨_, .set hn ha hy ht, by simp [Stmt.erase, hname, herase]⟩
  | .cond _ condition body rest, _, ts, h, hts => by
    obtain ⟨us, vs, ws, rfl, hus, hvs, hws⟩ := exists_three_parts hts
    obtain ⟨pos, inner, ht, hinner⟩ := exists_tagAt hus
    obtain ⟨y, hy, herase⟩ := Expr.exists_derives h.1 hinner
    obtain ⟨body', hbody, hberase⟩ := exists_bodyReading body h.2.1 hvs
    obtain ⟨rest', hrest, hrerase⟩ := rest.exists_reading h.2.2 hws
    exact ⟨_, .cond hy ht hbody hrest, by simp [Stmt.erase, herase, hberase, hrerase]⟩
  | .loop _ item sequence body, _, ts, h, hts => by
    obtain ⟨us, vs, ws, rfl, hus, hvs, hws⟩ := exists_three_parts hts
    obtain ⟨pos, inner, ht, hinner⟩ := exists_tagAt hus
    obtain ⟨n, i, xs, rfl, hn, hname, hi, hxs⟩ := exists_name_cons hinner
    obtain ⟨y, hy, herase⟩ := Expr.exists_derives h.2.1 hxs
    obtain ⟨body', hbody, hberase⟩ := exists_bodyReading body h.2.2 hvs
    obtain ⟨last, hend⟩ := exists_wordTagAt hws
    exact ⟨_, .loop hn hi hy ht hbody hend, by simp [Stmt.erase, hname, herase, hberase]⟩
  | .block _ name body, _, ts, h, hts => by
    obtain ⟨us, vs, ws, rfl, hus, hvs, hws⟩ := exists_three_parts hts
    obtain ⟨pos, inner, ht, hinner⟩ := exists_tagAt hus
    obtain ⟨n, rfl, hn, hname⟩ := exists_blockName hinner
    obtain ⟨body', hbody, hberase⟩ := exists_bodyReading body h.2 hvs
    obtain ⟨last, hend⟩ := exists_wordTagAt hws
    exact ⟨_, .block hn ht hbody hend, by rw [Stmt.erase, Stmt.erase, hname, hberase]⟩
  | .output _ value, _, ts, h, hts => by
    obtain ⟨o, us, rfl, ho, hus⟩ := List.map_eq_cons_iff.mp hts
    obtain ⟨vs, ws, rfl, hvs, hws⟩ := List.map_eq_append_iff.mp hus
    obtain ⟨c, rfl, hc⟩ := List.map_eq_singleton_iff.mp hws
    obtain ⟨y, hy, herase⟩ := Expr.exists_derives h hvs
    exact ⟨_, .output (Token.kind_of_lexeme ho) hy (Token.kind_of_lexeme hc),
      by simp [Stmt.erase, herase]⟩
  | .bare value, _, ts, h, hts => by
    obtain ⟨y, hy, herase⟩ := (Expr.restores h).parens (fun _ => Layer.equality_le _) ts hts
    exact ⟨_, .bare hy, by simp [Stmt.erase, herase]⟩

theorem Branches.exists_reading : ∀ (b : Branches) {ts : List Token}, b.Spellable →
    ts.map Token.lexeme = b.lexemes → ∃ b', BranchesReading ts b' ∧ b'.erase = b.erase
  | .done, ts, _, hts => by
    obtain ⟨pos, ht⟩ := exists_wordTagAt hts
    exact ⟨_, .done ht, rfl⟩
  | .otherwise body, ts, h, hts => by
    obtain ⟨us, vs, ws, rfl, hus, hvs, hws⟩ := exists_three_parts hts
    obtain ⟨pos, ht⟩ := exists_wordTagAt hus
    obtain ⟨body', hbody, hberase⟩ := exists_bodyReading body h hvs
    obtain ⟨last, hend⟩ := exists_wordTagAt hws
    exact ⟨_, .otherwise ht hbody hend, by simp [Branches.erase, hberase]⟩
  | .elseIf condition body rest, ts, h, hts => by
    obtain ⟨us, vs, ws, rfl, hus, hvs, hws⟩ := exists_three_parts hts
    obtain ⟨pos, inner, ht, hinner⟩ := exists_tagAt hus
    obtain ⟨y, hy, herase⟩ := Expr.exists_derives h.1 hinner
    obtain ⟨body', hbody, hberase⟩ := exists_bodyReading body h.2.1 hvs
    obtain ⟨rest', hrest, hrerase⟩ := rest.exists_reading h.2.2 hws
    exact ⟨_, .elseIf hy ht hbody hrest, by simp [Branches.erase, herase, hberase, hrerase]⟩

theorem exists_bodyReading : ∀ (body : List Stmt) {afterBare : Bool} {ts : List Token},
    BodySpellable body → ts.map Token.lexeme = bodyLexemes afterBare body →
      ∃ body', BodyReading ts body' ∧ eraseBody body' = eraseBody body
  | [], _, ts, _, hts => by
    rw [bodyLexemes, List.map_eq_nil_iff] at hts
    exact ⟨[], hts ▸ .nil, rfl⟩
  | s :: ss, _, ts, h, hts => by
    obtain ⟨us, vs, rfl, hus, hvs⟩ := List.map_eq_append_iff.mp hts
    obtain ⟨s', hs, hserase⟩ := s.exists_reading h.1 hus
    obtain ⟨body', hbody, hberase⟩ := exists_bodyReading ss h.2 hvs
    refine ⟨_, .cons hs hbody fun hbare hne => ?_, by simp [eraseBody, hserase, hberase]⟩
    -- Positions aside the two statements are one, so what follows was written as behind a bare one.
    have hbare' : s.isBare = true := by rw [← s.isBare_erase, ← hserase, s'.isBare_erase, hbare]
    rw [hbare'] at hvs
    exact stops_of_map_lexeme hvs hne

end

/-! ## Templates -/

theorem exists_parseSource_text (style : Style) {t : Template} (h : BodySpellable t) :
    ∃ t', parseSource (Template.text style t) = ⟨t', []⟩ ∧ eraseBody t' = eraseBody t := by
  have htokens := map_lexeme_takeWhile_tokenize (Template.text style t)
  rw [lexemes_text style h] at htokens
  obtain ⟨t', hread, herase⟩ := exists_bodyReading t h htokens
  exact ⟨t', parse_of_bodyReading hread, herase⟩

/-- `Template.text` of a `BodySpellable` template is read without errors, in every style, as the
template up to positions. -/
theorem parseSource_text (style : Style) {t : Template} (h : BodySpellable t) :
    (parseSource (Template.text style t)).errors = [] ∧
      eraseBody (parseSource (Template.text style t)).template = eraseBody t := by
  obtain ⟨t', hparse, herase⟩ := exists_parseSource_text style h
  rw [hparse]
  exact ⟨rfl, herase⟩

/-- A conditional in a block: two bare expressions in succession, the second of which leads with a
minus sign, and a loop over a filtered value behind `else`. -/
def nestedTemplate : Template :=
  [.block .first (some ⟨"main", .first⟩)
    [.cond .first (.unary .first .not (.binary .first .eq (.ident .first "a") (.null .first)))
      [.bare (.ident .first "b"),
        .bare (.binary .first .sub (.unary .first .neg (.int .first 7))
          (.binary .first .sub (.attr .first (.str .first "\"\n") "size") (.int .first 0)))]
      (.otherwise
        [.loop .first ⟨"x", .first⟩ (.filter .first (.ident .first "xs") "sorted")
          [.output .first (.ident .first "x")]])]]

theorem bodySpellable_nestedTemplate : BodySpellable nestedTemplate := by
  have ha : IsName "a" := by decide
  have hb : IsName "b" := by decide
  have hx : IsName "x" := by decide
  have hxs : IsName "xs" := by decide
  have hmain : IsName "main" := by decide
  have hsize : IsName "size" := by decide
  have hsorted : IsName "sorted" := by decide
  simp [nestedTemplate, BodySpellable, Stmt.Spellable, Branches.Spellable, Expr.Spellable, *]

theorem parseSource_text_nestedTemplate :
    BodySpellable nestedTemplate ∧
      (parseSource (Template.text ⟨2, true⟩ nestedTemplate)).errors = [] ∧
      eraseBody (parseSource (Template.text ⟨2, true⟩ nestedTemplate)).template =
        eraseBody nestedTemplate :=
  ⟨bodySpellable_nestedTemplate, parseSource_text ⟨2, true⟩ bodySpellable_nestedTemplate⟩

end Templates
