import Templates.Proofs.CanonicalText

/-!
# Parentheses of a canonical text

An expression can be written with more parentheses or with fewer, but some groupings need them. The
tokens of `Expr.text` have no more parentheses than any other tokens that are read as the expression
(`openParens_text_le`), with one exception: the object of an attribute has parentheses if it is a
filter, `(a | f).b`, although `a | f.b` is grouped in the same way (`Expr.filterAttrs`). Parentheses
in a string literal are part of its text and do not count.

The bound follows `Layer.Derives`. An expression that binds looser than a layer gets onto that layer
only in parentheses, so a derivation there has a pair of them (`Layer.Derives.parens_add_le`).
-/

namespace Templates

/-- The number of parentheses that tokens of these kinds open. -/
def openParens (ks : List TokenKind) : Nat := ks.count (.punctuation .parenOpen)

namespace Expr

/-- The expression is a filter applied to an input. -/
def isFilter : Expr → Bool
  | filter .. => true
  | _ => false

/-- The number of filters in the expression that are objects of attributes. -/
def filterAttrs : Expr → Nat
  | ident .. | int .. | str .. | bool .. | null _ => 0
  | unary _ _ x | filter _ x _ => x.filterAttrs
  | binary _ _ l r => l.filterAttrs + r.filterAttrs
  | attr _ x _ => x.filterAttrs + if x.isFilter then 1 else 0

end Expr

/-! ## Parentheses of the tokens of a tree -/

@[simp] theorem openParens_nil : openParens [] = 0 := rfl

@[simp] theorem openParens_cons (k : TokenKind) (ks : List TokenKind) :
    openParens (k :: ks) = openParens ks + if k = .punctuation .parenOpen then 1 else 0 := by
  simp [openParens, List.count_cons]

@[simp] theorem openParens_append (ks ls : List TokenKind) :
    openParens (ks ++ ls) = openParens ks + openParens ls := List.count_append

theorem openParens_le_of_sublist {ks ls : List TokenKind} (h : ks.Sublist ls) :
    openParens ks ≤ openParens ls := h.count_le _

@[simp] theorem openParens_parenLexemes (parens : Bool) (ls : List Lexeme) :
    openParens ((parenLexemes parens ls).map Lexeme.kind) =
      openParens (ls.map Lexeme.kind) + if parens then 1 else 0 := by
  cases parens <;> simp [parenLexemes, Lexeme.fixed]

namespace Expr

/-- The number of parentheses that the canonical text opens. -/
def parens (x : Expr) : Nat := openParens (x.lexemes.map Lexeme.kind)

variable (pos : Position) (x y : Expr)

@[simp] theorem parens_unary (op : UnaryOp) :
    (unary pos op x).parens = x.parens + if x.precedence < .unary then 1 else 0 := by
  simp [parens, lexemes, Lexeme.fixed]

@[simp] theorem parens_binary (op : BinaryOp) :
    (binary pos op x y).parens =
      (x.parens + if x.precedence < op.precedence then 1 else 0) +
        (y.parens + if y.precedence ≤ op.precedence then 1 else 0) := by
  simp [parens, lexemes, Lexeme.fixed]

@[simp] theorem parens_attr (name : String) :
    (attr pos x name).parens = x.parens + if x.precedence < .attr then 1 else 0 := by
  simp [parens, lexemes, Lexeme.fixed]

@[simp] theorem parens_filter (name : String) :
    (filter pos x name).parens = x.parens + if x.precedence < .filter then 1 else 0 := by
  simp [parens, lexemes, Lexeme.fixed]

end Expr

theorem Atom.parens_eq_zero {t : Token} {x : Expr} (h : Atom t x) : x.parens = 0 := by
  cases h <;> rfl

theorem Atom.precedence_eq {t : Token} {x : Expr} (h : Atom t x) : x.precedence = .unary := by
  cases h <;> rfl

/-! ## Parentheses of a derivation -/

/-- The pairs of parentheses that put the expression on the layer: one if it binds looser. -/
def Layer.pairs (l : Layer) (x : Expr) : Nat := if l ≤ x.precedence.layer then 0 else 1

theorem Layer.pairs_le_one (l : Layer) (x : Expr) : l.pairs x ≤ 1 := by
  unfold pairs
  split <;> decide

theorem Layer.pairs_eq_zero {l : Layer} {x : Expr} (h : l ≤ x.precedence.layer) : l.pairs x = 0 :=
  if_pos h

theorem Layer.pairs_eq_one {l : Layer} {x : Expr} (h : ¬ l ≤ x.precedence.layer) : l.pairs x = 1 :=
  if_neg h

theorem Layer.pairs_le_tighter (l : Layer) (x : Expr) : l.pairs x ≤ l.tighter.pairs x := by
  by_cases h : l ≤ x.precedence.layer
  · rw [pairs_eq_zero h]
    exact Nat.zero_le _
  · have htighter : ¬ l.tighter ≤ x.precedence.layer := fun hle => h (le_trans (le_tighter l) hle)
    exact Nat.le_of_eq ((pairs_eq_one h).trans (pairs_eq_one htighter).symm)

theorem Precedence.not_layer_le {p q : Precedence} (h : q < p) (hq : q ≠ .lowest)
    (hp : p ≠ .attr) : ¬ p.layer ≤ q.layer := by
  revert h hq hp
  cases p <;> cases q <;> decide

theorem BinaryOp.precedence_ne_lowest (op : BinaryOp) : op.precedence ≠ .lowest := by
  cases op <;> decide

theorem BinaryOp.precedence_ne_filter (op : BinaryOp) : op.precedence ≠ .filter := by
  cases op <;> decide

theorem BinaryOp.precedence_ne_attr (op : BinaryOp) : op.precedence ≠ .attr := by
  cases op <;> decide

theorem BinaryOp.layer_le_link (op : BinaryOp) : op.layer ≤ .link := by
  cases op <;> decide

namespace Expr

variable (x : Expr)

theorem precedence_ne_lowest : x.precedence ≠ .lowest := by
  cases x with
  | binary _ op => exact op.precedence_ne_lowest
  | _ => simp [precedence]

theorem isFilter_of_precedence_eq {x : Expr} (h : x.precedence = .filter) :
    x.isFilter = true := by
  cases x with
  | filter => rfl
  | binary _ op => exact absurd h op.precedence_ne_filter
  | _ => cases h

/-- An operand has parentheses only where the layer of its place asks for them. -/
theorem parens_operand_le {p : Precedence} (hp : p ≠ .attr) :
    (if x.precedence < p then 1 else 0) ≤ p.layer.pairs x := by
  split
  · next hlt =>
    have hlayer := Precedence.not_layer_le hlt x.precedence_ne_lowest hp
    exact Nat.le_of_eq (Layer.pairs_eq_one hlayer).symm
  · exact Nat.zero_le _

/-- The layer of a right operand is the one next to that of the operator. -/
theorem parens_rightOperand_le (op : BinaryOp) :
    (if x.precedence ≤ op.precedence then 1 else 0) ≤ op.layer.tighter.pairs x := by
  split
  · next hle =>
    have hlayer := (BinaryOp.le_precedence_iff _ op).mp hle
    have htighter : ¬ op.layer.tighter ≤ x.precedence.layer := fun h =>
      Layer.not_le_of_tighter_le h (Layer.le_trans hlayer op.layer_le_link) hlayer
    exact Nat.le_of_eq (Layer.pairs_eq_one htighter).symm
  · exact Nat.zero_le _

/-- The object of an attribute has parentheses also if it is a filter. -/
theorem parens_object_le :
    (if x.precedence < .attr then 1 else 0) ≤
      Layer.link.pairs x + if x.isFilter then 1 else 0 := by
  by_cases hfilter : x.precedence = .filter
  · rw [isFilter_of_precedence_eq hfilter, if_pos rfl]
    split <;> omega
  · have hlt : x.precedence < .attr → x.precedence < .filter := by
      revert hfilter
      cases x.precedence <;> decide
    have hoperand := x.parens_operand_le (p := .filter) (by decide)
    split
    · next h =>
      rw [if_pos (hlt h)] at hoperand
      exact Nat.le_add_right_of_le hoperand
    · exact Nat.zero_le _

end Expr

/-- A derivation has the parentheses of the canonical text, and a pair more if the expression binds
looser than the layer. Filters that are objects of attributes need none. -/
theorem Layer.Derives.parens_add_le {l : Layer} {ts : List Token} {x : Expr}
    (h : l.Derives ts x) :
    x.parens + l.pairs x ≤ openParens (ts.map Token.kind) + x.filterAttrs := by
  induction h with
  | @atom t x h =>
    have hpairs : Layer.unary.pairs x = 0 := pairs_eq_zero (by rw [h.precedence_eq]; decide)
    rw [h.parens_eq_zero, hpairs]
    exact Nat.zero_le _
  | @unary t op ts x ht hx ih =>
    have hpairs : Layer.unary.pairs (.unary t.pos op x) = 0 := pairs_eq_zero (le_refl _)
    have hoperand : _ ≤ Layer.unary.pairs x := x.parens_operand_le (p := .unary) (by decide)
    simp only [List.map_cons, openParens_cons, ht, Expr.parens_unary, Expr.filterAttrs, hpairs]
    omega
  | @paren o c ts x ho hx hc ih =>
    have hpairs := pairs_le_one .unary x
    simp only [List.map_cons, List.map_append, List.map_nil, openParens_cons, openParens_append,
      ho, if_true]
    omega
  | @link k t n ts x hx ht hn ih =>
    cases k with
    | attr =>
      have hpairs : Layer.link.pairs (.attr t.pos x n.literal) = 0 := pairs_eq_zero (le_refl _)
      have hobject := x.parens_object_le
      simp only [Link.build, List.map_append, openParens_append, Expr.parens_attr, Expr.filterAttrs,
        hpairs]
      omega
    | filter =>
      have hpairs : Layer.link.pairs (.filter t.pos x n.literal) = 0 := pairs_eq_zero (le_refl _)
      have hinput : _ ≤ Layer.link.pairs x := x.parens_operand_le (p := .filter) (by decide)
      simp only [Link.build, List.map_append, openParens_append, Expr.parens_filter,
        Expr.filterAttrs, hpairs]
      omega
  | @binary l op t ts us x y hl hx ht hy ihx ihy =>
    subst hl
    have hprecedence : op.layer ≤ (Expr.binary t.pos op x y).precedence.layer := by
      rw [Expr.precedence, op.layer_precedence]
      exact le_refl _
    have hleft := x.parens_operand_le op.precedence_ne_attr
    have hright := y.parens_rightOperand_le op
    rw [op.layer_precedence] at hleft
    simp only [List.map_cons, List.map_append, openParens_cons, openParens_append, ht,
      Expr.parens_binary, Expr.filterAttrs, pairs_eq_zero hprecedence]
    omega
  | @single l ts x hx ih =>
    exact Nat.le_trans (Nat.add_le_add_left (pairs_le_tighter l x) _) ih

/-! ## Source texts -/

theorem Expr.lexemes_erase (x : Expr) : x.erase.lexemes = x.lexemes := by
  induction x with
  | ident | int | str | bool | null => rfl
  | unary _ op x ih => simp [erase, lexemes, ih, precedence_erase]
  | binary _ op l r ihl ihr => simp [erase, lexemes, ihl, ihr, precedence_erase]
  | attr _ x name ih => simp [erase, lexemes, ih, precedence_erase]
  | filter _ x name ih => simp [erase, lexemes, ih, precedence_erase]

theorem Expr.filterAttrs_erase (x : Expr) : x.erase.filterAttrs = x.filterAttrs := by
  induction x with
  | ident | int | str | bool | null => rfl
  | unary _ op x ih => exact ih
  | binary _ op l r ihl ihr => simp [erase, filterAttrs, ihl, ihr]
  | attr _ x name ih =>
    have hfilter : x.erase.isFilter = x.isFilter := by cases x <;> rfl
    simp [erase, filterAttrs, ih, hfilter]
  | filter _ x name ih => exact ih

theorem Expr.openParens_text {x : Expr} (h : x.Spellable) :
    openParens ((tokenize x.text).map Token.kind) = x.parens := by
  have htext := spells_text h [] (by simp [EndsWord])
  have htokens := map_lexeme_tokenize x.text
  rw [List.append_nil, lexemes_nil, List.append_nil] at htext
  rw [htext] at htokens
  have hkinds : (tokenize x.text).map Token.kind = x.lexemes.map Lexeme.kind ++ [.eof] := by
    simpa [Function.comp_def, Token.lexeme] using congrArg (List.map Lexeme.kind) htokens
  rw [hkinds, openParens_append]
  rfl

/-- An output tag that is read on its own holds an expression. -/
theorem exists_derives_of_parse {ts : List Token} {pos : Position} {x : Expr}
    (h : parse ts = ⟨[.output pos x], []⟩) :
    ∃ o us c, ts.takeWhile (·.kind ≠ .eof) = o :: (us ++ [c]) ∧ Layer.Derives .equality us x := by
  have hread : BodyReading (ts.takeWhile (·.kind ≠ .eof)) (parse ts).template :=
    bodyReading_of_parse (by rw [h])
  rw [h] at hread
  generalize ts.takeWhile (·.kind ≠ .eof) = vs at hread
  cases hread with
  | cons hstmt hbody =>
    cases hbody
    cases hstmt with
    | output ho hx hc => exact ⟨_, _, _, List.append_nil _, hx⟩

/-- All tokens between `{{` and `}}` that are read as an expression open at least as many
parentheses as its canonical text, apart from those around filters that are objects of attributes.
-/
theorem openParens_text_le {x y : Expr} (hx : x.Spellable) {o c : Token} {ts : List Token}
    {pos : Position} (ho : o.kind = .punctuation .outputOpen)
    (hc : c.kind = .punctuation .outputClose)
    (hparse : parse (o :: (ts ++ [c])) = ⟨[.output pos y], []⟩) (herase : y.erase = x.erase) :
    openParens ((tokenize x.text).map Token.kind) ≤
      openParens (ts.map Token.kind) + x.filterAttrs := by
  obtain ⟨o', us, c', htokens, hy⟩ := exists_derives_of_parse hparse
  have hle := hy.parens_add_le
  have hlexemes : y.parens = x.parens := by
    rw [Expr.parens, ← Expr.lexemes_erase, herase, Expr.lexemes_erase, Expr.parens]
  have hattrs : y.filterAttrs = x.filterAttrs := by
    rw [← Expr.filterAttrs_erase, herase, Expr.filterAttrs_erase]
  have hsublist : (us.map Token.kind).Sublist ((o :: (ts ++ [c])).map Token.kind) := by
    refine List.Sublist.map _ (.trans ?_ (List.takeWhile_sublist (·.kind ≠ .eof)))
    rw [htokens]
    exact (List.sublist_append_left us [c']).cons o'
  have hall := openParens_le_of_sublist hsublist
  simp only [List.map_cons, List.map_append, List.map_nil, openParens_cons, openParens_append,
    openParens_nil, ho, hc] at hall
  rw [Expr.openParens_text hx, ← hlexemes, ← hattrs]
  simp at hall
  omega

/-- `(a - (b - c)) | f.d`, which is written `((a - (b - c)) | f).d`. -/
theorem openParens_text_le_difference :
    let name (text : String) : Token := ⟨.ident, text, .first⟩
    let sign (o : Operator) : Token := ⟨.operator o, o.spelling, .first⟩
    let mark (p : Punctuation) : Token := ⟨.punctuation p, p.spelling, .first⟩
    let x : Expr := .attr .first (.filter .first (.binary .first .sub (.ident .first "a")
      (.binary .first .sub (.ident .first "b") (.ident .first "c"))) "f") "d"
    let ts := [mark .parenOpen, name "a", sign .minus, mark .parenOpen, name "b", sign .minus,
      name "c", mark .parenClose, mark .parenClose, sign .pipe, name "f", sign .dot, name "d"]
    x.Spellable ∧
      parse (mark .outputOpen :: (ts ++ [mark .outputClose])) = ⟨[.output .first x], []⟩ ∧
      openParens (ts.map Token.kind) = 2 ∧ x.filterAttrs = 1 ∧
      openParens ((tokenize x.text).map Token.kind) ≤ 3 := by
  intro name sign mark x ts
  have ha : IsName "a" := by decide
  have hb : IsName "b" := by decide
  have hc : IsName "c" := by decide
  have hf : IsName "f" := by decide
  have hd : IsName "d" := by decide
  have hx : x.Spellable := ⟨⟨⟨ha, hb, hc⟩, hf⟩, hd⟩
  have hparse : parse (mark .outputOpen :: (ts ++ [mark .outputClose])) =
      ⟨[.output .first x], []⟩ := by rfl
  exact ⟨hx, hparse, rfl, rfl, openParens_text_le hx rfl rfl hparse rfl⟩

end Templates
