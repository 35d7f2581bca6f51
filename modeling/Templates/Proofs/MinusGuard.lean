import Templates.Proofs.TextReading

/-!
# The guard in front of a minus sign

`bareText` puts an expression behind another bare one in parentheses if it leads with a minus sign.
`Expr.leadsWithMinus` decides that from the tree: it goes down the left operands as long as they
have no parentheses. Here it is compared with the text. `Expr.text` begins with a minus sign if and
only if `leadsWithMinus` says so (`Expr.head?_text_eq_minus_iff`), and the line of a bare expression
begins with an operator between operands if and only if the expression leads with a minus sign and
is not guarded (`exists_tokenize_bareText`). So the guard is there wherever two lines would be read
as one difference, and nowhere else.
-/

namespace Templates

/-! ## The first character of an expression -/

namespace Expr

theorem head?_wrap_append {a : String} (ha : HasHead a) (parens : Bool) (b : String) :
    (wrap parens a ++ b).toList.head? = if parens then some '(' else a.toList.head? := by
  cases parens with
  | true => simp [wrap, Punctuation.spelling]
  | false =>
    have hne : a.toList ≠ [] := by simpa using ha.1
    obtain ⟨c, cs, hcs⟩ := List.exists_cons_of_ne_nil hne
    simp [wrap, hcs]

/-- The parentheses and the text of a left operand decide, whatever the text behind it is. -/
theorem head?_operand_append_eq_minus_iff {x : Expr} (h : x.Spellable) (p : Precedence) (b : String)
    (ih : x.text.toList.head? = some '-' ↔ x.leadsWithMinus = true) :
    (wrap (x.precedence < p) x.text ++ b).toList.head? = some '-' ↔
      (p ≤ x.precedence && x.leadsWithMinus) = true := by
  rw [head?_wrap_append (hasHead_text h)]
  by_cases hlt : x.precedence < p
  · have hle : ¬ p ≤ x.precedence := Nat.not_le_of_lt hlt
    simp [hlt, hle]
  · have hle : p ≤ x.precedence := Nat.le_of_not_lt hlt
    simp [hlt, hle, ih]

theorem head?_ne_minus_of_isWord {word : String} (h : IsWord word.toList) :
    word.toList.head? ≠ some '-' :=
  fun hminus => h.not_mem (by decide) (List.mem_of_mem_head? hminus)

/-- `Expr.text` begins with a minus sign if and only if `leadsWithMinus` says so. -/
theorem head?_text_eq_minus_iff {x : Expr} (h : x.Spellable) :
    x.text.toList.head? = some '-' ↔ x.leadsWithMinus = true := by
  -- Only the left operand of an operation counts, so the right one has no part in the induction.
  induction x with
  | ident _ name => exact iff_of_false (head?_ne_minus_of_isWord h.1) Bool.false_ne_true
  | int _ value =>
    refine iff_of_false (fun hminus => ?_) Bool.false_ne_true
    rw [text, IntLiteral.toList_toString_toInt h] at hminus
    have hdigit := IntLiteral.isDigit_of_mem_toDigits_ten '-' (List.mem_of_mem_head? hminus)
    exact absurd hdigit (by decide)
  | str _ value => simp [text, leadsWithMinus, StringLiteral.quote]
  | bool _ b => exact iff_of_false (head?_ne_minus_of_isWord (isWord_spelling _)) Bool.false_ne_true
  | null => exact iff_of_false (head?_ne_minus_of_isWord (isWord_spelling _)) Bool.false_ne_true
  | unary _ op x =>
    cases op with
    | not => simp [text, leadsWithMinus, UnaryOp.sign, Operator.spelling]
    | neg => simp [text, leadsWithMinus, UnaryOp.sign, Operator.spelling]
  | binary _ op l r ihl =>
    simp only [text, String.append_assoc]
    exact head?_operand_append_eq_minus_iff h.1 op.precedence _ (ihl h.1)
  | attr _ x name ih =>
    simp only [text, String.append_assoc]
    exact head?_operand_append_eq_minus_iff h.1 .attr _ (ih h.1)
  | filter _ x name ih =>
    simp only [text, String.append_assoc]
    exact head?_operand_append_eq_minus_iff h.1 .filter _ (ih h.1)

/-- In `(-a - b) * c` a parenthesis is in front of the minus sign. -/
example :
    leadsWithMinus (.binary .first .mul
      (.binary .first .sub (.unary .first .neg (.ident .first "a")) (.ident .first "b"))
      (.ident .first "c")) = false := rfl

end Expr

/-! ## The first token of a bare expression -/

theorem Expr.exists_lexemes_eq_minus_cons {x : Expr} (h : x.Spellable)
    (hminus : x.leadsWithMinus = true) : ∃ ls, x.lexemes = .fixed (.operator .minus) :: ls := by
  obtain ⟨cs, hcs⟩ := List.head?_eq_some_iff.mp ((head?_text_eq_minus_iff h).mpr hminus)
  have htext := spells_text h [] (fun c hc => absurd hc (by simp))
  rw [List.append_nil, lexemes_nil, List.append_nil, hcs] at htext
  exact ⟨_, htext.symm.trans (lexemes_minus cs)⟩

/-- The first token of a bare expression is an operator between operands if and only if the
expression leads with a minus sign and is not guarded. -/
theorem Expr.exists_bareLexemes_eq_cons {x : Expr} (h : x.Spellable) (afterBare : Bool) :
    ∃ l ls, parenLexemes (afterBare && x.leadsWithMinus) x.lexemes = l :: ls ∧
      (l.kind.precedence? = none ↔ (x.leadsWithMinus = true → afterBare = true)) := by
  cases hminus : x.leadsWithMinus with
  | false =>
    obtain ⟨l, ls, hls, hl⟩ := head_lexemes hminus
    rw [Bool.and_false]
    exact ⟨l, ls, hls, iff_of_true hl (fun hfalse => absurd hfalse Bool.false_ne_true)⟩
  | true =>
    cases afterBare with
    | true => exact ⟨_, _, rfl, iff_of_true rfl fun _ => rfl⟩
    | false =>
      obtain ⟨ls, hls⟩ := exists_lexemes_eq_minus_cons h hminus
      exact ⟨_, ls, hls, iff_of_false (Option.some_ne_none _) fun hguard => nomatch hguard rfl⟩

/-- The first token on the line of a bare expression is an operator between operands if and only if
the expression leads with a minus sign and is not guarded, whatever the text behind the line is. -/
theorem exists_tokenize_bareText {x : Expr} (h : x.Spellable) (afterBare : Bool) (style : Style)
    (depth : Nat) (behind : String) :
    ∃ t ts, tokenize (Row.line style ⟨depth, bareText afterBare x⟩ ++ behind) = t :: ts ∧
      t.kind ≠ .eof ∧
      (t.kind.precedence? = none ↔ (x.leadsWithMinus = true → afterBare = true)) := by
  obtain ⟨l, ls, hls, hl⟩ := Expr.exists_bareLexemes_eq_cons h afterBare
  have hline := lexemes_line style ⟨depth, bareText afterBare x⟩ ((Expr.spells_text h).wrap _)
    behind.toList
  rw [← String.toList_append, hls, List.cons_append] at hline
  obtain ⟨t, ts, htokens, ht⟩ := exists_tokenize_eq_cons hline
  have hgenuine := genuine_of_mem_lexemes l (hline ▸ List.mem_cons_self)
  have hkind : t.kind = l.kind := congrArg Lexeme.kind ht
  exact ⟨t, ts, htokens, hkind ▸ hgenuine.2, hkind ▸ hl⟩

/-! ## The guard -/

/-- An expression that has been read with no parenthesis left open ends in front of the token. -/
def Token.EndsExpr (t : Token) : Prop :=
  ∀ pending x y, settle .lowest pending x = ([], y) →
    (ExprReader.complete pending x).step t = .done y

/-- The tokens that an expression can go on with are the operators between operands. -/
theorem Token.endsExpr_iff (t : Token) : t.EndsExpr ↔ t.kind.precedence? = none := by
  rw [← Joint.ofKind?_eq_none_iff]
  constructor
  · intro h
    have hdone := h [] (.null .first) (.null .first) (by simp [settle])
    cases hj : Joint.ofKind? t.kind with
    | none => rfl
    | some j => simp [ExprReader.step, ExprReader.readJoint, hj] at hdone
  · intro hj pending x y hsettle
    exact ExprReader.readJoint_of_settle_nil hj hsettle

/-- `leadsWithMinus` holds if and only if `Expr.text` begins with a minus sign. Behind another bare
expression, the line of `bareText` begins with a token that the other expression ends in front of.
-/
theorem leadsWithMinus_mirrors_text {x : Expr} (h : x.Spellable) :
    (x.leadsWithMinus = true ↔ x.text.toList.head? = some '-') ∧
      ∀ (style : Style) (depth : Nat) (behind : String), ∃ t ts,
        tokenize (Row.line style ⟨depth, bareText true x⟩ ++ behind) = t :: ts ∧
          t.kind ≠ .eof ∧ t.kind.precedence? = none ∧ t.EndsExpr := by
  refine ⟨(Expr.head?_text_eq_minus_iff h).symm, fun style depth behind => ?_⟩
  obtain ⟨t, ts, htokens, heof, hiff⟩ := exists_tokenize_bareText h true style depth behind
  have hnone : t.kind.precedence? = none := hiff.mpr fun _ => rfl
  exact ⟨t, ts, htokens, heof, hnone, t.endsExpr_iff.mpr hnone⟩

/-- The difference `(-a).b | f - c`, with three operations behind its minus sign. -/
theorem leadsWithMinus_mirrors_text_difference :
    let x : Expr := .binary .first .sub
      (.filter .first (.attr .first (.unary .first .neg (.ident .first "a")) "b") "f")
      (.ident .first "c")
    x.Spellable ∧ x.leadsWithMinus = true ∧ x.text.toList.head? = some '-' ∧
      bareText true x = "(-a.b | f - c)" ∧
      ∃ t ts, tokenize (Row.line ⟨2, false⟩ ⟨1, bareText true x⟩ ++ "d\n") = t :: ts ∧
        t.kind ≠ .eof ∧ t.kind.precedence? = none ∧ t.EndsExpr := by
  intro x
  have ha : IsName "a" := by decide
  have hb : IsName "b" := by decide
  have hf : IsName "f" := by decide
  have hc : IsName "c" := by decide
  have hx : x.Spellable := ⟨⟨⟨ha, hb⟩, hf⟩, hc⟩
  obtain ⟨hiff, hline⟩ := leadsWithMinus_mirrors_text hx
  have hminus : x.leadsWithMinus = true := rfl
  exact ⟨hx, hminus, hiff.mp hminus, rfl, hline ⟨2, false⟩ 1 "d\n"⟩

end Templates
