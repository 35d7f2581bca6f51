import Templates.Canonical
import Templates.Proofs.SpellableReading
import Templates.Proofs.TextReading

/-!
# The canonical form is a fixpoint

`canonical` takes a canonical text to itself (`canonical_self`). What remains of a text with syntax
errors is a template as well, and its `Template.text` is read without errors, since the reader only
builds trees that are `BodySpellable` (`bodySpellable_parseSource`). As the template that is read
back does not depend on the style, `canonical style` followed by `canonical style'` is `canonical
style'` (`canonical_fixpoint`).

`Template.text` does not depend on positions (`Template.text_congr`), so it is enough that
`parseSource` gives a template back up to `eraseBody`.
-/

namespace Templates

/-! ## Positions leave no trace in the text -/

theorem Expr.precedence_erase (x : Expr) : x.erase.precedence = x.precedence := by
  cases x <;> rfl

theorem Expr.text_erase (x : Expr) : x.erase.text = x.text := by
  induction x with
  | ident | int | str | bool | null => rfl
  | unary _ op x ih => simp [erase, text, ih, precedence_erase]
  | binary _ op l r ihl ihr => simp [erase, text, ihl, ihr, precedence_erase]
  | attr _ x name ih => simp [erase, text, ih, precedence_erase]
  | filter _ x name ih => simp [erase, text, ih, precedence_erase]

theorem Expr.leadsWithMinus_erase (x : Expr) : x.erase.leadsWithMinus = x.leadsWithMinus := by
  induction x with
  | ident | int | str | bool | null => rfl
  | unary _ op x => cases op <;> rfl
  | binary _ op l r ihl => simp [erase, leadsWithMinus, ihl, precedence_erase]
  | attr _ x name ih => simp [erase, leadsWithMinus, ih, precedence_erase]
  | filter _ x name ih => simp [erase, leadsWithMinus, ih, precedence_erase]

theorem blockTag_erase (name : Option Name) : blockTag (name.map Name.erase) = blockTag name := by
  cases name <;> rfl

mutual

theorem Stmt.rows_erase (style : Style) : ∀ (s : Stmt) (depth : Nat) (afterBare : Bool),
    s.erase.rows style depth afterBare = s.rows style depth afterBare
  | .set _ name value, _, _ => by
    simp [Stmt.erase, Stmt.rows, setHead, Name.erase, value.text_erase]
  | .cond _ condition body rest, depth, _ => by
    simp [Stmt.erase, Stmt.rows, condition.text_erase, bodyRows_eraseBody style body,
      rest.rows_erase style depth]
  | .loop _ item sequence body, _, _ => by
    simp [Stmt.erase, Stmt.rows, loopHead, Name.erase, sequence.text_erase,
      bodyRows_eraseBody style body]
  | .block _ name body, _, _ => by
    simp [Stmt.erase, Stmt.rows, blockTag_erase, bodyRows_eraseBody style body]
  | .output _ value, _, _ => by
    simp [Stmt.erase, Stmt.rows, outputTag, value.text_erase]
  | .bare value, _, _ => by
    simp [Stmt.erase, Stmt.rows, bareText, value.text_erase, value.leadsWithMinus_erase]

theorem Branches.rows_erase (style : Style) : ∀ (b : Branches) (depth : Nat),
    b.erase.rows style depth = b.rows style depth
  | .done, _ => rfl
  | .otherwise body, _ => by
    simp [Branches.erase, Branches.rows, bodyRows_eraseBody style body]
  | .elseIf condition body rest, depth => by
    simp [Branches.erase, Branches.rows, condition.text_erase, bodyRows_eraseBody style body,
      rest.rows_erase style depth]

theorem bodyRows_eraseBody (style : Style) : ∀ (body : List Stmt) (depth : Nat) (afterBare : Bool),
    bodyRows style depth afterBare (eraseBody body) = bodyRows style depth afterBare body
  | [], _, _ => rfl
  | s :: ss, depth, afterBare => by
    rw [eraseBody, bodyRows, bodyRows, s.rows_erase, s.isBare_erase, bodyRows_eraseBody style ss]

end

/-- Templates that are equal up to positions have the same text. -/
theorem Template.text_congr (style : Style) {t t' : Template} (h : eraseBody t = eraseBody t') :
    Template.text style t = Template.text style t' := by
  have hrows : Template.rows style t = Template.rows style t' := by
    unfold Template.rows
    rw [← bodyRows_eraseBody style t, h, bodyRows_eraseBody style t']
  unfold Template.text
  rw [hrows]

/-! ## Reading and writing again -/

/-- The `Template.text` of what `parseSource` reads, in any style, is read without errors, as a
template `t` with the same texts. -/
theorem exists_reparse (style : Style) (source : String) :
    ∃ t, parseSource (Template.text style (parseSource source).template) = ⟨t, []⟩ ∧
      ∀ style', Template.text style' t = Template.text style' (parseSource source).template := by
  obtain ⟨t, hparse, herase⟩ := exists_parseSource_text style (bodySpellable_parseSource source)
  exact ⟨t, hparse, fun style' => Template.text_congr style' herase⟩

theorem canonical_eq_ok {source : String} {t : Template} (h : parseSource source = ⟨t, []⟩)
    (style : Style) : canonical style source = .ok (Template.text style t) := by
  simp [canonical, readTemplate, h, Except.map]

theorem canonical_eq_error {source : String} (h : (parseSource source).errors ≠ [])
    (style : Style) : canonical style source = .error ⟨(parseSource source).errors⟩ := by
  simp [canonical, readTemplate, h, Except.map]

/-- `canonical style` takes its results to themselves. -/
theorem canonical_self {style : Style} {source text : String}
    (h : canonical style source = .ok text) : canonical style text = .ok text := by
  by_cases herr : (parseSource source).errors = []
  · have hsource : parseSource source = ⟨(parseSource source).template, []⟩ := by rw [← herr]
    rw [canonical_eq_ok hsource style] at h
    obtain ⟨t, hparse, htext⟩ := exists_reparse style source
    obtain rfl := Except.ok.inj h
    rw [canonical_eq_ok hparse style, htext style]
  · rw [canonical_eq_error herr style] at h
    cases h

/-- For every source text, with syntax errors or without: the `Template.text` of its template is
read without errors, and the template that is read there has the same text in every style;
`canonical` succeeds if and only if there are no errors; and `canonical style` followed by
`canonical style'` is `canonical style'`. -/
theorem canonical_fixpoint (source : String) (style style' : Style) :
    (parseSource (Template.text style (parseSource source).template)).errors = [] ∧
      Template.text style'
          (parseSource (Template.text style (parseSource source).template)).template =
        Template.text style' (parseSource source).template ∧
      (canonical style source).isOk = (parseSource source).errors.isEmpty ∧
      (canonical style source >>= canonical style') = canonical style' source := by
  obtain ⟨t, hparse, htext⟩ := exists_reparse style source
  refine ⟨by rw [hparse], by rw [hparse, htext], ?_⟩
  by_cases herr : (parseSource source).errors = []
  · have hsource : parseSource source = ⟨(parseSource source).template, []⟩ := by rw [← herr]
    rw [canonical_eq_ok hsource style, canonical_eq_ok hsource style', herr]
    refine ⟨rfl, ?_⟩
    rw [← htext style']
    exact canonical_eq_ok hparse style'
  -- A text with errors is refused in both styles, with the same errors.
  · rw [canonical_eq_error herr style, canonical_eq_error herr style']
    exact ⟨by simpa [Except.isOk, Except.toBool] using herr, rfl⟩

end Templates
