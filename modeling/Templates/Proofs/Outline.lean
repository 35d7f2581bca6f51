import Templates.Proofs.LineWriter
import Templates.Proofs.NamedTrees

/-!
# Outline of a template

Independently of any style, a template is a list of marks (`Template.outline`): one `Mark` for each
tag and each bare expression, in order, `Placed` inside the bodies around it. The outline is put
together from the inside: a body knows nothing of its depth, and the tags around it add one body to
each of its marks.

`bodyRows_eq_marks` compares the outline with `bodyRows`, where the depth is passed down instead,
and `Template.print_eq_text` ties the rows to a `LineWriter`, which counts the depth while it
writes. Together: `Template.print` writes every mark on a line of its own, indented by
`Placed.depth` (`Template.print_eq_outline`). `Mark.text` does not depend on the style and satisfies
`FitsRow`: it is not empty, begins with something other than a space and holds no line feed,
carriage return or tab, also where a string literal has such a character in its value.
-/

namespace Templates

/-! ## Marks -/

/-- A tag or a bare expression: the content of one line of the canonical form. -/
inductive Mark
  | set (name : Name) (value : Expr)
  | output (value : Expr)
  /-- `afterBare` tells that it follows another one. -/
  | bare (afterBare : Bool) (value : Expr)
  | if_ (condition : Expr)
  | elif (condition : Expr)
  | else_
  | endif
  | for_ (item : Name) (sequence : Expr)
  | endfor
  | block (name : Option Name)
  | endblock

namespace Mark

/-- The text of the mark. -/
def text : Mark → String
  | set name value => headTag .set (setHead name value)
  | output value => outputTag value
  | bare afterBare value => bareText afterBare value
  | if_ condition => headTag .if_ condition.text
  | elif condition => headTag .elif condition.text
  | else_ => wordTag .else_
  | endif => wordTag .endif
  | for_ item sequence => headTag .for_ (loopHead item sequence)
  | endfor => wordTag .endfor
  | block name => blockTag name
  | endblock => wordTag .endblock

/-- Every name in the mark is one. -/
def Named : Mark → Prop
  | set name value => IsName name.text ∧ value.Named
  | output value | bare _ value => value.Named
  | if_ condition | elif condition => condition.Named
  | for_ item sequence => IsName item.text ∧ sequence.Named
  | block name => ∀ n ∈ name, IsName n.text
  | else_ | endif | endfor | endblock => True

end Mark

/-- A mark with the bodies around it. -/
structure Placed where
  mark : Mark
  /-- The number of bodies of branches and loops around the mark. -/
  bodies : Nat := 0
  /-- The number of bodies of blocks around the mark. -/
  blocks : Nat := 0

namespace Placed

/-- The same mark inside one more body of a branch or a loop. -/
def inBody (p : Placed) : Placed := { p with bodies := p.bodies + 1 }

/-- The same mark inside one more body of a block. -/
def inBlock (p : Placed) : Placed := { p with blocks := p.blocks + 1 }

/-- The number of bodies around the mark that the style shows. -/
def depth (style : Style) (p : Placed) : Nat :=
  p.bodies + if style.indentBlocks then p.blocks else 0

/-- The row of a mark in a text that has a depth itself. -/
def row (style : Style) (depth : Nat) (p : Placed) : Row := ⟨depth + p.depth style, p.mark.text⟩

theorem row_inBody (style : Style) (depth : Nat) (p : Placed) :
    p.inBody.row style depth = p.row style (depth + 1) := by
  have hdepth : depth + p.inBody.depth style = depth + 1 + p.depth style := by
    simp only [Placed.depth, inBody]
    omega
  unfold row
  rw [hdepth]
  rfl

theorem row_inBlock (style : Style) (depth : Nat) (p : Placed) :
    p.inBlock.row style depth =
      p.row style (if style.indentBlocks then depth + 1 else depth) := by
  have hdepth : depth + p.inBlock.depth style =
      (if style.indentBlocks then depth + 1 else depth) + p.depth style := by
    simp only [Placed.depth, inBlock]
    split <;> omega
  unfold row
  rw [hdepth]
  rfl

end Placed

/-! ## The outline of a tree -/

mutual

/-- The marks of a statement. -/
def Stmt.marks (afterBare : Bool) : Stmt → List Placed
  | .set _ name value => [{ mark := .set name value }]
  | .cond _ condition body rest =>
    { mark := .if_ condition } :: ((bodyMarks false body).map .inBody ++ rest.marks)
  | .loop _ item sequence body =>
    { mark := .for_ item sequence } ::
      ((bodyMarks false body).map .inBody ++ [{ mark := .endfor }])
  | .block _ name body =>
    { mark := .block name } :: ((bodyMarks false body).map .inBlock ++ [{ mark := .endblock }])
  | .output _ value => [{ mark := .output value }]
  | .bare value => [{ mark := .bare afterBare value }]

/-- The marks of the branches of a conditional behind one of them. -/
def Branches.marks : Branches → List Placed
  | .done => [{ mark := .endif }]
  | .otherwise body =>
    { mark := .else_ } :: ((bodyMarks false body).map .inBody ++ [{ mark := .endif }])
  | .elseIf condition body rest =>
    { mark := .elif condition } :: ((bodyMarks false body).map .inBody ++ rest.marks)

/-- The marks of a body; `afterBare` tells that it follows a bare expression. -/
def bodyMarks (afterBare : Bool) : List Stmt → List Placed
  | [] => []
  | s :: ss => s.marks afterBare ++ bodyMarks s.isBare ss

end

/-- The marks of a template. -/
def Template.outline (t : Template) : List Placed := bodyMarks false t

section Rows

variable (style : Style)

theorem map_row_inBody (depth : Nat) (ps : List Placed) :
    (ps.map .inBody).map (Placed.row style depth) = ps.map (Placed.row style (depth + 1)) := by
  rw [List.map_map]
  exact List.map_congr_left fun p _ => p.row_inBody style depth

theorem map_row_inBlock (depth : Nat) (ps : List Placed) :
    (ps.map .inBlock).map (Placed.row style depth) =
      ps.map (Placed.row style (if style.indentBlocks then depth + 1 else depth)) := by
  rw [List.map_map]
  exact List.map_congr_left fun p _ => p.row_inBlock style depth

theorem row_outermost (depth : Nat) (m : Mark) :
    Placed.row style depth { mark := m } = ⟨depth, m.text⟩ := by
  simp [Placed.row, Placed.depth]

mutual

theorem Stmt.rows_eq_marks : ∀ (s : Stmt) (depth : Nat) (afterBare : Bool),
    s.rows style depth afterBare = (s.marks afterBare).map (Placed.row style depth)
  | .set .., _, _ | .output .., _, _ | .bare _, _, _ => by
    simp only [Stmt.rows, Stmt.marks, List.map_cons, List.map_nil, row_outermost, Mark.text]
  | .cond _ condition body rest, depth, _ => by
    rw [Stmt.rows, Stmt.marks, bodyRows_eq_marks body, rest.rows_eq_marks, List.map_cons,
      List.map_append, map_row_inBody, row_outermost, Mark.text]
  | .loop _ item sequence body, depth, _ => by
    rw [Stmt.rows, Stmt.marks, bodyRows_eq_marks body, List.map_cons, List.map_append,
      map_row_inBody, List.map_singleton, row_outermost, row_outermost, Mark.text, Mark.text]
  | .block _ name body, depth, _ => by
    rw [Stmt.rows, Stmt.marks, bodyRows_eq_marks body, List.map_cons, List.map_append,
      map_row_inBlock, List.map_singleton, row_outermost, row_outermost, Mark.text, Mark.text]

theorem Branches.rows_eq_marks : ∀ (rest : Branches) (depth : Nat),
    rest.rows style depth = rest.marks.map (Placed.row style depth)
  | .done, _ => by
    rw [Branches.rows, Branches.marks, List.map_singleton, row_outermost, Mark.text]
  | .otherwise body, depth => by
    rw [Branches.rows, Branches.marks, bodyRows_eq_marks body, List.map_cons, List.map_append,
      map_row_inBody, List.map_singleton, row_outermost, row_outermost, Mark.text, Mark.text]
  | .elseIf condition body rest, depth => by
    rw [Branches.rows, Branches.marks, bodyRows_eq_marks body, rest.rows_eq_marks, List.map_cons,
      List.map_append, map_row_inBody, row_outermost, Mark.text]

/-- The rows of a body are its marks, each at its depth. -/
theorem bodyRows_eq_marks : ∀ (body : List Stmt) (depth : Nat) (afterBare : Bool),
    bodyRows style depth afterBare body = (bodyMarks afterBare body).map (Placed.row style depth)
  | [], _, _ => rfl
  | s :: ss, depth, afterBare => by
    rw [bodyRows, bodyMarks, s.rows_eq_marks, bodyRows_eq_marks ss, List.map_append]

end

end Rows

mutual

theorem Stmt.named_marks : ∀ (s : Stmt) (afterBare : Bool), s.Named →
    ∀ p ∈ s.marks afterBare, p.mark.Named
  | .set .., _, h | .output .., _, h | .bare _, _, h => by
    simp only [Stmt.marks, List.forall_mem_singleton]
    exact h
  | .cond _ condition body rest, _, h => by
    simp only [Stmt.marks, List.forall_mem_cons, List.forall_mem_append, List.forall_mem_map]
    exact ⟨h.1, named_bodyMarks body false h.2.1, rest.named_marks h.2.2⟩
  | .loop _ item sequence body, _, h => by
    simp only [Stmt.marks, List.forall_mem_cons, List.forall_mem_append, List.forall_mem_map]
    exact ⟨⟨h.1, h.2.1⟩, named_bodyMarks body false h.2.2, trivial, List.forall_mem_nil _⟩
  | .block _ name body, _, h => by
    simp only [Stmt.marks, List.forall_mem_cons, List.forall_mem_append, List.forall_mem_map]
    exact ⟨h.1, named_bodyMarks body false h.2, trivial, List.forall_mem_nil _⟩

theorem Branches.named_marks : ∀ (rest : Branches), rest.Named → ∀ p ∈ rest.marks, p.mark.Named
  | .done, _ => List.forall_mem_singleton.mpr trivial
  | .otherwise body, h => by
    simp only [Branches.marks, List.forall_mem_cons, List.forall_mem_append, List.forall_mem_map]
    exact ⟨trivial, named_bodyMarks body false h, trivial, List.forall_mem_nil _⟩
  | .elseIf condition body rest, h => by
    simp only [Branches.marks, List.forall_mem_cons, List.forall_mem_append, List.forall_mem_map]
    exact ⟨h.1, named_bodyMarks body false h.2.1, rest.named_marks h.2.2⟩

theorem named_bodyMarks : ∀ (body : List Stmt) (afterBare : Bool), BodyNamed body →
    ∀ p ∈ bodyMarks afterBare body, p.mark.Named
  | [], _, _ => List.forall_mem_nil _
  | s :: ss, afterBare, h => by
    rw [bodyMarks, List.forall_mem_append]
    exact ⟨s.named_marks afterBare h.1, named_bodyMarks ss s.isBare h.2⟩

end

/-! ## The text of a mark -/

/-- The text fits on a line behind an indentation: it is not empty, does not begin with a space and
has no line feed, carriage return or tab. -/
structure FitsRow (text : String) : Prop where
  ne_empty : text ≠ ""
  head : text.toList.head? ≠ some ' '
  plain : ∀ c ∈ ['\n', '\r', '\t'], c ∉ text.toList

theorem FitsRow.append {a b : String} (ha : FitsRow a)
    (hb : ∀ c ∈ ['\n', '\r', '\t'], c ∉ b.toList) : FitsRow (a ++ b) := by
  refine ⟨?_, ?_, ?_⟩
  · intro hempty
    exact ha.ne_empty (String.append_eq_empty_iff.mp hempty).1
  · have hne : a.toList ≠ [] := by simpa using ha.ne_empty
    obtain ⟨d, ds, hds⟩ := List.exists_cons_of_ne_nil hne
    have hd := ha.head
    rw [hds] at hd
    rw [String.toList_append, hds]
    exact hd
  · intro c hc
    rw [String.toList_append, List.mem_append, not_or]
    exact ⟨ha.plain c hc, hb c hc⟩

theorem FitsRow.spaced {a b : String} (ha : FitsRow a) (hb : FitsRow b) :
    FitsRow (a ++ " " ++ b) := by
  have hspace : ∀ c ∈ ['\n', '\r', '\t'], c ∉ (" " : String).toList := by
    intro c hc hmem
    obtain rfl := List.mem_singleton.mp hmem
    exact absurd hc (by decide)
  exact (ha.append hspace).append hb.plain

/-- A text of characters that are no blanks fits. -/
theorem fitsRow_of_all {text : String} (p : Char → Bool)
    (hp : [' ', '\n', '\r', '\t'].all (fun c => !p c) = true) (hne : text ≠ "")
    (h : text.toList.all p = true) : FitsRow text := by
  have hblank : ∀ c ∈ [' ', '\n', '\r', '\t'], c ∉ text.toList := by
    intro c hc hmem
    have hnot := List.all_eq_true.mp hp c hc
    rw [List.all_eq_true.mp h c hmem] at hnot
    cases hnot
  refine ⟨hne, ?_, fun c hc => hblank c (List.mem_cons_of_mem _ hc)⟩
  intro hhead
  exact hblank ' ' List.mem_cons_self (List.mem_of_head? hhead)

theorem fitsRow_of_isWord {word : String} (h : IsWord word.toList) : FitsRow word := by
  have hne : word ≠ "" := by
    rintro rfl
    obtain ⟨c, cs, hcs, -⟩ := h
    cases hcs
  exact fitsRow_of_all Cut.continuesName (by decide) hne (List.all_eq_true.mpr h.continuesName)

theorem fitsRow_keyword (k : Keyword) : FitsRow k.spelling := fitsRow_of_isWord (isWord_spelling k)

theorem fitsRow_operator (o : Operator) : FitsRow o.spelling :=
  fitsRow_of_all (fun c => c ∉ [' ', '\n', '\r', '\t']) (by decide) (by cases o <;> decide)
    (by cases o <;> decide)

theorem fitsRow_punctuation (p : Punctuation) : FitsRow p.spelling :=
  fitsRow_of_all (fun c => c ∉ [' ', '\n', '\r', '\t']) (by decide) (by cases p <;> decide)
    (by cases p <;> decide)

theorem fitsRow_toString (n : Int) : FitsRow (toString n) := by
  have hdigits : (Nat.toDigits 10 n.natAbs).all (fun c => c.isDigit || c = '-') = true := by
    refine List.all_eq_true.mpr fun c hc => ?_
    rw [IntLiteral.isDigit_of_mem_toDigits_ten c hc, Bool.true_or]
  have hall : (toString n).toList.all (fun c => c.isDigit || c = '-') = true := by
    rw [IntLiteral.toList_toString, List.all_append, hdigits, Bool.and_true]
    split <;> rfl
  have hne : toString n ≠ "" := by
    intro hempty
    have htext := IntLiteral.toList_toString n
    rw [hempty] at htext
    exact Nat.toDigits_ne_nil (List.append_eq_nil_iff.mp htext.symm).2
  exact fitsRow_of_all (fun c => c.isDigit || c = '-') (by decide) hne hall

/-- A literal writes these characters with a backslash and a letter. -/
theorem StringLiteral.not_mem_escape {d : Char} (hd : d ∈ ['\n', '\r', '\t']) (c : Char) :
    d ∉ escape c := by
  have hcases : d = '\n' ∨ d = '\r' ∨ d = '\t' := by simpa using hd
  unfold escape
  split
  case h_6 hfeed htab hreturn =>
    intro hmem
    obtain rfl := List.mem_singleton.mp hmem
    rcases hcases with hc | hc | hc
    · exact hfeed hc
    · exact hreturn hc
    · exact htab hc
  all_goals rcases hcases with rfl | rfl | rfl <;> decide

theorem fitsRow_quote (value : String) : FitsRow (StringLiteral.quote value) := by
  refine ⟨?_, ?_, ?_⟩
  · intro hempty
    have := congrArg String.toList hempty
    simp [StringLiteral.quote] at this
  · simp [StringLiteral.quote]
  · intro c hc
    have hquote : c ≠ '"' := by
      rintro rfl
      revert hc
      decide
    simp [StringLiteral.quote, hquote, StringLiteral.not_mem_escape hc]

theorem FitsRow.wrap {a : String} (ha : FitsRow a) (parens : Bool) :
    FitsRow (Expr.wrap parens a) := by
  cases parens with
  | false => exact ha
  | true =>
    have hclose := fitsRow_punctuation .parenClose
    exact ((fitsRow_punctuation .parenOpen).append ha.plain).append hclose.plain

theorem Expr.fitsRow_text {x : Expr} (h : x.Named) : FitsRow x.text := by
  induction x with
  | ident _ name => exact fitsRow_of_isWord h.1
  | int _ value => exact fitsRow_toString _
  | str _ value => exact fitsRow_quote value
  | bool _ b => exact fitsRow_keyword _
  | null => exact fitsRow_keyword _
  | unary _ op x ih => exact (fitsRow_operator _).append ((ih h).wrap _).plain
  | binary _ op l r ihl ihr =>
    exact (((ihl h.1).wrap _).spaced (fitsRow_operator op.sign)).spaced ((ihr h.2).wrap _)
  | attr _ x name ih =>
    exact (((ih h.1).wrap _).append (fitsRow_operator .dot).plain).append
      (fitsRow_of_isWord h.2.1).plain
  | filter _ x name ih =>
    exact (((ih h.1).wrap _).spaced (fitsRow_operator .pipe)).spaced (fitsRow_of_isWord h.2.1)

theorem fitsRow_wordTag (word : Keyword) : FitsRow (wordTag word) :=
  ((fitsRow_punctuation .tagOpen).spaced (fitsRow_keyword word)).spaced
    (fitsRow_punctuation .tagClose)

theorem fitsRow_headTag (word : Keyword) {head : String} (h : FitsRow head) :
    FitsRow (headTag word head) :=
  (((fitsRow_punctuation .tagOpen).spaced (fitsRow_keyword word)).spaced h).spaced
    (fitsRow_punctuation .tagClose)

theorem Mark.fitsRow_text {m : Mark} (h : m.Named) : FitsRow m.text := by
  cases m with
  | set name value =>
    have hname := fitsRow_of_isWord h.1.1
    have hhead := (hname.spaced (fitsRow_operator .assign)).spaced (Expr.fitsRow_text h.2)
    exact fitsRow_headTag .set hhead
  | output value =>
    have hvalue := Expr.fitsRow_text (x := value) h
    exact ((fitsRow_punctuation .outputOpen).spaced hvalue).spaced
      (fitsRow_punctuation .outputClose)
  | bare afterBare value => exact (Expr.fitsRow_text (x := value) h).wrap _
  | if_ condition => exact fitsRow_headTag .if_ (Expr.fitsRow_text (x := condition) h)
  | elif condition => exact fitsRow_headTag .elif (Expr.fitsRow_text (x := condition) h)
  | for_ item sequence =>
    have hitem := fitsRow_of_isWord h.1.1
    have hhead := (hitem.spaced (fitsRow_keyword .in_)).spaced (Expr.fitsRow_text h.2)
    exact fitsRow_headTag .for_ hhead
  | block name =>
    cases name with
    | none => exact fitsRow_wordTag .block
    | some n => exact fitsRow_headTag .block (fitsRow_of_isWord (h n rfl).1)
  | else_ | endif | endfor | endblock => exact fitsRow_wordTag _

theorem Template.fitsRow_outline {t : Template} (h : BodyNamed t) :
    ∀ p ∈ t.outline, FitsRow p.mark.text :=
  fun p hp => Mark.fitsRow_text (named_bodyMarks t false h p hp)

/-! ## The text -/

theorem Row.line_of_ne_empty (style : Style) (r : Row) (h : r.text ≠ "") :
    r.line style =
      String.ofList (List.replicate (r.depth * style.indentWidth) ' ') ++ r.text ++ "\n" := by
  have hempty : r.text.isEmpty = false := by simpa using h
  rw [Row.line, hempty]
  rfl

theorem Template.text_eq_join_outline {t : Template} (h : BodyNamed t) (style : Style) :
    Template.text style t = String.join (t.outline.map fun p =>
      String.ofList (List.replicate (p.depth style * style.indentWidth) ' ') ++ p.mark.text ++
        "\n") := by
  have hrows : Template.rows style t = t.outline.map (Placed.row style 0) :=
    bodyRows_eq_marks style t 0 false
  rw [Template.text_eq_join, hrows, List.map_map]
  congr 1
  refine List.map_congr_left fun p hp => ?_
  have hfits := Template.fitsRow_outline h p hp
  have hline := (p.row style 0).line_of_ne_empty style hfits.ne_empty
  rw [Placed.row, Nat.zero_add] at hline
  rw [Function.comp_apply, Placed.row, Nat.zero_add]
  exact hline

/-- `Template.print` and `Template.text` write the marks of the outline in order, each on a line of
its own: `indentWidth` spaces for each step of `Placed.depth`, then `Mark.text` and a line feed. -/
theorem Template.print_eq_outline {t : Template} (h : BodyNamed t) :
    (∀ style, Template.print style t = String.join (t.outline.map fun p =>
        String.ofList (List.replicate (p.depth style * style.indentWidth) ' ') ++ p.mark.text ++
          "\n") ∧
      Template.text style t = Template.print style t) ∧
      ∀ p ∈ t.outline, FitsRow p.mark.text := by
  refine ⟨?_, Template.fitsRow_outline h⟩
  intro style
  have htext := Template.print_eq_text style t
  exact ⟨htext.trans (Template.text_eq_join_outline h style), htext.symm⟩

/-- A template with every kind of body, a negative number, a tabulator in a literal and two bare
expressions that must not be joined. -/
def guardedTemplate : Template :=
  [.block .first (some ⟨"main", .first⟩)
    [.cond .first (.ident .first "a")
      [.set .first ⟨"b", .first⟩ (.int .first (-7))]
      (.elseIf (.attr .first (.str .first "\t") "size")
        [.bare (.ident .first "b"), .bare (.unary .first .neg (.ident .first "a"))]
        (.otherwise
          [.loop .first ⟨"x", .first⟩ (.filter .first (.ident .first "a") "b")
            [.output .first (.ident .first "x")]]))]]

theorem bodyNamed_guardedTemplate : BodyNamed guardedTemplate := by
  have ha : IsName "a" := by decide
  have hb : IsName "b" := by decide
  have hx : IsName "x" := by decide
  have hmain : IsName "main" := by decide
  have hsize : IsName "size" := by decide
  simp [guardedTemplate, BodyNamed, Stmt.Named, Branches.Named, Expr.Named, *]

theorem print_eq_outline_guardedTemplate :
    BodyNamed guardedTemplate ∧
      guardedTemplate.outline.map (Placed.depth ⟨2, false⟩) = [0, 0, 1, 0, 1, 1, 0, 1, 2, 1, 0, 0] ∧
      guardedTemplate.outline.map (Placed.depth ⟨2, true⟩) = [0, 1, 2, 1, 2, 2, 1, 2, 3, 2, 1, 0] ∧
      Template.print ⟨2, true⟩ guardedTemplate = String.join (guardedTemplate.outline.map fun p =>
        String.ofList (List.replicate (p.depth ⟨2, true⟩ * 2) ' ') ++ p.mark.text ++ "\n") ∧
      Template.text ⟨2, true⟩ guardedTemplate = Template.print ⟨2, true⟩ guardedTemplate ∧
      ∀ p ∈ guardedTemplate.outline, FitsRow p.mark.text := by
  have houtline := Template.print_eq_outline bodyNamed_guardedTemplate
  have hstyle := houtline.1 ⟨2, true⟩
  exact ⟨bodyNamed_guardedTemplate, by decide, by decide, hstyle.1, hstyle.2, houtline.2⟩

end Templates
