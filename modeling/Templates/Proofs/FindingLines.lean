import Mathlib.Data.List.Basic
import Templates.Proofs.NodeOrigins
import Templates.Proofs.SpellableReading
import Templates.Proofs.StructureChecks
import Templates.Proofs.TextLines
import Templates.Proofs.TokenTiling

/-!
# The lines of findings

A finding with a snippet shows the line that it names (`lintSource_snippets`). There are two ways to
number lines: `checkStructure` counts the lines of `textLines`, while a reference has the line of
the `Position` of its token, which counts the line feeds in front of it, those in strings and
comments included (`exists_place_of_ident`). They agree because a name has no line feed and no
carriage return (`exists_line_of_word`).

The undefined references come in the order of the text: they are a sublist of the nodes of the
template in the order of their positions (`Template.origins_undefined`), and these are at tokens.
-/

namespace Templates

/-! ## References in the order of the text -/

theorem Expr.origins_references (x : Expr) :
    (x.references.map Name.origin).Sublist x.origins := by
  induction x with
  | ident pos name => exact List.Sublist.refl _
  | int | str | bool | null => exact List.nil_sublist _
  | unary pos op x ih => exact ih.cons _
  | binary pos op l r ihl ihr =>
    rw [Expr.references_binary, List.map_append, Expr.origins]
    exact ihl.append (ihr.cons _)
  | attr pos x name ih | filter pos x name ih => exact ih.trans (List.sublist_append_left _ _)

namespace ScopeState

/-- The origins of the references that have been found, first one first. -/
def origins (s : ScopeState) : List Origin := s.undefined.reverse.map Name.origin

theorem origins_read (s : ScopeState) (x : Expr) :
    (s.read x).origins.Sublist (s.origins ++ x.origins) := by
  unfold origins read
  rw [List.reverse_append, List.reverse_reverse, List.map_append]
  have hfound : ((x.undefined s.seen).map Name.origin).Sublist x.origins :=
    (List.filter_sublist.map _).trans x.origins_references
  exact (List.Sublist.refl _).append hfound

theorem origins_trans {s s' s'' : ScopeState} {os os' : List Origin}
    (h : s'.origins.Sublist (s.origins ++ os)) (h' : s''.origins.Sublist (s'.origins ++ os')) :
    s''.origins.Sublist (s.origins ++ (os ++ os')) := by
  rw [← List.append_assoc]
  exact h'.trans (h.append (List.Sublist.refl _))

/-- Origins that are no references can be put in front. -/
theorem origins_skip {s s' : ScopeState} {os : List Origin} (skipped : List Origin)
    (h : s'.origins.Sublist (s.origins ++ os)) :
    s'.origins.Sublist (s.origins ++ (skipped ++ os)) :=
  h.trans ((List.Sublist.refl _).append (List.sublist_append_right _ _))

end ScopeState

open ScopeState

mutual

theorem Stmt.origins_scope : ∀ (stmt : Stmt) (s : ScopeState),
    (stmt.scope s).origins.Sublist (s.origins ++ stmt.origins)
  | .set _ _ value, s => origins_skip [_, _] (s.origins_read value)
  | .cond _ condition body rest, s =>
    origins_skip [_] <| origins_trans (s.origins_read condition) <|
      origins_trans (origins_bodyScope body _) (rest.origins_scope _)
  | .loop _ item sequence body, s =>
    origins_skip [_, _] <| origins_trans (s.origins_read sequence)
      (origins_bodyScope body ((s.read sequence).enter item))
  | .block _ _ body, s => origins_skip [_] (origins_skip _ (origins_bodyScope body s))
  | .output _ value, s => origins_skip [_] (s.origins_read value)
  | .bare value, s => s.origins_read value

theorem Branches.origins_scope : ∀ (rest : Branches) (s : ScopeState),
    (rest.scope s).origins.Sublist (s.origins ++ rest.origins)
  | .done, _ => List.sublist_append_left _ _
  | .otherwise body, s => origins_bodyScope body s
  | .elseIf condition body rest, s =>
    origins_trans (s.origins_read condition) <|
      origins_trans (origins_bodyScope body _) (rest.origins_scope _)

theorem origins_bodyScope : ∀ (body : List Stmt) (s : ScopeState),
    (bodyScope s body).origins.Sublist (s.origins ++ bodyOrigins body)
  | [], _ => List.sublist_append_left _ _
  | stmt :: body, s => origins_trans (stmt.origins_scope s) (origins_bodyScope body _)

end

/-- The undefined references are among the origins of the template, in their order. -/
theorem Template.origins_undefined (params : List String) (t : Template) :
    ((t.undefined params).map Name.origin).Sublist (bodyOrigins t) :=
  origins_bodyScope t ⟨[], params⟩

/-! ## The place of a token in its text -/

theorem Token.ident_of_origin_eq {t : Token} {n : Name} (h : t.origin = n.origin) :
    t.kind = .ident ∧ t.literal = n.text ∧ t.pos = n.pos := by
  obtain ⟨kind, literal, pos⟩ := t
  simp only [Token.origin, Name.origin, Origin.mk.injEq] at h
  obtain ⟨hpos, hgist⟩ := h
  cases kind <;> simp_all

/-- The text holds the name of a token `ident`, behind the text in front of its position. -/
theorem exists_place_of_ident {source : String} {t : Token} (ht : t ∈ tokenize source)
    (hkind : t.kind = .ident) :
    IsName t.literal ∧ ∃ before behind,
      source.toList = before ++ (t.literal.toList ++ behind) ∧ t.pos = placeBehind before := by
  obtain ⟨before, c, cs, hsplit, hpos, hcut⟩ :=
    exists_cut_of_mem_tokenize ht (by simp [hkind])
  have hname : IsName t.literal := ExprReader.isName_of_fits (genuine_cut c cs _ hcut).1 hkind
  have hliteral : t.literal.toList = (cut c cs).text :=
    (lexemeAt_cut c cs _ hcut).verbatim (by simp [Token.lexeme, hkind])
  exact ⟨hname, before, (cut c cs).rest, by rw [hliteral, append_cut, hsplit], hpos⟩

theorem exists_line_of_ident {source : String} {t : Token} (ht : t ∈ tokenize source)
    (hkind : t.kind = .ident) :
    1 ≤ t.pos.line ∧ ∃ line, (textLines source)[t.pos.line - 1]? = some line ∧
      t.literal.toList <:+: line.toList := by
  obtain ⟨⟨hword, -⟩, before, behind, hsplit, hpos⟩ := exists_place_of_ident ht hkind
  have hne : t.literal.toList ≠ [] := by
    obtain ⟨c, cs, hcs, -⟩ := hword
    rw [hcs]
    exact List.cons_ne_nil c cs
  have hfeed : '\n' ∉ t.literal.toList := hword.not_mem (by decide)
  have hreturn : '\r' ∉ t.literal.toList := hword.not_mem (by decide)
  obtain ⟨line, hline, hinfix⟩ := exists_line_of_word hne hfeed hreturn before behind
  have hnumber : t.pos.line = 1 + before.count '\n' := by rw [hpos, placeBehind]
  refine ⟨by omega, String.ofList line, ?_, by rwa [String.toList_ofList]⟩
  rw [hnumber, Nat.add_sub_cancel_left, textLines, hsplit, List.getElem?_map, hline]
  rfl

/-! ## Findings and their lines -/

theorem Diagnostic.isError_of_undefinedName {d : Diagnostic} {name : String}
    (h : d.finding = .undefinedName name) : d.isError = true := by
  unfold Diagnostic.isError Diagnostic.severity
  rw [h]
  rfl

/-- The finding names a line of the text, and `line` is its text. -/
structure Diagnostic.NamesLine (source : String) (d : Diagnostic) (line : String) : Prop where
  one_le : 1 ≤ d.line
  getElem? : (textLines source)[d.line - 1]? = some line

theorem Diagnostic.NamesLine.le_length {source : String} {d : Diagnostic} {line : String}
    (h : d.NamesLine source line) : d.line ≤ (textLines source).length := by
  have hlt := (List.getElem?_eq_some_iff.mp h.getElem?).1
  have := h.one_le
  omega

theorem Diagnostic.NamesLine.withLine {source : String} {d : Diagnostic} {line : String}
    (h : d.NamesLine source line) :
    d.withLine (textLines source).toArray = { d with snippet := some line } := by
  unfold Diagnostic.withLine
  rw [List.getElem?_toArray, h.getElem?]

theorem namesLine_of_mem_lineFindings {file source : String} {check : List Char → Option Finding}
    {d : Diagnostic} (h : d ∈ lineFindings file check (charLines source.toList)) :
    ∀ snippet ∈ d.snippet, d.NamesLine source snippet := by
  obtain ⟨i, line, finding, hline, -, rfl⟩ := exists_of_mem_lineFindings h
  intro snippet hsnippet
  cases hsnippet
  refine ⟨Nat.le_add_right 1 i, ?_⟩
  rw [Nat.add_sub_cancel_left, textLines, List.getElem?_map, hline]
  rfl

/-- The findings of `checkStructure` show the lines that they name. -/
theorem namesLine_of_mem_checkStructure {file source : String} {d : Diagnostic}
    (h : d ∈ checkStructure file source) :
    ∀ snippet ∈ d.snippet, d.NamesLine source snippet := by
  simp only [checkStructure, List.mem_append] at h
  rcases h with ((hletter | hcomment) | hpair) | htag
  · exact namesLine_of_mem_lineFindings hletter
  · exact namesLine_of_mem_lineFindings hcomment
  · obtain ⟨pair, -, hpair⟩ := List.mem_filterMap.mp hpair
    simp only [Option.ite_none_left_eq_some, Option.some.injEq] at hpair
    obtain ⟨-, rfl⟩ := hpair
    intro snippet hnone
    cases hnone
  · obtain ⟨finding, -, rfl⟩ := List.mem_map.mp htag
    intro snippet hnone
    cases hnone

section UndefinedNames

variable (file source : String) (params : List String)

/-- The undefined references are at tokens, in the order of the tokens. -/
theorem sublist_undefined_tokenize :
    (((parseSource source).template.undefined params).map Name.origin).Sublist
      ((tokenize source).map Token.origin) :=
  (Template.origins_undefined params _).trans (sublist_origins_tokenize source)

theorem namesLine_of_mem_undefinedNames :
    ∀ d ∈ undefinedNames file params (parseSource source).template, ∃ name line,
      d.finding = .undefinedName name ∧ d.NamesLine source line ∧
        name.toList <:+: line.toList := by
  intro d hd
  obtain ⟨r, hr, rfl⟩ := List.mem_map.mp hd
  have horigin : r.origin ∈ (tokenize source).map Token.origin :=
    (sublist_undefined_tokenize source params).subset (List.mem_map_of_mem hr)
  obtain ⟨t, ht, htr⟩ := List.mem_map.mp horigin
  obtain ⟨hkind, hliteral, hpos⟩ := Token.ident_of_origin_eq htr
  obtain ⟨hone, line, hline, hinfix⟩ := exists_line_of_ident ht hkind
  rw [hpos] at hone hline
  rw [hliteral] at hinfix
  have hnumber : max 1 r.pos.line = r.pos.line := Nat.max_eq_right hone
  exact ⟨r.text, line, rfl, ⟨Nat.le_max_left 1 _, hnumber.symm ▸ hline⟩, hinfix⟩

theorem pairwise_line_undefinedNames :
    (undefinedNames file params (parseSource source).template).Pairwise fun d e =>
      d.line ≤ e.line := by
  have htokens : ((tokenize source).map Token.origin).Pairwise fun o o' => o.pos < o'.pos :=
    List.pairwise_map.mpr (pairwise_pos_tokenize source)
  have hnames := List.Pairwise.sublist (sublist_undefined_tokenize source params) htokens
  refine List.pairwise_map.mpr ((List.pairwise_map.mp hnames).imp fun {r r'} hlt => ?_)
  have hle : r.pos.line ≤ r'.pos.line := by
    rcases Position.lt_def.mp hlt with hline | ⟨hline, -⟩
    · exact Nat.le_of_lt hline
    · exact Nat.le_of_eq hline
  exact Nat.max_le.mpr ⟨Nat.le_max_left 1 _, Nat.le_trans hle (Nat.le_max_right 1 _)⟩

/-- Parameters only add findings about references. -/
theorem exists_lintSource_eq_append :
    ∃ found, (found = [] ∨ found = undefinedNames file params (parseSource source).template) ∧
      lintSource file source (some params) = lintSource file source none ++
        found.map (Diagnostic.withLine (textLines source).toArray) := by
  unfold lintSource
  by_cases herror : (checkStructure file source).any Diagnostic.isError = true
  · exact ⟨[], Or.inl rfl, by simp [herror]⟩
  by_cases hparse : (parseSource source).errors.isEmpty = true
  · exact ⟨_, Or.inr rfl, by simp [herror, hparse]⟩
  · exact ⟨[], Or.inl rfl, by simp [herror, hparse]⟩

theorem lintSource_none : lintSource file source none = checkStructure file source := by
  simp [lintSource]

/-- With parameters, `lintSource` gives the findings without them and then errors `undefinedName` in
the order of their lines. Each of these has the line that it names as its snippet, and the name
occurs in that line. Every snippet among the findings is the line that its finding names. -/
theorem lintSource_snippets :
    ∃ found, lintSource file source (some params) = lintSource file source none ++ found ∧
      (∀ d ∈ found, d.isError = true ∧ ∃ name line, d.finding = .undefinedName name ∧
        d.snippet = some line ∧ (1 ≤ d.line ∧ d.line ≤ (textLines source).length) ∧
          (textLines source)[d.line - 1]? = some line ∧ name.toList <:+: line.toList) ∧
      (found.Pairwise fun d e => d.line ≤ e.line) ∧
      ∀ d ∈ lintSource file source (some params), ∀ snippet ∈ d.snippet,
        1 ≤ d.line ∧ (textLines source)[d.line - 1]? = some snippet := by
  obtain ⟨names, hnames, happend⟩ := exists_lintSource_eq_append file source params
  have hlines : ∀ d ∈ names, ∃ name line, d.finding = .undefinedName name ∧
      d.NamesLine source line ∧ name.toList <:+: line.toList := by
    rcases hnames with rfl | rfl
    · exact List.forall_mem_nil _
    · exact namesLine_of_mem_undefinedNames file source params
  have hordered : names.Pairwise fun d e => d.line ≤ e.line := by
    rcases hnames with rfl | rfl
    · exact List.Pairwise.nil
    · exact pairwise_line_undefinedNames file source params
  refine ⟨_, happend, fun d hd => ?_, ?_, fun d hd snippet hsnippet => ?_⟩
  · obtain ⟨e, he, rfl⟩ := List.mem_map.mp hd
    obtain ⟨name, line, hfinding, hline, hinfix⟩ := hlines e he
    rw [hline.withLine]
    exact ⟨Diagnostic.isError_of_undefinedName hfinding, name, line, hfinding, rfl,
      ⟨hline.one_le, hline.le_length⟩, hline.getElem?, hinfix⟩
  · refine List.pairwise_map.mpr (hordered.imp_of_mem fun {d e} hd he hle => ?_)
    obtain ⟨-, _, -, hd, -⟩ := hlines d hd
    obtain ⟨-, _, -, he, -⟩ := hlines e he
    rwa [hd.withLine, he.withLine]
  · have hshown : d.NamesLine source snippet := by
      rw [happend, lintSource_none] at hd
      rcases List.mem_append.mp hd with hcheck | hname
      · exact namesLine_of_mem_checkStructure hcheck snippet hsnippet
      · obtain ⟨e, he, rfl⟩ := List.mem_map.mp hname
        obtain ⟨-, line, -, hline, -⟩ := hlines e he
        rw [hline.withLine] at hsnippet ⊢
        cases hsnippet
        exact ⟨hline.one_le, hline.getElem?⟩
    exact ⟨hshown.one_le, hshown.getElem?⟩

end UndefinedNames

/-- A string over two lines stands in front of the first name, and lines end with carriage returns.
-/
example :
    let source := "\x7b\x7b 'a\r\nb' + x \x7d\x7d\r\n\r\n\x7b\x7b y + z \x7d\x7d\r"
    lintSource "page" source (some ["y"]) =
      [⟨"page", 2, .undefinedName "x", some "b' + x \x7d\x7d"⟩,
        ⟨"page", 4, .undefinedName "z", some "\x7b\x7b y + z \x7d\x7d\r"⟩] := by
  decide +kernel

end Templates
