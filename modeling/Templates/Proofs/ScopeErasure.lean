import Mathlib.Data.List.Forall2
import Templates.Lint
import Templates.Proofs.CanonicalText

/-!
# Findings do not depend on the layout

`bodyScope` copies the positions of references but never decides by one: it gives the erased state
for an erased body (`bodyScope_erase`). `canonical` only moves the positions of a template, so the
findings about a text and its canonical form are the same up to their lines
(`undefinedNames_canonical`).
-/

namespace Templates

/-- The same state with the positions of the references forgotten. -/
def ScopeState.erase (s : ScopeState) : ScopeState :=
  { s with undefined := s.undefined.map Name.erase }

theorem Expr.references_erase (x : Expr) : x.erase.references = x.references.map Name.erase := by
  induction x with
  | ident | int | str | bool | null => rfl
  | unary _ _ x ih | attr _ x _ ih | filter _ x _ ih => exact ih
  | binary pos op l r ihl ihr =>
    show (Expr.binary .first op l.erase r.erase).references = _
    rw [references_binary, references_binary, ihl, ihr, List.map_append]

/-- Whether a reference has a meaning depends on its text alone. -/
theorem Expr.undefined_erase (seen : List String) (x : Expr) :
    x.erase.undefined seen = (x.undefined seen).map Name.erase := by
  unfold Expr.undefined
  rw [x.references_erase, List.filter_map]
  rfl

namespace ScopeState

theorem read_erase (s : ScopeState) (x : Expr) : s.erase.read x.erase = (s.read x).erase := by
  have hundefined : x.erase.undefined s.erase.seen = (x.undefined s.seen).map Name.erase :=
    x.undefined_erase s.seen
  unfold read erase at *
  simp only [hundefined, List.map_append, List.map_reverse]

theorem bind_erase (s : ScopeState) (name : Name) :
    s.erase.bind name.erase = (s.bind name).erase := rfl

theorem enter_erase (s : ScopeState) (name : Name) :
    s.erase.enter name.erase = (s.enter name).erase := rfl

end ScopeState

mutual

theorem Stmt.scope_erase : ∀ (stmt : Stmt) (s : ScopeState),
    stmt.erase.scope s.erase = (stmt.scope s).erase
  | .set _ name value, s => by
    show (s.erase.read value.erase).bind name.erase = _
    rw [s.read_erase, ScopeState.bind_erase]
    rfl
  | .cond _ condition body rest, s => by
    show rest.erase.scope (bodyScope (s.erase.read condition.erase) (eraseBody body)) = _
    rw [s.read_erase, bodyScope_erase body, rest.scope_erase]
    rfl
  | .loop _ item sequence body, s => by
    have hbody := bodyScope_erase body ((s.read sequence).enter item)
    show { bodyScope ((s.erase.read sequence.erase).enter item.erase) (eraseBody body) with
      seen := s.erase.seen } = _
    rw [s.read_erase, ScopeState.enter_erase, hbody]
    rfl
  | .block _ _ body, s => bodyScope_erase body s
  | .output _ value, s => s.read_erase value
  | .bare value, s => s.read_erase value

theorem Branches.scope_erase : ∀ (rest : Branches) (s : ScopeState),
    rest.erase.scope s.erase = (rest.scope s).erase
  | .done, _ => rfl
  | .otherwise body, s => bodyScope_erase body s
  | .elseIf condition body rest, s => by
    show rest.erase.scope (bodyScope (s.erase.read condition.erase) (eraseBody body)) = _
    rw [s.read_erase, bodyScope_erase body, rest.scope_erase]
    rfl

theorem bodyScope_erase : ∀ (body : List Stmt) (s : ScopeState),
    bodyScope s.erase (eraseBody body) = (bodyScope s body).erase
  | [], _ => rfl
  | stmt :: body, s => by
    show bodyScope (stmt.erase.scope s.erase) (eraseBody body) = _
    rw [stmt.scope_erase, bodyScope_erase body]
    rfl

end

theorem Template.undefined_eraseBody (params : List String) (t : Template) :
    Template.undefined params (eraseBody t) = (Template.undefined params t).map Name.erase := by
  have hbody := bodyScope_erase t ⟨[], params⟩
  have hundefined := congrArg ScopeState.undefined hbody
  show (bodyScope (ScopeState.erase ⟨[], params⟩) (eraseBody t)).undefined.reverse = _
  rw [hundefined]
  exact List.map_reverse.symm

/-- Templates that are equal up to positions have the same undefined names, in the same order. -/
theorem Template.map_erase_undefined_congr (params : List String) {t t' : Template}
    (h : eraseBody t = eraseBody t') :
    (Template.undefined params t).map Name.erase =
      (Template.undefined params t').map Name.erase := by
  rw [← undefined_eraseBody, h, undefined_eraseBody]

/-- The same finding, on whatever line. -/
def Diagnostic.SameUpToLine (d e : Diagnostic) : Prop := d = { e with line := d.line }

/-- The findings about templates that are equal up to positions differ in nothing but their
lines. -/
theorem forall₂_undefinedNames (file : String) (params : List String) {t t' : Template}
    (h : eraseBody t = eraseBody t') :
    List.Forall₂ Diagnostic.SameUpToLine (undefinedNames file params t)
      (undefinedNames file params t') := by
  have hnames : List.Forall₂ (fun r r' : Name => r.erase = r'.erase)
      (Template.undefined params t) (Template.undefined params t') := by
    have hmap := Template.map_erase_undefined_congr params h
    rwa [← List.forall₂_eq_eq_eq, List.forall₂_map_left_iff, List.forall₂_map_right_iff] at hmap
  unfold undefinedNames
  rw [List.forall₂_map_left_iff, List.forall₂_map_right_iff]
  refine hnames.imp fun r r' hr => ?_
  have htext : r.erase.text = r'.erase.text := congrArg Name.text hr
  have hfinding : Finding.undefinedName r.text = .undefinedName r'.text := congrArg _ htext
  unfold Diagnostic.SameUpToLine
  rw [hfinding]

/-- The canonical form of a source text has the findings of the text itself, in every style: the
same messages in the same order, up to their lines. -/
theorem undefinedNames_canonical {style : Style} {source text : String}
    (h : canonical style source = .ok text) (file : String) (params : List String) :
    (undefinedNames file params (parseSource text).template).map Diagnostic.message =
        (undefinedNames file params (parseSource source).template).map Diagnostic.message ∧
      List.Forall₂ Diagnostic.SameUpToLine
        (undefinedNames file params (parseSource text).template)
        (undefinedNames file params (parseSource source).template) := by
  have hempty : (parseSource source).errors = [] := by
    by_contra herrors
    rw [canonical_eq_error herrors style] at h
    cases h
  have hsource : parseSource source = ⟨(parseSource source).template, []⟩ := by rw [← hempty]
  have htext : Template.text style (parseSource source).template = text := by
    rw [canonical_eq_ok hsource style] at h
    exact Except.ok.inj h
  obtain ⟨t, hparse, herase⟩ := exists_parseSource_text style (bodySpellable_parseSource source)
  rw [htext] at hparse
  rw [hparse]
  have hsame := forall₂_undefinedNames file params herase
  refine ⟨?_, hsame⟩
  rw [← List.forall₂_eq_eq_eq, List.forall₂_map_left_iff, List.forall₂_map_right_iff]
  refine hsame.imp fun d e hde => ?_
  show d.finding.message = e.finding.message
  rw [hde]

/-- A loop spread over lines, whose item is seen in its body only, and a name that is bound too
late. -/
theorem undefinedNames_canonical_lateBinding :
    let source := "\x7b%for i in\n\nxs%\x7d\x7b\x7b (i)\n+ j\x7d\x7d\x7b%endfor%\x7d i\n\n" ++
      "\x7b\x7bname|upper\x7d\x7d\x7b% set name='n' %\x7d name"
    let text := "\x7b% for i in xs %\x7d\n    \x7b\x7b i + j \x7d\x7d\n\x7b% endfor %\x7d\ni\n" ++
      "\x7b\x7b name | upper \x7d\x7d\n\x7b% set name = \"n\" %\x7d\nname\n"
    canonical {} source = .ok text ∧
      (undefinedNames "page" ["xs"] (parseSource text).template).map Diagnostic.message =
        (undefinedNames "page" ["xs"] (parseSource source).template).map Diagnostic.message ∧
      List.Forall₂ Diagnostic.SameUpToLine
        (undefinedNames "page" ["xs"] (parseSource text).template)
        (undefinedNames "page" ["xs"] (parseSource source).template) := by
  intro source text
  have h : canonical {} source = .ok text := by decide +kernel
  exact ⟨h, undefinedNames_canonical h "page" ["xs"]⟩

end Templates
