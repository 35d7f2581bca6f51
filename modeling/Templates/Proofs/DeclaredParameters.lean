import Templates.Lint

/-!
# Declaring more parameters

`undefinedNames` is compared with itself for more parameters. Two runs of `bodyScope` over the same
template visit the same statements; the second can also see the names `added`, and its list of
undefined references is that of the first without them (`ScopeState.Declares`). Each operation of
`ScopeState` keeps that relation, and `undefinedNames_append` is what it says at the end.
-/

namespace Templates

/-- The states of two runs, the second with the parameters `added` as well: it can see these names
in addition, and the references to them are not listed. -/
structure ScopeState.Declares (added : List String) (s s' : ScopeState) : Prop where
  seen : ∀ x, x ∈ s'.seen ↔ x ∈ s.seen ∨ x ∈ added
  undefined : s'.undefined = s.undefined.filter fun r => r.text ∉ added

namespace ScopeState.Declares

variable {added : List String} {s s' : ScopeState}

theorem isDefined_eq (h : s.Declares added s') (name : String) :
    isDefined s'.seen name = (decide (name ∈ added) || isDefined s.seen name) := by
  have hseen := h.seen name
  rw [Bool.eq_iff_iff]
  simp only [isDefined, Bool.or_eq_true, List.contains_iff_mem, decide_eq_true_eq, hseen]
  rw [or_comm (a := name ∈ s.seen), or_assoc]

theorem undefined_expr (h : s.Declares added s') (x : Expr) :
    x.undefined s'.seen = (x.undefined s.seen).filter fun r => r.text ∉ added := by
  unfold Expr.undefined
  rw [List.filter_filter]
  refine List.filter_congr fun r _ => ?_
  rw [h.isDefined_eq, Bool.not_or, decide_not]

theorem read (h : s.Declares added s') (x : Expr) : (s.read x).Declares added (s'.read x) := by
  refine ⟨h.seen, ?_⟩
  simp only [ScopeState.read, h.undefined_expr x, h.undefined, List.filter_append,
    List.filter_reverse]

theorem bind (h : s.Declares added s') (name : Name) :
    (s.bind name).Declares added (s'.bind name) := by
  refine ⟨fun x => ?_, h.undefined⟩
  simp only [ScopeState.bind, List.mem_insert_iff, h.seen x, or_assoc]

theorem enter (h : s.Declares added s') (name : Name) :
    (s.enter name).Declares added (s'.enter name) := by
  refine ⟨fun x => ?_, h.undefined⟩
  simp only [ScopeState.enter, List.mem_cons, h.seen x, or_assoc]

/-- A loop puts back `ScopeState.seen` in both runs. -/
theorem leave {t t' : ScopeState} (h : s.Declares added s') (hbody : t.Declares added t') :
    { t with seen := s.seen }.Declares added { t' with seen := s'.seen } :=
  ⟨h.seen, hbody.undefined⟩

end ScopeState.Declares

mutual

theorem Stmt.declares_scope {added : List String} : ∀ (stmt : Stmt) {s s' : ScopeState},
    s.Declares added s' → (stmt.scope s).Declares added (stmt.scope s')
  | .set _ name value, _, _, h => (h.read value).bind name
  | .cond _ condition body rest, _, _, h =>
    rest.declares_scope (declares_bodyScope body (h.read condition))
  | .loop _ item sequence body, _, _, h =>
    h.leave (declares_bodyScope body ((h.read sequence).enter item))
  | .block _ _ body, _, _, h => declares_bodyScope body h
  | .output _ value, _, _, h => h.read value
  | .bare value, _, _, h => h.read value

theorem Branches.declares_scope {added : List String} : ∀ (rest : Branches) {s s' : ScopeState},
    s.Declares added s' → (rest.scope s).Declares added (rest.scope s')
  | .done, _, _, h => h
  | .otherwise body, _, _, h => declares_bodyScope body h
  | .elseIf condition body rest, _, _, h =>
    rest.declares_scope (declares_bodyScope body (h.read condition))

theorem declares_bodyScope {added : List String} : ∀ (body : List Stmt) {s s' : ScopeState},
    s.Declares added s' → (bodyScope s body).Declares added (bodyScope s' body)
  | [], _, _, h => h
  | stmt :: body, _, _, h => declares_bodyScope body (stmt.declares_scope h)

end

theorem Template.undefined_append (params added : List String) (t : Template) :
    Template.undefined (params ++ added) t =
      (Template.undefined params t).filter fun r => r.text ∉ added := by
  have hstart : ScopeState.Declares added ⟨[], params⟩ ⟨[], params ++ added⟩ :=
    ⟨fun _ => List.mem_append, rfl⟩
  rw [Template.undefined, (declares_bodyScope t hstart).undefined, ← List.filter_reverse,
    Template.undefined]

/-- The order of the parameters and repetitions among them do not matter. -/
theorem Template.undefined_congr {params params' : List String}
    (h : ∀ x, x ∈ params ↔ x ∈ params') (t : Template) :
    Template.undefined params t = Template.undefined params' t := by
  have hfrom (names : List String) := Template.undefined_append [] names t
  simp only [List.nil_append] at hfrom
  rw [hfrom params, hfrom params']
  refine List.filter_congr fun r _ => ?_
  simp only [h r.text]

theorem mem_map_undefinedName {names : List String} {name : String} :
    Finding.undefinedName name ∈ names.map Finding.undefinedName ↔ name ∈ names := by
  simp only [List.mem_map, Finding.undefinedName.injEq, exists_eq_right]

/-- More parameters take away the findings about the names `added` and no others, so what is left is
a sublist in the same order and on the same lines. It is empty if and only if every name that was
reported is in `added`. Only membership in the parameters matters, not their order or how often one
is given. -/
theorem undefinedNames_append (file : String) (params added : List String) (t : Template) :
    undefinedNames file (params ++ added) t =
        (undefinedNames file params t).filter
          (fun d => d.finding ∉ added.map Finding.undefinedName) ∧
      (undefinedNames file (params ++ added) t).Sublist (undefinedNames file params t) ∧
      (undefinedNames file (params ++ added) t = [] ↔
        ∀ d ∈ undefinedNames file params t, d.finding ∈ added.map Finding.undefinedName) ∧
      ∀ others : List String, (∀ name, name ∈ others ↔ name ∈ params ++ added) →
        undefinedNames file others t = undefinedNames file (params ++ added) t := by
  have hfilter : undefinedNames file (params ++ added) t =
      (undefinedNames file params t).filter
        fun d => d.finding ∉ added.map Finding.undefinedName := by
    unfold undefinedNames
    rw [Template.undefined_append, List.filter_map]
    congr 1
    refine List.filter_congr fun r _ => ?_
    simp only [Function.comp_apply, mem_map_undefinedName]
  refine ⟨hfilter, ?_, ?_, fun others h => ?_⟩
  · rw [hfilter]
    exact List.filter_sublist
  · rw [hfilter, List.filter_eq_nil_iff]
    simp only [decide_eq_true_eq, Classical.not_not]
  · rw [undefinedNames, Template.undefined_congr h, undefinedNames]

/-- The item of a loop and a name that is bound in its body, both read behind the loop as well, and
parameters in another order with one of them given twice. -/
theorem undefinedNames_append_loop :
    let source := "\x7b% for x in xs %\x7d\x7b% set z = x + y %\x7d\x7b\x7b z \x7d\x7d" ++
      "\x7b% endfor %\x7d\n\x7b\x7b x + z \x7d\x7d\x7b\x7b y \x7d\x7d"
    let t := (parseSource source).template
    let others := ["y", "xs", "z", "y"]
    (∀ name, name ∈ others ↔ name ∈ ["xs"] ++ ["z", "y"]) ∧
      undefinedNames "page" others t = undefinedNames "page" (["xs"] ++ ["z", "y"]) t ∧
      undefinedNames "page" (["xs"] ++ ["z", "y"]) t =
        (undefinedNames "page" ["xs"] t).filter
          fun d => d.finding ∉ ["z", "y"].map Finding.undefinedName := by
  intro source t others
  have hothers : ∀ name, name ∈ others ↔ name ∈ ["xs"] ++ ["z", "y"] := by
    intro name
    simp only [others, List.mem_append, List.mem_cons, List.not_mem_nil, or_false]
    grind
  have happend := undefinedNames_append "page" ["xs"] ["z", "y"] t
  exact ⟨hothers, happend.2.2.2 others hothers, happend.1⟩

end Templates
