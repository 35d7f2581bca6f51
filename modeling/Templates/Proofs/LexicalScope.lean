import Templates.Lint

/-!
# Lexical scope

`Template.undefined` passes a list of visible names along. Here the undefined references are given
by positions instead. `Template.occurrences` lists the references and the bindings of a template in
the order of `bodyScope`, each with the loops that have it in their bodies. A reference is defined
if its name is built in, a parameter or the item of such a loop, or if there is an earlier binding
with no loop around it that is not around the reference as well (`Occurrence.Defined`).

`Sees` says that a list of visible names is the one that this definition gives. It holds inside a
loop because the loop is a new one: no earlier occurrence is in its body (`Fresh`).
-/

namespace Templates

/-! ## Occurrences -/

/-- A loop around an occurrence, known by its place in the template. -/
structure EnclosingLoop where
  /-- The way out from the loop: its number in the body that it stands in, then the way out from
  that body. -/
  place : List Nat
  /-- The name that runs through the sequence. -/
  item : String
  deriving DecidableEq

/-- The two uses of a name. -/
inductive Usage
  /-- Its value is asked for. -/
  | reference
  /-- A `set` gives it a value. -/
  | binding
  deriving DecidableEq

/-- A use of a name. -/
structure Occurrence where
  /-- The use of the name. -/
  usage : Usage
  /-- The name. -/
  name : Name
  /-- The loops whose bodies the occurrence lies in, innermost first. -/
  loops : List EnclosingLoop
  deriving DecidableEq

/-- The occurrences in an expression. Names behind `.` and `|` are none. -/
def Expr.occurrences (loops : List EnclosingLoop) : Expr → List Occurrence
  | ident pos name => [⟨.reference, ⟨name, pos⟩, loops⟩]
  | int .. | str .. | bool .. | null .. => []
  | unary _ _ x => x.occurrences loops
  | binary _ _ l r => l.occurrences loops ++ r.occurrences loops
  | attr _ x _ => x.occurrences loops
  | filter _ x _ => x.occurrences loops

mutual

/-- The occurrences in the statement at a place. -/
def Stmt.occurrences (place : List Nat) (loops : List EnclosingLoop) : Stmt → List Occurrence
  | .set _ name value => value.occurrences loops ++ [⟨.binding, name, loops⟩]
  | .cond _ condition body rest =>
    condition.occurrences loops ++
      (bodyOccurrences (0 :: place) loops 0 body ++ rest.occurrences (1 :: place) loops)
  | .loop _ item sequence body =>
    sequence.occurrences loops ++ bodyOccurrences place (⟨place, item.text⟩ :: loops) 0 body
  | .block _ _ body => bodyOccurrences place loops 0 body
  | .output _ value => value.occurrences loops
  | .bare value => value.occurrences loops

/-- The occurrences in the branches of a conditional behind one of them. -/
def Branches.occurrences (place : List Nat) (loops : List EnclosingLoop) :
    Branches → List Occurrence
  | .done => []
  | .otherwise body => bodyOccurrences (0 :: place) loops 0 body
  | .elseIf condition body rest =>
    condition.occurrences loops ++
      (bodyOccurrences (0 :: place) loops 0 body ++ rest.occurrences (1 :: place) loops)

/-- The occurrences in a body; `number` statements are in front of those given. -/
def bodyOccurrences (place : List Nat) (loops : List EnclosingLoop) (number : Nat) :
    List Stmt → List Occurrence
  | [] => []
  | s :: ss =>
    s.occurrences (number :: place) loops ++ bodyOccurrences place loops (number + 1) ss

end

/-- The references and bindings of a template, in the order in which they are come upon. -/
def Template.occurrences (t : Template) : List Occurrence := bodyOccurrences [] [] 0 t

/-- The name of a reference means something, given the parameters of the template and the
occurrences in front of the reference. -/
def Occurrence.Defined (params : List String) (earlier : List Occurrence) (r : Occurrence) : Prop :=
  isBuiltin r.name.text = true ∨ r.name.text ∈ params ∨ (∃ l ∈ r.loops, l.item = r.name.text) ∨
    ∃ b ∈ earlier, b.usage = .binding ∧ b.name.text = r.name.text ∧ ∀ l ∈ b.loops, l ∈ r.loops

instance (params : List String) (earlier : List Occurrence) (r : Occurrence) :
    Decidable (r.Defined params earlier) :=
  inferInstanceAs (Decidable (_ ∨ _ ∨ _ ∨ _))

/-- The occurrence is a reference whose name means nothing. -/
def Occurrence.Dangling (params : List String) (earlier : List Occurrence)
    (o : Occurrence) : Prop :=
  o.usage = .reference ∧ ¬ o.Defined params earlier

instance (params : List String) (earlier : List Occurrence) (o : Occurrence) :
    Decidable (o.Dangling params earlier) :=
  inferInstanceAs (Decidable (_ ∧ _))

/-! ## One occurrence after the other -/

/-- The names of the dangling references among some occurrences that others stand in front of. -/
def danglingNames (params : List String) (earlier : List Occurrence) :
    List Occurrence → List Name
  | [] => []
  | o :: os =>
    (if o.Dangling params earlier then [o.name] else []) ++ danglingNames params (earlier ++ [o]) os

theorem danglingNames_append (params : List String) (earlier os os' : List Occurrence) :
    danglingNames params earlier (os ++ os') =
      danglingNames params earlier os ++ danglingNames params (earlier ++ os) os' := by
  induction os generalizing earlier with
  | nil => simp [danglingNames]
  | cons o os ih => simp [danglingNames, ih]

/-- Looking at each occurrence together with its number among all of them gives the same names. -/
theorem map_filter_zipIdx_eq_danglingNames (params : List String) (earlier os : List Occurrence) :
    ((os.zipIdx earlier.length).filter fun p =>
        p.1.Dangling params ((earlier ++ os).take p.2)).map (fun p => p.1.name) =
      danglingNames params earlier os := by
  induction os generalizing earlier with
  | nil => rfl
  | cons o os ih =>
    have hrest := ih (earlier ++ [o])
    rw [List.length_append, List.length_singleton, List.append_assoc, List.singleton_append]
      at hrest
    have htake : (earlier ++ o :: os).take earlier.length = earlier := by simp
    rw [List.zipIdx_cons, List.filter_cons, htake, danglingNames, ← hrest]
    by_cases ho : o.Dangling params earlier <;> simp [ho]

/-! ## Names that can be seen -/

/-- `Sees params loops earlier seen`: inside the loops, and behind the earlier occurrences, the
names `seen` are those that can be seen. -/
def Sees (params : List String) (loops : List EnclosingLoop) (earlier : List Occurrence)
    (seen : List String) : Prop :=
  ∀ x, x ∈ seen ↔ x ∈ params ∨ (∃ l ∈ loops, l.item = x) ∨
    ∃ b ∈ earlier, b.usage = .binding ∧ b.name.text = x ∧ ∀ l ∈ b.loops, l ∈ loops

/-- No loop at the place or below it is around an occurrence so far. -/
def Fresh (place : List Nat) (loops : List EnclosingLoop) (earlier : List Occurrence) : Prop :=
  ∀ l, (l ∈ loops ∨ ∃ o ∈ earlier, l ∈ o.loops) → ¬ place <:+ l.place

section Names

variable {params : List String} {loops : List EnclosingLoop} {earlier : List Occurrence}
  {seen : List String}

theorem Sees.defined_iff (h : Sees params loops earlier seen) (usage : Usage) (name : Name) :
    Occurrence.Defined params earlier ⟨usage, name, loops⟩ ↔ isDefined seen name.text = true := by
  simp only [Occurrence.Defined, isDefined, Bool.or_eq_true, List.contains_iff_mem, h name.text]
  exact or_comm

/-- A reference does not change the visible names. -/
theorem Sees.reference (h : Sees params loops earlier seen) (name : Name)
    (loops' : List EnclosingLoop) :
    Sees params loops (earlier ++ [⟨.reference, name, loops'⟩]) seen := by
  intro x
  rw [h x]
  simp

theorem Sees.bind (h : Sees params loops earlier seen) (name : Name) :
    Sees params loops (earlier ++ [⟨.binding, name, loops⟩]) (seen.insert name.text) := by
  intro x
  rw [List.mem_insert_iff, h x]
  simp only [List.mem_append, List.mem_singleton]
  constructor
  · rintro (rfl | hx | hx | ⟨b, hb, hx⟩)
    · exact Or.inr (Or.inr ⟨_, Or.inr rfl, rfl, rfl, fun _ hl => hl⟩)
    · exact Or.inl hx
    · exact Or.inr (Or.inl hx)
    · exact Or.inr (Or.inr ⟨b, Or.inl hb, hx⟩)
  · rintro (hx | hx | ⟨b, hb | rfl, hx⟩)
    · exact Or.inr (Or.inl hx)
    · exact Or.inr (Or.inr (Or.inl hx))
    · exact Or.inr (Or.inr (Or.inr ⟨b, hb, hx⟩))
    · exact Or.inl hx.2.1.symm

/-- The item of a new loop is visible in its body. -/
theorem Sees.enter (h : Sees params loops earlier seen) {new : EnclosingLoop}
    (hnew : ∀ b ∈ earlier, new ∉ b.loops) :
    Sees params (new :: loops) earlier (new.item :: seen) := by
  intro x
  have hold : ∀ b ∈ earlier, (∀ l ∈ b.loops, l ∈ new :: loops) ↔ ∀ l ∈ b.loops, l ∈ loops := by
    intro b hb
    refine forall₂_congr fun l hl => ?_
    have hne : l ≠ new := by
      rintro rfl
      exact hnew b hb hl
    simp [hne]
  rw [List.mem_cons, h x]
  constructor
  · rintro (rfl | hx | ⟨l, hl, hx⟩ | ⟨b, hb, hu, hx, hl⟩)
    · exact Or.inr (Or.inl ⟨new, List.mem_cons_self, rfl⟩)
    · exact Or.inl hx
    · exact Or.inr (Or.inl ⟨l, List.mem_cons_of_mem _ hl, hx⟩)
    · exact Or.inr (Or.inr ⟨b, hb, hu, hx, (hold b hb).mpr hl⟩)
  · rintro (hx | ⟨l, hl, hx⟩ | ⟨b, hb, hu, hx, hl⟩)
    · exact Or.inr (Or.inl hx)
    · rcases List.mem_cons.mp hl with rfl | hl
      · exact Or.inl hx.symm
      · exact Or.inr (Or.inr (Or.inl ⟨l, hl, hx⟩))
    · exact Or.inr (Or.inr (Or.inr ⟨b, hb, hu, hx, (hold b hb).mp hl⟩))

/-- Bindings in the body of a loop are not visible behind it. -/
theorem Sees.leave (h : Sees params loops earlier seen) {new : EnclosingLoop} (hnew : new ∉ loops)
    {os : List Occurrence} (hos : ∀ o ∈ os, new ∈ o.loops) :
    Sees params loops (earlier ++ os) seen := by
  intro x
  rw [h x]
  refine or_congr_right (or_congr_right ⟨?_, ?_⟩)
  · rintro ⟨b, hb, hx⟩
    exact ⟨b, List.mem_append_left os hb, hx⟩
  · rintro ⟨b, hb, hu, hx, hl⟩
    rcases List.mem_append.mp hb with hb | hb
    · exact ⟨b, hb, hu, hx, hl⟩
    · exact absurd (hl new (hos b hb)) hnew

/-! ## Loops are new -/

theorem Fresh.child {place : List Nat} (h : Fresh place loops earlier) (n : Nat) :
    Fresh (n :: place) loops earlier :=
  fun l hl hsuffix => h l hl ((List.suffix_cons n place).trans hsuffix)

/-- Two places that branch off from one another have nothing below them in common. -/
theorem not_suffix_of_suffix {m n : Nat} {place other : List Nat} (hne : m ≠ n)
    (h : (m :: place) <:+ other) : ¬ (n :: place) <:+ other := by
  intro h'
  have hle : (m :: place).length ≤ (n :: place).length := by simp
  have heq : m :: place = n :: place :=
    (List.suffix_of_suffix_length_le h h' hle).eq_of_length (by simp)
  exact hne (List.cons.inj heq).1

/-- The occurrence lies in the loops; all others that it lies in are at the place or below it. -/
def Occurrence.Within (place : List Nat) (loops : List EnclosingLoop) (o : Occurrence) : Prop :=
  (∀ l ∈ loops, l ∈ o.loops) ∧ ∀ l ∈ o.loops, l ∈ loops ∨ place <:+ l.place

theorem Occurrence.Within.of_child {n : Nat} {place : List Nat} {o : Occurrence}
    (h : o.Within (n :: place) loops) : o.Within place loops := by
  refine ⟨h.1, fun l hl => ?_⟩
  rcases h.2 l hl with hl | hl
  · exact Or.inl hl
  · exact Or.inr ((List.suffix_cons n place).trans hl)

theorem Occurrence.Within.of_body {place : List Nat} {item : String} {o : Occurrence}
    (h : o.Within place (⟨place, item⟩ :: loops)) : o.Within place loops := by
  refine ⟨fun l hl => h.1 l (List.mem_cons_of_mem _ hl), fun l hl => ?_⟩
  rcases h.2 l hl with hl | hl
  · rcases List.mem_cons.mp hl with rfl | hl
    · exact Or.inr List.suffix_rfl
    · exact Or.inl hl
  · exact Or.inr hl

/-- Behind what lies within one place, another one that branches off there is still fresh. -/
theorem Fresh.append {m n : Nat} {place : List Nat} (hne : m ≠ n)
    (h : Fresh (n :: place) loops earlier) {os : List Occurrence}
    (hos : ∀ o ∈ os, o.Within (m :: place) loops) : Fresh (n :: place) loops (earlier ++ os) := by
  rintro l (hl | ⟨o, ho, hl⟩)
  · exact h l (Or.inl hl)
  · rcases List.mem_append.mp ho with ho | ho
    · exact h l (Or.inr ⟨o, ho, hl⟩)
    · rcases (hos o ho).2 l hl with hl | hl
      · exact h l (Or.inl hl)
      · exact not_suffix_of_suffix hne hl

theorem Fresh.enter {place : List Nat} (h : Fresh place loops earlier) (item : String) (m : Nat) :
    Fresh (m :: place) (⟨place, item⟩ :: loops) earlier := by
  rintro l (hl | hl)
  · rcases List.mem_cons.mp hl with rfl | hl
    · intro hsuffix
      have hle : (m :: place).length ≤ place.length := hsuffix.length_le
      rw [List.length_cons] at hle
      omega
    · exact h.child m l (Or.inl hl)
  · exact h.child m l (Or.inr hl)

theorem Expr.loops_of_mem_occurrences {x : Expr} {o : Occurrence} (h : o ∈ x.occurrences loops) :
    o.loops = loops := by
  induction x with
  | ident pos name =>
    rw [List.mem_singleton.mp h]
  | int | str | bool | null => cases h
  | unary _ _ x ih => exact ih h
  | binary _ _ l r ihl ihr => exact (List.mem_append.mp h).elim ihl ihr
  | attr _ x _ ih => exact ih h
  | filter _ x _ ih => exact ih h

theorem Expr.within_of_mem_occurrences {x : Expr} {o : Occurrence} (h : o ∈ x.occurrences loops)
    (place : List Nat) : o.Within place loops := by
  rw [Occurrence.Within, loops_of_mem_occurrences h]
  exact ⟨fun _ hl => hl, fun _ hl => Or.inl hl⟩

theorem Fresh.behind_expr {place : List Nat} (h : Fresh place loops earlier) (x : Expr) :
    Fresh place loops (earlier ++ x.occurrences loops) := by
  rintro l (hl | ⟨o, ho, hl⟩)
  · exact h l (Or.inl hl)
  · rcases List.mem_append.mp ho with ho | ho
    · exact h l (Or.inr ⟨o, ho, hl⟩)
    · exact h l (Or.inl (Expr.loops_of_mem_occurrences ho ▸ hl))

end Names

mutual

theorem Stmt.within_of_mem_occurrences : ∀ (s : Stmt) {place : List Nat}
    {loops : List EnclosingLoop} {o : Occurrence}, o ∈ s.occurrences place loops →
      o.Within place loops
  | .set _ name value, place, _, _, h => by
    rcases List.mem_append.mp h with h | h
    · exact Expr.within_of_mem_occurrences h place
    · rw [List.mem_singleton.mp h]
      exact ⟨fun _ hl => hl, fun _ hl => Or.inl hl⟩
  | .cond _ condition body rest, place, _, _, h => by
    rcases List.mem_append.mp h with h | h
    · exact Expr.within_of_mem_occurrences h place
    · rcases List.mem_append.mp h with h | h
      · exact (within_of_mem_bodyOccurrences body h).of_child
      · exact (rest.within_of_mem_occurrences h).of_child
  | .loop _ item sequence body, place, _, _, h => by
    rcases List.mem_append.mp h with h | h
    · exact Expr.within_of_mem_occurrences h place
    · exact (within_of_mem_bodyOccurrences body h).of_body
  | .block _ _ body, _, _, _, h => within_of_mem_bodyOccurrences body h
  | .output _ _, place, _, _, h => Expr.within_of_mem_occurrences h place
  | .bare _, place, _, _, h => Expr.within_of_mem_occurrences h place

theorem Branches.within_of_mem_occurrences : ∀ (b : Branches) {place : List Nat}
    {loops : List EnclosingLoop} {o : Occurrence}, o ∈ b.occurrences place loops →
      o.Within place loops
  | .done, _, _, _, h => by cases h
  | .otherwise body, _, _, _, h => (within_of_mem_bodyOccurrences body h).of_child
  | .elseIf condition body rest, place, _, _, h => by
    rcases List.mem_append.mp h with h | h
    · exact Expr.within_of_mem_occurrences h place
    · rcases List.mem_append.mp h with h | h
      · exact (within_of_mem_bodyOccurrences body h).of_child
      · exact (rest.within_of_mem_occurrences h).of_child

theorem within_of_mem_bodyOccurrences : ∀ (body : List Stmt) {place : List Nat}
    {loops : List EnclosingLoop} {n : Nat} {o : Occurrence},
      o ∈ bodyOccurrences place loops n body → o.Within place loops
  | [], _, _, _, _, h => by cases h
  | s :: ss, _, _, _, _, h => by
    rcases List.mem_append.mp h with h | h
    · exact (s.within_of_mem_occurrences h).of_child
    · exact within_of_mem_bodyOccurrences ss h

end

/-- The branches behind a body stand at a place of their own. -/
theorem Fresh.behind_body {place : List Nat} {loops : List EnclosingLoop}
    {earlier : List Occurrence} (h : Fresh place loops earlier) (body : List Stmt) :
    Fresh (1 :: place) loops (earlier ++ bodyOccurrences (0 :: place) loops 0 body) :=
  (h.child 1).append Nat.zero_ne_one fun _ ho => within_of_mem_bodyOccurrences body ho

/-! ## The names that are passed along -/

/-- Looking at the occurrences `os` leads from `s` to `s'`. -/
structure ScopeRun (params : List String) (loops : List EnclosingLoop)
    (earlier os : List Occurrence) (s s' : ScopeState) : Prop where
  undefined : s'.undefined = (danglingNames params earlier os).reverse ++ s.undefined
  seen : Sees params loops (earlier ++ os) s'.seen

section Runs

variable {params : List String} {loops : List EnclosingLoop} {earlier os os' : List Occurrence}
  {s s' s'' : ScopeState}

theorem ScopeRun.nil (h : Sees params loops earlier s.seen) :
    ScopeRun params loops earlier [] s s :=
  ⟨by simp [danglingNames], by rwa [List.append_nil]⟩

theorem ScopeRun.append (h : ScopeRun params loops earlier os s s')
    (h' : ScopeRun params loops (earlier ++ os) os' s' s'') :
    ScopeRun params loops earlier (os ++ os') s s'' := by
  refine ⟨?_, ?_⟩
  · rw [h'.undefined, h.undefined, danglingNames_append, List.reverse_append, List.append_assoc]
  · rw [← List.append_assoc]
    exact h'.seen

theorem Expr.danglingNames_occurrences (x : Expr) {seen : List String}
    (h : Sees params loops earlier seen) :
    danglingNames params earlier (x.occurrences loops) = x.undefined seen ∧
      Sees params loops (earlier ++ x.occurrences loops) seen := by
  induction x generalizing earlier with
  | ident pos name =>
    refine ⟨?_, h.reference _ _⟩
    have hdefined := h.defined_iff .reference ⟨name, pos⟩
    simp only [occurrences, danglingNames, Occurrence.Dangling, hdefined, Expr.undefined,
      references, referencesBefore]
    by_cases hseen : isDefined seen name = true <;> simp [hseen]
  | int | str | bool | null =>
    refine ⟨rfl, ?_⟩
    rwa [occurrences, List.append_nil]
  | unary _ _ x ih => exact ih h
  | binary _ _ l r ihl ihr =>
    obtain ⟨hl, hseen⟩ := ihl h
    obtain ⟨hr, hseen⟩ := ihr hseen
    refine ⟨?_, ?_⟩
    · rw [occurrences, danglingNames_append, hl, hr]
      simp only [Expr.undefined, references_binary, List.filter_append]
    · rw [occurrences, ← List.append_assoc]
      exact hseen
  | attr _ x _ ih => exact ih h
  | filter _ x _ ih => exact ih h

theorem ScopeRun.read (h : Sees params loops earlier s.seen) (x : Expr) :
    ScopeRun params loops earlier (x.occurrences loops) s (s.read x) := by
  obtain ⟨hnames, hseen⟩ := x.danglingNames_occurrences h
  exact ⟨by rw [hnames]; rfl, hseen⟩

theorem ScopeRun.bind (h : Sees params loops earlier s.seen) (name : Name) :
    ScopeRun params loops earlier [⟨.binding, name, loops⟩] s (s.bind name) :=
  ⟨by simp [danglingNames, Occurrence.Dangling, ScopeState.bind], h.bind name⟩

/-- The body of a loop is looked at with its name in sight; behind it all is as it was before. -/
theorem ScopeRun.loop {new : EnclosingLoop} {name : Name} (h : Sees params loops earlier s.seen)
    (hnew : new ∉ loops) (hos : ∀ o ∈ os, new ∈ o.loops)
    (hbody : ScopeRun params (new :: loops) earlier os (s.enter name) s') :
    ScopeRun params loops earlier os s { s' with seen := s.seen } :=
  ⟨hbody.undefined, h.leave hnew hos⟩

end Runs

mutual

theorem Stmt.scopeRun (params : List String) : ∀ (stmt : Stmt) {place : List Nat}
    {loops : List EnclosingLoop} {earlier : List Occurrence} {s : ScopeState},
    Fresh place loops earlier → Sees params loops earlier s.seen →
      ScopeRun params loops earlier (stmt.occurrences place loops) s (stmt.scope s)
  | .set _ name value, _, _, _, _, _, h => by
    have hvalue := ScopeRun.read h value
    exact hvalue.append (.bind hvalue.seen name)
  | .cond _ condition body rest, _, _, _, _, hfresh, h => by
    have hcondition := ScopeRun.read h condition
    have hinner := hfresh.behind_expr condition
    have hbody := scopeRun_bodyScope params body 0 (fun m _ => (hinner.child 0).child m)
      hcondition.seen
    have hrest := rest.scopeRun params (hinner.behind_body body) hbody.seen
    exact hcondition.append (hbody.append hrest)
  | .loop _ item sequence body, place, loops, earlier, s, hfresh, h => by
    have hsequence := ScopeRun.read h sequence
    have hinner := hfresh.behind_expr sequence
    -- The loop itself is new: nothing so far lies in its body, and it is not around itself.
    have hnew : ∀ l, (l ∈ loops ∨ ∃ o ∈ earlier ++ sequence.occurrences loops, l ∈ o.loops) →
        l ≠ ⟨place, item.text⟩ := by
      rintro l hl rfl
      exact hinner _ hl List.suffix_rfl
    have henter : Sees params (⟨place, item.text⟩ :: loops)
        (earlier ++ sequence.occurrences loops) ((s.read sequence).enter item).seen :=
      hsequence.seen.enter fun b hb hl => hnew _ (Or.inr ⟨b, hb, hl⟩) rfl
    have hbody := scopeRun_bodyScope params body 0 (fun m _ => hinner.enter item.text m) henter
    refine hsequence.append (.loop hsequence.seen (fun hl => hnew _ (Or.inl hl) rfl) ?_ hbody)
    exact fun o ho => (within_of_mem_bodyOccurrences body ho).1 _ List.mem_cons_self
  | .block _ _ body, _, _, _, _, hfresh, h =>
    scopeRun_bodyScope params body 0 (fun m _ => hfresh.child m) h
  | .output _ value, _, _, _, _, _, h => .read h value
  | .bare value, _, _, _, _, _, h => .read h value

theorem Branches.scopeRun (params : List String) : ∀ (b : Branches) {place : List Nat}
    {loops : List EnclosingLoop} {earlier : List Occurrence} {s : ScopeState},
    Fresh place loops earlier → Sees params loops earlier s.seen →
      ScopeRun params loops earlier (b.occurrences place loops) s (b.scope s)
  | .done, _, _, _, _, _, h => .nil h
  | .otherwise body, _, _, _, _, hfresh, h =>
    scopeRun_bodyScope params body 0 (fun m _ => (hfresh.child 0).child m) h
  | .elseIf condition body rest, _, _, _, _, hfresh, h => by
    have hcondition := ScopeRun.read h condition
    have hinner := hfresh.behind_expr condition
    have hbody := scopeRun_bodyScope params body 0 (fun m _ => (hinner.child 0).child m)
      hcondition.seen
    have hrest := rest.scopeRun params (hinner.behind_body body) hbody.seen
    exact hcondition.append (hbody.append hrest)

theorem scopeRun_bodyScope (params : List String) : ∀ (body : List Stmt) (n : Nat)
    {place : List Nat} {loops : List EnclosingLoop} {earlier : List Occurrence} {s : ScopeState},
    (∀ m, n ≤ m → Fresh (m :: place) loops earlier) → Sees params loops earlier s.seen →
      ScopeRun params loops earlier (bodyOccurrences place loops n body) s (bodyScope s body)
  | [], _, _, _, _, _, _, h => .nil h
  | stmt :: body, n, place, loops, earlier, s, hfresh, h => by
    have hstmt := stmt.scopeRun params (hfresh n (Nat.le_refl n)) h
    have hlater : ∀ m, n + 1 ≤ m →
        Fresh (m :: place) loops (earlier ++ stmt.occurrences (n :: place) loops) := by
      intro m hm
      have hne : n ≠ m := Nat.ne_of_lt hm
      exact (hfresh m (Nat.le_of_succ_le hm)).append hne fun o ho =>
        stmt.within_of_mem_occurrences ho
    exact hstmt.append (scopeRun_bodyScope params body (n + 1) hlater hstmt.seen)

end

/-- `undefinedNames` has one finding for every reference that is not `Defined`, in the order of the
references and at their lines, and no others. -/
theorem undefinedNames_eq (file : String) (params : List String) (t : Template) :
    undefinedNames file params t =
      (t.occurrences.zipIdx.filter fun p =>
        p.1.usage = .reference ∧ ¬ p.1.Defined params (t.occurrences.take p.2)).map fun p =>
          ⟨file, max 1 p.1.name.pos.line, .undefinedName p.1.name.text, none⟩ := by
  have hfresh : ∀ m, 0 ≤ m → Fresh [m] [] [] := by
    rintro m - l (hl | ⟨o, ho, -⟩)
    · cases hl
    · cases ho
  have hseen : Sees params [] [] params := by
    intro x
    simp
  have hrun : ScopeRun params [] [] t.occurrences ⟨[], params⟩ (bodyScope ⟨[], params⟩ t) :=
    scopeRun_bodyScope params t 0 hfresh hseen
  have hnames : t.undefined params = danglingNames params [] t.occurrences := by
    rw [Template.undefined, hrun.undefined, List.append_nil, List.reverse_reverse]
  rw [undefinedNames, hnames, ← map_filter_zipIdx_eq_danglingNames, List.map_map]
  rfl

/-- A `set` is seen behind its value, up to the end of the loop that it stands in. -/
example :
    let x (line : Nat) : Expr := .ident ⟨line, 1⟩ "x"
    let body : List Stmt := [.set ⟨2, 1⟩ ⟨"x", ⟨2, 5⟩⟩ (x 2), .bare (x 3)]
    undefinedNames "page" [] [.loop ⟨1, 1⟩ ⟨"i", ⟨1, 5⟩⟩ (.int ⟨1, 9⟩ 1) body, .bare (x 5)] =
      [⟨"page", 2, .undefinedName "x", none⟩, ⟨"page", 5, .undefinedName "x", none⟩] := by
  decide

end Templates
