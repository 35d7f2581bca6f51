import Templates.Lint

/-!
# Frames of names

`bodyScope` passes one list of names along and puts it back behind a loop. `Template.inspect` finds
the same references with a stack of frames (`ScopeFrames`). The root frame holds the parameters,
`declare` adds a name to the innermost frame, and the body of a loop has a frame of its own, from
`pushFrame` to `popFrame`.

A statement changes no frame but the innermost one (`Stmt.over_inspect`), so `popFrame` gives back
the frames in front of the loop. At each step the frames hold the names of `ScopeState.seen`
(`Shows`), and in the end the findings are those of `undefinedNames`
(`Template.inspect_eq_undefinedNames`).
-/

namespace Templates

/-! ## The stack -/

/-- The frames of names at some place in a template and the findings up to there. -/
structure ScopeFrames where
  /-- The file that the findings are about. -/
  file : String
  /-- The names of each frame, innermost frame first. -/
  frames : List (List String)
  /-- The references without a meaning so far, in order. -/
  findings : List Diagnostic
  deriving DecidableEq, Repr

namespace ScopeFrames

/-- A root frame with the parameters and no finding. -/
def start (file : String) (params : List String) : ScopeFrames := ⟨file, [params], []⟩

/-- Puts an empty frame on the stack. -/
def pushFrame (a : ScopeFrames) : ScopeFrames := { a with frames := [] :: a.frames }

/-- Takes the innermost frame off the stack, unless it is the root frame. -/
def popFrame (a : ScopeFrames) : ScopeFrames :=
  match a.frames with
  | _ :: f :: fs => { a with frames := f :: fs }
  | _ => a

/-- Adds a name to the innermost frame. -/
def declare (a : ScopeFrames) (name : String) : ScopeFrames :=
  match a.frames with
  | f :: fs => { a with frames := f.insert name :: fs }
  | [] => a

/-- The name is built in or is in some frame. -/
def defines (a : ScopeFrames) (name : String) : Bool :=
  isBuiltin name || a.frames.any fun f => f.contains name

/-- The finding about a reference without a meaning. -/
def finding (file : String) (r : Name) : Diagnostic :=
  ⟨file, max 1 r.pos.line, .undefinedName r.text, none⟩

/-- Adds a finding behind the others. -/
def report (a : ScopeFrames) (r : Name) : ScopeFrames :=
  { a with findings := a.findings ++ [finding a.file r] }

end ScopeFrames

/-! ## The walk -/

/-- Looks at the references in an expression. -/
def Expr.inspect : Expr → ScopeFrames → ScopeFrames
  | .ident pos name, a => if a.defines name then a else a.report ⟨name, pos⟩
  | .int .., a | .str .., a | .bool .., a | .null .., a => a
  | .unary _ _ x, a => x.inspect a
  | .binary _ _ l r, a => r.inspect (l.inspect a)
  | .attr _ x _, a => x.inspect a
  | .filter _ x _, a => x.inspect a

mutual

/-- Looks at a statement. -/
def Stmt.inspect : Stmt → ScopeFrames → ScopeFrames
  | .set _ name value, a => (value.inspect a).declare name.text
  | .cond _ condition body rest, a => rest.inspect (inspectBody body (condition.inspect a))
  | .loop _ item sequence body, a =>
    (inspectBody body ((sequence.inspect a).pushFrame.declare item.text)).popFrame
  | .block _ _ body, a => inspectBody body a
  | .output _ value, a => value.inspect a
  | .bare value, a => value.inspect a

/-- Looks at the branches of a conditional behind one of them. -/
def Branches.inspect : Branches → ScopeFrames → ScopeFrames
  | .done, a => a
  | .otherwise body, a => inspectBody body a
  | .elseIf condition body rest, a => rest.inspect (inspectBody body (condition.inspect a))

/-- Looks at a body, one statement after the other. -/
def inspectBody : List Stmt → ScopeFrames → ScopeFrames
  | [], a => a
  | s :: ss, a => inspectBody ss (s.inspect a)

end

/-- The findings about the references of a template, given its parameters. -/
def Template.inspect (file : String) (params : List String) (t : Template) : List Diagnostic :=
  (inspectBody t (.start file params)).findings

/-! ## The frames behind a statement -/

namespace ScopeFrames

/-- The frames `fs` and an innermost one above them. -/
def Over (fs : List (List String)) (a : ScopeFrames) : Prop := ∃ f, a.frames = f :: fs

variable {fs : List (List String)} {a : ScopeFrames}

theorem over_pushFrame (a : ScopeFrames) : a.pushFrame.Over a.frames := ⟨[], rfl⟩

theorem Over.declare (h : a.Over fs) (name : String) : (a.declare name).Over fs := by
  obtain ⟨f, hf⟩ := h
  rw [ScopeFrames.declare, hf]
  exact ⟨f.insert name, rfl⟩

theorem Over.ne_nil (h : a.Over fs) : a.frames ≠ [] := by
  obtain ⟨f, hf⟩ := h
  rw [hf]
  exact List.cons_ne_nil _ _

/-- The frame that is taken off is not the root frame. -/
theorem Over.popFrame (h : a.Over fs) (hfs : fs ≠ []) : a.popFrame = { a with frames := fs } := by
  obtain ⟨f, hf⟩ := h
  obtain ⟨g, gs, rfl⟩ := List.exists_cons_of_ne_nil hfs
  rw [ScopeFrames.popFrame, hf]

/-- The lookup does not depend on the frame that a name is in. -/
theorem defines_eq (a : ScopeFrames) (name : String) :
    a.defines name = isDefined a.frames.flatten name := by
  rw [defines, isDefined, Bool.or_comm, List.contains_flatten]

end ScopeFrames

/-- An expression adds the findings about its own references and leaves the frames as they are. -/
theorem Expr.inspect_eq (x : Expr) (a : ScopeFrames) :
    x.inspect a =
      { a with
        findings := a.findings ++
          (x.undefined a.frames.flatten).map (ScopeFrames.finding a.file) } := by
  induction x generalizing a with
  | ident pos name =>
    rw [inspect, a.defines_eq]
    cases hname : isDefined a.frames.flatten name <;>
      simp [undefined, references, referencesBefore, hname, ScopeFrames.report]
  | int | str | bool | null => simp [inspect, undefined, references, referencesBefore]
  | unary _ _ x ih | attr _ x _ ih | filter _ x _ ih => exact ih a
  | binary _ _ l r ihl ihr =>
    rw [inspect, ihl, ihr]
    simp only [undefined, references_binary, List.filter_append, List.map_append,
      List.append_assoc]

theorem Expr.over_inspect {fs : List (List String)} {a : ScopeFrames} (x : Expr) (h : a.Over fs) :
    (x.inspect a).Over fs := by
  rw [x.inspect_eq]
  exact h

mutual

/-- A statement changes no frame but the innermost one. -/
theorem Stmt.over_inspect {fs : List (List String)} : ∀ (s : Stmt) {a : ScopeFrames}, a.Over fs →
    (s.inspect a).Over fs
  | .set _ name value, _, h => (value.over_inspect h).declare name.text
  | .cond _ condition body rest, _, h =>
    rest.over_inspect (over_inspectBody body (condition.over_inspect h))
  | .loop _ item sequence body, a, h => by
    have hsequence := sequence.over_inspect h
    have hitem := (sequence.inspect a).over_pushFrame.declare item.text
    have hbody := over_inspectBody body hitem
    rw [Stmt.inspect, hbody.popFrame hsequence.ne_nil]
    exact hsequence
  | .block _ _ body, _, h => over_inspectBody body h
  | .output _ value, _, h => value.over_inspect h
  | .bare value, _, h => value.over_inspect h

theorem Branches.over_inspect {fs : List (List String)} : ∀ (rest : Branches) {a : ScopeFrames},
    a.Over fs → (rest.inspect a).Over fs
  | .done, _, h => h
  | .otherwise body, _, h => over_inspectBody body h
  | .elseIf condition body rest, _, h =>
    rest.over_inspect (over_inspectBody body (condition.over_inspect h))

theorem over_inspectBody {fs : List (List String)} : ∀ (body : List Stmt) {a : ScopeFrames},
    a.Over fs → (inspectBody body a).Over fs
  | [], _, h => h
  | s :: ss, _, h => over_inspectBody ss (s.over_inspect h)

end

/-! ## Frames and visible names -/

namespace ScopeFrames

/-- The frames hold the names that can be seen, and the findings are about the same references. -/
structure Shows (file : String) (s : ScopeState) (a : ScopeFrames) : Prop where
  file_eq : a.file = file
  mem_seen : ∀ x, x ∈ s.seen ↔ x ∈ a.frames.flatten
  findings : a.findings = s.undefined.reverse.map (finding file)

variable {file : String} {s : ScopeState} {a : ScopeFrames}

theorem shows_start (file : String) (params : List String) :
    (start file params).Shows file ⟨[], params⟩ := by
  refine ⟨rfl, ?_, rfl⟩
  intro x
  simp [start]

theorem Shows.inspect (h : a.Shows file s) (x : Expr) : (x.inspect a).Shows file (s.read x) := by
  have hundefined : x.undefined s.seen = x.undefined a.frames.flatten := by
    refine List.filter_congr fun r _ => ?_
    simp only [isDefined, List.contains_eq_mem, h.mem_seen]
  rw [x.inspect_eq]
  refine ⟨h.file_eq, h.mem_seen, ?_⟩
  simp only [ScopeState.read, List.reverse_append, List.reverse_reverse, List.map_append,
    h.findings, h.file_eq, hundefined]

theorem Shows.declare {fs : List (List String)} (h : a.Shows file s) (hover : a.Over fs)
    (name : Name) : (a.declare name.text).Shows file (s.bind name) := by
  obtain ⟨f, hf⟩ := hover
  have hframes : a.declare name.text = { a with frames := f.insert name.text :: fs } := by
    rw [ScopeFrames.declare, hf]
  rw [hframes]
  refine ⟨h.file_eq, ?_, h.findings⟩
  intro x
  simp [ScopeState.bind, h.mem_seen, hf, or_assoc]

/-- The names that can be seen in the body of a loop. -/
theorem Shows.pushFrame (h : a.Shows file s) (item : Name) :
    (a.pushFrame.declare item.text).Shows file (s.enter item) := by
  refine ⟨h.file_eq, ?_, h.findings⟩
  intro x
  simp [ScopeState.enter, ScopeFrames.pushFrame, ScopeFrames.declare, h.mem_seen]

/-- Behind the body of a loop the names are those in front of it. -/
theorem Shows.popFrame {s' : ScopeState} {a' : ScopeFrames} (h : a.Shows file s)
    (h' : a'.Shows file s') (hover : a'.Over a.frames) (hne : a.frames ≠ []) :
    a'.popFrame.Shows file { s' with seen := s.seen } := by
  rw [hover.popFrame hne]
  exact ⟨h'.file_eq, h.mem_seen, h'.findings⟩

end ScopeFrames

section Walk

variable {file : String}

mutual

/-- A statement keeps the frames and the visible names alike. -/
theorem Stmt.shows_inspect : ∀ (stmt : Stmt) {s : ScopeState} {a : ScopeFrames}
    {fs : List (List String)}, a.Over fs → a.Shows file s →
    (stmt.inspect a).Shows file (stmt.scope s)
  | .set _ name value, _, _, _, hover, h =>
    (h.inspect value).declare (value.over_inspect hover) name
  | .cond _ condition body rest, _, _, _, hover, h => by
    have hcondition := condition.over_inspect hover
    exact rest.shows_inspect (over_inspectBody body hcondition)
      (shows_inspectBody body hcondition (h.inspect condition))
  | .loop _ item sequence body, _, a, _, hover, h => by
    have hsequence := h.inspect sequence
    have hitem := (sequence.inspect a).over_pushFrame.declare item.text
    have hbody := shows_inspectBody body hitem (hsequence.pushFrame item)
    exact hsequence.popFrame hbody (over_inspectBody body hitem)
      (sequence.over_inspect hover).ne_nil
  | .block _ _ body, _, _, _, hover, h => shows_inspectBody body hover h
  | .output _ value, _, _, _, _, h => h.inspect value
  | .bare value, _, _, _, _, h => h.inspect value

theorem Branches.shows_inspect : ∀ (rest : Branches) {s : ScopeState} {a : ScopeFrames}
    {fs : List (List String)}, a.Over fs → a.Shows file s →
    (rest.inspect a).Shows file (rest.scope s)
  | .done, _, _, _, _, h => h
  | .otherwise body, _, _, _, hover, h => shows_inspectBody body hover h
  | .elseIf condition body rest, _, _, _, hover, h => by
    have hcondition := condition.over_inspect hover
    exact rest.shows_inspect (over_inspectBody body hcondition)
      (shows_inspectBody body hcondition (h.inspect condition))

theorem shows_inspectBody : ∀ (body : List Stmt) {s : ScopeState} {a : ScopeFrames}
    {fs : List (List String)}, a.Over fs → a.Shows file s →
    (inspectBody body a).Shows file (bodyScope s body)
  | [], _, _, _, _, h => h
  | stmt :: body, _, _, _, hover, h =>
    shows_inspectBody body (stmt.over_inspect hover) (stmt.shows_inspect hover h)

end

end Walk

/-- The findings of the walk with frames are those of `undefinedNames`. -/
theorem Template.inspect_eq_undefinedNames (file : String) (params : List String) (t : Template) :
    Template.inspect file params t = undefinedNames file params t := by
  have hover : (ScopeFrames.start file params).Over [] := ⟨params, rfl⟩
  have hwalk := shows_inspectBody t hover (ScopeFrames.shows_start file params)
  exact hwalk.findings

end Templates
