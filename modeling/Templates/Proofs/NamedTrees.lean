import Templates.Proofs.TextLexemes

/-!
# Trees with proper names

An expression is `Named` if every name in it is an `IsName`, so that the texts of two expressions
can be told apart. Numbers may be negative here, although no text is read as a negative number: a
`Spellable` tree is `Named`, but not the other way round.
-/

namespace Templates

/-- Every name in the expression is one. -/
def Expr.Named : Expr → Prop
  | ident _ name => IsName name
  | int .. | str .. | bool .. | null _ => True
  | unary _ _ x => x.Named
  | binary _ _ l r => l.Named ∧ r.Named
  | attr _ x name | filter _ x name => x.Named ∧ IsName name

theorem Expr.Spellable.named {x : Expr} (h : x.Spellable) : x.Named := by
  induction x with
  | ident => exact h
  | int | str | bool | null => trivial
  | unary _ _ x ih => exact ih h
  | binary _ _ l r ihl ihr => exact ⟨ihl h.1, ihr h.2⟩
  | attr _ x name ih => exact ⟨ih h.1, h.2⟩
  | filter _ x name ih => exact ⟨ih h.1, h.2⟩

mutual

def Stmt.Named : Stmt → Prop
  | .set _ name value => IsName name.text ∧ value.Named
  | .cond _ condition body rest => condition.Named ∧ BodyNamed body ∧ rest.Named
  | .loop _ item sequence body => IsName item.text ∧ sequence.Named ∧ BodyNamed body
  | .block _ name body => (∀ n ∈ name, IsName n.text) ∧ BodyNamed body
  | .output _ value => value.Named
  | .bare value => value.Named

def Branches.Named : Branches → Prop
  | .done => True
  | .otherwise body => BodyNamed body
  | .elseIf condition body rest => condition.Named ∧ BodyNamed body ∧ rest.Named

/-- Every name in the body is one. -/
def BodyNamed : List Stmt → Prop
  | [] => True
  | s :: ss => s.Named ∧ BodyNamed ss

end

mutual

theorem Stmt.Spellable.named : ∀ {s : Stmt}, s.Spellable → s.Named
  | .set .., h => ⟨h.1, h.2.named⟩
  | .cond .., h => ⟨h.1.named, h.2.1.named, h.2.2.named⟩
  | .loop .., h => ⟨h.1, h.2.1.named, h.2.2.named⟩
  | .block .., h => ⟨h.1, h.2.named⟩
  | .output _ value, h => Expr.Spellable.named (x := value) h
  | .bare value, h => Expr.Spellable.named (x := value) h

theorem Branches.Spellable.named : ∀ {rest : Branches}, rest.Spellable → rest.Named
  | .done, _ => trivial
  | .otherwise body, h => by
    have hbody : BodySpellable body := h
    exact hbody.named
  | .elseIf .., h => ⟨h.1.named, h.2.1.named, h.2.2.named⟩

theorem BodySpellable.named : ∀ {body : List Stmt}, BodySpellable body → BodyNamed body
  | [], _ => trivial
  | _ :: _, h => ⟨h.1.named, h.2.named⟩

end

end Templates
