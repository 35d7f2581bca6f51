import Templates.Layout
import Templates.Proofs.ExprGrammar

/-!
# The grammar of templates

Two relations between lists of tokens and templates. `IsTemplate` is the grammar as one writes it
down: it says which lists of tokens are templates, and it is ambiguous, because `a` and `-b` in
succession are two bare expressions and one subtraction. `BodyReading` settles that and gives the
tree: no operator follows a bare expression, so an expression takes all it can.

The main fact of this module is `IsTemplate.exists_bodyReading`: every `IsTemplate` has a
`BodyReading`. Where a bare expression is followed by one that begins with a minus sign, the two are
a single expression (`Layer.Derives.fuse`).
-/

namespace Templates

/-- `TagAt pos word inner ts`: the tokens `ts` are a statement tag at `pos` with this word, and the
tokens `inner` stand between the word and the closing delimiter. -/
inductive TagAt (pos : Position) (word : Keyword) (inner : List Token) : List Token → Prop
  | mk {o w c : Token} (ho : o.kind = .punctuation .tagOpen) (hpos : o.pos = pos)
    (hw : w.kind = .keyword word) (hc : c.kind = .punctuation .tagClose) :
    TagAt pos word inner (o :: w :: (inner ++ [c]))

/-! ## The grammar -/

mutual

/-- The tokens are a template: statements in a row. -/
inductive IsTemplate : List Token → Prop
  | nil : IsTemplate []
  | cons {ts us : List Token} (h : IsStmt ts) (hs : IsTemplate us) : IsTemplate (ts ++ us)

/-- The tokens are a statement. -/
inductive IsStmt : List Token → Prop
  /-- An expression. -/
  | bare {ts : List Token} (hx : IsExpr ts) : IsStmt ts
  /-- An expression between `{{` and `}}`. -/
  | output {o c : Token} {ts : List Token} (ho : o.kind = .punctuation .outputOpen) (hx : IsExpr ts)
    (hc : c.kind = .punctuation .outputClose) : IsStmt (o :: (ts ++ [c]))
  /-- A `set` tag. -/
  | set {pos : Position} {n a : Token} {ts us : List Token} (hn : n.kind = .ident)
    (ha : a.kind = .operator .assign) (hx : IsExpr us) (ht : TagAt pos .set (n :: a :: us) ts) :
    IsStmt ts
  /-- An `if` tag, a body and what follows that. -/
  | cond {pos : Position} {ts us vs ws : List Token} (hx : IsExpr us) (ht : TagAt pos .if_ us ts)
    (hb : IsTemplate vs) (hr : IsBranches ws) : IsStmt (ts ++ (vs ++ ws))
  /-- A `for` tag, a body and an `endfor` tag. -/
  | loop {pos last : Position} {n i : Token} {ts us vs ws : List Token} (hn : n.kind = .ident)
    (hi : i.kind = .keyword .in_) (hx : IsExpr us) (ht : TagAt pos .for_ (n :: i :: us) ts)
    (hb : IsTemplate vs) (hend : TagAt last .endfor [] ws) : IsStmt (ts ++ (vs ++ ws))
  /-- A `block` tag with a name or without one, a body and an `endblock` tag. -/
  | block {pos last : Position} {n : Option Token} {ts vs ws : List Token}
    (hn : ∀ t ∈ n, t.kind = .ident) (ht : TagAt pos .block n.toList ts) (hb : IsTemplate vs)
    (hend : TagAt last .endblock [] ws) : IsStmt (ts ++ (vs ++ ws))

/-- The tokens are what follows the first body of a conditional. -/
inductive IsBranches : List Token → Prop
  /-- An `endif` tag. -/
  | done {pos : Position} {ts : List Token} (ht : TagAt pos .endif [] ts) : IsBranches ts
  /-- An `else` tag, a body and an `endif` tag. -/
  | otherwise {pos last : Position} {ts us vs : List Token} (ht : TagAt pos .else_ [] ts)
    (hb : IsTemplate us) (hend : TagAt last .endif [] vs) : IsBranches (ts ++ (us ++ vs))
  /-- An `elif` tag, a body and what follows that. -/
  | elseIf {pos : Position} {ts us vs ws : List Token} (hx : IsExpr us) (ht : TagAt pos .elif us ts)
    (hb : IsTemplate vs) (hr : IsBranches ws) : IsBranches (ts ++ (vs ++ ws))

end

/-! ## Which template they are -/

/-- The name that a token gives. -/
def Token.name (t : Token) : Name := ⟨t.literal, t.pos⟩

/-- The tokens begin with one that cannot extend an expression. -/
def Stops (ts : List Token) : Prop := ∃ t us, ts = t :: us ∧ t.kind.precedence? = none

mutual

/-- `BodyReading ts body`: the tokens `ts` read as the statements `body`. -/
inductive BodyReading : List Token → List Stmt → Prop
  | nil : BodyReading [] []
  | cons {ts us : List Token} {s : Stmt} {body : List Stmt} (h : StmtReading ts s)
    (hs : BodyReading us body) (hnext : s.isBare → us ≠ [] → Stops us) :
    BodyReading (ts ++ us) (s :: body)

/-- `StmtReading ts s`: the tokens `ts` read as the statement `s`. -/
inductive StmtReading : List Token → Stmt → Prop
  | bare {ts : List Token} {x : Expr} (hx : Layer.Derives .equality ts x) :
    StmtReading ts (.bare x)
  | output {o c : Token} {ts : List Token} {x : Expr} (ho : o.kind = .punctuation .outputOpen)
    (hx : Layer.Derives .equality ts x) (hc : c.kind = .punctuation .outputClose) :
    StmtReading (o :: (ts ++ [c])) (.output o.pos x)
  | set {pos : Position} {n a : Token} {ts us : List Token} {x : Expr} (hn : n.kind = .ident)
    (ha : a.kind = .operator .assign) (hx : Layer.Derives .equality us x)
    (ht : TagAt pos .set (n :: a :: us) ts) : StmtReading ts (.set pos n.name x)
  | cond {pos : Position} {ts us vs ws : List Token} {x : Expr} {body : List Stmt} {rest : Branches}
    (hx : Layer.Derives .equality us x) (ht : TagAt pos .if_ us ts) (hb : BodyReading vs body)
    (hr : BranchesReading ws rest) : StmtReading (ts ++ (vs ++ ws)) (.cond pos x body rest)
  | loop {pos last : Position} {n i : Token} {ts us vs ws : List Token} {x : Expr}
    {body : List Stmt} (hn : n.kind = .ident) (hi : i.kind = .keyword .in_)
    (hx : Layer.Derives .equality us x) (ht : TagAt pos .for_ (n :: i :: us) ts)
    (hb : BodyReading vs body) (hend : TagAt last .endfor [] ws) :
    StmtReading (ts ++ (vs ++ ws)) (.loop pos n.name x body)
  | block {pos last : Position} {n : Option Token} {ts vs ws : List Token} {body : List Stmt}
    (hn : ∀ t ∈ n, t.kind = .ident) (ht : TagAt pos .block n.toList ts) (hb : BodyReading vs body)
    (hend : TagAt last .endblock [] ws) :
    StmtReading (ts ++ (vs ++ ws)) (.block pos (n.map Token.name) body)

/-- `BranchesReading ts rest`: the tokens `ts` read as the branches `rest` behind a body. -/
inductive BranchesReading : List Token → Branches → Prop
  | done {pos : Position} {ts : List Token} (ht : TagAt pos .endif [] ts) : BranchesReading ts .done
  | otherwise {pos last : Position} {ts us vs : List Token} {body : List Stmt}
    (ht : TagAt pos .else_ [] ts) (hb : BodyReading us body) (hend : TagAt last .endif [] vs) :
    BranchesReading (ts ++ (us ++ vs)) (.otherwise body)
  | elseIf {pos : Position} {ts us vs ws : List Token} {x : Expr} {body : List Stmt}
    {rest : Branches} (hx : Layer.Derives .equality us x) (ht : TagAt pos .elif us ts)
    (hb : BodyReading vs body) (hr : BranchesReading ws rest) :
    BranchesReading (ts ++ (vs ++ ws)) (.elseIf x body rest)

end

mutual

/-- The tokens of a `BodyReading` are an `IsTemplate`. -/
theorem BodyReading.isTemplate : ∀ {ts : List Token} {body : List Stmt}, BodyReading ts body →
    IsTemplate ts
  | _, _, .nil => .nil
  | _, _, .cons h hs _ => .cons h.isStmt hs.isTemplate

theorem StmtReading.isStmt : ∀ {ts : List Token} {s : Stmt}, StmtReading ts s → IsStmt ts
  | _, _, .bare hx => .bare ⟨_, hx⟩
  | _, _, .output ho hx hc => .output ho ⟨_, hx⟩ hc
  | _, _, .set hn ha hx ht => .set hn ha ⟨_, hx⟩ ht
  | _, _, .cond hx ht hb hr => .cond ⟨_, hx⟩ ht hb.isTemplate hr.isBranches
  | _, _, .loop hn hi hx ht hb hend => .loop hn hi ⟨_, hx⟩ ht hb.isTemplate hend
  | _, _, .block hn ht hb hend => .block hn ht hb.isTemplate hend

theorem BranchesReading.isBranches : ∀ {ts : List Token} {rest : Branches},
    BranchesReading ts rest → IsBranches ts
  | _, _, .done ht => .done ht
  | _, _, .otherwise ht hb hend => .otherwise ht hb.isTemplate hend
  | _, _, .elseIf hx ht hb hr => .elseIf ⟨_, hx⟩ ht hb.isTemplate hr.isBranches

end

theorem TagAt.ne_eof {pos : Position} {word : Keyword} {inner ts : List Token}
    (h : TagAt pos word inner ts) (hinner : ∀ t ∈ inner, t.kind ≠ .eof) :
    ∀ t ∈ ts, t.kind ≠ .eof := by
  obtain ⟨ho, -, hw, hc⟩ := h
  simpa [or_imp, forall_and, ho, hw, hc] using hinner

mutual

theorem BodyReading.ne_eof : ∀ {ts : List Token} {body : List Stmt}, BodyReading ts body →
    ∀ t ∈ ts, t.kind ≠ .eof
  | _, _, .nil => nofun
  | _, _, .cons h hs _ => List.forall_mem_append.mpr ⟨h.ne_eof, hs.ne_eof⟩

theorem StmtReading.ne_eof : ∀ {ts : List Token} {s : Stmt}, StmtReading ts s →
    ∀ t ∈ ts, t.kind ≠ .eof
  | _, _, .bare hx => hx.ne_eof
  | _, _, .output ho hx hc => by simpa [or_imp, forall_and, ho, hc] using hx.ne_eof
  | _, _, .set hn ha hx ht => ht.ne_eof (by simpa [hn, ha] using hx.ne_eof)
  | _, _, .cond hx ht hb hr => by
    have htag := ht.ne_eof hx.ne_eof
    exact List.forall_mem_append.mpr ⟨htag, List.forall_mem_append.mpr ⟨hb.ne_eof, hr.ne_eof⟩⟩
  | _, _, .loop hn hi hx ht hb hend => by
    have htag := ht.ne_eof (by simpa [hn, hi] using hx.ne_eof)
    exact List.forall_mem_append.mpr
      ⟨htag, List.forall_mem_append.mpr ⟨hb.ne_eof, hend.ne_eof nofun⟩⟩
  | _, _, .block hn ht hb hend => by
    have htag := ht.ne_eof (by simpa using fun t ht => by simp [hn t ht])
    exact List.forall_mem_append.mpr
      ⟨htag, List.forall_mem_append.mpr ⟨hb.ne_eof, hend.ne_eof nofun⟩⟩

theorem BranchesReading.ne_eof : ∀ {ts : List Token} {rest : Branches}, BranchesReading ts rest →
    ∀ t ∈ ts, t.kind ≠ .eof
  | _, _, .done ht => ht.ne_eof nofun
  | _, _, .otherwise ht hb hend =>
    List.forall_mem_append.mpr
      ⟨ht.ne_eof nofun, List.forall_mem_append.mpr ⟨hb.ne_eof, hend.ne_eof nofun⟩⟩
  | _, _, .elseIf hx ht hb hr =>
    List.forall_mem_append.mpr
      ⟨ht.ne_eof hx.ne_eof, List.forall_mem_append.mpr ⟨hb.ne_eof, hr.ne_eof⟩⟩

end

/-! ## What the grammar allows can be read -/

theorem Stops.append {ts : List Token} (h : Stops ts) (us : List Token) : Stops (ts ++ us) := by
  obtain ⟨t, ts, rfl, ht⟩ := h
  exact ⟨t, ts ++ us, rfl, ht⟩

theorem Stops.ne_nil {ts : List Token} (h : Stops ts) : ts ≠ [] := by
  obtain ⟨t, us, rfl, -⟩ := h
  simp

theorem TagAt.stops {pos : Position} {word : Keyword} {inner ts : List Token}
    (h : TagAt pos word inner ts) : Stops ts := by
  obtain ⟨ho, -, -, -⟩ := h
  exact ⟨_, _, rfl, by simp [ho, TokenKind.precedence?]⟩

/-- Only a bare expression can begin with an operator. -/
theorem StmtReading.bare_or_stops {ts : List Token} {s : Stmt} (h : StmtReading ts s) :
    (∃ x, s = .bare x ∧ Layer.Derives .equality ts x) ∨ s.isBare = false ∧ Stops ts := by
  cases h with
  | bare hx => exact Or.inl ⟨_, rfl, hx⟩
  | output ho => exact Or.inr ⟨rfl, _, _, rfl, by simp [ho, TokenKind.precedence?]⟩
  | set _ _ _ ht => exact Or.inr ⟨rfl, ht.stops⟩
  | cond _ ht => exact Or.inr ⟨rfl, ht.stops.append _⟩
  | loop _ _ _ ht => exact Or.inr ⟨rfl, ht.stops.append _⟩
  | block _ ht => exact Or.inr ⟨rfl, ht.stops.append _⟩

theorem BranchesReading.stops {ts : List Token} {rest : Branches} (h : BranchesReading ts rest) :
    Stops ts := by
  cases h with
  | done ht => exact ht.stops
  | otherwise ht => exact ht.stops.append _
  | elseIf _ ht => exact ht.stops.append _

theorem StmtReading.ne_nil {ts : List Token} {s : Stmt} (h : StmtReading ts s) : ts ≠ [] := by
  rcases h.bare_or_stops with ⟨x, -, hx⟩ | ⟨-, hstop⟩
  · exact hx.ne_nil
  · exact hstop.ne_nil

theorem BodyReading.eq_nil {body : List Stmt} (h : BodyReading [] body) : body = [] := by
  generalize hts : ([] : List Token) = ts at h
  cases h with
  | nil => rfl
  | cons hs _ _ => exact absurd (List.append_eq_nil_iff.mp hts.symm).1 hs.ne_nil

/-- A body is extended by a statement that its last expression does not run into. -/
theorem BodyReading.concat {ts us : List Token} {s : Stmt} {body : List Stmt}
    (h : BodyReading ts body) (hs : StmtReading us s)
    (hnext : ∀ b ∈ body.getLast?, b.isBare → Stops us) : BodyReading (ts ++ us) (body ++ [s]) := by
  induction body generalizing ts with
  | nil =>
    cases h
    have hread := BodyReading.cons hs .nil fun _ hne => absurd rfl hne
    rwa [List.append_nil] at hread
  | cons b body ih =>
    cases h with
    | @cons vs ws _ _ hb hbody hstop =>
      have hlast : ∀ c ∈ body.getLast?, c.isBare → Stops us := by
        intro c hc
        cases body with
        | nil => cases hc
        | cons d body => exact hnext c (by rwa [List.getLast?_cons_cons])
      rw [List.append_assoc]
      refine .cons hb (ih hbody hlast) fun hbare _ => ?_
      by_cases hws : ws = []
      · subst hws
        cases hbody.eq_nil
        exact hnext b rfl hbare
      · exact (hstop hbare hws).append us

/-- A statement can be put in front of a body. Where it is a bare expression that a minus sign
follows, it takes in the expression that begins there. -/
theorem StmtReading.exists_cons {ts us : List Token} {s : Stmt} {body : List Stmt}
    (h : StmtReading ts s) (hs : BodyReading us body) : ∃ body', BodyReading (ts ++ us) body' := by
  -- Only a bare expression in front of a minus sign cannot be read as it stands; the expression
  -- behind it is then fused with it.
  by_cases hnext : s.isBare → us ≠ [] → Stops us
  · exact ⟨_, .cons h hs hnext⟩
  · simp only [Classical.not_imp] at hnext
    obtain ⟨hbare, hne, hstop⟩ := hnext
    rcases h.bare_or_stops with ⟨x, rfl, hx⟩ | ⟨hs', -⟩
    · cases hs with
      | nil => exact absurd rfl hne
      | @cons vs ws s body hs hbody hnext =>
        rcases hs.bare_or_stops with ⟨y, rfl, hy⟩ | ⟨-, hvs⟩
        · obtain ⟨m, vs, rfl⟩ := List.exists_cons_of_ne_nil hy.ne_nil
          have hm : m.kind = .operator .minus :=
            hy.head_eq_minus rfl fun hp => hstop ⟨m, vs ++ ws, rfl, hp⟩
          obtain ⟨z, hz⟩ := hy.fuse hm (Layer.equality_le _) hx
          rw [← List.append_assoc]
          exact ⟨_, .cons (.bare hz) hbody fun _ => hnext rfl⟩
        · exact absurd (hvs.append ws) hstop
    · simp [hs'] at hbare

mutual

/-- Every `IsTemplate` has a `BodyReading`. -/
theorem IsTemplate.exists_bodyReading : ∀ {ts : List Token}, IsTemplate ts →
    ∃ body, BodyReading ts body
  | _, .nil => ⟨[], .nil⟩
  | _, .cons h hs => by
    obtain ⟨s, hread⟩ := h.exists_stmtReading
    obtain ⟨body, hbody⟩ := hs.exists_bodyReading
    exact hread.exists_cons hbody

theorem IsStmt.exists_stmtReading : ∀ {ts : List Token}, IsStmt ts → ∃ s, StmtReading ts s
  | _, .bare ⟨_, hx⟩ => ⟨_, .bare hx⟩
  | _, .output ho ⟨_, hx⟩ hc => ⟨_, .output ho hx hc⟩
  | _, .set hn ha ⟨_, hx⟩ ht => ⟨_, .set hn ha hx ht⟩
  | _, .cond ⟨_, hx⟩ ht hb hr => by
    obtain ⟨body, hbody⟩ := hb.exists_bodyReading
    obtain ⟨rest, hrest⟩ := hr.exists_branchesReading
    exact ⟨_, .cond hx ht hbody hrest⟩
  | _, .loop hn hi ⟨_, hx⟩ ht hb hend => by
    obtain ⟨body, hbody⟩ := hb.exists_bodyReading
    exact ⟨_, .loop hn hi hx ht hbody hend⟩
  | _, .block hn ht hb hend => by
    obtain ⟨body, hbody⟩ := hb.exists_bodyReading
    exact ⟨_, .block hn ht hbody hend⟩

theorem IsBranches.exists_branchesReading : ∀ {ts : List Token}, IsBranches ts →
    ∃ rest, BranchesReading ts rest
  | _, .done ht => ⟨_, .done ht⟩
  | _, .otherwise ht hb hend => by
    obtain ⟨body, hbody⟩ := hb.exists_bodyReading
    exact ⟨_, .otherwise ht hbody hend⟩
  | _, .elseIf ⟨_, hx⟩ ht hb hr => by
    obtain ⟨body, hbody⟩ := hb.exists_bodyReading
    obtain ⟨rest, hrest⟩ := hr.exists_branchesReading
    exact ⟨_, .elseIf hx ht hbody hrest⟩

end

end Templates
