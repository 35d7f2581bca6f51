import Templates.Proofs.ExprGrammar

/-!
# Reading agrees with the layered grammar

`ExprReader.read` reads an expression off a list of tokens, one `ExprReader.step` after the other.
It finds exactly the tree that `Layer.Derives` gives for them, and it stops in front of the first
token that cannot go on with it (`read_start_eq_some_iff`).

Both directions compare the stack of waiting operations with the layers. The stack asks for an
operand of some layer, `wantedLayer`: whatever is next to the innermost operator. A derivation on
such a layer is read without touching what waits (`read_operand_append`), and what has been read is
always a stack in front of a derivation (`ExprReader.Covers`).
-/

namespace Templates

/-- The layer that a precedence belongs to; `.` and `|` share one, as neither takes an operand on
its right. -/
def Precedence.layer : Precedence → Layer
  | lowest | equality => .equality
  | comparison => .comparison
  | sum => .sum
  | product => .product
  | filter | attr => .link
  | unary => .unary

theorem BinaryOp.layer_precedence (op : BinaryOp) : op.precedence.layer = op.layer := by
  cases op <;> rfl

theorem BinaryOp.le_precedence_iff (p : Precedence) (op : BinaryOp) :
    p ≤ op.precedence ↔ p.layer ≤ op.layer := by
  cases p <;> cases op <;> decide

theorem Joint.sign_link (k : Link) : (Joint.link k).sign = k.sign := by
  cases k <;> rfl

theorem Joint.layer_precedence_link (k : Link) : (Joint.link k).precedence.layer = .link := by
  cases k <;> rfl

theorem Joint.layer_precedence_binary (op : BinaryOp) :
    (Joint.binary op).precedence.layer = op.layer := op.layer_precedence

theorem Joint.ofKind?_eq_none_iff (kind : TokenKind) :
    Joint.ofKind? kind = none ↔ kind.precedence? = none := by
  cases kind with
  | operator o => simp [TokenKind.precedence?, precedence?_eq_map_ofKind?]
  | _ => simp [TokenKind.precedence?, Joint.ofKind?]

theorem Joint.kind_of_ofKind?_eq_some {kind : TokenKind} {j : Joint}
    (h : Joint.ofKind? kind = some j) : kind = .operator j.sign := by
  cases kind with
  | operator o => cases o <;> simp [Joint.ofKind?, BinaryOp.ofSign?] at h <;> subst h <;> rfl
  | _ => simp [Joint.ofKind?] at h

/-- Reads an expression off a list of tokens: the expression and the tokens behind it; `none` if a
token must not stand where it does, or if the row ends first. The reader of a template takes the
same steps (`Reader.run_expr`). -/
def ExprReader.read (r : ExprReader) : List Token → Option (Expr × List Token)
  | [] => none
  | t :: ts =>
    match r.step t with
    | .more r => r.read ts
    | .done x => some (x, t :: ts)
    | .fail _ => none

/-- The layer of the operand that a stack of waiting operations asks for. -/
def wantedLayer : List Pending → Layer
  | .unary _ _ :: _ => .unary
  | .binary _ op _ :: _ => op.layer.tighter
  | .paren :: _ | [] => .equality

namespace ExprReader

/-! ## What one token does -/

theorem readOperand_atom {t : Token} {x : Expr} (h : Atom t x) (pending : List Pending) :
    readOperand pending t = .ok (complete pending x) := by
  cases h <;> simp_all [readOperand]

theorem readOperand_unary {t : Token} {op : UnaryOp} (h : t.kind = .operator op.sign)
    (pending : List Pending) :
    readOperand pending t = .ok (operand (.unary t.pos op :: pending)) := by
  cases op <;> simp_all [readOperand, UnaryOp.sign, UnaryOp.ofSign?]

theorem readOperand_paren {t : Token} (h : t.kind = .punctuation .parenOpen)
    (pending : List Pending) : readOperand pending t = .ok (operand (.paren :: pending)) := by
  simp [readOperand, h]

/-- The tokens that an operand can begin with. -/
theorem readOperand_cases {pending : List Pending} {t : Token} {r : ExprReader}
    (h : readOperand pending t = .ok r) :
    (∃ x, Atom t x ∧ r = complete pending x) ∨
    (∃ op : UnaryOp, t.kind = .operator op.sign ∧ r = operand (.unary t.pos op :: pending)) ∨
    (t.kind = .punctuation .parenOpen ∧ r = operand (.paren :: pending)) := by
  unfold readOperand at h
  split at h
  · next hk => exact Or.inl ⟨_, .ident hk, by simpa using h.symm⟩
  · next hk =>
    split at h
    · next hn => exact Or.inl ⟨_, .int hk hn, by simpa using h.symm⟩
    · cases h
  · next hk => exact Or.inl ⟨_, .str hk, by simpa using h.symm⟩
  · next hk => exact Or.inl ⟨_, .true_ hk, by simpa using h.symm⟩
  · next hk => exact Or.inl ⟨_, .false_ hk, by simpa using h.symm⟩
  · next hk => exact Or.inl ⟨_, .null hk, by simpa using h.symm⟩
  · next sign hk =>
    split at h
    · next op hop =>
      have hsign : sign = op.sign := by
        cases sign <;> simp [UnaryOp.ofSign?] at hop <;> subst hop <;> rfl
      exact Or.inr (Or.inl ⟨op, hsign ▸ hk, by simpa using h.symm⟩)
    · cases h
  · next hk => exact Or.inr (Or.inr ⟨hk, by simpa using h.symm⟩)
  · cases h

theorem readJoint_link {pending rest : List Pending} {x y : Expr} {t : Token} {k : Link}
    (ht : t.kind = .operator k.sign)
    (h : settle (Joint.link k).precedence pending x = (rest, y)) :
    readJoint pending x t = .more (name rest t.pos k y) := by
  have hk : Joint.ofKind? t.kind = some (.link k) := by
    rw [ht]
    cases k <;> rfl
  simp [readJoint, hk, join, h]

theorem readJoint_binary {pending rest : List Pending} {x y : Expr} {t : Token} {op : BinaryOp}
    (ht : t.kind = .operator op.sign)
    (h : settle (Joint.binary op).precedence pending x = (rest, y)) :
    readJoint pending x t = .more (operand (.binary t.pos op y :: rest)) := by
  have hop : Joint.ofKind? t.kind = some (.binary op) := by
    rw [ht]
    exact Joint.ofKind?_sign (.binary op)
  simp [readJoint, hop, join, h]

theorem readJoint_of_settle_nil {pending : List Pending} {x y : Expr} {t : Token}
    (ht : Joint.ofKind? t.kind = none) (h : settle .lowest pending x = ([], y)) :
    readJoint pending x t = .done y := by
  simp [readJoint, ht, h]

theorem readJoint_of_settle_paren {pending rest : List Pending} {x y : Expr} {t : Token}
    (ht : t.kind = .punctuation .parenClose)
    (h : settle .lowest pending x = (.paren :: rest, y)) :
    readJoint pending x t = .more (complete rest y) := by
  simp [readJoint, ht, h, Joint.ofKind?]

end ExprReader

/-! ## Derivations are read -/

theorem settle_of_wantedLayer_le {pending : List Pending} {p : Precedence}
    (hp : wantedLayer pending ≤ p.layer) (hlink : p.layer ≤ .link) (x : Expr) :
    settle p pending x = (pending, x) := by
  match pending with
  | [] => rfl
  | .paren :: _ => rfl
  | .unary _ _ :: _ =>
    have hle : Layer.unary ≤ .link := Layer.le_trans hp hlink
    exact absurd hle (by decide)
  | .binary _ op _ :: _ =>
    have hle : ¬ p ≤ op.precedence := by
      rw [BinaryOp.le_precedence_iff]
      exact Layer.not_le_of_tighter_le hp hlink
    rw [settle, if_neg hle]

namespace ExprReader

/-- A derivation on a layer is read from any `pending` with a `wantedLayer` that is no tighter, in
front of any tokens. What it leaves on the stack completes to its tree before anything below does.
-/
theorem read_operand_append {l : Layer} {ts : List Token} {x : Expr} (h : l.Derives ts x)
    {pending : List Pending} (hw : wantedLayer pending ≤ l) (rest : List Token) :
    ∃ pending' x', read (operand pending) (ts ++ rest) = read (complete pending' x') rest ∧
      ∀ p : Precedence, p.layer ≤ l → settle p pending' x' = settle p pending x := by
  -- The induction is on the derivation. What is left on the stack is arbitrary; all that is kept of
  -- it is how it settles in front of an operator of the layer or a looser one.
  induction h generalizing pending rest with
  | atom h => exact ⟨pending, _, by simp [read, step, inside, readOperand_atom h], fun _ _ => rfl⟩
  | @unary t op ts x ht hx ih =>
    have hwanted : wantedLayer (.unary t.pos op :: pending) ≤ .unary := Layer.le_refl _
    obtain ⟨pending', x', hread, hsettle⟩ := ih hwanted rest
    refine ⟨pending', x', ?_, fun p hp => ?_⟩
    · rw [← hread]
      simp [read, step, inside, readOperand_unary ht]
    · rw [hsettle p hp, settle]
  | @paren o c ts x ho hx hc ih =>
    have hwanted : wantedLayer (.paren :: pending) ≤ .equality := Layer.le_refl _
    obtain ⟨pending', x', hread, hsettle⟩ := ih hwanted (c :: rest)
    refine ⟨pending, x, ?_, fun _ _ => rfl⟩
    have hopen : read (operand pending) (o :: (ts ++ [c]) ++ rest) =
        read (operand (.paren :: pending)) (ts ++ c :: rest) := by
      simp [read, step, inside, readOperand_paren ho]
    have hclose : settle .lowest pending' x' = (.paren :: pending, x) := by
      rw [hsettle .lowest (Layer.le_refl _), settle]
      all_goals simp
    rw [hopen, hread, read, step, readJoint_of_settle_paren hc hclose]
  | @link k t n ts x hx ht hn ih =>
    obtain ⟨pending', x', hread, hsettle⟩ := ih hw (t :: n :: rest)
    have hp : (Joint.link k).precedence.layer = .link := Joint.layer_precedence_link k
    have hjoint : settle (Joint.link k).precedence pending' x' = (pending, x) := by
      rw [hsettle _ (hp ▸ Layer.le_refl _)]
      exact settle_of_wantedLayer_le (by rwa [hp]) (hp ▸ Layer.le_refl _) x
    refine ⟨pending, k.build t.pos x n.literal, ?_, fun _ _ => rfl⟩
    rw [List.append_assoc, List.cons_append, List.cons_append, List.nil_append, hread, read, step,
      readJoint_link ht hjoint]
    simp [read, step, inside, readName, hn]
  | @binary l op t ts us x y hl hx ht hy ihx ihy =>
    obtain ⟨pending₁, x₁, hread₁, hsettle₁⟩ := ihx hw (t :: (us ++ rest))
    have hp : (Joint.binary op).precedence.layer = l := by
      rw [Joint.layer_precedence_binary, hl]
    have hl' : l ≤ .link := by
      rw [← hl]
      cases op <;> decide
    have hjoint : settle (Joint.binary op).precedence pending₁ x₁ = (pending, x) := by
      rw [hsettle₁ _ (hp ▸ Layer.le_refl _)]
      exact settle_of_wantedLayer_le (by rwa [hp]) (by rwa [hp]) x
    have hwanted : wantedLayer (.binary t.pos op x :: pending) ≤ l.tighter := by
      rw [wantedLayer, hl]
      exact Layer.le_refl _
    obtain ⟨pending₂, x₂, hread₂, hsettle₂⟩ := ihy hwanted rest
    refine ⟨pending₂, x₂, ?_, fun p hpl => ?_⟩
    · rw [List.append_assoc, List.cons_append, hread₁, read, step, readJoint_binary ht hjoint]
      exact hread₂
    · have hle : p ≤ op.precedence := by rwa [BinaryOp.le_precedence_iff, hl]
      rw [hsettle₂ p (Layer.le_trans hpl (Layer.le_tighter l)), settle, if_pos hle]
  | @single l ts x hx ih =>
    obtain ⟨pending', x', hread, hsettle⟩ := ih (Layer.le_trans hw (Layer.le_tighter l)) rest
    exact ⟨pending', x', hread, fun p hp => hsettle p (Layer.le_trans hp (Layer.le_tighter l))⟩

theorem read_start_append {ts rest : List Token} {x : Expr} {t : Token}
    (h : Layer.Derives .equality ts x) (ht : t.kind.precedence? = none) :
    read start (ts ++ t :: rest) = some (x, t :: rest) := by
  have hwanted : wantedLayer [] ≤ .equality := Layer.le_refl _
  obtain ⟨pending, x', hread, hsettle⟩ := read_operand_append h hwanted (t :: rest)
  have hdone : settle .lowest pending x' = ([], x) := by
    rw [hsettle .lowest (Layer.le_refl _), settle]
    all_goals simp
  rw [start, hread, read, step,
    readJoint_of_settle_nil ((Joint.ofKind?_eq_none_iff _).mpr ht) hdone]

end ExprReader

/-! ## What has been read is derived -/

/-- `Stacked pending ts`: the tokens `ts` have been read and left the operations `pending` waiting.
-/
inductive Stacked : List Pending → List Token → Prop
  /-- Nothing has been read. -/
  | nil : Stacked [] []
  /-- An operator in front of its operand. -/
  | unary {pending : List Pending} {ts : List Token} {t : Token} {op : UnaryOp}
    (h : Stacked pending ts) (ht : t.kind = .operator op.sign) :
    Stacked (.unary t.pos op :: pending) (ts ++ [t])
  /-- An open parenthesis. -/
  | paren {pending : List Pending} {ts : List Token} {t : Token} (h : Stacked pending ts)
    (ht : t.kind = .punctuation .parenOpen) : Stacked (.paren :: pending) (ts ++ [t])
  /-- An operator behind its left operand. -/
  | binary {pending : List Pending} {ts us : List Token} {t : Token} {op : BinaryOp} {x : Expr}
    (h : Stacked pending ts) (hw : wantedLayer pending ≤ op.layer) (hx : op.layer.Derives us x)
    (ht : t.kind = .operator op.sign) :
    Stacked (.binary t.pos op x :: pending) (ts ++ (us ++ [t]))

/-- `Operand bound pending x ts`: the tokens `ts` end with an operand `x` that is no looser than
`bound` and that suits the operations `pending`, which the tokens in front of it left waiting. -/
def Operand (bound : Layer) (pending : List Pending) (x : Expr) (ts : List Token) : Prop :=
  ∃ us vs l, ts = us ++ vs ∧ Stacked pending us ∧ wantedLayer pending ≤ l ∧ bound ≤ l ∧
    l.Derives vs x

/-- `r.Covers ts`: the state `r` is what reading the tokens `ts` of an expression leads to. -/
def ExprReader.Covers (ts : List Token) : ExprReader → Prop
  | operand pending => Stacked pending ts
  | name pending pos k x =>
    ∃ us t, ts = us ++ [t] ∧ Operand .link pending x us ∧ wantedLayer pending ≤ .link ∧
      t.kind = .operator k.sign ∧ t.pos = pos
  | complete pending x => Operand .link pending x ts

/-- Completing operations regroups the tokens and changes none of them. -/
theorem Operand.settle {bound : Layer} {pending : List Pending} {x : Expr} {ts : List Token}
    {p : Precedence} (h : Operand bound pending x ts) (hp : p.layer ≤ bound) :
    Operand p.layer (settle p pending x).1 (settle p pending x).2 ts := by
  fun_induction Templates.settle p pending x generalizing bound with
  | case1 pos op pending x ih =>
    obtain ⟨us, vs, l, rfl, hstack, hw, hb, hx⟩ := h
    cases hstack with
    | @unary _ us t _ hstack ht =>
      have hx' : Layer.unary.Derives (t :: vs) (.unary t.pos op x) := .unary ht (hx.mono hw)
      exact ih ⟨us, t :: vs, .unary, by simp, hstack, Layer.le_unary _, Layer.le_refl _, hx'⟩
        (Layer.le_unary _)
  | case2 pos op left pending x hle ih =>
    obtain ⟨us, vs, l, rfl, hstack, hw, hb, hx⟩ := h
    cases hstack with
    | @binary _ us ws t _ _ hstack hw' hleft ht =>
      have hx' : op.layer.Derives (ws ++ t :: vs) (.binary t.pos op left x) :=
        .binary rfl hleft ht (hx.mono hw)
      exact ih ⟨us, ws ++ t :: vs, op.layer, by simp, hstack, hw', Layer.le_refl _, hx'⟩
        ((BinaryOp.le_precedence_iff p op).mp hle)
  | case3 pos op left pending x hle =>
    obtain ⟨us, vs, l, rfl, hstack, hw, hb, hx⟩ := h
    exact ⟨us, vs, l, rfl, hstack, hw, Layer.le_trans hp hb, hx⟩
  | case4 pending x hu hb =>
    obtain ⟨us, vs, l, rfl, hstack, hw, hb, hx⟩ := h
    exact ⟨us, vs, l, rfl, hstack, hw, Layer.le_trans hp hb, hx⟩

/-- `settle` leaves only operations that bind looser than its bound. -/
theorem wantedLayer_settle_le (p : Precedence) (pending : List Pending) (x : Expr) :
    wantedLayer (settle p pending x).1 ≤ p.layer := by
  fun_induction settle p pending x with
  | case1 _ _ _ _ ih => exact ih
  | case2 _ _ _ _ _ _ ih => exact ih
  | case3 pos op left pending x hle =>
    rw [BinaryOp.le_precedence_iff] at hle
    exact Layer.tighter_le_of_not_le hle
  | case4 pending x hu hb =>
    match pending with
    | [] => exact Layer.equality_le _
    | .paren :: _ => exact Layer.equality_le _
    | .unary pos op :: pending => exact absurd rfl (hu pos op pending)
    | .binary pos op left :: pending => exact absurd rfl (hb pos op left pending)

/-- Only an open parenthesis asks for an operand of the loosest layer. -/
theorem eq_paren_of_wantedLayer_le {q : Pending} {pending : List Pending}
    (h : wantedLayer (q :: pending) ≤ .equality) : q = .paren := by
  cases q with
  | unary pos op => exact absurd h (by simp [wantedLayer, Layer.le_def, Layer.rank])
  | binary pos op left =>
    cases op <;> simp [wantedLayer, BinaryOp.layer, Layer.tighter, Layer.le_def, Layer.rank] at h
  | paren => rfl

namespace ExprReader

theorem inside_eq_more {e : Except SyntaxFault ExprReader} {r : ExprReader}
    (h : inside e = .more r) : e = .ok r := by
  cases e with
  | ok r' =>
    cases h
    rfl
  | error f => cases h

theorem inside_ne_done {e : Except SyntaxFault ExprReader} {x : Expr} : inside e ≠ .done x := by
  cases e <;> simp [inside]

/-- `join` leaves only operations that bind looser than the operator. -/
theorem Covers.join {pending : List Pending} {x : Expr} {ts : List Token} {t : Token} {j : Joint}
    (h : (complete pending x).Covers ts) (ht : t.kind = .operator j.sign) :
    (join pending x t.pos j).Covers (ts ++ [t]) := by
  have hlink : j.precedence.layer ≤ .link := by
    rcases j with k | op
    · cases k <;> decide
    · cases op <;> decide
  have hsettle := Operand.settle h hlink
  have hwanted := wantedLayer_settle_le j.precedence pending x
  obtain ⟨us, vs, l, hts, hstack, hw, hb, hx⟩ := hsettle
  rcases j with k | op
  · rw [Joint.layer_precedence_link] at hwanted hb
    exact ⟨ts, t, rfl, ⟨us, vs, l, hts, hstack, hw, hb, hx⟩, hwanted,
      Joint.sign_link k ▸ ht, rfl⟩
  · rw [Joint.layer_precedence_binary] at hwanted hb
    have hstack' := Stacked.binary hstack hwanted (hx.mono hb) ht
    rw [← List.append_assoc, ← hts] at hstack'
    exact hstack'

theorem Covers.more {r r' : ExprReader} {ts : List Token} {t : Token} (h : r.Covers ts)
    (hs : r.step t = .more r') : r'.Covers (ts ++ [t]) := by
  cases r with
  | operand pending =>
    rcases readOperand_cases (inside_eq_more hs) with ⟨x, hx, rfl⟩ | ⟨op, hop, rfl⟩ | ⟨ho, rfl⟩
    · exact ⟨ts, [t], .unary, rfl, h, Layer.le_unary _, Layer.le_unary _, .atom hx⟩
    · exact .unary h hop
    · exact .paren h ho
  | name pending pos k x =>
    obtain ⟨us, s, rfl, ⟨vs, ws, l, rfl, hstack, -, hb, hx⟩, hw, hs', rfl⟩ := h
    have hread := inside_eq_more hs
    unfold readName at hread
    split at hread
    · next hn =>
      cases hread
      exact ⟨vs, ws ++ [s, t], .link, by simp, hstack, hw, Layer.le_refl _,
        .link (hx.mono hb) hs' hn⟩
    · cases hread
  | complete pending x =>
    simp only [step, readJoint] at hs
    split at hs
    · next j hj =>
      cases hs
      exact Covers.join h (Joint.kind_of_ofKind?_eq_some hj)
    · next hj =>
      have hsettle := Operand.settle (p := .lowest) h (Layer.equality_le _)
      have hwanted := wantedLayer_settle_le .lowest pending x
      split at hs
      · cases hs
      · next q pending' y heq =>
        rw [heq] at hsettle hwanted
        split at hs
        · next hc =>
          cases hs
          obtain ⟨us, vs, l, rfl, hstack, -, hb, hx⟩ := hsettle
          cases eq_paren_of_wantedLayer_le hwanted
          cases hstack with
          | @paren _ us o hstack ho =>
            exact ⟨us, o :: (vs ++ [t]), .unary, by simp, hstack, Layer.le_unary _,
              Layer.le_unary _, .paren ho (hx.mono hb) hc⟩
        · cases hs

/-- The expression that ends in front of a token is derived from what has been read, and the token
is no operator. -/
theorem Covers.done {r : ExprReader} {ts : List Token} {t : Token} {x : Expr} (h : r.Covers ts)
    (hs : r.step t = .done x) : Layer.Derives .equality ts x ∧ t.kind.precedence? = none := by
  cases r with
  | operand pending => exact absurd hs inside_ne_done
  | name pending pos k y => exact absurd hs inside_ne_done
  | complete pending y =>
    simp only [step, readJoint] at hs
    split at hs
    · cases hs
    · next hj =>
      have hsettle := Operand.settle (p := .lowest) h (Layer.equality_le _)
      split at hs
      · next z heq =>
        cases hs
        rw [heq] at hsettle
        obtain ⟨us, vs, l, rfl, hstack, -, hb, hx⟩ := hsettle
        cases hstack
        exact ⟨hx.mono hb, (Joint.ofKind?_eq_none_iff _).mp hj⟩
      · split at hs <;> cases hs

theorem step_eof_ne_more {r r' : ExprReader} {t : Token} (h : t.kind = .eof) :
    r.step t ≠ .more r' := by
  cases r with
  | operand pending => simp [step, readOperand, h, inside]
  | name pending pos k x => simp [step, readName, h, inside]
  | complete pending x =>
    simp only [step, readJoint, h, Joint.ofKind?]
    split <;> simp

/-- `ExprReader.read` derives what it reads from the tokens in front of the rest. -/
theorem Covers.of_read {r : ExprReader} {used ts rest : List Token} {x : Expr} (h : r.Covers used)
    (hread : r.read ts = some (x, rest)) :
    ∃ us, ts = us ++ rest ∧ Layer.Derives .equality (used ++ us) x := by
  induction ts generalizing r used with
  | nil => cases hread
  | cons t ts ih =>
    rw [read] at hread
    split at hread
    · next r' hs =>
      obtain ⟨us, rfl, hx⟩ := ih (h.more hs) hread
      exact ⟨t :: us, rfl, by simpa using hx⟩
    · next y hs =>
      cases hread
      exact ⟨[], rfl, by simpa using (h.done hs).1⟩
    · cases hread

/-- Up to a token that is no operator, `ExprReader.read` finds exactly the trees that
`Layer.Derives` gives. -/
theorem read_start_eq_some_iff {ts rest : List Token} {t : Token} {x : Expr}
    (ht : t.kind.precedence? = none) :
    read start (ts ++ t :: rest) = some (x, t :: rest) ↔ Layer.Derives .equality ts x := by
  constructor
  · intro h
    have hstart : start.Covers [] := Stacked.nil
    obtain ⟨us, hus, hx⟩ := hstart.of_read h
    rw [List.append_cancel_right hus]
    exact hx
  · intro h
    exact read_start_append h ht

/-- The comparison `-a.b < c` in front of a closing parenthesis: the minus sign binds tighter than
the dot, and the dot tighter than the comparison. -/
theorem read_start_comparison :
    let a : Token := ⟨.ident, "a", ⟨1, 2⟩⟩
    let b : Token := ⟨.ident, "b", ⟨1, 4⟩⟩
    let c : Token := ⟨.ident, "c", ⟨1, 8⟩⟩
    let minus : Token := ⟨.operator .minus, "-", ⟨1, 1⟩⟩
    let dot : Token := ⟨.operator .dot, ".", ⟨1, 3⟩⟩
    let less : Token := ⟨.operator .less, "<", ⟨1, 6⟩⟩
    let close : Token := ⟨.punctuation .parenClose, ")", ⟨1, 9⟩⟩
    let tree : Expr := .binary ⟨1, 6⟩ .lt
      (.attr ⟨1, 3⟩ (.unary ⟨1, 1⟩ .neg (.ident ⟨1, 2⟩ "a")) "b") (.ident ⟨1, 8⟩ "c")
    close.kind.precedence? = none ∧
      read start [minus, a, dot, b, less, c, close] = some (tree, [close]) ∧
      Layer.Derives .equality [minus, a, dot, b, less, c] tree := by
  intro a b c minus dot less close tree
  have hclose : close.kind.precedence? = none := rfl
  have hread : read start ([minus, a, dot, b, less, c] ++ [close]) = some (tree, [close]) := rfl
  exact ⟨hclose, hread, (read_start_eq_some_iff hclose).mp hread⟩

end ExprReader

end Templates
