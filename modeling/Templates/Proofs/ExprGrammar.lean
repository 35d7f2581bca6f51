import Templates.Expr.Reader

/-!
# The layered grammar of expressions

Expressions are derived in six layers, each of which repeats the next one between its operators:

* `equality`: comparisons joined by `==` and `!=`;
* `comparison`: sums joined by `<`, `>`, `<=` and `>=`;
* `sum`: products joined by `+` and `-`;
* `product`: links joined by `*` and `/`;
* `link`: a unary expression and any number of `.name` and `|name` behind it;
* `unary`: any number of `!` and `-` in front of an atom or of an equality in parentheses.

`Layer.Derives` says which tokens derive which tree. A repetition builds a tree that leans to the
left, and parentheses build nothing. The grammar knows nothing of the stack that
`Templates.Expr.Reader` works with.

The main fact of this module is `Layer.Derives.fuse`: an expression that begins with a minus sign
can be written right behind another one, and the two then form a single expression. So a list of
expressions can be read as if every minus sign behind an operand were a subtraction.
-/

namespace Templates

/-- A layer of the grammar of expressions, loosest first. -/
inductive Layer
  | equality
  | comparison
  | sum
  | product
  | link
  | unary
  deriving DecidableEq, Repr

namespace Layer

/-- The place in the order, loosest first. -/
def rank : Layer → Nat
  | equality => 0
  | comparison => 1
  | sum => 2
  | product => 3
  | link => 4
  | unary => 5

instance : LE Layer := ⟨fun k l => k.rank ≤ l.rank⟩

instance (k l : Layer) : Decidable (k ≤ l) := inferInstanceAs (Decidable (k.rank ≤ l.rank))

/-- The layer of the operands on a layer; nothing is tighter than `unary`. -/
def tighter : Layer → Layer
  | equality => comparison
  | comparison => sum
  | sum => product
  | product => link
  | link | unary => unary

theorem le_def {k l : Layer} : k ≤ l ↔ k.rank ≤ l.rank := Iff.rfl

theorem le_refl (l : Layer) : l ≤ l := Nat.le_refl _

theorem le_trans {j k l : Layer} (hjk : j ≤ k) (hkl : k ≤ l) : j ≤ l := Nat.le_trans hjk hkl

theorem le_tighter (l : Layer) : l ≤ l.tighter := by
  cases l <;> simp [le_def, rank, tighter]

theorem le_unary (l : Layer) : l ≤ unary := by
  cases l <;> simp [le_def, rank]

theorem equality_le (l : Layer) : equality ≤ l := Nat.zero_le _

theorem tighter_le {k l : Layer} (hkl : k ≤ l) (hne : k ≠ l) :
    k.tighter ≤ l ∧ k.rank < k.tighter.rank := by
  cases k <;> cases l <;> simp_all [le_def, rank, tighter]

theorem not_le_of_tighter_le {k l : Layer} (hkl : k.tighter ≤ l) (hl : l ≤ link) : ¬ l ≤ k := by
  cases k <;> cases l <;> simp_all [le_def, rank, tighter]

theorem tighter_le_of_not_le {k l : Layer} (h : ¬ l ≤ k) : k.tighter ≤ l := by
  cases k <;> cases l <;> simp_all [le_def, rank, tighter]

end Layer

/-- The layer that an operator joins the parts of. -/
def BinaryOp.layer : BinaryOp → Layer
  | eq | ne => .equality
  | lt | gt | le | ge => .comparison
  | add | sub => .sum
  | mul | div => .product

/-- The sign of the operator. -/
def Link.sign : Link → Operator
  | attr => .dot
  | filter => .pipe

/-- `Atom t x`: the token `t` is an expression of its own, the leaf `x`. -/
inductive Atom (t : Token) : Expr → Prop
  | ident (h : t.kind = .ident) : Atom t (.ident t.pos t.literal)
  | int {n : Int64} (h : t.kind = .int) (hn : IntLiteral.value? t.literal = some n) :
    Atom t (.int t.pos n)
  | str (h : t.kind = .string) : Atom t (.str t.pos t.literal)
  | true_ (h : t.kind = .keyword .true_) : Atom t (.bool t.pos true)
  | false_ (h : t.kind = .keyword .false_) : Atom t (.bool t.pos false)
  | null (h : t.kind = .keyword .null) : Atom t (.null t.pos)

/-- `l.Derives ts x`: on the layer `l` the tokens `ts` derive the expression `x`. -/
inductive Layer.Derives : Layer → List Token → Expr → Prop
  /-- An atom. -/
  | atom {t : Token} {x : Expr} (h : Atom t x) : Derives .unary [t] x
  /-- An operator in front of its operand. -/
  | unary {t : Token} {op : UnaryOp} {ts : List Token} {x : Expr} (ht : t.kind = .operator op.sign)
    (hx : Derives .unary ts x) : Derives .unary (t :: ts) (.unary t.pos op x)
  /-- An expression in parentheses. -/
  | paren {o c : Token} {ts : List Token} {x : Expr} (ho : o.kind = .punctuation .parenOpen)
    (hx : Derives .equality ts x) (hc : c.kind = .punctuation .parenClose) :
    Derives .unary (o :: (ts ++ [c])) x
  /-- A name behind `.` or `|`. -/
  | link {k : Link} {t n : Token} {ts : List Token} {x : Expr} (hx : Derives .link ts x)
    (ht : t.kind = .operator k.sign) (hn : n.kind = .ident) :
    Derives .link (ts ++ [t, n]) (k.build t.pos x n.literal)
  /-- An operator between two operands; the left one may hold operators of the same layer. -/
  | binary {l : Layer} {op : BinaryOp} {t : Token} {ts us : List Token} {x y : Expr}
    (hl : op.layer = l) (hx : Derives l ts x) (ht : t.kind = .operator op.sign)
    (hy : Derives l.tighter us y) : Derives l (ts ++ t :: us) (.binary t.pos op x y)
  /-- No operator of the layer. -/
  | single {l : Layer} {ts : List Token} {x : Expr} (hx : Derives l.tighter ts x) : Derives l ts x

/-- The tokens form an expression. -/
def IsExpr (ts : List Token) : Prop := ∃ x, Layer.Derives .equality ts x

namespace Layer.Derives

theorem mono {k l : Layer} {ts : List Token} {x : Expr} (hkl : k ≤ l) (h : Derives l ts x) :
    Derives k ts x := by
  by_cases heq : k = l
  · exact heq ▸ h
  · exact single (mono (tighter_le hkl heq).1 h)
termination_by l.rank - k.rank
decreasing_by
  obtain ⟨hle, hlt⟩ := tighter_le hkl heq
  have := le_def.mp hle
  omega

theorem ne_nil {l : Layer} {ts : List Token} {x : Expr} (h : Derives l ts x) : ts ≠ [] := by
  induction h with
  | single _ ih => exact ih
  | _ => simp

theorem ne_eof {l : Layer} {ts : List Token} {x : Expr} (h : Derives l ts x) :
    ∀ t ∈ ts, t.kind ≠ .eof := by
  induction h with
  | atom h => cases h <;> simp_all
  | unary ht _ ih => simpa [ht] using ih
  | paren ho _ hc ih => simpa [or_imp, forall_and, ho, hc] using ih
  | link _ ht hn ih => simpa [or_imp, forall_and, ht, hn] using ih
  | binary _ _ ht _ ihx ihy => simpa [or_imp, forall_and, ht] using And.intro ihx ihy
  | single _ ih => exact ih

theorem head?_append {l : Layer} {ts : List Token} {x : Expr} (h : Derives l ts x)
    (us : List Token) : (ts ++ us).head? = ts.head? := by
  obtain ⟨t, ts, rfl⟩ := List.exists_cons_of_ne_nil h.ne_nil
  rfl

/-- An expression begins with an atom, with an operator that can stand there, or with an open
parenthesis. -/
theorem head_kind {l : Layer} {ts : List Token} {x : Expr} (h : Derives l ts x) {t : Token}
    (ht : ts.head? = some t) :
    (∃ y, Atom t y) ∨ (∃ op : UnaryOp, t.kind = .operator op.sign) ∨
      t.kind = .punctuation .parenOpen := by
  induction h with
  | atom h =>
    cases ht
    exact Or.inl ⟨_, h⟩
  | unary hsign =>
    cases ht
    exact Or.inr (Or.inl ⟨_, hsign⟩)
  | paren ho =>
    cases ht
    exact Or.inr (Or.inr ho)
  | link hx _ _ ih => exact ih (by rwa [hx.head?_append] at ht)
  | binary _ hx _ _ ih => exact ih (by rwa [hx.head?_append] at ht)
  | single _ ih => exact ih ht

/-- The only operator between two operands that an expression can begin with is the minus sign. -/
theorem head_eq_minus {l : Layer} {ts : List Token} {x : Expr} (h : Derives l ts x) {t : Token}
    (ht : ts.head? = some t) (hp : t.kind.precedence? ≠ none) : t.kind = .operator .minus := by
  rcases h.head_kind ht with ⟨y, hy⟩ | ⟨op, hop⟩ | ho
  · cases hy <;> simp_all [TokenKind.precedence?]
  · cases op with
    | not => simp_all [TokenKind.precedence?, Operator.precedence?, UnaryOp.sign]
    | neg => exact hop
  · simp_all [TokenKind.precedence?]

/-- A product that begins with a minus sign is a product behind it. -/
theorem of_minus_cons {l : Layer} {m : Token} {ts : List Token} {x : Expr}
    (h : Derives l (m :: ts) x) (hm : m.kind = .operator .minus) (hl : .product ≤ l) :
    ∃ y, Derives l ts y := by
  generalize hus : m :: ts = us at h
  induction h generalizing ts with
  | atom h =>
    obtain ⟨rfl, -⟩ := List.cons.inj hus
    cases h <;> simp_all
  | unary _ hx =>
    obtain ⟨-, rfl⟩ := List.cons.inj hus
    exact ⟨_, hx⟩
  | paren ho =>
    obtain ⟨rfl, -⟩ := List.cons.inj hus
    simp_all
  | link hx ht hn ih =>
    obtain ⟨hnil, -⟩ | ⟨vs, rfl, rfl⟩ := List.cons_eq_append_iff.mp hus
    · exact absurd hnil hx.ne_nil
    · obtain ⟨y, hy⟩ := ih hl rfl
      exact ⟨_, hy.link ht hn⟩
  | binary hop hx ht hz ih =>
    obtain ⟨hnil, -⟩ | ⟨vs, rfl, rfl⟩ := List.cons_eq_append_iff.mp hus
    · exact absurd hnil hx.ne_nil
    · obtain ⟨y, hy⟩ := ih hl rfl
      exact ⟨_, binary hop hy ht hz⟩
  | single _ ih =>
    obtain ⟨y, hy⟩ := ih (le_trans hl (le_tighter _)) hus
    exact ⟨y, hy.single⟩

/-- On the layers from the sums up, an expression that begins with a minus sign extends every
expression in front of it. -/
theorem fuse {l : Layer} {m : Token} {us : List Token} {y : Expr} (h : Derives l (m :: us) y)
    (hm : m.kind = .operator .minus) (hl : l ≤ .sum) {ts : List Token} {x : Expr}
    (hx : Derives l ts x) : ∃ z, Derives l (ts ++ m :: us) z := by
  generalize hvs : m :: us = vs at h
  induction h generalizing us ts x with
  | atom | unary | paren | link => simp [le_def, rank] at hl
  | binary hop hy ht hz ih =>
    obtain ⟨hnil, -⟩ | ⟨ws, rfl, rfl⟩ := List.cons_eq_append_iff.mp hvs
    · exact absurd hnil hy.ne_nil
    · obtain ⟨z, hz'⟩ := ih hl hx rfl
      rw [← List.append_assoc]
      exact ⟨_, binary hop hz' ht hz⟩
  | @single l vs y hy ih =>
    subst hvs
    by_cases hsum : l = .sum
    · subst hsum
      have hop : BinaryOp.sub.layer = .sum := rfl
      obtain ⟨z, hz⟩ := hy.of_minus_cons hm (le_refl _)
      exact ⟨_, binary hop hx hm hz⟩
    · have htighter : l.tighter ≤ .sum := (tighter_le hl hsum).1
      cases hx with
      | atom | unary | paren | link => simp [le_def, rank] at hl
      | single hx =>
        obtain ⟨z, hz⟩ := ih htighter hx rfl
        exact ⟨z, hz.single⟩
      | binary hop hx ht hw =>
        obtain ⟨z, hz⟩ := ih htighter hw rfl
        rw [List.append_assoc, List.cons_append]
        exact ⟨_, binary hop hx ht hz⟩

end Layer.Derives

end Templates
