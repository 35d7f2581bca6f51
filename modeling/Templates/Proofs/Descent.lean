import Templates.Reader
import Templates.Proofs.ExprReading

/-!
# Reading by descent

`Reader.readAll` takes one token after the other and keeps what is open on a stack. Here the same
reading is told as a recursive descent: a `Statement` is its first tag (`opening`), then `Bodies`
and the tags between them (`tagBehind`). Where a statement breaks off, `Recovering` records one
error and skips to a place where a statement can begin (`synchronize`); a body is a sequence of
recovering statements (`Statements`).

The parts of a tag are functions on the tokens at hand (`Parse`), as each of them has an end in
sight. Statements and bodies are relations, since nothing in their rules says that the descent ends;
that it does is proved in `Templates.Proofs.DescentProgress`.
-/

namespace Templates

namespace Descent

variable {ts us vs rest : List Token}

/-! ## Tokens at hand -/

/-- The token at hand. Behind the last one stands an end token, at the first position. -/
def peek (ts : List Token) : Token := ts.headD (.endOfText .first)

/-- The end of the template is at hand. -/
def AtEnd (ts : List Token) : Prop := (peek ts).kind = .eof

instance (ts : List Token) : Decidable (AtEnd ts) := inferInstanceAs (Decidable (_ = _))

/-- A tag with this word is at hand. -/
def AtTag (word : Keyword) (ts : List Token) : Prop :=
  (peek ts).kind = .punctuation .tagOpen ∧ (peek ts.tail).kind = .keyword word

instance (word : Keyword) (ts : List Token) : Decidable (AtTag word ts) :=
  inferInstanceAs (Decidable (_ ∧ _))

/-- A tag that ends a body or goes on behind it is at hand. -/
def AtTerminator (ts : List Token) : Prop := ∃ word, AtTag word ts ∧ word.endsBody = true

/-- Takes the token at hand; the end token stays where it is. -/
def advance : List Token → List Token
  | [] => []
  | t :: ts => if t.kind = .eof then t :: ts else ts

@[simp] theorem peek_cons (t : Token) (ts : List Token) : peek (t :: ts) = t := rfl

theorem advance_cons {t : Token} (h : t.kind ≠ .eof) (ts : List Token) :
    advance (t :: ts) = ts := by
  rw [advance, if_neg h]

theorem eq_peek_cons_advance (h : ¬ AtEnd ts) : ts = peek ts :: advance ts := by
  cases ts with
  | nil => exact absurd rfl h
  | cons t ts =>
    have ht : t.kind ≠ .eof := h
    simp [peek, advance, ht]

theorem advance_eq_tail (h : ¬ AtEnd ts) : advance ts = ts.tail :=
  (congrArg List.tail (eq_peek_cons_advance h)).symm

theorem length_advance_lt (h : ¬ AtEnd ts) : (advance ts).length < ts.length := by
  have hlen := congrArg List.length (eq_peek_cons_advance h)
  rw [List.length_cons] at hlen
  omega

/-! ## Tags -/

/-- Reads something off the tokens at hand, or stops with an error in front of a token. -/
abbrev Parse := EStateM SyntaxError (List Token)

theorem bind_of_ok {α β : Type} {p : Parse α} {f : α → Parse β} {a : α} (h : p ts = .ok a us) :
    (p >>= f) ts = f a us := by
  change EStateM.bind p f ts = _
  rw [EStateM.bind, h]

theorem bind_of_error {α β : Type} {p : Parse α} {f : α → Parse β} {e : SyntaxError}
    (h : p ts = .error e us) : (p >>= f) ts = .error e us := by
  change EStateM.bind p f ts = _
  rw [EStateM.bind, h]

/-- The token at hand, which stays there. -/
def hand : Parse Token := do
  let ts ← get
  return peek ts

/-- The token at hand, which is taken. -/
def next : Parse Token := fun ts => .ok (peek ts) (advance ts)

/-- Takes a token that has to be of one kind. -/
def expect (wanted : TokenKind) : Parse Token := do
  let t ← hand
  if t.kind = wanted then next else throw ⟨t.pos, .expected wanted t.kind⟩

theorem expect_of_eq {wanted : TokenKind} (h : (peek ts).kind = wanted) :
    expect wanted ts = .ok (peek ts) (advance ts) := by
  change (if (peek ts).kind = wanted then next else _ : Parse Token) ts = _
  rw [if_pos h]
  rfl

theorem expect_of_ne {wanted : TokenKind} (h : (peek ts).kind ≠ wanted) :
    expect wanted ts = .error ⟨(peek ts).pos, .expected wanted (peek ts).kind⟩ ts := by
  change (if (peek ts).kind = wanted then next else throw _ : Parse Token) ts = _
  rw [if_neg h]
  rfl

theorem expect_cons_of_eq {t : Token} {wanted : TokenKind} (h : t.kind = wanted)
    (heof : t.kind ≠ .eof) (ts : List Token) : expect wanted (t :: ts) = .ok t ts := by
  have hpeek : (peek (t :: ts)).kind = wanted := h
  rw [expect_of_eq hpeek, advance_cons heof, peek_cons]

theorem expect_cons_of_ne {t : Token} {wanted : TokenKind} (h : t.kind ≠ wanted)
    (ts : List Token) :
    expect wanted (t :: ts) = .error ⟨t.pos, .expected wanted t.kind⟩ (t :: ts) := by
  have hpeek : (peek (t :: ts)).kind ≠ wanted := h
  exact expect_of_ne hpeek

/-- Reads on in an expression. -/
def readExpr (r : ExprReader) (ts : List Token) :
    EStateM.Result SyntaxError (List Token) Expr :=
  match _h : r.step (peek ts) with
  | .more r => readExpr r (advance ts)
  | .done x => .ok x ts
  | .fail fault => .error ⟨(peek ts).pos, fault⟩ ts
termination_by ts.length
decreasing_by exact length_advance_lt fun hend => ExprReader.step_eof_ne_more hend _h

theorem readExpr_of_more {r r' : ExprReader} (h : r.step (peek ts) = .more r') :
    readExpr r ts = readExpr r' (advance ts) := by
  rw [readExpr]
  split <;> simp_all

theorem readExpr_of_done {r : ExprReader} {x : Expr} (h : r.step (peek ts) = .done x) :
    readExpr r ts = .ok x ts := by
  rw [readExpr]
  split <;> simp_all

theorem readExpr_of_fail {r : ExprReader} {fault : SyntaxFault}
    (h : r.step (peek ts) = .fail fault) :
    readExpr r ts = .error ⟨(peek ts).pos, fault⟩ ts := by
  rw [readExpr]
  split <;> simp_all

theorem readExpr_cons_of_more {r r' : ExprReader} {t : Token} (h : r.step t = .more r')
    (ts : List Token) : readExpr r (t :: ts) = readExpr r' ts := by
  have heof : t.kind ≠ .eof := fun heof => ExprReader.step_eof_ne_more heof h
  have hpeek : r.step (peek (t :: ts)) = .more r' := h
  rw [readExpr_of_more hpeek, advance_cons heof]

/-- Reads an expression. -/
def expression : Parse Expr := readExpr .start

/-- Reads an expression and the delimiter that has to follow it. -/
def closedExpr (closer : Punctuation) : Parse Expr := do
  let x ← expression
  let _ ← expect (.punctuation closer)
  return x

/-- Reads a `{{` tag behind its delimiter. -/
def outputTag (pos : Position) : Parse TagEffect := do
  let x ← closedExpr .outputClose
  return .add (.output pos x)

/-- Reads a `set` tag behind its word. -/
def setTag (pos : Position) : Parse TagEffect := do
  let name ← expect .ident
  let _ ← expect (.operator .assign)
  let x ← closedExpr .tagClose
  return .add (.set pos ⟨name.literal, name.pos⟩ x)

/-- Reads an `if` or `elif` tag behind its word. -/
def condTag (pos : Position) (earlier : List Branch) : Parse TagEffect := do
  let x ← closedExpr .tagClose
  return .enter (.cond pos earlier x)

/-- Reads a `for` tag behind its word. -/
def loopTag (pos : Position) : Parse TagEffect := do
  let item ← expect .ident
  let _ ← expect (.keyword .in_)
  let x ← closedExpr .tagClose
  return .enter (.loop pos ⟨item.literal, item.pos⟩ x)

/-- Reads the closing delimiter of a tag that has nothing else left. -/
def closeTag (effect : TagEffect) : Parse TagEffect := do
  let _ ← expect (.punctuation .tagClose)
  return effect

/-- Reads a `block` tag behind its word. -/
def blockTag (pos : Position) : Parse TagEffect := do
  let t ← hand
  if t.kind = .ident then
    let name ← next
    closeTag (.enter (.block pos (some ⟨name.literal, name.pos⟩)))
  else closeTag (.enter (.block pos none))

/-- Reads a `{%` tag with which a statement begins, behind its delimiter, where `t` is at hand. -/
def statementTagAt (pos : Position) (t : Token) : Parse TagEffect :=
  match t.kind with
  | .keyword .set => do let _ ← next; setTag pos
  | .keyword .if_ => do let _ ← next; condTag pos []
  | .keyword .for_ => do let _ ← next; loopTag pos
  | .keyword .block => do let _ ← next; blockTag pos
  | .keyword word =>
    throw ⟨t.pos, if word.endsBody then .unopened word else .unknownTag t.kind⟩
  | kind => throw ⟨t.pos, .unknownTag kind⟩

/-- Reads a `{%` tag with which a statement begins, behind its delimiter. -/
def statementTag (pos : Position) : Parse TagEffect := do
  let t ← hand
  statementTagAt pos t

/-- Reads the first tag of a statement, or all of a bare expression, where `t` is at hand. -/
def openingAt (t : Token) : Parse TagEffect :=
  match t.kind with
  | .punctuation .tagOpen => do let _ ← next; statementTag t.pos
  | .punctuation .outputOpen => do let _ ← next; outputTag t.pos
  | _ => do return .add (.bare (← expression))

/-- Reads the first tag of a statement, or all of a bare expression. -/
def opening : Parse TagEffect := do
  let t ← hand
  openingAt t

theorem statementTag_eq (pos : Position) (ts : List Token) :
    statementTag pos ts = statementTagAt pos (peek ts) ts := rfl

theorem opening_eq (ts : List Token) : opening ts = openingAt (peek ts) ts := rfl

theorem opening_of_tagOpen (h : (peek ts).kind = .punctuation .tagOpen) :
    opening ts = statementTag (peek ts).pos (advance ts) := by
  rw [opening_eq, openingAt, h]
  rfl

theorem opening_of_outputOpen (h : (peek ts).kind = .punctuation .outputOpen) :
    opening ts = outputTag (peek ts).pos (advance ts) := by
  rw [opening_eq, openingAt, h]
  rfl

/-- Reads the tag that ends a construct. -/
def endTag (c : Construct) (body : List Stmt) : Parse TagEffect := do
  let _ ← expect (.punctuation .tagOpen)
  let _ ← expect (.keyword c.closer)
  closeTag (.add (c.complete body))

/-- Reads the tag behind a body of a construct. Only a conditional without an `else` has one that is
not its last. -/
def tagBehind (c : Construct) (body : List Stmt) : Parse TagEffect := do
  let ts ← get
  match c with
  | .cond pos earlier x =>
    if AtTag .elif ts then
      let _ ← next
      let _ ← next
      condTag pos (⟨x, body⟩ :: earlier)
    else if AtTag .else_ ts then
      let _ ← next
      let _ ← next
      closeTag (.enter (.otherwise pos earlier ⟨x, body⟩))
    else endTag (.cond pos earlier x) body
  | c => endTag c body

theorem tagBehind_cond (pos : Position) (earlier : List Branch) (x : Expr) (body : List Stmt)
    (ts : List Token) :
    tagBehind (.cond pos earlier x) body ts =
      if AtTag .elif ts then condTag pos (⟨x, body⟩ :: earlier) (advance (advance ts))
      else if AtTag .else_ ts then
        closeTag (.enter (.otherwise pos earlier ⟨x, body⟩)) (advance (advance ts))
      else endTag (.cond pos earlier x) body ts := by
  change (if AtTag .elif ts then _ else if AtTag .else_ ts then _ else _ : Parse TagEffect) ts = _
  split
  · rfl
  · split <;> rfl

/-! ## Statements and recovery -/

/-- Skips to the next opening delimiter or behind the next closing one. -/
def skip : List Token → List Token
  | [] => []
  | t :: ts =>
    if t.kind = .eof ∨ t.kind.opensTag then t :: ts
    else if t.kind.closesTag then ts
    else skip ts

theorem skip_of_not_atEnd (hend : ¬ AtEnd ts) (hopens : (peek ts).kind.opensTag = false) :
    skip ts = if (peek ts).kind.closesTag then advance ts else skip (advance ts) := by
  cases ts with
  | nil => exact absurd rfl hend
  | cons t ts =>
    have heof : t.kind ≠ .eof := hend
    have ht : t.kind.opensTag = false := hopens
    simp [skip, advance, peek, heof, ht]

/-- The tokens where reading goes on when the statement that began at `ts` has broken off in front
of `us`. If it has taken nothing, one token is taken first. -/
def synchronize (ts us : List Token) : List Token :=
  if us.length = ts.length then
    if (peek us).kind.closesTag then advance us else skip (advance us)
  else skip us

/-- The end of a body, or of the template outside of all bodies. -/
def Stopped (nested : Bool) (ts : List Token) : Prop := AtEnd ts ∨ nested = true ∧ AtTerminator ts

mutual

/-- `Statement ts result errors rest`: a statement read off `ts` gives the result and leaves the
rest; the errors are those of the statements in its bodies. -/
inductive Statement : List Token → Except SyntaxError Stmt → List SyntaxError → List Token → Prop
  | single {ts rest : List Token} {s : Stmt} (h : opening ts = .ok (.add s) rest) :
    Statement ts (.ok s) [] rest
  | broken {ts rest : List Token} {e : SyntaxError} (h : opening ts = .error e rest) :
    Statement ts (.error e) [] rest
  | construct {ts us rest : List Token} {c : Construct} {result : Except SyntaxError Stmt}
    {errors : List SyntaxError} (h : opening ts = .ok (.enter c) us)
    (hb : Bodies c us result errors rest) : Statement ts result errors rest

/-- `Bodies c ts result errors rest`: the construct `c`, read on from the body it has come to. -/
inductive Bodies : Construct → List Token → Except SyntaxError Stmt → List SyntaxError →
    List Token → Prop
  | last {c : Construct} {ts us rest : List Token} {body : List Stmt} {errors : List SyntaxError}
    {s : Stmt} (hb : Statements true ts body errors us)
    (h : tagBehind c body us = .ok (.add s) rest) : Bodies c ts (.ok s) errors rest
  | broken {c : Construct} {ts us rest : List Token} {body : List Stmt} {errors : List SyntaxError}
    {e : SyntaxError} (hb : Statements true ts body errors us)
    (h : tagBehind c body us = .error e rest) : Bodies c ts (.error e) errors rest
  | more {c c' : Construct} {ts us vs rest : List Token} {body : List Stmt}
    {result : Except SyntaxError Stmt} {errors errors' : List SyntaxError}
    (hb : Statements true ts body errors us) (h : tagBehind c body us = .ok (.enter c') vs)
    (hn : Bodies c' vs result errors' rest) : Bodies c ts result (errors ++ errors') rest

/-- `Recovering ts s errors rest`: a statement read off `ts` is `s`, or it is dropped with one error
more and reading goes on at the next place where a statement can begin. -/
inductive Recovering : List Token → Option Stmt → List SyntaxError → List Token → Prop
  | kept {ts rest : List Token} {s : Stmt} {errors : List SyntaxError}
    (h : Statement ts (.ok s) errors rest) : Recovering ts (some s) errors rest
  | dropped {ts us : List Token} {e : SyntaxError} {errors : List SyntaxError}
    (h : Statement ts (.error e) errors us) :
    Recovering ts none (errors ++ [e]) (synchronize ts us)

/-- `Statements nested ts body errors rest`: the statements up to the end of a body, or of the
template if they are not nested. -/
inductive Statements : Bool → List Token → List Stmt → List SyntaxError → List Token → Prop
  | stop {nested : Bool} {ts : List Token} (h : Stopped nested ts) : Statements nested ts [] [] ts
  | step {nested : Bool} {ts us rest : List Token} {s : Option Stmt} {body : List Stmt}
    {errors errors' : List SyntaxError} (h : ¬ Stopped nested ts) (hs : Recovering ts s errors us)
    (hr : Statements nested us body errors' rest) :
    Statements nested ts (s.toList ++ body) (errors ++ errors') rest

end

end Descent

end Templates
