import Templates.Reader

/-!
# Errors are never taken back

`Reader.step` finds at most one error, at the token it reads, and adds it to those found before
(`Reader.blames_step`). So a template that was read without an error had none at any of its tokens.
`SyntaxFault.found` is the kind of the token at which a fault was found, so an error alone tells
whether it was found at an end token.
-/

namespace Templates

/-- The kind of the token at which the fault is found. -/
def SyntaxFault.found : SyntaxFault → TokenKind
  | expected _ found | noOperand found | unknownTag found => found
  | badInteger _ => .int
  | unopened word => .keyword word

/-- The error was found at the token: it names the place of the token and its kind. -/
def SyntaxError.IsAt (e : SyntaxError) (t : Token) : Prop := e.pos = t.pos ∧ e.fault.found = t.kind

/-- Reading `t` from `r` to `r'` found no error, or one at the token. -/
def Reader.Reports (r : Reader) (t : Token) (r' : Reader) : Prop :=
  r'.errors = r.errors ∨ ∃ fault, r'.errors = ⟨t.pos, fault⟩ :: r.errors

/-- Reading `t` from `r` to `r'` found no error, or one at the token, whose kind it names. -/
def Reader.Blames (r : Reader) (t : Token) (r' : Reader) : Prop :=
  r'.errors = r.errors ∨ ∃ e : SyntaxError, e.IsAt t ∧ r'.errors = e :: r.errors

namespace ExprReader

theorem found_of_readOperand {pending : List Pending} {t : Token} {fault : SyntaxFault}
    (h : readOperand pending t = .error fault) : fault.found = t.kind := by
  obtain ⟨kind, literal, pos⟩ := t
  unfold readOperand at h
  split at h
  · cases h
  · next hkind =>
    split at h
    · cases h
    · cases h
      exact hkind.symm
  · cases h
  · cases h
  · cases h
  · cases h
  · split at h
    · cases h
    · cases h
      rfl
  · cases h
  · cases h
    rfl

theorem found_of_step {r : ExprReader} {t : Token} {fault : SyntaxFault}
    (h : r.step t = .fail fault) : fault.found = t.kind := by
  cases r with
  | operand pending =>
    rw [step] at h
    cases hread : readOperand pending t with
    | ok r => simp [hread, inside] at h
    | error f =>
      rw [hread] at h
      cases h
      exact found_of_readOperand hread
  | name pending pos link x =>
    rw [step, readName] at h
    split at h
    · cases h
    · cases h
      rfl
  | complete pending x =>
    rw [step, readJoint] at h
    split at h
    · cases h
    · split at h
      · cases h
      · split at h
        · cases h
        · cases h
          rfl

end ExprReader

namespace Reader

theorem errors_seek (r : Reader) (t : Token) : (r.seek t).errors = r.errors := by
  unfold seek
  split <;> rfl

theorem errors_fail (r : Reader) (fault : SyntaxFault) (t : Token) :
    (r.fail fault t).errors = ⟨t.pos, fault⟩ :: r.errors := errors_seek _ _

theorem blames_fail (r : Reader) {fault : SyntaxFault} {t : Token} (h : fault.found = t.kind) :
    r.Blames t (r.fail fault t) := Or.inr ⟨⟨t.pos, fault⟩, ⟨rfl, h⟩, errors_fail r fault t⟩

theorem blames_beginStatement (r : Reader) (t : Token) : r.Blames t (r.beginStatement t) := by
  unfold beginStatement
  split
  · exact Or.inl rfl
  · split
    · exact Or.inl rfl
    · split
      · exact Or.inl rfl
      · next hread => exact blames_fail r (ExprReader.found_of_readOperand hread)

theorem blames_expect {r next : Reader} {t : Token} (h : next.errors = r.errors)
    (wanted : TokenKind) : r.Blames t (r.expect wanted t next) := by
  unfold expect
  split
  · exact Or.inl h
  · exact blames_fail r rfl

theorem errors_apply (r : Reader) (effect : TagEffect) : (r.apply effect).errors = r.errors := by
  cases effect <;> rfl

theorem blames_leave (r : Reader) {word : Keyword} {t : Token} (h : t.kind = .keyword word) :
    r.Blames t (r.leave word t) := by
  unfold leave
  split
  · exact blames_fail r h.symm
  · next f frames _ =>
    split
    · exact Or.inl rfl
    · exact blames_fail { r with body := f.before, frames := frames } rfl

theorem blames_readTag (r : Reader) (pos : Position) (t : Token) :
    r.Blames t (r.readTag pos t) := by
  unfold readTag
  split
  · exact Or.inl rfl
  · exact Or.inl rfl
  · exact Or.inl rfl
  · exact Or.inl rfl
  · next hkind =>
    split
    · exact blames_leave r hkind
    · exact blames_fail r rfl
  · exact blames_fail r rfl

theorem blames_readExpr (r : Reader) (purpose : Purpose) (reader : ExprReader) (t : Token) :
    r.Blames t (r.readExpr purpose reader t) := by
  unfold readExpr
  split
  · exact Or.inl rfl
  · next x _ =>
    unfold finishExpr
    split
    · exact blames_beginStatement { r with body := .bare x :: r.body } t
    · exact blames_expect (errors_apply r _) _
  · next hstep => exact blames_fail r (ExprReader.found_of_step hstep)

/-- A token gives rise to at most one error, which is found at the token. -/
theorem blames_step (r : Reader) (t : Token) : r.Blames t (r.step t) := by
  unfold step
  split
  · exact blames_beginStatement r t
  · exact Or.inl (errors_seek r t)
  · exact blames_readTag r _ t
  · exact blames_expect rfl _
  · exact blames_expect rfl _
  · exact blames_expect rfl _
  · exact blames_expect rfl _
  · split
    · exact Or.inl rfl
    · exact blames_expect (errors_apply r _) _
  · exact blames_readExpr r _ _ t
  · exact blames_expect (errors_apply r _) _

/-- A token gives rise to at most one error, at its position. -/
theorem reports_step (r : Reader) (t : Token) : r.Reports t (r.step t) := by
  rcases blames_step r t with hsame | ⟨⟨pos, fault⟩, ⟨hpos, -⟩, hnew⟩
  · exact Or.inl hsame
  · obtain rfl : pos = t.pos := hpos
    exact Or.inr ⟨fault, hnew⟩

theorem errors_eq_nil_of_step {r : Reader} {t : Token} (h : (r.step t).errors = []) :
    r.errors = [] := by
  rcases reports_step r t with heq | ⟨fault, heq⟩
  · rw [← heq, h]
  · rw [h] at heq
    cases heq

theorem errors_eq_nil_of_run {r : Reader} {ts : List Token} (h : (r.run ts).errors = []) :
    r.errors = [] := by
  induction ts generalizing r with
  | nil => exact h
  | cons t ts ih => exact errors_eq_nil_of_step (ih h)

theorem isAt_of_mem_errors_step {r : Reader} {t : Token} {e : SyntaxError}
    (h : e ∈ (r.step t).errors) : e ∈ r.errors ∨ e.IsAt t := by
  rcases blames_step r t with hsame | ⟨new, hnew, herrors⟩
  · exact Or.inl (hsame ▸ h)
  · rw [herrors] at h
    rcases List.mem_cons.mp h with rfl | hold
    · exact Or.inr hnew
    · exact Or.inl hold

theorem exists_isAt_of_mem_errors_run {r : Reader} {ts : List Token} {e : SyntaxError}
    (h : e ∈ (r.run ts).errors) : e ∈ r.errors ∨ ∃ t ∈ ts, e.IsAt t := by
  induction ts generalizing r with
  | nil => exact Or.inl h
  | cons t ts ih =>
    have hrun : e ∈ ((r.step t).run ts).errors := h
    rcases ih hrun with hstep | ⟨u, hu, hat⟩
    · rcases isAt_of_mem_errors_step hstep with hold | hat
      · exact Or.inl hold
      · exact Or.inr ⟨t, List.mem_cons_self, hat⟩
    · exact Or.inr ⟨u, List.mem_cons_of_mem t hu, hat⟩

/-- `finish` finds errors at the end token only. -/
theorem isAt_of_mem_errors_finish {r : Reader} {last : Token} {e : SyntaxError}
    (h : e ∈ (r.finish last).errors) : e ∈ r.errors ∨ e.IsAt last := by
  rcases List.mem_append.mp h with hstep | hopen
  · exact isAt_of_mem_errors_step (List.mem_reverse.mp hstep)
  · obtain ⟨frame, -, rfl⟩ := List.mem_map.mp hopen
    exact Or.inr ⟨rfl, rfl⟩

end Reader

/-- Every error is found at one of the tokens in front of the end token, or at the end token. -/
theorem exists_isAt_of_mem_errors_parse {ts : List Token} {e : SyntaxError}
    (h : e ∈ (parse ts).errors) :
    (∃ t ∈ ts.takeWhile (·.kind ≠ .eof), e.IsAt t) ∨ e.IsAt (endToken ts) := by
  rw [parse, Reader.readAll_eq] at h
  rcases Reader.isAt_of_mem_errors_finish h with hrun | hend
  · rcases Reader.exists_isAt_of_mem_errors_run hrun with hnone | hfront
    · exact absurd hnone List.not_mem_nil
    · exact Or.inl hfront
  · exact Or.inr hend

end Templates
