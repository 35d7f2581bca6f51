import Templates.Proofs.DescentProgress
import Templates.Proofs.DescentTags

/-!
# The descent is what the reader does

A rule of the descent that leads from the tokens `ts` to `us` takes `Reader.readAll` from a state
with `ts` at hand to one with `us` (`Statements.readAll_eq`). So the statements and errors of the
descent are those of `parse` (`parse_eq_of_statements`), and `parse_progress` carries over to the
reader what `Templates.Proofs.DescentProgress` says about progress.

A tag that ends a body is left to the construct around the body, while the reader acts on it at
once. The two agree because such a tag is not taken for a statement while a body is open
(`Stopped`).
-/

namespace Templates

namespace Descent

variable {ts us : List Token} {base : Reader}

/-! ## Recovery -/

theorem exists_opening? {t : Token} (h : t.kind.opensTag = true) :
    ∃ mode, Reader.opening? t = some mode := by
  unfold Reader.opening?
  split
  · exact ⟨_, rfl⟩
  · exact ⟨_, rfl⟩
  · next htag houtput => simp [opensTag_eq_false htag houtput] at h

/-- `skip` is what the reader does in the mode `seek`. -/
theorem readAll_skip (r : Reader) (ts : List Token) :
    { r with mode := .skip }.readAll ts = { r with mode := .start }.readAll (skip ts) := by
  induction ts with
  | nil => rfl
  | cons t ts ih =>
    rw [skip]
    split
    · next h =>
      rcases h with heof | hopens
      · have hopening : Reader.opening? t = none := by simp [Reader.opening?, heof]
        rw [Reader.readAll, Reader.readAll, if_pos heof, if_pos heof, Reader.finish, Reader.finish]
        simp [Reader.step, Reader.seek, Reader.beginStatement, hopening, heof]
      · obtain ⟨mode, hmode⟩ := exists_opening? hopens
        refine Reader.readAll_congr ?_
        change Reader.seek _ t = Reader.beginStatement _ t
        simp [Reader.seek, Reader.beginStatement, hmode]
    · next h =>
      have heof : t.kind ≠ .eof := fun heof => h (Or.inl heof)
      have hopening : Reader.opening? t = none :=
        opening?_eq_none (Bool.eq_false_iff.mpr fun hopens => h (Or.inr hopens))
      rw [Reader.readAll, if_neg heof]
      split
      · next hcloses => simp [Reader.step, Reader.seek, hopening, hcloses]
      · next hcloses =>
        rw [← ih]
        simp [Reader.step, Reader.seek, hopening, hcloses]

/-- A statement that breaks off and takes nothing does not begin with an opening delimiter. -/
theorem opensTag_of_broken {e : SyntaxError} {errors : List SyntaxError} (hend : ¬ AtEnd ts)
    (h : Statement ts (.error e) errors us) (hlen : us.length = ts.length) :
    (peek ts).kind.opensTag = false := by
  -- An opening delimiter is taken before anything can break off, and then the lengths differ.
  have hlt := length_advance_lt hend
  cases h with
  | construct h hb =>
    have htag := (takes_opening.ok h).length_add_le
    have hbody := hb.consumes.length_add_le
    omega
  | broken h =>
    by_cases htag : (peek ts).kind = .punctuation .tagOpen
    · rw [opening_of_tagOpen htag] at h
      have hle := ((takes_statementTag _).error h).length_add_le
      omega
    · by_cases houtput : (peek ts).kind = .punctuation .outputOpen
      · rw [opening_of_outputOpen houtput] at h
        have hle := ((takes_outputTag _).error h).length_add_le
        omega
      · exact opensTag_eq_false htag houtput

/-- The token that `synchronize` takes first is not one at which `skip` stops. -/
theorem synchronize_eq_skip {e : SyntaxError} {errors : List SyntaxError} (hend : ¬ AtEnd ts)
    (h : Statement ts (.error e) errors us) : synchronize ts us = skip us := by
  unfold synchronize
  split
  · next hlen =>
    have hopens := opensTag_of_broken hend h hlen
    obtain rfl : us = ts := h.consumes_zero.eq_of_length hlen
    exact (skip_of_not_atEnd hend hopens).symm
  · rfl

/-! ## Statements -/

/-- The statement at hand has been read with a result. -/
def settled (result : Except SyntaxError Stmt) (base : Reader) : Reader :=
  match result with
  | .ok s => base.apply (.add s)
  | .error e => base.giveUp e

/-- Errors have been found. -/
def record (base : Reader) (errors : List SyntaxError) : Reader :=
  { base with errors := errors.reverse ++ base.errors }

theorem record_append (base : Reader) (errors errors' : List SyntaxError) :
    record base (errors ++ errors') = record (record base errors) errors' := by
  simp [record]

theorem readAll_apply_enter {c : Construct} {body : List Stmt} {errors : List SyntaxError}
    {base : Reader}
    (h : { base.apply (.enter c) with mode := .start }.readAll ts =
      (⟨.start, body.reverse ++ (base.apply (.enter c)).body, (base.apply (.enter c)).frames,
        errors.reverse ++ base.errors⟩ : Reader).readAll us) :
    (base.apply (.enter c)).readAll ts = (inBody c body (record base errors)).readAll us := by
  simpa [Reader.apply, inBody, record] using h

mutual

/-- The reader comes from the tokens in front of a statement to those behind it. -/
theorem Statement.readAll_eq : ∀ {ts rest : List Token} {result : Except SyntaxError Stmt}
    {errors : List SyntaxError}, Statement ts result errors rest → ∀ base : Reader, ¬ AtEnd ts →
    (base.frames = [] ∨ ¬ AtTerminator ts) →
    { base with mode := .start }.readAll ts = (settled result (record base errors)).readAll rest
  | _, _, _, _, .single h, _, hend, hopen => (follows_opening hend hopen).ok h
  | _, _, _, _, .broken h, _, hend, hopen => (follows_opening hend hopen).error h
  | _, _, _, _, .construct h hb, base, hend, hopen => by
    rw [(follows_opening hend hopen).ok h]
    exact hb.readAll_eq base

theorem Bodies.readAll_eq : ∀ {c : Construct} {ts rest : List Token}
    {result : Except SyntaxError Stmt} {errors : List SyntaxError},
    Bodies c ts result errors rest → ∀ base : Reader,
    (base.apply (.enter c)).readAll ts = (settled result (record base errors)).readAll rest
  | c, _, _, _, errors, @Bodies.last _ _ _ _ body _ _ hb h, base => by
    rw [readAll_apply_enter (hb.readAll_eq (base.apply (.enter c)) nofun)]
    exact (follows_tagBehind hb.stopped c body (record base errors)).ok h
  | c, _, _, _, errors, @Bodies.broken _ _ _ _ body _ _ hb h, base => by
    rw [readAll_apply_enter (hb.readAll_eq (base.apply (.enter c)) nofun)]
    exact (follows_tagBehind hb.stopped c body (record base errors)).error h
  | c, _, _, _, _, @Bodies.more _ _ _ _ _ _ body _ errors _ hb h hn, base => by
    -- The errors of this body are recorded already when the next one is entered.
    rw [readAll_apply_enter (hb.readAll_eq (base.apply (.enter c)) nofun), record_append,
      ← hn.readAll_eq (record base errors)]
    exact (follows_tagBehind hb.stopped c body (record base errors)).ok h

theorem Recovering.readAll_eq : ∀ {ts rest : List Token} {s : Option Stmt}
    {errors : List SyntaxError}, Recovering ts s errors rest → ∀ base : Reader, ¬ AtEnd ts →
    (base.frames = [] ∨ ¬ AtTerminator ts) →
    { base with mode := .start }.readAll ts =
      (⟨.start, s.toList.reverse ++ base.body, base.frames, errors.reverse ++ base.errors⟩ :
        Reader).readAll rest
  | _, _, _, _, .kept h, base, hend, hopen => h.readAll_eq base hend hopen
  | _, _, _, _, @Recovering.dropped _ us e errors h, base, hend, hopen => by
    rw [h.readAll_eq base hend hopen, synchronize_eq_skip hend h]
    simpa [settled, Reader.giveUp, record] using readAll_skip ((record base errors).giveUp e) us

theorem Statements.readAll_eq : ∀ {nested : Bool} {ts rest : List Token} {body : List Stmt}
    {errors : List SyntaxError}, Statements nested ts body errors rest → ∀ base : Reader,
    (nested = false → base.frames = []) →
    { base with mode := .start }.readAll ts =
      (⟨.start, body.reverse ++ base.body, base.frames, errors.reverse ++ base.errors⟩ :
        Reader).readAll rest
  | _, _, _, _, _, .stop _, _, _ => rfl
  | nested, ts, _, _, _, .step h hs hr, base, hnested => by
    have hopen : base.frames = [] ∨ ¬ AtTerminator ts := by
      cases nested with
      | false => exact Or.inl (hnested rfl)
      | true => exact Or.inr fun hterm => h (Or.inr ⟨rfl, hterm⟩)
    rw [hs.readAll_eq base (fun hend => h (Or.inl hend)) hopen]
    simpa using hr.readAll_eq ⟨.start, _, base.frames, _⟩ hnested

end

/-! ## Templates -/

theorem readAll_of_statements {ss : List Stmt} {es : List SyntaxError}
    (h : Statements false ts ss es us) (body : List Stmt) (errors : List SyntaxError) :
    (⟨.start, body, [], errors⟩ : Reader).readAll ts =
      ⟨body.reverse ++ ss, errors.reverse ++ es⟩ := by
  have hend : AtEnd us := by
    rcases h.stopped with hend | ⟨hnested, -⟩
    · exact hend
    · cases hnested
  have hread := h.readAll_eq ⟨.start, body, [], errors⟩ fun _ => rfl
  have hlast : ∀ r : Reader, r.mode = .start → r.step (peek us) = r := by
    rintro ⟨mode, body, frames, errors⟩ rfl
    exact Reader.beginStatement_eof hend
  rw [hread, Reader.readAll_of_atEnd hend, Reader.finish, hlast _ rfl]
  simp

theorem parse_eq_of_statements {ss : List Stmt} {es : List SyntaxError}
    (h : Statements false ts ss es us) : parse ts = ⟨ss, es⟩ :=
  readAll_of_statements h [] []

theorem exists_statements_parse (ts : List Token) :
    ∃ rest, Statements false ts (parse ts).template (parse ts).errors rest := by
  obtain ⟨ss, es, rest, h⟩ := exists_statements false ts
  rw [parse_eq_of_statements h]
  exact ⟨rest, h⟩

/-- `Passes ts i j`: there is no end token from the place `i` up to the place `j`. -/
def Passes (ts : List Token) (i j : Nat) : Prop := ∀ k, i ≤ k → k < j → ¬ AtEnd (ts.drop k)

theorem Consumes.exists_drop {n i : Nat} (h : Consumes n (ts.drop i) us) :
    ∃ j, i + n ≤ j ∧ us = ts.drop j ∧ Passes ts i j := by
  obtain ⟨used, hts, hn, hused⟩ := h
  refine ⟨i + used.length, by omega, ?_, fun k hik hkj hend => ?_⟩
  · rw [← List.drop_drop, hts, List.drop_left]
  · have hk : k - i < used.length := by omega
    have hdrop : ts.drop k = used.drop (k - i) ++ us := by
      rw [← List.drop_append_of_le_length (Nat.le_of_lt hk), ← hts, List.drop_drop]
      congr 1
      omega
    rw [hdrop, List.drop_eq_getElem_cons hk] at hend
    exact hused _ (List.getElem_mem hk) hend

/-- Reading always gets on and comes to its end. A recovering statement that begins in front of the
end takes at least one token, no end token is ever passed, and so the loops over the statements of
the template and of every body end; what the template is read as is the outcome of such a loop. No
more errors are found than there are tokens in front of the end token. -/
theorem parse_progress (ts : List Token) :
    (∀ i, ¬ AtEnd (ts.drop i) → ∃ s errors j, Recovering (ts.drop i) s errors (ts.drop j) ∧
      i < j ∧ Passes ts i j ∧
      ∀ s' errors' rest, Recovering (ts.drop i) s' errors' rest →
        s' = s ∧ errors' = errors ∧ rest = ts.drop j) ∧
    (∀ nested i, ∃ body errors j, Statements nested (ts.drop i) body errors (ts.drop j) ∧
      i ≤ j ∧ Passes ts i j ∧ Stopped nested (ts.drop j) ∧
      ∀ body' errors' rest, Statements nested (ts.drop i) body' errors' rest →
        body' = body ∧ errors' = errors ∧ rest = ts.drop j) ∧
    (∃ rest, Statements false ts (parse ts).template (parse ts).errors rest) ∧
    (parse ts).errors.length ≤ (ts.takeWhile (·.kind ≠ .eof)).length := by
  refine ⟨fun i hend => ?_, fun nested i => ?_, exists_statements_parse ts, ?_⟩
  · obtain ⟨s, errors, rest, h⟩ := exists_recovering (ts.drop i)
    obtain ⟨j, hj, rfl, hpass⟩ := (h.consumes hend).exists_drop
    exact ⟨s, errors, j, h, by omega, hpass, fun _ _ _ h' => h'.unique h⟩
  · obtain ⟨body, errors, rest, h⟩ := exists_statements nested (ts.drop i)
    obtain ⟨j, hj, rfl, hpass⟩ := h.consumes.exists_drop
    exact ⟨body, errors, j, h, by omega, hpass, h.stopped, fun _ _ _ h' => h'.unique h⟩
  · obtain ⟨rest, h⟩ := exists_statements_parse ts
    exact h.consumes.le_takeWhile

end Descent

end Templates
