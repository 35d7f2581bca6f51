import Templates.Proofs.Descent

/-!
# The descent ends

A `Recovering` statement takes at least one token and never an end token (`Recovering.consumes`). So
the loops over statements and the descent into bodies come to an end (`exists_recovering`,
`exists_statements`), and `Recovering.unique` says that they do so in one way only. `Consumes` also
bounds the number of errors by the number of tokens taken.

A statement may take nothing when it breaks off at its first token. It is `synchronize` that then
takes one, so `consumes_synchronize` looks at the two together.
-/

namespace Templates

namespace Descent

variable {ts us vs rest : List Token}

/-! ## Tokens taken -/

/-- `Consumes n ts us`: from `ts` to `us` at least `n` tokens are taken, none of them an end token.
-/
def Consumes (n : Nat) (ts us : List Token) : Prop :=
  ∃ used, ts = used ++ us ∧ n ≤ used.length ∧ ∀ t ∈ used, t.kind ≠ .eof

namespace Consumes

variable {m n : Nat}

theorem refl (ts : List Token) : Consumes 0 ts ts := ⟨[], rfl, Nat.le_refl _, by simp⟩

theorem trans (h : Consumes m ts us) (h' : Consumes n us vs) : Consumes (m + n) ts vs := by
  obtain ⟨xs, rfl, hm, hxs⟩ := h
  obtain ⟨ys, rfl, hn, hys⟩ := h'
  refine ⟨xs ++ ys, by simp, ?_, List.forall_mem_append.mpr ⟨hxs, hys⟩⟩
  rw [List.length_append]
  omega

theorem mono (h : Consumes n ts us) (hmn : m ≤ n) : Consumes m ts us := by
  obtain ⟨used, hts, hn, hused⟩ := h
  exact ⟨used, hts, Nat.le_trans hmn hn, hused⟩

theorem length_add_le (h : Consumes n ts us) : us.length + n ≤ ts.length := by
  obtain ⟨used, rfl, hn, -⟩ := h
  rw [List.length_append]
  omega

theorem eq_of_length (h : Consumes n ts us) (hlen : us.length = ts.length) : us = ts := by
  obtain ⟨used, rfl, -, -⟩ := h
  rw [List.length_append] at hlen
  have hused : used = [] := List.eq_nil_of_length_eq_zero (by omega)
  rw [hused, List.nil_append]

/-- The tokens taken stand in front of the first end token. -/
theorem le_takeWhile (h : Consumes n ts us) : n ≤ (ts.takeWhile (·.kind ≠ .eof)).length := by
  obtain ⟨used, rfl, hn, hused⟩ := h
  have htake : (used ++ us).takeWhile (·.kind ≠ .eof) = used ++ us.takeWhile (·.kind ≠ .eof) :=
    List.takeWhile_append_of_pos (by simpa using hused)
  rw [htake, List.length_append]
  omega

end Consumes

theorem consumes_advance (h : ¬ AtEnd ts) : Consumes 1 ts (advance ts) :=
  ⟨[peek ts], eq_peek_cons_advance h, Nat.le_refl _, by simpa [AtEnd] using h⟩

theorem consumes_advance_zero (ts : List Token) : Consumes 0 ts (advance ts) := by
  by_cases h : AtEnd ts
  · cases ts with
    | nil => exact .refl []
    | cons t ts =>
      have ht : t.kind = .eof := h
      rw [advance, if_pos ht]
      exact .refl _
  · exact (consumes_advance h).mono (Nat.zero_le _)

/-! ## Tags -/

/-- `Takes n p`: what `p` reads has at least `n` tokens; and it never takes the end token, not even
where it breaks off. -/
structure Takes {α : Type} (n : Nat) (p : Parse α) : Prop where
  ok {ts us : List Token} {a : α} (h : p ts = .ok a us) : Consumes n ts us
  error {ts us : List Token} {e : SyntaxError} (h : p ts = .error e us) : Consumes 0 ts us

section Takes

variable {α β : Type} {m n : Nat} {p : Parse α} {f : α → Parse β}

theorem Takes.bind (hp : Takes m p) (hf : ∀ a, Takes n (f a)) : Takes (m + n) (p >>= f) where
  ok {ts us b} h := by
    cases hts : p ts with
    | ok a vs =>
      rw [bind_of_ok hts] at h
      exact (hp.ok hts).trans ((hf a).ok h)
    | error e vs =>
      rw [bind_of_error hts] at h
      cases h
  error {ts us e} h := by
    cases hts : p ts with
    | ok a vs =>
      rw [bind_of_ok hts] at h
      exact ((hp.ok hts).trans ((hf a).error h)).mono (Nat.zero_le _)
    | error e vs =>
      rw [bind_of_error hts] at h
      cases h
      exact hp.error hts

theorem Takes.zero_bind (hp : Takes 0 p) (hf : ∀ a, Takes n (f a)) : Takes n (p >>= f) := by
  have hbind := hp.bind hf
  rwa [Nat.zero_add] at hbind

theorem Takes.mono (hp : Takes n p) (hmn : m ≤ n) : Takes m p where
  ok h := (hp.ok h).mono hmn
  error h := hp.error h

theorem takes_pure (a : α) : Takes 0 (pure a : Parse α) where
  ok h := by
    cases h
    exact .refl _
  error h := by cases h

theorem takes_throw (n : Nat) (e : SyntaxError) : Takes n (throw e : Parse α) where
  ok h := by cases h
  error h := by
    cases h
    exact .refl _

end Takes

theorem takes_get : Takes 0 (get : Parse (List Token)) where
  ok h := by
    cases h
    exact .refl _
  error h := by cases h

theorem takes_hand : Takes 0 hand := takes_get.zero_bind fun _ => takes_pure _

theorem takes_next : Takes 0 next where
  ok h := by
    cases h
    exact consumes_advance_zero _
  error h := by cases h

theorem takes_expect {wanted : TokenKind} (hwanted : wanted ≠ .eof) :
    Takes 1 (expect wanted) where
  ok {ts us t} h := by
    by_cases hk : (peek ts).kind = wanted
    · have hend : ¬ AtEnd ts := fun hend => hwanted (hk.symm.trans hend)
      rw [expect_of_eq hk] at h
      cases h
      exact consumes_advance hend
    · rw [expect_of_ne hk] at h
      cases h
  error {ts us e} h := by
    by_cases hk : (peek ts).kind = wanted
    · rw [expect_of_eq hk] at h
      cases h
    · rw [expect_of_ne hk] at h
      cases h
      exact .refl _

/-- Every token of an expression but the one it ends in front of is taken. -/
theorem takes_readExpr (r : ExprReader) : Takes 0 (readExpr r) := by
  suffices h : ∀ ts, (∀ x us, readExpr r ts = .ok x us → Consumes 0 ts us) ∧
      ∀ e us, readExpr r ts = .error e us → Consumes 0 ts us from
    ⟨fun {ts us x} => (h ts).1 x us, fun {ts us e} => (h ts).2 e us⟩
  intro ts
  fun_induction readExpr r ts with
  | case1 r ts r' h ih =>
    have hstep := consumes_advance_zero ts
    exact ⟨fun x us hx => hstep.trans (ih.1 x us hx), fun e us he => hstep.trans (ih.2 e us he)⟩
  | case2 r ts x h =>
    refine ⟨fun y us hy => ?_, nofun⟩
    cases hy
    exact .refl _
  | case3 r ts fault h =>
    refine ⟨nofun, fun e us he => ?_⟩
    cases he
    exact .refl _

theorem takes_expression : Takes 1 expression where
  ok {ts us x} h := by
    rw [expression] at h
    cases hs : ExprReader.start.step (peek ts) with
    | more r =>
      have hend : ¬ AtEnd ts := fun hend => ExprReader.step_eof_ne_more hend hs
      rw [readExpr_of_more hs] at h
      exact (consumes_advance hend).trans ((takes_readExpr r).ok h)
    | done y => exact absurd hs ExprReader.inside_ne_done
    | fail fault =>
      rw [readExpr_of_fail hs] at h
      cases h
  error h := (takes_readExpr .start).error h

theorem takes_closedExpr (closer : Punctuation) : Takes 1 (closedExpr closer) :=
  (takes_expression.bind fun _ => (takes_expect (by simp)).bind fun _ => takes_pure _).mono
    (by omega)

theorem takes_outputTag (pos : Position) : Takes 1 (outputTag pos) :=
  (takes_closedExpr .outputClose).bind fun _ => takes_pure _

theorem takes_setTag (pos : Position) : Takes 1 (setTag pos) :=
  ((takes_expect (by simp)).bind fun _ => (takes_expect (by simp)).bind fun _ =>
    (takes_closedExpr .tagClose).bind fun _ => takes_pure _).mono (by omega)

theorem takes_condTag (pos : Position) (earlier : List Branch) : Takes 1 (condTag pos earlier) :=
  (takes_closedExpr .tagClose).bind fun _ => takes_pure _

theorem takes_loopTag (pos : Position) : Takes 1 (loopTag pos) :=
  ((takes_expect (by simp)).bind fun _ => (takes_expect (by simp)).bind fun _ =>
    (takes_closedExpr .tagClose).bind fun _ => takes_pure _).mono (by omega)

theorem takes_closeTag (effect : TagEffect) : Takes 1 (closeTag effect) :=
  (takes_expect (by simp)).bind fun _ => takes_pure _

theorem takes_blockTag (pos : Position) : Takes 1 (blockTag pos) := by
  refine takes_hand.zero_bind fun t => ?_
  split
  · exact takes_next.zero_bind fun _ => takes_closeTag _
  · exact takes_closeTag _

theorem takes_statementTag (pos : Position) : Takes 1 (statementTag pos) := by
  refine takes_hand.zero_bind fun t => ?_
  unfold statementTagAt
  split
  · exact takes_next.zero_bind fun _ => takes_setTag pos
  · exact takes_next.zero_bind fun _ => takes_condTag pos []
  · exact takes_next.zero_bind fun _ => takes_loopTag pos
  · exact takes_next.zero_bind fun _ => takes_blockTag pos
  · exact takes_throw _ _
  · exact takes_throw _ _

theorem takes_opening : Takes 1 opening := by
  refine takes_hand.zero_bind fun t => ?_
  unfold openingAt
  split
  · exact takes_next.zero_bind fun _ => takes_statementTag t.pos
  · exact takes_next.zero_bind fun _ => takes_outputTag t.pos
  · exact takes_expression.bind fun _ => takes_pure _

theorem takes_endTag (c : Construct) (body : List Stmt) : Takes 1 (endTag c body) :=
  ((takes_expect (by simp)).bind fun _ => (takes_expect (by simp)).bind fun _ =>
    takes_closeTag _).mono (by omega)

theorem takes_tagBehind (c : Construct) (body : List Stmt) : Takes 1 (tagBehind c body) := by
  refine takes_get.zero_bind fun ts => ?_
  split
  · split
    · exact takes_next.zero_bind fun _ => takes_next.zero_bind fun _ => takes_condTag _ _
    · split
      · exact takes_next.zero_bind fun _ => takes_next.zero_bind fun _ => takes_closeTag _
      · exact takes_endTag _ body
  · exact takes_endTag _ body

/-! ## Recovery and statements -/

theorem consumes_skip (ts : List Token) : Consumes 0 ts (skip ts) := by
  induction ts with
  | nil => exact .refl []
  | cons t ts ih =>
    rw [skip]
    split
    · exact .refl _
    · next h =>
      have hstep : Consumes 1 (t :: ts) ts :=
        ⟨[t], rfl, Nat.le_refl _, by simpa using fun heof => h (Or.inl heof)⟩
      split
      · exact hstep.mono (Nat.zero_le _)
      · exact (hstep.trans ih).mono (Nat.zero_le _)

theorem consumes_synchronize_of (ts us : List Token) : Consumes 0 us (synchronize ts us) := by
  unfold synchronize
  split
  · split
    · exact consumes_advance_zero us
    · exact (consumes_advance_zero us).trans (consumes_skip _)
  · exact consumes_skip us

/-- A statement that breaks off and the recovery behind it take a token, even if the statement
itself has taken none. -/
theorem consumes_synchronize (hend : ¬ AtEnd ts) (h : Consumes 0 ts us) :
    Consumes 1 ts (synchronize ts us) := by
  obtain ⟨used, hts, -, hused⟩ := h
  cases used with
  | nil =>
    obtain rfl : ts = us := hts
    have hstep := consumes_advance hend
    rw [synchronize, if_pos rfl]
    split
    · exact hstep
    · exact hstep.trans (consumes_skip _)
  | cons t used =>
    have hstep : Consumes 1 ts us := ⟨t :: used, hts, by simp, hused⟩
    exact hstep.trans (consumes_synchronize_of ts us)

mutual

/-- A statement takes a token more than it has errors in its bodies, unless it breaks off at its
first tag. -/
theorem Statement.consumes : ∀ {ts rest : List Token} {result : Except SyntaxError Stmt}
    {errors : List SyntaxError}, Statement ts result errors rest →
    Consumes (errors.length + 1) ts rest ∨
      (∃ e, result = .error e) ∧ errors = [] ∧ Consumes 0 ts rest
  | _, _, _, _, .single h => Or.inl (takes_opening.ok h)
  | _, _, _, _, .broken h => Or.inr ⟨⟨_, rfl⟩, rfl, takes_opening.error h⟩
  | _, _, _, errors, .construct h hb => by
    rw [Nat.add_comm]
    exact Or.inl ((takes_opening.ok h).trans hb.consumes)

theorem Bodies.consumes : ∀ {c : Construct} {ts rest : List Token}
    {result : Except SyntaxError Stmt} {errors : List SyntaxError},
    Bodies c ts result errors rest → Consumes errors.length ts rest
  | c, _, _, _, _, @Bodies.last _ _ _ _ body _ _ hb h =>
    (hb.consumes.trans ((takes_tagBehind c body).ok h)).mono (Nat.le_add_right _ _)
  | c, _, _, _, _, @Bodies.broken _ _ _ _ body _ _ hb h =>
    hb.consumes.trans ((takes_tagBehind c body).error h)
  | c, _, _, _, _, @Bodies.more _ _ _ _ _ _ body _ _ _ hb h hn => by
    have htag := ((takes_tagBehind c body).ok h).mono (Nat.zero_le _)
    rw [List.length_append]
    exact (hb.consumes.trans htag).trans hn.consumes

/-- A recovering statement takes at least one token for itself and one for each of its errors. -/
theorem Recovering.consumes : ∀ {ts rest : List Token} {s : Option Stmt}
    {errors : List SyntaxError}, Recovering ts s errors rest → ¬ AtEnd ts →
    Consumes (max 1 errors.length) ts rest
  | _, _, _, _, .kept h, _ => by
    rcases h.consumes with hc | ⟨⟨e, he⟩, -, -⟩
    · exact hc.mono (by omega)
    · cases he
  | ts, _, _, _, @Recovering.dropped _ us e errors h, hend => by
    -- The error of the statement itself is paid for by the token that is taken beyond its bodies.
    rcases h.consumes with hc | ⟨-, rfl, hc⟩
    · have hsync := hc.trans (consumes_synchronize_of ts us)
      exact hsync.mono (by simp)
    · exact consumes_synchronize hend hc

theorem Statements.consumes : ∀ {nested : Bool} {ts rest : List Token} {body : List Stmt}
    {errors : List SyntaxError}, Statements nested ts body errors rest →
    Consumes errors.length ts rest
  | _, _, _, _, _, .stop _ => .refl _
  | _, _, _, _, _, .step h hs hr => by
    have hstep := (hs.consumes fun hend => h (Or.inl hend)).mono (Nat.le_max_right _ _)
    rw [List.length_append]
    exact hstep.trans hr.consumes

end

theorem Statement.consumes_zero {result : Except SyntaxError Stmt} {errors : List SyntaxError}
    (h : Statement ts result errors rest) : Consumes 0 ts rest := by
  rcases h.consumes with hc | ⟨-, -, hc⟩
  · exact hc.mono (Nat.zero_le _)
  · exact hc

theorem Statements.stopped {nested : Bool} {body : List Stmt} {errors : List SyntaxError} :
    ∀ {ts : List Token}, Statements nested ts body errors rest → Stopped nested rest
  | _, .stop h => h
  | _, .step _ _ hr => hr.stopped

/-! ## The descent ends -/

mutual

-- Before anything has been taken, a body asks for its `Statements`, and these for their first
-- statement; the second number of the measure counts that.
theorem exists_recovering (ts : List Token) :
    ∃ s errors rest, Recovering ts s errors rest := by
  match h : opening ts with
  | .ok (.add s) us => exact ⟨_, _, _, .kept (.single h)⟩
  | .error e us => exact ⟨_, _, _, .dropped (.broken h)⟩
  | .ok (.enter c) us =>
    have hlt := (takes_opening.ok h).length_add_le
    obtain ⟨result, errors, rest, hb⟩ := exists_bodies c us
    cases result with
    | ok s => exact ⟨_, _, _, .kept (.construct h hb)⟩
    | error e => exact ⟨_, _, _, .dropped (.construct h hb)⟩
termination_by (ts.length, 0)

theorem exists_statements (nested : Bool) (ts : List Token) :
    ∃ body errors rest, Statements nested ts body errors rest := by
  by_cases h : Stopped nested ts
  · exact ⟨_, _, _, .stop h⟩
  · have hend : ¬ AtEnd ts := fun hend => h (Or.inl hend)
    obtain ⟨s, errors, us, hs⟩ := exists_recovering ts
    have hlt := ((hs.consumes hend).mono (Nat.le_max_left _ _)).length_add_le
    obtain ⟨body, errors', rest, hr⟩ := exists_statements nested us
    exact ⟨_, _, _, .step h hs hr⟩
termination_by (ts.length, 1)

theorem exists_bodies (c : Construct) (ts : List Token) :
    ∃ result errors rest, Bodies c ts result errors rest := by
  obtain ⟨body, errors, us, hb⟩ := exists_statements true ts
  have hle := hb.consumes.length_add_le
  match h : tagBehind c body us with
  | .ok (.add s) rest => exact ⟨_, _, _, .last hb h⟩
  | .error e rest => exact ⟨_, _, _, .broken hb h⟩
  | .ok (.enter c') vs =>
    have hlt := ((takes_tagBehind c body).ok h).length_add_le
    obtain ⟨result, errors', rest, hn⟩ := exists_bodies c' vs
    exact ⟨_, _, _, .more hb h hn⟩
termination_by (ts.length, 2)

end

/-! ## There is only one way -/

mutual

theorem Statement.unique : ∀ {ts us : List Token} {r : Except SyntaxError Stmt}
    {es : List SyntaxError}, Statement ts r es us → ∀ {r' es' us'}, Statement ts r' es' us' →
    r = r' ∧ es = es' ∧ us = us'
  | _, _, _, _, .single h => by
    intro h'
    cases h' <;> simp_all
  | _, _, _, _, .broken h => by
    intro h'
    cases h' <;> simp_all
  | _, _, _, _, .construct h hb => by
    intro h'
    cases h' with
    | single h' | broken h' => simp_all
    | construct h' hb' =>
      rw [h] at h'
      cases h'
      exact hb.unique hb'

theorem Bodies.unique : ∀ {c : Construct} {ts us : List Token} {r : Except SyntaxError Stmt}
    {es : List SyntaxError}, Bodies c ts r es us → ∀ {r' es' us'}, Bodies c ts r' es' us' →
    r = r' ∧ es = es' ∧ us = us'
  | _, _, _, _, _, .last hb h => by
    intro h'
    cases h' with
    | last hb' h' | broken hb' h' | more hb' h' _ =>
      obtain ⟨rfl, rfl, rfl⟩ := hb.unique hb'
      simp_all
  | _, _, _, _, _, .broken hb h => by
    intro h'
    cases h' with
    | last hb' h' | broken hb' h' | more hb' h' _ =>
      obtain ⟨rfl, rfl, rfl⟩ := hb.unique hb'
      simp_all
  | _, _, _, _, _, .more hb h hn => by
    intro h'
    cases h' with
    | last hb' h' | broken hb' h' =>
      obtain ⟨rfl, rfl, rfl⟩ := hb.unique hb'
      simp_all
    | more hb' h' hn' =>
      obtain ⟨rfl, rfl, rfl⟩ := hb.unique hb'
      rw [h] at h'
      cases h'
      obtain ⟨rfl, rfl, rfl⟩ := hn.unique hn'
      exact ⟨rfl, rfl, rfl⟩

theorem Recovering.unique : ∀ {ts us : List Token} {s : Option Stmt} {es : List SyntaxError},
    Recovering ts s es us → ∀ {s' es' us'}, Recovering ts s' es' us' →
    s = s' ∧ es = es' ∧ us = us'
  | _, _, _, _, .kept h => by
    intro h'
    cases h' with
    | kept h' =>
      obtain ⟨hr, rfl, rfl⟩ := h.unique h'
      cases hr
      exact ⟨rfl, rfl, rfl⟩
    | dropped h' => cases (h.unique h').1
  | _, _, _, _, .dropped h => by
    intro h'
    cases h' with
    | kept h' => cases (h.unique h').1
    | dropped h' =>
      obtain ⟨hr, rfl, rfl⟩ := h.unique h'
      cases hr
      exact ⟨rfl, rfl, rfl⟩

theorem Statements.unique : ∀ {nested : Bool} {ts us : List Token} {body : List Stmt}
    {es : List SyntaxError}, Statements nested ts body es us → ∀ {body' es' us'},
    Statements nested ts body' es' us' → body = body' ∧ es = es' ∧ us = us'
  | _, _, _, _, _, .stop h => by
    intro h'
    cases h' with
    | stop _ => exact ⟨rfl, rfl, rfl⟩
    | step hstop _ _ => exact absurd h hstop
  | _, _, _, _, _, .step h hs hr => by
    intro h'
    cases h' with
    | stop hstop => exact absurd hstop h
    | step _ hs' hr' =>
      obtain ⟨rfl, rfl, rfl⟩ := hs.unique hs'
      obtain ⟨rfl, rfl, rfl⟩ := hr.unique hr'
      exact ⟨rfl, rfl, rfl⟩

end

end Descent

end Templates
