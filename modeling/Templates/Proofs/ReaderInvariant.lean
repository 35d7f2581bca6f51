import Templates.Proofs.ReaderErrors
import Templates.Proofs.TemplateReading

/-!
# What is read without errors

`parse` finds no error if and only if the tokens are an `IsTemplate` (`parse_errors_eq_nil_iff`),
and its template is then the one that `BodyReading` gives for them.

`Reader.Covers` is the invariant of reading as long as no error was found. The tokens so far fall
into three parts: those that opened the constructs around the innermost body (`Enclosing`), those of
the statements of that body, and those of the statement at hand, which `Mode.Covers` describes. A
statement is completed only in front of or by a token that fits, so each part is always a reading of
what the reader holds.
-/

namespace Templates

/-! ## Open constructs -/

/-- `Header c ts`: the tokens `ts` open the construct `c`, up to the delimiter in front of its
innermost body. -/
inductive Header : Construct → List Token → Prop
  | cond {pos : Position} {us ts : List Token} {x : Expr} (hx : Layer.Derives .equality us x)
    (ht : TagAt pos .if_ us ts) : Header (.cond pos [] x) ts
  | elseIf {pos p : Position} {earlier : List Branch} {ts us vs ws : List Token} {x y : Expr}
    {body : List Stmt} (h : Header (.cond pos earlier x) ts) (hb : BodyReading us body)
    (hy : Layer.Derives .equality vs y) (ht : TagAt p .elif vs ws) :
    Header (.cond pos (⟨x, body⟩ :: earlier) y) (ts ++ (us ++ ws))
  | otherwise {pos p : Position} {earlier : List Branch} {ts us ws : List Token} {x : Expr}
    {body : List Stmt} (h : Header (.cond pos earlier x) ts) (hb : BodyReading us body)
    (ht : TagAt p .else_ [] ws) : Header (.otherwise pos earlier ⟨x, body⟩) (ts ++ (us ++ ws))
  | loop {pos : Position} {n i : Token} {us ts : List Token} {x : Expr} (hn : n.kind = .ident)
    (hi : i.kind = .keyword .in_) (hx : Layer.Derives .equality us x)
    (ht : TagAt pos .for_ (n :: i :: us) ts) : Header (.loop pos n.name x) ts
  | block {pos : Position} {n : Option Token} {ts : List Token} (hn : ∀ t ∈ n, t.kind = .ident)
    (ht : TagAt pos .block n.toList ts) : Header (.block pos (n.map Token.name)) ts

theorem Header.stops {c : Construct} {ts : List Token} (h : Header c ts) : Stops ts := by
  induction h with
  | cond _ ht => exact ht.stops
  | elseIf _ _ _ _ ih => exact ih.append _
  | otherwise _ _ _ ih => exact ih.append _
  | loop _ _ _ ht => exact ht.stops
  | block _ ht => exact ht.stops

theorem Header.ne_eof {c : Construct} {ts : List Token} (h : Header c ts) :
    ∀ t ∈ ts, t.kind ≠ .eof := by
  induction h with
  | cond hx ht => exact ht.ne_eof hx.ne_eof
  | elseIf _ hb hy ht ih =>
    exact List.forall_mem_append.mpr
      ⟨ih, List.forall_mem_append.mpr ⟨hb.ne_eof, ht.ne_eof hy.ne_eof⟩⟩
  | otherwise _ hb ht ih =>
    have htag := ht.ne_eof (List.forall_mem_nil _)
    exact List.forall_mem_append.mpr ⟨ih, List.forall_mem_append.mpr ⟨hb.ne_eof, htag⟩⟩
  | loop hn hi hx ht => exact ht.ne_eof (by simpa [hn, hi] using hx.ne_eof)
  | block hn ht => exact ht.ne_eof (by simpa using fun t ht => by simp [hn t ht])

/-- The tokens that open a construct lead into its body. -/
theorem Reader.run_header {c : Construct} {ts : List Token} (h : Header c ts) {body : List Stmt}
    {frames : List Frame} {errors : List SyntaxError} {rest : List Token} :
    run ⟨.start, body, frames, errors⟩ (ts ++ rest) =
      run ⟨.start, [], ⟨c, body⟩ :: frames, errors⟩ rest := by
  induction h generalizing rest with
  | cond hx ht => exact run_if hx ht
  | elseIf _ hb hy ht ih =>
    rw [List.append_assoc, List.append_assoc, ih, run_bodyReading hb (ht.stops.append rest),
      run_elif hy ht]
    simp
  | otherwise _ hb ht ih =>
    rw [List.append_assoc, List.append_assoc, ih, run_bodyReading hb (ht.stops.append rest),
      run_else ht]
    simp
  | loop hn hi hx ht => exact run_for hn hi hx ht
  | block hn ht => exact run_block hn ht

/-- A body and the branches behind it complete an open conditional. -/
theorem Header.conditional {pos : Position} {earlier : List Branch} {ts us vs : List Token}
    {x : Expr} {body : List Stmt} {rest : Branches} (h : Header (.cond pos earlier x) ts)
    (hb : BodyReading us body) (hr : BranchesReading vs rest) :
    StmtReading (ts ++ (us ++ vs)) (Construct.conditional pos rest ⟨x, body⟩ earlier) := by
  induction earlier generalizing ts us vs x body rest with
  | nil =>
    cases h with
    | cond hx ht => exact .cond hx ht hb hr
  | cons b earlier ih =>
    cases h with
    | elseIf h hb' hy ht =>
      have hread := ih h hb' (.elseIf hy ht hb hr)
      simpa [Construct.conditional, List.append_assoc] using hread

/-- A body and its closing tag complete an open construct. -/
theorem Header.complete {c : Construct} {ts us vs : List Token} {body : List Stmt} {p : Position}
    (h : Header c ts) (hb : BodyReading us body) (ht : TagAt p c.closer [] vs) :
    StmtReading (ts ++ (us ++ vs)) (c.complete body) := by
  cases h with
  | cond hx hc => exact .cond hx hc hb (.done ht)
  | elseIf h hb' hy he => exact (Header.elseIf h hb' hy he).conditional hb (.done ht)
  | otherwise h hb' he =>
    have hread := h.conditional hb' (.otherwise he hb ht)
    simpa [Construct.complete, List.append_assoc] using hread
  | loop hn hi hx hc => exact .loop hn hi hx hc hb ht
  | block hn hc => exact .block hn hc hb ht

theorem Construct.isBare_conditional (pos : Position) (rest : Branches) (last : Branch)
    (earlier : List Branch) : (conditional pos rest last earlier).isBare = false := by
  induction earlier generalizing rest last with
  | nil => rfl
  | cons b earlier ih => exact ih _ _

theorem Construct.isBare_complete (c : Construct) (body : List Stmt) :
    (c.complete body).isBare = false := by
  cases c with
  | cond pos earlier x => exact isBare_conditional _ _ _ _
  | otherwise pos earlier last => exact isBare_conditional _ _ _ _
  | loop pos item x => rfl
  | block pos name => rfl

/-- `Enclosing frames ts`: the tokens `ts` open the constructs `frames`, with the statements in
front of each. -/
inductive Enclosing : List Frame → List Token → Prop
  | nil : Enclosing [] []
  | cons {f : Frame} {frames : List Frame} {ts us vs : List Token} (h : Enclosing frames ts)
    (hb : BodyReading us f.before.reverse) (hc : Header f.construct vs) :
    Enclosing (f :: frames) (ts ++ (us ++ vs))

/-! ## The invariant -/

/-- `effect.Covers ts`: the tokens `ts` are a tag, or a construct up to its last tag, that does what
`effect` says. -/
def TagEffect.Covers (ts : List Token) : TagEffect → Prop
  | add s => StmtReading ts s ∧ s.isBare = false
  | enter c => Header c ts

/-- `purpose.Covers ts`: behind the tokens `ts` an expression for this purpose has to follow. -/
def Purpose.Covers (ts : List Token) : Purpose → Prop
  | bare => ts = []
  | purpose => ∀ us c x closer effect, purpose.effect? x = some (closer, effect) →
    Layer.Derives .equality us x → c.kind = .punctuation closer →
    effect.Covers (ts ++ (us ++ [c]))

/-- `mode.Covers ts`: the tokens `ts` of the statement at hand lead to the state `mode`. -/
def Mode.Covers (ts : List Token) : Mode → Prop
  | start => ts = []
  | skip => False
  | tag pos => ∃ o, ts = [o] ∧ o.kind = .punctuation .tagOpen ∧ o.pos = pos
  | setName pos => ∃ o w, ts = [o, w] ∧ o.kind = .punctuation .tagOpen ∧ o.pos = pos ∧
    w.kind = .keyword .set
  | setSign pos name => ∃ o w n, ts = [o, w, n] ∧ o.kind = .punctuation .tagOpen ∧ o.pos = pos ∧
    w.kind = .keyword .set ∧ n.kind = .ident ∧ n.name = name
  | loopName pos => ∃ o w, ts = [o, w] ∧ o.kind = .punctuation .tagOpen ∧ o.pos = pos ∧
    w.kind = .keyword .for_
  | loopIn pos name => ∃ o w n, ts = [o, w, n] ∧ o.kind = .punctuation .tagOpen ∧ o.pos = pos ∧
    w.kind = .keyword .for_ ∧ n.kind = .ident ∧ n.name = name
  | blockName pos => ∃ o w, ts = [o, w] ∧ o.kind = .punctuation .tagOpen ∧ o.pos = pos ∧
    w.kind = .keyword .block
  | expr purpose reader => ∃ us vs, ts = us ++ vs ∧ purpose.Covers us ∧ reader.Covers vs
  | close effect => ∀ c, c.kind = .punctuation .tagClose → effect.Covers (ts ++ [c])

/-- `r.Covers ts`: reading the tokens `ts` without an error leads to `r`. -/
def Reader.Covers (ts : List Token) (r : Reader) : Prop :=
  ∃ us vs ws, ts = us ++ (vs ++ ws) ∧ Enclosing r.frames us ∧ BodyReading vs r.body.reverse ∧
    r.mode.Covers ws ∧ ∀ b ∈ r.body.head?, b.isBare → Stops ws

namespace Reader

theorem covers_initial : initial.Covers [] :=
  ⟨[], [], [], rfl, .nil, .nil, rfl, by simp [initial]⟩

variable {r : Reader} {t : Token} {us vs ws : List Token}

theorem errors_fail_ne_nil (r : Reader) (fault : SyntaxFault) (t : Token) :
    (r.fail fault t).errors ≠ [] := by
  rw [errors_fail]
  exact List.cons_ne_nil _ _

/-- If no error has been found, the expected token has come. -/
theorem covers_expect {wanted : TokenKind} {next : Reader} {ts : List Token}
    (herr : (r.expect wanted t next).errors = []) (hnext : t.kind = wanted → next.Covers ts) :
    (r.expect wanted t next).Covers ts := by
  unfold expect at herr ⊢
  split at herr
  · next hk =>
    rw [if_pos hk]
    exact hnext hk
  · exact absurd herr (errors_fail_ne_nil r _ t)

/-- A statement begins behind those of the innermost body. -/
theorem covers_beginStatement (hf : Enclosing r.frames us) (hb : BodyReading vs r.body.reverse)
    (hnext : ∀ b ∈ r.body.head?, b.isBare → t.kind.precedence? = none) (heof : t.kind ≠ .eof)
    (herr : (r.beginStatement t).errors = []) :
    (r.beginStatement t).Covers (us ++ (vs ++ [t])) := by
  have hstop : ∀ b ∈ r.body.head?, b.isBare → Stops [t] :=
    fun b hb hbare => ⟨t, [], rfl, hnext b hb hbare⟩
  unfold beginStatement at herr ⊢
  split at herr
  · next mode hmode =>
    refine ⟨us, vs, [t], rfl, hf, hb, ?_, hstop⟩
    unfold opening? at hmode
    split at hmode
    · next hk =>
      cases hmode
      exact ⟨t, rfl, hk, rfl⟩
    · next hk =>
      cases hmode
      refine ⟨[t], [], rfl, ?_, .nil⟩
      intro ws c x closer effect heffect hx hc
      cases heffect
      exact ⟨.output hk hx hc, rfl⟩
    · cases hmode
  · rw [if_neg heof] at herr ⊢
    split at herr
    · next reader hread =>
      have hstart : ExprReader.start.Covers [] := Stacked.nil
      have hmore : ExprReader.start.step t = .more reader := by
        simp [ExprReader.start, ExprReader.step, ExprReader.inside, hread]
      exact ⟨us, vs, [t], rfl, hf, hb, ⟨[], [t], rfl, rfl, hstart.more hmore⟩, hstop⟩
    · exact absurd herr (errors_fail_ne_nil r _ t)

theorem covers_apply (hf : Enclosing r.frames us) (hb : BodyReading vs r.body.reverse)
    (hnext : ∀ b ∈ r.body.head?, b.isBare → Stops ws) {effect : TagEffect}
    (heffect : effect.Covers ws) : (r.apply effect).Covers (us ++ (vs ++ ws)) := by
  cases effect with
  | add s =>
    obtain ⟨hs, hbare⟩ := heffect
    have hbody : BodyReading (vs ++ ws) (s :: r.body).reverse := by
      rw [List.reverse_cons]
      exact hb.concat hs (by simpa using hnext)
    refine ⟨us, vs ++ ws, [], by simp, hf, hbody, rfl, ?_⟩
    intro b hb hb'
    cases hb
    simp [hbare] at hb'
  | enter c =>
    have hframes : Enclosing (⟨c, r.body⟩ :: r.frames) (us ++ (vs ++ ws)) := .cons hf hb heffect
    exact ⟨us ++ (vs ++ ws), [], [], by simp, hframes, .nil, rfl, by simp [apply]⟩

/-- The tag behind the body of a construct goes on with the construct. -/
theorem covers_resume {c : Construct} {body : List Stmt} {o w : Token} {word : Keyword}
    {mode : Mode} (hc : Header c us) (hb : BodyReading vs body)
    (ho : o.kind = .punctuation .tagOpen) (hw : w.kind = .keyword word)
    (hresume : c.resume word body = .ok mode) :
    mode.Covers (us ++ (vs ++ [o, w])) := by
  unfold Construct.resume at hresume
  split at hresume
  · next pos earlier x =>
    cases hresume
    refine ⟨us ++ (vs ++ [o, w]), [], by simp, ?_, .nil⟩
    intro xs e y closer effect heffect hy he
    cases heffect
    have hheader := hc.elseIf hb hy ⟨ho, rfl, hw, he⟩
    simpa [TagEffect.Covers] using hheader
  · next pos earlier x =>
    cases hresume
    intro e he
    have hheader := hc.otherwise hb (p := o.pos) ⟨ho, rfl, hw, he⟩
    simpa [TagEffect.Covers] using hheader
  · split at hresume
    · next hword =>
      subst hword
      cases hresume
      intro e he
      have hread := hc.complete hb (p := o.pos) ⟨ho, rfl, hw, he⟩
      exact ⟨by simpa using hread, c.isBare_complete _⟩
    · cases hresume

theorem covers_leave (hf : Enclosing r.frames us) (hb : BodyReading vs r.body.reverse) {o w : Token}
    {word : Keyword} (ho : o.kind = .punctuation .tagOpen) (hw : w.kind = .keyword word)
    (herr : (r.leave word w).errors = []) : (r.leave word w).Covers (us ++ (vs ++ [o, w])) := by
  unfold leave at herr ⊢
  split at herr
  · exact absurd herr (errors_fail_ne_nil r _ w)
  · next f frames hframes =>
    rw [hframes] at hf
    obtain _ | @⟨_, _, us, ws, hs, hf, hbefore, hc⟩ := hf
    split at herr
    · next mode hresume =>
      exact ⟨us, ws, hs ++ (vs ++ [o, w]), by simp, hf, hbefore, covers_resume hc hb ho hw hresume,
        fun _ _ _ => hc.stops.append _⟩
    · exact absurd herr (errors_fail_ne_nil _ _ w)

theorem covers_readTag (hf : Enclosing r.frames us) (hb : BodyReading vs r.body.reverse)
    {o w : Token} (ho : o.kind = .punctuation .tagOpen)
    (herr : (r.readTag o.pos w).errors = []) :
    (r.readTag o.pos w).Covers (us ++ (vs ++ [o, w])) := by
  have hstop : Stops [o, w] := ⟨o, [w], rfl, by simp [ho, TokenKind.precedence?]⟩
  unfold readTag at herr ⊢
  split at herr
  · next hw =>
    exact ⟨us, vs, [o, w], rfl, hf, hb, ⟨o, w, rfl, ho, rfl, hw⟩, fun _ _ _ => hstop⟩
  · next hw =>
    refine ⟨us, vs, [o, w], rfl, hf, hb, ⟨[o, w], [], rfl, ?_, .nil⟩, fun _ _ _ => hstop⟩
    intro xs e y closer effect heffect hy he
    cases heffect
    exact .cond hy ⟨ho, rfl, hw, he⟩
  · next hw =>
    exact ⟨us, vs, [o, w], rfl, hf, hb, ⟨o, w, rfl, ho, rfl, hw⟩, fun _ _ _ => hstop⟩
  · next hw =>
    exact ⟨us, vs, [o, w], rfl, hf, hb, ⟨o, w, rfl, ho, rfl, hw⟩, fun _ _ _ => hstop⟩
  · next hw =>
    split at herr
    · next hends =>
      rw [if_pos hends]
      exact covers_leave hf hb ho hw herr
    · exact absurd herr (errors_fail_ne_nil r _ w)
  · exact absurd herr (errors_fail_ne_nil r _ w)

theorem bodyReading_bare {body : List Stmt} (hb : BodyReading vs body.reverse)
    (hnext : ∀ b ∈ body.head?, b.isBare → Stops ws) {x : Expr}
    (hx : Layer.Derives .equality ws x) : BodyReading (vs ++ ws) (.bare x :: body).reverse := by
  rw [List.reverse_cons]
  exact hb.concat (.bare hx) (by simpa using hnext)

theorem covers_readExpr (hf : Enclosing r.frames us) (hb : BodyReading vs r.body.reverse)
    (hnext : ∀ b ∈ r.body.head?, b.isBare → Stops ws) {purpose : Purpose} {reader : ExprReader}
    (hmode : (Mode.expr purpose reader).Covers ws) (heof : t.kind ≠ .eof)
    (herr : (r.readExpr purpose reader t).errors = []) :
    (r.readExpr purpose reader t).Covers (us ++ (vs ++ (ws ++ [t]))) := by
  obtain ⟨xs, ys, rfl, hpurpose, hreader⟩ := hmode
  have hnext' : ∀ b ∈ r.body.head?, b.isBare → Stops (xs ++ (ys ++ [t])) := by
    intro b hb hbare
    simpa using (hnext b hb hbare).append [t]
  rw [List.append_assoc xs]
  unfold readExpr at herr ⊢
  split at herr
  · next reader' hmore =>
    exact ⟨us, vs, xs ++ (ys ++ [t]), rfl, hf, hb,
      ⟨xs, ys ++ [t], rfl, hpurpose, hreader.more hmore⟩, hnext'⟩
  · next x hdone =>
    obtain ⟨hx, ht⟩ := hreader.done hdone
    cases purpose with
    | bare =>
      obtain rfl : xs = [] := hpurpose
      have hbody := bodyReading_bare hb hnext hx
      rw [List.nil_append, ← List.append_assoc vs]
      refine covers_beginStatement (r := { r with body := .bare x :: r.body }) hf hbody ?_ heof herr
      exact fun _ _ _ => ht
    | _ =>
      exact covers_expect herr fun hk =>
        covers_apply hf hb hnext' (hpurpose ys t x _ _ rfl hx hk)
  · exact absurd herr (errors_fail_ne_nil r _ t)

/-- A step without an error keeps the invariant. -/
theorem Covers.step {ts : List Token} (h : r.Covers ts) (heof : t.kind ≠ .eof)
    (herr : (r.step t).errors = []) : (r.step t).Covers (ts ++ [t]) := by
  obtain ⟨mode, body, frames, errors⟩ := r
  obtain ⟨us, vs, ws, rfl, hf, hb, hmode, hnext⟩ := h
  have hnext' : ∀ b ∈ body.head?, b.isBare → Stops (ws ++ [t]) :=
    fun b hb hbare => (hnext b hb hbare).append [t]
  rw [List.append_assoc, List.append_assoc]
  cases mode with
  | start =>
    obtain rfl : ws = [] := hmode
    refine covers_beginStatement hf hb (fun b hb hbare => ?_) heof herr
    exact absurd rfl (hnext b hb hbare).ne_nil
  | skip => exact hmode.elim
  | tag pos =>
    obtain ⟨o, rfl, ho, rfl⟩ := hmode
    exact covers_readTag hf hb ho herr
  | setName pos =>
    obtain ⟨o, w, rfl, ho, rfl, hw⟩ := hmode
    exact covers_expect herr fun hn =>
      ⟨us, vs, [o, w, t], rfl, hf, hb, ⟨o, w, t, rfl, ho, rfl, hw, hn, rfl⟩, hnext'⟩
  | setSign pos name =>
    obtain ⟨o, w, n, rfl, ho, rfl, hw, hn, rfl⟩ := hmode
    refine covers_expect herr fun ha => ?_
    refine ⟨us, vs, [o, w, n, t], rfl, hf, hb, ⟨[o, w, n, t], [], rfl, ?_, .nil⟩, hnext'⟩
    intro xs e x closer effect heffect hx he
    cases heffect
    exact ⟨.set hn ha hx ⟨ho, rfl, hw, he⟩, rfl⟩
  | loopName pos =>
    obtain ⟨o, w, rfl, ho, rfl, hw⟩ := hmode
    exact covers_expect herr fun hn =>
      ⟨us, vs, [o, w, t], rfl, hf, hb, ⟨o, w, t, rfl, ho, rfl, hw, hn, rfl⟩, hnext'⟩
  | loopIn pos name =>
    obtain ⟨o, w, n, rfl, ho, rfl, hw, hn, rfl⟩ := hmode
    refine covers_expect herr fun hi => ?_
    refine ⟨us, vs, [o, w, n, t], rfl, hf, hb, ⟨[o, w, n, t], [], rfl, ?_, .nil⟩, hnext'⟩
    intro xs e x closer effect heffect hx he
    cases heffect
    exact .loop hn hi hx ⟨ho, rfl, hw, he⟩
  | blockName pos =>
    obtain ⟨o, w, rfl, ho, rfl, hw⟩ := hmode
    simp only [Reader.step] at herr ⊢
    split at herr
    · next hn =>
      rw [if_pos hn]
      refine ⟨us, vs, [o, w, t], rfl, hf, hb, fun e he => ?_, hnext'⟩
      exact .block (n := some t) (by simpa using hn) ⟨ho, rfl, hw, he⟩
    · next hn =>
      rw [if_neg hn]
      exact covers_expect herr fun hc =>
        covers_apply hf hb hnext' (.block (n := none) (by simp) ⟨ho, rfl, hw, hc⟩)
  | expr purpose reader => exact covers_readExpr hf hb hnext hmode heof herr
  | close effect =>
    exact covers_expect herr fun hc => covers_apply hf hb hnext' (hmode t hc)

theorem Covers.run {ts as : List Token} (h : r.Covers ts) (heof : ∀ t ∈ as, t.kind ≠ .eof)
    (herr : (r.run as).errors = []) : (r.run as).Covers (ts ++ as) := by
  induction as generalizing r ts with
  | nil => simpa using h
  | cons t as ih =>
    have hstep := h.step (heof t List.mem_cons_self) (errors_eq_nil_of_run herr)
    simpa using ih hstep (fun u hu => heof u (List.mem_cons_of_mem t hu)) herr

/-! ## The end of a template -/

theorem errors_expect_ne_nil {wanted : TokenKind} {next : Reader} (h : t.kind ≠ wanted) :
    (r.expect wanted t next).errors ≠ [] := by
  rw [expect, if_neg h]
  exact errors_fail_ne_nil r _ t

theorem beginStatement_eof (h : t.kind = .eof) :
    r.beginStatement t = { r with mode := .start } := by
  simp [beginStatement, opening?, h]

/-- At the end of the template, with no construct open, all statements are complete. -/
theorem Covers.bodyReading {ts : List Token} (h : r.Covers ts) (heof : t.kind = .eof)
    (herr : (r.step t).errors = []) (hframes : (r.step t).frames = []) :
    BodyReading ts (r.step t).body.reverse := by
  obtain ⟨mode, body, frames, errors⟩ := r
  obtain ⟨us, vs, ws, rfl, hf, hb, hmode, hnext⟩ := h
  cases mode with
  | start =>
    obtain rfl : ws = [] := hmode
    simp only [Reader.step, beginStatement_eof heof] at hframes ⊢
    subst hframes
    cases hf
    simpa using hb
  | skip => exact hmode.elim
  | tag pos =>
    simp only [Reader.step, readTag, heof] at herr
    exact absurd herr (errors_fail_ne_nil _ _ t)
  | blockName pos =>
    simp only [Reader.step, heof] at herr
    exact absurd herr (errors_expect_ne_nil (by simp [heof]))
  | expr purpose reader =>
    obtain ⟨xs, ys, rfl, hpurpose, hreader⟩ := hmode
    simp only [Reader.step, readExpr] at herr hframes ⊢
    split at herr
    · next reader' hmore => exact absurd hmore (ExprReader.step_eof_ne_more heof)
    · next x hdone =>
      cases purpose with
      | bare =>
        obtain rfl : xs = [] := hpurpose
        simp only [hdone, finishExpr, Purpose.effect?, beginStatement_eof heof] at hframes ⊢
        subst hframes
        cases hf
        exact bodyReading_bare hb hnext (hreader.done hdone).1
      | _ => exact absurd herr (errors_expect_ne_nil (by simp [heof]))
    · exact absurd herr (errors_fail_ne_nil _ _ t)
  | _ => exact absurd herr (errors_expect_ne_nil (by simp [heof]))

end Reader

theorem kind_endToken (ts : List Token) : (endToken ts).kind = .eof := by
  unfold endToken
  cases h : ts.find? (·.kind = .eof) with
  | none => rfl
  | some t => simpa using List.find?_some h

/-- Tokens that `parse` finds no error in read as its template. -/
theorem bodyReading_of_parse {ts : List Token} (h : (parse ts).errors = []) :
    BodyReading (ts.takeWhile (·.kind ≠ .eof)) (parse ts).template := by
  rw [parse, Reader.readAll_eq] at h ⊢
  obtain ⟨hstep, hframes⟩ := List.append_eq_nil_iff.mp h
  have herr := List.reverse_eq_nil_iff.mp hstep
  have hframes := List.map_eq_nil_iff.mp hframes
  have heof : ∀ t ∈ ts.takeWhile (·.kind ≠ .eof), t.kind ≠ .eof := by
    intro t ht
    simpa using List.all_eq_true.mp List.all_takeWhile t ht
  have hcovers := Reader.covers_initial.run heof (Reader.errors_eq_nil_of_step herr)
  have hread := hcovers.bodyReading (kind_endToken ts) herr hframes
  simp only [Reader.finish, hframes]
  exact hread

/-- Tokens that read as a template are parsed as this template, without errors. -/
theorem parse_of_bodyReading {ts : List Token} {body : List Stmt}
    (h : BodyReading (ts.takeWhile (·.kind ≠ .eof)) body) : parse ts = ⟨body, []⟩ := by
  have hstop : Stops [endToken ts] := ⟨_, [], rfl, by simp [kind_endToken, TokenKind.precedence?]⟩
  have hrun : Reader.initial.run (ts.takeWhile (·.kind ≠ .eof) ++ [endToken ts]) =
      Reader.run ⟨.start, body.reverse ++ [], [], []⟩ [endToken ts] :=
    Reader.run_bodyReading h hstop
  have hstep : (Reader.initial.run (ts.takeWhile (·.kind ≠ .eof))).step (endToken ts) =
      ⟨.start, body.reverse, [], []⟩ := by
    rw [Reader.run_append, Reader.run_cons, Reader.run_nil] at hrun
    rw [hrun, Reader.run_cons, Reader.run_nil, Reader.step,
      Reader.beginStatement_eof (kind_endToken ts), List.append_nil]
  simp only [parse, Reader.readAll_eq, Reader.finish, hstep]
  simp

/-- `parse` finds no error if and only if the tokens in front of the end token are an `IsTemplate`.
-/
theorem parse_errors_eq_nil_iff (ts : List Token) :
    (parse ts).errors = [] ↔ IsTemplate (ts.takeWhile (·.kind ≠ .eof)) := by
  constructor
  · intro h
    exact (bodyReading_of_parse h).isTemplate
  · intro h
    obtain ⟨body, hbody⟩ := h.exists_bodyReading
    rw [parse_of_bodyReading hbody]

end Templates
