import Templates.Reader
import Templates.Proofs.ExprReading
import Templates.Proofs.TemplateGrammar

/-!
# What can be read is read

The tokens of a `BodyReading`, `StmtReading` or `BranchesReading` take the reader from one state
where a statement may begin to another such state, whatever is open around them and whatever tokens
follow. Their statements are then on top of the body (`run_bodyReading`).

A bare expression ends only in front of the next token, so each of these facts is about a list that
goes on with a token which cannot extend an expression (`Stops`). At the end of the template that is
the end token.
-/

namespace Templates

namespace Reader

variable {body : List Stmt} {frames : List Frame} {errors : List SyntaxError}

@[simp] theorem run_nil (r : Reader) : r.run [] = r := rfl

@[simp] theorem run_cons (r : Reader) (t : Token) (ts : List Token) :
    r.run (t :: ts) = (r.step t).run ts := rfl

theorem readAll_append {ts : List Token} (h : ∀ t ∈ ts, t.kind ≠ .eof) (r : Reader)
    (us : List Token) : r.readAll (ts ++ us) = (r.run ts).readAll us := by
  induction ts generalizing r with
  | nil => rfl
  | cons t ts ih =>
    obtain ⟨ht, hts⟩ := List.forall_mem_cons.mp h
    rw [List.cons_append, readAll, if_neg ht, ih hts, run_cons]

/-! ## Expressions -/

theorem beginStatement_mode (r : Reader) (m : Mode) (t : Token) :
    { r with mode := m }.beginStatement t = r.beginStatement t := by
  unfold beginStatement
  split
  · rfl
  · split
    · rfl
    · split
      · rfl
      · simp only [fail, seek]

theorem finishExpr_mode (r : Reader) (m : Mode) (purpose : Purpose) (x : Expr) (t : Token) :
    { r with mode := m }.finishExpr purpose x t = r.finishExpr purpose x t := by
  unfold finishExpr
  split
  · exact beginStatement_mode { r with body := .bare x :: r.body } m t
  · unfold expect
    split
    · next effect _ _ => cases effect <;> rfl
    · simp only [fail, seek]

/-- An expression is read as `ExprReader.read` reads it. -/
theorem run_expr {reader : ExprReader} {ts rest : List Token} {x : Expr} {t : Token}
    (h : reader.read ts = some (x, t :: rest)) (r : Reader) (purpose : Purpose) :
    { r with mode := .expr purpose reader }.run ts = (r.finishExpr purpose x t).run rest := by
  induction ts generalizing reader with
  | nil => cases h
  | cons u us ih =>
    rw [ExprReader.read] at h
    split at h
    · next reader' hs =>
      rw [← ih h, run_cons]
      simp only [step, readExpr, hs]
    · next y hs =>
      cases h
      rw [← finishExpr_mode r (.expr purpose reader), run_cons]
      simp only [step, readExpr, hs]
    · cases h

theorem run_expr_close {ts rest : List Token} {x : Expr} {c : Token} {closer : Punctuation}
    {effect : TagEffect} (purpose : Purpose) (hx : Layer.Derives .equality ts x)
    (heffect : purpose.effect? x = some (closer, effect)) (hc : c.kind = .punctuation closer)
    (r : Reader) :
    { r with mode := .expr purpose .start }.run (ts ++ c :: rest) = (r.apply effect).run rest := by
  have hstop : c.kind.precedence? = none := by simp [hc, TokenKind.precedence?]
  have hread : ExprReader.start.read (ts ++ c :: rest) = some (x, c :: rest) :=
    ExprReader.read_start_append hx hstop
  rw [run_expr hread, finishExpr, heffect]
  simp [expect, hc]

theorem run_close {rest : List Token} {c : Token} {effect : TagEffect}
    (hc : c.kind = .punctuation .tagClose) (r : Reader) :
    { r with mode := .close effect }.run (c :: rest) = (r.apply effect).run rest := by
  cases effect <;> simp [step, expect, hc, apply]

/-! ## Tags -/

theorem run_tagOpen {o w : Token} {rest : List Token} (ho : o.kind = .punctuation .tagOpen) :
    run ⟨.start, body, frames, errors⟩ (o :: w :: rest) =
      ((⟨.tag o.pos, body, frames, errors⟩ : Reader).readTag o.pos w).run rest := by
  simp [step, beginStatement, opening?, ho]

theorem readTag_of_endsBody {w : Token} {word : Keyword} (hw : w.kind = .keyword word)
    (hword : word.endsBody = true) (r : Reader) (pos : Position) :
    r.readTag pos w = r.leave word w := by
  cases word <;> simp_all [readTag, Keyword.endsBody, Keyword.role]

/-- A tag that ends the innermost body and has nothing behind its word. -/
theorem run_endTag {pos : Position} {word : Keyword} {ts rest : List Token} {f : Frame}
    {effect : TagEffect} (ht : TagAt pos word [] ts) (hword : word.endsBody = true)
    (hresume : f.construct.resume word body.reverse = .ok (.close effect)) :
    run ⟨.start, body, f :: frames, errors⟩ (ts ++ rest) =
      ((⟨.start, f.before, frames, errors⟩ : Reader).apply effect).run rest := by
  obtain @⟨o, w, c, ho, rfl, hw, hc⟩ := ht
  have hleave : (⟨.tag o.pos, body, f :: frames, errors⟩ : Reader).readTag o.pos w =
      { (⟨.start, f.before, frames, errors⟩ : Reader) with mode := .close effect } := by
    simp [readTag_of_endsBody hw hword, leave, hresume]
  rw [List.cons_append, List.cons_append, run_tagOpen ho, hleave]
  exact run_close hc _

/-! ## Statements -/

/-- A bare expression, up to the token that ends it. -/
theorem run_bare {ts rest : List Token} {x : Expr} (hx : Layer.Derives .equality ts x)
    (hrest : Stops rest) :
    run ⟨.start, body, frames, errors⟩ (ts ++ rest) =
      run ⟨.start, .bare x :: body, frames, errors⟩ rest := by
  obtain ⟨u, rest, rfl, hu⟩ := hrest
  have hread : ExprReader.start.read (ts ++ u :: rest) = some (x, u :: rest) :=
    ExprReader.read_start_append hx hu
  obtain ⟨t, ts, rfl⟩ := List.exists_cons_of_ne_nil hx.ne_nil
  rw [List.cons_append, ExprReader.read] at hread
  split at hread
  · next reader hs =>
    have hoperand : ExprReader.readOperand [] t = .ok reader := ExprReader.inside_eq_more hs
    -- The first token of an expression opens no tag, so it begins a bare expression.
    obtain ⟨hopening, heof⟩ : opening? t = none ∧ t.kind ≠ .eof := by
      rcases hx.head_kind rfl with ⟨y, hy⟩ | ⟨op, hop⟩ | ho
      · cases hy <;> simp_all [opening?]
      · simp_all [opening?]
      · simp_all [opening?]
    have hbegin : (⟨.start, body, frames, errors⟩ : Reader).step t =
        { (⟨.start, body, frames, errors⟩ : Reader) with mode := .expr .bare reader } := by
      simp [step, beginStatement, hopening, heof, hoperand]
    rw [List.cons_append, run_cons, hbegin, run_expr hread]
    rfl
  · next y hs => exact absurd hs ExprReader.inside_ne_done
  · cases hread

/-- A tag whose word is followed by an expression and that opens a body. -/
theorem run_head {pos : Position} {word : Keyword} {us ts rest : List Token} {x : Expr}
    {body' : List Stmt} {frames' : List Frame} {construct : Construct} (purpose : Purpose)
    (ht : TagAt pos word us ts) (hx : Layer.Derives .equality us x)
    (heffect : purpose.effect? x = some (.tagClose, .enter construct))
    (hread : ∀ w : Token, w.kind = .keyword word →
      (⟨.tag pos, body, frames, errors⟩ : Reader).readTag pos w =
        ⟨.expr purpose .start, body', frames', errors⟩) :
    run ⟨.start, body, frames, errors⟩ (ts ++ rest) =
      run ⟨.start, [], ⟨construct, body'⟩ :: frames', errors⟩ rest := by
  obtain @⟨o, w, c, ho, rfl, hw, hc⟩ := ht
  rw [List.cons_append, List.cons_append, run_tagOpen ho, hread w hw, List.append_assoc]
  exact run_expr_close purpose hx heffect hc ⟨.start, body', frames', errors⟩

theorem run_if {pos : Position} {us ts rest : List Token} {x : Expr}
    (hx : Layer.Derives .equality us x) (ht : TagAt pos .if_ us ts) :
    run ⟨.start, body, frames, errors⟩ (ts ++ rest) =
      run ⟨.start, [], ⟨.cond pos [] x, body⟩ :: frames, errors⟩ rest :=
  run_head (.cond pos []) ht hx rfl (by
    intro w hw
    simp only [readTag, hw])

theorem run_elif {pos p : Position} {earlier : List Branch} {us ts rest : List Token} {x y : Expr}
    {before : List Stmt} (hy : Layer.Derives .equality us y) (ht : TagAt p .elif us ts) :
    run ⟨.start, body, ⟨.cond pos earlier x, before⟩ :: frames, errors⟩ (ts ++ rest) =
      run ⟨.start, [], ⟨.cond pos (⟨x, body.reverse⟩ :: earlier) y, before⟩ :: frames, errors⟩
        rest :=
  run_head (.cond pos (⟨x, body.reverse⟩ :: earlier)) ht hy rfl (by
    intro w hw
    rw [readTag_of_endsBody hw rfl]
    simp only [leave, Construct.resume])

theorem run_else {pos p : Position} {earlier : List Branch} {ts rest : List Token} {x : Expr}
    {before : List Stmt} (ht : TagAt p .else_ [] ts) :
    run ⟨.start, body, ⟨.cond pos earlier x, before⟩ :: frames, errors⟩ (ts ++ rest) =
      run ⟨.start, [], ⟨.otherwise pos earlier ⟨x, body.reverse⟩, before⟩ :: frames, errors⟩
        rest := by
  rw [run_endTag ht rfl rfl]
  rfl

theorem run_set {pos : Position} {n a : Token} {us ts rest : List Token} {x : Expr}
    (hn : n.kind = .ident) (ha : a.kind = .operator .assign) (hx : Layer.Derives .equality us x)
    (ht : TagAt pos .set (n :: a :: us) ts) :
    run ⟨.start, body, frames, errors⟩ (ts ++ rest) =
      run ⟨.start, .set pos n.name x :: body, frames, errors⟩ rest := by
  obtain @⟨o, w, c, ho, rfl, hw, hc⟩ := ht
  have hhead : run ⟨.start, body, frames, errors⟩ (o :: w :: n :: a :: (us ++ c :: rest)) =
      { (⟨.start, body, frames, errors⟩ : Reader) with
        mode := .expr (.set o.pos n.name) .start }.run (us ++ c :: rest) := by
    simp [run_tagOpen ho, readTag, hw, step, expect, hn, ha, Token.name]
  simp only [List.cons_append, List.append_assoc, List.nil_append]
  rw [hhead]
  exact run_expr_close (.set o.pos n.name) hx rfl hc _

theorem run_for {pos : Position} {n i : Token} {us ts rest : List Token} {x : Expr}
    (hn : n.kind = .ident) (hi : i.kind = .keyword .in_) (hx : Layer.Derives .equality us x)
    (ht : TagAt pos .for_ (n :: i :: us) ts) :
    run ⟨.start, body, frames, errors⟩ (ts ++ rest) =
      run ⟨.start, [], ⟨.loop pos n.name x, body⟩ :: frames, errors⟩ rest := by
  obtain @⟨o, w, c, ho, rfl, hw, hc⟩ := ht
  have hhead : run ⟨.start, body, frames, errors⟩ (o :: w :: n :: i :: (us ++ c :: rest)) =
      { (⟨.start, body, frames, errors⟩ : Reader) with
        mode := .expr (.loop o.pos n.name) .start }.run (us ++ c :: rest) := by
    simp [run_tagOpen ho, readTag, hw, step, expect, hn, hi, Token.name]
  simp only [List.cons_append, List.append_assoc, List.nil_append]
  rw [hhead]
  exact run_expr_close (.loop o.pos n.name) hx rfl hc _

theorem run_block {pos : Position} {n : Option Token} {ts rest : List Token}
    (hn : ∀ t ∈ n, t.kind = .ident) (ht : TagAt pos .block n.toList ts) :
    run ⟨.start, body, frames, errors⟩ (ts ++ rest) =
      run ⟨.start, [], ⟨.block pos (n.map Token.name), body⟩ :: frames, errors⟩ rest := by
  obtain @⟨o, w, c, ho, rfl, hw, hc⟩ := ht
  cases n with
  | none => simp [run_tagOpen ho, readTag, hw, step, expect, hc, apply]
  | some n => simp [run_tagOpen ho, readTag, hw, step, expect, hc, apply, hn n rfl, Token.name]

mutual

/-- The tokens of a body put its statements on top of those in front of it. -/
theorem run_bodyReading : ∀ {ts rest : List Token} {ss body : List Stmt} {frames : List Frame},
    BodyReading ts ss → Stops rest →
    run ⟨.start, body, frames, errors⟩ (ts ++ rest) =
      run ⟨.start, ss.reverse ++ body, frames, errors⟩ rest
  | _, _, _, _, _, .nil, _ => rfl
  | _, rest, _, body, frames, @BodyReading.cons ts us s ss h hs hnext, hrest => by
    have hstop : s.isBare → Stops (us ++ rest) := by
      intro hbare
      by_cases hus : us = []
      · exact hus ▸ hrest
      · exact (hnext hbare hus).append rest
    rw [List.append_assoc, run_stmtReading h hstop, run_bodyReading hs hrest]
    simp

/-- The tokens of a statement put it on top of the body. -/
theorem run_stmtReading : ∀ {ts rest : List Token} {s : Stmt} {body : List Stmt}
    {frames : List Frame}, StmtReading ts s → (s.isBare → Stops rest) →
    run ⟨.start, body, frames, errors⟩ (ts ++ rest) =
      run ⟨.start, s :: body, frames, errors⟩ rest
  | _, _, _, _, _, .bare hx, hrest => run_bare hx (hrest rfl)
  | _, rest, _, body, frames, @StmtReading.output o c ts x ho hx hc, _ => by
    have hopen : (⟨.start, body, frames, errors⟩ : Reader).step o =
        ⟨.expr (.output o.pos) .start, body, frames, errors⟩ := by
      simp [step, beginStatement, opening?, ho]
    rw [List.cons_append, run_cons, hopen, List.append_assoc]
    exact run_expr_close (.output o.pos) hx rfl hc ⟨.start, body, frames, errors⟩
  | _, _, _, _, _, .set hn ha hx ht, _ => run_set hn ha hx ht
  | _, rest, _, body, frames, @StmtReading.cond pos ts us vs ws x ss branches hx ht hb hr, _ => by
    rw [List.append_assoc, List.append_assoc, run_if hx ht,
      run_bodyReading hb (hr.stops.append rest), run_branchesReading hr]
    simp [Construct.conditional]
  | _, rest, _, body, frames, @StmtReading.loop pos last n i ts us vs ws x ss hn hi hx ht hb hend,
      _ => by
    rw [List.append_assoc, List.append_assoc, run_for hn hi hx ht,
      run_bodyReading hb (hend.stops.append rest), run_endTag hend rfl rfl]
    simp [apply, Construct.complete]
  | _, rest, _, body, frames, @StmtReading.block pos last n ts vs ws ss hn ht hb hend, _ => by
    rw [List.append_assoc, List.append_assoc, run_block hn ht,
      run_bodyReading hb (hend.stops.append rest), run_endTag hend rfl rfl]
    simp [apply, Construct.complete]

/-- The tokens behind a body of a conditional complete it. -/
theorem run_branchesReading : ∀ {ts rest : List Token} {branches : Branches} {pos : Position}
    {earlier : List Branch} {x : Expr} {body before : List Stmt} {frames : List Frame},
    BranchesReading ts branches →
    run ⟨.start, body, ⟨.cond pos earlier x, before⟩ :: frames, errors⟩ (ts ++ rest) =
      run ⟨.start, Construct.conditional pos branches ⟨x, body.reverse⟩ earlier :: before, frames,
        errors⟩ rest
  | _, rest, _, _, earlier, x, body, before, frames, .done ht => by
    rw [run_endTag ht rfl rfl]
    rfl
  | _, rest, _, pos, earlier, x, body, before, frames,
      @BranchesReading.otherwise _ last ts us vs ss ht hb hend => by
    rw [List.append_assoc, List.append_assoc, run_else ht,
      run_bodyReading hb (hend.stops.append rest), run_endTag hend rfl rfl]
    simp [apply, Construct.complete]
  | _, rest, _, pos, earlier, x, body, before, frames,
      @BranchesReading.elseIf p ts us vs ws y ss branches hy ht hb hr => by
    rw [List.append_assoc, List.append_assoc, run_elif hy ht,
      run_bodyReading hb (hr.stops.append rest), run_branchesReading hr]
    simp [Construct.conditional]

end

end Reader

end Templates
