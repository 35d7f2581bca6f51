import Templates.Proofs.Descent
import Templates.Proofs.ReaderInvariant

/-!
# Tags are read alike

`Follows p ts r next base` says of a part `p` of a tag that the reader does with its tokens, one
after the other, what `p` does with them at once: it comes to the state `next` with the rest of the
tokens at hand, and where `p` breaks off, to the state in which the statement is given up in front
of the token at fault, whatever is still to come.

Parts are put together by `Follows.bind`, one lemma for each function of the descent up to
`follows_opening` and `follows_tagBehind`.
-/

namespace Templates

open Descent

namespace Reader

variable {ts us : List Token} {r r' base : Reader}

/-! ## Tokens at hand -/

theorem readAll_of_atEnd (h : AtEnd ts) (r : Reader) : r.readAll ts = r.finish (peek ts) := by
  cases ts with
  | nil => rfl
  | cons t ts =>
    have ht : t.kind = .eof := h
    rw [readAll, if_pos ht]
    rfl

theorem readAll_of_not_atEnd (h : ¬ AtEnd ts) (r : Reader) :
    r.readAll ts = (r.step (peek ts)).readAll (advance ts) := by
  cases ts with
  | nil => exact absurd rfl h
  | cons t ts =>
    have ht : t.kind ≠ .eof := h
    rw [readAll, if_neg ht, advance, if_neg ht]
    rfl

/-- `readAll` depends on the state only through its next step. -/
theorem readAll_congr (h : r.step (peek ts) = r'.step (peek ts)) :
    r.readAll ts = r'.readAll ts := by
  by_cases hend : AtEnd ts
  · rw [readAll_of_atEnd hend, readAll_of_atEnd hend, finish, finish, h]
  · rw [readAll_of_not_atEnd hend, readAll_of_not_atEnd hend, h]

/-- The statement at hand is given up with an error. -/
def giveUp (r : Reader) (e : SyntaxError) : Reader := ⟨.skip, r.body, r.frames, e :: r.errors⟩

theorem fail_mode (r : Reader) (m : Mode) (fault : SyntaxFault) (t : Token) :
    { r with mode := m }.fail fault t = r.fail fault t := by
  simp only [fail, seek]

theorem readExpr_mode (r : Reader) (m : Mode) (purpose : Purpose) (reader : ExprReader)
    (t : Token) : { r with mode := m }.readExpr purpose reader t = r.readExpr purpose reader t := by
  unfold readExpr
  split
  · rfl
  · exact finishExpr_mode r m purpose _ t
  · exact fail_mode r m _ t

/-- The token at fault is still to be read. -/
theorem readAll_fail {fault : SyntaxFault} (h : r.step (peek ts) = base.fail fault (peek ts)) :
    r.readAll ts = (base.giveUp ⟨(peek ts).pos, fault⟩).readAll ts :=
  readAll_congr h

end Reader

namespace Descent

variable {ts us : List Token} {r base : Reader}

/-! ## Tags -/

/-- `Follows p ts r next base`: from `r` the reader reads `ts` as `p` does. Behind what `p` has read
it goes on from `next`; where `p` breaks off it gives the statement at hand up, on top of `base`. -/
structure Follows {α : Type} (p : Parse α) (ts : List Token) (r : Reader) (next : α → Reader)
    (base : Reader) : Prop where
  ok {us : List Token} {a : α} (h : p ts = .ok a us) : r.readAll ts = (next a).readAll us
  error {us : List Token} {e : SyntaxError} (h : p ts = .error e us) :
    r.readAll ts = (base.giveUp e).readAll us

section Follows

variable {α β : Type} {p : Parse α} {f : α → Parse β} {after : α → Reader} {after' : β → Reader}

/-- What the reader does in two parts it does as a whole. -/
theorem follows_bind
    (hok : ∀ a us, p ts = .ok a us →
      ∃ r' : Reader, r.readAll ts = r'.readAll us ∧ Follows (f a) us r' after' base)
    (herror : ∀ e us, p ts = .error e us → r.readAll ts = (base.giveUp e).readAll us) :
    Follows (p >>= f) ts r after' base where
  ok {vs b} h := by
    cases hts : p ts with
    | ok a us =>
      obtain ⟨r', hread, hf⟩ := hok a us hts
      rw [bind_of_ok hts] at h
      rw [hread, hf.ok h]
    | error e us =>
      rw [bind_of_error hts] at h
      cases h
  error {vs e} h := by
    cases hts : p ts with
    | ok a us =>
      obtain ⟨r', hread, hf⟩ := hok a us hts
      rw [bind_of_ok hts] at h
      rw [hread, hf.error h]
    | error e us =>
      rw [bind_of_error hts] at h
      cases h
      exact herror _ _ hts

theorem Follows.bind (hp : Follows p ts r after base)
    (hf : ∀ a us, p ts = .ok a us → Follows (f a) us (after a) after' base) :
    Follows (p >>= f) ts r after' base :=
  follows_bind (fun a us h => ⟨after a, hp.ok h, hf a us h⟩) fun _ _ h => hp.error h

theorem Follows.of_eq {q : Parse α} {r' : Reader} (hq : Follows q us r' after base)
    (hp : p ts = q us) (hr : r.readAll ts = r'.readAll us) : Follows p ts r after base where
  ok h := hr.trans (hq.ok (hp ▸ h))
  error h := hr.trans (hq.error (hp ▸ h))

theorem follows_pure (a : α) (ts : List Token) (after : α → Reader) (base : Reader) :
    Follows (pure a) ts (after a) after base where
  ok h := by
    cases h
    rfl
  error h := by cases h

theorem follows_throw {fault : SyntaxFault} (h : r.step (peek ts) = base.fail fault (peek ts)) :
    Follows (throw ⟨(peek ts).pos, fault⟩) ts r after base where
  ok h := by cases h
  error he := by
    cases he
    exact Reader.readAll_fail h

theorem follows_hand_bind {f : Token → Parse β} (hf : Follows (f (peek ts)) ts r after' base) :
    Follows (hand >>= f) ts r after' base := ⟨hf.ok, hf.error⟩

theorem follows_next_bind {f : Token → Parse β} (hend : ¬ AtEnd ts)
    (hf : Follows (f (peek ts)) (advance ts) (r.step (peek ts)) after' base) :
    Follows (next >>= f) ts r after' base where
  ok h := by
    rw [Reader.readAll_of_not_atEnd hend]
    exact hf.ok h
  error h := by
    rw [Reader.readAll_of_not_atEnd hend]
    exact hf.error h

theorem follows_expect {wanted : TokenKind} (hwanted : wanted ≠ .eof) {after : Token → Reader}
    (h : r.step (peek ts) = base.expect wanted (peek ts) (after (peek ts))) :
    Follows (expect wanted) ts r after base := by
  by_cases hk : (peek ts).kind = wanted
  · have hend : ¬ AtEnd ts := fun hend => hwanted (hk.symm.trans hend)
    rw [Reader.expect, if_pos hk] at h
    refine ⟨fun hok => ?_, fun he => ?_⟩
    · rw [expect_of_eq hk] at hok
      cases hok
      rw [Reader.readAll_of_not_atEnd hend, h]
    · rw [expect_of_eq hk] at he
      cases he
  · rw [Reader.expect, if_neg hk] at h
    refine ⟨fun hok => ?_, fun he => ?_⟩
    · rw [expect_of_ne hk] at hok
      cases hok
    · rw [expect_of_ne hk] at he
      cases he
      exact Reader.readAll_fail h

end Follows

/-- An expression is read up to the token at which it ends, which is still to come. -/
theorem readAll_readExpr (purpose : Purpose) (reader : ExprReader) (base : Reader)
    (ts : List Token) :
    (∀ x us, readExpr reader ts = .ok x us →
      ∃ r' : Reader, { base with mode := .expr purpose reader }.readAll ts = r'.readAll us ∧
        r'.step (peek us) = base.finishExpr purpose x (peek us)) ∧
    ∀ e us, readExpr reader ts = .error e us →
      { base with mode := .expr purpose reader }.readAll ts = (base.giveUp e).readAll us := by
  fun_induction readExpr reader ts with
  | case1 reader ts reader' h ih =>
    have hend : ¬ AtEnd ts := fun hend => ExprReader.step_eof_ne_more hend h
    have hstep : { base with mode := .expr purpose reader }.readAll ts =
        { base with mode := .expr purpose reader' }.readAll (advance ts) := by
      rw [Reader.readAll_of_not_atEnd hend]
      simp only [Reader.step, Reader.readExpr, h]
    rw [hstep]
    exact ih
  | case2 reader ts x h =>
    refine ⟨fun y us hy => ?_, fun e us he => ?_⟩
    · cases hy
      refine ⟨_, rfl, ?_⟩
      rw [← Reader.finishExpr_mode base (.expr purpose reader)]
      simp only [Reader.step, Reader.readExpr, h]
    · cases he
  | case3 reader ts fault h =>
    refine ⟨fun y us hy => ?_, fun e us he => ?_⟩
    · cases hy
    · cases he
      refine Reader.readAll_fail ?_
      simp only [Reader.step, Reader.readExpr, h, Reader.fail_mode]

theorem follows_closedExpr {purpose : Purpose} {closer : Punctuation} {effect : Expr → TagEffect}
    (heffect : ∀ x, purpose.effect? x = some (closer, effect x)) (base : Reader)
    (ts : List Token) :
    Follows (closedExpr closer) ts { base with mode := .expr purpose .start }
      (fun x => base.apply (effect x)) base := by
  obtain ⟨hok, herror⟩ := readAll_readExpr purpose .start base ts
  refine follows_bind (fun x us h => ?_) herror
  obtain ⟨r', hread, hstep⟩ := hok x us h
  rw [Reader.finishExpr, heffect] at hstep
  exact ⟨r', hread, (follows_expect (by simp) hstep).bind fun _ us _ => follows_pure x us _ base⟩

theorem follows_outputTag (pos : Position) (base : Reader) (ts : List Token) :
    Follows (outputTag pos) ts { base with mode := .expr (.output pos) .start } base.apply base :=
  (follows_closedExpr (fun _ => rfl) base ts).bind fun _ us _ => follows_pure _ us _ base

theorem follows_condTag (pos : Position) (earlier : List Branch) (base : Reader)
    (ts : List Token) :
    Follows (condTag pos earlier) ts { base with mode := .expr (.cond pos earlier) .start }
      base.apply base :=
  (follows_closedExpr (fun _ => rfl) base ts).bind fun _ us _ => follows_pure _ us _ base

theorem follows_setTag (pos : Position) (base : Reader) (ts : List Token) :
    Follows (setTag pos) ts { base with mode := .setName pos } base.apply base := by
  have hname : Follows (expect .ident) ts { base with mode := .setName pos }
      (fun t => { base with mode := .setSign pos ⟨t.literal, t.pos⟩ }) base :=
    follows_expect (by simp) rfl
  refine hname.bind fun name us _ => ?_
  have hsign : Follows (expect (.operator .assign)) us
      { base with mode := .setSign pos ⟨name.literal, name.pos⟩ }
      (fun _ => { base with mode := .expr (.set pos ⟨name.literal, name.pos⟩) .start }) base :=
    follows_expect (by simp) rfl
  exact hsign.bind fun _ vs _ =>
    (follows_closedExpr (fun _ => rfl) base vs).bind fun _ ws _ => follows_pure _ ws _ base

theorem follows_loopTag (pos : Position) (base : Reader) (ts : List Token) :
    Follows (loopTag pos) ts { base with mode := .loopName pos } base.apply base := by
  have hitem : Follows (expect .ident) ts { base with mode := .loopName pos }
      (fun t => { base with mode := .loopIn pos ⟨t.literal, t.pos⟩ }) base :=
    follows_expect (by simp) rfl
  refine hitem.bind fun item us _ => ?_
  have hin : Follows (expect (.keyword .in_)) us
      { base with mode := .loopIn pos ⟨item.literal, item.pos⟩ }
      (fun _ => { base with mode := .expr (.loop pos ⟨item.literal, item.pos⟩) .start }) base :=
    follows_expect (by simp) rfl
  exact hin.bind fun _ vs _ =>
    (follows_closedExpr (fun _ => rfl) base vs).bind fun _ ws _ => follows_pure _ ws _ base

theorem follows_closeTag (effect : TagEffect) (base : Reader) (ts : List Token) :
    Follows (closeTag effect) ts { base with mode := .close effect } base.apply base := by
  have hclose : Follows (expect (.punctuation .tagClose)) ts { base with mode := .close effect }
      (fun _ => base.apply effect) base :=
    follows_expect (by simp) (by cases effect <;> rfl)
  exact hclose.bind fun _ us _ => follows_pure _ us _ base

theorem follows_blockTag (pos : Position) (base : Reader) (ts : List Token) :
    Follows (blockTag pos) ts { base with mode := .blockName pos } base.apply base := by
  refine follows_hand_bind ?_
  by_cases hk : (peek ts).kind = .ident
  · have hend : ¬ AtEnd ts := fun hend => by simp [AtEnd, hk] at hend
    rw [if_pos hk]
    refine follows_next_bind hend ?_
    simp only [Reader.step, hk, if_pos]
    exact follows_closeTag _ base _
  · rw [if_neg hk]
    refine (follows_closeTag (.enter (.block pos none)) base ts).of_eq rfl ?_
    refine Reader.readAll_congr ?_
    simp only [Reader.step, if_neg hk]
    rfl

theorem follows_statementTag (pos : Position) {base : Reader} {ts : List Token}
    (h : base.frames = [] ∨ ∀ word, (peek ts).kind = .keyword word → word.endsBody = false) :
    Follows (statementTag pos) ts { base with mode := .tag pos } base.apply base := by
  refine follows_hand_bind ?_
  unfold statementTagAt
  have hend : ∀ word, (peek ts).kind = .keyword word → ¬ AtEnd ts := by
    intro word hk hend
    simp [AtEnd, hk] at hend
  split
  · next hk =>
    refine follows_next_bind (hend _ hk) ?_
    simp only [Reader.step, Reader.readTag, hk]
    exact follows_setTag pos base _
  · next hk =>
    refine follows_next_bind (hend _ hk) ?_
    simp only [Reader.step, Reader.readTag, hk]
    exact follows_condTag pos [] base _
  · next hk =>
    refine follows_next_bind (hend _ hk) ?_
    simp only [Reader.step, Reader.readTag, hk]
    exact follows_loopTag pos base _
  · next hk =>
    refine follows_next_bind (hend _ hk) ?_
    simp only [Reader.step, Reader.readTag, hk]
    exact follows_blockTag pos base _
  · next word hset hif hfor hblock hk =>
    refine follows_throw ?_
    change Reader.readTag { base with mode := .tag pos } pos (peek ts) = _
    cases hends : word.endsBody with
    | true =>
      have hframes : base.frames = [] := by
        rcases h with hframes | hword
        · exact hframes
        · simp [hword word hk] at hends
      rw [Reader.readTag_of_endsBody hk hends, Reader.leave]
      split
      · exact Reader.fail_mode base _ _ _
      · simp_all
    | false =>
      unfold Reader.readTag
      split <;> simp_all [Reader.fail_mode]
  · next kind _ _ _ _ hk =>
    refine follows_throw ?_
    change Reader.readTag { base with mode := .tag pos } pos (peek ts) = _
    unfold Reader.readTag
    split <;> simp_all [Reader.fail_mode]

theorem opensTag_eq_false {kind : TokenKind} (htag : kind ≠ .punctuation .tagOpen)
    (houtput : kind ≠ .punctuation .outputOpen) : kind.opensTag = false := by
  cases kind with
  | punctuation mark => cases mark <;> simp_all [TokenKind.opensTag, Punctuation.role]
  | _ => rfl

theorem opening?_eq_none {t : Token} (h : t.kind.opensTag = false) : Reader.opening? t = none := by
  unfold Reader.opening?
  split
  · next hk => simp [hk, TokenKind.opensTag, Punctuation.role] at h
  · next hk => simp [hk, TokenKind.opensTag, Punctuation.role] at h
  · rfl

/-- A bare expression begins as `ExprReader.start` does. -/
theorem beginStatement_eq_readExpr {t : Token} (h : t.kind.opensTag = false) (heof : t.kind ≠ .eof)
    (base : Reader) : base.beginStatement t = base.readExpr .bare .start t := by
  rw [Reader.beginStatement, opening?_eq_none h, Reader.readExpr]
  simp only [if_neg heof, ExprReader.start, ExprReader.step]
  cases ExprReader.readOperand [] t <;> rfl

theorem follows_bare (hend : ¬ AtEnd ts) (h : (peek ts).kind.opensTag = false) (base : Reader) :
    Follows (do return .add (.bare (← expression)) : Parse TagEffect) ts
      { base with mode := .start } base.apply base := by
  have hstart : { base with mode := .start }.readAll ts =
      { base with mode := .expr .bare .start }.readAll ts := by
    refine Reader.readAll_congr ?_
    change Reader.beginStatement _ _ = Reader.readExpr _ .bare .start _
    rw [beginStatement_eq_readExpr h hend, Reader.readExpr_mode base .start]
    exact (Reader.readExpr_mode base _ _ _ _).symm
  obtain ⟨hok, herror⟩ := readAll_readExpr .bare .start base ts
  rw [← hstart] at hok herror
  refine follows_bind (fun x us h => ?_) herror
  obtain ⟨r', hread, hstep⟩ := hok x us h
  refine ⟨base.apply (.add (.bare x)), ?_, follows_pure _ us _ base⟩
  rw [hread]
  exact Reader.readAll_congr hstep

/-- The first tag of a statement. While a body is open, a tag that ends it is none. -/
theorem follows_opening (hend : ¬ AtEnd ts) (h : base.frames = [] ∨ ¬ AtTerminator ts) :
    Follows opening ts { base with mode := .start } base.apply base := by
  refine follows_hand_bind ?_
  unfold openingAt
  split
  · next hk =>
    refine follows_next_bind hend ?_
    have hstep : Reader.step { base with mode := .start } (peek ts) =
        { base with mode := .tag (peek ts).pos } := by
      simp [Reader.step, Reader.beginStatement, Reader.opening?, hk]
    rw [hstep]
    refine follows_statementTag _ (h.imp_right fun hterm word hw => ?_)
    rw [advance_eq_tail hend] at hw
    exact Bool.eq_false_iff.mpr fun hends => hterm ⟨word, ⟨hk, hw⟩, hends⟩
  · next hk =>
    refine follows_next_bind hend ?_
    have hstep : Reader.step { base with mode := .start } (peek ts) =
        { base with mode := .expr (.output (peek ts).pos) .start } := by
      simp [Reader.step, Reader.beginStatement, Reader.opening?, hk]
    rw [hstep]
    exact follows_outputTag _ base _
  · next htag houtput => exact follows_bare hend (opensTag_eq_false htag houtput) base

/-! ## Behind a body -/

/-- In the body of a construct. -/
def inBody (c : Construct) (body : List Stmt) (base : Reader) : Reader :=
  ⟨.start, body.reverse, ⟨c, base.body⟩ :: base.frames, base.errors⟩

theorem readAll_inBody_of_atEnd (hend : AtEnd ts) (c : Construct) (body : List Stmt)
    (base : Reader) :
    (inBody c body base).readAll ts =
      (base.giveUp ⟨(peek ts).pos, .expected (.punctuation .tagOpen) (peek ts).kind⟩).readAll
        ts := by
  have hin : (inBody c body base).step (peek ts) = inBody c body base :=
    Reader.beginStatement_eof hend
  have hskip : ∀ e, (base.giveUp e).step (peek ts) = base.giveUp e := by
    intro e
    have heof : (peek ts).kind = .eof := hend
    simp [Reader.giveUp, Reader.step, Reader.seek, Reader.opening?, heof, TokenKind.closesTag]
  rw [Reader.readAll_of_atEnd hend, Reader.readAll_of_atEnd hend, Reader.finish, Reader.finish,
    hin, hskip]
  cases hframes : base.frames with
  | nil => simp [inBody, Reader.giveUp, hframes]
  | cons f frames => simp [inBody, Reader.giveUp, hframes, List.getLast?_cons]

theorem tagBehind_of_atEnd (hend : AtEnd ts) (c : Construct) (body : List Stmt) :
    tagBehind c body ts =
      .error ⟨(peek ts).pos, .expected (.punctuation .tagOpen) (peek ts).kind⟩ ts := by
  have hne : (peek ts).kind ≠ .punctuation .tagOpen := by
    intro hk
    simp [AtEnd, hk] at hend
  have htag : ∀ word, ¬ AtTag word ts := fun word h => hne h.1
  have herror : endTag c body ts =
      .error ⟨(peek ts).pos, .expected (.punctuation .tagOpen) (peek ts).kind⟩ ts :=
    bind_of_error (expect_of_ne hne)
  cases c with
  | cond pos earlier x =>
    rw [tagBehind_cond, if_neg (htag _), if_neg (htag _)]
    exact herror
  | _ => exact herror

theorem AtTag.not_atEnd {word : Keyword} (h : AtTag word ts) :
    ¬ AtEnd ts ∧ ¬ AtEnd (advance ts) ∧ (peek (advance ts)).kind = .keyword word := by
  have hend : ¬ AtEnd ts := fun hend => by simp [AtEnd, h.1] at hend
  have hw : (peek (advance ts)).kind = .keyword word := by
    rw [advance_eq_tail hend]
    exact h.2
  exact ⟨hend, fun hend' => by simp [AtEnd, hw] at hend', hw⟩

theorem readAll_inBody_of_atTag {word : Keyword} (ht : AtTag word ts)
    (hends : word.endsBody = true) (c : Construct) (body : List Stmt) (base : Reader) :
    (inBody c body base).readAll ts =
      match c.resume word body with
      | .ok mode => { base with mode := mode }.readAll (advance (advance ts))
      | .error closer =>
        (base.giveUp ⟨(peek (advance ts)).pos,
          .expected (.keyword closer) (peek (advance ts)).kind⟩).readAll (advance ts) := by
  obtain ⟨hend, hend', hw⟩ := ht.not_atEnd
  have hopen : (inBody c body base).step (peek ts) =
      { inBody c body base with mode := .tag (peek ts).pos } := by
    simp [Reader.step, inBody, Reader.beginStatement, Reader.opening?, ht.1]
  have hleave : Reader.step { inBody c body base with mode := .tag (peek ts).pos }
      (peek (advance ts)) = Reader.leave { inBody c body base with mode := .tag (peek ts).pos } word
        (peek (advance ts)) := Reader.readTag_of_endsBody hw hends _ _
  rw [Reader.readAll_of_not_atEnd hend, hopen]
  cases hresume : c.resume word body with
  | ok mode =>
    rw [Reader.readAll_of_not_atEnd hend', hleave]
    simp [Reader.leave, inBody, hresume]
  | error closer =>
    refine Reader.readAll_fail (hleave.trans ?_)
    simp [Reader.leave, inBody, hresume, Reader.fail, Reader.seek]

theorem follows_endTag {word : Keyword} (ht : AtTag word ts) (hends : word.endsBody = true)
    {c : Construct} {body : List Stmt}
    (hresume : c.resume word body =
      if word = c.closer then .ok (.close (.add (c.complete body))) else .error c.closer)
    (base : Reader) : Follows (endTag c body) ts (inBody c body base) base.apply base := by
  obtain ⟨hend, hend', hw⟩ := ht.not_atEnd
  have hread := readAll_inBody_of_atTag ht hends c body base
  have hopen : endTag c body ts = (do
      let _ ← expect (.keyword c.closer)
      closeTag (.add (c.complete body)) : Parse TagEffect) (advance ts) :=
    bind_of_ok (expect_of_eq ht.1)
  by_cases hword : word = c.closer
  · rw [hresume, if_pos hword] at hread
    refine (follows_closeTag (.add (c.complete body)) base _).of_eq ?_ hread
    rw [hopen]
    exact bind_of_ok (expect_of_eq (hword ▸ hw))
  · rw [hresume, if_neg hword] at hread
    have hne : (peek (advance ts)).kind ≠ .keyword c.closer := by
      rw [hw]
      exact fun h => hword (TokenKind.keyword.inj h)
    rw [bind_of_error (expect_of_ne hne)] at hopen
    refine ⟨fun hok => ?_, fun herror => ?_⟩
    · rw [hopen] at hok
      cases hok
    · rw [hopen] at herror
      cases herror
      exact hread

theorem follows_tagBehind (hstop : Stopped true ts) (c : Construct) (body : List Stmt)
    (base : Reader) : Follows (tagBehind c body) ts (inBody c body base) base.apply base := by
  rcases hstop with hend | ⟨-, word, ht, hends⟩
  · refine ⟨fun hok => ?_, fun herror => ?_⟩
    · rw [tagBehind_of_atEnd hend] at hok
      cases hok
    · rw [tagBehind_of_atEnd hend] at herror
      cases herror
      exact readAll_inBody_of_atEnd hend c body base
  · have hread := readAll_inBody_of_atTag ht hends c body base
    have hother : ∀ word', AtTag word' ts → word' = word := by
      intro word' ht'
      exact TokenKind.keyword.inj (ht'.2.symm.trans ht.2)
    cases c with
    | cond pos earlier x =>
      have htags := tagBehind_cond pos earlier x body ts
      by_cases helif : word = .elif
      · subst helif
        rw [if_pos ht] at htags
        exact (follows_condTag pos _ base _).of_eq htags hread
      · rw [if_neg fun h => helif (hother _ h).symm] at htags
        by_cases helse : word = .else_
        · subst helse
          rw [if_pos ht] at htags
          have hfollows := follows_closeTag (.enter (.otherwise pos earlier ⟨x, body⟩)) base
          exact (hfollows _).of_eq htags hread
        · rw [if_neg fun h => helse (hother _ h).symm] at htags
          refine (follows_endTag ht hends ?_ base).of_eq htags rfl
          cases word <;> simp_all [Construct.resume]
    | _ => exact follows_endTag ht hends rfl base

end Descent

end Templates
