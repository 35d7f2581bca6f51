import Templates.Proofs.DescentReading

/-!
# A broken tag is the only thing lost

A `LoneTag` opens no body. It is read between its two delimiters and nowhere else: whatever the
tokens between them are, and whether or not the delimiters match, it becomes one statement or one
error, and the tokens behind it are read as if they stood alone (`parse_append_loneTag`).

The reason is that the descent reads such a tag up to its closing delimiter at the latest (`Inside`,
`Closing`), and that `synchronize` stops exactly behind that delimiter
(`exists_recovering_of_loneTag`).
-/

namespace Templates

open Descent

/-- The token is no delimiter and does not end the template. -/
def Token.Plain (t : Token) : Prop :=
  t.kind.opensTag = false ∧ t.kind.closesTag = false ∧ t.kind ≠ .eof

instance (t : Token) : Decidable t.Plain := inferInstanceAs (Decidable (_ ∧ _ ∧ _))

/-- `LoneTag ts`: the tokens `ts` are plain ones between an opening and a closing delimiter, which
need not belong together. -/
inductive LoneTag : List Token → Prop
  | mk {o c : Token} {inner : List Token} (ho : o.kind.opensTag = true)
    (hinner : ∀ t ∈ inner, t.Plain) (hc : c.kind.closesTag = true) :
    LoneTag (o :: (inner ++ [c]))

namespace Descent

/-! ## Between the delimiters of a tag -/

/-- `BreaksOff p inner c`: in front of `c` and whatever comes behind it, `p` breaks off before `c`
has been taken, always in the same way. -/
def BreaksOff {α : Type} (p : Parse α) (inner : List Token) (c : Token) : Prop :=
  ∃ e inner', (∀ t ∈ inner', t.Plain) ∧
    ∀ rest, p (inner ++ c :: rest) = .error e (inner' ++ c :: rest)

/-- Inside a tag, `p` reads up to the closing delimiter at the latest. -/
def Inside {α : Type} (p : Parse α) : Prop :=
  ∀ inner c, (∀ t ∈ inner, t.Plain) → c.kind.closesTag = true →
    (∃ a inner', (∀ t ∈ inner', t.Plain) ∧
      ∀ rest, p (inner ++ c :: rest) = .ok a (inner' ++ c :: rest)) ∨
    BreaksOff p inner c

/-- `p` reads the rest of a tag, with its closing delimiter, as a statement. -/
def ClosesAt (p : Parse TagEffect) (inner : List Token) (c : Token) : Prop :=
  (∃ s, ∀ rest, p (inner ++ c :: rest) = .ok (.add s) rest) ∨ BreaksOff p inner c

/-- In whatever way the tag goes on, `p` reads it up to its closing delimiter. -/
def Closing (p : Parse TagEffect) : Prop :=
  ∀ inner c, (∀ t ∈ inner, t.Plain) → c.kind.closesTag = true → ClosesAt p inner c

section Inside

variable {α β : Type} {p : Parse α}

theorem BreaksOff.bind {inner : List Token} {c : Token} (h : BreaksOff p inner c)
    (f : α → Parse β) : BreaksOff (p >>= f) inner c := by
  obtain ⟨e, inner', hinner, herror⟩ := h
  exact ⟨e, inner', hinner, fun rest => bind_of_error (herror rest)⟩

theorem Inside.closing_bind {f : α → Parse TagEffect} (hp : Inside p) (hf : ∀ a, Closing (f a)) :
    Closing (p >>= f) := by
  intro inner c hinner hc
  rcases hp inner c hinner hc with ⟨a, inner', hinner', hok⟩ | hbreak
  · rcases hf a inner' c hinner' hc with ⟨s, hs⟩ | ⟨e, inner'', hinner'', herror⟩
    · exact Or.inl ⟨s, fun rest => (bind_of_ok (hok rest)).trans (hs rest)⟩
    · exact Or.inr ⟨e, inner'', hinner'', fun rest => (bind_of_ok (hok rest)).trans (herror rest)⟩
  · exact Or.inr (hbreak.bind f)

theorem inside_expect {wanted : TokenKind} (hwanted : wanted.closesTag = false) :
    Inside (expect wanted) := by
  intro inner c hinner hc
  cases inner with
  | nil =>
    have hne : c.kind ≠ wanted := by
      rintro rfl
      simp [hc] at hwanted
    exact Or.inr ⟨_, [], nofun, fun rest => expect_cons_of_ne hne rest⟩
  | cons t inner =>
    obtain ⟨ht, hinner'⟩ := List.forall_mem_cons.mp hinner
    by_cases hk : t.kind = wanted
    · exact Or.inl ⟨t, inner, hinner', fun rest => expect_cons_of_eq hk ht.2.2 _⟩
    · exact Or.inr ⟨_, t :: inner, hinner, fun rest => expect_cons_of_ne hk _⟩

theorem kind_of_closesTag {kind : TokenKind} (h : kind.closesTag = true) :
    kind = .punctuation .tagClose ∨ kind = .punctuation .outputClose := by
  cases kind with
  | punctuation mark => cases mark <;> simp_all [TokenKind.closesTag, Punctuation.role]
  | _ => cases h

/-- No expression goes on with a closing delimiter. -/
theorem step_closer_ne_more {c : Token} (hc : c.kind.closesTag = true) (r r' : ExprReader) :
    r.step c ≠ .more r' := by
  intro h
  rcases kind_of_closesTag hc with hk | hk
  all_goals
    cases r with
    | operand pending => simp [ExprReader.step, ExprReader.readOperand, hk, ExprReader.inside] at h
    | name pending pos link x =>
      simp [ExprReader.step, ExprReader.readName, hk, ExprReader.inside] at h
    | complete pending x =>
      simp only [ExprReader.step, ExprReader.readJoint, hk, Joint.ofKind?] at h
      split at h <;> simp at h

theorem inside_readExpr (r : ExprReader) : Inside (readExpr r) := by
  intro inner c hinner hc
  induction inner generalizing r with
  | nil =>
    cases hs : r.step c with
    | more r' => exact absurd hs (step_closer_ne_more hc r r')
    | done x => exact Or.inl ⟨x, [], nofun, fun rest => readExpr_of_done hs⟩
    | fail fault => exact Or.inr ⟨⟨c.pos, fault⟩, [], nofun, fun rest => readExpr_of_fail hs⟩
  | cons t inner ih =>
    obtain ⟨ht, hinner'⟩ := List.forall_mem_cons.mp hinner
    cases hs : r.step t with
    | more r' =>
      rcases ih r' hinner' with ⟨x, inner', hplain, hok⟩ | ⟨e, inner', hplain, herror⟩
      · exact Or.inl ⟨x, inner', hplain, fun rest => (readExpr_cons_of_more hs _).trans (hok rest)⟩
      · exact Or.inr
          ⟨e, inner', hplain, fun rest => (readExpr_cons_of_more hs _).trans (herror rest)⟩
    | done x => exact Or.inl ⟨x, t :: inner, hinner, fun rest => readExpr_of_done hs⟩
    | fail fault =>
      exact Or.inr ⟨⟨t.pos, fault⟩, t :: inner, hinner, fun rest => readExpr_of_fail hs⟩

theorem closing_expect {closer : Punctuation} (hcloser : closer.role = .closer) (s : Stmt) :
    Closing (do let _ ← expect (.punctuation closer); return .add s) := by
  intro inner c hinner hc
  cases inner with
  | nil =>
    by_cases hk : c.kind = .punctuation closer
    · have heof : c.kind ≠ .eof := by simp [hk]
      exact Or.inl ⟨s, fun rest => bind_of_ok (expect_cons_of_eq hk heof rest)⟩
    · exact Or.inr ⟨_, [], nofun, fun rest => bind_of_error (expect_cons_of_ne hk rest)⟩
  | cons t inner =>
    have hne : t.kind ≠ .punctuation closer := by
      intro hk
      have hplain := (hinner t List.mem_cons_self).2.1
      simp [hk, TokenKind.closesTag, hcloser] at hplain
    exact Or.inr ⟨_, t :: inner, hinner, fun rest => bind_of_error (expect_cons_of_ne hne _)⟩

theorem closing_closedExpr {closer : Punctuation} (hcloser : closer.role = .closer)
    (f : Expr → Stmt) : Closing (do let x ← closedExpr closer; return .add (f x)) := by
  have hassoc : (do let x ← closedExpr closer; return .add (f x) : Parse TagEffect) = (do
      let x ← expression
      let _ ← expect (.punctuation closer)
      return .add (f x)) := by
    simp [closedExpr]
  rw [hassoc]
  exact (inside_readExpr .start).closing_bind fun x => closing_expect hcloser (f x)

theorem closing_outputTag (pos : Position) : Closing (outputTag pos) :=
  closing_closedExpr rfl fun x => .output pos x

theorem closing_setTag (pos : Position) : Closing (setTag pos) :=
  (inside_expect rfl).closing_bind fun name => (inside_expect rfl).closing_bind fun _ =>
    closing_closedExpr rfl fun x => .set pos ⟨name.literal, name.pos⟩ x

end Inside

theorem ClosesAt.congr {p q : Parse TagEffect} {inner inner' : List Token} {c : Token}
    (h : ClosesAt q inner' c)
    (hpq : ∀ rest, p (inner ++ c :: rest) = q (inner' ++ c :: rest)) : ClosesAt p inner c := by
  rcases h with ⟨s, hok⟩ | ⟨e, inner'', hinner, herror⟩
  · exact Or.inl ⟨s, fun rest => (hpq rest).trans (hok rest)⟩
  · exact Or.inr ⟨e, inner'', hinner, fun rest => (hpq rest).trans (herror rest)⟩

/-- A tag whose word opens no body. -/
theorem closesAt_statementTag (pos : Position) {inner : List Token} {c : Token}
    (hinner : ∀ t ∈ inner, t.Plain) (hc : c.kind.closesTag = true)
    (hword : ∀ word ∈ [Keyword.if_, .for_, .block], (peek (inner ++ [c])).kind ≠ .keyword word) :
    ClosesAt (statementTag pos) inner c := by
  suffices h : ClosesAt (statementTagAt pos (peek (inner ++ [c]))) inner c by
    refine h.congr fun rest => ?_
    rw [statementTag_eq]
    cases inner <;> rfl
  unfold statementTagAt
  split
  · next hk =>
    cases inner with
    | nil =>
      have hkind : c.kind = .keyword .set := hk
      simp [hkind, TokenKind.closesTag] at hc
    | cons t inner =>
      obtain ⟨ht, hinner⟩ := List.forall_mem_cons.mp hinner
      refine (closing_setTag pos inner c hinner hc).congr fun rest => ?_
      rw [← advance_cons ht.2.2 (inner ++ c :: rest)]
      rfl
  · next hk => exact absurd hk (hword .if_ (by simp))
  · next hk => exact absurd hk (hword .for_ (by simp))
  · next hk => exact absurd hk (hword .block (by simp))
  · exact Or.inr ⟨_, inner, hinner, fun rest => rfl⟩
  · exact Or.inr ⟨_, inner, hinner, fun rest => rfl⟩

/-! ## A tag of its own -/

theorem skip_plain {inner : List Token} {c : Token} (hinner : ∀ t ∈ inner, t.Plain)
    (hc : c.kind.closesTag = true) (rest : List Token) : skip (inner ++ c :: rest) = rest := by
  induction inner with
  | nil =>
    rw [List.nil_append, skip]
    rcases kind_of_closesTag hc with hk | hk
    · simp [hk, TokenKind.opensTag, TokenKind.closesTag, Punctuation.role]
    · simp [hk, TokenKind.opensTag, TokenKind.closesTag, Punctuation.role]
  | cons t inner ih =>
    obtain ⟨⟨hopens, hcloses, heof⟩, hinner⟩ := List.forall_mem_cons.mp hinner
    rw [List.cons_append, skip]
    simp [hopens, hcloses, heof, ih hinner]

theorem not_atEnd_of_opensTag {o : Token} (ho : o.kind.opensTag = true) (ts : List Token) :
    ¬ AtEnd (o :: ts) := by
  intro hend
  have heof : o.kind = .eof := hend
  simp [heof, TokenKind.opensTag] at ho

/-- A `LoneTag` is one statement or one error, and the descent goes on behind it. -/
theorem exists_recovering_of_loneTag {ts : List Token} (h : LoneTag ts)
    (hbody : ∀ word ∈ [Keyword.if_, .for_, .block], ¬ AtTag word ts) :
    ∃ s errors, (s.isSome ∧ errors = [] ∨ s = none ∧ errors.length = 1) ∧
      ∀ rest, Recovering (ts ++ rest) s errors rest := by
  obtain @⟨o, c, inner, ho, hinner, hc⟩ := h
  have heof : o.kind ≠ .eof := not_atEnd_of_opensTag ho []
  have hcloses : ClosesAt (fun ts => opening (o :: ts)) inner c := by
    by_cases htag : o.kind = .punctuation .tagOpen
    · have hword : ∀ word ∈ [Keyword.if_, .for_, .block],
          (peek (inner ++ [c])).kind ≠ .keyword word := fun word hw hk => hbody word hw ⟨htag, hk⟩
      refine (closesAt_statementTag o.pos hinner hc hword).congr fun rest => ?_
      have hpeek : (peek (o :: (inner ++ c :: rest))).kind = .punctuation .tagOpen := htag
      rw [opening_of_tagOpen hpeek, advance_cons heof, peek_cons]
    · have houtput : o.kind = .punctuation .outputOpen := by
        by_cases houtput : o.kind = .punctuation .outputOpen
        · exact houtput
        · simp [opensTag_eq_false htag houtput] at ho
      refine (closing_outputTag o.pos inner c hinner hc).congr fun rest => ?_
      have hpeek : (peek (o :: (inner ++ c :: rest))).kind = .punctuation .outputOpen := houtput
      rw [opening_of_outputOpen hpeek, advance_cons heof, peek_cons]
  have happend : ∀ rest, o :: (inner ++ [c]) ++ rest = o :: (inner ++ c :: rest) := by simp
  rcases hcloses with ⟨s, hok⟩ | ⟨e, inner', hinner', herror⟩
  · refine ⟨some s, [], Or.inl ⟨rfl, rfl⟩, fun rest => ?_⟩
    rw [happend]
    exact .kept (.single (hok rest))
  · refine ⟨none, [e], Or.inr ⟨rfl, rfl⟩, fun rest => ?_⟩
    have hstmt : Statement (o :: (inner ++ c :: rest)) (.error e) [] (inner' ++ c :: rest) :=
      .broken (herror rest)
    have hdrop := Recovering.dropped hstmt
    rw [synchronize_eq_skip (not_atEnd_of_opensTag ho _) hstmt, skip_plain hinner' hc] at hdrop
    rw [happend]
    exact hdrop

end Descent

/-! ## Among other statements -/

namespace Reader

/-- A body without errors in front of an opening delimiter. -/
theorem readAll_bodyReading {ts us : List Token} {ss : List Stmt} {o : Token}
    (h : BodyReading ts ss) (ho : o.kind.opensTag = true) (body : List Stmt) (frames : List Frame)
    (errors : List SyntaxError) :
    (⟨.start, body, frames, errors⟩ : Reader).readAll (ts ++ o :: us) =
      (⟨.start, ss.reverse ++ body, frames, errors⟩ : Reader).readAll (o :: us) := by
  have heof : o.kind ≠ .eof := not_atEnd_of_opensTag ho []
  have hstop : Stops [o] := by
    refine ⟨o, [], rfl, ?_⟩
    cases hk : o.kind <;> simp_all [TokenKind.opensTag, TokenKind.precedence?]
  have heofs : ∀ t ∈ ts ++ [o], t.kind ≠ .eof :=
    List.forall_mem_append.mpr ⟨h.ne_eof, by simpa using heof⟩
  have hrow : ts ++ o :: us = ts ++ [o] ++ us := by simp
  have hfirst : o :: us = [o] ++ us := rfl
  rw [hrow, readAll_append heofs, run_bodyReading h hstop, hfirst,
    readAll_append (by simpa using heof)]

/-- The tag that ends the only open construct ends the template. -/
theorem readAll_endTag {c : Construct} {ts : List Token} {pos : Position}
    (h : TagAt pos c.closer [] ts) (body before : List Stmt) (errors : List SyntaxError) :
    (⟨.start, body, [⟨c, before⟩], errors⟩ : Reader).readAll ts =
      ⟨before.reverse ++ [c.complete body.reverse], errors.reverse⟩ := by
  have hends : c.closer.endsBody = true := by cases c <;> rfl
  have hresume :
      c.resume c.closer body.reverse = .ok (.close (.add (c.complete body.reverse))) := by
    cases c <;> rfl
  have hrun : run ⟨.start, body, [⟨c, before⟩], errors⟩ (ts ++ []) = _ := run_endTag h hends hresume
  rw [List.append_nil] at hrun
  rw [← List.append_nil ts, readAll_append (h.ne_eof (List.forall_mem_nil _)), hrun]
  simp [apply, readAll, finish, step, beginStatement, opening?, Token.endOfText]

end Reader

theorem bodyReading_of_parse_of_ne_eof {ts : List Token} (heof : ∀ t ∈ ts, t.kind ≠ .eof)
    (h : (parse ts).errors = []) : BodyReading ts (parse ts).template := by
  have hself : ts.takeWhile (·.kind ≠ .eof) = ts := by
    clear h
    induction ts with
    | nil => rfl
    | cons t ts ih =>
      obtain ⟨ht, hts⟩ := List.forall_mem_cons.mp heof
      simpa [ht] using ih hts
  have hread := bodyReading_of_parse h
  rwa [hself] at hread

theorem LoneTag.atTag_append_iff {ts : List Token} {word : Keyword} (h : LoneTag ts)
    (rest : List Token) : AtTag word (ts ++ rest) ↔ AtTag word ts := by
  obtain @⟨o, c, inner, -, -, -⟩ := h
  cases inner <;> exact Iff.rfl

theorem readAll_loneTag {as x : List Token} {ss : List Stmt} {s : Option Stmt}
    {es : List SyntaxError} {frames : List Frame} (has : BodyReading as ss) (hx : LoneTag x)
    (hrec : ∀ rest, Recovering (x ++ rest) s es rest) (hopen : frames = [] ∨ ¬ AtTerminator x)
    (body : List Stmt) (errors : List SyntaxError) (rest : List Token) :
    (⟨.start, body, frames, errors⟩ : Reader).readAll (as ++ (x ++ rest)) =
      (⟨.start, s.toList.reverse ++ (ss.reverse ++ body), frames, es.reverse ++ errors⟩ :
        Reader).readAll rest := by
  have hterm : frames = [] ∨ ¬ AtTerminator (x ++ rest) := by
    refine hopen.imp_right fun hterm ⟨word, ht, hends⟩ => ?_
    exact hterm ⟨word, (hx.atTag_append_iff rest).mp ht, hends⟩
  have htag := (hrec rest).readAll_eq ⟨.start, ss.reverse ++ body, frames, errors⟩
  obtain @⟨o, c, inner, ho, hinner, hc⟩ := hx
  rw [← htag (not_atEnd_of_opensTag ho _) hterm]
  exact Reader.readAll_bodyReading has ho body frames errors

/-- A `LoneTag` is one statement or one error, and all else is read as if it stood alone: the
statements in front of it, which have no error, and the tokens behind it. The same holds in the body
of a construct, unless the tag can end that body. -/
theorem parse_append_loneTag {as x bs : List Token} (has : ∀ t ∈ as, t.kind ≠ .eof)
    (hclean : (parse as).errors = []) (hx : LoneTag x)
    (hbody : ∀ word ∈ [Keyword.if_, .for_, .block], ¬ AtTag word x) :
    ((parse x).errors = [] ∧ (parse x).template.length = 1 ∨
      (parse x).errors.length = 1 ∧ (parse x).template = []) ∧
    parse (as ++ x ++ bs) =
      ⟨(parse as).template ++ (parse x).template ++ (parse bs).template,
        (parse x).errors ++ (parse bs).errors⟩ ∧
    ((∀ t ∈ bs, t.kind ≠ .eof) → (parse bs).errors = [] → ¬ AtTerminator x →
      ∀ c head last pos, Header c head → TagAt pos c.closer [] last →
        parse (head ++ (as ++ x ++ bs) ++ last) =
          ⟨[c.complete ((parse as).template ++ (parse x).template ++ (parse bs).template)],
            (parse x).errors⟩) := by
  obtain ⟨s, es, hs, hrec⟩ := exists_recovering_of_loneTag hx hbody
  have hread := bodyReading_of_parse_of_ne_eof has hclean
  have halone : parse x = ⟨s.toList, es⟩ := by
    have hend : Statements false [] [] [] [] := .stop (Or.inl rfl)
    have h := readAll_loneTag .nil hx hrec (Or.inl rfl) [] [] []
    rw [readAll_of_statements hend] at h
    simpa [parse, Reader.initial] using h
  refine ⟨?_, ?_, fun hbs hbsclean hterm c head last pos hhead hlast => ?_⟩
  · rw [halone]
    rcases hs with ⟨hsome, hes⟩ | ⟨rfl, hes⟩
    · obtain ⟨st, rfl⟩ := Option.isSome_iff_exists.mp hsome
      exact Or.inl ⟨hes, rfl⟩
    · exact Or.inr ⟨hes, rfl⟩
  · obtain ⟨rest, hstatements⟩ := exists_statements_parse bs
    have h := readAll_loneTag hread hx hrec (Or.inl rfl) [] [] bs
    rw [readAll_of_statements hstatements] at h
    rw [halone, List.append_assoc, parse, Reader.initial, h]
    simp
  · -- The header opens the body, the tag is met in it with the construct open, and the end tag
    -- completes the construct with all that was kept.
    rw [halone]
    have hbsread := bodyReading_of_parse_of_ne_eof hbs hbsclean
    have hopen : Reader.initial.run head = ⟨.start, [], [⟨c, []⟩], []⟩ := by
      have h : Reader.initial.run (head ++ []) = _ := Reader.run_header hhead
      simpa using h
    have hrow : head ++ (as ++ x ++ bs) ++ last = head ++ (as ++ (x ++ (bs ++ last))) := by simp
    rw [hrow, parse, Reader.readAll_append hhead.ne_eof, hopen,
      readAll_loneTag hread hx hrec (Or.inr hterm) [] [] (bs ++ last)]
    obtain ⟨o, ts, rfl, ho⟩ : ∃ o ts, last = o :: ts ∧ o.kind.opensTag = true := by
      obtain ⟨ho, -, -, -⟩ := hlast
      exact ⟨_, _, rfl, by simp [ho, TokenKind.opensTag, Punctuation.role]⟩
    rw [Reader.readAll_bodyReading hbsread ho, Reader.readAll_endTag hlast]
    simp

/-- The template `a {% set ) in }} {{ b }}`, by itself and in a block. The tag in its middle breaks
off at the parenthesis and ends with a delimiter of the other kind; the bare expression in front of
it and the output behind it are kept. -/
theorem parse_append_loneTag_mismatched :
    let a : Token := ⟨.ident, "a", ⟨1, 1⟩⟩
    let b : Token := ⟨.ident, "b", ⟨1, 22⟩⟩
    let paren : Token := ⟨.punctuation .parenClose, ")", ⟨1, 10⟩⟩
    let tagOpen (n : Nat) : Token := ⟨.punctuation .tagOpen, "\x7b%", ⟨1, n⟩⟩
    let tagClose (n : Nat) : Token := ⟨.punctuation .tagClose, "%\x7d", ⟨1, n⟩⟩
    let outputOpen (n : Nat) : Token := ⟨.punctuation .outputOpen, "\x7b\x7b", ⟨1, n⟩⟩
    let outputClose (n : Nat) : Token := ⟨.punctuation .outputClose, "\x7d\x7d", ⟨1, n⟩⟩
    let word (w : Keyword) (n : Nat) : Token := ⟨.keyword w, w.spelling, ⟨1, n⟩⟩
    let x := [tagOpen 3, word .set 6, paren, word .in_ 12, outputClose 15]
    let bs := [outputOpen 19, b, outputClose 24]
    let head := [tagOpen 1, word .block 4, tagClose 10]
    let last := [tagOpen 30, word .endblock 33, tagClose 42]
    let kept := [Stmt.bare (.ident ⟨1, 1⟩ "a"), .output ⟨1, 19⟩ (.ident ⟨1, 22⟩ "b")]
    let error : SyntaxError := ⟨⟨1, 10⟩, .expected .ident (.punctuation .parenClose)⟩
    (∀ t ∈ [a], t.kind ≠ .eof) ∧ (parse [a]).errors = [] ∧ LoneTag x ∧
      (∀ w ∈ [Keyword.if_, .for_, .block], ¬ AtTag w x) ∧
      parse ([a] ++ x ++ bs) = ⟨kept, [error]⟩ ∧
      parse (head ++ ([a] ++ x ++ bs) ++ last) = ⟨[.block ⟨1, 1⟩ none kept], [error]⟩ := by
  intro a b paren tagOpen tagClose outputOpen outputClose word x bs head last kept error
  have ha : ∀ t ∈ [a], t.kind ≠ .eof := by decide
  have hclean : (parse [a]).errors = [] := rfl
  have hx : LoneTag x :=
    @LoneTag.mk (tagOpen 3) (outputClose 15) [word .set 6, paren, word .in_ 12] rfl (by decide) rfl
  have hbody : ∀ w ∈ [Keyword.if_, .for_, .block], ¬ AtTag w x := by decide
  obtain ⟨-, htop, hnested⟩ := @parse_append_loneTag [a] x bs ha hclean hx hbody
  have hterm : ¬ AtTerminator x := by
    rintro ⟨w, ht, hends⟩
    cases ht.2
    cases hends
  have hhead : Header (.block ⟨1, 1⟩ none) head :=
    @Header.block ⟨1, 1⟩ none head nofun ⟨rfl, rfl, rfl, rfl⟩
  have hlast : TagAt ⟨1, 30⟩ .endblock [] last := ⟨rfl, rfl, rfl, rfl⟩
  exact ⟨ha, hclean, hx, hbody, htop,
    hnested (by decide) rfl hterm _ head last ⟨1, 30⟩ hhead hlast⟩

end Templates
