import Templates.Proofs.DescentReading

/-!
# The end token

The first end token of a list of tokens ends the template: no token behind it has any effect, and a
list without one is read as if `Token.endOfText` stood behind it at the first position. The position
of the end token is that of the errors found at it and shows nowhere else (`parse_append_end`).

The reader stops at the end token by itself, so the lemmas say how an end token acts on a reader
(`Reader.exists_ends`): its position shows only in the error that it may give rise to
(`SyntaxError.endingAt`), and its literal does not show at all.
-/

namespace Templates

/-! ## What an end token does -/

theorem ExprReader.step_eof_congr (r : ExprReader) {e e' : Token} (he : e.kind = .eof)
    (he' : e'.kind = .eof) : r.step e = r.step e' := by
  cases r with
  | operand pending => simp [step, readOperand, he, he']
  | name pending pos link x => simp [step, readName, he, he']
  | complete pending x => simp [step, readJoint, Joint.ofKind?, he, he']

namespace Reader

theorem fail_eof {e : Token} (he : e.kind = .eof) (r : Reader) (fault : SyntaxFault) :
    r.fail fault e = ⟨.skip, r.body, r.frames, ⟨e.pos, fault⟩ :: r.errors⟩ := by
  simp [fail, seek, opening?, he, TokenKind.closesTag]

theorem expect_eof {e : Token} (he : e.kind = .eof) {wanted : TokenKind} (hwanted : wanted ≠ .eof)
    (r next : Reader) : r.expect wanted e next =
      ⟨.skip, r.body, r.frames, ⟨e.pos, .expected wanted .eof⟩ :: r.errors⟩ := by
  rw [expect, he, if_neg hwanted.symm, fail_eof he]

/-- From `r` every end token leads to the same statements and finds the same faults, each at its own
place. -/
def Ends (r : Reader) (mode : Mode) (body : List Stmt) (faults : List SyntaxFault) : Prop :=
  ∀ e : Token, e.kind = .eof →
    r.step e = ⟨mode, body, r.frames, faults.map (⟨e.pos, ·⟩) ++ r.errors⟩

theorem ends_fail {r : Reader} (fault : SyntaxFault)
    (h : ∀ e : Token, e.kind = .eof → r.step e = r.fail fault e) :
    r.Ends .skip r.body [fault] := by
  intro e he
  rw [h e he, fail_eof he]
  rfl

theorem ends_expect {r : Reader} {wanted : TokenKind} (hwanted : wanted ≠ .eof)
    (next : Token → Reader)
    (h : ∀ e : Token, e.kind = .eof → r.step e = r.expect wanted e (next e)) :
    r.Ends .skip r.body [.expected wanted .eof] := by
  intro e he
  rw [h e he, expect_eof he hwanted]
  rfl

theorem ident_ne_eof : TokenKind.ident ≠ .eof := nofun

theorem keyword_ne_eof (word : Keyword) : TokenKind.keyword word ≠ .eof := nofun

theorem operator_ne_eof (sign : Operator) : TokenKind.operator sign ≠ .eof := nofun

theorem punctuation_ne_eof (mark : Punctuation) : TokenKind.punctuation mark ≠ .eof := nofun

/-- An expression that is being read ends in front of an end token, or it breaks off there. -/
theorem exists_ends_expr (purpose : Purpose) (reader : ExprReader) (body : List Stmt)
    (frames : List Frame) (errors : List SyntaxError) :
    ∃ mode body' faults, Ends ⟨.expr purpose reader, body, frames, errors⟩ mode body' faults := by
  have hstep : ∀ e : Token, e.kind = .eof → reader.step e = reader.step (.endOfText .first) :=
    fun e he => reader.step_eof_congr he rfl
  cases hlast : reader.step (.endOfText .first) with
  | more reader' => exact absurd hlast (ExprReader.step_eof_ne_more rfl)
  | fail fault =>
    refine ⟨_, _, _, ends_fail fault fun e he => ?_⟩
    simp only [step, readExpr, hstep e he, hlast]
  | done x =>
    cases heffect : purpose.effect? x with
    | none =>
      refine ⟨.start, .bare x :: body, [], fun e he => ?_⟩
      simp only [step, readExpr, hstep e he, hlast, finishExpr, heffect, beginStatement_eof he]
      rfl
    | some closing =>
      obtain ⟨closer, effect⟩ := closing
      refine ⟨_, _, _, ends_expect (punctuation_ne_eof closer)
        (fun _ => apply ⟨.expr purpose reader, body, frames, errors⟩ effect) fun e he => ?_⟩
      simp only [step, readExpr, hstep e he, hlast, finishExpr, heffect]

/-- Every end token takes a reader to the same state, up to the position of an error found at it. -/
theorem exists_ends (r : Reader) : ∃ mode body faults, r.Ends mode body faults := by
  obtain ⟨mode, body, frames, errors⟩ := r
  cases mode with
  | start => exact ⟨.start, body, [], fun e he => beginStatement_eof he⟩
  | skip =>
    refine ⟨.skip, body, [], fun e he => ?_⟩
    simp [step, seek, opening?, he, TokenKind.closesTag]
  | tag pos =>
    refine ⟨_, _, _, ends_fail (.unknownTag .eof) fun e he => ?_⟩
    simp [step, readTag, he]
  | setName pos => exact ⟨_, _, _, ends_expect ident_ne_eof _ fun _ _ => rfl⟩
  | setSign pos name => exact ⟨_, _, _, ends_expect (operator_ne_eof .assign) _ fun _ _ => rfl⟩
  | loopName pos => exact ⟨_, _, _, ends_expect ident_ne_eof _ fun _ _ => rfl⟩
  | loopIn pos name => exact ⟨_, _, _, ends_expect (keyword_ne_eof .in_) _ fun _ _ => rfl⟩
  | blockName pos =>
    let next : Reader := apply ⟨.blockName pos, body, frames, errors⟩ (.enter (.block pos none))
    refine ⟨_, _, _, ends_expect (punctuation_ne_eof .tagClose) (fun _ => next) fun e he => ?_⟩
    simp [step, he, next]
  | expr purpose reader => exact exists_ends_expr purpose reader body frames errors
  | close effect =>
    exact ⟨_, _, _, ends_expect (punctuation_ne_eof .tagClose) _ fun _ _ => rfl⟩

theorem Ends.found_eq {r : Reader} {mode : Mode} {body : List Stmt} {faults : List SyntaxFault}
    (h : r.Ends mode body faults) : ∀ fault ∈ faults, fault.found = .eof := by
  have hstep := congrArg Reader.errors (h (.endOfText .first) rfl)
  intro fault hfault
  have hmem : (⟨.first, fault⟩ : SyntaxError) ∈ faults.map (⟨.first, ·⟩) :=
    List.mem_map_of_mem hfault
  rcases blames_step r (.endOfText .first) with hsame | ⟨x, ⟨-, hfound⟩, hnew⟩
  · have hnone : faults.map (⟨Position.first, ·⟩ : SyntaxFault → SyntaxError) = [] :=
      List.append_left_eq_self.mp (hstep.symm.trans hsame)
    rw [hnone] at hmem
    exact absurd hmem List.not_mem_nil
  · have hone : faults.map (⟨Position.first, ·⟩ : SyntaxFault → SyntaxError) = [x] :=
      List.append_cancel_right (hstep.symm.trans hnew)
    rw [hone, List.mem_singleton] at hmem
    rw [← hmem] at hfound
    exact hfound

/-- Closing a template at an end token yields the same wherever the token stands, but for the place
of the errors that are found at it. -/
theorem exists_finish_eof (r : Reader) : ∃ (template : Template) (faults : List SyntaxFault),
    (∀ fault ∈ faults, fault.found = .eof) ∧ ∀ e : Token, e.kind = .eof →
      r.finish e = ⟨template, r.errors.reverse ++ faults.map (⟨e.pos, ·⟩)⟩ := by
  obtain ⟨mode, body, faults, hends⟩ := r.exists_ends
  let unclosed := r.frames.map fun _ => SyntaxFault.expected (.punctuation .tagOpen) .eof
  refine ⟨((r.frames.getLast?.map Frame.before).getD body).reverse, faults.reverse ++ unclosed,
    fun fault hfault => ?_, fun e he => ?_⟩
  · rcases List.mem_append.mp hfault with hlast | hopen
    · exact hends.found_eq fault (List.mem_reverse.mp hlast)
    · obtain ⟨frame, -, rfl⟩ := List.mem_map.mp hopen
      rfl
  · simp [finish, hends e he, he, unclosed]

end Reader

/-! ## Tokens in front of an end token -/

/-- The error as it is found when the template ends at another place. -/
def SyntaxError.endingAt (pos : Position) (e : SyntaxError) : SyntaxError :=
  if e.fault.found = .eof then { e with pos := pos } else e

theorem SyntaxError.endingAt_of_eof {e : SyntaxError} (h : e.fault.found = .eof) (pos : Position) :
    e.endingAt pos = ⟨pos, e.fault⟩ := if_pos h

theorem SyntaxError.endingAt_of_ne {e : SyntaxError} (h : e.fault.found ≠ .eof) (pos : Position) :
    e.endingAt pos = e := if_neg h

section EndToken

variable {ts : List Token} (hts : ∀ t ∈ ts, t.kind ≠ .eof)
include hts

/-- The template ends at the first end token, or behind all tokens at the first position. -/
theorem parse_append_eof {e : Token} (he : e.kind = .eof) (rest : List Token) :
    parse (ts ++ e :: rest) = (Reader.initial.run ts).finish e := by
  rw [parse, Reader.readAll_append hts, Reader.readAll, if_pos he]

theorem parse_of_ne_eof : parse ts = (Reader.initial.run ts).finish (.endOfText .first) := by
  have happend := Reader.readAll_append hts .initial []
  rw [List.append_nil] at happend
  rw [parse, happend, Reader.readAll]

theorem dropWhile_ne_eof_append {us : List Token} (hus : Descent.AtEnd us) :
    (ts ++ us).dropWhile (·.kind ≠ .eof) = us := by
  rw [List.dropWhile_append_of_pos (by simpa using hts)]
  cases us with
  | nil => rfl
  | cons u us =>
    have hu : u.kind = .eof := hus
    rw [List.dropWhile_cons_of_neg (by simpa using hu)]

/-- The descent of `parse` stops in front of the first end token. -/
theorem statements_parse_append {e : Token} (he : e.kind = .eof) (rest : List Token) :
    Descent.Statements false (ts ++ e :: rest) (parse (ts ++ e :: rest)).template
      (parse (ts ++ e :: rest)).errors (e :: rest) := by
  obtain ⟨us, h⟩ := Descent.exists_statements_parse (ts ++ e :: rest)
  obtain ⟨used, hsplit, -, hused⟩ := h.consumes
  have hend : Descent.AtEnd us := by
    rcases h.stopped with hend | ⟨hnested, -⟩
    · exact hend
    · cases hnested
  have hfirst : Descent.AtEnd (e :: rest) := he
  have hleft : us = e :: rest := by
    rw [← dropWhile_ne_eof_append hused hend, ← hsplit, dropWhile_ne_eof_append hts hfirst]
  rw [hleft] at h
  exact h

/-- Tokens `ts` without an end token are read in the same way whatever follows an end token behind
them. The errors found at the end token are at its position, which is the first position if there is
none; all other errors are at tokens of `ts`. -/
theorem parse_append_end {e : Token} (he : e.kind = .eof) (rest : List Token) :
    parse (ts ++ e :: rest) =
        ⟨(parse ts).template, (parse ts).errors.map (SyntaxError.endingAt e.pos)⟩ ∧
      (e.pos = .first → parse (ts ++ e :: rest) = parse ts) ∧
      (∀ x ∈ (parse ts).errors, (x.fault.found = .eof → x.pos = .first) ∧
        (x.fault.found ≠ .eof → ∃ t ∈ ts, x.IsAt t)) ∧
      Descent.Statements false (ts ++ e :: rest) (parse (ts ++ e :: rest)).template
        (parse (ts ++ e :: rest)).errors (e :: rest) := by
  obtain ⟨template, faults, hfound, hfinish⟩ := (Reader.initial.run ts).exists_finish_eof
  have halone := (parse_of_ne_eof hts).trans (hfinish (.endOfText .first) rfl)
  have hwith := (parse_append_eof hts he rest).trans (hfinish e he)
  have hinside : ∀ x ∈ (Reader.initial.run ts).errors.reverse, ∃ t ∈ ts, x.IsAt t := by
    intro x hx
    rcases Reader.exists_isAt_of_mem_errors_run (List.mem_reverse.mp hx) with hnone | hfront
    · exact absurd hnone List.not_mem_nil
    · exact hfront
  have hinside_ne : ∀ x ∈ (Reader.initial.run ts).errors.reverse, x.fault.found ≠ .eof := by
    intro x hx
    obtain ⟨t, ht, -, hkind⟩ := hinside x hx
    exact hkind ▸ hts t ht
  refine ⟨?_, fun hfirst => ?_, ?_, statements_parse_append hts he rest⟩
  · have hkept : (Reader.initial.run ts).errors.reverse.map (SyntaxError.endingAt e.pos) =
        (Reader.initial.run ts).errors.reverse :=
      List.map_congr_left (fun x hx => SyntaxError.endingAt_of_ne (hinside_ne x hx) _)
        |>.trans (List.map_id _)
    have hmoved : (faults.map (⟨.first, ·⟩)).map (SyntaxError.endingAt e.pos) =
        faults.map (⟨e.pos, ·⟩) := by
      rw [List.map_map]
      exact List.map_congr_left fun fault hfault =>
        SyntaxError.endingAt_of_eof (e := ⟨.first, fault⟩) (hfound fault hfault) _
    rw [hwith, halone, List.map_append, hkept]
    exact congrArg _ (congrArg _ hmoved.symm)
  · rw [hwith, halone, hfirst]
    rfl
  · intro x hx
    rw [halone] at hx
    rcases List.mem_append.mp hx with hin | hlast
    · exact ⟨fun heof => absurd heof (hinside_ne x hin), fun _ => hinside x hin⟩
    · obtain ⟨fault, hfault, rfl⟩ := List.mem_map.mp hlast
      exact ⟨fun _ => rfl, fun hne => absurd (hfound fault hfault) hne⟩

end EndToken

/-- The tokens of `x {% if a %} {% set ) %} {{ b` and an end token on another line, with those of
`{% endif %}` behind it. The error at the parenthesis keeps its place; those for the output and for
the conditional, which is not closed behind the end, stand where the end token does. -/
theorem parse_append_end_openConditional :
    let tagOpen (n : Nat) : Token := ⟨.punctuation .tagOpen, "\x7b%", ⟨1, n⟩⟩
    let tagClose (n : Nat) : Token := ⟨.punctuation .tagClose, "%\x7d", ⟨1, n⟩⟩
    let word (w : Keyword) (n : Nat) : Token := ⟨.keyword w, w.spelling, ⟨1, n⟩⟩
    let name (x : String) (n : Nat) : Token := ⟨.ident, x, ⟨1, n⟩⟩
    let paren : Token := ⟨.punctuation .parenClose, ")", ⟨1, 21⟩⟩
    let conditional := [tagOpen 3, word .if_ 6, name "a" 9, tagClose 11]
    let assignment := [tagOpen 14, word .set 17, paren, tagClose 23]
    let output := [⟨.punctuation .outputOpen, "\x7b\x7b", ⟨1, 26⟩⟩, name "b" 29]
    let ts := name "x" 1 :: (conditional ++ assignment ++ output)
    let last : Token := .endOfText ⟨2, 1⟩
    let rest := [tagOpen 33, word .endif 36, tagClose 42]
    let errors (pos : Position) : List SyntaxError :=
      [⟨⟨1, 21⟩, .expected .ident (.punctuation .parenClose)⟩,
        ⟨pos, .expected (.punctuation .outputClose) .eof⟩,
        ⟨pos, .expected (.punctuation .tagOpen) .eof⟩]
    (∀ t ∈ ts, t.kind ≠ .eof) ∧ last.kind = .eof ∧
      parse ts = ⟨[.bare (.ident ⟨1, 1⟩ "x")], errors .first⟩ ∧
      parse (ts ++ last :: rest) = ⟨[.bare (.ident ⟨1, 1⟩ "x")], errors ⟨2, 1⟩⟩ := by
  intro tagOpen tagClose word name paren conditional assignment output ts last rest errors
  have hts : ∀ t ∈ ts, t.kind ≠ .eof := by decide
  have halone : parse ts = ⟨[.bare (.ident ⟨1, 1⟩ "x")], errors .first⟩ := rfl
  refine ⟨hts, rfl, halone, ?_⟩
  obtain ⟨happend, -⟩ := parse_append_end hts (e := last) rfl rest
  rw [happend, halone]
  rfl

end Templates
