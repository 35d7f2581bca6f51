import Templates.Proofs.Lexemes
import Templates.Proofs.ReaderErrors
import Templates.Proofs.TokenOrder

/-!
# Syntax errors come in the order of the text

Reading a token finds at most one error, at that token (`Reader.reports_step`), and a token is read
once. So the positions of the errors are those of some of the tokens, in their order, and then the
position of the end token, once for a statement that breaks off there and once for every construct
that is still open (`exists_positions_parse`). This holds for every list of tokens; `tokenize` gives
the tokens of a source text in the order of their positions.
-/

namespace Templates

/-- The errors of `Reader.run` are at some of its tokens, in their order. -/
theorem Reader.exists_positions_run (r : Reader) (ts : List Token) :
    ∃ us : List Token, us.Sublist ts ∧ (r.run ts).errors.map SyntaxError.pos =
      (us.map Token.pos).reverse ++ r.errors.map SyntaxError.pos := by
  induction ts generalizing r with
  | nil => exact ⟨[], .slnil, rfl⟩
  | cons t ts ih =>
    obtain ⟨us, hsub, hrun⟩ := ih (r.step t)
    have hstep : (r.run (t :: ts)).errors.map SyntaxError.pos =
        (us.map Token.pos).reverse ++ (r.step t).errors.map SyntaxError.pos := hrun
    rcases reports_step r t with hsame | ⟨fault, hnew⟩
    · exact ⟨us, hsub.cons t, by rw [hstep, hsame]⟩
    · exact ⟨t :: us, hsub.cons_cons t, by simp [hstep, hnew]⟩

/-- The errors of `parse` are at some of the tokens in front of the end token, in their order and at
most one at each, and then at the end token. -/
theorem exists_positions_parse (ts : List Token) :
    ∃ (us : List Token) (n : Nat), us.Sublist (ts.takeWhile (·.kind ≠ .eof)) ∧
      (parse ts).errors.map SyntaxError.pos =
        us.map Token.pos ++ List.replicate n (endToken ts).pos := by
  obtain ⟨us, hsub, hrun⟩ := Reader.initial.exists_positions_run (ts.takeWhile (·.kind ≠ .eof))
  have hinitial : Reader.initial.errors.map SyntaxError.pos = [] := rfl
  rw [hinitial, List.append_nil] at hrun
  generalize hr : Reader.initial.run (ts.takeWhile (·.kind ≠ .eof)) = r at hrun
  have hparse : parse ts = r.finish (endToken ts) := by rw [parse, Reader.readAll_eq, hr]
  have hopen : ∀ frames : List Frame, (frames.map fun _ => (⟨(endToken ts).pos,
      .expected (.punctuation .tagOpen) (endToken ts).kind⟩ : SyntaxError)).map SyntaxError.pos =
        List.replicate frames.length (endToken ts).pos := by
    intro frames
    rw [List.map_map]
    exact List.map_const'
  rw [hparse, Reader.finish, List.map_append, List.map_reverse, hopen]
  rcases Reader.reports_step r (endToken ts) with hsame | ⟨fault, hnew⟩
  · exact ⟨us, (r.step (endToken ts)).frames.length, hsub, by simp [hsame, hrun]⟩
  · refine ⟨us, (r.step (endToken ts)).frames.length + 1, hsub, ?_⟩
    simp [hnew, hrun, List.replicate_succ]

section Ordered

variable {ts : List Token} {last : Token}

theorem endToken_concat (hlast : last.kind = .eof) (hts : ∀ t ∈ ts, t.kind ≠ .eof) :
    endToken (ts ++ [last]) = last := by
  have hnone : ts.find? (·.kind = .eof) = none := List.find?_eq_none.mpr (by simpa using hts)
  rw [endToken, List.find?_append, hnone]
  simp [hlast]

/-- If the tokens are ordered by position, the positions of the errors grow strictly up to that of
the end token. -/
theorem pairwise_positions_parse (hlast : last.kind = .eof) (hts : ∀ t ∈ ts, t.kind ≠ .eof)
    (horder : (ts ++ [last]).Pairwise fun t u => t.pos < u.pos) :
    ((parse (ts ++ [last])).errors.map SyntaxError.pos).Pairwise
      fun p q => p < q ∨ p = q ∧ p = last.pos := by
  obtain ⟨us, n, hsub, hpos⟩ := exists_positions_parse (ts ++ [last])
  rw [takeWhile_ne_eof_concat hlast hts] at hsub
  obtain ⟨hincreasing, -, hbefore⟩ := List.pairwise_append.mp horder
  rw [hpos, endToken_concat hlast hts]
  refine List.pairwise_append.mpr ⟨?_, ?_, fun p hp q hq => ?_⟩
  · exact List.pairwise_map.mpr ((hincreasing.sublist hsub).imp Or.inl)
  · exact List.pairwise_replicate.mpr (Or.inr (Or.inr ⟨rfl, rfl⟩))
  · obtain ⟨t, ht, rfl⟩ := List.mem_map.mp hp
    rw [(List.mem_replicate.mp hq).2]
    exact Or.inl (hbefore t (hsub.subset ht) last (List.mem_singleton.mpr rfl))

theorem exists_isAt_of_mem_errors (hlast : last.kind = .eof) (hts : ∀ t ∈ ts, t.kind ≠ .eof) :
    ∀ e ∈ (parse (ts ++ [last])).errors, ∃ t ∈ ts ++ [last], e.IsAt t := by
  intro e he
  rcases exists_isAt_of_mem_errors_parse he with ⟨t, ht, hat⟩ | hat
  · rw [takeWhile_ne_eof_concat hlast hts] at ht
    exact ⟨t, List.mem_append_left _ ht, hat⟩
  · rw [endToken_concat hlast hts] at hat
    exact ⟨last, by simp, hat⟩

theorem exists_token_of_mem_errors (hlast : last.kind = .eof) (hts : ∀ t ∈ ts, t.kind ≠ .eof) :
    ∀ e ∈ (parse (ts ++ [last])).errors, ∃ t ∈ ts ++ [last], t.pos = e.pos := by
  intro e he
  obtain ⟨t, ht, hpos, -⟩ := exists_isAt_of_mem_errors hlast hts e he
  exact ⟨t, ht, hpos.symm⟩

end Ordered

/-- Every syntax error of a source text is at one of its tokens. The positions of the errors do not
decrease, and only errors at the end token can have the same one. -/
theorem pairwise_pos_errors (source : String) :
    (∀ e ∈ (parseSource source).errors, ∃ t ∈ tokenize source, t.pos = e.pos) ∧
      (parseSource source).errors.Pairwise (fun e e' => e.pos ≤ e'.pos) ∧
      (parseSource source).errors.Pairwise fun e e' =>
        e.pos = e'.pos → ∃ t ∈ tokenize source, t.kind = .eof ∧ t.pos = e.pos := by
  obtain ⟨ts, last, htokens, hlast, hts, -⟩ := exists_tokenize_eq_concat source
  have horder := pairwise_pos_tokenize source
  rw [htokens] at horder
  have hgrow := pairwise_positions_parse hlast hts horder
  rw [List.pairwise_map] at hgrow
  rw [parseSource, htokens]
  refine ⟨exists_token_of_mem_errors hlast hts, hgrow.imp ?_, hgrow.imp ?_⟩
  · rintro e e' (hlt | ⟨heq, -⟩)
    · exact Position.le_of_lt hlt
    · rw [heq]
      exact Position.le_refl _
  · rintro e e' (hlt | ⟨-, heq⟩) hsame
    · exact absurd hsame (Position.ne_of_lt hlt)
    · exact ⟨last, by simp, hlast, heq.symm⟩

end Templates
