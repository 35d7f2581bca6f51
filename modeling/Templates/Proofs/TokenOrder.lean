import Templates.Token.Piece

/-!
# Tokens come in the order of the text

Positions are ordered by lines and within a line by columns. `Position.after` of a text that is not
empty is a later position (`Position.lt_after`), so the pieces of a text follow each other, and so
do its tokens with the end token behind them (`pairwise_pos_tokenize`).
-/

namespace Templates

namespace Position

/-- One position comes before another: on an earlier line, or on the same line further left. -/
instance : LT Position := ⟨fun p q => p.line < q.line ∨ p.line = q.line ∧ p.column < q.column⟩

instance : LE Position := ⟨fun p q => p.line < q.line ∨ p.line = q.line ∧ p.column ≤ q.column⟩

variable {p q r : Position}

theorem lt_def : p < q ↔ p.line < q.line ∨ p.line = q.line ∧ p.column < q.column := Iff.rfl

theorem le_def : p ≤ q ↔ p.line < q.line ∨ p.line = q.line ∧ p.column ≤ q.column := Iff.rfl

theorem le_refl (p : Position) : p ≤ p := Or.inr ⟨rfl, Nat.le_refl _⟩

theorem le_of_lt (h : p < q) : p ≤ q := by
  rw [lt_def] at h
  rw [le_def]
  omega

theorem ne_of_lt (h : p < q) : p ≠ q := by
  rintro rfl
  rw [lt_def] at h
  omega

theorem lt_of_lt_of_le (hpq : p < q) (hqr : q ≤ r) : p < r := by
  rw [lt_def] at hpq ⊢
  rw [le_def] at hqr
  omega

theorem lt_of_le_of_lt (hpq : p ≤ q) (hqr : q < r) : p < r := by
  rw [lt_def] at hqr ⊢
  rw [le_def] at hpq
  omega

theorem lt_next (p : Position) (c : Char) : p < p.next c := by
  rw [lt_def]
  unfold next
  split
  · exact Or.inl (Nat.lt_succ_self _)
  · exact Or.inr ⟨rfl, Nat.lt_succ_self _⟩

theorem le_after (p : Position) (text : List Char) : p ≤ p.after text := by
  induction text generalizing p with
  | nil => exact p.le_refl
  | cons c cs ih => exact le_of_lt (lt_of_lt_of_le (p.lt_next c) (ih (p.next c)))

/-- Reading moves on with every character. -/
theorem lt_after (p : Position) {text : List Char} (h : text ≠ []) : p < p.after text := by
  cases text with
  | nil => exact absurd rfl h
  | cons c cs => exact lt_of_lt_of_le (p.lt_next c) (le_after _ cs)

end Position

/-- The pieces of a text are between its two ends. -/
theorem pos_of_mem_piecesFrom {pos : Position} {text : List Char} :
    ∀ p ∈ piecesFrom [] pos text, pos ≤ p.pos ∧ p.pos < pos.after text := by
  induction text using cut_induction generalizing pos with
  | nil => simp [piecesFrom]
  | cons c cs ih =>
    have hfirst : pos < pos.after (cut c cs).text := pos.lt_after (text_cut_ne_nil c cs)
    have hafter : pos.after (c :: cs) = (pos.after (cut c cs).text).after (cut c cs).rest := by
      rw [← Position.after_append, append_cut]
    rw [piecesFrom_cons, hafter]
    refine List.forall_mem_cons.mpr ⟨⟨pos.le_refl, ?_⟩, fun p hp => ?_⟩
    · exact Position.lt_of_lt_of_le hfirst (Position.le_after _ _)
    · obtain ⟨hle, hlt⟩ := ih p hp
      exact ⟨Position.le_of_lt (Position.lt_of_lt_of_le hfirst hle), hlt⟩

theorem pairwise_pos_piecesFrom (pos : Position) (text : List Char) :
    (piecesFrom [] pos text).Pairwise fun p q => p.pos < q.pos := by
  induction text using cut_induction generalizing pos with
  | nil => simp [piecesFrom]
  | cons c cs ih =>
    rw [piecesFrom_cons]
    refine List.pairwise_cons.mpr ⟨fun p hp => ?_, ih _⟩
    have hfirst : pos < pos.after (cut c cs).text := pos.lt_after (text_cut_ne_nil c cs)
    exact Position.lt_of_lt_of_le hfirst (pos_of_mem_piecesFrom p hp).1

theorem Piece.pos_of_token?_eq_some {p : Piece} {t : Token} (h : p.token? = some t) :
    t.pos = p.pos := by
  unfold token? at h
  split at h
  · cases h
    rfl
  · cases h

/-- The tokens of a source text are strictly ordered by position, the end token last. -/
theorem pairwise_pos_tokenize (source : String) :
    (tokenize source).Pairwise fun t u => t.pos < u.pos := by
  rw [tokenize_eq]
  refine List.pairwise_append.mpr ⟨?_, List.pairwise_singleton _ _, fun t ht e he => ?_⟩
  · refine List.pairwise_filterMap.mpr ?_
    refine (pairwise_pos_piecesFrom .first source.toList).imp fun hlt t ht u hu => ?_
    rw [Piece.pos_of_token?_eq_some ht, Piece.pos_of_token?_eq_some hu]
    exact hlt
  · obtain ⟨p, hp, ht⟩ := List.mem_filterMap.mp ht
    rw [List.mem_singleton.mp he, Piece.pos_of_token?_eq_some ht]
    exact (pos_of_mem_piecesFrom p hp).2

end Templates
