import Templates.Proofs.ReaderInvariant
import Templates.Proofs.TextLexemes

/-!
# What is read can be written

The names and numbers of a template come from tokens, and the tokens of a source text have names and
digits for their literals (`Lexeme.Genuine`). So every statement that is read from a text is
`Spellable`, whatever errors were found around it (`bodySpellable_parseSource`).

`Reader.Spellable` is the invariant: all that a reader holds is spellable, the parts of statements
that are not complete yet included. Each operation of the reader has a lemma of its own.
-/

namespace Templates

theorem bodySpellable_iff {body : List Stmt} : BodySpellable body ↔ ∀ s ∈ body, s.Spellable := by
  induction body with
  | nil => simp [BodySpellable]
  | cons s ss ih => simp [BodySpellable, ih]

theorem bodySpellable_reverse {body : List Stmt} (h : BodySpellable body) :
    BodySpellable body.reverse := by
  rw [bodySpellable_iff] at h ⊢
  intro s hs
  exact h s (List.mem_reverse.mp hs)

/-! ## Expressions -/

/-- The operand that waits can be written. -/
def Pending.Spellable : Pending → Prop
  | binary _ _ left => left.Spellable
  | unary .. | paren => True

namespace ExprReader

/-- All that the reader holds can be written. -/
def Spellable : ExprReader → Prop
  | operand pending => ∀ p ∈ pending, p.Spellable
  | name pending _ _ x | complete pending x => (∀ p ∈ pending, p.Spellable) ∧ x.Spellable

end ExprReader

theorem spellable_settle (bound : Precedence) {pending : List Pending} {x : Expr}
    (hp : ∀ p ∈ pending, p.Spellable) (hx : x.Spellable) :
    (∀ p ∈ (settle bound pending x).1, p.Spellable) ∧ (settle bound pending x).2.Spellable := by
  fun_induction settle bound pending x with
  | case1 pos op pending x ih => exact ih (List.forall_mem_cons.mp hp).2 hx
  | case2 pos op left pending x hle ih =>
    obtain ⟨hleft, hrest⟩ := List.forall_mem_cons.mp hp
    exact ih hrest ⟨hleft, hx⟩
  | case3 pos op left pending x hle => exact ⟨hp, hx⟩
  | case4 pending x => exact ⟨hp, hx⟩

theorem Link.spellable_build (k : Link) (pos : Position) {x : Expr} {name : String}
    (hx : x.Spellable) (hname : IsName name) : (k.build pos x name).Spellable := by
  cases k <;> exact ⟨hx, hname⟩

namespace ExprReader

variable {pending : List Pending} {x : Expr} {t : Token} {r r' : ExprReader}

theorem spellable_start : start.Spellable := by simp [start, Spellable]

theorem isName_of_fits (ht : t.lexeme.Fits) (hk : t.kind = .ident) : IsName t.literal := by
  simpa [Lexeme.Fits, Token.lexeme, hk] using ht

theorem spellable_atom (ht : t.lexeme.Fits) (hx : Atom t x) : x.Spellable := by
  cases hx with
  | ident hk => exact isName_of_fits ht hk
  | int hk hn =>
    have hdigits : ∀ c ∈ t.literal.toList, c.isDigit = true := by
      simpa [Lexeme.Fits, Token.lexeme, hk] using ht
    exact IntLiteral.zero_le_of_value?_eq_some hdigits hn
  | _ => trivial

theorem spellable_readOperand (hp : ∀ p ∈ pending, p.Spellable) (ht : t.lexeme.Fits)
    (h : readOperand pending t = .ok r) : r.Spellable := by
  rcases readOperand_cases h with ⟨x, hx, rfl⟩ | ⟨op, -, rfl⟩ | ⟨-, rfl⟩
  · exact ⟨hp, spellable_atom ht hx⟩
  · exact List.forall_mem_cons.mpr ⟨trivial, hp⟩
  · exact List.forall_mem_cons.mpr ⟨trivial, hp⟩

theorem spellable_join (hp : ∀ p ∈ pending, p.Spellable) (hx : x.Spellable) (pos : Position)
    (j : Joint) : (join pending x pos j).Spellable := by
  obtain ⟨hp', hx'⟩ := spellable_settle j.precedence hp hx
  cases j with
  | link l => exact ⟨hp', hx'⟩
  | binary op => exact List.forall_mem_cons.mpr ⟨hx', hp'⟩

theorem spellable_readJoint (hp : ∀ p ∈ pending, p.Spellable) (hx : x.Spellable) :
    (∀ r', readJoint pending x t = .more r' → r'.Spellable) ∧
      ∀ y, readJoint pending x t = .done y → y.Spellable := by
  obtain ⟨hp', hx'⟩ := spellable_settle .lowest hp hx
  unfold readJoint
  split
  · next j _ =>
    refine ⟨fun r' h => ?_, fun y h => by cases h⟩
    cases h
    exact spellable_join hp hx t.pos j
  · split
    · next y hsettle =>
      rw [hsettle] at hx'
      refine ⟨fun r' h => by (cases h), fun y h => ?_⟩
      cases h
      exact hx'
    · next p pending' y hsettle =>
      rw [hsettle] at hp' hx'
      split
      · refine ⟨fun r' h => ?_, fun y h => by cases h⟩
        cases h
        exact ⟨(List.forall_mem_cons.mp hp').2, hx'⟩
      · exact ⟨fun r' h => by (cases h), fun y h => by cases h⟩

theorem Spellable.more (h : r.Spellable) (ht : t.lexeme.Fits) (hs : r.step t = .more r') :
    r'.Spellable := by
  cases r with
  | operand pending => exact spellable_readOperand h ht (inside_eq_more hs)
  | name pending pos link x =>
    have hread := inside_eq_more hs
    unfold readName at hread
    split at hread
    · next hk =>
      cases hread
      exact ⟨h.1, link.spellable_build pos h.2 (isName_of_fits ht hk)⟩
    · cases hread
  | complete pending x => exact (spellable_readJoint h.1 h.2).1 r' hs

theorem Spellable.done (h : r.Spellable) (hs : r.step t = .done x) : x.Spellable := by
  cases r with
  | complete pending y => exact (spellable_readJoint h.1 h.2).2 x hs
  | operand pending => exact absurd hs inside_ne_done
  | name pending pos link y => exact absurd hs inside_ne_done

end ExprReader

/-! ## Statements -/

def Branch.Spellable (b : Branch) : Prop := b.condition.Spellable ∧ BodySpellable b.body

/-- The parts of the construct can be written. -/
def Construct.Spellable : Construct → Prop
  | cond _ earlier condition => (∀ b ∈ earlier, b.Spellable) ∧ condition.Spellable
  | otherwise _ earlier last => (∀ b ∈ earlier, b.Spellable) ∧ last.Spellable
  | loop _ item sequence => IsName item.text ∧ sequence.Spellable
  | block _ name => ∀ n ∈ name, IsName n.text

/-- The names in front of the expression can be written. -/
def Purpose.Spellable : Purpose → Prop
  | bare | output _ => True
  | set _ name => IsName name.text
  | cond _ earlier => ∀ b ∈ earlier, b.Spellable
  | loop _ item => IsName item.text

/-- The statement that the tag completes can be written. -/
def TagEffect.Spellable : TagEffect → Prop
  | add s => s.Spellable
  | enter c => c.Spellable

/-- The parts of the statement at hand can be written. -/
def Mode.Spellable : Mode → Prop
  | setSign _ name | loopIn _ name => IsName name.text
  | expr purpose reader => purpose.Spellable ∧ reader.Spellable
  | close effect => effect.Spellable
  | start | skip | tag _ | setName _ | loopName _ | blockName _ => True

/-- All that the frame holds can be written. -/
def Frame.Spellable (f : Frame) : Prop := f.construct.Spellable ∧ BodySpellable f.before

/-- All that the reader holds can be written. -/
structure Reader.Spellable (r : Reader) : Prop where
  mode : r.mode.Spellable
  body : BodySpellable r.body
  frames : ∀ f ∈ r.frames, f.Spellable

theorem Construct.spellable_conditional (pos : Position) {rest : Branches} {last : Branch}
    {earlier : List Branch} (hrest : rest.Spellable) (hlast : last.Spellable)
    (hearlier : ∀ b ∈ earlier, b.Spellable) : (conditional pos rest last earlier).Spellable := by
  induction earlier generalizing rest last with
  | nil => exact ⟨hlast.1, hlast.2, hrest⟩
  | cons b earlier ih =>
    obtain ⟨hb, hearlier⟩ := List.forall_mem_cons.mp hearlier
    exact ih ⟨hlast.1, hlast.2, hrest⟩ hb hearlier

theorem Construct.spellable_complete {c : Construct} {body : List Stmt} (hc : c.Spellable)
    (hbody : BodySpellable body) : (c.complete body).Spellable := by
  cases c with
  | cond pos earlier x => exact spellable_conditional pos trivial ⟨hc.2, hbody⟩ hc.1
  | otherwise pos earlier last => exact spellable_conditional pos hbody hc.2 hc.1
  | loop pos item x => exact ⟨hc.1, hc.2, hbody⟩
  | block pos name => exact ⟨hc, hbody⟩

theorem Construct.spellable_resume {c : Construct} {word : Keyword} {body : List Stmt} {mode : Mode}
    (hc : c.Spellable) (hbody : BodySpellable body) (h : c.resume word body = .ok mode) :
    mode.Spellable := by
  unfold resume at h
  split at h
  · cases h
    exact ⟨List.forall_mem_cons.mpr ⟨⟨hc.2, hbody⟩, hc.1⟩, ExprReader.spellable_start⟩
  · cases h
    exact ⟨hc.1, hc.2, hbody⟩
  · split at h
    · cases h
      exact spellable_complete hc hbody
    · cases h

theorem Purpose.spellable_effect {purpose : Purpose} {x : Expr} {closer : Punctuation}
    {effect : TagEffect} (hp : purpose.Spellable) (hx : x.Spellable)
    (h : purpose.effect? x = some (closer, effect)) : effect.Spellable := by
  cases purpose with
  | bare => cases h
  | output pos =>
    cases h
    exact hx
  | _ =>
    cases h
    exact ⟨hp, hx⟩

namespace Reader

variable {r : Reader} {t : Token}

theorem spellable_initial : initial.Spellable := ⟨trivial, trivial, by simp [initial]⟩

theorem spellable_opening {mode : Mode} (h : opening? t = some mode) : mode.Spellable := by
  unfold opening? at h
  split at h
  · cases h
    trivial
  · cases h
    exact ⟨trivial, ExprReader.spellable_start⟩
  · cases h

theorem Spellable.withMode (h : r.Spellable) {mode : Mode} (hm : mode.Spellable) :
    { r with mode := mode }.Spellable := ⟨hm, h.body, h.frames⟩

theorem Spellable.seek (h : r.Spellable) (t : Token) : (r.seek t).Spellable := by
  unfold Reader.seek
  split
  · next mode hmode => exact h.withMode (spellable_opening hmode)
  · split <;> exact h.withMode trivial

/-- A statement that is given up leaves the complete ones as they are. -/
theorem Spellable.fail (h : r.Spellable) (fault : SyntaxFault) (t : Token) :
    (r.fail fault t).Spellable :=
  Spellable.seek (r := { r with errors := ⟨t.pos, fault⟩ :: r.errors }) ⟨h.mode, h.body, h.frames⟩ t

theorem Spellable.beginStatement (h : r.Spellable) (ht : t.lexeme.Fits) :
    (r.beginStatement t).Spellable := by
  unfold Reader.beginStatement
  split
  · next mode hmode => exact h.withMode (spellable_opening hmode)
  · split
    · exact h.withMode trivial
    · split
      · next reader hread =>
        exact h.withMode ⟨trivial, ExprReader.spellable_readOperand (by simp) ht hread⟩
      · exact h.fail _ t

theorem Spellable.apply (h : r.Spellable) {effect : TagEffect} (he : effect.Spellable) :
    (r.apply effect).Spellable := by
  cases effect with
  | add s => exact ⟨trivial, ⟨he, h.body⟩, h.frames⟩
  | enter c => exact ⟨trivial, trivial, List.forall_mem_cons.mpr ⟨⟨he, h.body⟩, h.frames⟩⟩

theorem Spellable.expect (h : r.Spellable) {wanted : TokenKind} {next : Reader}
    (hnext : t.kind = wanted → next.Spellable) : (r.expect wanted t next).Spellable := by
  unfold Reader.expect
  split
  · next hk => exact hnext hk
  · exact h.fail _ t

theorem Spellable.leave (h : r.Spellable) (word : Keyword) (t : Token) :
    (r.leave word t).Spellable := by
  unfold Reader.leave
  split
  · exact h.fail _ t
  · next f frames hframes =>
    obtain ⟨hf, hrest⟩ := List.forall_mem_cons.mp (hframes ▸ h.frames)
    have houter : Spellable { r with body := f.before, frames := frames } := ⟨h.mode, hf.2, hrest⟩
    split
    · next mode hresume =>
      exact houter.withMode (Construct.spellable_resume hf.1 (bodySpellable_reverse h.body) hresume)
    · exact houter.fail _ t

theorem Spellable.readTag (h : r.Spellable) (pos : Position) (t : Token) :
    (r.readTag pos t).Spellable := by
  unfold Reader.readTag
  split
  · exact h.withMode trivial
  · exact h.withMode ⟨by simp [Purpose.Spellable], ExprReader.spellable_start⟩
  · exact h.withMode trivial
  · exact h.withMode trivial
  · split
    · exact h.leave _ t
    · exact h.fail _ t
  · exact h.fail _ t

theorem Spellable.readExpr (h : r.Spellable) {purpose : Purpose} {reader : ExprReader}
    (hp : purpose.Spellable) (hr : reader.Spellable) (ht : t.lexeme.Fits) :
    (r.readExpr purpose reader t).Spellable := by
  unfold Reader.readExpr
  split
  · next reader' hmore => exact h.withMode ⟨hp, hr.more ht hmore⟩
  · next x hdone =>
    have hx := hr.done hdone
    unfold finishExpr
    split
    · exact Spellable.beginStatement (r := { r with body := .bare x :: r.body })
        ⟨h.mode, ⟨hx, h.body⟩, h.frames⟩ ht
    · next closer effect heffect =>
      exact h.expect fun _ => h.apply (Purpose.spellable_effect hp hx heffect)
  · exact h.fail _ t

/-- A step keeps the invariant, whether it finds an error or not. -/
theorem Spellable.step (h : r.Spellable) (ht : t.lexeme.Fits) : (r.step t).Spellable := by
  have hm := h.mode
  have hname (hk : t.kind = .ident) : IsName t.literal := ExprReader.isName_of_fits ht hk
  unfold Reader.step
  split
  · exact h.beginStatement ht
  · exact h.seek t
  · exact h.readTag _ t
  · exact h.expect fun hk => h.withMode (hname hk)
  · next pos name hmode =>
    rw [hmode] at hm
    exact h.expect fun _ => h.withMode ⟨hm, ExprReader.spellable_start⟩
  · exact h.expect fun hk => h.withMode (hname hk)
  · next pos name hmode =>
    rw [hmode] at hm
    exact h.expect fun _ => h.withMode ⟨hm, ExprReader.spellable_start⟩
  · split
    · next hk =>
      refine h.withMode fun n hn => ?_
      cases hn
      exact hname hk
    · exact h.expect fun _ => h.apply fun n hn => by cases hn
  · next purpose reader hmode =>
    rw [hmode] at hm
    exact h.readExpr hm.1 hm.2 ht
  · next effect hmode =>
    rw [hmode] at hm
    exact h.expect fun _ => h.apply hm

theorem Spellable.run {ts : List Token} (h : r.Spellable) (hts : ∀ t ∈ ts, t.lexeme.Fits) :
    (r.run ts).Spellable := by
  induction ts generalizing r with
  | nil => exact h
  | cons t ts ih =>
    obtain ⟨ht, hts⟩ := List.forall_mem_cons.mp hts
    exact ih (h.step ht) hts

/-- The statements at the end can be written, also if constructs are still open. -/
theorem Spellable.finish (h : r.Spellable) {last : Token} (hlast : last.lexeme.Fits) :
    BodySpellable (r.finish last).template := by
  have hstep := h.step hlast
  refine bodySpellable_reverse ?_
  -- The statements in front of the outermost open construct remain; with none open, the whole body.
  cases hframe : (r.step last).frames.getLast? with
  | none => exact hstep.body
  | some f => exact (hstep.frames f (List.mem_of_getLast? hframe)).2

end Reader

/-- The template of a source text is `BodySpellable`, whatever errors the text has. -/
theorem bodySpellable_parseSource (source : String) :
    BodySpellable (parseSource source).template := by
  have hlexemes := map_lexeme_takeWhile_tokenize source
  have hfits : ∀ t ∈ (tokenize source).takeWhile (·.kind ≠ .eof), t.lexeme.Fits := by
    intro t ht
    exact (genuine_of_mem_lexemes t.lexeme (hlexemes ▸ List.mem_map_of_mem ht)).1
  have hlast : (endToken (tokenize source)).lexeme.Fits := by
    simp [Lexeme.Fits, Token.lexeme, kind_endToken]
  rw [parseSource, parse, Reader.readAll_eq]
  exact (Reader.spellable_initial.run hfits).finish hlast

end Templates
