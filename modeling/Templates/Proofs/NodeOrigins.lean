import Mathlib.Data.List.Basic
import Templates.Proofs.ErrorOrder
import Templates.Proofs.ExprReading

/-!
# Every node points at its token

A node of a tree has the position of the token that it was built from. `bodyOrigins` lists these
positions in the order of the text, each with what the node tells of its token (`Origin`); a bare
expression has no position but that of its expression, so it is listed once.

The reader holds the parts of a tree before they are put together. The origins in all that it holds
are a sublist of the tokens so far (`Reader.origins_step`): a token is added at the end or not at
all, putting parts together moves nothing, and a statement that is given up only takes something
away. So the origins of the template at the end are a sublist of the tokens as well, whatever errors
the text has (`origins_parseSource`).
-/

namespace Templates

/-! ## Origins -/

/-- The part of a token that its node shows. -/
inductive Gist
  /-- It is a name. -/
  | name (text : String)
  /-- It is a number; `none` if it does not fit into 64 bits. -/
  | number (value : Option Int64)
  /-- It is a string literal. -/
  | string (value : String)
  /-- It is of a kind that has only one spelling. -/
  | sign (kind : TokenKind)
  deriving DecidableEq

/-- The position of the token that a node was built from, and the part of it that the node shows. -/
structure Origin where
  pos : Position
  gist : Gist
  deriving DecidableEq

/-- The origin of a node that is built from the token. -/
def Token.origin (t : Token) : Origin where
  pos := t.pos
  gist :=
    match t.kind with
    | .ident => .name t.literal
    | .int => .number (IntLiteral.value? t.literal)
    | .string => .string t.literal
    | kind => .sign kind

/-- The sign of the operator that takes a name on its right. -/
def Link.origin (pos : Position) (k : Link) : Origin := ⟨pos, .sign (.operator k.sign)⟩

/-- The origins of the nodes of an expression: the left operand, the operator, the right operand. -/
def Expr.origins : Expr → List Origin
  | ident pos name => [⟨pos, .name name⟩]
  | int pos value => [⟨pos, .number (some value)⟩]
  | str pos value => [⟨pos, .string value⟩]
  | bool pos value => [⟨pos, .sign (.keyword (if value then .true_ else .false_))⟩]
  | null pos => [⟨pos, .sign (.keyword .null)⟩]
  | unary pos op x => ⟨pos, .sign (.operator op.sign)⟩ :: x.origins
  | binary pos op l r => l.origins ++ ⟨pos, .sign (.operator op.sign)⟩ :: r.origins
  | attr pos x _ => x.origins ++ [⟨pos, .sign (.operator .dot)⟩]
  | filter pos x _ => x.origins ++ [⟨pos, .sign (.operator .pipe)⟩]

/-- The origin of a name that a tag introduces. -/
def Name.origin (n : Name) : Origin := ⟨n.pos, .name n.text⟩

/-- The origin of a statement with a statement tag. -/
def tagOrigin (pos : Position) : Origin := ⟨pos, .sign (.punctuation .tagOpen)⟩

/-- The origin of a statement that writes a value. -/
def outputOrigin (pos : Position) : Origin := ⟨pos, .sign (.punctuation .outputOpen)⟩

mutual

/-- The origins of a statement and its parts: the opening delimiter, the name, the expression, the
bodies. -/
def Stmt.origins : Stmt → List Origin
  | .set pos name value => tagOrigin pos :: name.origin :: value.origins
  | .cond pos condition body rest =>
    tagOrigin pos :: (condition.origins ++ (bodyOrigins body ++ rest.origins))
  | .loop pos item sequence body =>
    tagOrigin pos :: item.origin :: (sequence.origins ++ bodyOrigins body)
  | .block pos name body => tagOrigin pos :: (name.toList.map Name.origin ++ bodyOrigins body)
  | .output pos value => outputOrigin pos :: value.origins
  | .bare value => value.origins

/-- The origins in the branches of a conditional behind one of them. -/
def Branches.origins : Branches → List Origin
  | .done => []
  | .otherwise body => bodyOrigins body
  | .elseIf condition body rest => condition.origins ++ (bodyOrigins body ++ rest.origins)

/-- The origins in a body. -/
def bodyOrigins : List Stmt → List Origin
  | [] => []
  | s :: ss => s.origins ++ bodyOrigins ss

end

@[simp] theorem bodyOrigins_append (body body' : List Stmt) :
    bodyOrigins (body ++ body') = bodyOrigins body ++ bodyOrigins body' := by
  induction body with
  | nil => rfl
  | cons s ss ih => rw [List.cons_append, bodyOrigins, ih, bodyOrigins, List.append_assoc]

theorem bodyOrigins_reverse_cons (s : Stmt) (body : List Stmt) :
    bodyOrigins (s :: body).reverse = bodyOrigins body.reverse ++ s.origins := by
  rw [List.reverse_cons, bodyOrigins_append, bodyOrigins, bodyOrigins, List.append_nil]

/-! ## Expressions that are being read -/

/-- The origins in an operation that waits for its right operand. -/
def Pending.origins : Pending → List Origin
  | unary pos op => [⟨pos, .sign (.operator op.sign)⟩]
  | binary pos op left => left.origins ++ [⟨pos, .sign (.operator op.sign)⟩]
  | paren => []

/-- The origins in a stack of operations, innermost last. -/
def pendingOrigins : List Pending → List Origin
  | [] => []
  | p :: pending => pendingOrigins pending ++ p.origins

/-- Completing operations moves nothing. -/
theorem origins_settle (bound : Precedence) (pending : List Pending) (x : Expr) :
    pendingOrigins (settle bound pending x).1 ++ (settle bound pending x).2.origins =
      pendingOrigins pending ++ x.origins := by
  fun_induction settle bound pending x with
  | case1 pos op pending x ih => simp [ih, pendingOrigins, Pending.origins, Expr.origins]
  | case2 pos op left pending x hle ih => simp [ih, pendingOrigins, Pending.origins, Expr.origins]
  | case3 => rfl
  | case4 => rfl

theorem Link.origins_build (pos : Position) (x : Expr) (name : String) (k : Link) :
    (k.build pos x name).origins = x.origins ++ [k.origin pos] := by
  cases k <;> rfl

theorem Atom.origins_eq {t : Token} {x : Expr} (h : Atom t x) : x.origins = [t.origin] := by
  cases h <;> simp_all [Expr.origins, Token.origin]

theorem Token.origin_eq_sign {t : Token} {kind : TokenKind} (h : t.kind = kind)
    (hsign : kind ≠ .ident ∧ kind ≠ .int ∧ kind ≠ .string) : t.origin = ⟨t.pos, .sign kind⟩ := by
  subst h
  unfold origin
  split <;> simp_all

theorem Token.origin_operator {t : Token} {o : Operator} (h : t.kind = .operator o) :
    t.origin = ⟨t.pos, .sign (.operator o)⟩ := origin_eq_sign h (by simp)

namespace ExprReader

/-- The origins in all that the reader holds. -/
def origins : ExprReader → List Origin
  | operand pending => pendingOrigins pending
  | name pending pos k x => pendingOrigins pending ++ (x.origins ++ [k.origin pos])
  | complete pending x => pendingOrigins pending ++ x.origins

variable {pending : List Pending} {x : Expr} {t : Token} {r r' : ExprReader}

/-- A parenthesis leaves no origin, every other token that an operand begins with does. -/
theorem origins_readOperand (h : readOperand pending t = .ok r) :
    r.origins.Sublist (pendingOrigins pending ++ [t.origin]) := by
  rcases readOperand_cases h with ⟨x, hx, rfl⟩ | ⟨op, hop, rfl⟩ | ⟨-, rfl⟩
  · rw [origins, hx.origins_eq]
  · rw [origins, pendingOrigins, Pending.origins, Token.origin_operator hop]
  · simp only [origins, pendingOrigins, Pending.origins, List.append_nil]
    exact List.sublist_append_left _ _

theorem origins_join (pending : List Pending) (x : Expr) (pos : Position) (j : Joint) :
    (join pending x pos j).origins =
      pendingOrigins pending ++ x.origins ++ [⟨pos, .sign (.operator j.sign)⟩] := by
  have hsettle := origins_settle j.precedence pending x
  cases j with
  | link k =>
    rw [← hsettle, Joint.sign_link]
    exact (List.append_assoc _ _ _).symm
  | binary op =>
    rw [← hsettle]
    exact (List.append_assoc _ _ _).symm

theorem origins_readJoint_more (h : readJoint pending x t = .more r) :
    r.origins.Sublist (pendingOrigins pending ++ x.origins ++ [t.origin]) := by
  unfold readJoint at h
  split at h
  · next j hj =>
    cases h
    rw [origins_join, Token.origin_operator (Joint.kind_of_ofKind?_eq_some hj)]
  · have hsettle := origins_settle .lowest pending x
    split at h
    · cases h
    · next p pending' y hpending =>
      split at h
      · cases h
        rw [hpending] at hsettle
        rw [← hsettle, origins, pendingOrigins, List.append_assoc, List.append_assoc]
        refine (List.Sublist.refl _).append ?_
        exact (List.sublist_append_left _ _).trans (List.sublist_append_right _ _)
      · cases h

theorem origins_readJoint_done {y : Expr} (h : readJoint pending x t = .done y) :
    y.origins = pendingOrigins pending ++ x.origins := by
  unfold readJoint at h
  split at h
  · cases h
  · have hsettle := origins_settle .lowest pending x
    split at h
    · next y' hpending =>
      cases h
      rw [hpending] at hsettle
      exact hsettle
    · split at h <;> cases h

theorem origins_more (h : r.step t = .more r') :
    r'.origins.Sublist (r.origins ++ [t.origin]) := by
  cases r with
  | operand pending => exact origins_readOperand (inside_eq_more h)
  | name pending pos k x =>
    have hread := inside_eq_more h
    unfold readName at hread
    split at hread
    · cases hread
      have horigins : (complete pending (k.build pos x t.literal)).origins =
          (name pending pos k x).origins :=
        congrArg (pendingOrigins pending ++ ·) (Link.origins_build pos x t.literal k)
      rw [horigins]
      exact List.sublist_append_left _ _
    · cases hread
  | complete pending x => exact origins_readJoint_more h

theorem origins_done (h : r.step t = .done x) : x.origins = r.origins := by
  cases r with
  | complete pending y => exact origins_readJoint_done h
  | operand pending => exact absurd h inside_ne_done
  | name pending pos k y => exact absurd h inside_ne_done

end ExprReader

/-! ## Constructs that are being read -/

/-- The origins in the branches of a conditional, given last first. -/
def earlierOrigins : List Branch → List Origin
  | [] => []
  | b :: earlier => earlierOrigins earlier ++ (b.condition.origins ++ bodyOrigins b.body)

/-- The origins in what is known of a construct. -/
def Construct.origins : Construct → List Origin
  | cond pos earlier condition => tagOrigin pos :: (earlierOrigins earlier ++ condition.origins)
  | otherwise pos earlier last => tagOrigin pos :: earlierOrigins (last :: earlier)
  | loop pos item sequence => tagOrigin pos :: item.origin :: sequence.origins
  | block pos name => tagOrigin pos :: name.toList.map Name.origin

/-- The origins in front of an expression for this purpose. -/
def Purpose.origins : Purpose → List Origin
  | bare => []
  | output pos => [outputOrigin pos]
  | set pos name => [tagOrigin pos, name.origin]
  | cond pos earlier => tagOrigin pos :: earlierOrigins earlier
  | loop pos item => [tagOrigin pos, item.origin]

/-- The origins in what a tag completes. -/
def TagEffect.origins : TagEffect → List Origin
  | add s => s.origins
  | enter c => c.origins

/-- The origins in what is known of the statement at hand. -/
def Mode.origins : Mode → List Origin
  | start | skip => []
  | tag pos | setName pos | loopName pos | blockName pos => [tagOrigin pos]
  | setSign pos name | loopIn pos name => [tagOrigin pos, name.origin]
  | expr purpose reader => purpose.origins ++ reader.origins
  | close effect => effect.origins

/-- The origins in open constructs and the statements in front of them, innermost last. -/
def frameOrigins : List Frame → List Origin
  | [] => []
  | f :: frames => frameOrigins frames ++ (bodyOrigins f.before.reverse ++ f.construct.origins)

/-- The origins in front of the statement at hand. -/
def Reader.originsBefore (r : Reader) : List Origin :=
  frameOrigins r.frames ++ bodyOrigins r.body.reverse

/-- The origins in all that the reader holds. -/
def Reader.origins (r : Reader) : List Origin := r.originsBefore ++ r.mode.origins

theorem Construct.origins_conditional (pos : Position) (rest : Branches) (last : Branch)
    (earlier : List Branch) : (conditional pos rest last earlier).origins =
      tagOrigin pos :: (earlierOrigins (last :: earlier) ++ rest.origins) := by
  induction earlier generalizing rest last with
  | nil => simp [conditional, Stmt.origins, earlierOrigins]
  | cons b earlier ih => simp [conditional, ih, earlierOrigins, Branches.origins]

theorem Construct.origins_complete (c : Construct) (body : List Stmt) :
    (c.complete body).origins = c.origins ++ bodyOrigins body := by
  cases c with
  | cond pos earlier x =>
    simp [complete, origins_conditional, origins, earlierOrigins, Branches.origins]
  | otherwise pos earlier last => simp [complete, origins_conditional, origins, Branches.origins]
  | loop pos item x => simp [complete, origins, Stmt.origins]
  | block pos name => simp [complete, origins, Stmt.origins]

theorem Construct.origins_resume {c : Construct} {word : Keyword} {body : List Stmt} {mode : Mode}
    (h : c.resume word body = .ok mode) : mode.origins = c.origins ++ bodyOrigins body := by
  unfold resume at h
  split at h
  · cases h
    simp [Mode.origins, Purpose.origins, earlierOrigins, origins, ExprReader.start,
      ExprReader.origins, pendingOrigins]
  · cases h
    simp [Mode.origins, TagEffect.origins, origins, earlierOrigins]
  · split at h
    · cases h
      exact origins_complete c body
    · cases h

theorem Purpose.origins_effect {purpose : Purpose} {x : Expr} {closer : Punctuation}
    {effect : TagEffect} (h : purpose.effect? x = some (closer, effect)) :
    effect.origins = purpose.origins ++ x.origins := by
  cases purpose with
  | bare => cases h
  | _ =>
    cases h
    rfl

/-! ## Readers -/

namespace Reader

variable {r : Reader} {t : Token}

theorem origins_opening {mode : Mode} (h : opening? t = some mode) : mode.origins = [t.origin] := by
  unfold opening? at h
  split at h
  · next hk =>
    cases h
    rw [Token.origin_eq_sign hk (by simp)]
    rfl
  · next hk =>
    cases h
    rw [Token.origin_eq_sign hk (by simp)]
    rfl
  · cases h

/-- A statement that is given up takes its origins with it. -/
theorem origins_seek (r : Reader) (t : Token) :
    (r.seek t).origins.Sublist (r.originsBefore ++ [t.origin]) := by
  unfold seek
  split
  · next mode hmode =>
    rw [← origins_opening hmode]
    exact List.Sublist.refl _
  · split
    · exact (List.Sublist.refl _).append (List.nil_sublist _)
    · exact (List.Sublist.refl _).append (List.nil_sublist _)

theorem origins_fail (r : Reader) (fault : SyntaxFault) (t : Token) :
    (r.fail fault t).origins.Sublist (r.originsBefore ++ [t.origin]) := origins_seek _ t

theorem origins_beginStatement (r : Reader) (t : Token) :
    (r.beginStatement t).origins.Sublist (r.originsBefore ++ [t.origin]) := by
  unfold beginStatement
  split
  · next mode hmode =>
    rw [← origins_opening hmode]
    exact List.Sublist.refl _
  · split
    · exact (List.Sublist.refl _).append (List.nil_sublist _)
    · split
      · next reader hread =>
        exact (List.Sublist.refl _).append (ExprReader.origins_readOperand hread)
      · exact origins_fail r _ t

theorem origins_apply (r : Reader) (effect : TagEffect) :
    (r.apply effect).origins = r.originsBefore ++ effect.origins := by
  cases effect with
  | add s => simp [apply, origins, originsBefore, bodyOrigins, Mode.origins, TagEffect.origins]
  | enter c => simp [apply, origins, originsBefore, frameOrigins, bodyOrigins, Mode.origins,
      TagEffect.origins]

theorem sublist_origins {os : List Origin} (h : os.Sublist (r.originsBefore ++ [t.origin])) :
    os.Sublist (r.origins ++ [t.origin]) :=
  h.trans ((List.sublist_append_left _ _).append (List.Sublist.refl _))

theorem origins_expect {next : Reader} {wanted : TokenKind}
    (h : t.kind = wanted → next.origins.Sublist (r.origins ++ [t.origin])) :
    (r.expect wanted t next).origins.Sublist (r.origins ++ [t.origin]) := by
  unfold expect
  split
  · next hk => exact h hk
  · exact sublist_origins (origins_fail r _ t)

/-- The opening delimiter of a tag that goes on with a construct is no origin of a node. -/
theorem origins_leave (r : Reader) (word : Keyword) (t : Token) :
    (r.leave word t).origins.Sublist (r.originsBefore ++ [t.origin]) := by
  unfold leave
  split
  · exact origins_fail r _ t
  · next f frames hframes =>
    have hbefore : r.originsBefore =
        frameOrigins frames ++ bodyOrigins f.before.reverse ++
          (f.construct.origins ++ bodyOrigins r.body.reverse) := by
      simp [originsBefore, hframes, frameOrigins]
    rw [hbefore]
    split
    · next mode hresume =>
      rw [← Construct.origins_resume hresume]
      exact List.sublist_append_left _ _
    · refine (origins_fail _ _ t).trans ?_
      exact (List.sublist_append_left _ _).append (List.Sublist.refl _)

theorem origins_readTag {pos : Position} (hmode : r.mode = .tag pos) (t : Token) :
    (r.readTag pos t).origins.Sublist (r.origins ++ [t.origin]) := by
  have hkeep : ∀ mode : Mode, mode.origins = [tagOrigin pos] →
      ({ r with mode := mode } : Reader).origins.Sublist (r.origins ++ [t.origin]) := by
    intro mode horigins
    have hsame : ({ r with mode := mode } : Reader).origins = r.origins := by
      rw [origins, horigins, origins, hmode]
      rfl
    rw [hsame]
    exact List.sublist_append_left _ _
  unfold readTag
  split
  · exact hkeep _ rfl
  · exact hkeep _ rfl
  · exact hkeep _ rfl
  · exact hkeep _ rfl
  · split
    · exact sublist_origins (origins_leave r _ t)
    · exact sublist_origins (origins_fail r _ t)
  · exact sublist_origins (origins_fail r _ t)

theorem origins_readExpr {purpose : Purpose} {reader : ExprReader}
    (hmode : r.mode = .expr purpose reader) (t : Token) :
    (r.readExpr purpose reader t).origins.Sublist (r.origins ++ [t.origin]) := by
  have horigins : r.origins = r.originsBefore ++ (purpose.origins ++ reader.origins) := by
    rw [origins, hmode, Mode.origins]
  unfold readExpr
  split
  · next reader' hmore =>
    rw [horigins, List.append_assoc, List.append_assoc]
    exact (List.Sublist.refl _).append ((List.Sublist.refl _).append (ExprReader.origins_more hmore))
  · next x hdone =>
    have hx := ExprReader.origins_done hdone
    unfold finishExpr
    split
    · next heffect =>
      have hbare : purpose.origins = [] := by
        cases purpose with
        | bare => rfl
        | _ => cases heffect
      have hbefore : ({ r with body := .bare x :: r.body } : Reader).originsBefore = r.origins := by
        rw [horigins, hbare, originsBefore, bodyOrigins_reverse_cons, ← hx, List.nil_append,
          ← List.append_assoc]
        rfl
      rw [← hbefore]
      exact origins_beginStatement _ t
    · next closer effect heffect =>
      refine origins_expect fun _ => ?_
      rw [origins_apply, Purpose.origins_effect heffect, hx, ← horigins]
      exact List.sublist_append_left _ _
  · exact sublist_origins (origins_fail r _ t)

/-- Reading a token adds its origin at the end, or adds nothing. -/
theorem origins_step (r : Reader) (t : Token) :
    (r.step t).origins.Sublist (r.origins ++ [t.origin]) := by
  have hname : t.kind = .ident → t.origin = Name.origin ⟨t.literal, t.pos⟩ := by
    intro hk
    simp only [Token.origin, hk, Name.origin]
  unfold step
  split
  · exact sublist_origins (origins_beginStatement r t)
  · exact sublist_origins (origins_seek r t)
  · next pos hmode => exact origins_readTag hmode t
  · next pos hmode =>
    refine origins_expect fun hk => ?_
    rw [hname hk]
    simp [origins, originsBefore, hmode, Mode.origins]
  · next pos name hmode =>
    refine origins_expect fun _ => ?_
    simp [origins, originsBefore, hmode, Mode.origins, Purpose.origins, ExprReader.start,
      ExprReader.origins, pendingOrigins]
  · next pos hmode =>
    refine origins_expect fun hk => ?_
    rw [hname hk]
    simp [origins, originsBefore, hmode, Mode.origins]
  · next pos name hmode =>
    refine origins_expect fun _ => ?_
    simp [origins, originsBefore, hmode, Mode.origins, Purpose.origins, ExprReader.start,
      ExprReader.origins, pendingOrigins]
  · next pos hmode =>
    split
    · next hk =>
      rw [hname hk]
      simp [origins, originsBefore, hmode, Mode.origins, TagEffect.origins, Construct.origins]
    · refine origins_expect fun _ => ?_
      rw [origins_apply]
      simp [origins, hmode, Mode.origins, TagEffect.origins, Construct.origins]
  · next purpose reader hmode => exact origins_readExpr hmode t
  · next effect hmode =>
    refine origins_expect fun _ => ?_
    rw [origins_apply, origins, hmode]
    exact List.sublist_append_left _ _

theorem origins_run (r : Reader) (ts : List Token) :
    (r.run ts).origins.Sublist (r.origins ++ ts.map Token.origin) := by
  induction ts generalizing r with
  | nil =>
    rw [List.map_nil, List.append_nil]
    exact List.Sublist.refl _
  | cons t ts ih =>
    have hrest := (ih (r.step t)).trans ((origins_step r t).append (List.Sublist.refl _))
    rwa [List.append_assoc] at hrest

/-- `finish` adds the origin of the end token at most. -/
theorem origins_finish (r : Reader) (last : Token) :
    (bodyOrigins (r.finish last).template).Sublist (r.origins ++ [last.origin]) := by
  refine List.Sublist.trans ?_ (origins_step r last)
  have hframes : ∀ frames : List Frame, ∀ f ∈ frames.getLast?,
      (bodyOrigins f.before.reverse).Sublist (frameOrigins frames) := by
    intro frames f hf
    induction frames with
    | nil => cases hf
    | cons g frames ih =>
      cases frames with
      | nil =>
        cases hf
        exact (List.sublist_append_left _ _).trans (List.sublist_append_right _ _)
      | cons h frames => exact (ih hf).trans (List.sublist_append_left _ _)
  simp only [finish]
  cases hlast : (r.step last).frames.getLast? with
  | none => exact (List.sublist_append_right _ _).trans (List.sublist_append_left _ _)
  | some f =>
    refine (hframes _ f hlast).trans ?_
    exact (List.sublist_append_left _ _).trans (List.sublist_append_left _ _)

end Reader

/-- The origins of `parse` are a sublist of the tokens. -/
theorem origins_parse (ts : List Token) :
    (bodyOrigins (parse ts).template).Sublist
      ((ts.takeWhile (·.kind ≠ .eof) ++ [endToken ts]).map Token.origin) := by
  have hrun := Reader.origins_run Reader.initial (ts.takeWhile (·.kind ≠ .eof))
  have hinitial : Reader.initial.origins = [] := rfl
  rw [hinitial, List.nil_append] at hrun
  rw [parse, Reader.readAll_eq, List.map_append]
  exact (Reader.origins_finish _ _).trans (hrun.append (List.Sublist.refl _))

theorem sublist_origins_tokenize (source : String) :
    (bodyOrigins (parseSource source).template).Sublist ((tokenize source).map Token.origin) := by
  obtain ⟨ts, last, htokens, hlast, hts, -⟩ := exists_tokenize_eq_concat source
  have hparse := origins_parse (tokenize source)
  rwa [htokens, takeWhile_ne_eof_concat hlast hts, endToken_concat hlast hts, ← htokens] at hparse

/-- The nodes of the template, in the order of the text, are at the tokens that they were built
from: their origins are a sublist of the tokens, with growing positions. This holds whatever errors
the text has. -/
theorem origins_parseSource (source : String) :
    (bodyOrigins (parseSource source).template).Sublist ((tokenize source).map Token.origin) ∧
      (bodyOrigins (parseSource source).template).Pairwise fun o o' => o.pos < o'.pos := by
  have hsublist := sublist_origins_tokenize source
  refine ⟨hsublist, List.Pairwise.sublist hsublist ?_⟩
  rw [List.pairwise_map]
  exact pairwise_pos_tokenize source

end Templates
