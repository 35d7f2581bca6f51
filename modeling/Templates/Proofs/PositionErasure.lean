import Templates.Proofs.Lexemes
import Templates.Reader

/-!
# Reading does not look at positions

The reader copies the positions of tokens into the tree and into the errors, but never decides by
one. `erase` replaces every position that a reader holds, and reading an erased token with an erased
reader gives the erased result (`Reader.step_erase`). So lists of tokens that differ in their
positions only, with errors or without, give trees and errors that differ in their positions only
(`parse_erase_congr`).
-/

namespace Templates

/-! ## Forgetting positions -/

/-- The same token with its position forgotten. -/
def Token.erase (t : Token) : Token := { t with pos := .first }

/-- The same error with its position forgotten. -/
def SyntaxError.erase (e : SyntaxError) : SyntaxError := { e with pos := .first }

/-- The same operation with its positions forgotten. -/
def Pending.erase : Pending → Pending
  | unary _ op => unary .first op
  | binary _ op left => binary .first op left.erase
  | paren => paren

/-- The same state of an expression with every position forgotten. -/
def ExprReader.erase : ExprReader → ExprReader
  | operand pending => operand (pending.map Pending.erase)
  | name pending _ link x => name (pending.map Pending.erase) .first link x.erase
  | complete pending x => complete (pending.map Pending.erase) x.erase

/-- The same step with every position forgotten. -/
def ExprStep.erase : ExprStep → ExprStep
  | more r => more r.erase
  | done x => done x.erase
  | fail fault => fail fault

/-- The same branch with every position forgotten. -/
def Branch.erase (b : Branch) : Branch := ⟨b.condition.erase, eraseBody b.body⟩

/-- The same construct with every position forgotten. -/
def Construct.erase : Construct → Construct
  | cond _ earlier condition => cond .first (earlier.map Branch.erase) condition.erase
  | otherwise _ earlier last => otherwise .first (earlier.map Branch.erase) last.erase
  | loop _ item sequence => loop .first item.erase sequence.erase
  | block _ name => block .first (name.map Name.erase)

/-- The same purpose with every position forgotten. -/
def Purpose.erase : Purpose → Purpose
  | bare => bare
  | output _ => output .first
  | set _ name => set .first name.erase
  | cond _ earlier => cond .first (earlier.map Branch.erase)
  | loop _ item => loop .first item.erase

/-- The same effect with every position forgotten. -/
def TagEffect.erase : TagEffect → TagEffect
  | add stmt => add stmt.erase
  | enter construct => enter construct.erase

/-- The same mode with every position forgotten. -/
def Mode.erase : Mode → Mode
  | start => start
  | skip => skip
  | tag _ => tag .first
  | setName _ => setName .first
  | setSign _ name => setSign .first name.erase
  | loopName _ => loopName .first
  | loopIn _ name => loopIn .first name.erase
  | blockName _ => blockName .first
  | expr purpose reader => expr purpose.erase reader.erase
  | close effect => close effect.erase

/-- The same frame with every position forgotten. -/
def Frame.erase (f : Frame) : Frame := ⟨f.construct.erase, eraseBody f.before⟩

/-- The same reader with every position forgotten. -/
def Reader.erase (r : Reader) : Reader :=
  ⟨r.mode.erase, eraseBody r.body, r.frames.map Frame.erase, r.errors.map SyntaxError.erase⟩

/-- The same result with every position forgotten. -/
def Parsed.erase (p : Parsed) : Parsed :=
  ⟨eraseBody p.template, p.errors.map SyntaxError.erase⟩

theorem eraseBody_eq_map (body : List Stmt) : eraseBody body = body.map Stmt.erase := by
  induction body with
  | nil => rfl
  | cons s ss ih => rw [eraseBody, ih, List.map_cons]

/-! ## Expressions -/

theorem settle_erase (bound : Precedence) (pending : List Pending) (x : Expr) :
    settle bound (pending.map Pending.erase) x.erase =
      ((settle bound pending x).1.map Pending.erase, (settle bound pending x).2.erase) := by
  induction pending generalizing x with
  | nil => rfl
  | cons p pending ih =>
    cases p with
    | unary pos op => exact ih (.unary pos op x)
    | paren => rfl
    | binary pos op left =>
      simp only [List.map_cons, Pending.erase, settle]
      split
      · exact ih (.binary pos op left x)
      · rfl

namespace ExprReader

theorem readOperand_erase (pending : List Pending) (t : Token) :
    readOperand (pending.map Pending.erase) t.erase = (readOperand pending t).map erase := by
  obtain ⟨kind, literal, pos⟩ := t
  cases kind with
  | keyword word => cases word <;> rfl
  | operator sign => cases sign <;> rfl
  | punctuation mark => cases mark <;> rfl
  | int =>
    simp only [readOperand, Token.erase]
    cases IntLiteral.value? literal <;> rfl
  | _ => rfl

theorem readName_erase (pending : List Pending) (pos : Position) (link : Link) (x : Expr)
    (t : Token) : readName (pending.map Pending.erase) .first link x.erase t.erase =
      (readName pending pos link x t).map erase := by
  have hbuild : (link.build pos x t.literal).erase = link.build .first x.erase t.literal := by
    cases link <;> rfl
  by_cases h : t.kind = .ident
  · simp only [readName, Token.erase, h, if_true, Except.map, erase, hbuild]
  · simp only [readName, Token.erase, h, if_false, Except.map]

theorem join_erase (pending : List Pending) (x : Expr) (pos : Position) (j : Joint) :
    join (pending.map Pending.erase) x.erase .first j = (join pending x pos j).erase := by
  cases j <;> simp only [join, settle_erase] <;> rfl

theorem readJoint_erase (pending : List Pending) (x : Expr) (t : Token) :
    readJoint (pending.map Pending.erase) x.erase t.erase = (readJoint pending x t).erase := by
  have hkind : t.erase.kind = t.kind := rfl
  have hpos : t.erase.pos = .first := rfl
  unfold readJoint
  rw [hkind, hpos]
  cases Joint.ofKind? t.kind with
  | some j => simp only [join_erase pending x t.pos j, ExprStep.erase]
  | none =>
    simp only [settle_erase]
    cases settle .lowest pending x with
    | mk rest y =>
      cases rest with
      | nil => rfl
      | cons p rest =>
        simp only [List.map_cons]
        split <;> rfl

theorem inside_map_erase (e : Except SyntaxFault ExprReader) :
    inside (e.map erase) = (inside e).erase := by
  cases e <;> rfl

theorem step_erase (r : ExprReader) (t : Token) : r.erase.step t.erase = (r.step t).erase := by
  cases r with
  | operand pending =>
    simp only [erase, step, readOperand_erase, inside_map_erase]
  | name pending pos link x =>
    simp only [erase, step, readName_erase pending pos, inside_map_erase]
  | complete pending x => exact readJoint_erase pending x t

end ExprReader

/-! ## Constructs -/

namespace Construct

theorem conditional_erase (pos : Position) (rest : Branches) (last : Branch)
    (earlier : List Branch) :
    conditional .first rest.erase last.erase (earlier.map Branch.erase) =
      (conditional pos rest last earlier).erase := by
  induction earlier generalizing rest last with
  | nil => rfl
  | cons b earlier ih => exact ih (.elseIf last.condition last.body rest) b

theorem complete_erase (body : List Stmt) (c : Construct) :
    c.erase.complete (eraseBody body) = (c.complete body).erase := by
  cases c with
  | cond pos earlier condition => exact conditional_erase pos .done ⟨condition, body⟩ earlier
  | otherwise pos earlier last => exact conditional_erase pos (.otherwise body) last earlier
  | loop => rfl
  | block => rfl

theorem closer_erase (c : Construct) : c.erase.closer = c.closer := by
  cases c <;> rfl

theorem resume_erase (c : Construct) (word : Keyword) (body : List Stmt) :
    c.erase.resume word (eraseBody body) = (c.resume word body).map Mode.erase := by
  have hlast : (if word = c.erase.closer then
      Except.ok (Mode.close (.add (c.erase.complete (eraseBody body))))
      else .error c.erase.closer) =
        (if word = c.closer then Except.ok (Mode.close (.add (c.complete body)))
          else .error c.closer).map Mode.erase := by
    rw [closer_erase, complete_erase]
    split <;> rfl
  cases c with
  | cond pos earlier condition =>
    cases word with
    | elif => rfl
    | else_ => rfl
    | _ => exact hlast
  | otherwise => exact hlast
  | loop => exact hlast
  | block => exact hlast

end Construct

theorem Purpose.effect?_erase (x : Expr) (purpose : Purpose) :
    purpose.erase.effect? x.erase =
      (purpose.effect? x).map fun (closer, effect) => (closer, effect.erase) := by
  cases purpose <;> rfl

/-! ## Readers -/

namespace Reader

theorem opening?_erase (t : Token) : opening? t.erase = (opening? t).map Mode.erase := by
  obtain ⟨kind, literal, pos⟩ := t
  cases kind with
  | punctuation mark => cases mark <;> rfl
  | _ => rfl

theorem seek_erase (r : Reader) (t : Token) : r.erase.seek t.erase = (r.seek t).erase := by
  have hkind : t.erase.kind = t.kind := rfl
  unfold seek
  rw [opening?_erase, hkind]
  cases opening? t with
  | some mode => rfl
  | none => cases t.kind.closesTag <;> rfl

theorem fail_erase (r : Reader) (fault : SyntaxFault) (t : Token) :
    r.erase.fail fault t.erase = (r.fail fault t).erase :=
  seek_erase { r with errors := ⟨t.pos, fault⟩ :: r.errors } t

theorem beginStatement_erase (r : Reader) (t : Token) :
    r.erase.beginStatement t.erase = (r.beginStatement t).erase := by
  have hkind : t.erase.kind = t.kind := rfl
  unfold beginStatement
  rw [opening?_erase, hkind]
  cases opening? t with
  | some mode => rfl
  | none =>
    by_cases heof : t.kind = .eof
    · simp only [heof, if_true]
      rfl
    · have hoperand := ExprReader.readOperand_erase [] t
      rw [List.map_nil] at hoperand
      simp only [heof, if_false, hoperand]
      cases ExprReader.readOperand [] t with
      | ok reader => rfl
      | error fault => exact r.fail_erase fault t

theorem apply_erase (r : Reader) (effect : TagEffect) :
    r.erase.apply effect.erase = (r.apply effect).erase := by
  cases effect <;> rfl

theorem expect_erase (r next : Reader) (wanted : TokenKind) (t : Token) :
    r.erase.expect wanted t.erase next.erase = (r.expect wanted t next).erase := by
  have hkind : t.erase.kind = t.kind := rfl
  unfold expect
  rw [hkind]
  split
  · rfl
  · exact r.fail_erase _ t

theorem leave_erase (r : Reader) (word : Keyword) (t : Token) :
    r.erase.leave word t.erase = (r.leave word t).erase := by
  obtain ⟨mode, body, frames, errors⟩ := r
  cases frames with
  | nil => exact fail_erase ⟨mode, body, [], errors⟩ _ t
  | cons f frames =>
    have hbody : (eraseBody body).reverse = eraseBody body.reverse := by
      rw [eraseBody_eq_map, eraseBody_eq_map, List.map_reverse]
    simp only [leave, erase, List.map_cons, Frame.erase, hbody, f.construct.resume_erase]
    cases f.construct.resume word body.reverse with
    | ok mode => rfl
    | error closer => exact fail_erase ⟨mode, f.before, frames, errors⟩ _ t

theorem readTag_erase (r : Reader) (pos : Position) (t : Token) :
    r.erase.readTag .first t.erase = (r.readTag pos t).erase := by
  have hkind : t.erase.kind = t.kind := rfl
  unfold readTag
  rw [hkind]
  split
  · rfl
  · rfl
  · rfl
  · rfl
  · split
    · exact r.leave_erase _ t
    · exact r.fail_erase _ t
  · exact r.fail_erase _ t

theorem finishExpr_erase (r : Reader) (purpose : Purpose) (x : Expr) (t : Token) :
    r.erase.finishExpr purpose.erase x.erase t.erase = (r.finishExpr purpose x t).erase := by
  unfold finishExpr
  rw [Purpose.effect?_erase]
  cases purpose.effect? x with
  | none => exact beginStatement_erase { r with body := .bare x :: r.body } t
  | some p =>
    obtain ⟨closer, effect⟩ := p
    simp only [Option.map_some, apply_erase]
    exact expect_erase r _ _ t

theorem readExpr_erase (r : Reader) (purpose : Purpose) (reader : ExprReader) (t : Token) :
    r.erase.readExpr purpose.erase reader.erase t.erase = (r.readExpr purpose reader t).erase := by
  unfold readExpr
  rw [ExprReader.step_erase]
  cases reader.step t with
  | more reader => rfl
  | done x => exact r.finishExpr_erase purpose x t
  | fail fault => exact r.fail_erase fault t

/-- Reading a token does not look at positions. -/
theorem step_erase (r : Reader) (t : Token) : r.erase.step t.erase = (r.step t).erase := by
  have hmode : r.erase.mode = r.mode.erase := rfl
  have hkind : t.erase.kind = t.kind := rfl
  unfold step
  rw [hmode]
  cases r.mode with
  | start => exact r.beginStatement_erase t
  | skip => exact r.seek_erase t
  | tag pos => exact r.readTag_erase pos t
  | setName pos => exact r.expect_erase { r with mode := .setSign pos ⟨t.literal, t.pos⟩ } _ t
  | setSign pos name => exact r.expect_erase { r with mode := .expr (.set pos name) .start } _ t
  | loopName pos => exact r.expect_erase { r with mode := .loopIn pos ⟨t.literal, t.pos⟩ } _ t
  | loopIn pos name => exact r.expect_erase { r with mode := .expr (.loop pos name) .start } _ t
  | blockName pos =>
    simp only [Mode.erase, hkind]
    split
    · rfl
    · exact r.expect_erase (r.apply (.enter (.block pos none))) _ t
  | expr purpose reader => exact r.readExpr_erase purpose reader t
  | close effect =>
    simp only [Mode.erase, apply_erase]
    exact r.expect_erase (r.apply effect) _ t

theorem finish_erase (r : Reader) (last : Token) :
    r.erase.finish last.erase = (r.finish last).erase := by
  have hstep := r.step_erase last
  unfold finish
  rw [hstep]
  generalize r.step last = r'
  have houtermost : ((r'.erase.frames.getLast?.map Frame.before).getD r'.erase.body).reverse =
      eraseBody ((r'.frames.getLast?.map Frame.before).getD r'.body).reverse := by
    simp only [erase, List.getLast?_map, eraseBody_eq_map, List.map_reverse]
    cases r'.frames.getLast? with
    | none => rfl
    | some f => exact congrArg List.reverse (eraseBody_eq_map f.before)
  simp only [houtermost, Parsed.erase, List.map_append, List.map_reverse]
  simp only [erase, List.map_map]
  rfl

theorem readAll_erase (r : Reader) (ts : List Token) :
    r.erase.readAll (ts.map Token.erase) = (r.readAll ts).erase := by
  induction ts generalizing r with
  | nil => exact r.finish_erase (.endOfText .first)
  | cons t ts ih =>
    have hkind : t.erase.kind = t.kind := rfl
    rw [List.map_cons, readAll, readAll, hkind]
    split
    · exact r.finish_erase t
    · rw [step_erase, ih]

end Reader

/-- `parse` gives the same up to positions for tokens that are the same up to positions. -/
theorem parse_erase_congr {ts us : List Token}
    (h : ts.map Token.lexeme = us.map Token.lexeme) : (parse ts).erase = (parse us).erase := by
  have herase : ts.map Token.erase = us.map Token.erase := by
    have hmap := congrArg (List.map fun l : Lexeme => (⟨l.kind, l.literal, .first⟩ : Token)) h
    rwa [List.map_map, List.map_map] at hmap
  rw [parse, parse, ← Reader.readAll_erase, herase, Reader.readAll_erase]

end Templates
