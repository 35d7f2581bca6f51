import Templates.Expr.Reader
import Templates.Stmt
import Templates.Token.Piece

/-!
# Reading a template

A template is read one token at a time. A `Reader` holds all that is still open: the constructs
whose bodies are being read, innermost first, with the statements in front of each; the statements
of the innermost body; and the state of the statement at hand. Reading is a fold over the tokens, so
each token is looked at once and reading always ends.

A statement that breaks off is dropped with one error, and reading goes on at the next delimiter: at
an opening one a statement begins, behind a closing one as well. Only the statement at hand is lost.
The tag that ends or continues a construct belongs to the construct, so an error there drops the
construct with its body.
-/

namespace Templates

/-- A condition and the body it guards. -/
structure Branch where
  /-- The condition. -/
  condition : Expr
  /-- The body. -/
  body : List Stmt

/-- A construct whose body is being read. -/
inductive Construct
  /-- A conditional in a branch with a condition; the branches in front of it, last first. -/
  | cond (pos : Position) (earlier : List Branch) (condition : Expr)
  /-- A conditional behind its `else`; the branches in front of it, last first. -/
  | otherwise (pos : Position) (earlier : List Branch) (last : Branch)
  /-- A loop. -/
  | loop (pos : Position) (item : Name) (sequence : Expr)
  /-- A block. -/
  | block (pos : Position) (name : Option Name)

namespace Construct

/-- The conditional with these branches, last first, in front of `rest`. -/
def conditional (pos : Position) (rest : Branches) (last : Branch) : List Branch → Stmt
  | [] => .cond pos last.condition last.body rest
  | b :: earlier => conditional pos (.elseIf last.condition last.body rest) b earlier

/-- The statement that the construct becomes once its last body is complete. -/
def complete (body : List Stmt) : Construct → Stmt
  | cond pos earlier condition => conditional pos .done ⟨condition, body⟩ earlier
  | otherwise pos earlier last => conditional pos (.otherwise body) last earlier
  | loop pos item sequence => .loop pos item sequence body
  | block pos name => .block pos name body

/-- The word of the tag that ends the construct. -/
def closer : Construct → Keyword
  | cond .. | otherwise .. => .endif
  | loop .. => .endfor
  | block .. => .endblock

end Construct

/-- The purpose of the expression at hand. -/
inductive Purpose
  /-- A statement of its own. -/
  | bare
  /-- The value that a tag writes. -/
  | output (pos : Position)
  /-- The value of a name. -/
  | set (pos : Position) (name : Name)
  /-- The condition of a branch; the branches in front of it, last first. -/
  | cond (pos : Position) (earlier : List Branch)
  /-- The sequence of a loop. -/
  | loop (pos : Position) (item : Name)

/-- The effect of a tag once it is closed. -/
inductive TagEffect
  /-- It completes a statement. -/
  | add (stmt : Stmt)
  /-- It opens a body. -/
  | enter (construct : Construct)

/-- The state of reading the statement at hand. -/
inductive Mode
  /-- A statement may begin. -/
  | start
  /-- A statement has been given up; the next delimiter is awaited. -/
  | skip
  /-- Behind the opening delimiter of a statement tag. -/
  | tag (pos : Position)
  /-- The name that a `set` tag binds has to come. -/
  | setName (pos : Position)
  /-- The `=` of a `set` tag has to come. -/
  | setSign (pos : Position) (name : Name)
  /-- The name that a `for` tag introduces has to come. -/
  | loopName (pos : Position)
  /-- The `in` of a `for` tag has to come. -/
  | loopIn (pos : Position) (name : Name)
  /-- The name of a block may come. -/
  | blockName (pos : Position)
  /-- Inside an expression. -/
  | expr (purpose : Purpose) (reader : ExprReader)
  /-- The closing delimiter of a statement tag has to come. -/
  | close (effect : TagEffect)

/-- An open construct and the statements in front of it in the body around it, last first. -/
structure Frame where
  /-- The construct. -/
  construct : Construct
  /-- The statements in front of it. -/
  before : List Stmt

/-- The state of reading a template. -/
structure Reader where
  /-- The statement at hand. -/
  mode : Mode
  /-- The complete statements of the innermost open body, last first. -/
  body : List Stmt
  /-- The open constructs, innermost first. -/
  frames : List Frame
  /-- The errors found, last first. -/
  errors : List SyntaxError

/-- The result of reading a template: every statement that is complete, and every error. -/
structure Parsed where
  /-- The statements that could be read. -/
  template : Template
  /-- The errors, in the order of the text. -/
  errors : List SyntaxError

namespace Purpose

/-- The delimiter that has to follow the expression, and what it completes; `none` for a statement
that ends with its expression. -/
def effect? (x : Expr) : Purpose → Option (Punctuation × TagEffect)
  | bare => none
  | output pos => some (.outputClose, .add (.output pos x))
  | set pos name => some (.tagClose, .add (.set pos name x))
  | cond pos earlier => some (.tagClose, .enter (.cond pos earlier x))
  | loop pos item => some (.tagClose, .enter (.loop pos item x))

end Purpose

/-- The effect of the word of a tag on the construct whose body it ends: it goes on with another
branch, or it completes the construct; `error` gives the word that would complete it. -/
def Construct.resume (c : Construct) (word : Keyword) (body : List Stmt) : Except Keyword Mode :=
  match c, word with
  | .cond pos earlier condition, .elif =>
    .ok (.expr (.cond pos (⟨condition, body⟩ :: earlier)) .start)
  | .cond pos earlier condition, .else_ =>
    .ok (.close (.enter (.otherwise pos earlier ⟨condition, body⟩)))
  | c, word => if word = c.closer then .ok (.close (.add (c.complete body))) else .error c.closer

namespace Reader

/-- Nothing has been read. -/
def initial : Reader := ⟨.start, [], [], []⟩

/-- The mode of a statement behind an opening delimiter. -/
def opening? (t : Token) : Option Mode :=
  match t.kind with
  | .punctuation .tagOpen => some (.tag t.pos)
  | .punctuation .outputOpen => some (.expr (.output t.pos) .start)
  | _ => none

/-- Looks for the next delimiter. -/
def seek (r : Reader) (t : Token) : Reader :=
  match opening? t with
  | some mode => { r with mode := mode }
  | none => { r with mode := if t.kind.closesTag then .start else .skip }

/-- Gives the statement at hand up. -/
def fail (r : Reader) (fault : SyntaxFault) (t : Token) : Reader :=
  seek { r with errors := ⟨t.pos, fault⟩ :: r.errors } t

/-- Begins a statement. -/
def beginStatement (r : Reader) (t : Token) : Reader :=
  match opening? t with
  | some mode => { r with mode := mode }
  | none =>
    if t.kind = .eof then { r with mode := .start }
    else
      match ExprReader.readOperand [] t with
      | .ok reader => { r with mode := .expr .bare reader }
      | .error fault => r.fail fault t

/-- Does what a closed tag does. -/
def apply (r : Reader) : TagEffect → Reader
  | .add stmt => { r with mode := .start, body := stmt :: r.body }
  | .enter construct =>
    { r with mode := .start, body := [], frames := ⟨construct, r.body⟩ :: r.frames }

/-- Reads a token that has to be of one kind. -/
def expect (r : Reader) (wanted : TokenKind) (t : Token) (next : Reader) : Reader :=
  if t.kind = wanted then next else r.fail (.expected wanted t.kind) t

/-- Ends the innermost body with a tag of its construct. -/
def leave (r : Reader) (word : Keyword) (t : Token) : Reader :=
  match r.frames with
  | [] => r.fail (.unopened word) t
  | f :: frames =>
    let outer := { r with body := f.before, frames := frames }
    match f.construct.resume word r.body.reverse with
    | .ok mode => { outer with mode := mode }
    | .error closer => outer.fail (.expected (.keyword closer) t.kind) t

/-- Reads the token behind the opening delimiter of a statement tag. -/
def readTag (r : Reader) (pos : Position) (t : Token) : Reader :=
  match t.kind with
  | .keyword .set => { r with mode := .setName pos }
  | .keyword .if_ => { r with mode := .expr (.cond pos []) .start }
  | .keyword .for_ => { r with mode := .loopName pos }
  | .keyword .block => { r with mode := .blockName pos }
  | .keyword word => if word.endsBody then r.leave word t else r.fail (.unknownTag t.kind) t
  | kind => r.fail (.unknownTag kind) t

/-- Ends an expression in front of a token. -/
def finishExpr (r : Reader) (purpose : Purpose) (x : Expr) (t : Token) : Reader :=
  match purpose.effect? x with
  | none => { r with body := .bare x :: r.body }.beginStatement t
  | some (closer, effect) => r.expect (.punctuation closer) t (r.apply effect)

/-- Reads a token of an expression or the one behind it. -/
def readExpr (r : Reader) (purpose : Purpose) (reader : ExprReader) (t : Token) : Reader :=
  match reader.step t with
  | .more reader => { r with mode := .expr purpose reader }
  | .done x => r.finishExpr purpose x t
  | .fail fault => r.fail fault t

/-- Reads one token. -/
def step (r : Reader) (t : Token) : Reader :=
  match r.mode with
  | .start => r.beginStatement t
  | .skip => r.seek t
  | .tag pos => r.readTag pos t
  | .setName pos => r.expect .ident t { r with mode := .setSign pos ⟨t.literal, t.pos⟩ }
  | .setSign pos name =>
    r.expect (.operator .assign) t { r with mode := .expr (.set pos name) .start }
  | .loopName pos => r.expect .ident t { r with mode := .loopIn pos ⟨t.literal, t.pos⟩ }
  | .loopIn pos name =>
    r.expect (.keyword .in_) t { r with mode := .expr (.loop pos name) .start }
  | .blockName pos =>
    if t.kind = .ident then
      { r with mode := .close (.enter (.block pos (some ⟨t.literal, t.pos⟩))) }
    else r.expect (.punctuation .tagClose) t (r.apply (.enter (.block pos none)))
  | .expr purpose reader => r.readExpr purpose reader t
  | .close effect => r.expect (.punctuation .tagClose) t (r.apply effect)

/-- Reads a list of tokens. -/
def run (r : Reader) (ts : List Token) : Reader := ts.foldl step r

theorem run_append (r : Reader) (a b : List Token) : r.run (a ++ b) = (r.run a).run b :=
  List.foldl_append

/-- Ends the template at its end token: every construct that is still open is dropped with one
error, and only the statements in front of the outermost one remain. -/
def finish (r : Reader) (last : Token) : Parsed :=
  let r := r.step last
  let unclosed : SyntaxError := ⟨last.pos, .expected (.punctuation .tagOpen) last.kind⟩
  let outermost := (r.frames.getLast?.map Frame.before).getD r.body
  ⟨outermost.reverse, r.errors.reverse ++ r.frames.map fun _ => unclosed⟩

/-- Reads a list of tokens up to its first end token; if it has none, one stands at the first
position. -/
def readAll (r : Reader) : List Token → Parsed
  | [] => r.finish (.endOfText .first)
  | t :: ts => if t.kind = .eof then r.finish t else (r.step t).readAll ts

end Reader

/-- Reads a list of tokens. -/
def parse (ts : List Token) : Parsed := Reader.initial.readAll ts

/-- Reads a source text. -/
def parseSource (source : String) : Parsed := parse (tokenize source)

/-- The end token of a list of tokens: its first one, or one at the first position if it has none.
-/
def endToken (ts : List Token) : Token :=
  (ts.find? (·.kind = .eof)).getD (Token.endOfText .first)

/-- All tokens in front of the end token are read one by one. -/
theorem Reader.readAll_eq (r : Reader) (ts : List Token) :
    r.readAll ts = (r.run (ts.takeWhile (·.kind ≠ .eof))).finish (endToken ts) := by
  induction ts generalizing r with
  | nil => rfl
  | cons t ts ih => by_cases h : t.kind = .eof <;> simp [readAll, run, endToken, h, ih]

end Templates
