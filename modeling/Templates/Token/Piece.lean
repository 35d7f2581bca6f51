import Templates.StringLiteral
import Templates.Text.Blank
import Templates.Token

/-!
# Pieces of a source text

A source text falls into pieces without a gap: white space, comments, and the text of one token
each. `cut` takes the first piece off a text, always the longest that begins there, and `pieces`
repeats it with the position of every piece. The tokens of a text are those of its pieces, closed by
an end token behind the last character.

Main statements: a piece and what follows it make up the text (`append_cut`), a piece begins with
the first character there is (`head?_text_cut`), so cutting ends, and `tokenize` gives the tokens of
`pieces` (`tokenize_eq`).

Scanning never fails: a character that begins no piece is a token of its own, of the kind `illegal`,
and so is all that follows an opening quote without its closing one.
-/

namespace Templates

/-- The content of a piece of a source text. -/
inductive Content
  /-- White space. -/
  | blank
  /-- A comment, up to its end or to the end of the text. -/
  | comment
  /-- A token, of a kind and with its literal text. -/
  | token (kind : TokenKind) (literal : String)
  deriving DecidableEq, Repr

/-- The first piece of a text and what follows it. -/
structure Cut where
  /-- The content of the piece. -/
  content : Content
  /-- The characters of the piece. -/
  text : List Char
  /-- The characters behind it. -/
  rest : List Char
  deriving DecidableEq, Repr

namespace Cut

/-- A token whose literal is its text as written. -/
def verbatim (kind : TokenKind) (text rest : List Char) : Cut :=
  ⟨.token kind (String.ofList text), text, rest⟩

/-- The character can begin a name. -/
def beginsName (c : Char) : Bool := c.isAlpha || c = '_'

/-- The character can go on with a name. -/
def continuesName (c : Char) : Bool := c.isAlphanum || c = '_'

/-- The kind of a word: a keyword or an identifier. -/
def wordKind (literal : String) : TokenKind :=
  match Keyword.ofSpelling? literal with
  | some k => .keyword k
  | none => .ident

/-- A name or a reserved word. -/
def word (text rest : List Char) : Cut :=
  let literal := String.ofList text
  ⟨.token (wordKind literal) literal, text, rest⟩

/-- The operator or punctuation mark with this spelling. -/
def sign? (text : List Char) : Option TokenKind :=
  let s := String.ofList text
  ((Operator.ofSpelling? s).map .operator).or ((Punctuation.ofSpelling? s).map .punctuation)

/-- A sign of one character, or an illegal character. -/
def shortSign (c : Char) (cs : List Char) : Cut := verbatim ((sign? [c]).getD .illegal) [c] cs

/-- A sign: of two characters if there is one, else of one. -/
def sign (c : Char) : List Char → Cut
  | [] => shortSign c []
  | d :: ds =>
    match sign? [c, d] with
    | some kind => verbatim kind [c, d] ds
    | none => shortSign c (d :: ds)

/-- A string literal behind its opening quote. -/
def string (quote : Char) (cs : List Char) : Cut :=
  match StringLiteral.scan quote cs with
  | .closed value text rest => ⟨.token .string (String.ofList value), quote :: text, rest⟩
  | .unclosed => verbatim .illegal (quote :: cs) []

/-- A comment behind its first two characters; `text` holds what has been read, backwards. -/
def commentFrom (text : List Char) : List Char → Cut
  | [] => ⟨.comment, text.reverse, []⟩
  | c :: cs =>
    if c = '#' then
      match cs with
      | '}' :: ds => ⟨.comment, ('}' :: c :: text).reverse, ds⟩
      | cs => commentFrom (c :: text) cs
    else commentFrom (c :: text) cs

/-- A comment or a sign that begins with a brace. -/
def brace : List Char → Cut
  | '#' :: cs => commentFrom ['#', '{'] cs
  | cs => sign '{' cs

end Cut

/-- Takes the first piece off a text that begins with `c`. -/
def cut (c : Char) (cs : List Char) : Cut :=
  if isBlank c then ⟨.blank, c :: cs.takeWhile isBlank, cs.dropWhile isBlank⟩
  else if Cut.beginsName c then
    Cut.word (c :: cs.takeWhile Cut.continuesName) (cs.dropWhile Cut.continuesName)
  else if c.isDigit then
    Cut.verbatim .int (c :: cs.takeWhile Char.isDigit) (cs.dropWhile Char.isDigit)
  else if c = '"' || c = '\'' then Cut.string c cs
  else if c = '{' then Cut.brace cs
  else Cut.sign c cs

/-! ## Nothing is lost -/

namespace Cut

@[simp] theorem text_verbatim (kind : TokenKind) (text rest : List Char) :
    (verbatim kind text rest).text = text := rfl

@[simp] theorem rest_verbatim (kind : TokenKind) (text rest : List Char) :
    (verbatim kind text rest).rest = rest := rfl

@[simp] theorem text_word (text rest : List Char) : (word text rest).text = text := rfl

@[simp] theorem rest_word (text rest : List Char) : (word text rest).rest = rest := rfl

theorem append_sign (c : Char) (cs : List Char) :
    (sign c cs).text ++ (sign c cs).rest = c :: cs := by
  unfold sign
  split
  · rfl
  · split <;> rfl

theorem append_string (q : Char) (cs : List Char) :
    (string q cs).text ++ (string q cs).rest = q :: cs := by
  unfold string
  split
  · next h => simp [StringLiteral.append_of_scan_eq_closed h]
  · simp

theorem append_commentFrom (text cs : List Char) :
    (commentFrom text cs).text ++ (commentFrom text cs).rest = text.reverse ++ cs := by
  fun_induction commentFrom text cs with
  | case1 => simp
  | case2 => simp
  | case3 _ _ _ ih => simpa using ih
  | case4 _ _ _ _ ih => simpa using ih

theorem append_brace (cs : List Char) : (brace cs).text ++ (brace cs).rest = '{' :: cs := by
  unfold brace
  split
  · simp [append_commentFrom]
  · exact append_sign _ _

theorem head?_sign (c : Char) (cs : List Char) : (sign c cs).text.head? = some c := by
  unfold sign
  split
  · rfl
  · split <;> rfl

theorem prefix_text_commentFrom (text cs : List Char) :
    text.reverse <+: (commentFrom text cs).text := by
  fun_induction commentFrom text cs with
  | case1 => exact List.prefix_rfl
  | case2 => simp
  | case3 _ _ _ ih => exact .trans (by simp) ih
  | case4 _ _ _ _ ih => exact .trans (by simp) ih

theorem head?_brace (cs : List Char) : (brace cs).text.head? = some '{' := by
  unfold brace
  split
  · next ds =>
    obtain ⟨t, ht⟩ := prefix_text_commentFrom ['#', '{'] ds
    rw [← ht]; rfl
  · exact head?_sign _ _

end Cut

/-- A piece and what follows it make up the text. -/
theorem append_cut (c : Char) (cs : List Char) : (cut c cs).text ++ (cut c cs).rest = c :: cs := by
  unfold cut
  split
  · simp
  split
  · simp
  split
  · simp
  split
  · exact Cut.append_string _ _
  split
  · next h => subst h; exact Cut.append_brace _
  · exact Cut.append_sign _ _

/-- A piece begins with the first character of its text. -/
theorem head?_text_cut (c : Char) (cs : List Char) : (cut c cs).text.head? = some c := by
  unfold cut
  split
  · rfl
  split
  · rfl
  split
  · rfl
  split
  · unfold Cut.string; split <;> rfl
  split
  · next h => subst h; exact Cut.head?_brace _
  · exact Cut.head?_sign _ _

theorem text_cut_ne_nil (c : Char) (cs : List Char) : (cut c cs).text ≠ [] := by
  intro hnil
  have hhead := head?_text_cut c cs
  rw [hnil] at hhead
  cases hhead

/-- The text behind a piece is shorter than the text it was taken from. -/
theorem length_rest_cut_lt (c : Char) (cs : List Char) :
    (cut c cs).rest.length < (c :: cs).length := by
  have happ := congrArg List.length (append_cut c cs)
  have hpos := List.length_pos_iff.mpr (text_cut_ne_nil c cs)
  rw [List.length_append] at happ
  omega

/-! ## The pieces of a text -/

/-- A piece of a source text in its place. -/
structure Piece where
  /-- The position of its first character. -/
  pos : Position
  /-- Its characters, as written. -/
  text : List Char
  /-- The content of the piece. -/
  content : Content
  deriving DecidableEq, Repr

namespace Piece

/-- The token that the piece is the text of. -/
def token? (p : Piece) : Option Token :=
  match p.content with
  | .token kind literal => some ⟨kind, literal, p.pos⟩
  | _ => none

end Piece

/-- Goes on cutting at a position; `done` holds the pieces so far, backwards. -/
def piecesFrom (done : List Piece) (pos : Position) : List Char → List Piece
  | [] => done.reverse
  | c :: cs =>
    let k := cut c cs
    piecesFrom (⟨pos, k.text, k.content⟩ :: done) (pos.after k.text) k.rest
termination_by cs => cs.length
decreasing_by exact length_rest_cut_lt c cs

/-- The pieces of a source text, in order. -/
def pieces (text : List Char) : List Piece := piecesFrom [] .first text

/-- Goes on reading tokens at a position; `done` holds the tokens so far, backwards. -/
def tokensFrom (done : List Token) (pos : Position) : List Char → List Token
  | [] => (Token.endOfText pos :: done).reverse
  | c :: cs =>
    let k := cut c cs
    let done :=
      match k.content with
      | .token kind literal => ⟨kind, literal, pos⟩ :: done
      | _ => done
    tokensFrom done (pos.after k.text) k.rest
termination_by cs => cs.length
decreasing_by exact length_rest_cut_lt c cs

/-- The tokens of a source text, closed by an end token. -/
def tokenize (source : String) : List Token := tokensFrom [] .first source.toList

/-- What holds of the empty text, and of a text if it holds of what follows its first piece, holds
of every text. -/
theorem cut_induction {motive : List Char → Prop} (nil : motive [])
    (cons : ∀ c cs, motive (cut c cs).rest → motive (c :: cs)) (text : List Char) :
    motive text := by
  induction h : text.length using Nat.strongRecOn generalizing text with
  | ind n ih =>
    cases text with
    | nil => exact nil
    | cons c cs => exact cons c cs (ih _ (h ▸ length_rest_cut_lt c cs) _ rfl)

/-- `piecesFrom` puts the pieces found earlier in front of those found later. -/
theorem piecesFrom_eq_append (done : List Piece) (pos : Position) (text : List Char) :
    piecesFrom done pos text = done.reverse ++ piecesFrom [] pos text := by
  induction text using cut_induction generalizing done pos with
  | nil => simp [piecesFrom]
  | cons c cs ih =>
    rw [piecesFrom, piecesFrom, ih (_ :: done), ih [_]]
    simp

/-- The pieces of a text are its first piece and the pieces of what follows. -/
theorem piecesFrom_cons (pos : Position) (c : Char) (cs : List Char) :
    piecesFrom [] pos (c :: cs) =
      ⟨pos, (cut c cs).text, (cut c cs).content⟩ ::
        piecesFrom [] (pos.after (cut c cs).text) (cut c cs).rest := by
  rw [piecesFrom, piecesFrom_eq_append]; rfl

/-- The tokens of a text are those of its pieces, closed by an end token behind the last one. -/
theorem tokensFrom_eq (done : List Token) (pos : Position) (text : List Char) :
    tokensFrom done pos text =
      done.reverse ++ (piecesFrom [] pos text).filterMap Piece.token? ++
        [Token.endOfText (pos.after text)] := by
  induction text using cut_induction generalizing done pos with
  | nil => simp [tokensFrom, piecesFrom]
  | cons c cs ih =>
    have hafter : pos.after (c :: cs) = (pos.after (cut c cs).text).after (cut c cs).rest := by
      rw [← Position.after_append, append_cut]
    rw [tokensFrom, ih, piecesFrom_cons, hafter]
    cases (cut c cs).content <;> simp [Piece.token?, List.filterMap_cons]

/-- The tokens of a source text are those of its pieces, closed by an end token. -/
theorem tokenize_eq (source : String) :
    tokenize source =
      (pieces source.toList).filterMap Piece.token? ++
        [Token.endOfText (Position.first.after source.toList)] := by
  simp [tokenize, pieces, tokensFrom_eq]

end Templates
