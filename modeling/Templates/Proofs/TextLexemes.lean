import Templates.Layout
import Templates.Proofs.Lexemes

/-!
# The tokens of a canonical text

`Expr.lexemes`, `Stmt.lexemes` and `bodyLexemes` are the tokens of the canonical text of a tree;
they follow the layout without its lines and blanks. If the tree is `Spellable`, `Template.text` has
these tokens, for every style (`lexemes_text`).

The proof goes through the parts of the text from the left. `Spells` is the statement about a part,
in front of any text that `EndsWord`.
-/

namespace Templates

/-! ## Trees that can be written -/

namespace Expr

/-- Every name is one and every number is not negative. -/
def Spellable : Expr → Prop
  | ident _ name => IsName name
  | int _ value => 0 ≤ value.toInt
  | str .. | bool .. | null _ => True
  | unary _ _ x => x.Spellable
  | binary _ _ l r => l.Spellable ∧ r.Spellable
  | attr _ x name | filter _ x name => x.Spellable ∧ IsName name

end Expr

mutual

def Stmt.Spellable : Stmt → Prop
  | .set _ name value => IsName name.text ∧ value.Spellable
  | .cond _ condition body rest => condition.Spellable ∧ BodySpellable body ∧ rest.Spellable
  | .loop _ item sequence body => IsName item.text ∧ sequence.Spellable ∧ BodySpellable body
  | .block _ name body => (∀ n ∈ name, IsName n.text) ∧ BodySpellable body
  | .output _ value => value.Spellable
  | .bare value => value.Spellable

def Branches.Spellable : Branches → Prop
  | .done => True
  | .otherwise body => BodySpellable body
  | .elseIf condition body rest => condition.Spellable ∧ BodySpellable body ∧ rest.Spellable

/-- Every name in the body is one and every number is not negative. -/
def BodySpellable : List Stmt → Prop
  | [] => True
  | s :: ss => s.Spellable ∧ BodySpellable ss

end

/-! ## The tokens of a tree -/

/-- A row of lexemes in parentheses, if they are asked for. -/
def parenLexemes (parens : Bool) (ls : List Lexeme) : List Lexeme :=
  if parens then
    .fixed (.punctuation .parenOpen) :: (ls ++ [.fixed (.punctuation .parenClose)])
  else ls

/-- The lexemes of the canonical text of an expression. -/
def Expr.lexemes : Expr → List Lexeme
  | ident _ name => [⟨.ident, name⟩]
  | int _ value => [⟨.int, toString value.toInt⟩]
  | str _ value => [⟨.string, value⟩]
  | bool _ b => [.fixed (.keyword (if b then .true_ else .false_))]
  | null _ => [.fixed (.keyword .null)]
  | unary _ op x => .fixed (.operator op.sign) :: parenLexemes (x.precedence < .unary) x.lexemes
  | binary _ op l r =>
    parenLexemes (l.precedence < op.precedence) l.lexemes ++
      .fixed (.operator op.sign) :: parenLexemes (r.precedence ≤ op.precedence) r.lexemes
  | attr _ x name =>
    parenLexemes (x.precedence < .attr) x.lexemes ++ [.fixed (.operator .dot), ⟨.ident, name⟩]
  | filter _ x name =>
    parenLexemes (x.precedence < .filter) x.lexemes ++ [.fixed (.operator .pipe), ⟨.ident, name⟩]

/-- The lexemes of a statement tag with a word and what belongs to it. -/
def tagLexemes (word : Keyword) (inner : List Lexeme) : List Lexeme :=
  .fixed (.punctuation .tagOpen) :: .fixed (.keyword word) ::
    (inner ++ [.fixed (.punctuation .tagClose)])

def nameLexemes : Option Name → List Lexeme
  | some name => [⟨.ident, name.text⟩]
  | none => []

mutual

/-- The lexemes of the canonical text of a statement. -/
def Stmt.lexemes (afterBare : Bool) : Stmt → List Lexeme
  | .set _ name value =>
    tagLexemes .set (⟨.ident, name.text⟩ :: .fixed (.operator .assign) :: value.lexemes)
  | .cond _ condition body rest =>
    tagLexemes .if_ condition.lexemes ++ (bodyLexemes false body ++ rest.lexemes)
  | .loop _ item sequence body =>
    tagLexemes .for_ (⟨.ident, item.text⟩ :: .fixed (.keyword .in_) :: sequence.lexemes) ++
      (bodyLexemes false body ++ tagLexemes .endfor [])
  | .block _ name body =>
    tagLexemes .block (nameLexemes name) ++ (bodyLexemes false body ++ tagLexemes .endblock [])
  | .output _ value =>
    .fixed (.punctuation .outputOpen) :: (value.lexemes ++ [.fixed (.punctuation .outputClose)])
  | .bare value => parenLexemes (afterBare && value.leadsWithMinus) value.lexemes

/-- The lexemes of the branches of a conditional behind one of them. -/
def Branches.lexemes : Branches → List Lexeme
  | .done => tagLexemes .endif []
  | .otherwise body => tagLexemes .else_ [] ++ (bodyLexemes false body ++ tagLexemes .endif [])
  | .elseIf condition body rest =>
    tagLexemes .elif condition.lexemes ++ (bodyLexemes false body ++ rest.lexemes)

/-- The lexemes of a body; `afterBare` tells that it follows a bare expression. -/
def bodyLexemes (afterBare : Bool) : List Stmt → List Lexeme
  | [] => []
  | s :: ss => s.lexemes afterBare ++ bodyLexemes s.isBare ss

end

/-! ## Parts of a text -/

/-- The text has these tokens in front of any text that `EndsWord`. -/
def Spells (text : String) (ls : List Lexeme) : Prop :=
  ∀ rest, EndsWord rest → lexemes (text.toList ++ rest) = ls ++ lexemes rest

/-- The text has a first character, and it is not the sign of equality. -/
def HasHead (text : String) : Prop := text ≠ "" ∧ text.toList.head? ≠ some '='

theorem endsWord_space (cs : List Char) : EndsWord (' ' :: cs) := endsWord_cons (by decide) cs

theorem endsWord_punctuation (p : Punctuation) (cs : List Char) :
    EndsWord (p.spelling.toList ++ cs) := by
  cases p <;> exact endsWord_cons (by decide) _

theorem endsWord_dot (cs : List Char) : EndsWord (Operator.dot.spelling.toList ++ cs) :=
  endsWord_cons (by decide) cs

theorem spells_name {name : String} (h : IsName name) : Spells name [⟨.ident, name⟩] := by
  intro rest hrest
  rw [lexemes_word h.1 hrest]
  simp [Cut.wordKind, h.2]

theorem spells_keyword (k : Keyword) : Spells k.spelling [.fixed (.keyword k)] :=
  fun _ hrest => lexemes_keyword k hrest

theorem spells_punctuation (p : Punctuation) : Spells p.spelling [.fixed (.punctuation p)] :=
  fun rest _ => lexemes_punctuation p rest

section Parts

variable {a b : String} {ls ms : List Lexeme}

theorem Spells.spaced (ha : Spells a ls) (hb : Spells b ms) :
    Spells (a ++ " " ++ b) (ls ++ ms) := by
  intro rest hrest
  have ha' := ha (' ' :: (b.toList ++ rest)) (endsWord_space _)
  rw [lexemes_space, hb rest hrest] at ha'
  simpa using ha'

theorem Spells.joined (ha : Spells a ls) (o : Operator) (hb : Spells b ms) :
    Spells (a ++ " " ++ o.spelling ++ " " ++ b) (ls ++ .fixed (.operator o) :: ms) := by
  intro rest hrest
  have ha' := ha (' ' :: (o.spelling.toList ++ ' ' :: (b.toList ++ rest))) (endsWord_space _)
  rw [lexemes_space, lexemes_operator, hb rest hrest] at ha'
  simpa using ha'

theorem Spells.dot (ha : Spells a ls) (hb : Spells b ms) :
    Spells (a ++ Operator.dot.spelling ++ b) (ls ++ .fixed (.operator .dot) :: ms) := by
  intro rest hrest
  have ha' := ha (Operator.dot.spelling.toList ++ (b.toList ++ rest)) (endsWord_dot _)
  rw [lexemes_dot, hb rest hrest] at ha'
  simpa using ha'

theorem Spells.unary (op : UnaryOp) (ha : Spells a ls) (hhead : HasHead a) :
    Spells (op.sign.spelling ++ a) (.fixed (.operator op.sign) :: ls) := by
  intro rest hrest
  have hne : a.toList ≠ [] := by simpa using hhead.1
  obtain ⟨c, cs, hcs⟩ := List.exists_cons_of_ne_nil hne
  have hhead' : (a.toList ++ rest).head? ≠ some '=' := by simpa [hcs] using hhead.2
  rw [String.toList_append, List.append_assoc, lexemes_unary op hhead', ha rest hrest]
  rfl

theorem Spells.wrap (parens : Bool) (ha : Spells a ls) :
    Spells (Expr.wrap parens a) (parenLexemes parens ls) := by
  cases parens with
  | false => exact ha
  | true =>
    intro rest hrest
    have ha' := ha (Punctuation.parenClose.spelling.toList ++ rest) (endsWord_punctuation _ _)
    rw [lexemes_punctuation] at ha'
    simp only [Expr.wrap, parenLexemes, if_true, String.toList_append, List.append_assoc,
      List.cons_append, List.nil_append]
    rw [lexemes_punctuation, ha']

end Parts

/-! ## Expressions -/

theorem hasHead_of_toList {text : String} {c : Char} {cs : List Char} (h : text.toList = c :: cs)
    (hc : c ≠ '=') : HasHead text := by
  refine ⟨fun hempty => ?_, ?_⟩
  · simp [hempty] at h
  · simpa [h] using hc

theorem HasHead.append {a : String} (ha : HasHead a) (b : String) : HasHead (a ++ b) := by
  have hne : a.toList ≠ [] := by simpa using ha.1
  obtain ⟨c, cs, hcs⟩ := List.exists_cons_of_ne_nil hne
  have hc : c ≠ '=' := by simpa [hcs] using ha.2
  have happ : (a ++ b).toList = c :: (cs ++ b.toList) := by simp [hcs]
  exact hasHead_of_toList happ hc

theorem HasHead.wrap {a : String} (ha : HasHead a) (parens : Bool) :
    HasHead (Expr.wrap parens a) := by
  cases parens with
  | false => exact ha
  | true =>
    have hopen : HasHead Punctuation.parenOpen.spelling := hasHead_of_toList rfl (by decide)
    exact (hopen.append a).append _

theorem hasHead_of_isWord {word : String} (h : IsWord word.toList) : HasHead word := by
  obtain ⟨c, cs, hcs, hc, -⟩ := h
  refine hasHead_of_toList hcs ?_
  rintro rfl
  exact absurd hc (by decide)

/-- `Expr.text` does not begin with a sign of equality. -/
theorem Expr.hasHead_text {x : Expr} (h : x.Spellable) : HasHead x.text := by
  induction x with
  | ident _ name => exact hasHead_of_isWord h.1
  | int _ value =>
    have hdigits := IntLiteral.toList_toString_toInt h
    obtain ⟨c, cs, hcs⟩ := List.exists_cons_of_ne_nil (Nat.toDigits_ne_nil (n := value.toInt.toNat))
    refine hasHead_of_toList (hdigits.trans hcs) ?_
    rintro rfl
    have := IntLiteral.isDigit_of_mem_toDigits_ten _ (hcs ▸ List.mem_cons_self)
    exact absurd this (by decide)
  | str _ value => exact hasHead_of_toList String.toList_ofList (by decide)
  | bool _ b => exact hasHead_of_isWord (isWord_spelling _)
  | null => exact hasHead_of_isWord (isWord_spelling _)
  | unary _ op x =>
    have hop : HasHead op.sign.spelling := by
      cases op <;> exact hasHead_of_toList rfl (by decide)
    exact hop.append _
  | binary _ op l r ihl ihr =>
    simp only [text, String.append_assoc]
    exact ((ihl h.1).wrap _).append _
  | attr _ x name ih =>
    simp only [text, String.append_assoc]
    exact ((ih h.1).wrap _).append _
  | filter _ x name ih =>
    simp only [text, String.append_assoc]
    exact ((ih h.1).wrap _).append _

/-- `Expr.text` has the tokens `Expr.lexemes`. -/
theorem Expr.spells_text {x : Expr} (h : x.Spellable) : Spells x.text x.lexemes := by
  induction x with
  | ident _ name => exact spells_name h
  | int _ value => exact fun _ hrest => lexemes_int h hrest
  | str _ value => exact fun rest _ => lexemes_quote value rest
  | bool _ b => exact spells_keyword _
  | null => exact spells_keyword _
  | unary _ op x ih => exact ((ih h).wrap _).unary op ((hasHead_text (x := x) h).wrap _)
  | binary _ op l r ihl ihr => exact ((ihl h.1).wrap _).joined op.sign ((ihr h.2).wrap _)
  | attr _ x name ih => exact ((ih h.1).wrap _).dot (spells_name h.2)
  | filter _ x name ih => exact ((ih h.1).wrap _).joined .pipe (spells_name h.2)

/-! ## Rows -/

theorem spells_wordTag (word : Keyword) : Spells (wordTag word) (tagLexemes word []) :=
  ((spells_punctuation .tagOpen).spaced (spells_keyword word)).spaced (spells_punctuation .tagClose)

theorem spells_headTag (word : Keyword) {head : String} {ls : List Lexeme} (h : Spells head ls) :
    Spells (headTag word head) (tagLexemes word ls) :=
  (((spells_punctuation .tagOpen).spaced (spells_keyword word)).spaced h).spaced
    (spells_punctuation .tagClose)

theorem spells_outputTag {x : Expr} (h : x.Spellable) :
    Spells (outputTag x) (Stmt.lexemes false (.output .first x)) :=
  ((spells_punctuation .outputOpen).spaced (Expr.spells_text h)).spaced
    (spells_punctuation .outputClose)

theorem spells_blockTag {name : Option Name} (h : ∀ n ∈ name, IsName n.text) :
    Spells (blockTag name) (tagLexemes .block (nameLexemes name)) := by
  cases name with
  | none => exact spells_wordTag .block
  | some n => exact spells_headTag .block (spells_name (h n rfl))

/-- The lines of the rows fall into these tokens, whatever follows. -/
def RowsSpell (style : Style) (rows : List Row) (ls : List Lexeme) : Prop :=
  ∀ rest, lexemes (rows.flatMap (fun r => (r.line style).toList) ++ rest) = ls ++ lexemes rest

/-- Indentation and the end of a line are blank. -/
theorem lexemes_line (style : Style) (r : Row) {ls : List Lexeme} (h : Spells r.text ls)
    (rest : List Char) : lexemes ((r.line style).toList ++ rest) = ls ++ lexemes rest := by
  have hnewline : EndsWord ('\n' :: rest) := endsWord_cons (by decide) rest
  have hrest := h _ hnewline
  rw [lexemes_newline] at hrest
  unfold Row.line
  split
  -- An empty row is not indented; its text falls into no tokens.
  · next hempty =>
    have htext : r.text = "" := by simpa using hempty
    simpa [htext] using hrest
  · simpa using hrest

section Rows

variable {style : Style} {rows : List Row} {ls ms : List Lexeme}

theorem rowsSpell_nil : RowsSpell style [] [] := fun _ => rfl

theorem RowsSpell.append {rows' : List Row} (h : RowsSpell style rows ls)
    (h' : RowsSpell style rows' ms) : RowsSpell style (rows ++ rows') (ls ++ ms) := by
  intro rest
  rw [List.flatMap_append, List.append_assoc, h, h', List.append_assoc]

theorem RowsSpell.cons {depth : Nat} {text : String} (ht : Spells text ls)
    (h : RowsSpell style rows ms) : RowsSpell style (⟨depth, text⟩ :: rows) (ls ++ ms) := by
  intro rest
  rw [List.flatMap_cons, List.append_assoc, lexemes_line style ⟨depth, text⟩ ht, h,
    List.append_assoc]

theorem rowsSpell_single {depth : Nat} {text : String} (ht : Spells text ls) :
    RowsSpell style [⟨depth, text⟩] ls := by
  have h : RowsSpell style [⟨depth, text⟩] (ls ++ []) := .cons ht rowsSpell_nil
  rwa [List.append_nil] at h

end Rows

mutual

/-- The rows of a statement have its tokens. -/
theorem Stmt.rowsSpell (style : Style) : ∀ (s : Stmt) (depth : Nat) (afterBare : Bool),
    s.Spellable → RowsSpell style (s.rows style depth afterBare) (s.lexemes afterBare)
  | .set _ name value, _, _, h => by
    have hhead := (spells_name h.1).joined .assign (Expr.spells_text h.2)
    exact rowsSpell_single (spells_headTag .set hhead)
  | .cond _ condition body rest, depth, _, h => by
    have hhead := spells_headTag .if_ (Expr.spells_text h.1)
    have hbody := rowsSpell_bodyRows style body (depth + 1) false h.2.1
    exact .cons hhead (hbody.append (rest.rowsSpell style depth h.2.2))
  | .loop _ item sequence body, depth, _, h => by
    have hhead := ((spells_name h.1).spaced (spells_keyword .in_)).spaced (Expr.spells_text h.2.1)
    have hend : RowsSpell style [⟨depth, wordTag .endfor⟩] (tagLexemes .endfor []) :=
      rowsSpell_single (spells_wordTag .endfor)
    have hbody := rowsSpell_bodyRows style body (depth + 1) false h.2.2
    exact .cons (spells_headTag .for_ hhead) (hbody.append hend)
  | .block _ name body, depth, _, h => by
    have hend : RowsSpell style [⟨depth, wordTag .endblock⟩] (tagLexemes .endblock []) :=
      rowsSpell_single (spells_wordTag .endblock)
    exact .cons (spells_blockTag h.1) ((rowsSpell_bodyRows style body _ _ h.2).append hend)
  | .output _ _, _, _, h => rowsSpell_single (spells_outputTag h)
  | .bare _, _, _, h => rowsSpell_single ((Expr.spells_text h).wrap _)

theorem Branches.rowsSpell (style : Style) : ∀ (b : Branches) (depth : Nat),
    b.Spellable → RowsSpell style (b.rows style depth) b.lexemes
  | .done, _, _ => rowsSpell_single (spells_wordTag .endif)
  | .otherwise body, depth, h => by
    have hend : RowsSpell style [⟨depth, wordTag .endif⟩] (tagLexemes .endif []) :=
      rowsSpell_single (spells_wordTag .endif)
    exact .cons (spells_wordTag .else_) ((rowsSpell_bodyRows style body _ _ h).append hend)
  | .elseIf condition body rest, depth, h => by
    have hhead := spells_headTag .elif (Expr.spells_text h.1)
    have hbody := rowsSpell_bodyRows style body (depth + 1) false h.2.1
    exact .cons hhead (hbody.append (rest.rowsSpell style depth h.2.2))

theorem rowsSpell_bodyRows (style : Style) : ∀ (body : List Stmt) (depth : Nat) (afterBare : Bool),
    BodySpellable body →
      RowsSpell style (bodyRows style depth afterBare body) (bodyLexemes afterBare body)
  | [], _, _, _ => rowsSpell_nil
  | s :: ss, depth, afterBare, h =>
    (s.rowsSpell style depth afterBare h.1).append (rowsSpell_bodyRows style ss depth s.isBare h.2)

end

/-- `Template.text` has the tokens `bodyLexemes`. -/
theorem lexemes_text (style : Style) {t : Template} (h : BodySpellable t) :
    lexemes (Template.text style t).toList = bodyLexemes false t := by
  have hrows := rowsSpell_bodyRows style t 0 false h []
  rw [Template.text_eq_join, String.toList_join, List.flatMap_map]
  simpa [Template.rows] using hrows

end Templates
