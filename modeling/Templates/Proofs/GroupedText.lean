import Templates.Proofs.UnquotedText
import Templates.Proofs.QuotedText

/-!
# The grouped form tells expressions apart

Expressions with the same text `Expr.grouped` are equal up to positions (`Expr.grouped_eq_iff`).
Every operation is in parentheses, except for attributes. So an expression is read together with the
attributes behind it, up to a blank or a closing parenthesis (`Tail`), and the induction is about
`Expr.Marked`: the expression and its tail can be read back from their text.

Behind a parenthesis a minus sign may be an operator or belong to a number: `(-7)` is the negation
of a number, and in `(-7 + a)` something is added to a negative one. The character behind the
operand decides (`Expr.sign_operand_ne`): a text without a parenthesis or a quote goes on up to the
closing parenthesis in the one case and up to the blank in the other.
-/

namespace Templates

/-! ## Attributes behind an expression -/

/-- The text of attributes. -/
def trail (names : List String) : List Char := names.flatMap fun n => '.' :: n.toList

/-- The text is empty or begins with a blank or a closing parenthesis. -/
def Closes (text : List Char) : Prop := ∀ c ∈ text.head?, c = ' ' ∨ c = ')'

theorem trail_cons_append (n : String) (ns : List String) (r : List Char) :
    trail (n :: ns) ++ r = '.' :: (n.toList ++ (trail ns ++ r)) := by
  simp [trail]

theorem head_trail_append {r : List Char} (hr : Closes r) (ns : List String) :
    ∀ c ∈ (trail ns ++ r).head?, c = '.' ∨ c = ' ' ∨ c = ')' := by
  cases ns with
  | nil => exact fun c hc => Or.inr (hr c hc)
  | cons n ns =>
    rw [trail_cons_append]
    exact forall_head?_cons (Or.inl rfl) _

theorem endsWord_trail_append {r : List Char} (hr : Closes r) (ns : List String) :
    EndsWord (trail ns ++ r) := by
  intro c hc
  rcases head_trail_append hr ns c hc with rfl | rfl | rfl <;> decide

theorem not_closes_trail_cons_append (n : String) (ns : List String) (r : List Char) :
    ¬ Closes (trail (n :: ns) ++ r) := by
  intro h
  rw [trail_cons_append] at h
  exact absurd (h '.' rfl) (by decide)

theorem name_append_inj {n m : String} {r s : List Char} (hn : IsName n) (hm : IsName m)
    (hr : EndsWord r) (hs : EndsWord s) (h : n.toList ++ r = m.toList ++ s) : n = m ∧ r = s := by
  obtain ⟨hnm, hrs⟩ := stretch_append_inj hn.1.continuesName hm.1.continuesName hr hs h
  exact ⟨String.toList_inj.mp hnm, hrs⟩

/-- The attributes and what follows them are had back from their text. -/
theorem trail_append_inj {ns ms : List String} {r s : List Char} (hns : ∀ n ∈ ns, IsName n)
    (hms : ∀ m ∈ ms, IsName m) (hr : Closes r) (hs : Closes s)
    (h : trail ns ++ r = trail ms ++ s) : ns = ms ∧ r = s := by
  induction ns generalizing ms with
  | nil =>
    cases ms with
    | nil => exact ⟨rfl, h⟩
    | cons m ms =>
      have htext : r = trail (m :: ms) ++ s := h
      rw [htext] at hr
      exact absurd hr (not_closes_trail_cons_append m ms s)
  | cons n ns ih =>
    cases ms with
    | nil =>
      have htext : trail (n :: ns) ++ r = s := h
      rw [← htext] at hs
      exact absurd hs (not_closes_trail_cons_append n ns r)
    | cons m ms =>
      obtain ⟨hn, hns'⟩ := List.forall_mem_cons.mp hns
      obtain ⟨hm, hms'⟩ := List.forall_mem_cons.mp hms
      rw [trail_cons_append, trail_cons_append] at h
      obtain ⟨rfl, hrest⟩ := name_append_inj hn hm (endsWord_trail_append hr ns)
        (endsWord_trail_append hs ms) (List.cons.inj h).2
      obtain ⟨rfl, hrs⟩ := ih hns' hms' hrest
      exact ⟨rfl, hrs⟩

/-- The texts that can follow an expression in the grouped form: attributes, and a rest that they do
not go on into. -/
structure Tail where
  names : List String
  rest : List Char
  isName : ∀ n ∈ names, IsName n
  closes : Closes rest

namespace Tail

def text (t : Tail) : List Char := trail t.names ++ t.rest

/-- The end of the text. -/
def empty : Tail := ⟨[], [], List.forall_mem_nil _, fun _ hc => nomatch hc⟩

/-- No attributes, and a rest with its first character. -/
def ofRest (c : Char) (h : c = ' ' ∨ c = ')') (cs : List Char) : Tail :=
  ⟨[], c :: cs, List.forall_mem_nil _, forall_head?_cons h cs⟩

/-- One more attribute in front. -/
def cons (name : String) (h : IsName name) (t : Tail) : Tail :=
  ⟨name :: t.names, t.rest, List.forall_mem_cons.mpr ⟨h, t.isName⟩, t.closes⟩

theorem text_cons (name : String) (h : IsName name) (t : Tail) :
    (t.cons name h).text = '.' :: (name.toList ++ t.text) := trail_cons_append name t.names t.rest

/-- The expression with the attributes, up to positions. -/
def attrs (t : Tail) (x : Expr) : Expr := t.names.foldl (fun y n => .attr .first y n) x.erase

end Tail

namespace Expr

/-! ## Texts of expressions -/

section Texts

variable (pos : Position) (r : List Char)

theorem grouped_str_append (value : String) :
    (str pos value).grouped.toList ++ r = '"' :: (value.toList.flatMap visible ++ '"' :: r) := by
  simp [grouped, quoted]

theorem grouped_unary_append (op : UnaryOp) (x : Expr) :
    (unary pos op x).grouped.toList ++ r =
      '(' :: (op.sign.spelling.toList ++ (x.grouped.toList ++ ')' :: r)) := by
  simp [grouped]

theorem grouped_binary_append (op : BinaryOp) (x y : Expr) :
    (binary pos op x y).grouped.toList ++ r =
      '(' :: (x.grouped.toList ++
        ' ' :: (op.sign.spelling.toList ++ ' ' :: (y.grouped.toList ++ ')' :: r))) := by
  simp [grouped]

theorem grouped_attr_append (x : Expr) (name : String) :
    (attr pos x name).grouped.toList ++ r = x.grouped.toList ++ '.' :: (name.toList ++ r) := by
  simp [grouped, Operator.spelling]

theorem grouped_filter_append (x : Expr) (name : String) :
    (filter pos x name).grouped.toList ++ r =
      '(' :: (x.grouped.toList ++
        ' ' :: (Operator.pipe.spelling.toList ++ ' ' :: (name.toList ++ ')' :: r))) := by
  simp [grouped]

end Texts

theorem grouped_erase (x : Expr) : x.erase.grouped = x.grouped := by
  induction x with
  | ident | int | str | bool | null => rfl
  | unary _ op x ih => simp [erase, grouped, ih]
  | binary _ op l r ihl ihr => simp [erase, grouped, ihl, ihr]
  | attr _ x name ih => simp [erase, grouped, ih]
  | filter _ x name ih => simp [erase, grouped, ih]

/-! ## Signs -/

theorem sign_append_inj {o p : Operator} {r s : List Char}
    (h : o.spelling.toList ++ ' ' :: r = p.spelling.toList ++ ' ' :: s) : o = p ∧ r = s := by
  have hsign (o : Operator) : ∀ c ∈ o.spelling.toList, decide (c ≠ ' ') = true :=
    List.all_eq_true.mp (by cases o <;> decide)
  have hblank (cs : List Char) : ∀ c ∈ (' ' :: cs).head?, decide (c ≠ ' ') = false :=
    forall_head?_cons (by decide) cs
  have hread (o : Operator) : Operator.ofSpelling? o.spelling = some o := by
    cases o <;> rfl
  obtain ⟨hop, hrs⟩ := stretch_append_inj (hsign o) (hsign p) (hblank r) (hblank s) h
  have ho := hread o
  rw [String.toList_inj.mp hop, hread p] at ho
  exact ⟨(Option.some.inj ho).symm, (List.cons.inj hrs).2⟩

theorem binarySign_inj {op op' : BinaryOp} (h : op.sign = op'.sign) : op = op' := by
  have hread := op.ofSign?_sign
  rw [h, op'.ofSign?_sign] at hread
  exact (Option.some.inj hread).symm

theorem binarySign_ne_pipe (op : BinaryOp) : op.sign ≠ .pipe := by
  cases op <;> decide

/-! ## A sign in front of an operand -/

/-- The character can be part of a name or a number with attributes behind it. -/
def flatChar (c : Char) : Bool := plainChar c || c = '.'

theorem flatChar_of_plainChar {c : Char} (h : plainChar c = true) : flatChar c = true :=
  Bool.or_eq_true_iff.mpr (Or.inl h)

/-- The text has neither parentheses nor quotes nor blanks, and it is not a minus sign alone. -/
structure IsFlat (text : List Char) : Prop where
  flatChar : ∀ c ∈ text, flatChar c = true
  exists_continuesName : ∃ c ∈ text, Cut.continuesName c = true

/-- The text begins with a parenthesis or a quote. -/
def IsEnclosed (text : List Char) : Prop := ∃ c cs, text = c :: cs ∧ (c = '(' ∨ c = '"')

theorem IsFlat.append_attr {text : List Char} (h : IsFlat text) {name : String}
    (hname : IsName name) : IsFlat (text ++ '.' :: name.toList) := by
  obtain ⟨hflat, c, hc, hcontinues⟩ := h
  refine ⟨?_, c, List.mem_append_left _ hc, hcontinues⟩
  refine List.forall_mem_append.mpr ⟨hflat, List.forall_mem_cons.mpr ⟨rfl, ?_⟩⟩
  intro d hd
  exact flatChar_of_plainChar (plainChar_of_continuesName (hname.1.continuesName d hd))

theorem isFlat_or_isEnclosed_grouped {x : Expr} (h : x.Named) :
    IsFlat x.grouped.toList ∨ IsEnclosed x.grouped.toList := by
  have hplain {y : Expr} (hy : y.isPlain = true) (hnamed : y.Named) : IsFlat y.grouped.toList := by
    obtain ⟨hchars, hexists⟩ := isUnquotedText_grouped hy hnamed
    exact ⟨fun c hc => flatChar_of_plainChar (hchars c hc), hexists⟩
  have henclosed {y : Expr} {c : Char} {cs : List Char} (hc : c = '(' ∨ c = '"')
      (htext : y.grouped.toList ++ [] = c :: cs) : IsEnclosed y.grouped.toList :=
    ⟨c, cs, (List.append_nil _).symm.trans htext, hc⟩
  induction x with
  | ident | int | bool | null => exact Or.inl (hplain rfl h)
  | str pos value => exact Or.inr (henclosed (Or.inr rfl) (grouped_str_append pos [] value))
  | unary pos op x => exact Or.inr (henclosed (Or.inl rfl) (grouped_unary_append pos [] op x))
  | binary pos op l r =>
    exact Or.inr (henclosed (Or.inl rfl) (grouped_binary_append pos [] op l r))
  | filter pos x name =>
    exact Or.inr (henclosed (Or.inl rfl) (grouped_filter_append pos [] x name))
  | attr pos x name ih =>
    have htext := grouped_attr_append pos [] x name
    rw [List.append_nil, List.append_nil] at htext
    rw [htext]
    rcases ih h.1 with hflat | ⟨c, cs, hcs, hc⟩
    · exact Or.inl (hflat.append_attr h.2)
    · exact Or.inr ⟨c, cs ++ '.' :: name.toList, by rw [hcs, List.cons_append], hc⟩

/-- Behind a minus sign, the end of an operand is not where a flat text ends at a blank. -/
theorem minus_operand_ne {x : Expr} (h : x.Named) {text : List Char} (hflat : IsFlat text)
    (r t : List Char) : '-' :: (x.grouped.toList ++ ')' :: r) ≠ text ++ ' ' :: t := by
  intro heq
  have hblank : ∀ c ∈ (' ' :: t).head?, flatChar c = false := forall_head?_cons (by decide) t
  rcases isFlat_or_isEnclosed_grouped h with hx | ⟨d, ds, hds, hd⟩
  · -- The flat text would be the operand with its sign, and behind that stands a parenthesis.
    have hsigned : ∀ c ∈ '-' :: x.grouped.toList, flatChar c = true :=
      List.forall_mem_cons.mpr ⟨rfl, hx.flatChar⟩
    have hclose : ∀ c ∈ (')' :: r).head?, flatChar c = false := forall_head?_cons (by decide) r
    obtain ⟨-, hrest⟩ := stretch_append_inj hsigned hflat.flatChar hclose hblank heq
    exact absurd (List.cons.inj hrest).1 (by decide)
  · -- The flat text would be the sign alone.
    have hsign : ∀ c ∈ ['-'], flatChar c = true := List.forall_mem_singleton.mpr rfl
    have hopen : ∀ c ∈ (x.grouped.toList ++ ')' :: r).head?, flatChar c = false := by
      rw [hds]
      refine forall_head?_cons ?_ _
      rcases hd with rfl | rfl <;> rfl
    obtain ⟨hminus, -⟩ := stretch_append_inj hsign hflat.flatChar hopen hblank heq
    obtain ⟨c, hc, hcontinues⟩ := hflat.exists_continuesName
    rw [← hminus] at hc
    obtain rfl := List.mem_singleton.mp hc
    cases hcontinues

/-- `(-7)` and `(-7 + a)` differ in the character behind the operand. -/
theorem sign_operand_ne (op : UnaryOp) {x l : Expr} (hx : x.Named) (hl : l.Named)
    (r t : List Char) :
    op.sign.spelling.toList ++ (x.grouped.toList ++ ')' :: r) ≠ l.grouped.toList ++ ' ' :: t := by
  rcases isFlat_or_isEnclosed_grouped hl with hflat | ⟨c, cs, hcs, hc⟩
  · cases op with
    | neg => exact minus_operand_ne hx hflat r t
    | not =>
      intro h
      obtain ⟨d, hd, -⟩ := hflat.exists_continuesName
      obtain ⟨c, cs, hcs⟩ := List.exists_cons_of_ne_nil (List.ne_nil_of_mem hd)
      have hc := hflat.flatChar c (hcs ▸ List.mem_cons_self)
      rw [hcs] at h
      obtain rfl : '!' = c := (List.cons.inj h).1
      cases hc
  · intro h
    rw [hcs] at h
    have hhead : op.sign.spelling.toList.head? = some c := by
      cases op <;> exact congrArg some (List.cons.inj h).1
    rcases hc with rfl | rfl <;> cases op <;> cases hhead

/-! ## Reading an expression with its attributes -/

/-- The expression and its tail can be read back from their text. -/
def Marked (x : Expr) : Prop :=
  ∀ y : Expr, y.Named → ∀ t u : Tail, x.grouped.toList ++ t.text = y.grouped.toList ++ u.text →
    t.attrs x = u.attrs y ∧ t.rest = u.rest

/-- The expression is an attribute of another one. -/
def isAttr : Expr → Bool
  | attr .. => true
  | _ => false

/-- The expression is had back from its text among those that are no attributes. -/
def RootMarked (x : Expr) : Prop :=
  ∀ y : Expr, y.Named → y.isAttr = false → ∀ t u : Tail,
    x.grouped.toList ++ t.text = y.grouped.toList ++ u.text → x.erase = y.erase ∧ t.text = u.text

/-- Attributes can be added to an expression that can be read back. -/
theorem RootMarked.marked {x : Expr} (h : x.RootMarked) : x.Marked := by
  intro y hy t u htext
  induction y generalizing u with
  | attr pos y name ih =>
    rw [grouped_attr_append, ← u.text_cons name hy.2] at htext
    exact ih hy.1 (u.cons name hy.2) htext
  | _ =>
    obtain ⟨herase, htail⟩ := h _ hy rfl t u htext
    obtain ⟨hnames, hrest⟩ := trail_append_inj t.isName u.isName t.closes u.closes htail
    refine ⟨?_, hrest⟩
    unfold Tail.attrs
    rw [herase, hnames]

theorem Marked.attr {x : Expr} (h : x.Marked) (pos : Position) {name : String}
    (hname : IsName name) : (Expr.attr pos x name).Marked := by
  intro y hy t u htext
  rw [grouped_attr_append, ← t.text_cons name hname] at htext
  exact h y hy (t.cons name hname) u htext

/-- An operand and its tail. -/
theorem Marked.operand {x y : Expr} (h : x.Marked) (hy : y.Named) {c : Char}
    (hc : c = ' ' ∨ c = ')') {r s : List Char}
    (htext : x.grouped.toList ++ c :: r = y.grouped.toList ++ c :: s) :
    x.erase = y.erase ∧ r = s := by
  obtain ⟨herase, hrest⟩ := h y hy (.ofRest c hc r) (.ofRest c hc s) htext
  exact ⟨herase, (List.cons.inj hrest).2⟩

/-! ## Expressions that are no attributes -/

/-- The character that an operation or a string is shown to begin with. -/
def opening : Expr → Option Char
  | str .. => some '"'
  | unary .. | binary .. | filter .. => some '('
  | _ => none

theorem filter_head?_grouped_append {x : Expr} (h : x.Named) (hroot : x.isAttr = false)
    (r : List Char) :
    (x.grouped.toList ++ r).head?.filter (fun c => !plainChar c) = x.opening := by
  have hplain (hx : x.isPlain = true) :
      (x.grouped.toList ++ r).head?.filter (fun c => !plainChar c) = none := by
    obtain ⟨hchars, c, hc, -⟩ := isUnquotedText_grouped hx h
    obtain ⟨d, ds, hds⟩ := List.exists_cons_of_ne_nil (List.ne_nil_of_mem hc)
    have hd := hchars d (hds ▸ List.mem_cons_self)
    rw [hds, List.cons_append, List.head?_cons, Option.filter_some, hd]
    rfl
  cases x with
  | ident | int | bool | null => exact hplain rfl
  | str pos value =>
    rw [grouped_str_append]
    rfl
  | unary pos op x =>
    rw [grouped_unary_append]
    rfl
  | binary pos op l r =>
    rw [grouped_binary_append]
    rfl
  | filter pos x name =>
    rw [grouped_filter_append]
    rfl
  | attr => cases hroot

/-- Expressions that are shown alike begin alike; with this, most pairs of kinds are told apart. -/
theorem opening_congr {x y : Expr} (hx : x.Named) (hy : y.Named) (hxroot : x.isAttr = false)
    (hyroot : y.isAttr = false) {r s : List Char}
    (h : x.grouped.toList ++ r = y.grouped.toList ++ s) : x.opening = y.opening := by
  have hopening := filter_head?_grouped_append hx hxroot r
  rw [h, filter_head?_grouped_append hy hyroot s] at hopening
  exact hopening.symm

theorem rootMarked_of_isPlain {x : Expr} (hplain : x.isPlain = true) (h : x.Named) :
    x.RootMarked := by
  intro y hy hyroot t u htext
  have hends (t : Tail) : ∀ c ∈ t.text.head?, plainChar c = false := by
    intro c hc
    rcases head_trail_append t.closes t.names c hc with rfl | rfl | rfl <;> rfl
  have hxroot : x.isAttr = false := by
    cases x <;> first | rfl | cases hplain
  have hxopening : x.opening = none := by
    cases x <;> first | rfl | cases hplain
  have hopening := opening_congr h hy hxroot hyroot htext
  rw [hxopening] at hopening
  cases y with
  | ident | int | bool | null => exact plain_append_inj hplain h rfl hy (hends t) (hends u) htext
  | str | unary | binary | filter => cases hopening
  | attr => cases hyroot

theorem rootMarked_str (pos : Position) (value : String) : (str pos value).RootMarked := by
  intro y hy hyroot t u htext
  have hopening := opening_congr (x := str pos value) trivial hy rfl hyroot htext
  cases y with
  | str _ value' =>
    obtain ⟨rfl, hrest⟩ := quoted_append_inj htext
    exact ⟨rfl, hrest⟩
  | ident | int | bool | null => cases hopening
  | unary | binary | filter => exact absurd hopening (by simp [opening])
  | attr => cases hyroot

theorem Marked.unary {x : Expr} (h : x.Marked) (hx : x.Named) (pos : Position) (op : UnaryOp) :
    (Expr.unary pos op x).RootMarked := by
  intro y hy hyroot t u htext
  have hopening := opening_congr (x := Expr.unary pos op x) hx hy rfl hyroot htext
  rw [grouped_unary_append] at htext
  cases y with
  | unary pos' op' x' =>
    have hx' : x'.Named := hy
    rw [grouped_unary_append] at htext
    have hinner := (List.cons.inj htext).2
    obtain rfl : op = op' := by
      cases op <;> cases op' <;> first | rfl | exact absurd (List.cons.inj hinner).1 (by decide)
    obtain ⟨herase, hrest⟩ := h.operand hx' (Or.inr rfl) (List.append_cancel_left hinner)
    exact ⟨by rw [erase, erase, herase], hrest⟩
  | binary pos' op' l r =>
    rw [grouped_binary_append] at htext
    exact absurd (List.cons.inj htext).2 (sign_operand_ne op hx hy.1 _ _)
  | filter pos' x' name =>
    rw [grouped_filter_append] at htext
    exact absurd (List.cons.inj htext).2 (sign_operand_ne op hx hy.1 _ _)
  | ident | int | bool | null => cases hopening
  | str => exact absurd hopening (by simp [opening])
  | attr => cases hyroot

theorem Marked.binary {l r : Expr} (hl : l.Marked) (hr : r.Marked) (hnamed : l.Named ∧ r.Named)
    (pos : Position) (op : BinaryOp) : (Expr.binary pos op l r).RootMarked := by
  intro y hy hyroot t u htext
  have hopening := opening_congr (x := Expr.binary pos op l r) hnamed hy rfl hyroot htext
  rw [grouped_binary_append] at htext
  cases y with
  | unary pos' op' x =>
    have hx : x.Named := hy
    rw [grouped_unary_append] at htext
    exact absurd (List.cons.inj htext).2.symm (sign_operand_ne op' hx hnamed.1 _ _)
  | binary pos' op' l' r' =>
    rw [grouped_binary_append] at htext
    obtain ⟨hlerase, hsign⟩ := hl.operand hy.1 (Or.inl rfl) (List.cons.inj htext).2
    obtain ⟨hop, hright⟩ := sign_append_inj hsign
    obtain ⟨hrerase, hrest⟩ := hr.operand hy.2 (Or.inr rfl) hright
    obtain rfl := binarySign_inj hop
    exact ⟨by rw [erase, erase, hlerase, hrerase], hrest⟩
  | filter pos' x name =>
    rw [grouped_filter_append] at htext
    obtain ⟨-, hsign⟩ := hl.operand hy.1 (Or.inl rfl) (List.cons.inj htext).2
    exact absurd (sign_append_inj hsign).1 (binarySign_ne_pipe op)
  | ident | int | bool | null => cases hopening
  | str => exact absurd hopening (by simp [opening])
  | attr => cases hyroot

theorem Marked.filter {x : Expr} (h : x.Marked) (hx : x.Named) (pos : Position) {name : String}
    (hname : IsName name) : (Expr.filter pos x name).RootMarked := by
  intro y hy hyroot t u htext
  have hopening := opening_congr (x := Expr.filter pos x name) ⟨hx, hname⟩ hy rfl hyroot htext
  rw [grouped_filter_append] at htext
  cases y with
  | unary pos' op' x' =>
    have hx' : x'.Named := hy
    rw [grouped_unary_append] at htext
    exact absurd (List.cons.inj htext).2.symm (sign_operand_ne op' hx' hx _ _)
  | binary pos' op' l' r' =>
    rw [grouped_binary_append] at htext
    obtain ⟨-, hsign⟩ := h.operand hy.1 (Or.inl rfl) (List.cons.inj htext).2
    exact absurd (sign_append_inj hsign).1.symm (binarySign_ne_pipe op')
  | filter pos' x' name' =>
    rw [grouped_filter_append] at htext
    obtain ⟨herase, hsign⟩ := h.operand hy.1 (Or.inl rfl) (List.cons.inj htext).2
    obtain ⟨-, hright⟩ := sign_append_inj hsign
    have hclose (cs : List Char) : EndsWord (')' :: cs) := endsWord_cons (by decide) cs
    obtain ⟨rfl, hrest⟩ := name_append_inj hname hy.2 (hclose _) (hclose _) hright
    exact ⟨by rw [erase, erase, herase], (List.cons.inj hrest).2⟩
  | ident | int | bool | null => cases hopening
  | str => exact absurd hopening (by simp [opening])
  | attr => cases hyroot

theorem Named.marked {x : Expr} (h : x.Named) : x.Marked := by
  induction x with
  | ident | int | bool | null => exact (rootMarked_of_isPlain rfl h).marked
  | str pos value => exact (rootMarked_str pos value).marked
  | unary pos op x ih => exact ((ih h).unary h pos op).marked
  | binary pos op l r ihl ihr => exact ((ihl h.1).binary (ihr h.2) h pos op).marked
  | attr pos x name ih => exact (ih h.1).attr pos h.2
  | filter pos x name ih => exact ((ih h.1).filter h.1 pos h.2).marked

/-- Expressions with names that can be read have the same text `grouped` if and only if they are
equal up to positions. -/
theorem grouped_eq_iff {x y : Expr} (hx : x.Named) (hy : y.Named) :
    x.grouped = y.grouped ↔ x.erase = y.erase := by
  constructor
  · intro h
    have htext : x.grouped.toList ++ Tail.empty.text = y.grouped.toList ++ Tail.empty.text := by
      rw [h]
    exact (hx.marked y hy .empty .empty htext).1
  · intro h
    rw [← x.grouped_erase, h, y.grouped_erase]

/-- The negation of an attribute of a negative number, at two places, and the attribute of its
negation. -/
theorem grouped_eq_iff_negations :
    let place : Position := ⟨3, 7⟩
    let seven (pos : Position) : Expr := .int pos (-7)
    let x (pos : Position) : Expr := .unary pos .neg (.attr pos (seven pos) "a")
    let y : Expr := .attr .first (.unary .first .neg (seven .first)) "a"
    (x .first).Named ∧ (x place).Named ∧ y.Named ∧
      (x place).grouped = "(--7.a)" ∧ y.grouped = "(--7).a" ∧
      ((x .first).grouped = (x place).grouped ↔ (x .first).erase = (x place).erase) ∧
      ((x place).grouped = y.grouped ↔ (x place).erase = y.erase) := by
  intro place seven x y
  have ha : IsName "a" := by decide
  have hx (pos : Position) : (x pos).Named := ⟨trivial, ha⟩
  have hy : y.Named := ⟨trivial, ha⟩
  exact ⟨hx .first, hx place, hy, by decide, by decide, grouped_eq_iff (hx .first) (hx place),
    grouped_eq_iff (hx place) hy⟩

end Expr

end Templates
