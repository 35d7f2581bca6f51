import Templates.Proofs.CanonicalLines

/-!
# Rebuilding the canonical form from a diff

A diff leaves out equal lines, empty lines, and where one of the texts ends. For a canonical form
nothing is lost by that, since it has no empty lines (`lines_of_canonical`). Where the diff adds a
line with some number, it is the line of the canonical form; where it adds none, the line is that of
the source, unless the diff takes it away or the source has ended, and then the canonical form has
ended as well (`patchFrom_diffEntriesFrom`). The entries themselves are read back from the text of a
diff, since each stays on one line (`readDiff_diffText`).
-/

namespace Templates

/-! ## Reading a diff -/

/-- The text that a mark stands for. -/
def Side.ofMark? : Char → Option Side
  | '-' => some old
  | '+' => some new
  | _ => none

/-- Reads an entry off its line: a mark, a number with blanks in front of it, a bar, the line. -/
def DiffEntry.read? : List Char → Option DiffEntry
  | [] => none
  | mark :: cs =>
    let numbered := cs.dropWhile (· = ' ')
    let number := Nat.ofDigitChars 10 (numbered.takeWhile Char.isDigit) 0
    match Side.ofMark? mark, numbered.dropWhile Char.isDigit with
    | some side, ' ' :: '|' :: ' ' :: line => some ⟨side, number, String.ofList line⟩
    | _, _ => none

/-- Reads the entries of a diff off its text, one on each line. -/
def readDiff (diff : String) : List DiffEntry :=
  (diff.toList.splitOn '\n').filterMap DiffEntry.read?

/-- The characters of the line on which an entry is written. -/
def DiffEntry.row (e : DiffEntry) : List Char :=
  e.side.mark.toList ++ (List.replicate (4 - (toString e.number).length) ' ' ++
    (Nat.toDigits 10 e.number ++ (' ' :: '|' :: ' ' :: e.line.toList)))

theorem DiffEntry.toList_text (e : DiffEntry) : e.text.toList = e.row ++ ['\n'] := by
  have hdigits : (toString e.number).toList = Nat.toDigits 10 e.number := Nat.toList_repr
  unfold text row
  simp only [String.toList_append, String.toList_ofList, hdigits, List.append_assoc]
  rfl

/-- A number does not begin with a blank. -/
theorem head?_toDigits_append (number : Nat) (rest : List Char) :
    ∀ c ∈ (Nat.toDigits 10 number ++ rest).head?, decide (c = ' ') = false := by
  obtain ⟨d, ds, hds⟩ := List.exists_cons_of_ne_nil (Nat.toDigits_ne_nil (b := 10) (n := number))
  have hdigit := IntLiteral.isDigit_of_mem_toDigits_ten d (hds ▸ List.mem_cons_self)
  rw [hds, List.cons_append, List.head?_cons]
  intro c hc
  cases hc
  refine decide_eq_false ?_
  rintro rfl
  exact absurd hdigit (by decide)

/-- `DiffEntry.read?` gives back the entry that a line shows. -/
theorem DiffEntry.read?_row (e : DiffEntry) : DiffEntry.read? e.row = some e := by
  obtain ⟨side, number, line⟩ := e
  have hmark : ∃ mark, side.mark.toList = [mark] ∧ Side.ofMark? mark = some side := by
    cases side
    · exact ⟨'-', rfl, rfl⟩
    · exact ⟨'+', rfl, rfl⟩
  obtain ⟨mark, hmark, hside⟩ := hmark
  -- The blanks end where the digits begin, and these end in front of the bar.
  have hblank : ∀ c ∈ List.replicate (4 - (toString number).length) ' ', decide (c = ' ') = true :=
    fun c hc => decide_eq_true (List.eq_of_mem_replicate hc)
  have hbar : ∀ c ∈ (' ' :: '|' :: ' ' :: line.toList).head?, c.isDigit = false := by
    intro c hc
    cases hc
    rfl
  have hblanks := span_append hblank
    (head?_toDigits_append number (' ' :: '|' :: ' ' :: line.toList))
  have hdigits := span_append (IntLiteral.isDigit_of_mem_toDigits_ten (n := number)) hbar
  simp only [row, hmark, List.singleton_append, read?, hblanks.2, hdigits.1, hdigits.2, hside,
    Nat.ofDigitChars_ten_toDigits, String.ofList_toList]

theorem DiffEntry.not_mem_row {e : DiffEntry} (h : '\n' ∉ e.line.toList) : '\n' ∉ e.row := by
  have hmark : '\n' ∉ e.side.mark.toList := by cases e.side <;> decide
  have hdigits : '\n' ∉ Nat.toDigits 10 e.number := fun hmem =>
    absurd (IntLiteral.isDigit_of_mem_toDigits_ten _ hmem) (by decide)
  simp [row, hmark, hdigits, h]

theorem filterMap_read?_rows {entries : List DiffEntry} (h : ∀ e ∈ entries, '\n' ∉ e.line.toList) :
    ((entries.flatMap fun e => e.row ++ ['\n']).splitOn '\n').filterMap DiffEntry.read? =
      entries := by
  induction entries with
  | nil => rfl
  | cons e entries ih =>
    obtain ⟨he, hrest⟩ := List.forall_mem_cons.mp h
    have hrow : ∀ c ∈ e.row, (c == '\n') = false := by
      intro c hc
      rw [beq_eq_false_iff_ne]
      rintro rfl
      exact DiffEntry.not_mem_row he hc
    rw [List.flatMap_cons, List.append_assoc, List.singleton_append, List.splitOn_eq_splitOnP,
      List.splitOnP_append_cons_of_forall_mem hrow _ rfl, ← List.splitOn_eq_splitOnP,
      List.filterMap_cons, DiffEntry.read?_row, ih hrest]

theorem readDiff_join {entries : List DiffEntry} (h : ∀ e ∈ entries, '\n' ∉ e.line.toList) :
    readDiff (String.join (entries.map DiffEntry.text)) = entries := by
  have htext : (String.join (entries.map DiffEntry.text)).toList =
      entries.flatMap fun e => e.row ++ ['\n'] := by
    simp [String.toList_join, List.flatMap_map, DiffEntry.toList_text]
  rw [readDiff, htext, filterMap_read?_rows h]

/-! ## The entries of a diff -/

theorem mem_pairEntries {number : Nat} {old new : String} {e : DiffEntry}
    (he : e ∈ pairEntries number old new) : e = ⟨.old, number, old⟩ ∨ e = ⟨.new, number, new⟩ := by
  unfold pairEntries at he
  split at he
  · cases he
  · exact List.mem_pair.mp (List.mem_of_mem_filter he)

theorem diffEntriesFrom_step (done : List DiffEntry) (number : Nat) (olds news : List String) :
    diffEntriesFrom done number olds news =
      diffEntriesFrom ((pairEntries number (olds.headD "") (news.headD "")).reverse ++ done)
        (number + 1) olds.tail news.tail := by
  cases olds <;> cases news <;> simp [diffEntriesFrom, pairEntries]

/-- `Extends number done entries`: to the entries `done`, which stand backwards, only entries of the
number and of greater ones have been added. -/
def Extends (number : Nat) (done entries : List DiffEntry) : Prop :=
  ∃ later, (∀ e ∈ later, number ≤ e.number) ∧ entries = done.reverse ++ later

theorem Extends.pair {number : Nat} {done entries : List DiffEntry} {old new : String}
    (h : Extends (number + 1) ((pairEntries number old new).reverse ++ done) entries) :
    Extends number done entries := by
  obtain ⟨later, hlater, rfl⟩ := h
  refine ⟨pairEntries number old new ++ later, fun e he => ?_, by simp⟩
  rcases List.mem_append.mp he with he | he
  · rcases mem_pairEntries he with rfl | rfl <;> exact Nat.le_refl _
  · exact Nat.le_of_succ_le (hlater e he)

theorem extends_diffEntriesFrom (done : List DiffEntry) (number : Nat) (olds news : List String) :
    Extends number done (diffEntriesFrom done number olds news) := by
  fun_induction diffEntriesFrom done number olds news with
  | case1 done => exact ⟨[], List.forall_mem_nil _, (List.append_nil _).symm⟩
  | case2 done number old olds ih => exact ih.pair
  | case3 done number new news ih => exact ih.pair
  | case4 done number old olds new news ih => exact ih.pair

theorem forall_line_pairEntries {p : String → Prop} {number : Nat} {old new : String} (hold : p old)
    (hnew : p new) {done : List DiffEntry} (hdone : ∀ e ∈ done, p e.line) :
    ∀ e ∈ (pairEntries number old new).reverse ++ done, p e.line := by
  refine List.forall_mem_append.mpr ⟨fun e he => ?_, hdone⟩
  rcases mem_pairEntries (List.mem_reverse.mp he) with rfl | rfl
  · exact hold
  · exact hnew

/-- A property of all lines of the texts and of the empty line holds for the lines of the entries.
-/
theorem forall_line_diffEntriesFrom {p : String → Prop} (hempty : p "") {done : List DiffEntry}
    {number : Nat} {olds news : List String} (hdone : ∀ e ∈ done, p e.line)
    (holds : ∀ line ∈ olds, p line) (hnews : ∀ line ∈ news, p line) :
    ∀ e ∈ diffEntriesFrom done number olds news, p e.line := by
  fun_induction diffEntriesFrom done number olds news with
  | case1 done => exact fun e he => hdone e (List.mem_reverse.mp he)
  | case2 done number old olds ih =>
    obtain ⟨hold, holds⟩ := List.forall_mem_cons.mp holds
    exact ih (forall_line_pairEntries hold hempty hdone) holds hnews
  | case3 done number new news ih =>
    obtain ⟨hnew, hnews⟩ := List.forall_mem_cons.mp hnews
    exact ih (forall_line_pairEntries hempty hnew hdone) holds hnews
  | case4 done number old olds new news ih =>
    obtain ⟨hold, holds⟩ := List.forall_mem_cons.mp holds
    obtain ⟨hnew, hnews⟩ := List.forall_mem_cons.mp hnews
    exact ih (forall_line_pairEntries hold hnew hdone) holds hnews

/-- `readDiff` gives back the entries of a diff. -/
theorem readDiff_diffText (old new : String) :
    readDiff (diffText old new) = diffEntries old new := by
  have hlines (s : String) : ∀ line ∈ textLines s, '\n' ∉ line.toList := by
    intro line hline
    obtain ⟨cs, hcs, rfl⟩ := List.mem_map.mp hline
    rw [String.toList_ofList]
    exact not_mem_of_mem_charLines s.toList cs hcs
  exact readDiff_join (forall_line_diffEntriesFrom (p := fun line => '\n' ∉ line.toList) (by decide)
    (List.forall_mem_nil _) (hlines old) (hlines new))

/-! ## Patching -/

/-- The line of the entry of a text with a number. -/
def lineOf? (entries : List DiffEntry) (side : Side) (number : Nat) : Option String :=
  (entries.find? fun e => e.side = side ∧ e.number = number).map DiffEntry.line

section LineOf

variable {entries later : List DiffEntry} {side : Side} {number : Nat}

theorem lineOf?_append :
    lineOf? (entries ++ later) side number =
      (lineOf? entries side number).or (lineOf? later side number) := by
  rw [lineOf?, List.find?_append, Option.map_or]
  rfl

theorem lineOf?_eq_none (h : ∀ e ∈ entries, e.number ≠ number) :
    lineOf? entries side number = none := by
  rw [lineOf?, Option.map_eq_none_iff, List.find?_eq_none]
  intro e he
  simp [h e he]

theorem lineOf?_pairEntries_self (line : String) :
    lineOf? (pairEntries number line line) side number = none := by
  rw [pairEntries, if_pos rfl]
  rfl

theorem lineOf?_pairEntries_empty (old : String) :
    lineOf? (pairEntries number old "") .new number = none := by
  by_cases hold : old = "" <;> simp [pairEntries, lineOf?, hold]

theorem lineOf?_pairEntries_old {old new : String} (h : old ≠ new) (hold : old ≠ "") :
    lineOf? (pairEntries number old new) .old number = some old := by
  simp [pairEntries, lineOf?, h, hold]

theorem lineOf?_pairEntries_new {old new : String} (h : old ≠ new) (hnew : new ≠ "") :
    lineOf? (pairEntries number old new) .new number = some new := by
  by_cases hold : old = "" <;> simp [pairEntries, lineOf?, h, hold, hnew]

theorem lineOf?_diffEntriesFrom {done : List DiffEntry} (hdone : ∀ e ∈ done, e.number < number)
    (olds news : List String) :
    lineOf? (diffEntriesFrom done number olds news) side number =
      lineOf? (pairEntries number (olds.headD "") (news.headD "")) side number := by
  obtain ⟨later, hlater, heq⟩ := extends_diffEntriesFrom
    ((pairEntries number (olds.headD "") (news.headD "")).reverse ++ done) (number + 1)
    olds.tail news.tail
  have hbefore : lineOf? done.reverse side number = none :=
    lineOf?_eq_none fun e he => Nat.ne_of_lt (hdone e (List.mem_reverse.mp he))
  have hbehind : lineOf? later side number = none :=
    lineOf?_eq_none fun e he => (Nat.ne_of_lt (hlater e he)).symm
  rw [diffEntriesFrom_step, heq, List.reverse_append, List.reverse_reverse, lineOf?_append,
    lineOf?_append, hbefore, hbehind, Option.none_or, Option.or_none]

end LineOf

/-- The number of entries that have a number or a greater one. -/
def entriesLeft (entries : List DiffEntry) (number : Nat) : Nat :=
  entries.countP fun e => number ≤ e.number

theorem entriesLeft_succ_le (entries : List DiffEntry) (number : Nat) :
    entriesLeft entries (number + 1) ≤ entriesLeft entries number := by
  refine List.countP_mono_left fun e _ he => ?_
  simp only [decide_eq_true_eq] at he ⊢
  exact Nat.le_of_succ_le he

theorem entriesLeft_succ_lt {entries : List DiffEntry} {side : Side} {number : Nat} {line : String}
    (h : lineOf? entries side number = some line) :
    entriesLeft entries (number + 1) < entriesLeft entries number := by
  obtain ⟨e, hfind, -⟩ := Option.map_eq_some_iff.mp h
  have hnumber : e.number = number := by
    have hfound := List.find?_some hfind
    simp only [decide_eq_true_eq] at hfound
    exact hfound.2
  obtain ⟨front, behind, rfl⟩ := List.append_of_mem (List.mem_of_find?_eq_some hfind)
  have hfront := entriesLeft_succ_le front number
  have hbehind := entriesLeft_succ_le behind number
  unfold entriesLeft at hfront hbehind ⊢
  rw [List.countP_append, List.countP_append, List.countP_cons_of_neg (by simp [hnumber]),
    List.countP_cons_of_pos (by simp [hnumber])]
  omega

/-- Patches lines, the first of which has a number. It becomes the line that the diff adds under
this number. If there is none, patching ends where the diff takes the line away, and where there is
no line or only an empty one; otherwise the line is kept. -/
def patchFrom (entries : List DiffEntry) (number : Nat) (olds : List String) : List String :=
  match h : lineOf? entries .new number with
  | some new => new :: patchFrom entries (number + 1) olds.tail
  | none =>
    match olds with
    | [] => []
    | old :: olds =>
      if (lineOf? entries .old number).isSome ∨ old = "" then []
      else old :: patchFrom entries (number + 1) olds
termination_by entriesLeft entries number + olds.length
decreasing_by
  · have := entriesLeft_succ_lt h
    simp only [List.length_tail]
    omega
  · have := entriesLeft_succ_le entries number
    simp only [List.length_cons]
    omega

section Patch

variable {entries : List DiffEntry} {number : Nat} {olds : List String}

theorem patchFrom_of_new {new : String} (h : lineOf? entries .new number = some new) :
    patchFrom entries number olds = new :: patchFrom entries (number + 1) olds.tail := by
  rw [patchFrom.eq_def]
  split
  · next new' hnew =>
    rw [h] at hnew
    cases hnew
    rfl
  · next hnone =>
    rw [h] at hnone
    cases hnone

theorem patchFrom_nil (h : lineOf? entries .new number = none) :
    patchFrom entries number [] = [] := by
  rw [patchFrom]
  split
  · next new hnew =>
    rw [h] at hnew
    cases hnew
  · rfl

theorem patchFrom_cons {old : String} (h : lineOf? entries .new number = none) :
    patchFrom entries number (old :: olds) =
      if (lineOf? entries .old number).isSome ∨ old = "" then []
      else old :: patchFrom entries (number + 1) olds := by
  rw [patchFrom]
  split
  · next new hnew =>
    rw [h] at hnew
    cases hnew
  · rfl

end Patch

/-- Patching the lines of one text gives those of the other, if none of these is empty. -/
theorem patchFrom_diffEntriesFrom {done : List DiffEntry} {number : Nat}
    (hdone : ∀ e ∈ done, e.number < number) (olds : List String) {news : List String}
    (hnews : ∀ line ∈ news, line ≠ "") :
    patchFrom (diffEntriesFrom done number olds news) number olds = news := by
  induction news generalizing done number olds with
  | nil =>
    have hnew : lineOf? (diffEntriesFrom done number olds []) .new number = none :=
      (lineOf?_diffEntriesFrom hdone olds []).trans (lineOf?_pairEntries_empty _)
    cases olds with
    | nil => exact patchFrom_nil hnew
    | cons old olds =>
      rw [patchFrom_cons hnew, if_pos]
      by_cases hempty : old = ""
      · exact Or.inr hempty
      · rw [lineOf?_diffEntriesFrom hdone, List.headD_cons, List.headD_nil,
          lineOf?_pairEntries_old hempty hempty]
        exact Or.inl rfl
  | cons new news ih =>
    obtain ⟨hne, hnews⟩ := List.forall_mem_cons.mp hnews
    have hlater : ∀ e ∈ (pairEntries number (olds.headD "") new).reverse ++ done,
        e.number < number + 1 := by
      refine List.forall_mem_append.mpr ⟨fun e he => ?_, fun e he => ?_⟩
      · rcases mem_pairEntries (List.mem_reverse.mp he) with rfl | rfl <;>
          exact Nat.lt_succ_self number
      · exact Nat.lt_succ_of_lt (hdone e he)
    have hrest : patchFrom (diffEntriesFrom done number olds (new :: news)) (number + 1) olds.tail =
        news := by
      rw [diffEntriesFrom_step]
      exact ih hlater olds.tail hnews
    by_cases hsame : olds.headD "" = new
    -- The line is the same in both texts, so the old one has it and no entry tells of it.
    · have hnone (side : Side) :
          lineOf? (diffEntriesFrom done number olds (new :: news)) side number = none := by
        rw [lineOf?_diffEntriesFrom hdone, hsame, List.headD_cons, lineOf?_pairEntries_self]
      cases olds with
      | nil => exact absurd hsame.symm hne
      | cons old olds =>
        obtain rfl : old = new := hsame
        rw [patchFrom_cons (hnone .new), hnone .old, if_neg (by simpa using hne)]
        exact congrArg (List.cons old) hrest
    · have hnew : lineOf? (diffEntriesFrom done number olds (new :: news)) .new number = some new :=
        (lineOf?_diffEntriesFrom hdone olds (new :: news)).trans (lineOf?_pairEntries_new hsame hne)
      rw [patchFrom_of_new hnew, hrest]

/-- If the canonical form `text` of a source differs from it, `canonicalDiff` gives a diff from
which `patchFrom` rebuilds it: `text` consists of the patched lines, each closed by a line feed. -/
theorem patch_canonicalDiff {source text : String} (h : canonical {} source = .ok text)
    (hne : source ≠ text) :
    ∃ diff, canonicalDiff source = .ok (some diff) ∧
      String.join ((patchFrom (readDiff diff) 1 (textLines source)).map (· ++ "\n")) = text := by
  obtain ⟨hfilled, hjoin⟩ := lines_of_canonical h
  refine ⟨diffText source text, ?_, ?_⟩
  · rw [canonicalDiff, h, Except.map, if_neg hne]
  · have hpatch : patchFrom (diffEntries source text) 1 (textLines source) = textLines text :=
      patchFrom_diffEntriesFrom (List.forall_mem_nil _) _ hfilled
    rw [readDiff_diffText, hpatch, hjoin]

/-- A kept line and others that end with a carriage return, empty lines between and behind them, and
no line feed at the end: the diff takes away a last line that is nothing but a carriage return. -/
theorem patch_canonicalDiff_carriageReturns :
    let source := "\x7b\x7b a \x7d\x7d\r\n\r\n\x7b% if a %\x7d\x7b\x7bb\x7d\x7d\x7b% endif %\x7d" ++
      "\r\n\n\r"
    let text := "\x7b\x7b a \x7d\x7d\n\x7b% if a %\x7d\n    \x7b\x7b b \x7d\x7d\n" ++
      "\x7b% endif %\x7d\n"
    canonical {} source = .ok text ∧ source ≠ text ∧
      ∃ diff, canonicalDiff source = .ok (some diff) ∧
        String.join ((patchFrom (readDiff diff) 1 (textLines source)).map (· ++ "\n")) = text := by
  intro source text
  have h : canonical {} source = .ok text := by decide +kernel
  have hne : source ≠ text := by decide +kernel
  exact ⟨h, hne, patch_canonicalDiff h hne⟩

end Templates
