import Mathlib.Data.List.Basic
import Templates.Proofs.CanonicalText
import Templates.Proofs.FormatRuns

/-!
# Formatting again

`canonical` takes a canonical text to itself (`canonical_self`), so a second run leaves a file alone
that was formatted, provided that it can still be read: a text grows with its indentation, and a
canonical form can be larger than `maxSourceSize` (`failed_flatPage`). Such a file fails in the
second run. No other file fails then that did not fail in the first run (`format_again`).
-/

namespace Templates

variable {fs fs' : FileSystem} {path source text : String} {paths : List String}

/-! ## A file behind a run -/

/-- A file with its canonical form as its text formats to itself, if it can still be read. -/
theorem FileSystem.Formats.again (h : fs.Formats path source text)
    (hbytes : fs'.bytes path = .ok text.toUTF8) (hsize : text.utf8ByteSize ≤ maxSourceSize) :
    fs'.Formats path text text :=
  ⟨hbytes, hsize, canonical_self h.canonical⟩

theorem judge_of_tooLarge (hbytes : fs.bytes path = .ok text.toUTF8)
    (hsize : maxSourceSize < text.utf8ByteSize) :
    judge fs path = .failed (.source (.tooLarge path text.utf8ByteSize)) := by
  have hread : readSource fs path = .error (.tooLarge path text.utf8ByteSize) := by
    rw [readSource, FileSystem.size_of_bytes_eq_ok hbytes]
    exact if_pos hsize
  rw [judge, hread]

/-- The second run refuses the files that the first one refused and those with a canonical form
larger than `maxSourceSize`. -/
theorem FileSystem.Formatted.refused_iff (h : fs.Formatted paths fs') (hpath : path ∈ paths) :
    fs'.Refused path ↔ fs.Refused path ∨
      ∃ source text, fs.Formats path source text ∧ maxSourceSize < text.utf8ByteSize := by
  by_cases hrefused : fs.Refused path
  · have hbytes := h.refused path hpath hrefused
    refine ⟨fun _ => .inl hrefused, fun _ source text hf => ?_⟩
    exact hrefused source text (hf.congr hbytes.symm)
  · rw [or_iff_right hrefused]
    constructor
    · intro hrefused'
      obtain ⟨source, text, hf⟩ := FileSystem.not_refused_iff.mp hrefused
      refine ⟨source, text, hf, Nat.lt_of_not_le fun hsize => ?_⟩
      exact hrefused' text text (hf.again (h.formatted path hpath source text hf) hsize)
    · rintro ⟨source, text, hf, hsize⟩ source' text' hf'
      obtain rfl := hf'.source_eq (h.formatted path hpath source text hf)
      exact Nat.not_lt.mpr hf'.size hsize

/-- A file that is not refused is canonical in the second run. -/
theorem FileSystem.Formatted.eq_of_formats (h : fs.Formatted paths fs') (hpath : path ∈ paths)
    (hformats : fs'.Formats path source text) : source = text := by
  by_cases hrefused : fs.Refused path
  · exact absurd (hformats.congr (h.refused path hpath hrefused).symm) (hrefused source text)
  · obtain ⟨old, canon, hf⟩ := FileSystem.not_refused_iff.mp hrefused
    obtain rfl := hformats.source_eq (h.formatted path hpath old canon hf)
    exact Except.ok.inj ((canonical_self hf.canonical).symm.trans hformats.canonical)

/-- No file is stale in the second run. -/
theorem FileSystem.Formatted.exists_divides (h : fs.Formatted paths fs') :
    ∃ failures, fs'.Divides paths [] failures := by
  obtain ⟨stale, failures, hdivides⟩ := fs'.exists_divides paths
  have hstale : stale = [] := by
    refine List.eq_nil_iff_forall_not_mem.mpr fun f hf => ?_
    obtain ⟨hpath, hformats, hne⟩ := hdivides.mem_stale_iff.mp hf
    exact hne (h.eq_of_formats hpath hformats)
  exact ⟨failures, hstale ▸ hdivides⟩

/-! ## The next run -/

theorem formatFiles_singleton (fs : FileSystem) (mode : FormatMode) (path : String) :
    formatFiles fs mode [path] = (FormatRun.start fs).step mode path := rfl

/-- A run over one file writes its canonical form, or fails if it has none. -/
theorem formatFiles_one (fs : FileSystem) (path : String) :
    fs.Formatted [path] (formatFiles fs .write [path]).fs ∧
      ((formatFiles fs .write [path]).failed = 0 ↔ ¬fs.Refused path) := by
  obtain ⟨stale, failures, hdivides⟩ := fs.exists_divides [path]
  have hapart : [path].Pairwise fs.Apart := List.pairwise_singleton _ _
  obtain ⟨fs', hfold, hleaves⟩ := FormatRun.exists_foldl_step .write (.start fs) hapart hdivides
  rw [formatFiles, hfold]
  refine ⟨FileSystem.Rewrites.formatted hleaves hdivides hapart, ?_⟩
  simpa [FormatRun.after, FormatRun.start] using hdivides.failures_eq_nil_iff

theorem FileSystem.Formats.bytes_formatFiles (h : fs.Formats path source text) :
    (formatFiles fs .write [path]).fs.bytes path = .ok text.toUTF8 :=
  (formatFiles_one fs path).1.formatted path (List.mem_singleton_self path) source text h

/-- The second run over a file depends on the size of its canonical form. -/
theorem FileSystem.Formats.formatFiles_again (h : fs.Formats path source text)
    (hbytes : fs'.bytes path = .ok text.toUTF8) :
    formatFiles fs' .write [path] =
      if text.utf8ByteSize ≤ maxSourceSize then .start fs'
      else (FormatRun.start fs').fail (.source (.tooLarge path text.utf8ByteSize)) := by
  rw [formatFiles_singleton]
  split
  · next hsize => exact FormatRun.step_canonical (h.again hbytes hsize)
  · next hsize => exact FormatRun.step_failed (judge_of_tooLarge hbytes (Nat.lt_of_not_le hsize))

/-- The effect of a second run of the command on the templates that a path leads to. -/
structure FormatsAgain (fs : FileSystem) (path : String) (failures : List FormatFailure) :
    Prop where
  /-- The templates divide into failing and canonical ones. -/
  divides : (runFormat fs path .write).fs.Divides (fs.templates path) [] failures
  /-- Those fail that failed before and those whose canonical form is too large. -/
  refused_iff : ∀ p ∈ fs.templates path, (runFormat fs path .write).fs.Refused p ↔
    fs.Refused p ∨ ∃ source text, fs.Formats p source text ∧ maxSourceSize < text.utf8ByteSize
  /-- No file is changed, and there is nothing to tell but the failures. -/
  run : runFormat (runFormat fs path .write).fs path .write =
    { code := if failures = [] then 0 else 1
      stdout := FormatMode.write.summary (fs.templates path).length 0 failures.length
      stderr := String.join (failures.map (·.message ++ "\n"))
      fs := (runFormat fs path .write).fs }

theorem exists_formatsAgain (hfs : fs.root.WellFormed) (hfiles : fs.templates path ≠ []) :
    ∃ failures, FormatsAgain fs path failures := by
  have hapart := FileSystem.apart_templates hfs path
  obtain ⟨stale, failures, hdivides⟩ := fs.exists_divides (fs.templates path)
  obtain ⟨fs', hleaves, hrun⟩ := exists_runFormat hapart hfiles hdivides .write
  have hfirst : (runFormat fs path .write).fs = fs' := by rw [hrun]
  have hformatted := FileSystem.Rewrites.formatted hleaves hdivides hapart
  have htemplates := FileSystem.templates_congr hformatted.outline path
  -- The same templates are looked at, and none of them is stale any more.
  obtain ⟨failures', hdivides'⟩ := hformatted.exists_divides
  have hapart' : (fs.templates path).Pairwise fs'.Apart :=
    hapart.imp fun h => (FileSystem.apart_congr hformatted.outline _ _).mpr h
  rw [← htemplates] at hapart' hfiles hdivides'
  obtain ⟨last, hleaves', hrun'⟩ := exists_runFormat hapart' hfiles hdivides' .write
  obtain rfl : last = fs' := FileSystem.Rewrites.unchanged hleaves' rfl
  rw [htemplates] at hdivides' hrun'
  refine ⟨failures', hfirst ▸ hdivides', fun p hp => hfirst ▸ hformatted.refused_iff hp, ?_⟩
  rw [hfirst, hrun', Outcome.mk.injEq]
  exact ⟨by simp [FormatMode.code], by simp, rfl, rfl⟩

/-! ## The size of a canonical form -/

/-- The bytes of the lines of some rows. -/
def rowBytes (style : Style) : List Row → Nat
  | [] => 0
  | r :: rows => (r.line style).utf8ByteSize + rowBytes style rows

theorem utf8ByteSize_text (style : Style) (t : Template) :
    (Template.text style t).utf8ByteSize = rowBytes style (Template.rows style t) := by
  rw [Template.text_eq_join]
  induction Template.rows style t with
  | nil => rfl
  | cons r rows ih =>
    rw [List.map_cons, String.join_cons, String.utf8ByteSize_append, ih, rowBytes]

theorem Row.utf8ByteSize_line (style : Style) {r : Row} (h : r.text ≠ "") :
    (r.line style).utf8ByteSize = r.depth * style.indentWidth + r.text.utf8ByteSize + 1 := by
  have hspaces (n : Nat) : (String.ofList (List.replicate n ' ')).utf8ByteSize = n := by
    induction n with
    | zero => rfl
    | succ n ih =>
      rw [List.replicate_succ', String.ofList_append, String.utf8ByteSize_append, ih]
      rfl
  rw [line, if_neg (by simpa using h), String.utf8ByteSize_append, String.utf8ByteSize_append,
    hspaces]
  rfl

/-- Conditionals inside each other, around a body. -/
def nested (body : Template) : Nat → Template
  | 0 => body
  | n + 1 => [.cond .first (.ident .first "a") (nested body n) .done]

/-- Some bare names in succession. -/
def bareNames (n : Nat) : Template := List.replicate n (.bare (.ident .first "a"))

theorem rowBytes_cons (style : Style) (depth : Nat) {text : String} (h : text ≠ "")
    (rows : List Row) : rowBytes style (⟨depth, text⟩ :: rows) =
      depth * style.indentWidth + text.utf8ByteSize + 1 + rowBytes style rows := by
  rw [rowBytes, Row.utf8ByteSize_line style h]

theorem rowBytes_append (style : Style) (rows rows' : List Row) :
    rowBytes style (rows ++ rows') = rowBytes style rows + rowBytes style rows' := by
  induction rows with
  | nil => exact (Nat.zero_add _).symm
  | cons r rows ih => rw [List.cons_append, rowBytes, rowBytes, ih, Nat.add_assoc]

/-- The tags of a conditional have 23 bytes. -/
theorem rowBytes_nested (style : Style) (body : Template) (depth n : Nat) :
    rowBytes style (bodyRows style depth false (nested body (n + 1))) =
      2 * (depth * style.indentWidth) + 23 +
        rowBytes style (bodyRows style (depth + 1) false (nested body n)) := by
  have hif : (headTag .if_ (Expr.ident .first "a").text).utf8ByteSize = 10 := by decide
  have hendif : (wordTag .endif).utf8ByteSize = 11 := by decide
  rw [nested, bodyRows, Stmt.rows, bodyRows, List.append_nil, Branches.rows,
    rowBytes_cons style depth (by decide), rowBytes_append, rowBytes_cons style depth (by decide),
    hif, hendif, rowBytes]
  omega

theorem rowBytes_bareNames (style : Style) (depth n : Nat) (afterBare : Bool) :
    rowBytes style (bodyRows style depth afterBare (bareNames n)) =
      n * (depth * style.indentWidth + 2) := by
  induction n generalizing afterBare with
  | zero => simp [bareNames, bodyRows, rowBytes]
  | succ n ih =>
    have hbare : bareText afterBare (.ident .first "a") = "a" := by cases afterBare <;> rfl
    have hone : "a".utf8ByteSize = 1 := rfl
    rw [bareNames, List.replicate_succ, ← bareNames, bodyRows, Stmt.rows, List.singleton_append,
      hbare, rowBytes_cons style depth (by decide), ih, hone, Nat.succ_mul]
    omega

theorem rowBytes_nested_bareNames (style : Style) (h : style.indentWidth = 0) (depth n m : Nat) :
    rowBytes style (bodyRows style depth false (nested (bareNames m) n)) = 23 * n + 2 * m := by
  induction n generalizing depth with
  | zero =>
    rw [nested, rowBytes_bareNames, h]
    omega
  | succ n ih =>
    rw [rowBytes_nested, ih, h]
    omega

/-- The innermost body is indented once for each conditional around it. -/
theorem le_rowBytes_nested (style : Style) (depth n m : Nat) :
    m * ((depth + n) * style.indentWidth + 2) ≤
      rowBytes style (bodyRows style depth false (nested (bareNames m) n)) := by
  induction n generalizing depth with
  | zero => rw [nested, rowBytes_bareNames, Nat.add_zero]; exact Nat.le_refl _
  | succ n ih =>
    rw [rowBytes_nested, show depth + (n + 1) = depth + 1 + n by omega]
    exact Nat.le_trans (ih (depth + 1)) (Nat.le_add_left _ _)

theorem bodySpellable_nested_bareNames (n m : Nat) : BodySpellable (nested (bareNames m) n) := by
  have ha : IsName "a" := by decide
  induction n with
  | zero =>
    induction m with
    | zero => exact trivial
    | succ m ih => exact ⟨ha, ih⟩
  | succ n ih => simp [nested, BodySpellable, Stmt.Spellable, Branches.Spellable, Expr.Spellable, *]

/-- A directory with one file: conditionals around some bare names, without indentation. -/
def flatPage (n m : Nat) : FileSystem where
  root := .dir "" [.file "page.nsl"
    (Template.text { indentWidth := 0 } (nested (bareNames m) n)).toUTF8]
  here := []

/-- Formatting the page indents it. -/
theorem formats_flatPage (n m : Nat) (h : 23 * n + 2 * m ≤ maxSourceSize) :
    (flatPage n m).Formats "page.nsl" (Template.text { indentWidth := 0 } (nested (bareNames m) n))
      (Template.text {} (nested (bareNames m) n)) := by
  obtain ⟨t, hparse, herase⟩ :=
    exists_parseSource_text { indentWidth := 0 } (bodySpellable_nested_bareNames n m)
  refine ⟨rfl, ?_, ?_⟩
  · rw [utf8ByteSize_text, Template.rows, rowBytes_nested_bareNames _ rfl]
    exact h
  · rw [canonical_eq_ok hparse, Template.text_congr {} herase]

theorem formats_mixedDirectory :
    mixedDirectory.Formats "d/a.nsl" "\x7b\x7ba\x7d\x7d" "\x7b\x7b a \x7d\x7d\n" :=
  ⟨rfl, by decide, by decide +kernel⟩

theorem refused_mixedDirectory : mixedDirectory.Refused "d/c.nsl" := by
  intro source text h
  obtain rfl : source = "\x7b\x7b" := h.source_eq rfl
  have herror : (canonical {} "\x7b\x7b").toOption = none := by decide +kernel
  rw [h.canonical] at herror
  cases herror

/-! ## Formatting twice -/

/-- If a run over one file does not fail, a second run leaves the file alone, or refuses it because
its canonical form is larger than `maxSourceSize`. A second run over the templates that a path leads
to rewrites none of them (`FormatsAgain`) and fails on those that failed before and those with such
a canonical form. -/
theorem format_again (fs : FileSystem) (path : String) :
    ((formatFiles fs .write [path]).failed = 0 →
      ∃ size, (formatFiles fs .write [path]).fs.size path = .ok size ∧
        formatFiles (formatFiles fs .write [path]).fs .write [path] =
          if size ≤ maxSourceSize then .start (formatFiles fs .write [path]).fs
          else (FormatRun.start (formatFiles fs .write [path]).fs).fail
            (.source (.tooLarge path size))) ∧
      (fs.root.WellFormed → fs.templates path ≠ [] →
        ∃ failures, FormatsAgain fs path failures) := by
  refine ⟨fun h => ?_, exists_formatsAgain⟩
  have hrefused := (formatFiles_one fs path).2.mp h
  obtain ⟨source, text, hformats⟩ := FileSystem.not_refused_iff.mp hrefused
  have hbytes := hformats.bytes_formatFiles
  exact ⟨text.utf8ByteSize, FileSystem.size_of_bytes_eq_ok hbytes,
    hformats.formatFiles_again hbytes⟩

theorem format_again_flatPage :
    (formatFiles (flatPage 1 1) .write ["page.nsl"]).failed = 0 ∧ (flatPage 1 1).root.WellFormed ∧
      (flatPage 1 1).templates "page.nsl" ≠ [] ∧
      (∃ size, (formatFiles (flatPage 1 1) .write ["page.nsl"]).fs.size "page.nsl" = .ok size ∧
        formatFiles (formatFiles (flatPage 1 1) .write ["page.nsl"]).fs .write ["page.nsl"] =
          if size ≤ maxSourceSize then .start (formatFiles (flatPage 1 1) .write ["page.nsl"]).fs
          else (FormatRun.start (formatFiles (flatPage 1 1) .write ["page.nsl"]).fs).fail
            (.source (.tooLarge "page.nsl" size))) ∧
      (∃ failures, FormatsAgain (flatPage 1 1) "page.nsl" failures) ∧
      mixedDirectory.root.WellFormed ∧ mixedDirectory.templates "d" ≠ [] ∧
      mixedDirectory.Formats "d/a.nsl" "\x7b\x7ba\x7d\x7d" "\x7b\x7b a \x7d\x7d\n" ∧
      mixedDirectory.Refused "d/c.nsl" ∧
      ∃ failures, FormatsAgain mixedDirectory "d" failures ∧ failures ≠ [] := by
  have hformats := formats_flatPage 1 1 (by decide)
  have hfailed : (formatFiles (flatPage 1 1) .write ["page.nsl"]).failed = 0 :=
    (formatFiles_one _ _).2.mpr (FileSystem.not_refused_iff.mpr ⟨_, _, hformats⟩)
  have hroot : (flatPage 1 1).root.WellFormed := by
    refine .dir (by decide) (List.pairwise_singleton _ _) fun e he => ?_
    rw [List.mem_singleton.mp he]
    exact .file ..
  have hnode : (flatPage 1 1).node "page.nsl" = .ok (.file "page.nsl" _) := rfl
  have hmem : "page.nsl" ∈ (flatPage 1 1).templates "page.nsl" :=
    (FileSystem.mem_templates hnode).mpr (by decide)
  have hfiles := List.ne_nil_of_mem hmem
  have hagain := format_again (flatPage 1 1) "page.nsl"
  have hc : "d/c.nsl" ∈ mixedDirectory.templates "d" :=
    mem_templates_mixedDirectory.mpr (by decide)
  have hmixed := List.ne_nil_of_mem hc
  obtain ⟨failures, hfailures⟩ :=
    (format_again mixedDirectory "d").2 wellFormed_mixedDirectory hmixed
  have hrefused := (hfailures.refused_iff "d/c.nsl" hc).mpr (.inl refused_mixedDirectory)
  refine ⟨hfailed, hroot, hfiles, hagain.1 hfailed, hagain.2 hroot hfiles,
    wellFormed_mixedDirectory, hmixed, formats_mixedDirectory, refused_mixedDirectory, failures,
    hfailures, fun hnil => ?_⟩
  exact hfailures.divides.failures_eq_nil_iff.mp hnil ⟨_, hc, hrefused⟩

/-- Indentation can make a page too large: 256 conditionals around 10240 lines turn its 26368 bytes
into more than 10 MiB. Formatting it succeeds, and formatting it again fails. -/
theorem failed_flatPage :
    (formatFiles (flatPage 256 10240) .write ["page.nsl"]).failed = 0 ∧
      (formatFiles (formatFiles (flatPage 256 10240) .write ["page.nsl"]).fs
        .write ["page.nsl"]).failed = 1 := by
  have hformats := formats_flatPage 256 10240 (by decide)
  have hlarge : maxSourceSize < (Template.text {} (nested (bareNames 10240) 256)).utf8ByteSize := by
    rw [utf8ByteSize_text, Template.rows]
    exact Nat.lt_of_lt_of_le (by decide) (le_rowBytes_nested {} 0 256 10240)
  refine ⟨(formatFiles_one _ _).2.mpr (FileSystem.not_refused_iff.mpr ⟨_, _, hformats⟩), ?_⟩
  rw [hformats.formatFiles_again hformats.bytes_formatFiles, if_neg (Nat.not_le.mpr hlarge)]
  rfl

end Templates
