import Mathlib.Data.List.Pairwise
import Templates.Command.Run
import Templates.Proofs.EntryPaths
import Templates.Proofs.FormatVerdicts

/-!
# Runs over several files

No two of the templates that a path leads to are the same file (`FileSystem.apart_templates`), so
writing one of them does not change the verdict of `judge` about the others. What a run does is
settled by `FileSystem.Divides` before it starts, and the modes differ only in what they do about
the stale files. `exists_step_stale` is the step that may write, `exists_foldl_step` gives the run
in one equation for every mode.
-/

namespace Templates

/-! ## What a run leaves of the files -/

namespace FileSystem

variable {fs fs' : FileSystem} {paths : List String} {stale : List StaleFile}
  {failures : List FormatFailure}

theorem apart_congr (houtline : fs'.outline = fs.outline) (p q : String) :
    fs'.Apart p q ↔ fs.Apart p q := by
  simp only [Apart, place_congr houtline]

/-- Stale files hold their canonical forms, and nothing else has changed. -/
structure Rewrites (fs : FileSystem) (stale : List StaleFile) (fs' : FileSystem) : Prop where
  outline : fs'.outline = fs.outline
  written : ∀ f ∈ stale, fs'.bytes f.path = .ok f.text.toUTF8
  kept : ∀ path, (∀ f ∈ stale, fs.Apart f.path path) → fs'.bytes path = fs.bytes path
  unchanged : stale = [] → fs' = fs

theorem Rewrites.nil (fs : FileSystem) : fs.Rewrites [] fs :=
  ⟨rfl, nofun, fun _ _ => rfl, fun _ => rfl⟩

/-- Writing one stale file. -/
theorem Formats.exists_write {path source text : String} (h : fs.Formats path source text) :
    ∃ fs', fs.write path text = .ok fs' ∧ fs.Rewrites [⟨path, source, text⟩] fs' := by
  have hroot := isDir_of_bytes h.bytes
  obtain ⟨fs', hwrite, houtline, hbytes⟩ := FileSystem.exists_write hroot h.bytes text
  refine ⟨fs', hwrite, houtline, fun f hf => ?_, fun other hother => ?_, nofun⟩
  · rw [List.mem_singleton.mp hf]
    exact (hbytes path).1 rfl
  · have hapart := hother _ (List.mem_singleton_self _)
    obtain ⟨names, last, hplace, -⟩ := exists_of_bytes_eq_ok hroot h.bytes
    exact (hbytes other).2 fun heq => hapart _ hplace (heq.trans hplace)

theorem Rewrites.cons {f : StaleFile} {mid : FileSystem} (hfirst : fs.Rewrites [f] mid)
    (hrest : mid.Rewrites stale fs') (hapart : ∀ g ∈ stale, fs.Apart f.path g.path) :
    fs.Rewrites (f :: stale) fs' := by
  refine ⟨hrest.outline.trans hfirst.outline, fun g hg => ?_, fun path hpath => ?_, nofun⟩
  · rcases List.mem_cons.mp hg with rfl | hg
    · rw [hrest.kept _ fun g hg => ((apart_congr hfirst.outline _ _).mpr (hapart g hg)).symm]
      exact hfirst.written _ (List.mem_singleton_self _)
    · exact hrest.written g hg
  · rw [List.forall_mem_cons] at hpath
    rw [hrest.kept path fun g hg => (apart_congr hfirst.outline _ _).mpr (hpath.2 g hg)]
    exact hfirst.kept path fun g hg => List.mem_singleton.mp hg ▸ hpath.1

end FileSystem

/-! ## The run -/

/-- `mode.Leaves fs stale fs'`: a run of the mode turns `fs`, where the files `stale` are stale,
into `fs'`. -/
def FormatMode.Leaves (fs : FileSystem) (stale : List StaleFile) (fs' : FileSystem) :
    FormatMode → Prop
  | .write => fs.Rewrites stale fs'
  | .check | .diff => fs' = fs

namespace FormatMode.Leaves

variable {mode : FormatMode} {fs mid fs' : FileSystem} {stale : List StaleFile}

theorem nil (mode : FormatMode) (fs : FileSystem) : mode.Leaves fs [] fs := by
  cases mode with
  | write => exact FileSystem.Rewrites.nil fs
  | check | diff => rfl

theorem outline (h : mode.Leaves fs stale fs') : fs'.outline = fs.outline := by
  cases mode with
  | write => exact FileSystem.Rewrites.outline h
  | check | diff => exact congrArg FileSystem.outline h

theorem kept (h : mode.Leaves fs stale fs') {path : String}
    (hpath : ∀ f ∈ stale, fs.Apart f.path path) : fs'.bytes path = fs.bytes path := by
  cases mode with
  | write => exact FileSystem.Rewrites.kept h path hpath
  | check | diff => exact congrArg (·.bytes path) h

theorem cons {f : StaleFile} (hfirst : mode.Leaves fs [f] mid) (hrest : mode.Leaves mid stale fs')
    (hapart : ∀ g ∈ stale, fs.Apart f.path g.path) : mode.Leaves fs (f :: stale) fs' := by
  cases mode with
  | write => exact FileSystem.Rewrites.cons hfirst hrest hapart
  | check | diff => exact hrest.trans hfirst

end FormatMode.Leaves

namespace FormatRun

/-- A run that has looked at more files, of which some were stale and some failed. -/
def after (r : FormatRun) (mode : FormatMode) (fs : FileSystem) (stale : List StaleFile)
    (failures : List FormatFailure) : FormatRun where
  fs := fs
  out := r.out ++ stale.map (·.entry mode)
  err := r.err ++ failures.map FormatFailure.message
  rewritten := r.rewritten + if mode = .write then stale.length else 0
  stale := r.stale + if mode = .write then 0 else stale.length
  failed := r.failed + failures.length

variable {mode : FormatMode} {r : FormatRun} {path : String}

theorem after_nil (r : FormatRun) (mode : FormatMode) : r.after mode r.fs [] [] = r := by
  simp [after]

theorem after_after (r : FormatRun) (mode : FormatMode) (mid fs : FileSystem)
    (stale stale' : List StaleFile) (failures failures' : List FormatFailure) :
    (r.after mode mid stale failures).after mode fs stale' failures' =
      r.after mode fs (stale ++ stale') (failures ++ failures') := by
  simp only [after, List.map_append, List.append_assoc, List.length_append, Nat.add_assoc,
    FormatRun.mk.injEq, true_and]
  split <;> simp

theorem after_singleton (r : FormatRun) (mode : FormatMode) (fs : FileSystem) (f : StaleFile) :
    r.after mode fs [f] [] =
      { r with
        fs := fs
        out := r.out ++ [f.entry mode]
        rewritten := r.rewritten + if mode = .write then 1 else 0
        stale := r.stale + if mode = .write then 0 else 1 } := by
  simp [after]

theorem step_canonical {source : String} (h : r.fs.Formats path source source) :
    r.step mode path = r := by
  rw [step, judge_of_formats h, if_pos rfl]

theorem step_failed {failure : FormatFailure} (h : judge r.fs path = .failed failure) :
    r.step mode path = r.fail failure := by
  rw [step, h]

theorem fail_eq_after (r : FormatRun) (mode : FormatMode) (failure : FormatFailure) :
    r.fail failure = r.after mode r.fs [] [failure] := by
  simp [after, fail]

/-- A stale file is reported in every mode, and written if that is the mode. -/
theorem exists_step_stale (mode : FormatMode) {source text : String}
    (h : r.fs.Formats path source text) (hne : source ≠ text) :
    ∃ fs', r.step mode path = r.after mode fs' [⟨path, source, text⟩] [] ∧
      mode.Leaves r.fs [⟨path, source, text⟩] fs' := by
  rw [step, judge_of_formats h, if_neg hne]
  cases mode with
  | write =>
    obtain ⟨fs', hwrite, hrewrites⟩ := h.exists_write
    refine ⟨fs', ?_, hrewrites⟩
    simp only [hwrite]
    rw [after_singleton]
    rfl
  | check | diff =>
    refine ⟨r.fs, ?_, rfl⟩
    rw [after_singleton]
    rfl

/-- A run over files that are `Apart` does what `Divides` says about the files as they were before
the run. -/
theorem exists_foldl_step (mode : FormatMode) {paths : List String} {stale : List StaleFile}
    {failures : List FormatFailure} (r : FormatRun) (hapart : paths.Pairwise r.fs.Apart)
    (h : r.fs.Divides paths stale failures) :
    ∃ fs', paths.foldl (step mode) r = r.after mode fs' stale failures ∧
      mode.Leaves r.fs stale fs' := by
  induction paths generalizing r stale failures with
  | nil =>
    cases h
    exact ⟨r.fs, (r.after_nil mode).symm, .nil mode r.fs⟩
  | cons path paths ih =>
    rw [List.pairwise_cons] at hapart
    rw [List.foldl_cons]
    cases h with
    | canonical hformats hrest =>
      rw [step_canonical hformats]
      exact ih r hapart.2 hrest
    | failed hrefused hjudge hpath hrest =>
      rw [step_failed hjudge, fail_eq_after r mode]
      obtain ⟨fs', hfold, hleaves⟩ := ih (r.after mode r.fs [] [_]) hapart.2 hrest
      exact ⟨fs', by rw [hfold, after_after]; rfl, hleaves⟩
    | @stale _ source text _ stale _ hformats hne hrest =>
      obtain ⟨mid, hstep, hmid⟩ := exists_step_stale mode hformats hne
      have houtline : mid.outline = r.fs.outline := hmid.outline
      have hrest' : mid.Divides paths stale failures := by
        refine hrest.congr houtline fun other hother => hmid.kept fun f hf => ?_
        rw [List.mem_singleton.mp hf]
        exact hapart.1 other hother
      rw [hstep]
      obtain ⟨fs', hfold, hleaves⟩ := ih (r.after mode mid [⟨path, source, text⟩] [])
        (hapart.2.imp fun h => (FileSystem.apart_congr houtline _ _).mpr h) hrest'
      refine ⟨fs', by rw [hfold, after_after]; rfl, hmid.cons hleaves fun g hg => ?_⟩
      exact hapart.1 g.path (hrest.mem_stale_iff.mp hg).1

end FormatRun

/-! ## The modes of the command -/

/-- The line that sums up a run over some files, of which some were stale and some failed. -/
def FormatMode.summary (files stale failed : Nat) : FormatMode → String
  | .write =>
    toString stale ++ " of " ++ toString files ++ " file(s) reformatted, " ++
      toString failed ++ " error(s)\n"
  | .check | .diff =>
    if stale = 0 ∧ failed = 0 then toString files ++ " file(s) already formatted\n"
    else toString stale ++ " of " ++ toString files ++ " file(s) need formatting\n"

/-- The exit status of a run over files of which some were stale and some failed. -/
def FormatMode.code (stale failed : Nat) : FormatMode → Nat
  | .write => if failed = 0 then 0 else 1
  | .check | .diff => if stale = 0 ∧ failed = 0 then 0 else 1

/-- The files have their canonical forms, as far as they have any, and nothing else has changed. -/
structure FileSystem.Formatted (fs : FileSystem) (paths : List String) (fs' : FileSystem) :
    Prop where
  /-- No file and no directory has come, gone or got another name. -/
  outline : fs'.outline = fs.outline
  /-- A file holds its canonical form. -/
  formatted : ∀ path ∈ paths, ∀ source text, fs.Formats path source text →
    fs'.bytes path = .ok text.toUTF8
  /-- A file that has none is what it was. -/
  refused : ∀ path ∈ paths, fs.Refused path → fs'.bytes path = fs.bytes path
  /-- All other files are as they were. -/
  outside : ∀ other, (∀ path ∈ paths, fs.Apart path other) → fs'.bytes other = fs.bytes other

open scoped Classical in
/-- The effect of the command on the templates that a path leads to, in each of its modes. -/
structure FormatModes (fs : FileSystem) (path : String) (stale : List StaleFile)
    (failures : List FormatFailure) : Prop where
  /-- The templates divide into stale, failing and canonical ones. -/
  divides : fs.Divides (fs.templates path) stale failures
  /-- The files behind a run that writes. -/
  formatted : fs.Formatted (fs.templates path) (runFormat fs path .write).fs
  /-- It does not change a file in the other modes. -/
  reported : ∀ mode, mode ≠ .write → (runFormat fs path mode).fs = fs
  /-- Every mode tells of the stale templates, -/
  stdout : ∀ mode, (runFormat fs path mode).stdout =
    String.join (stale.map (·.entry mode)) ++
      mode.summary (fs.templates path).length stale.length failures.length
  /-- and of the failing ones. -/
  stderr : ∀ mode, (runFormat fs path mode).stderr =
    String.join (failures.map (·.message ++ "\n"))
  /-- Writing succeeds unless a template fails. -/
  code_write : (runFormat fs path .write).code =
    if ∃ p ∈ fs.templates path, fs.Refused p then 1 else 0
  /-- The other modes succeed if all templates are canonical. -/
  code_report : ∀ mode, mode ≠ .write → (runFormat fs path mode).code =
    if ∀ p ∈ fs.templates path, ∃ source, fs.Formats p source source then 0 else 1

section Modes

variable {fs fs' : FileSystem} {paths : List String} {stale : List StaleFile}
  {failures : List FormatFailure}

theorem FileSystem.Rewrites.formatted (h : fs.Rewrites stale fs')
    (hdivides : fs.Divides paths stale failures) (hapart : paths.Pairwise fs.Apart) :
    fs.Formatted paths fs' := by
  have kept {path : String} (hpath : path ∈ paths) (hnot : ∀ f ∈ stale, f.path ≠ path) :
      fs'.bytes path = fs.bytes path := by
    refine h.kept path fun f hf => ?_
    exact hapart.forall (hdivides.mem_stale_iff.mp hf).1 hpath (hnot f hf)
  refine ⟨h.outline, fun path hpath source text hformats => ?_, fun path hpath hrefused => ?_,
    fun other hother => ?_⟩
  · by_cases hstale : ∃ f ∈ stale, f.path = path
    · obtain ⟨f, hf, rfl⟩ := hstale
      obtain ⟨-, rfl⟩ := hformats.unique (hdivides.mem_stale_iff.mp hf).2.1
      exact h.written f hf
    · have hsame : source = text := by
        by_contra hne
        exact hstale ⟨⟨path, source, text⟩, hdivides.mem_stale_iff.mpr ⟨hpath, hformats, hne⟩, rfl⟩
      rw [kept hpath fun f hf heq => hstale ⟨f, hf, heq⟩, hformats.bytes, hsame]
  · refine kept hpath fun f hf heq => ?_
    exact hrefused _ _ (heq ▸ (hdivides.mem_stale_iff.mp hf).2.1)
  · exact h.kept other fun f hf => hother f.path (hdivides.mem_stale_iff.mp hf).1

/-- The command in one equation, for every mode. -/
theorem exists_runFormat {path : String} (hapart : (fs.templates path).Pairwise fs.Apart)
    (hfiles : fs.templates path ≠ []) (h : fs.Divides (fs.templates path) stale failures)
    (mode : FormatMode) : ∃ fs', mode.Leaves fs stale fs' ∧ runFormat fs path mode =
      { code := mode.code stale.length failures.length
        stdout := String.join (stale.map (·.entry mode)) ++
          mode.summary (fs.templates path).length stale.length failures.length
        stderr := String.join (failures.map (·.message ++ "\n"))
        fs := fs' } := by
  obtain ⟨fs', hfold, hleaves⟩ := FormatRun.exists_foldl_step mode (.start fs) hapart h
  refine ⟨fs', hleaves, ?_⟩
  rw [runFormat]
  split
  · next hnil => exact absurd hnil hfiles
  · rw [formatFiles, hfold, Outcome.mk.injEq]
    refine ⟨?_, ?_, ?_, rfl⟩
    · cases mode <;> simp [FormatRun.isClean, FormatRun.after, FormatRun.start, FormatMode.code]
    · cases mode <;>
        simp only [FormatRun.after, FormatRun.start, List.nil_append, FormatRun.summary,
          FormatMode.summary, Nat.zero_add, if_true, reduceCtorEq, if_false]
    · simp only [FormatRun.after, FormatRun.start, List.nil_append, List.map_map]
      rfl

/-- `fmt` writes exactly the templates that have a canonical form and are not in it. A file that
fails does not keep the others from being formatted, and all modes tell of the same stale and
failing files. -/
theorem runFormat_modes {path : String} (hfs : fs.root.WellFormed)
    (hfiles : fs.templates path ≠ []) : ∃ stale failures, FormatModes fs path stale failures := by
  have hapart := FileSystem.apart_templates hfs path
  obtain ⟨stale, failures, hdivides⟩ := fs.exists_divides (fs.templates path)
  have hrun := exists_runFormat hapart hfiles hdivides
  refine ⟨stale, failures, hdivides, ?_, fun mode hmode => ?_, fun mode => ?_, fun mode => ?_, ?_,
    fun mode hmode => ?_⟩
  · obtain ⟨fs', hleaves, heq⟩ := hrun .write
    rw [heq]
    exact FileSystem.Rewrites.formatted hleaves hdivides hapart
  · obtain ⟨fs', hleaves, heq⟩ := hrun mode
    rw [heq]
    cases mode with
    | write => exact absurd rfl hmode
    | check | diff => exact hleaves
  · obtain ⟨fs', -, heq⟩ := hrun mode
    rw [heq]
  · obtain ⟨fs', -, heq⟩ := hrun mode
    rw [heq]
  · obtain ⟨fs', -, heq⟩ := hrun .write
    have hnil := List.length_eq_zero_iff.trans hdivides.failures_eq_nil_iff
    rw [heq]
    by_cases hrefused : ∃ p ∈ fs.templates path, fs.Refused p
    · rw [if_pos hrefused]
      exact if_neg fun hlength => hnil.mp hlength hrefused
    · rw [if_neg hrefused]
      exact if_pos (hnil.mpr hrefused)
  · obtain ⟨fs', -, heq⟩ := hrun mode
    simp only [heq, ← hdivides.eq_nil_iff]
    cases mode with
    | write => exact absurd rfl hmode
    | check | diff => simp only [FormatMode.code, List.length_eq_zero_iff]

/-- A directory with a stale template, a canonical one and one with a syntax error. -/
def mixedDirectory : FileSystem where
  root := .dir "" [.dir "d" [.file "a.nsl" "\x7b\x7ba\x7d\x7d".toUTF8,
    .file "b.nsl" "\x7b\x7b b \x7d\x7d\n".toUTF8, .file "c.nsl" "\x7b\x7b".toUTF8]]
  here := []

theorem wellFormed_mixedDirectory : mixedDirectory.root.WellFormed := by
  refine .dir (by decide) (by decide) ?_
  rintro e (_ | ⟨_, _ | _⟩)
  refine .dir (by decide) (by decide) ?_
  rintro e (_ | ⟨_, _ | ⟨_, _ | ⟨_, _ | _⟩⟩⟩) <;> exact .file ..

theorem mem_templates_mixedDirectory {path : String} :
    path ∈ mixedDirectory.templates "d" ↔ path ∈ ["d/a.nsl", "d/b.nsl", "d/c.nsl"] := by
  have hnode : mixedDirectory.node "d" = .ok (.dir "d" _) := rfl
  exact FileSystem.mem_templates hnode

theorem runFormat_modes_mixedDirectory :
    mixedDirectory.root.WellFormed ∧ mixedDirectory.templates "d" ≠ [] ∧
      ∃ stale failures, FormatModes mixedDirectory "d" stale failures := by
  have hfiles : mixedDirectory.templates "d" ≠ [] :=
    List.ne_nil_of_mem (mem_templates_mixedDirectory.mpr List.mem_cons_self)
  exact ⟨wellFormed_mixedDirectory, hfiles, runFormat_modes wellFormed_mixedDirectory hfiles⟩

/-! ## Runs of the program -/

/-- `runFormat` keeps the outline of the tree in every mode. -/
theorem outline_runFormat (hfs : fs.root.WellFormed) (path : String) (mode : FormatMode) :
    (runFormat fs path mode).fs.outline = fs.outline := by
  by_cases hfiles : fs.templates path = []
  · rw [runFormat, hfiles]
    rfl
  · obtain ⟨stale, failures, hdivides⟩ := fs.exists_divides (fs.templates path)
    obtain ⟨fs', hleaves, hrun⟩ :=
      exists_runFormat (FileSystem.apart_templates hfs path) hfiles hdivides mode
    rw [hrun]
    exact hleaves.outline

/-- Only `fmt` changes files. -/
theorem Request.fs_run (r : Request) (fs : FileSystem) :
    (r.run fs).fs = fs ∨ ∃ path mode, r.run fs = runFormat fs path mode := by
  cases r with
  | version | help | nothing => exact .inl rfl
  | tokens path =>
    refine .inl ?_
    rw [run, runTokens]
    split <;> rfl
  | tree path =>
    refine .inl ?_
    rw [run, runTree]
    split <;> rfl
  | command c =>
    cases c with
    | fmt path check diff => exact .inr ⟨path, .ofFlags check diff, rfl⟩
    | lint path names file =>
      refine .inl ?_
      rw [run, runLint]
      split
      · rfl
      · split <;> rfl

/-- Every run of the program keeps a file system `WellFormed`. -/
theorem wellFormed_runCommandLine (hfs : fs.WellFormed) (arguments : List String) :
    (runCommandLine fs arguments).fs.WellFormed := by
  rw [runCommandLine]
  split
  · next r _ =>
    rcases r.fs_run fs with hsame | ⟨path, mode, hrun⟩
    · rw [hsame]
      exact hfs
    · rw [hrun]
      exact hfs.congr (outline_runFormat hfs.root path mode)
  · exact hfs

end Modes

end Templates
