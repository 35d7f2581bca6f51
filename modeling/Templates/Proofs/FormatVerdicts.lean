import Templates.Command.Format
import Templates.Proofs.FileTree

/-!
# Files and their canonical forms

A file formats to a text (`FileSystem.Formats`) or it is `Refused`. Which of the two, and what
`judge` says about the file, depends on its bytes only (`judge_congr`). `FileSystem.Divides` sorts
the files of a run: some are canonical, some are stale, and some fail.
-/

namespace Templates

/-! ## Verdicts -/

/-- A file that can be read, with its text and the canonical form of its text. -/
structure FileSystem.Formats (fs : FileSystem) (path source text : String) : Prop where
  bytes : fs.bytes path = .ok source.toUTF8
  size : source.utf8ByteSize ≤ maxSourceSize
  canonical : canonical {} source = .ok text

/-- The file has no canonical form: it cannot be read, it is too large or it has syntax errors. -/
def FileSystem.Refused (fs : FileSystem) (path : String) : Prop :=
  ∀ source text, ¬fs.Formats path source text

/-- The path that a refusal to read a file is about. -/
def SourceError.path : SourceError → String
  | inaccessible path _ | tooLarge path _ | unreadable path _ => path

/-- The path that a failure is about. -/
def FormatFailure.path : FormatFailure → String
  | source error => error.path
  | syntactic path _ | unwritable path _ => path

theorem fromUTF8?_eq_some_iff {bytes : ByteArray} {s : String} :
    String.fromUTF8? bytes = some s ↔ bytes = s.toUTF8 := by
  rw [String.fromUTF8?]
  constructor
  · intro h
    split at h
    · exact congrArg String.toByteArray (Option.some.inj h)
    · cases h
  · rintro rfl
    exact dif_pos s.isValidUTF8

section Verdict

variable {fs fs' : FileSystem} {path : String}

theorem FileSystem.text_eq_ok_iff {s : String} :
    fs.text path = .ok s ↔ fs.bytes path = .ok s.toUTF8 := by
  rw [FileSystem.text]
  cases fs.bytes path with
  | error e =>
    constructor
    · intro h
      cases h
    · intro h
      cases h
  | ok content =>
    rw [Except.ok.injEq, ← fromUTF8?_eq_some_iff]
    simp only [bind, Except.bind]
    cases String.fromUTF8? content <;> simp

/-- A source file is read if it holds a text that is not too large. -/
theorem readSource_eq_ok_iff {source : String} : readSource fs path = .ok source ↔
    fs.bytes path = .ok source.toUTF8 ∧ source.utf8ByteSize ≤ maxSourceSize := by
  constructor
  · intro h
    rw [readSource] at h
    split at h
    · cases h
    · next size hsize =>
      split at h
      · cases h
      · next hle =>
        split at h
        · next text htext =>
          cases h
          have hbytes := FileSystem.text_eq_ok_iff.mp htext
          obtain rfl := Except.ok.inj (hsize.symm.trans (FileSystem.size_of_bytes_eq_ok hbytes))
          exact ⟨hbytes, Nat.not_lt.mp hle⟩
        · cases h
  · rintro ⟨hbytes, hle⟩
    have hsize : fs.size path = .ok source.utf8ByteSize := FileSystem.size_of_bytes_eq_ok hbytes
    rw [readSource, hsize, FileSystem.text_eq_ok_iff.mpr hbytes]
    exact if_neg (Nat.not_lt.mpr hle)

theorem path_of_readSource_eq_error {e : SourceError} (h : readSource fs path = .error e) :
    e.path = path := by
  rw [readSource] at h
  split at h
  · cases h; rfl
  · split at h
    · cases h; rfl
    · split at h
      · cases h
      · cases h; rfl

/-- `readSource` depends on the bytes of the file only. -/
theorem readSource_congr (houtline : fs'.outline = fs.outline)
    (hbytes : fs'.bytes path = fs.bytes path) : readSource fs' path = readSource fs path := by
  rw [readSource, readSource, FileSystem.text, FileSystem.text,
    FileSystem.size_congr houtline hbytes, hbytes]

theorem judge_congr (houtline : fs'.outline = fs.outline)
    (hbytes : fs'.bytes path = fs.bytes path) : judge fs' path = judge fs path := by
  rw [judge, judge, readSource_congr houtline hbytes]

/-- `judge` compares the text of a file with its canonical form. -/
theorem judge_of_formats {source text : String} (h : fs.Formats path source text) :
    judge fs path = if source = text then .canonical else .stale source text := by
  rw [judge, readSource_eq_ok_iff.mpr ⟨h.bytes, h.size⟩]
  simp only [h.canonical]

/-- A file that is `Refused` fails, with a failure that has its path. -/
theorem exists_judge_failed (h : fs.Refused path) :
    ∃ failure, judge fs path = .failed failure ∧ failure.path = path := by
  rw [judge]
  cases hread : readSource fs path with
  | error e => exact ⟨_, rfl, path_of_readSource_eq_error hread⟩
  | ok source =>
    obtain ⟨hbytes, hsize⟩ := readSource_eq_ok_iff.mp hread
    cases hcanonical : canonical {} source with
    | error e => exact ⟨.syntactic path e, by simp only [hcanonical], rfl⟩
    | ok text => exact absurd ⟨hbytes, hsize, hcanonical⟩ (h source text)

theorem FileSystem.not_refused_iff :
    ¬fs.Refused path ↔ ∃ source text, fs.Formats path source text := by
  simp [FileSystem.Refused]

theorem FileSystem.Formats.congr {source text : String} (h : fs.Formats path source text)
    (hbytes : fs'.bytes path = fs.bytes path) : fs'.Formats path source text :=
  ⟨hbytes.trans h.bytes, h.size, h.canonical⟩

theorem FileSystem.Formats.source_eq {source text s : String} (h : fs.Formats path source text)
    (hbytes : fs.bytes path = .ok s.toUTF8) : source = s :=
  String.toByteArray_inj.mp (Except.ok.inj (h.bytes.symm.trans hbytes))

theorem FileSystem.Formats.unique {source text source' text' : String}
    (h : fs.Formats path source text) (h' : fs.Formats path source' text') :
    source = source' ∧ text = text' := by
  obtain rfl := h.source_eq h'.bytes
  exact ⟨rfl, Except.ok.inj (h.canonical.symm.trans h'.canonical)⟩

end Verdict

/-! ## The files of a run -/

/-- A file that is not canonical, with its text and the canonical form of its text. -/
structure StaleFile where
  /-- The path of the file. -/
  path : String
  /-- Its text. -/
  source : String
  /-- The canonical form of its text. -/
  text : String

/-- The text that a run writes about a stale file. -/
def StaleFile.entry (f : StaleFile) : FormatMode → String
  | .write => "Formatted: " ++ f.path ++ "\n"
  | .check => "Would reformat: " ++ f.path ++ "\n"
  | .diff => "--- " ++ f.path ++ "\n" ++ diffText f.source f.text

/-- Files divide into canonical ones, stale ones and failing ones; the last two are listed in the
order of the files. -/
inductive FileSystem.Divides (fs : FileSystem) :
    List String → List StaleFile → List FormatFailure → Prop
  | nil : fs.Divides [] [] []
  | canonical {path source paths stale failures} (h : fs.Formats path source source)
      (rest : fs.Divides paths stale failures) : fs.Divides (path :: paths) stale failures
  | stale {path source text paths stale failures} (h : fs.Formats path source text)
      (hne : source ≠ text) (rest : fs.Divides paths stale failures) :
      fs.Divides (path :: paths) (⟨path, source, text⟩ :: stale) failures
  | failed {path failure paths stale failures} (h : fs.Refused path)
      (hjudge : judge fs path = .failed failure) (hpath : failure.path = path)
      (rest : fs.Divides paths stale failures) :
      fs.Divides (path :: paths) stale (failure :: failures)

namespace FileSystem

variable {fs fs' : FileSystem} {paths : List String} {stale : List StaleFile}
  {failures : List FormatFailure}

theorem exists_divides (fs : FileSystem) (paths : List String) :
    ∃ stale failures, fs.Divides paths stale failures := by
  induction paths with
  | nil => exact ⟨[], [], .nil⟩
  | cons path paths ih =>
    obtain ⟨stale, failures, hrest⟩ := ih
    by_cases hrefused : fs.Refused path
    · obtain ⟨failure, hjudge, hpath⟩ := exists_judge_failed hrefused
      exact ⟨_, _, .failed hrefused hjudge hpath hrest⟩
    · obtain ⟨source, text, hformats⟩ := not_refused_iff.mp hrefused
      by_cases heq : source = text
      · subst heq
        exact ⟨_, _, .canonical hformats hrest⟩
      · exact ⟨_, _, .stale hformats heq hrest⟩

theorem Divides.congr (h : fs.Divides paths stale failures) (houtline : fs'.outline = fs.outline)
    (hbytes : ∀ path ∈ paths, fs'.bytes path = fs.bytes path) :
    fs'.Divides paths stale failures := by
  induction h with
  | nil => exact .nil
  | canonical hformats _ ih =>
    rw [List.forall_mem_cons] at hbytes
    exact .canonical (hformats.congr hbytes.1) (ih hbytes.2)
  | stale hformats hne _ ih =>
    rw [List.forall_mem_cons] at hbytes
    exact .stale (hformats.congr hbytes.1) hne (ih hbytes.2)
  | failed hrefused hjudge hpath _ ih =>
    rw [List.forall_mem_cons] at hbytes
    refine .failed (fun source text h => ?_) (judge_congr houtline hbytes.1 ▸ hjudge) hpath
      (ih hbytes.2)
    exact hrefused source text (h.congr hbytes.1.symm)

/-- The stale files are those with a canonical form that they are not in. -/
theorem Divides.mem_stale_iff (h : fs.Divides paths stale failures) {f : StaleFile} :
    f ∈ stale ↔ f.path ∈ paths ∧ fs.Formats f.path f.source f.text ∧ f.source ≠ f.text := by
  induction h with
  | nil => exact ⟨nofun, nofun⟩
  | canonical hcanonical _ ih =>
    rw [ih, List.mem_cons]
    refine ⟨fun ⟨hpath, hf⟩ => ⟨.inr hpath, hf⟩, fun ⟨hpath, hformats, hne⟩ => ?_⟩
    refine ⟨hpath.resolve_left fun heq => ?_, hformats, hne⟩
    obtain ⟨hsource, htext⟩ := hformats.unique (heq ▸ hcanonical)
    exact hne (hsource.trans htext.symm)
  | stale hstale hne _ ih =>
    rw [List.mem_cons, ih, List.mem_cons]
    constructor
    · rintro (rfl | ⟨hpath, hf⟩)
      · exact ⟨.inl rfl, hstale, hne⟩
      · exact ⟨.inr hpath, hf⟩
    · rintro ⟨hpath | hpath, hformats, hne'⟩
      · obtain ⟨hsource, htext⟩ := hformats.unique (hpath ▸ hstale)
        exact .inl (by cases f; simp_all)
      · exact .inr ⟨hpath, hformats, hne'⟩
  | failed hrefused _ _ _ ih =>
    rw [ih, List.mem_cons]
    refine ⟨fun ⟨hpath, hf⟩ => ⟨.inr hpath, hf⟩, fun ⟨hpath, hformats, hne⟩ => ?_⟩
    exact ⟨hpath.resolve_left fun heq => hrefused _ _ (heq ▸ hformats), hformats, hne⟩

theorem Divides.eq_nil_iff (h : fs.Divides paths stale failures) :
    stale = [] ∧ failures = [] ↔ ∀ path ∈ paths, ∃ source, fs.Formats path source source := by
  induction h with
  | nil => exact ⟨fun _ => nofun, fun _ => ⟨rfl, rfl⟩⟩
  | canonical hformats _ ih =>
    rw [ih, List.forall_mem_cons]
    exact ⟨fun h => ⟨⟨_, hformats⟩, h⟩, And.right⟩
  | stale hformats hne _ _ =>
    refine ⟨nofun, fun h => ?_⟩
    obtain ⟨source, hsource⟩ := h _ List.mem_cons_self
    obtain ⟨rfl, rfl⟩ := hformats.unique hsource
    exact absurd rfl hne
  | failed hrefused _ _ _ _ =>
    refine ⟨nofun, fun h => ?_⟩
    obtain ⟨source, hsource⟩ := h _ List.mem_cons_self
    exact absurd hsource (hrefused source source)

theorem Divides.failures_eq_nil_iff (h : fs.Divides paths stale failures) :
    failures = [] ↔ ¬∃ path ∈ paths, fs.Refused path := by
  induction h with
  | nil => exact ⟨fun _ => nofun, fun _ => rfl⟩
  | canonical hformats _ ih | stale hformats _ _ ih =>
    simp only [ih, List.mem_cons, exists_eq_or_imp]
    rw [or_iff_right fun hrefused => hrefused _ _ hformats]
  | failed hrefused _ _ _ _ =>
    exact ⟨nofun, fun h => absurd ⟨_, List.mem_cons_self, hrefused⟩ h⟩

end FileSystem

end Templates
