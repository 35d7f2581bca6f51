import Templates.Proofs.WellFormedTree

/-!
# The places of the templates below a directory

`Path.entry` leads to the place of its directory, one name further (`place_entry`). So every
template that is found below an entry has the name of the entry in its place, and in a `WellFormed`
tree, where the entries of a directory have different names, no two of the templates that a path
leads to are the same file (`FileSystem.apart_templates`).
-/

namespace Templates

/-! ## Segments of the path of an entry -/

namespace Path

theorem segmentsOf_append_slash (done a b : List Char) :
    segmentsOf done (a ++ '/' :: b) = segmentsOf done a ++ segmentsOf [] b := by
  induction a generalizing done with
  | nil => simp [segmentsOf]
  | cons c a ih =>
    rw [List.cons_append, segmentsOf, segmentsOf]
    split <;> simp [ih]

theorem segmentsOf_of_not_mem {a : List Char} (h : '/' ∉ a) (done : List Char) :
    segmentsOf done a = [String.ofList (done.reverse ++ a)] := by
  induction a generalizing done with
  | nil => simp [segmentsOf]
  | cons c a ih =>
    rw [List.mem_cons, not_or] at h
    rw [segmentsOf, if_neg (Ne.symm h.1), ih h.2]
    simp

theorem segmentsOf_ne_nil (done cs : List Char) : segmentsOf done cs ≠ [] := by
  induction cs generalizing done with
  | nil => exact List.cons_ne_nil _ _
  | cons c cs ih =>
    rw [segmentsOf]
    split
    · exact List.cons_ne_nil _ _
    · exact ih _

theorem segmentsOf_eq_singleton_empty {done cs : List Char} (h : segmentsOf done cs = [""]) :
    done = [] ∧ cs = [] := by
  induction cs generalizing done with
  | nil => simpa [segmentsOf] using h
  | cons c cs ih =>
    rw [segmentsOf] at h
    split at h
    · exact absurd (List.cons.inj h).2 (segmentsOf_ne_nil [] cs)
    · exact absurd (ih h).1 (List.cons_ne_nil _ _)

theorem segments_eq_singleton_empty {path : String} (h : segments path = [""]) : path = "" :=
  String.toList_eq_nil_iff.mp (segmentsOf_eq_singleton_empty h).2

/-- `Path.entry` adds a segment to those of the directory, or puts it in place of the last one if
that is empty. -/
theorem exists_segments_entry {directory name : String} (hdir : directory ≠ "")
    (hname : '/' ∉ name.toList) : ∃ before, before ≠ [] ∧
      segments (entry directory name) = before ++ [name] ∧
      (segments directory = before ∨ segments directory = before ++ [""]) := by
  have hsegments : segmentsOf [] name.toList = [name] := by
    simpa using segmentsOf_of_not_mem hname []
  rw [entry]
  split
  · next h =>
    have hlast : directory.toList.getLast? = some '/' := by simpa [hdir] using h
    obtain ⟨before, hbefore⟩ := List.getLast?_eq_some_iff.mp hlast
    refine ⟨segmentsOf [] before, segmentsOf_ne_nil _ _, ?_, .inr ?_⟩
    · rw [segments, String.toList_append, hbefore, List.append_assoc, List.singleton_append,
        segmentsOf_append_slash, hsegments]
    · rw [segments, hbefore, segmentsOf_append_slash]
      rfl
  · refine ⟨segments directory, segmentsOf_ne_nil _ _, ?_, .inl rfl⟩
    rw [segments, String.toList_append, String.toList_append, List.append_assoc,
      show "/".toList = ['/'] from rfl, List.singleton_append, segmentsOf_append_slash, hsegments,
      segments]

theorem exists_entry_eq (directory name : String) :
    ∃ behind, entry directory name = directory ++ behind := by
  rw [entry]
  split
  · exact ⟨name, rfl⟩
  · exact ⟨"/" ++ name, String.append_assoc ..⟩

theorem entry_ne_empty {directory : String} (hdir : directory ≠ "") (name : String) :
    entry directory name ≠ "" := by
  obtain ⟨behind, hbehind⟩ := exists_entry_eq directory name
  rw [hbehind]
  exact fun h => hdir (String.append_eq_empty_iff.mp h).1

end Path

/-! ## The templates at the entries of a directory -/

theorem mem_templateAt {path p : String} :
    p ∈ templateAt path ↔ Path.extension? path = some "nsl" ∧ p = path := by
  rw [templateAt, isTemplatePath]
  by_cases h : Path.extension? path = some "nsl" <;> simp [h]

/-- The templates that are found at one entry of a directory. -/
def Node.entryFound (directory : String) (e : Node) : List String :=
  if !FileSystem.fits (Path.entry directory e.name) then templateAt (Path.entry directory e.name)
  else if e.isPassedOver then []
  else e.templates (Path.entry directory e.name)

theorem entryTemplates_eq_flatMap (directory : String) (es : List Node) :
    entryTemplates directory es = es.flatMap (Node.entryFound directory) := by
  induction es with
  | nil => rfl
  | cons e es ih =>
    rw [entryTemplates, List.flatMap_cons, ih]
    rfl

/-- What is found below an entry is found below its directory, and what is found below two entries
is apart. -/
structure Spreads (below apart : String → String → Prop) : Prop where
  refl : ∀ path, below path path
  of_entry : ∀ {directory name p}, directory ≠ "" → Path.IsEntryName name →
    below (Path.entry directory name) p → below directory p
  apart : ∀ {directory d e p q}, directory ≠ "" → Path.IsEntryName d → Path.IsEntryName e →
    d ≠ e → below (Path.entry directory d) p → below (Path.entry directory e) q → apart p q

section Spreads

variable {below apart : String → String → Prop}

theorem Spreads.of_templateAt (h : Spreads below apart) (path : String) :
    (∀ p ∈ templateAt path, below path p) ∧ (templateAt path).Pairwise apart := by
  rw [templateAt]
  split
  · exact ⟨List.forall_mem_singleton.mpr (h.refl path), List.pairwise_singleton _ _⟩
  · exact ⟨List.forall_mem_nil _, .nil⟩

/-- In a well-formed tree the templates that are found below a path are apart. -/
theorem Spreads.of_templates (h : Spreads below apart) {n : Node} (hn : n.WellFormed)
    {path : String} (hpath : path ≠ "") :
    (∀ p ∈ n.templates path, below path p) ∧ (n.templates path).Pairwise apart := by
  induction hn generalizing path with
  | file => exact h.of_templateAt path
  | @dir _ es names distinct _ ih =>
    have hfound : ∀ e ∈ es, (∀ p ∈ e.entryFound path, below (Path.entry path e.name) p) ∧
        (e.entryFound path).Pairwise apart := by
      intro e he
      rw [Node.entryFound]
      split
      · exact h.of_templateAt _
      · split
        · exact ⟨List.forall_mem_nil _, .nil⟩
        · exact ih e he (Path.entry_ne_empty hpath _)
    rw [Node.templates, entryTemplates_eq_flatMap, List.pairwise_flatMap]
    refine ⟨fun p hp => ?_, fun e he => (hfound e he).2, ?_⟩
    · obtain ⟨e, he, hp⟩ := List.mem_flatMap.mp hp
      exact h.of_entry hpath (names e he) ((hfound e he).1 p hp)
    · refine distinct.imp_of_mem fun {d e} hd he hne p hp q hq => ?_
      exact h.apart hpath (names d hd) (names e he) hne ((hfound d hd).1 p hp) ((hfound e he).1 q hq)

end Spreads

namespace FileSystem

/-! ## The place of the path of an entry -/

variable {fs : FileSystem}

/-- The place that some segments start from, and the segments behind it. -/
def base (fs : FileSystem) : List String → List String × List String
  | "" :: ss => ([], ss)
  | ss => (fs.here, ss)

theorem start_eq_base (fs : FileSystem) {path : String} (h : path ≠ "") :
    fs.start path = fs.base (Path.segments path) := by
  rw [start]
  split
  · next heq => rw [heq, base]
  · next hno =>
    cases hsegments : Path.segments path with
    | nil => rfl
    | cons s ss =>
      have hs : s ≠ "" := by
        rintro rfl
        cases ss with
        | nil => exact h (Path.segments_eq_singleton_empty hsegments)
        | cons t ss => exact hno t ss hsegments
      simp [base, hs]

theorem base_append (fs : FileSystem) {before : List String} (h : before ≠ [])
    (behind : List String) :
    fs.base (before ++ behind) = ((fs.base before).1, (fs.base before).2 ++ behind) := by
  cases before with
  | nil => exact absurd rfl h
  | cons s before =>
    by_cases hs : s = ""
    · subst hs
      rfl
    · simp [base, hs]

theorem follow_append (root : Node) (place a b : List String) :
    follow root place (a ++ b) = follow root place a >>= fun names => follow root names b := by
  induction a generalizing place with
  | nil => rfl
  | cons s a ih =>
    rw [List.cons_append, follow, follow]
    cases root.at? place with
    | none => rfl
    | some node =>
      cases node with
      | file => rfl
      | dir n es =>
        simp only [ih]
        by_cases hidle : Path.isIdle s = true
        · rw [if_pos hidle, if_pos hidle]
        rw [if_neg hidle, if_neg hidle]
        by_cases hup : s = ".."
        · rw [if_pos hup, if_pos hup]
        rw [if_neg hup, if_neg hup]
        split
        · rfl
        · cases (Node.dir n es).child? s <;> rfl

/-- The conditions for a path to lead to a place. -/
theorem place_eq_ok_iff {path : String} {names : List String} :
    fs.place path = .ok names ↔ '\x00' ∉ path.toList ∧ path ≠ "" ∧ fits path = true ∧
      follow fs.root (fs.base (Path.segments path)).1 (fs.base (Path.segments path)).2 =
        .ok names := by
  rw [place]
  by_cases hzero : path.toList.contains '\x00'
  · rw [if_pos hzero]
    refine ⟨fun h => ?_, fun h => absurd (List.contains_iff_mem.mp hzero) h.1⟩
    cases h
  by_cases hempty : path.isEmpty
  · rw [if_neg hzero, if_pos hempty]
    refine ⟨fun h => ?_, fun h => absurd (String.isEmpty_iff.mp hempty) h.2.1⟩
    cases h
  by_cases hfits : fits path
  · have hne : path ≠ "" := fun h => hempty (String.isEmpty_iff.mpr h)
    have hmem : '\x00' ∉ path.toList := fun h => hzero (List.contains_iff_mem.mpr h)
    rw [if_neg hzero, if_neg hempty, if_neg (by simp [hfits]), start_eq_base fs hne]
    exact ⟨fun h => ⟨hmem, hne, hfits, h⟩, fun h => h.2.2.2⟩
  · rw [if_neg hzero, if_neg hempty, if_pos (by simpa using hfits)]
    refine ⟨fun h => ?_, fun h => absurd h.2.2.1 hfits⟩
    cases h

theorem isDir_of_at? {root : Node} {names : List String} {n : String} {es : List Node}
    (h : root.at? names = some (.dir n es)) : root.isDir := by
  cases root with
  | dir => rfl
  | file => cases names <;> cases h

/-- Every path starts at a directory. -/
theorem isDir_of_place {path : String} {names : List String} (h : fs.place path = .ok names) :
    fs.root.isDir := by
  obtain ⟨-, hne, -, hfollow⟩ := place_eq_ok_iff.mp h
  have hsegments : (fs.base (Path.segments path)).2 ≠ [] := by
    intro hnil
    cases hpath : Path.segments path with
    | nil => exact Path.segmentsOf_ne_nil _ _ hpath
    | cons s ss =>
      rw [hpath] at hnil
      by_cases hs : s = ""
      · subst hs
        obtain rfl : ss = [] := hnil
        exact hne (Path.segments_eq_singleton_empty hpath)
      · simp [base, hs] at hnil
  cases hbase : (fs.base (Path.segments path)).2 with
  | nil => exact absurd hbase hsegments
  | cons s ss =>
    rw [hbase, follow] at hfollow
    split at hfollow
    · cases hfollow
    · cases hfollow
    · next hat => exact isDir_of_at? hat

theorem isDir_of_bytes {path : String} {content : ByteArray} (h : fs.bytes path = .ok content) :
    fs.root.isDir := by
  rw [bytes_eq] at h
  obtain ⟨names, hplace, -⟩ := exists_of_bind_eq_ok h
  exact isDir_of_place hplace

theorem follow_name {root : Node} {place names : List String} {name : String}
    (hname : Path.IsEntryName name) (h : follow root place [name] = .ok names) :
    names = place ++ [name] ∧ follow root place [""] = .ok place := by
  obtain ⟨hidle, hup, -⟩ := hname
  rw [follow] at h ⊢
  cases hnode : root.at? place with
  | none => rw [hnode] at h; cases h
  | some node =>
    rw [hnode] at h
    cases node with
    | file => cases h
    | dir n es =>
      refine ⟨?_, rfl⟩
      simp only [hidle, Bool.false_eq_true, if_false, if_neg hup] at h
      split at h
      · cases h
      · split at h
        · cases h
        · cases h
          rfl

/-- `Path.entry` leads to the place of its directory, one name further. -/
theorem place_entry {directory name : String} {names : List String} (hdir : directory ≠ "")
    (hname : Path.IsEntryName name)
    (h : fs.place (Path.entry directory name) = .ok names) :
    ∃ above, fs.place directory = .ok above ∧ names = above ++ [name] := by
  obtain ⟨before, hbefore, hentry, hdirectory⟩ := Path.exists_segments_entry hdir hname.2.2
  obtain ⟨hzero, -, hfits, hfollow⟩ := place_eq_ok_iff.mp h
  rw [hentry, base_append fs hbefore, follow_append] at hfollow
  obtain ⟨above, habove, hlast⟩ := exists_of_bind_eq_ok hfollow
  obtain ⟨hnames, hidle⟩ := follow_name hname hlast
  obtain ⟨behind, hbehind⟩ := Path.exists_entry_eq directory name
  rw [hbehind] at hzero hfits
  refine ⟨above, place_eq_ok_iff.mpr ⟨?_, hdir, ?_, ?_⟩, hnames⟩
  · exact fun h => hzero (by simp [h])
  · simp only [fits, String.utf8ByteSize_append, decide_eq_true_eq] at hfits ⊢
    omega
  · rcases hdirectory with hsegments | hsegments
    · rw [hsegments, habove]
    · rw [hsegments, base_append fs hbefore, follow_append, habove]
      exact hidle

/-- The path leads to a place below that of the other, or to the same one. -/
def LeadsBelow (fs : FileSystem) (above path : String) : Prop :=
  ∀ names, fs.place path = .ok names → ∃ start, fs.place above = .ok start ∧ start <+: names

theorem LeadsBelow.refl (path : String) : fs.LeadsBelow path path :=
  fun names h => ⟨names, h, List.prefix_rfl⟩

theorem LeadsBelow.of_entry {directory name path : String} (hdir : directory ≠ "")
    (hname : Path.IsEntryName name) (h : fs.LeadsBelow (Path.entry directory name) path) :
    fs.LeadsBelow directory path := by
  intro names hnames
  obtain ⟨start, hstart, hprefix⟩ := h names hnames
  obtain ⟨above, habove, rfl⟩ := place_entry hdir hname hstart
  exact ⟨above, habove, (List.prefix_append above [name]).trans hprefix⟩

/-- The paths do not lead to the same place. -/
def Apart (fs : FileSystem) (p q : String) : Prop :=
  ∀ names, fs.place p = .ok names → fs.place q ≠ .ok names

theorem Apart.symm {p q : String} (h : fs.Apart p q) : fs.Apart q p :=
  fun names hq hp => h names hp hq

instance : Std.Symm fs.Apart := ⟨fun _ _ => Apart.symm⟩

/-- Paths that lead below two entries of a directory are `Apart`. -/
theorem LeadsBelow.apart {directory d e p q : String} (hdir : directory ≠ "")
    (hd : Path.IsEntryName d) (he : Path.IsEntryName e) (hne : d ≠ e)
    (hp : fs.LeadsBelow (Path.entry directory d) p)
    (hq : fs.LeadsBelow (Path.entry directory e) q) : fs.Apart p q := by
  intro names hpn hqn
  obtain ⟨_, hstart, hprefix⟩ := hp names hpn
  obtain ⟨_, hstart', hprefix'⟩ := hq names hqn
  obtain ⟨above, habove, rfl⟩ := place_entry hdir hd hstart
  obtain ⟨above', habove', rfl⟩ := place_entry hdir he hstart'
  obtain rfl : above = above' := Except.ok.inj (habove.symm.trans habove')
  have hsame : above ++ [d] = above ++ [e] :=
    (List.prefix_of_prefix_length_le hprefix hprefix' (by simp)).eq_of_length (by simp)
  exact hne (List.singleton_inj.mp (List.append_cancel_left hsame))

/-! ## Templates -/

/-- Paths that lead to places of their own, all of them below the place of one path. -/
structure FansOut (fs : FileSystem) (path : String) (found : List String) : Prop where
  below : ∀ p ∈ found, fs.LeadsBelow path p
  apart : found.Pairwise fs.Apart

theorem fansOut_templates {path : String} (hpath : path ≠ "") {n : Node} (hn : n.WellFormed) :
    fs.FansOut path (n.templates path) := by
  have hspreads : Spreads fs.LeadsBelow fs.Apart :=
    ⟨LeadsBelow.refl, LeadsBelow.of_entry, LeadsBelow.apart⟩
  obtain ⟨hbelow, hapart⟩ := hspreads.of_templates hn hpath
  exact ⟨hbelow, hapart⟩

theorem mem_templates {path p : String} {n : Node} (h : fs.node path = .ok n) :
    p ∈ fs.templates path ↔ p ∈ n.templates path := by
  rw [templates, h]
  exact List.mem_mergeSort

/-- The templates that a path leads to are pairwise `Apart`. -/
theorem apart_templates (hfs : fs.root.WellFormed) (path : String) :
    (fs.templates path).Pairwise fs.Apart := by
  rw [templates]
  split
  · next n hnode =>
    have hperm := List.mergeSort_perm (n.templates path) fun a b => (Path.order a b).isLE
    obtain ⟨names, hplace, hat⟩ := exists_of_node_eq_ok hnode
    have hpath : path ≠ "" := (place_eq_ok_iff.mp hplace).2.1
    have hfans : fs.FansOut path (n.templates path) := fansOut_templates hpath (hfs.at? hat)
    exact (hperm.pairwise_iff Apart.symm).mpr hfans.apart
  · exact .nil

end FileSystem

end Templates
