import Templates.Proofs.FileTree

/-!
# Well-formed trees

In a `WellFormed` tree a path leads to at most one place: the entries of a directory have different
names, each of which `IsEntryName`. A tree is well formed or not by its outline
(`FileSystem.WellFormed.congr`), so writing a file keeps it well formed, and so does
`FileSystem.create`.
-/

namespace Templates

namespace Path

/-- A name that an entry of a directory can have: it is a stretch of a path that leads down. -/
def IsEntryName (name : String) : Prop :=
  isIdle name = false ∧ name ≠ ".." ∧ '/' ∉ name.toList

instance : DecidablePred IsEntryName := fun _ => inferInstanceAs (Decidable (_ ∧ _ ∧ _))

theorem not_mem_of_mem_segmentsOf {done cs : List Char} {s : String} (hdone : '/' ∉ done)
    (h : s ∈ segmentsOf done cs) : '/' ∉ s.toList := by
  induction cs generalizing done with
  | nil =>
    rw [segmentsOf, List.mem_singleton] at h
    simpa [h] using hdone
  | cons c cs ih =>
    rw [segmentsOf] at h
    split at h
    · rcases List.mem_cons.mp h with rfl | h
      · simpa using hdone
      · exact ih (List.not_mem_nil) h
    · next hc =>
      exact ih (by simpa [hdone] using Ne.symm hc) h

end Path

/-! ## Trees -/

namespace Node

/-- A tree in which a name leads to at most one entry of a directory. -/
inductive WellFormed : Node → Prop
  | file (name : String) (content : ByteArray) : WellFormed (file name content)
  | dir {name : String} {entries : List Node}
      (names : ∀ e ∈ entries, Path.IsEntryName e.name)
      (distinct : entries.Pairwise fun d e => d.name ≠ e.name)
      (inner : ∀ e ∈ entries, WellFormed e) : WellFormed (dir name entries)

variable {root new n : Node} {names : List String}

theorem wellFormed_dir_nil (name : String) : (dir name []).WellFormed :=
  .dir (fun _ he => absurd he List.not_mem_nil) .nil (fun _ he => absurd he List.not_mem_nil)

theorem wellFormed_dir_singleton {name : String} (hname : Path.IsEntryName n.name)
    (hn : n.WellFormed) : (dir name [n]).WellFormed :=
  .dir (List.forall_mem_singleton.mpr hname) (List.pairwise_singleton _ _)
    (List.forall_mem_singleton.mpr hn)

theorem WellFormed.at? (hroot : root.WellFormed) (h : root.at? names = some n) :
    n.WellFormed := by
  induction names generalizing root with
  | nil =>
    cases h
    exact hroot
  | cons name names ih =>
    obtain ⟨_, es, inner, rfl, hfind, -, hat⟩ := exists_child_of_at? h
    cases hroot with
    | dir _ _ hinner => exact ih (hinner inner (List.mem_of_find?_eq_some hfind)) hat

/-- The names that lead to a place are names that an entry can have. -/
theorem WellFormed.isEntryName_of_at? {e : Node} (hn : n.WellFormed)
    (h : n.at? names = some e) :
    ∀ s ∈ names, Path.IsEntryName s := by
  induction names generalizing n with
  | nil => exact List.forall_mem_nil _
  | cons first names ih =>
    obtain ⟨_, es, inner, rfl, hfind, rfl, hat⟩ := exists_child_of_at? h
    cases hn with
    | dir hnames _ hinner =>
      have hmem : inner ∈ es := List.mem_of_find?_eq_some hfind
      exact List.forall_mem_cons.mpr ⟨hnames inner hmem, ih (hinner inner hmem) hat⟩

theorem child?_eq_some_iff {name s : String} {e : Node} {es : List Node}
    (h : (dir name es).WellFormed) :
    (dir name es).child? s = some e ↔ e ∈ es ∧ e.name = s := by
  constructor
  · intro hchild
    exact ⟨List.mem_of_find?_eq_some hchild, name_of_child?_eq_some hchild⟩
  · rintro ⟨he, rfl⟩
    cases h with
    | dir _ distinct _ =>
      obtain ⟨front, rest, rfl⟩ := List.append_of_mem he
      have hfront : front.find? (·.name == e.name) = none := by
        rw [List.find?_eq_none]
        intro d hd
        simpa using (List.pairwise_append.mp distinct).2.2 d hd e List.mem_cons_self
      show (front ++ e :: rest).find? (·.name == e.name) = some e
      rw [List.find?_append, hfront, Option.none_or, List.find?_cons_of_pos (by simp)]

/-- An entry can be replaced by another one with its name. -/
theorem wellFormed_replace {dirName : String} {e e' : Node} {front rest : List Node}
    (hn : (dir dirName (front ++ e :: rest)).WellFormed) (he' : e'.WellFormed)
    (hname : e'.name = e.name) : (dir dirName (front ++ e' :: rest)).WellFormed := by
  have hmem : ∀ x ∈ front ++ e' :: rest, x = e' ∨ x ∈ front ++ e :: rest := by
    intro x hx
    rcases List.mem_append.mp hx with hx | hx
    · exact Or.inr (List.mem_append_left _ hx)
    · refine (List.mem_cons.mp hx).imp_right fun hx => ?_
      exact List.mem_append_right _ (List.mem_cons_of_mem e hx)
  have hall : (front ++ e' :: rest).map Node.name = (front ++ e :: rest).map Node.name := by
    simp [hname]
  have he : e ∈ front ++ e :: rest := List.mem_append_right _ List.mem_cons_self
  cases hn with
  | dir hnames hdistinct hinner =>
    refine .dir (fun x hx => ?_) ?_ fun x hx => ?_
    · rcases hmem x hx with rfl | hx
      · exact hname ▸ hnames e he
      · exact hnames x hx
    · rw [← List.pairwise_map (f := Node.name) (R := (· ≠ ·)), hall, List.pairwise_map]
      exact hdistinct
    · rcases hmem x hx with rfl | hx
      · exact he'
      · exact hinner x hx

theorem outlineEntries_eq_map (es : List Node) : outlineEntries es = es.map outline := by
  induction es with
  | nil => rfl
  | cons e es ih => rw [outlineEntries, List.map_cons, ih]

mutual

theorem wellFormed_outline : ∀ n : Node, n.outline.WellFormed ↔ n.WellFormed
  | .file .. => ⟨fun _ => .file .., fun _ => .file ..⟩
  | .dir _ es => by
    have hinner := forall_wellFormed_outline es
    rw [outline, outlineEntries_eq_map]
    constructor
    · intro h
      cases h with
      | dir names distinct inner =>
        exact .dir (by simpa using names) (by simpa [List.pairwise_map] using distinct)
          (hinner.mp inner)
    · intro h
      cases h with
      | dir names distinct inner =>
        exact .dir (by simpa using names) (by simpa [List.pairwise_map] using distinct)
          (hinner.mpr inner)

theorem forall_wellFormed_outline : ∀ es : List Node,
    (∀ e ∈ es.map outline, e.WellFormed) ↔ ∀ e ∈ es, e.WellFormed
  | [] => by simp
  | e :: es => by
    rw [List.map_cons, List.forall_mem_cons, List.forall_mem_cons, wellFormed_outline e,
      forall_wellFormed_outline es]

end

theorem mem_setEntry {e : Node} {es : List Node} (h : e ∈ setEntry new es) : e = new ∨ e ∈ es := by
  induction es with
  | nil => exact .inl (List.mem_singleton.mp h)
  | cons d es ih =>
    rw [setEntry] at h
    split at h
    · exact (List.mem_cons.mp h).imp_right (List.mem_cons_of_mem d)
    · rcases List.mem_cons.mp h with rfl | h
      · exact .inr List.mem_cons_self
      · exact (ih h).imp_right (List.mem_cons_of_mem d)

theorem pairwise_setEntry {es : List Node} (h : es.Pairwise fun d e => d.name ≠ e.name) :
    (setEntry new es).Pairwise fun d e => d.name ≠ e.name := by
  induction es with
  | nil => exact List.pairwise_singleton _ _
  | cons d es ih =>
    rw [List.pairwise_cons] at h
    rw [setEntry]
    split
    · next hd => exact List.pairwise_cons.mpr ⟨fun e he => hd ▸ h.1 e he, h.2⟩
    · next hd =>
      refine List.pairwise_cons.mpr ⟨fun e he => ?_, ih h.2⟩
      rcases mem_setEntry he with rfl | he
      · exact hd
      · exact h.1 e he

theorem WellFormed.setEntry {name : String} {es : List Node} (h : (Node.dir name es).WellFormed)
    (hname : Path.IsEntryName new.name) (hnew : new.WellFormed) :
    (Node.dir name (setEntry new es)).WellFormed := by
  cases h with
  | dir hnames hdistinct hinner =>
    refine .dir (fun e he => ?_) (pairwise_setEntry hdistinct) fun e he => ?_
    · rcases mem_setEntry he with rfl | he
      · exact hname
      · exact hnames e he
    · rcases mem_setEntry he with rfl | he
      · exact hnew
      · exact hinner e he

theorem WellFormed.put (hroot : root.WellFormed) (hnames : ∀ s ∈ names, Path.IsEntryName s)
    (hname : Path.IsEntryName new.name) (hnew : new.WellFormed) :
    (root.put names new).WellFormed := by
  induction names generalizing root with
  | nil =>
    cases root with
    | file => exact .file ..
    | dir n es => exact hroot.setEntry hname hnew
  | cons first names ih =>
    rw [List.forall_mem_cons] at hnames
    cases root with
    | file => exact .file ..
    | dir n es =>
      have hinner : ((es.find? (·.name == first)).getD (Node.dir first [])).WellFormed ∧
          ((es.find? (·.name == first)).getD (Node.dir first [])).name = first := by
        cases hfind : es.find? (·.name == first) with
        | none => exact ⟨wellFormed_dir_nil first, rfl⟩
        | some e =>
          refine ⟨?_, name_of_child?_eq_some (n := .dir n es) hfind⟩
          cases hroot with
          | dir _ _ hinner => exact hinner e (List.mem_of_find?_eq_some hfind)
      refine hroot.setEntry ?_ (ih hinner.1 hnames.2)
      rw [name_put, hinner.2]
      exact hnames.1

end Node

/-! ## File systems -/

namespace FileSystem

variable {fs fs' : FileSystem} {path : String}

/-- A file system with a well-formed tree. -/
structure WellFormed (fs : FileSystem) : Prop where
  root : fs.root.WellFormed
  here : ∀ s ∈ fs.here, Path.IsEntryName s

/-- A file system with the same outline is `WellFormed` as well. -/
theorem WellFormed.congr (h : fs.WellFormed) (houtline : fs'.outline = fs.outline) :
    fs'.WellFormed := by
  obtain ⟨hroot, hhere⟩ := FileSystem.mk.inj houtline
  refine ⟨?_, hhere ▸ h.here⟩
  rw [← Node.wellFormed_outline, hroot, Node.wellFormed_outline]
  exact h.root

theorem wellFormed_makeDirectories {root : Node} {place segments : List String}
    (hroot : root.WellFormed) (hplace : ∀ s ∈ place, Path.IsEntryName s)
    (hsegments : ∀ s ∈ segments, '/' ∉ s.toList) :
    (makeDirectories root place segments).1.WellFormed ∧
      ∀ s ∈ (makeDirectories root place segments).2, Path.IsEntryName s := by
  induction segments generalizing root place with
  | nil => exact ⟨hroot, hplace⟩
  | cons s segments ih =>
    obtain ⟨hs, hsegments⟩ := List.forall_mem_cons.mp hsegments
    rw [makeDirectories]
    split
    · exact ih hroot hplace hsegments
    · next hidle =>
      split
      · exact ih hroot (fun t ht => hplace t ((List.dropLast_sublist place).subset ht)) hsegments
      · next hup =>
        have hname : Path.IsEntryName s := ⟨by simpa using hidle, hup, hs⟩
        have hplace' : ∀ t ∈ place ++ [s], Path.IsEntryName t := by
          simpa [or_imp, forall_and] using ⟨hplace, hname⟩
        split
        · exact ih hroot hplace' hsegments
        · exact ih (hroot.put hplace hname (Node.wellFormed_dir_nil s)) hplace' hsegments

theorem mem_segments_of_mem_start {s : String} (h : s ∈ (fs.start path).2) :
    s ∈ Path.segments path := by
  rw [start] at h
  split at h
  · next heq => exact heq ▸ List.mem_cons_of_mem _ h
  · exact h

theorem WellFormed.start (h : fs.WellFormed) (path : String) :
    ∀ s ∈ (fs.start path).1, Path.IsEntryName s := by
  rw [FileSystem.start]
  split
  · exact fun _ hs => absurd hs List.not_mem_nil
  · exact h.here

/-- `create` keeps a file system well formed, if the path does not end with the way up. -/
theorem WellFormed.create (h : fs.WellFormed) (content : Option ByteArray)
    (hpath : ((fs.start path).2.filter (!Path.isIdle ·)).getLast? ≠ some "..") :
    (fs.create path content).WellFormed := by
  have hslash : ∀ s ∈ (fs.start path).2, '/' ∉ s.toList := fun s hs =>
    Path.not_mem_of_mem_segmentsOf List.not_mem_nil (mem_segments_of_mem_start hs)
  have hplace := h.start path
  rw [FileSystem.create]
  generalize fs.start path = start at hslash hplace hpath ⊢
  obtain ⟨place, segments⟩ := start
  cases content with
  | none => exact ⟨(wellFormed_makeDirectories h.root hplace hslash).1, h.here⟩
  | some bytes =>
    simp only at hpath ⊢
    cases hsegments : (segments.filter (!Path.isIdle ·)).reverse with
    | nil => exact h
    | cons name before =>
      rw [List.reverse_eq_cons_iff] at hsegments
      have hmem (s : String) (hs : s ∈ before.reverse ++ [name]) :
          Path.isIdle s = false ∧ '/' ∉ s.toList := by
        rw [← hsegments, List.mem_filter] at hs
        exact ⟨by simpa using hs.2, hslash s hs.1⟩
      rw [hsegments, List.getLast?_concat] at hpath
      obtain ⟨hidle, hname⟩ := hmem name (by simp)
      obtain ⟨hroot, hnames⟩ := wellFormed_makeDirectories h.root hplace (fun s hs =>
        (hmem s (List.mem_append_left _ hs)).2)
      exact ⟨hroot.put hnames ⟨hidle, fun hup => hpath (congrArg some hup), hname⟩ (.file ..),
        h.here⟩

end FileSystem

end Templates
