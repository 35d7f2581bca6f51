import Templates.Discovery

/-!
# Writing a file

`FileSystem.write` replaces the bytes at one place of the tree and nothing else. The `outline` of a
tree is the tree with its files emptied. Where a path leads (`place_congr`) and which templates are
found below it (`templates_congr`) depend on the outline alone, and writing keeps the outline. Where
a path leads depends on even less, on which names lead to files and which to directories
(`SamePlaces`, `place_samePlaces`).

The bytes of files are `content?` at a place of the tree: the written place holds the new bytes,
every other place what it held (`content?_at?_put`). `FileSystem.exists_write` says both of a path.
-/

namespace Templates

namespace Node

/-- The bytes of a file; a directory has none. -/
def content? : Node → Option ByteArray
  | file _ content => some content
  | dir .. => none

mutual

/-- The same node with every file emptied. -/
def outline : Node → Node
  | file n _ => file n .empty
  | dir n es => dir n (outlineEntries es)

/-- The same entries with every file emptied. -/
def outlineEntries : List Node → List Node
  | [] => []
  | e :: es => e.outline :: outlineEntries es

end

/-! ## Outlines -/

@[simp] theorem name_outline (n : Node) : n.outline.name = n.name := by
  cases n <;> rfl

theorem find?_outlineEntries (name : String) (es : List Node) :
    (outlineEntries es).find? (·.name == name) = (es.find? (·.name == name)).map outline := by
  induction es with
  | nil => rfl
  | cons e es ih =>
    rw [outlineEntries, List.find?_cons, List.find?_cons, name_outline, ih]
    split <;> rfl

theorem child?_outline (n : Node) (name : String) :
    n.outline.child? name = (n.child? name).map outline := by
  cases n with
  | file n c => rfl
  | dir n es => exact find?_outlineEntries name es

theorem at?_outline (n : Node) (names : List String) :
    n.outline.at? names = (n.at? names).map outline := by
  induction names generalizing n with
  | nil => rfl
  | cons name names ih =>
    rw [at?, at?, child?_outline]
    cases n.child? name with
    | none => rfl
    | some e => exact ih e

/-! ## Places -/

theorem at?_append (n : Node) (a b : List String) : n.at? (a ++ b) = (n.at? a).bind (·.at? b) := by
  induction a generalizing n with
  | nil => rfl
  | cons s a ih =>
    rw [List.cons_append, at?, at?, Option.bind_assoc]
    exact congrArg _ (funext ih)

theorem at?_singleton (n : Node) (s : String) : n.at? [s] = n.child? s := Option.bind_fun_some _

/-- The same names lead to files, and the same names to directories. -/
def SamePlaces (n n' : Node) : Prop := ∀ names, (n.at? names).map isDir = (n'.at? names).map isDir

theorem SamePlaces.symm {n n' : Node} (h : n.SamePlaces n') : n'.SamePlaces n :=
  fun names => (h names).symm

theorem SamePlaces.exists_at? {n n' e : Node} {names : List String} (h : n.SamePlaces n')
    (hat : n.at? names = some e) : ∃ e', n'.at? names = some e' ∧ e'.isDir = e.isDir := by
  have hsame := h names
  rw [hat] at hsame
  exact Option.map_eq_some_iff.mp hsame.symm

theorem SamePlaces.at? {n n' e e' : Node} {names : List String} (h : n.SamePlaces n')
    (he : n.at? names = some e) (he' : n'.at? names = some e') : e.SamePlaces e' := by
  intro inner
  have hsame := h (names ++ inner)
  rwa [at?_append, at?_append, he, he'] at hsame

theorem SamePlaces.isDir {n n' : Node} (h : n.SamePlaces n') : n.isDir = n'.isDir :=
  Option.some.inj (h [])

@[simp] theorem isDir_outline (n : Node) : n.outline.isDir = n.isDir := by
  cases n <;> rfl

theorem samePlaces_outline (n : Node) : n.SamePlaces n.outline := by
  intro names
  rw [at?_outline, Option.map_map]
  exact congrArg (Option.map · _) (funext fun e => e.isDir_outline.symm)

/-! ## Entries -/

theorem name_of_child?_eq_some {n e : Node} {name : String} (h : n.child? name = some e) :
    e.name = name := by
  have hname := (List.find?_eq_some_iff_append.mp h).1
  exact eq_of_beq hname

theorem find?_setEntry (new : Node) (es : List Node) (name : String) :
    (setEntry new es).find? (·.name == name) =
      if new.name = name then some new else es.find? (·.name == name) := by
  induction es with
  | nil =>
    by_cases h : new.name = name <;> simp [setEntry, h]
  | cons e es ih =>
    by_cases he : e.name = new.name
    · by_cases h : new.name = name <;> simp [setEntry, he, h]
    · by_cases h : e.name = name
      · have hne : new.name ≠ name := fun hnew => he (h.trans hnew.symm)
        rw [setEntry, if_neg he, List.find?_cons_of_pos (by simpa using h), if_neg hne,
          List.find?_cons_of_pos (by simpa using h)]
      · rw [setEntry, if_neg he, List.find?_cons_of_neg (by simpa using h), ih,
          List.find?_cons_of_neg (by simpa using h)]

/-- A node of the same outline can take the place of an entry. -/
theorem outlineEntries_setEntry {new e : Node} {es : List Node}
    (h : es.find? (·.name == new.name) = some e) (houtline : new.outline = e.outline) :
    outlineEntries (setEntry new es) = outlineEntries es := by
  induction es with
  | nil => cases h
  | cons d es ih =>
    by_cases hd : d.name = new.name
    · rw [List.find?_cons_of_pos (by simpa using hd)] at h
      cases h
      rw [setEntry, if_pos hd, outlineEntries, outlineEntries, houtline]
    · rw [List.find?_cons_of_neg (by simpa using hd)] at h
      rw [setEntry, if_neg hd, outlineEntries, outlineEntries, ih h]

@[simp] theorem name_put (n : Node) (names : List String) (new : Node) :
    (n.put names new).name = n.name := by
  cases n <;> cases names <;> rfl

/-! ## Putting a file in the place of another -/

section Put

variable {name : String} {old new : ByteArray}

/-- Going down into the directory that the names begin with. -/
theorem exists_child_of_at? {root : Node} {first : String} {names : List String} {e : Node}
    (h : root.at? (first :: names) = some e) : ∃ n es inner, root = dir n es ∧
      es.find? (·.name == first) = some inner ∧ inner.name = first ∧ inner.at? names = some e := by
  cases root with
  | file n c => cases h
  | dir n es =>
    obtain ⟨inner, hinner, hat⟩ := Option.bind_eq_some_iff.mp h
    exact ⟨n, es, inner, rfl, hinner, name_of_child?_eq_some (n := dir n es) hinner, hat⟩

theorem outline_put {root : Node} {names : List String}
    (h : root.at? (names ++ [name]) = some (file name old)) :
    (root.put names (file name new)).outline = root.outline := by
  induction names generalizing root with
  | nil =>
    obtain ⟨n, es, inner, rfl, hfind, -, hinner⟩ := exists_child_of_at? h
    cases hinner
    rw [put, outline, outline, @outlineEntries_setEntry (file name new) _ _ hfind rfl]
  | cons first names ih =>
    obtain ⟨n, es, inner, rfl, hfind, hname, hinner⟩ := exists_child_of_at? h
    rw [put, outline, outline, hfind]
    refine congrArg (dir n) (outlineEntries_setEntry ?_ (ih hinner))
    rw [Option.getD_some, name_put, hname]
    exact hfind

theorem child?_put_nil (n : String) (es : List Node) (name : String) (new : ByteArray)
    (s : String) : ((dir n es).put [] (file name new)).child? s =
      if name = s then some (file name new) else (dir n es).child? s := find?_setEntry _ es s

theorem child?_put_cons {n : String} {es : List Node} {inner : Node} {first : String}
    (hfind : es.find? (·.name == first) = some inner) (hname : inner.name = first)
    (names : List String) (new : Node) (s : String) :
    ((dir n es).put (first :: names) new).child? s =
      if first = s then some (inner.put names new) else (dir n es).child? s := by
  have hentry := find?_setEntry (inner.put names new) es s
  rw [name_put, hname] at hentry
  rw [put, hfind]
  exact hentry

/-- The written place holds the new bytes, every other place what it held. -/
theorem content?_at?_put (new : ByteArray) {root : Node} {names : List String}
    (h : root.at? (names ++ [name]) = some (file name old)) (place : List String) :
    ((root.put names (file name new)).at? place).map content? =
      if place = names ++ [name] then some (some new) else (root.at? place).map content? := by
  induction names generalizing root place with
  | nil =>
    obtain ⟨n, es, inner, rfl, hfind, -, hinner⟩ := exists_child_of_at? h
    cases hinner
    cases place with
    | nil => rfl
    | cons s rest =>
      rw [at?, at?, child?_put_nil]
      by_cases hs : name = s
      · subst hs
        rw [if_pos rfl, child?, entries, hfind]
        cases rest <;> simp [at?, child?, entries, content?]
      · simp [hs, Ne.symm hs]
  | cons first names ih =>
    obtain ⟨n, es, inner, rfl, hfind, hname, hinner⟩ := exists_child_of_at? h
    cases place with
    | nil => rfl
    | cons s rest =>
      rw [at?, at?, child?_put_cons hfind hname]
      by_cases hs : first = s
      · subst hs
        rw [if_pos rfl, child?, entries, hfind]
        simpa using ih hinner rest
      · simp [hs, Ne.symm hs]

end Put

theorem name_of_at?_concat {root e : Node} {names : List String} {last : String}
    (h : root.at? (names ++ [last]) = some e) : e.name = last := by
  induction names generalizing root with
  | nil =>
    obtain ⟨n, es, inner, -, -, hname, hat⟩ := exists_child_of_at? h
    cases hat
    exact hname
  | cons first names ih =>
    obtain ⟨n, es, inner, -, -, -, hat⟩ := exists_child_of_at? h
    exact ih hat

/-! ## Templates below a node -/

@[simp] theorem isPassedOver_outline (n : Node) : n.outline.isPassedOver = n.isPassedOver := by
  cases n <;> rfl

mutual

theorem templates_outline (path : String) : ∀ n : Node,
    n.outline.templates path = n.templates path
  | file .. => rfl
  | dir _ es => entryTemplates_outlineEntries path es

theorem entryTemplates_outlineEntries (directory : String) : ∀ es : List Node,
    entryTemplates directory (outlineEntries es) = entryTemplates directory es
  | [] => rfl
  | e :: es => by
    rw [outlineEntries, entryTemplates, entryTemplates, name_outline, isPassedOver_outline,
      templates_outline _ e, entryTemplates_outlineEntries directory es]

end

end Node

namespace FileSystem

theorem exists_of_bind_eq_ok {α β : Type} {x : Except FileError α} {f : α → Except FileError β}
    {b : β} (h : x >>= f = .ok b) : ∃ a, x = .ok a ∧ f a = .ok b := by
  cases x with
  | error e => cases h
  | ok a => exact ⟨a, rfl, h⟩

variable {fs fs' : FileSystem} {path : String}

/-- The same file system with every file emptied. -/
def outline (fs : FileSystem) : FileSystem := { fs with root := fs.root.outline }

/-! ## What depends on the places alone -/

theorem follow_congr {root root' : Node} (h : root.SamePlaces root') (place segments : List String) :
    follow root' place segments = follow root place segments := by
  induction segments generalizing place with
  | nil => rfl
  | cons s segments ih =>
    rw [follow, follow]
    cases hat : root.at? place with
    | none =>
      have hat' : root'.at? place = none := by simpa [hat] using (h place).symm
      rw [hat']
    | some n =>
      obtain ⟨n', hat', hdir⟩ := h.exists_at? hat
      have hsame := (h.at? hat hat') [s]
      rw [Node.at?_singleton, Node.at?_singleton] at hsame
      rw [hat']
      cases n with
      | file =>
        cases n' with
        | file => rfl
        | dir => cases hdir
      | dir name es =>
        cases n' with
        | file => cases hdir
        | dir name' es' =>
          simp only [ih]
          cases hchild : (Node.dir name es).child? s with
          | none =>
            have hchild' : (Node.dir name' es').child? s = none := by
              simpa [hchild] using hsame.symm
            rw [hchild']
          | some e =>
            rw [hchild] at hsame
            obtain ⟨e', hchild', -⟩ := Option.map_eq_some_iff.mp hsame.symm
            rw [hchild']

theorem place_samePlaces {root' : Node} (h : fs.root.SamePlaces root') (path : String) :
    FileSystem.place { fs with root := root' } path = fs.place path := by
  simp only [place, start, follow_congr h]

/-! ## What depends on the outline alone -/

theorem place_outline (fs : FileSystem) (path : String) :
    fs.outline.place path = fs.place path := place_samePlaces fs.root.samePlaces_outline path

theorem node_outline (fs : FileSystem) (path : String) :
    fs.outline.node path = (fs.node path).map Node.outline := by
  rw [node, node, place_outline]
  cases fs.place path with
  | error e => rfl
  | ok names =>
    simp only [bind, Except.bind, outline, Node.at?_outline]
    cases fs.root.at? names <;> rfl

theorem templates_outline (fs : FileSystem) (path : String) :
    fs.outline.templates path = fs.templates path := by
  rw [templates, templates, node_outline]
  cases fs.node path with
  | error e => rfl
  | ok n => simp only [Except.map, Node.templates_outline]

section Congr

variable (h : fs'.outline = fs.outline)
include h

theorem place_congr (path : String) : fs'.place path = fs.place path := by
  rw [← place_outline, h, place_outline]

theorem templates_congr (path : String) : fs'.templates path = fs.templates path := by
  rw [← templates_outline, h, templates_outline]

end Congr

/-! ## Reading and writing -/

theorem exists_of_node_eq_ok {n : Node} (h : fs.node path = .ok n) :
    ∃ names, fs.place path = .ok names ∧ fs.root.at? names = some n := by
  rw [node] at h
  obtain ⟨names, hplace, h⟩ := exists_of_bind_eq_ok h
  refine ⟨names, hplace, ?_⟩
  cases hat : fs.root.at? names with
  | none => rw [hat] at h; cases h
  | some m =>
    rw [hat] at h
    exact congrArg some (Except.ok.inj h)

/-- The bytes of the file at a place. -/
def bytesAt (fs : FileSystem) (names : List String) : Except FileError ByteArray :=
  match (fs.root.at? names).map Node.content? with
  | none => .error .notFound
  | some none => .error .isDirectory
  | some (some content) => .ok content

theorem bytes_eq (fs : FileSystem) (path : String) :
    fs.bytes path = fs.place path >>= fs.bytesAt := by
  rw [bytes, node]
  cases fs.place path with
  | error e => rfl
  | ok names =>
    simp only [bind, Except.bind, bytesAt]
    match fs.root.at? names with
    | none => rfl
    | some (.file ..) => rfl
    | some (.dir ..) => rfl

theorem exists_node_of_bytes_eq_ok {content : ByteArray} (h : fs.bytes path = .ok content) :
    ∃ n, fs.node path = .ok (.file n content) := by
  rw [bytes] at h
  obtain ⟨node, hnode, h⟩ := exists_of_bind_eq_ok h
  cases node with
  | dir => cases h
  | file n c => exact ⟨n, Except.ok.inj h ▸ hnode⟩

theorem size_of_bytes_eq_ok {content : ByteArray} (h : fs.bytes path = .ok content) :
    fs.size path = .ok content.size := by
  obtain ⟨n, hnode⟩ := exists_node_of_bytes_eq_ok h
  rw [size, hnode]
  rfl

theorem size_congr (houtline : fs'.outline = fs.outline)
    (hbytes : fs'.bytes path = fs.bytes path) : fs'.size path = fs.size path := by
  have hnode : (fs'.node path).map Node.outline = (fs.node path).map Node.outline := by
    rw [← node_outline, houtline, node_outline]
  rw [bytes, bytes] at hbytes
  rw [size, size]
  cases hn : fs.node path with
  | error e =>
    cases hn' : fs'.node path with
    | error e' => rw [hn, hn'] at hnode; cases hnode; rfl
    | ok n' => rw [hn, hn'] at hnode; cases hnode
  | ok n =>
    cases hn' : fs'.node path with
    | error e' => rw [hn, hn'] at hnode; cases hnode
    | ok n' =>
      have houtline' : n'.outline = n.outline := by
        rw [hn, hn'] at hnode
        exact Except.ok.inj hnode
      rw [hn, hn'] at hbytes
      cases n with
      | dir =>
        cases n' with
        | dir => rfl
        | file => cases houtline'
      | file =>
        cases n' with
        | dir => cases houtline'
        | file => cases hbytes; rfl

/-- A file that can be read is at a place with a last name, which is the name of the file. -/
theorem exists_of_bytes_eq_ok {content : ByteArray} (hroot : fs.root.isDir)
    (h : fs.bytes path = .ok content) : ∃ names last, fs.place path = .ok (names ++ [last]) ∧
      fs.root.at? (names ++ [last]) = some (.file last content) := by
  obtain ⟨n, hnode⟩ := exists_node_of_bytes_eq_ok h
  obtain ⟨place, hplace, hat⟩ := exists_of_node_eq_ok hnode
  rcases List.eq_nil_or_concat place with rfl | ⟨names, last, rfl⟩
  · -- The root is a directory.
    rw [Node.at?] at hat
    rw [Option.some.inj hat] at hroot
    cases hroot
  · rw [List.concat_eq_append] at hplace hat
    have hlast : n = last := Node.name_of_at?_concat hat
    exact ⟨names, last, hplace, hlast ▸ hat⟩

/-- A file that can be read can be written. Then its place holds the new text and every other place
what it held, and the outline is the same. -/
theorem exists_write {old : ByteArray} (hroot : fs.root.isDir) (h : fs.bytes path = .ok old)
    (text : String) : ∃ fs', fs.write path text = .ok fs' ∧ fs'.outline = fs.outline ∧
      ∀ other, (fs.place other = fs.place path → fs'.bytes other = .ok text.toUTF8) ∧
        (fs.place other ≠ fs.place path → fs'.bytes other = fs.bytes other) := by
  obtain ⟨names, last, hplace, hnode⟩ := exists_of_bytes_eq_ok hroot h
  let fs' : FileSystem := { fs with root := fs.root.put names (.file last text.toUTF8) }
  have houtline : fs'.outline = fs.outline :=
    congrArg (FileSystem.mk · fs.here) (Node.outline_put hnode)
  have hat := Node.content?_at?_put text.toUTF8 hnode
  refine ⟨fs', ?_, houtline, fun other => ⟨fun hother => ?_, fun hother => ?_⟩⟩
  · rw [write, hplace]
    simp only [bind, Except.bind, hnode, List.dropLast_concat]
    rfl
  · rw [bytes_eq, place_congr houtline, hother, hplace]
    simp only [bind, Except.bind, bytesAt, fs', hat, if_pos]
  · rw [bytes_eq, bytes_eq, place_congr houtline]
    cases hplace' : fs.place other with
    | error e => rfl
    | ok place =>
      have hne : place ≠ names ++ [last] := by
        rintro rfl
        exact hother (hplace'.trans hplace.symm)
      simp only [bind, Except.bind, bytesAt, fs', hat, if_neg hne]

end FileSystem

end Templates
