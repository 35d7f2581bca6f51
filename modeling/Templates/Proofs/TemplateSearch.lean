import Mathlib.Data.List.Sort
import Templates.Proofs.PathOrder
import Templates.Proofs.StableSorting

/-!
# What the search for templates finds

`Node.templates` goes through a directory entry by entry. `Node.Finds` says the same by the places
of the tree: some names lead from the directory to an entry with the extension of a template, and
the directories on the way are searched (`Node.mem_templates_iff`). Only a path that can be looked
up is known to be a directory, so an entry with a path that is too long counts whatever it is, and
nothing below it does.

Two things follow. The paths that are found differ in their components, so sorted they are in strict
order, and they depend on the places of the tree alone, not on the order in which a directory lists
its entries (`FileSystem.templates_relisted`).
-/

namespace Templates

namespace Node

/-! ## What is found -/

/-- The name of a directory that the search does not enter. -/
def isSkipped (name : String) : Bool := name == "target" || name.toList.head? == some '.'

/-- The names lead from a directory with this path to an entry that the search finds. -/
structure Finds (n : Node) (path : String) (names : List String) : Prop where
  /-- The entry is not the directory itself. -/
  ne_nil : names ≠ []
  /-- The entry is no directory, or it cannot be looked up. -/
  entry : ∃ e, n.at? names = some e ∧
    (e.isDir = false ∨ FileSystem.fits (Path.below path names) = false)
  /-- Every directory in between can be looked up and is not skipped. -/
  between : ∀ above name, above ++ [name] <+: names → above ++ [name] ≠ names →
    FileSystem.fits (Path.below path (above ++ [name])) = true ∧ isSkipped name = false
  /-- It has the extension of a template. -/
  extension : Path.extension? (Path.below path names) = some "nsl"

section Finds

variable {n : Node} {path name p : String} {rest : List String}

theorem finds_singleton : n.Finds path [name] ↔ ∃ e, n.child? name = some e ∧
    (e.isDir = false ∨ FileSystem.fits (Path.entry path name) = false) ∧
      Path.extension? (Path.entry path name) = some "nsl" := by
  constructor
  · rintro ⟨-, ⟨e, he, hkind⟩, -, hextension⟩
    exact ⟨e, at?_singleton n name ▸ he, hkind, hextension⟩
  · rintro ⟨e, he, hkind, hextension⟩
    refine ⟨List.cons_ne_nil _ _, ⟨e, (at?_singleton n name).trans he, hkind⟩, ?_, hextension⟩
    intro above s hbegins hne
    exact absurd (hbegins.eq_of_length_le (by simp)) hne

/-- What is found further down is found below the entry of the first name, if that is a directory
that the search enters. -/
theorem finds_cons (hrest : rest ≠ []) : n.Finds path (name :: rest) ↔
    FileSystem.fits (Path.entry path name) = true ∧ isSkipped name = false ∧
      ∃ e, n.child? name = some e ∧ e.Finds (Path.entry path name) rest := by
  constructor
  · rintro ⟨-, ⟨e, he, hkind⟩, hbetween, hextension⟩
    have hfirst : [name] ≠ name :: rest := fun h => hrest (List.cons.inj h).2.symm
    obtain ⟨hfits, hskipped⟩ := hbetween [] name ⟨rest, rfl⟩ hfirst
    obtain ⟨inner, hinner, hat⟩ := Option.bind_eq_some_iff.mp he
    refine ⟨hfits, hskipped, inner, hinner, hrest, ⟨e, hat, hkind⟩, ?_, hextension⟩
    intro above s hbegins hne
    refine hbetween (name :: above) s ?_ fun h => hne (List.cons.inj h).2
    exact List.cons_prefix_cons.mpr ⟨rfl, hbegins⟩
  · rintro ⟨hfits, hskipped, inner, hinner, -, ⟨e, hat, hkind⟩, hbetween, hextension⟩
    refine ⟨List.cons_ne_nil _ _, ⟨e, ?_, hkind⟩, ?_, hextension⟩
    · exact Option.bind_eq_some_iff.mpr ⟨inner, hinner, hat⟩
    · intro above s hbegins hne
      cases above with
      | nil =>
        obtain ⟨rfl, -⟩ := List.cons_prefix_cons.mp hbegins
        exact ⟨hfits, hskipped⟩
      | cons first above =>
        obtain ⟨rfl, hinside⟩ := List.cons_prefix_cons.mp hbegins
        exact hbetween above s hinside fun h => hne (congrArg (first :: ·) h)

theorem templates_of_not_isDir {e : Node} (h : e.isDir = false) (path : String) :
    e.templates path = templateAt path := by
  cases e with
  | file => rfl
  | dir => cases h

theorem mem_entryFound {directory : String} {e : Node} : p ∈ e.entryFound directory ↔
    ((e.isDir = false ∨ FileSystem.fits (Path.entry directory e.name) = false) ∧
      p ∈ templateAt (Path.entry directory e.name)) ∨
    (FileSystem.fits (Path.entry directory e.name) = true ∧ isSkipped e.name = false ∧
      e.isDir = true ∧ p ∈ e.templates (Path.entry directory e.name)) := by
  have hpassed : e.isPassedOver = (e.isDir && isSkipped e.name) := rfl
  rw [entryFound, hpassed]
  by_cases hfits : FileSystem.fits (Path.entry directory e.name) = true
  · cases hdir : e.isDir with
    | false => simp [hfits, templates_of_not_isDir hdir]
    | true => cases hskipped : isSkipped e.name <;> simp [hfits]
  · simp [hfits]

/-- `templates` of a directory are the paths below it that it `Finds`. -/
theorem mem_templates_iff (hn : n.WellFormed) (hdir : n.isDir = true) :
    p ∈ n.templates path ↔ ∃ names, n.Finds path names ∧ p = Path.below path names := by
  induction hn generalizing path with
  | file => cases hdir
  | @dir dirName es hnames hdistinct hinner ih =>
    have hn : (dir dirName es).WellFormed := .dir hnames hdistinct hinner
    rw [templates, entryTemplates_eq_flatMap, List.mem_flatMap]
    constructor
    · rintro ⟨e, he, hp⟩
      have hchild : (dir dirName es).child? e.name = some e := (child?_eq_some_iff hn).mpr ⟨he, rfl⟩
      rcases mem_entryFound.mp hp with ⟨hkind, hp⟩ | ⟨hfits, hskipped, hdir, hp⟩
      · obtain ⟨hextension, rfl⟩ := mem_templateAt.mp hp
        exact ⟨[e.name], finds_singleton.mpr ⟨e, hchild, hkind, hextension⟩, rfl⟩
      · obtain ⟨names, hfinds, rfl⟩ := (ih e he hdir).mp hp
        exact ⟨e.name :: names,
          (finds_cons hfinds.ne_nil).mpr ⟨hfits, hskipped, e, hchild, hfinds⟩, rfl⟩
    · rintro ⟨names, hfinds, rfl⟩
      obtain ⟨name, rest, rfl⟩ := List.exists_cons_of_ne_nil hfinds.ne_nil
      by_cases hrest : rest = []
      · subst hrest
        obtain ⟨e, hchild, hkind, hextension⟩ := finds_singleton.mp hfinds
        obtain ⟨he, rfl⟩ := (child?_eq_some_iff hn).mp hchild
        exact ⟨e, he, mem_entryFound.mpr (Or.inl ⟨hkind, mem_templateAt.mpr ⟨hextension, rfl⟩⟩)⟩
      · obtain ⟨hfits, hskipped, e, hchild, hinside⟩ := (finds_cons hrest).mp hfinds
        obtain ⟨he, rfl⟩ := (child?_eq_some_iff hn).mp hchild
        have hdir : e.isDir = true := by
          obtain ⟨first, rest, rfl⟩ := List.exists_cons_of_ne_nil hrest
          obtain ⟨x, hat, -⟩ := hinside.entry
          obtain ⟨_, _, _, rfl, -⟩ := exists_child_of_at? hat
          rfl
        refine ⟨e, he, mem_entryFound.mpr (Or.inr ⟨hfits, hskipped, hdir, ?_⟩)⟩
        exact (ih e he hdir).mpr ⟨rest, hinside, rfl⟩

end Finds

/-- No two of the paths that are found have the same components. -/
theorem pairwise_components_templates {n : Node} {path : String} (hn : n.WellFormed)
    (hpath : path ≠ "") :
    (n.templates path).Pairwise fun p q => Path.components p ≠ Path.components q := by
  have hspreads : Spreads (fun path p => Path.components path <+: Path.components p)
      fun p q => Path.components p ≠ Path.components q := by
    refine ⟨fun _ => List.prefix_rfl, fun hdir hname h => ?_, fun hdir hd he hne hp hq heq => ?_⟩
    · rw [Path.components_entry hdir hname] at h
      exact (List.prefix_append _ _).trans h
    · rw [heq, Path.components_entry hdir hd] at hp
      rw [Path.components_entry hdir he] at hq
      have hbegins := List.prefix_of_prefix_length_le hp hq (by simp)
      have hsame := List.append_cancel_left (hbegins.eq_of_length (by simp))
      exact hne (Path.Component.name.inj (List.singleton_inj.mp hsame))
  exact (hspreads.of_templates hn hpath).2

/-! ## The order of a listing -/

/-- The tree with the entries of its directories listed in another order. -/
inductive Relisted : Node → Node → Prop
  | refl (n : Node) : Relisted n n
  | perm {name : String} {es es' : List Node} (h : es.Perm es') :
    Relisted (dir name es) (dir name es')
  | inner {name : String} {e e' : Node} {front rest : List Node} (h : Relisted e e') :
    Relisted (dir name (front ++ e :: rest)) (dir name (front ++ e' :: rest))
  | trans {n n' n'' : Node} (h : Relisted n n') (h' : Relisted n' n'') : Relisted n n''

/-- Listed in another order, a well-formed tree has the same places. -/
theorem Relisted.samePlaces {n n' : Node} (h : n.Relisted n') (hn : n.WellFormed) :
    n'.WellFormed ∧ n'.name = n.name ∧ n.SamePlaces n' := by
  induction h with
  | refl => exact ⟨hn, rfl, fun _ => rfl⟩
  | @perm dirName es es' hperm =>
    have hn' : (dir dirName es').WellFormed := by
      cases hn with
      | dir hnames hdistinct hinner =>
        exact .dir (fun e he => hnames e (hperm.mem_iff.mpr he))
          ((hperm.pairwise_iff Ne.symm).mp hdistinct) fun e he => hinner e (hperm.mem_iff.mpr he)
    refine ⟨hn', rfl, fun names => ?_⟩
    cases names with
    | nil => rfl
    | cons s names =>
      have hchild : (dir dirName es).child? s = (dir dirName es').child? s := by
        refine Option.ext fun e => ?_
        rw [child?_eq_some_iff hn, child?_eq_some_iff hn', hperm.mem_iff]
      rw [Node.at?, Node.at?, hchild]
  | @inner dirName e e' front rest _ ih =>
    obtain ⟨he', hname, hsame⟩ := ih (by cases hn with | dir _ _ hinner => exact hinner e (by simp))
    have hn' := wellFormed_replace hn he' hname
    refine ⟨hn', rfl, fun names => ?_⟩
    cases names with
    | nil => rfl
    | cons s names =>
      rw [Node.at?, Node.at?]
      by_cases hs : e.name = s
      · have hchild : (dir dirName (front ++ e :: rest)).child? s = some e :=
          (child?_eq_some_iff hn).mpr ⟨by simp, hs⟩
        have hchild' : (dir dirName (front ++ e' :: rest)).child? s = some e' :=
          (child?_eq_some_iff hn').mpr ⟨by simp, hname.trans hs⟩
        rw [hchild, hchild']
        exact hsame names
      · have hchild : (dir dirName (front ++ e :: rest)).child? s =
            (dir dirName (front ++ e' :: rest)).child? s := by
          refine Option.ext fun x => ?_
          rw [child?_eq_some_iff hn, child?_eq_some_iff hn']
          refine and_congr_left fun hx => ?_
          have hne : x ≠ e := fun h => hs (h ▸ hx)
          have hne' : x ≠ e' := fun h => hs (hname ▸ h ▸ hx)
          simp [hne, hne']
        rw [hchild]
  | trans _ _ ih ih' =>
    obtain ⟨hn', hname, hsame⟩ := ih hn
    obtain ⟨hn'', hname', hsame'⟩ := ih' hn'
    exact ⟨hn'', hname'.trans hname, fun names => (hsame names).trans (hsame' names)⟩

/-- `Finds` depends on the places of the tree alone. -/
theorem Finds.congr {n n' : Node} {path : String} {names : List String} (h : n.SamePlaces n')
    (hfinds : n.Finds path names) : n'.Finds path names := by
  obtain ⟨hne, ⟨e, hat, hkind⟩, hbetween, hextension⟩ := hfinds
  obtain ⟨e', hat', hdir⟩ := h.exists_at? hat
  exact ⟨hne, ⟨e', hat', hdir ▸ hkind⟩, hbetween, hextension⟩

theorem mem_templates_congr {n n' : Node} (hn : n.WellFormed) (hn' : n'.WellFormed)
    (h : n.SamePlaces n') (path p : String) : p ∈ n.templates path ↔ p ∈ n'.templates path := by
  cases hdir : n.isDir with
  | false => rw [templates_of_not_isDir hdir, templates_of_not_isDir (h.isDir ▸ hdir)]
  | true =>
    rw [mem_templates_iff hn hdir, mem_templates_iff hn' (h.isDir ▸ hdir)]
    exact exists_congr fun names => and_congr_left fun _ => ⟨Finds.congr h, Finds.congr h.symm⟩

end Node

namespace FileSystem

variable {fs : FileSystem} {root' : Node} {path : String}

/-! ## The search in a file system -/

/-- `FileSystem.templates` is in strict order. -/
theorem pairwise_precedes_templates (hfs : fs.root.WellFormed) (path : String) :
    (fs.templates path).Pairwise Path.Precedes := by
  rw [templates]
  split
  · next n hnode =>
    obtain ⟨names, hplace, hat⟩ := exists_of_node_eq_ok hnode
    have hpath : path ≠ "" := (place_eq_ok_iff.mp hplace).2.1
    obtain ⟨hperm, hordered, -⟩ := stablySorted_mergeSort Path.order (n.templates path)
    have hapart := (hperm.pairwise_iff Ne.symm).mpr
      (Node.pairwise_components_templates (hfs.at? hat) hpath)
    refine (hordered.and hapart).imp fun {p q} h => ?_
    rcases Ordering.isLE_iff_eq_lt_or_eq_eq.mp h.1 with hlt | heq
    · exact hlt
    · exact absurd (Path.components_eq_of_order heq) h.2
  · exact .nil

theorem mem_templates_iff_place {p : String} : p ∈ fs.templates path ↔ ∃ names n,
    fs.place path = .ok names ∧ fs.root.at? names = some n ∧ p ∈ n.templates path := by
  constructor
  · intro hp
    cases hnode : fs.node path with
    | error e =>
      rw [templates, hnode] at hp
      cases hp
    | ok n =>
      obtain ⟨names, hplace, hat⟩ := exists_of_node_eq_ok hnode
      exact ⟨names, n, hplace, hat, (mem_templates hnode).mp hp⟩
  · rintro ⟨names, n, hplace, hat, hp⟩
    have hnode : fs.node path = .ok n := by
      rw [node, hplace]
      simp only [bind, Except.bind, hat]
    exact (mem_templates hnode).mpr hp

theorem mem_templates_samePlaces (hfs : fs.root.WellFormed) (hroot' : root'.WellFormed)
    (h : fs.root.SamePlaces root') {p : String} (hp : p ∈ fs.templates path) :
    p ∈ FileSystem.templates { fs with root := root' } path := by
  obtain ⟨names, n, hplace, hat, hp⟩ := mem_templates_iff_place.mp hp
  obtain ⟨n', hat', -⟩ := h.exists_at? hat
  refine mem_templates_iff_place.mpr ⟨names, n', (place_samePlaces h path).trans hplace, hat', ?_⟩
  exact (Node.mem_templates_congr (hfs.at? hat) (hroot'.at? hat') (h.at? hat hat') path p).mp hp

/-- `FileSystem.templates` does not depend on the order in which directories list their entries. -/
theorem templates_relisted (hfs : fs.root.WellFormed) (h : fs.root.Relisted root') (path : String) :
    FileSystem.templates { fs with root := root' } path = fs.templates path := by
  let fs' : FileSystem := { fs with root := root' }
  obtain ⟨hroot', -, hsame⟩ := h.samePlaces hfs
  have hordered : (fs'.templates path).Pairwise Path.Precedes :=
    pairwise_precedes_templates hroot' path
  refine hordered.eq_of_mem_iff (pairwise_precedes_templates hfs path) fun p => ⟨fun hp => ?_, ?_⟩
  · exact @mem_templates_samePlaces fs' fs.root path hroot' hfs hsame.symm p hp
  · exact mem_templates_samePlaces hfs hroot' hsame

end FileSystem

/-- A path that leads to a file is its only template. Below a directory, the templates are the paths
that it `Finds`, each once. A path that leads nowhere has no templates. The templates are in strict
order, and they do not depend on the order in which directories list their entries. -/
theorem templates_search {fs : FileSystem} (hfs : fs.root.WellFormed) (path : String) :
    (∀ n, fs.node path = .ok n → n.isDir = false →
      fs.templates path = if Path.extension? path = some "nsl" then [path] else []) ∧
    (∀ n, fs.node path = .ok n → n.isDir = true →
      (∀ p, p ∈ fs.templates path ↔ ∃ names, n.Finds path names ∧ p = Path.below path names) ∧
      ∀ names names', n.Finds path names → n.Finds path names' →
        Path.below path names = Path.below path names' → names = names') ∧
    (∀ e, fs.node path = .error e → fs.templates path = []) ∧
    (fs.templates path).Pairwise (fun p q => Path.order p q = .lt) ∧
    ∀ root', fs.root.Relisted root' →
      FileSystem.templates { fs with root := root' } path = fs.templates path := by
  refine ⟨fun n hnode hdir => ?_, fun n hnode hdir => ⟨fun p => ?_, ?_⟩, fun e hnode => ?_,
    FileSystem.pairwise_precedes_templates hfs path,
    fun root' h => FileSystem.templates_relisted hfs h path⟩
  · rw [FileSystem.templates, hnode]
    show (n.templates path).mergeSort _ = _
    rw [Node.templates_of_not_isDir hdir, templateAt, isTemplatePath]
    by_cases hextension : Path.extension? path = some "nsl" <;> simp [hextension]
  · obtain ⟨names, -, hat⟩ := FileSystem.exists_of_node_eq_ok hnode
    exact (FileSystem.mem_templates hnode).trans (Node.mem_templates_iff (hfs.at? hat) hdir)
  · obtain ⟨place, hplace, hat⟩ := FileSystem.exists_of_node_eq_ok hnode
    have hpath : path ≠ "" := (FileSystem.place_eq_ok_iff.mp hplace).2.1
    have hn : n.WellFormed := hfs.at? hat
    intro names names' hfinds hfinds' heq
    obtain ⟨e, hat, -⟩ := hfinds.entry
    obtain ⟨e', hat', -⟩ := hfinds'.entry
    exact Path.below_inj hpath (hn.isEntryName_of_at? hat) (hn.isEntryName_of_at? hat')
      (congrArg Path.components heq)
  · rw [FileSystem.templates, hnode]

/-! ## A path that is too long -/

/-- A template in a directory that has the name of one. -/
def deepDirectory : FileSystem where
  root := .dir "" [.dir "d" [.dir "s.nsl" [.file "page.nsl" "x".toUTF8]]]
  here := []

theorem wellFormed_deepDirectory : deepDirectory.root.WellFormed := by
  refine Node.wellFormed_dir_singleton (by decide) ?_
  refine Node.wellFormed_dir_singleton (by decide) ?_
  exact Node.wellFormed_dir_singleton (by decide) (.file ..)

theorem templates_search_deepDirectory :
    deepDirectory.root.WellFormed ∧ "d/s.nsl/page.nsl" ∈ deepDirectory.templates "d" ∧
      (deepDirectory.templates "d").Pairwise fun p q => Path.order p q = .lt := by
  obtain ⟨-, hdirectory, -, hordered, -⟩ := templates_search wellFormed_deepDirectory "d"
  refine ⟨wellFormed_deepDirectory, ?_, hordered⟩
  refine ((hdirectory _ rfl rfl).1 _).mpr ⟨["s.nsl", "page.nsl"], ?_, by decide⟩
  refine (Node.finds_cons (by decide)).mpr ⟨by decide, by decide, _, rfl, ?_⟩
  exact Node.finds_singleton.mpr ⟨_, rfl, Or.inl rfl, by decide⟩

/-- The path that leads nowhere this often and then to the directory `d`. -/
def longPath (n : Nat) : String := String.join (List.replicate n "./") ++ "d"

theorem longPath_succ (n : Nat) : longPath (n + 1) = "./" ++ longPath n := by
  rw [longPath, longPath, List.replicate_succ, String.join_cons, String.append_assoc]

theorem segments_longPath (n : Nat) :
    Path.segments (longPath n) = List.replicate n "." ++ ["d"] := by
  induction n with
  | zero => rfl
  | succ n ih =>
    rw [longPath_succ, Path.segments, String.toList_append]
    show Path.segmentsOf [] (['.'] ++ '/' :: (longPath n).toList) = _
    rw [Path.segmentsOf_append_slash, ← Path.segments, ih]
    rfl

theorem utf8ByteSize_longPath (n : Nat) : (longPath n).utf8ByteSize = 2 * n + 1 := by
  induction n with
  | zero => rfl
  | succ n ih =>
    have hstep : "./".utf8ByteSize = 2 := rfl
    rw [longPath_succ, String.utf8ByteSize_append, ih, hstep]
    omega

theorem zero_not_mem_longPath (n : Nat) : '\x00' ∉ (longPath n).toList := by
  induction n with
  | zero => decide
  | succ n ih =>
    rw [longPath_succ, String.toList_append, List.mem_append]
    rintro (h | h)
    · exact absurd h (by decide)
    · exact ih h

theorem node_longPath {n : Nat} (hfits : 2 * n + 1 < FileSystem.maxPathLength) :
    deepDirectory.node (longPath n) = deepDirectory.node "d" := by
  have hfollow (m : Nat) : FileSystem.follow deepDirectory.root [] (List.replicate m "." ++ ["d"]) =
      .ok ["d"] := by
    induction m with
    | zero => rfl
    | succ m ih => exact ih
  have hbase : deepDirectory.base (List.replicate n "." ++ ["d"]) =
      ([], List.replicate n "." ++ ["d"]) := by
    cases n <;> rfl
  have hne : longPath n ≠ "" := by
    intro h
    have hsize := utf8ByteSize_longPath n
    rw [h] at hsize
    exact absurd hsize (by simp)
  have hplace : deepDirectory.place (longPath n) = .ok ["d"] := by
    refine FileSystem.place_eq_ok_iff.mpr ⟨zero_not_mem_longPath n, hne, ?_, ?_⟩
    · rw [FileSystem.fits, utf8ByteSize_longPath]
      exact decide_eq_true hfits
    · rw [segments_longPath, hbase]
      exact hfollow n
  rw [FileSystem.node, hplace]
  rfl

/-- By a path so long that its entries cannot be looked up, the search takes the directory in the
directory for a template. -/
theorem mem_templates_of_not_fits {path : String}
    (hnode : deepDirectory.node path = deepDirectory.node "d")
    (hlong : FileSystem.fits (Path.entry path "s.nsl") = false) :
    Path.below path ["s.nsl", "page.nsl"] ∉ deepDirectory.templates path ∧
      Path.below path ["s.nsl"] ∈ deepDirectory.templates path := by
  have hnode : deepDirectory.node path = .ok (.dir "d" _) := hnode
  obtain ⟨place, hplace, hat⟩ := FileSystem.exists_of_node_eq_ok hnode
  have hpath : path ≠ "" := (FileSystem.place_eq_ok_iff.mp hplace).2.1
  have hn := wellFormed_deepDirectory.at? hat
  rw [FileSystem.mem_templates hnode, FileSystem.mem_templates hnode, Node.mem_templates_iff hn rfl,
    Node.mem_templates_iff hn rfl]
  constructor
  · rintro ⟨names, hfinds, heq⟩
    obtain ⟨e, hat', -⟩ := hfinds.entry
    obtain rfl : ["s.nsl", "page.nsl"] = names :=
      Path.below_inj hpath (by decide) (hn.isEntryName_of_at? hat') (congrArg Path.components heq)
    have hfits := (hfinds.between [] "s.nsl" ⟨["page.nsl"], rfl⟩ (by decide)).1
    exact Bool.false_ne_true (hlong.symm.trans hfits)
  · refine ⟨["s.nsl"], Node.finds_singleton.mpr ⟨_, rfl, Or.inr hlong, ?_⟩, rfl⟩
    rw [Path.extension?_entry hpath (by decide)]
    decide

/-- The template in the directory `s.nsl` is no directory, its name and that of the directory are
as they should be, and it is not found; the directory is. -/
theorem templates_longPath :
    let n : Node := .dir "d" [.dir "s.nsl" [.file "page.nsl" "x".toUTF8]]
    deepDirectory.root.WellFormed ∧ deepDirectory.node (longPath 2046) = .ok n ∧
      (n.at? ["s.nsl"]).map Node.isDir = some true ∧ Node.isSkipped "s.nsl" = false ∧
      (n.at? ["s.nsl", "page.nsl"]).map Node.isDir = some false ∧
      (Path.splitExtension "page.nsl").2 = some "nsl" ∧
      Path.below (longPath 2046) ["s.nsl", "page.nsl"] ∉ deepDirectory.templates (longPath 2046) ∧
      Path.below (longPath 2046) ["s.nsl"] ∈ deepDirectory.templates (longPath 2046) := by
  intro n
  have hnode : deepDirectory.node (longPath 2046) = deepDirectory.node "d" :=
    node_longPath (by decide)
  have hlong : FileSystem.fits (Path.entry (longPath 2046) "s.nsl") = false := by
    have hsize := Path.le_utf8ByteSize_entry (longPath 2046) "s.nsl"
    rw [utf8ByteSize_longPath] at hsize
    exact decide_eq_false (Nat.not_lt.mpr (Nat.le_trans (by decide) hsize))
  obtain ⟨hmissed, hfound⟩ := mem_templates_of_not_fits hnode hlong
  exact ⟨wellFormed_deepDirectory, hnode, rfl, by decide, rfl, by decide, hmissed, hfound⟩

end Templates
