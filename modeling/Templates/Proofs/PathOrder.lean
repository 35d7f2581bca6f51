import Mathlib.Data.List.Basic
import Templates.Proofs.EntryPaths

/-!
# The order of paths

`Path.order` compares the components of paths, so two paths tie if and only if they have the same
components (`Path.components_eq_of_order`). `Path.entry` adds the name of the entry to the
components of the directory (`Path.components_entry`), so below one directory different lists of
names give paths that do not tie.
-/

namespace Templates

namespace Path

instance : Std.TransOrd Component :=
  inferInstanceAs (Std.TransCmp
    (compareLex (compareOn Component.rank) (compareOn Component.label)))

instance : Std.LawfulEqOrd Component where
  eq_of_compare := by
    intro a b h
    obtain ⟨hrank, hlabel⟩ := Ordering.then_eq_eq.mp h
    have hrank := Std.LawfulEqOrd.eq_of_compare hrank
    have hlabel := Std.LawfulEqOrd.eq_of_compare hlabel
    cases a <;> cases b <;> simp_all [Component.rank, Component.label]

instance : Std.TransCmp order := inferInstanceAs (Std.TransCmp (compareOn components))

theorem components_eq_of_order {p q : String} (h : order p q = .eq) :
    components p = components q := Std.LawfulEqOrd.eq_of_compare h

/-- The path comes in front of the other. -/
def Precedes (p q : String) : Prop := order p q = .lt

instance : Std.Irrefl Precedes where
  irrefl p h := by
    have hself : order p p = .eq := Std.ReflCmp.compare_self
    rw [Precedes, hself] at h
    cases h

instance : Std.Antisymm Precedes where
  antisymm p q hpq hqp := by
    have hlt : order p p = .lt := Std.TransCmp.lt_trans hpq hqp
    exact absurd hlt (Std.Irrefl.irrefl (r := Precedes) p)

/-- The components that a path starts with, by its segments. -/
def startOf : List String → List Component
  | "" :: _ :: _ => [.root]
  | "." :: _ => [.here]
  | _ => []

theorem components_eq (path : String) : components path =
    startOf (segments path) ++ ((segments path).filter (!isIdle ·)).map .ofSegment := rfl

/-- The start of a path depends on its first segment only. -/
theorem startOf_append {before behind behind' : List String} (hbefore : before ≠ [])
    (h : before ++ behind ≠ [""]) (h' : before ++ behind' ≠ [""]) :
    startOf (before ++ behind) = startOf (before ++ behind') := by
  obtain ⟨s, rest, rfl⟩ := List.exists_cons_of_ne_nil hbefore
  by_cases hs : s = ""
  · subst hs
    have hroot : ∀ ss, "" :: ss ≠ [""] → startOf ("" :: ss) = [.root] := by
      intro ss hss
      cases ss with
      | nil => exact absurd rfl hss
      | cons => rfl
    exact (hroot _ h).trans (hroot _ h').symm
  · have hfirst : ∀ ss, startOf (s :: ss) = if s = "." then [.here] else [] := by
      intro ss
      by_cases hhere : s = "."
      · subst hhere
        rfl
      · simp [startOf, hs, hhere]
    exact (hfirst _).trans (hfirst _).symm

/-- `entry` adds the name to the components of the directory. -/
theorem components_entry {directory name : String} (hdir : directory ≠ "")
    (hname : IsEntryName name) :
    components (entry directory name) = components directory ++ [.name name] := by
  obtain ⟨hidle, hup, hslash⟩ := hname
  obtain ⟨before, hbefore, hentry, hdirectory⟩ := exists_segments_entry hdir hslash
  obtain ⟨behind, hsegments, hnone⟩ : ∃ behind, segments directory = before ++ behind ∧
      behind.filter (!isIdle ·) = [] := by
    rcases hdirectory with h | h
    · exact ⟨[], by rw [h, List.append_nil], rfl⟩
    · exact ⟨[""], h, rfl⟩
  have hstart : startOf (before ++ [name]) = startOf (before ++ behind) := by
    refine startOf_append hbefore ?_ ?_
    · rw [← hentry]
      exact fun h => entry_ne_empty hdir name (segments_eq_singleton_empty h)
    · rw [← hsegments]
      exact fun h => hdir (segments_eq_singleton_empty h)
  have hkept : [name].filter (!isIdle ·) = [name] := by simp [hidle]
  have hcomponent : Component.ofSegment name = .name name := by simp [Component.ofSegment, hup]
  rw [components_eq, components_eq, hentry, hsegments, hstart, List.filter_append,
    List.filter_append, hkept, hnone, List.append_nil, List.map_append, List.map_singleton,
    hcomponent, List.append_assoc]

/-- `entry` has the extension of the name. -/
theorem extension?_entry {directory name : String} (hdir : directory ≠ "")
    (hname : IsEntryName name) :
    extension? (entry directory name) = (splitExtension name).2 := by
  obtain ⟨hidle, hup, hslash⟩ := hname
  obtain ⟨before, -, hentry, -⟩ := exists_segments_entry hdir hslash
  simp [extension?, splitName?, hentry, hidle, hup]

theorem le_utf8ByteSize_entry (directory name : String) :
    directory.utf8ByteSize + name.utf8ByteSize ≤ (entry directory name).utf8ByteSize := by
  rw [entry]
  split
  · exact Nat.le_of_eq (String.utf8ByteSize_append ..).symm
  · rw [String.utf8ByteSize_append, String.utf8ByteSize_append]
    omega

/-- The path of what some names lead to from a directory. -/
def below (directory : String) (names : List String) : String := names.foldl entry directory

theorem components_below {directory : String} {names : List String} (hdir : directory ≠ "")
    (hnames : ∀ s ∈ names, IsEntryName s) :
    components (below directory names) = components directory ++ names.map .name := by
  induction names generalizing directory with
  | nil => exact (List.append_nil _).symm
  | cons name names ih =>
    obtain ⟨hname, hnames⟩ := List.forall_mem_cons.mp hnames
    show components (below (entry directory name) names) = _
    rw [ih (entry_ne_empty hdir name) hnames, components_entry hdir hname, List.append_assoc]
    rfl

/-- Different lists of names lead to different paths. -/
theorem below_inj {directory : String} {names names' : List String} (hdir : directory ≠ "")
    (hnames : ∀ s ∈ names, IsEntryName s) (hnames' : ∀ s ∈ names', IsEntryName s)
    (h : components (below directory names) = components (below directory names')) :
    names = names' := by
  rw [components_below hdir hnames, components_below hdir hnames'] at h
  have hinj : Function.Injective Component.name := fun a b hab => Component.name.inj hab
  exact List.map_injective_iff.mpr hinj (List.append_cancel_left h)

end Path

end Templates
