import Mathlib.Data.List.Flatten
import Mathlib.Logic.Relation
import Templates.Proofs.PathOrder
import Templates.Proofs.StableSorting
import Templates.Proofs.StructureChecks

/-!
# Linting several files at once

Several files are linted by workers, one for each path of a list, and the findings of a worker are
added to those already there as soon as it finishes. `LintRun.Step` lets any worker that is still at
work finish next, so a run is any order of completion.

`lintPaths_schedule` shows that the order does not matter in the end: `collate` sorts the findings
stably by path and line, and a worker only finds things about its own file. Findings that tie come
from workers with the same path, whose blocks of findings are the same.
-/

namespace Templates

/-! ## The order of findings -/

namespace Diagnostic

theorem order_eq : Diagnostic.order =
    compareLex (compareOn fun d => Path.components d.file) (compareOn Diagnostic.line) := by
  funext a b
  unfold Diagnostic.order
  split
  · next hfile =>
    have hself : compare (Path.components a.file) (Path.components b.file) = .eq := by
      rw [hfile]
      exact Std.ReflCmp.compare_self
    simp only [compareLex, compareOn, hself, Ordering.then]
  · rfl

instance : Std.TransCmp Diagnostic.order := by
  rw [order_eq]
  infer_instance

theorem order_eq_eq_iff {a b : Diagnostic} : Diagnostic.order a b = .eq ↔
    Path.order a.file b.file = .eq ∧ compareOn Diagnostic.line a b = .eq := by
  rw [order_eq]
  exact Ordering.then_eq_eq

theorem order_of_file_eq {a b : Diagnostic} (h : a.file = b.file) :
    Diagnostic.order a b = compareOn Diagnostic.line a b := if_pos h

end Diagnostic

theorem StablySorted.filter_file {l sorted : List Diagnostic}
    (h : StablySorted Diagnostic.order l sorted) (path : String) :
    StablySorted (compareOn Diagnostic.line) (l.filter fun d => d.file = path)
      (sorted.filter fun d => d.file = path) where
  perm := h.perm.filter _
  ordered := by
    refine (h.ordered.filter _).imp_of_mem fun {a b} ha hb hab => ?_
    have hfile := (of_decide_eq_true (List.mem_filter.mp ha).2).trans
      (of_decide_eq_true (List.mem_filter.mp hb).2).symm
    rwa [Diagnostic.order_of_file_eq hfile] at hab
  ties := by
    intro a
    -- Moved to the path, the finding ties with the same findings about the path as before.
    have hmove : ∀ l : List Diagnostic,
        ((l.filter fun d => d.file = path).filter fun b => compareOn Diagnostic.line a b = .eq) =
          (l.filter fun b => Diagnostic.order { a with file := path } b = .eq).filter
            fun d => d.file = path := by
      intro l
      rw [List.filter_filter, List.filter_filter]
      refine List.filter_congr fun d _ => ?_
      by_cases hd : d.file = path
      · rw [Diagnostic.order_of_file_eq hd.symm, Bool.and_comm]
        rfl
      · simp [hd]
    rw [hmove, hmove, h.ties]

/-! ## The findings of one worker -/

section Worker

variable {file source : String} {d : Diagnostic}

theorem file_of_mem_checkStructure (h : d ∈ checkStructure file source) : d.file = file := by
  simp only [checkStructure, List.mem_append] at h
  rcases h with ((hletter | hcomment) | hpair) | htag
  · obtain ⟨-, -, -, -, -, rfl⟩ := exists_of_mem_lineFindings hletter
    rfl
  · obtain ⟨-, -, -, -, -, rfl⟩ := exists_of_mem_lineFindings hcomment
    rfl
  · obtain ⟨pair, -, hpair⟩ := List.mem_filterMap.mp hpair
    simp only [Option.ite_none_left_eq_some, Option.some.injEq] at hpair
    obtain ⟨-, rfl⟩ := hpair
    rfl
  · obtain ⟨finding, -, rfl⟩ := List.mem_map.mp htag
    rfl

theorem Diagnostic.file_withLine (lines : Array String) (d : Diagnostic) :
    (d.withLine lines).file = d.file := by
  unfold Diagnostic.withLine
  split <;> rfl

theorem file_of_mem_lintSource {params : Option (List String)}
    (h : d ∈ lintSource file source params) : d.file = file := by
  have hchecks : d ∈ checkStructure file source → d.file = file := file_of_mem_checkStructure
  simp only [lintSource] at h
  split at h
  · exact hchecks h
  split at h
  · exact hchecks h
  split at h
  · exact hchecks h
  · rcases List.mem_append.mp h with hcheck | hname
    · exact hchecks hcheck
    · obtain ⟨e, he, rfl⟩ := List.mem_map.mp hname
      obtain ⟨r, -, rfl⟩ := List.mem_map.mp he
      exact Diagnostic.file_withLine _ _

theorem file_of_mem_lintFile {fs : FileSystem} {params : Option (List String)}
    (h : d ∈ lintFile fs file params) : d.file = file := by
  unfold lintFile at h
  split at h
  · exact file_of_mem_lintSource h
  · rw [List.mem_singleton.mp h]

theorem file_of_mem_lintTemplate {fs : FileSystem} {params : Option (List String)}
    (h : d ∈ lintTemplate fs params file) : d.file = file := by
  unfold lintTemplate at h
  split at h
  · exact file_of_mem_lintFile h
  split at h
  · exact file_of_mem_lintFile h
  · rcases List.mem_cons.mp h with rfl | hfile
    · rfl
    · exact file_of_mem_lintFile hfile

end Worker

/-! ## Runs -/

/-- Workers that lint files: the paths of those that are still at work, and what the others found,
in the order in which they finished. -/
structure LintRun where
  /-- The paths that are being linted. -/
  pending : List String
  /-- The findings of the workers that have finished. -/
  found : List (List Diagnostic)

namespace LintRun

section Run

variable {fs : FileSystem} {params : Option (List String)}

/-- One of the workers finishes. -/
inductive Step (fs : FileSystem) (params : Option (List String)) : LintRun → LintRun → Prop
  | finish {before after : List String} {path : String} {found : List (List Diagnostic)} :
    Step fs params ⟨before ++ path :: after, found⟩
      ⟨before ++ after, found ++ [lintTemplate fs params path]⟩

/-- Some of the workers finish, one after the other. -/
def Reaches (fs : FileSystem) (params : Option (List String)) : LintRun → LintRun → Prop :=
  Relation.ReflTransGen (Step fs params)

theorem Step.exists_path {r s : LintRun} (h : Step fs params r s) :
    ∃ path, (path :: s.pending).Perm r.pending ∧
      s.found = r.found ++ [lintTemplate fs params path] := by
  cases h with
  | finish => exact ⟨_, List.perm_middle.symm, rfl⟩

/-- What has been found are the findings about the paths of the workers that are no longer at
work. -/
theorem Reaches.exists_finished {r s : LintRun} (h : Reaches fs params r s) :
    ∃ finished : List String, (finished ++ s.pending).Perm r.pending ∧
      s.found = r.found ++ finished.map (lintTemplate fs params) := by
  induction h with
  | refl => exact ⟨[], .refl _, (List.append_nil _).symm⟩
  | tail _ hstep ih =>
    obtain ⟨finished, hperm, hfound⟩ := ih
    obtain ⟨path, hpath, hstep⟩ := hstep.exists_path
    refine ⟨finished ++ [path], ?_, ?_⟩
    · rw [List.append_assoc]
      exact (hpath.append_left finished).trans hperm
    · rw [hstep, hfound, List.map_append, List.append_assoc]
      rfl

/-- The workers can finish in any order. -/
theorem reaches_of_perm {finished pending : List String} (h : finished.Perm pending)
    (found : List (List Diagnostic)) :
    Reaches fs params ⟨pending, found⟩ ⟨[], found ++ finished.map (lintTemplate fs params)⟩ := by
  induction finished generalizing pending found with
  | nil =>
    rw [h.nil_eq.symm, List.map_nil, List.append_nil]
    exact .refl
  | cons path finished ih =>
    obtain ⟨before, after, rfl⟩ := List.append_of_mem (h.mem_iff.mp List.mem_cons_self)
    have hrest : finished.Perm (before ++ after) := (h.trans List.perm_middle).cons_inv
    have hrun := ih hrest (found ++ [lintTemplate fs params path])
    rw [List.append_assoc] at hrun
    exact .head .finish hrun

end Run

end LintRun

/-! ## The result of a run -/

/-- Blocks that are put together in another order give the same list if all that are not empty
belong to the same path. -/
theorem flatMap_eq_of_perm {f : String → List Diagnostic} {l m : List String} (hperm : l.Perm m)
    (hone : ∀ p ∈ l, ∀ q ∈ l, f p ≠ [] → f q ≠ [] → p = q) : l.flatMap f = m.flatMap f := by
  induction hperm with
  | nil => rfl
  | cons p _ ih =>
    rw [List.flatMap_cons, List.flatMap_cons]
    refine congrArg (f p ++ ·) (ih fun q hq r hr => ?_)
    exact hone q (List.mem_cons_of_mem _ hq) r (List.mem_cons_of_mem _ hr)
  | swap p q l =>
    simp only [List.flatMap_cons]
    by_cases hp : f p = []
    · rw [hp]
      rfl
    · by_cases hq : f q = []
      · rw [hq]
        rfl
      · rw [hone q List.mem_cons_self p (List.mem_cons_of_mem _ List.mem_cons_self) hq hp]
  | trans hlm _ ih ih' =>
    refine (ih hone).trans (ih' fun p hp q hq => ?_)
    exact hone p (hlm.mem_iff.mpr hp) q (hlm.mem_iff.mpr hq)

theorem flatMap_eq_replicate {f : String → List Diagnostic} {p : String}
    (hother : ∀ q, q ≠ p → f q = []) (l : List String) :
    l.flatMap f = (List.replicate (l.count p) (f p)).flatten := by
  induction l with
  | nil => rfl
  | cons q l ih =>
    rw [List.flatMap_cons, ih]
    by_cases hq : q = p
    · rw [hq, List.count_cons_self, List.replicate_succ, List.flatten_cons]
    · rw [hother q hq, List.count_cons_of_ne hq, List.nil_append]

section Result

variable {fs : FileSystem} {params : Option (List String)} {paths : List String}

theorem stablySorted_collate (fs : FileSystem) (params : Option (List String))
    (paths : List String) :
    StablySorted Diagnostic.order (paths.flatMap (lintTemplate fs params))
      (collate (paths.map (lintTemplate fs params))) := by
  rw [List.flatMap_def]
  exact stablySorted_mergeSort Diagnostic.order _

/-- Findings that tie have the same path, so every order of the paths gives them in the same order.
-/
theorem filter_ties_eq_of_perm {finished : List String} (hperm : finished.Perm paths)
    (hsame : ∀ p ∈ paths, ∀ q ∈ paths, Path.order p q = .eq → p = q) (d : Diagnostic) :
    ((finished.flatMap (lintTemplate fs params)).filter fun e => Diagnostic.order d e = .eq) =
      (paths.flatMap (lintTemplate fs params)).filter fun e => Diagnostic.order d e = .eq := by
  rw [List.filter_flatMap, List.filter_flatMap]
  have hpath : ∀ p, ((lintTemplate fs params p).filter fun e => Diagnostic.order d e = .eq) ≠ [] →
      Path.order d.file p = .eq := by
    intro p hp
    obtain ⟨e, he⟩ := List.exists_mem_of_ne_nil _ hp
    obtain ⟨hmem, htie⟩ := List.mem_filter.mp he
    rw [← file_of_mem_lintTemplate hmem]
    exact (Diagnostic.order_eq_eq_iff.mp (of_decide_eq_true htie)).1
  refine flatMap_eq_of_perm hperm fun p hp q hq hfp hfq => ?_
  refine hsame p (hperm.mem_iff.mp hp) q (hperm.mem_iff.mp hq) ?_
  exact Std.TransCmp.eq_trans (Std.OrientedCmp.eq_symm (hpath p hfp)) (hpath q hfq)

/-- `collate` does not depend on the order in which the files are linted. -/
theorem collate_map_of_perm {finished : List String} (hperm : finished.Perm paths)
    (hsame : ∀ p ∈ paths, ∀ q ∈ paths, Path.order p q = .eq → p = q) :
    collate (finished.map (lintTemplate fs params)) = lintPaths fs params paths := by
  have hsorted := stablySorted_collate fs params finished
  have hmoved : StablySorted Diagnostic.order (paths.flatMap (lintTemplate fs params))
      (collate (finished.map (lintTemplate fs params))) := by
    refine ⟨?_, hsorted.ordered, fun d => ?_⟩
    · exact hsorted.perm.trans (hperm.flatMap_right _)
    · exact (hsorted.ties d).trans (filter_ties_eq_of_perm hperm hsame d)
  exact hmoved.unique (stablySorted_collate fs params paths)

theorem filter_file_flatMap (fs : FileSystem) (params : Option (List String)) (paths : List String)
    (path : String) :
    ((paths.flatMap (lintTemplate fs params)).filter fun d => d.file = path) =
      (List.replicate (paths.count path) (lintTemplate fs params path)).flatten := by
  have hown : ((lintTemplate fs params path).filter fun d => d.file = path) =
      lintTemplate fs params path := by
    refine List.filter_eq_self.mpr fun d hd => ?_
    exact decide_eq_true (file_of_mem_lintTemplate hd)
  have hother : ∀ q, q ≠ path →
      ((lintTemplate fs params q).filter fun d => d.file = path) = [] := by
    intro q hq
    refine List.filter_eq_nil_iff.mpr fun d hd => ?_
    rw [file_of_mem_lintTemplate hd]
    simpa using hq
  rw [List.filter_flatMap, flatMap_eq_replicate hother, hown]

/-- The workers can finish in every order, and every run can be completed. If paths that compare
equal are spelled the same, every completed run gives the list `lintPaths`: the findings about all
paths, stably sorted by path and line. What it holds about one file are the findings of
`lintTemplate` about that file, once for each occurrence of its path, stably sorted by line. -/
theorem lintPaths_schedule (fs : FileSystem) (params : Option (List String))
    (hsame : ∀ p ∈ paths, ∀ q ∈ paths, Path.order p q = .eq → p = q) :
    (∀ finished : List String, finished.Perm paths →
      LintRun.Reaches fs params ⟨paths, []⟩ ⟨[], finished.map (lintTemplate fs params)⟩) ∧
    (∀ r, LintRun.Reaches fs params ⟨paths, []⟩ r →
      ∃ found, LintRun.Reaches fs params r ⟨[], found⟩) ∧
    (∀ found, LintRun.Reaches fs params ⟨paths, []⟩ ⟨[], found⟩ →
      collate found = lintPaths fs params paths) ∧
    StablySorted Diagnostic.order (paths.flatMap (lintTemplate fs params))
      (lintPaths fs params paths) ∧
    ∀ path, StablySorted (compareOn Diagnostic.line)
      (List.replicate (paths.count path) (lintTemplate fs params path)).flatten
      ((lintPaths fs params paths).filter fun d => d.file = path) := by
  refine ⟨fun finished hperm => LintRun.reaches_of_perm hperm [], fun r _ => ?_,
    fun found hrun => ?_, stablySorted_collate fs params paths, fun path => ?_⟩
  · exact ⟨_, LintRun.reaches_of_perm (.refl r.pending) r.found⟩
  · obtain ⟨finished, hperm, hfound⟩ := hrun.exists_finished
    rw [List.append_nil] at hperm
    have hfound : found = finished.map (lintTemplate fs params) := hfound
    rw [hfound]
    exact collate_map_of_perm hperm hsame
  · rw [← filter_file_flatMap]
    exact (stablySorted_collate fs params paths).filter_file path

/-- A path that occurs twice, with findings that are not in the order of their lines, beside a path
that comes first in the order of paths. -/
theorem lintPaths_schedule_repeatedPath :
    let content := "\x7b\x7b x \x7d\x7d\n\x7b# ж".toUTF8
    let fs : FileSystem := ⟨.dir "" [.file "b.nsl" content, .dir "a" [.file "x.nsl" content]], []⟩
    let paths := ["b.nsl", "a/x.nsl", "b.nsl"]
    (∀ p ∈ paths, ∀ q ∈ paths, Path.order p q = .eq → p = q) ∧
      (∀ finished : List String, finished.Perm paths →
        LintRun.Reaches fs none ⟨paths, []⟩ ⟨[], finished.map (lintTemplate fs none)⟩) ∧
      (∀ r, LintRun.Reaches fs none ⟨paths, []⟩ r →
        ∃ found, LintRun.Reaches fs none r ⟨[], found⟩) ∧
      (∀ found, LintRun.Reaches fs none ⟨paths, []⟩ ⟨[], found⟩ →
        collate found = lintPaths fs none paths) ∧
      StablySorted Diagnostic.order (paths.flatMap (lintTemplate fs none))
        (lintPaths fs none paths) ∧
      ∀ path, StablySorted (compareOn Diagnostic.line)
        (List.replicate (paths.count path) (lintTemplate fs none path)).flatten
        ((lintPaths fs none paths).filter fun d => d.file = path) := by
  intro content fs paths
  have hsame : ∀ p ∈ paths, ∀ q ∈ paths, Path.order p q = .eq → p = q := by decide +kernel
  exact ⟨hsame, lintPaths_schedule fs none hsame⟩

end Result

end Templates
