import Mathlib.Data.List.Basic

/-!
# Stable sorting

`StablySorted` says that a list has the elements of another one in order, with those that tie in the
order that they had. There is only one such list (`StablySorted.unique`), and `mergeSort` gives it
(`stablySorted_mergeSort`).
-/

namespace Templates

/-- The list `sorted` is the list `l` put in order, and elements that tie stay in their order. -/
structure StablySorted {α : Type} (order : α → α → Ordering) (l sorted : List α) : Prop where
  perm : sorted.Perm l
  ordered : sorted.Pairwise fun a b => (order a b).isLE
  ties : ∀ a, (sorted.filter fun b => order a b = .eq) = l.filter fun b => order a b = .eq

section StablySorted

variable {α : Type} {order : α → α → Ordering} [Std.TransCmp order] {l sorted : List α}

theorem stablySorted_mergeSort (order : α → α → Ordering) [Std.TransCmp order] (l : List α) :
    StablySorted order l (l.mergeSort fun a b => (order a b).isLE) := by
  have htrans : ∀ a b c, (order a b).isLE → (order b c).isLE → (order a c).isLE :=
    fun _ _ _ => Std.TransCmp.isLE_trans
  have htotal : ∀ a b, ((order a b).isLE || (order b a).isLE) = true := by
    intro a b
    have hswap : order b a = (order a b).swap := Std.OrientedCmp.eq_swap
    rw [hswap]
    cases order a b <;> rfl
  have hperm := List.mergeSort_perm l fun a b => (order a b).isLE
  refine ⟨hperm, List.pairwise_mergeSort htrans htotal l, fun a => ?_⟩
  -- Elements that tie are in order already, and sorting keeps them so.
  have hties : (l.filter fun b => order a b = .eq).Pairwise fun b c => (order b c).isLE := by
    refine List.pairwise_of_forall_mem_list fun b hb c hc => ?_
    have hab := of_decide_eq_true (List.mem_filter.mp hb).2
    have hac := of_decide_eq_true (List.mem_filter.mp hc).2
    rw [Std.TransCmp.eq_trans (Std.OrientedCmp.eq_symm hab) hac]
    rfl
  have hkept := List.sublist_mergeSort htrans htotal hties List.filter_sublist
  have hsub := hkept.filter fun b => order a b = .eq
  simp only [List.filter_filter, Bool.and_self] at hsub
  exact (hsub.eq_of_length (hperm.filter _).length_eq.symm).symm

/-- There is only one way to sort a list stably. -/
theorem StablySorted.unique {sorted' : List α} (h : StablySorted order l sorted)
    (h' : StablySorted order l sorted') : sorted = sorted' := by
  have hperm := h.perm.trans h'.perm.symm
  have hties : ∀ a, (sorted.filter fun b => order a b = .eq) =
      sorted'.filter fun b => order a b = .eq := fun a => (h.ties a).trans (h'.ties a).symm
  have hordered := h.ordered
  have hordered' := h'.ordered
  clear h h'
  -- The two lists shrink together; `l` does not, so only what compares the two is kept.
  induction sorted generalizing sorted' with
  | nil => exact hperm.nil_eq
  | cons a as ih =>
    cases sorted' with
    | nil => exact absurd hperm.eq_nil nofun
    | cons b bs =>
      obtain ⟨hfirst, hrest⟩ := List.pairwise_cons.mp hordered
      obtain ⟨hfirst', hrest'⟩ := List.pairwise_cons.mp hordered'
      -- The two first elements tie, and each is the first of those that tie with it.
      have htie : order a b = .eq := by
        rcases List.mem_cons.mp (hperm.mem_iff.mpr List.mem_cons_self) with rfl | hb
        · exact Std.ReflCmp.compare_self
        · rcases List.mem_cons.mp (hperm.mem_iff.mp List.mem_cons_self) with rfl | ha
          · exact Std.ReflCmp.compare_self
          · exact Std.OrientedCmp.isLE_antisymm (hfirst b hb) (hfirst' a ha)
      have hself : order a a = .eq := Std.ReflCmp.compare_self
      have hsame := hties a
      rw [List.filter_cons_of_pos (by simpa using hself),
        List.filter_cons_of_pos (by simpa using htie)] at hsame
      obtain ⟨rfl, -⟩ := List.cons.inj hsame
      refine congrArg (a :: ·) (ih hperm.cons_inv (fun c => ?_) hrest hrest')
      have hc := hties c
      by_cases hca : order c a = .eq
      · rw [List.filter_cons_of_pos (by simpa using hca),
          List.filter_cons_of_pos (by simpa using hca)] at hc
        exact (List.cons.inj hc).2
      · rwa [List.filter_cons_of_neg (by simpa using hca),
          List.filter_cons_of_neg (by simpa using hca)] at hc

end StablySorted

end Templates
