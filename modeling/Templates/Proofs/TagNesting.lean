import Templates.Proofs.StructureChecks

/-!
# Nesting of tags

`tagFaults` goes through the names of the tags in a raw text with a stack of open constructs. Here
it is compared with a language of brackets that has no stack. A list of names is `WellNested` if
every opening name is closed by its own closing name, it is `Completable` if more names make it well
nested, and `OpenAt` says of a single opening name that nothing in the list closes it.

`tagFaults` finds nothing if and only if the names are well nested. If only closing names are
missing, it finds the opening names that are open, and otherwise the first name with which the list
cannot be completed any more (`tagFaults_verdict`).

`Leaves` says what is on the stack: the names are a series of well nested lists with the open names
between them. Every name adds to such a series, or the list gets `Stuck` (`exists_leaves`).
-/

namespace Templates

/-- The names of tags that open a construct or close one. -/
def pairWords : List String := tagPairs.flatMap fun pair => [pair.opener, pair.closer]

/-- The names of the tags in a text that open a construct or close one, in order. -/
def nestingWords (text : List Char) : List String := (tagNames text).filter (· ∈ pairWords)

/-- Every name that opens a construct is closed by the name that belongs to it, and the names
between the two are well nested as well. -/
inductive WellNested : List String → Prop
  | nil : WellNested []
  | pair {pair : Pair} {us vs : List String} (hpair : pair ∈ tagPairs) (hus : WellNested us)
    (hvs : WellNested vs) : WellNested (pair.opener :: (us ++ pair.closer :: vs))

/-- More names make the list well nested. -/
def Completable (ws : List String) : Prop := ∃ vs, WellNested (ws ++ vs)

/-- The name at a place of the list, counted from zero, opens a construct, and no name closes it. -/
def OpenAt (ws : List String) (i : Nat) (pair : Pair) : Prop :=
  pair ∈ tagPairs ∧ ∃ us vs, ws = us ++ pair.opener :: vs ∧ us.length = i ∧
    ∀ between rest, vs = between ++ pair.closer :: rest → ¬ WellNested between

/-! ## Names -/

theorem eq_of_opener_eq : ∀ p ∈ tagPairs, ∀ q ∈ tagPairs, p.opener = q.opener → p = q := by decide

theorem closer_ne_opener : ∀ p ∈ tagPairs, ∀ q ∈ tagPairs, p.closer ≠ q.opener := by decide

theorem mem_pairWords {w : String} :
    w ∈ pairWords ↔ ∃ pair ∈ tagPairs, w = pair.opener ∨ w = pair.closer := by
  simp [pairWords, List.mem_flatMap]

section TagFault

variable {pair : Pair} {pending : List Pair} {names : List String}

theorem tagFault?_closer_nil (hpair : pair ∈ tagPairs) :
    tagFault? [] (pair.closer :: names) = some (.unexpectedCloser pair.closer) := by
  obtain ⟨hopened, hclosed⟩ := pairClosedBy?_closer pair hpair
  simp only [tagFault?, hopened, hclosed, Bool.false_eq_true, if_false]

theorem tagFault?_closer_ne {top : Pair} (hpair : pair ∈ tagPairs)
    (hne : top.closer ≠ pair.closer) :
    tagFault? (top :: pending) (pair.closer :: names) =
      some (.mismatchedCloser top pair.closer) := by
  obtain ⟨hopened, hclosed⟩ := pairClosedBy?_closer pair hpair
  simp only [tagFault?, hopened, hclosed, Bool.false_eq_true, if_false, hne]

theorem tagFault?_other {w : String} (hw : w ∉ pairWords) :
    tagFault? pending (w :: names) = tagFault? pending names := by
  have hopened : pairOpenedBy? w = none := by
    refine List.find?_eq_none.mpr fun pair hpair h => hw (mem_pairWords.mpr ⟨pair, hpair, ?_⟩)
    exact Or.inl (eq_of_beq h).symm
  have hclosed : pairClosedBy? w = none := by
    refine List.find?_eq_none.mpr fun pair hpair h => hw (mem_pairWords.mpr ⟨pair, hpair, ?_⟩)
    exact Or.inr (eq_of_beq h).symm
  simp only [tagFault?, hopened, hclosed, Option.isNone_none, if_true]

/-- Names of other tags do not matter. -/
theorem tagFault?_filter (pending : List Pair) (names : List String) :
    tagFault? pending (names.filter (· ∈ pairWords)) = tagFault? pending names := by
  induction names generalizing pending with
  | nil => rfl
  | cons w names ih =>
    by_cases hw : w ∈ pairWords
    · simp only [List.filter_cons, hw, decide_true, if_true, tagFault?, ih]
    · simp only [List.filter_cons, hw, decide_false, Bool.false_eq_true, if_false, ih,
        tagFault?_other hw]

end TagFault

/-! ## Well nested lists -/

namespace WellNested

variable {us vs : List String}

theorem append (hus : WellNested us) (hvs : WellNested vs) : WellNested (us ++ vs) := by
  induction hus with
  | nil => exact hvs
  | pair hpair hinner _ _ ihrest =>
    rw [List.cons_append, List.append_assoc, List.cons_append]
    exact .pair hpair hinner ihrest

/-- A well nested list leaves what is open as it is. -/
theorem tagFault?_append (h : WellNested us) (pending : List Pair) (names : List String) :
    tagFault? pending (us ++ names) = tagFault? pending names := by
  induction h generalizing pending names with
  | nil => rfl
  | pair hpair _ _ ihinner ihrest =>
    rw [List.cons_append, List.append_assoc, tagFault?_opener hpair, ihinner, List.cons_append,
      tagFault?_closer hpair, ihrest]

theorem tagFault?_eq_none (h : WellNested us) : tagFault? [] us = none := by
  rw [← List.append_nil us, h.tagFault?_append]
  rfl

/-- No closing name follows a well nested list. -/
theorem not_append_closer {pair : Pair} (hus : WellNested us) (hpair : pair ∈ tagPairs)
    (rest : List String) : ¬ WellNested (us ++ pair.closer :: rest) := by
  intro h
  have hnone := h.tagFault?_eq_none
  rw [hus.tagFault?_append, tagFault?_closer_nil hpair] at hnone
  cases hnone

end WellNested

/-- In equal lists, two names are the same or one is in front of the other. -/
theorem append_cons_cases {us vs ws zs : List String} {a b : String}
    (h : us ++ a :: vs = ws ++ b :: zs) :
    (∃ ms, ws = us ++ a :: ms ∧ vs = ms ++ b :: zs) ∨ (us = ws ∧ a = b ∧ vs = zs) ∨
      ∃ ms, us = ws ++ b :: ms ∧ zs = ms ++ a :: vs := by
  rcases List.append_eq_append_iff.mp h with ⟨ms, rfl, hms⟩ | ⟨ms, rfl, hms⟩
  · rcases List.cons_eq_append_iff.mp hms with ⟨rfl, hcons⟩ | ⟨ms, rfl, hvs⟩
    · obtain ⟨rfl, rfl⟩ := List.cons.inj hcons
      exact Or.inr (Or.inl ⟨(List.append_nil us).symm, rfl, rfl⟩)
    · exact Or.inl ⟨ms, rfl, hvs⟩
  · rcases List.cons_eq_append_iff.mp hms with ⟨rfl, hcons⟩ | ⟨ms, rfl, hzs⟩
    · obtain ⟨rfl, rfl⟩ := List.cons.inj hcons
      exact Or.inr (Or.inl ⟨List.append_nil ws, rfl, rfl⟩)
    · exact Or.inr (Or.inr ⟨ms, rfl, hzs⟩)

/-- In a well nested list every opening name is closed. -/
theorem WellNested.not_openAt {ws : List String} (h : WellNested ws) (i : Nat) (pair : Pair) :
    ¬ OpenAt ws i pair := by
  suffices hclosed : ∀ us vs, ws = us ++ pair.opener :: vs → pair ∈ tagPairs →
      ∃ between rest, vs = between ++ pair.closer :: rest ∧ WellNested between by
    rintro ⟨hpair, us, vs, hws, -, hopen⟩
    obtain ⟨between, rest, hvs, hbetween⟩ := hclosed us vs hws hpair
    exact hopen between rest hvs hbetween
  induction h with
  | nil => intro us vs hws; simp at hws
  | @pair outer inner after houter hinner _ ihinner ihafter =>
    intro us vs hws hpair
    cases us with
    | nil =>
      obtain ⟨hopener, rfl⟩ := List.cons.inj hws
      obtain rfl := eq_of_opener_eq outer houter pair hpair hopener
      exact ⟨inner, after, rfl, hinner⟩
    | cons u us =>
      obtain ⟨rfl, hrest⟩ := List.cons.inj hws
      rcases append_cons_cases hrest with ⟨ms, rfl, hms⟩ | ⟨rfl, hword, -⟩ | ⟨ms, hms, rfl⟩
      · exact ihafter ms vs hms hpair
      · exact absurd hword (closer_ne_opener outer houter pair hpair)
      · obtain ⟨between, rest, rfl, hbetween⟩ := ihinner us ms hms hpair
        exact ⟨between, rest ++ outer.closer :: after, by simp, hbetween⟩

/-! ## Open names -/

/-- `Leaves ws pending`: the list opens the constructs `pending`, innermost first, and closes all
others. -/
inductive Leaves : List String → List Pair → Prop
  | nested {ws : List String} (h : WellNested ws) : Leaves ws []
  | opener {ws vs : List String} {pair : Pair} {pending : List Pair} (h : Leaves ws pending)
    (hpair : pair ∈ tagPairs) (hvs : WellNested vs) :
    Leaves (ws ++ pair.opener :: vs) (pair :: pending)

namespace Leaves

variable {ws vs : List String} {pair : Pair} {pending : List Pair}

theorem append (h : Leaves ws pending) (hvs : WellNested vs) : Leaves (ws ++ vs) pending := by
  cases h with
  | nested hws => exact .nested (hws.append hvs)
  | opener hleaves hpair hus =>
    rw [List.append_assoc, List.cons_append]
    exact .opener hleaves hpair (hus.append hvs)

/-- The name that closes the innermost construct closes it. -/
theorem append_closer (h : Leaves ws (pair :: pending)) : Leaves (ws ++ [pair.closer]) pending := by
  cases h with
  | opener hleaves hpair hus =>
    rw [List.append_assoc, List.cons_append]
    exact hleaves.append (.pair hpair hus .nil)

theorem completable (h : Leaves ws pending) : Completable ws := by
  induction pending generalizing ws with
  | nil =>
    cases h with
    | nested hws => exact ⟨[], by rwa [List.append_nil]⟩
  | cons pair pending ih =>
    obtain ⟨vs, hvs⟩ := ih h.append_closer
    exact ⟨pair.closer :: vs, by simpa using hvs⟩

/-- The stack of the check holds what the list leaves open. -/
theorem tagFault?_append (h : Leaves ws pending) (names : List String) :
    tagFault? [] (ws ++ names) = tagFault? pending names := by
  induction h generalizing names with
  | nested hws => exact hws.tagFault?_append [] names
  | opener _ hpair hvs ih =>
    rw [List.append_assoc, ih, List.cons_append, tagFault?_opener hpair, hvs.tagFault?_append]

theorem tagFault?_eq (h : Leaves ws pending) :
    tagFault? [] ws =
      if pending.isEmpty then none else some (.unclosed (pending.reverse.map Pair.opener)) := by
  rw [← List.append_nil ws, h.tagFault?_append]
  rfl

end Leaves

section OpenAt

variable {ws vs : List String} {pair top : Pair}

/-- Behind an opening name that a well nested list does not close, the names in front of it that are
open stay so, and it is the only one that is open besides. -/
theorem openAt_append_opener_iff (htop : top ∈ tagPairs) (hvs : WellNested vs) {i : Nat} :
    OpenAt (ws ++ top.opener :: vs) i pair ↔
      OpenAt ws i pair ∨ i = ws.length ∧ pair = top := by
  constructor
  · rintro ⟨hpair, us, ms, hws, hlength, hopen⟩
    rcases append_cons_cases hws with ⟨ns, rfl, hvs'⟩ | ⟨rfl, hword, -⟩ | ⟨ns, rfl, hms⟩
    · exact absurd ⟨hpair, ns, ms, hvs', rfl, hopen⟩ (hvs.not_openAt _ pair)
    · exact Or.inr ⟨hlength.symm, eq_of_opener_eq pair hpair top htop hword.symm⟩
    · refine Or.inl ⟨hpair, us, ns, rfl, hlength, fun between rest hns => ?_⟩
      exact hopen between (rest ++ top.opener :: vs) (by simp [hms, hns])
  · rintro (⟨hpair, us, ms, rfl, hlength, hopen⟩ | ⟨rfl, rfl⟩)
    · refine ⟨hpair, us, ms ++ top.opener :: vs, by simp, hlength, ?_⟩
      intro between rest hbetween hnested
      rcases append_cons_cases hbetween.symm with ⟨ns, hms, -⟩ | ⟨-, hword, -⟩ | ⟨ns, rfl, hvs'⟩
      · exact hopen between ns hms hnested
      · exact closer_ne_opener pair hpair top htop hword
      -- The name behind which nothing is closed would stand inside of a well nested row.
      · refine hnested.not_openAt ms.length top ⟨htop, ms, ns, rfl, rfl, ?_⟩
        rintro inner after rfl hinner
        have hbehind : WellNested (inner ++ top.closer :: (after ++ pair.closer :: rest)) := by
          simpa [hvs'] using hvs
        exact hinner.not_append_closer htop _ hbehind
    · refine ⟨htop, ws, vs, rfl, rfl, ?_⟩
      rintro between rest rfl hbetween
      exact hbetween.not_append_closer htop rest hvs

theorem OpenAt.lt_length {i : Nat} (h : OpenAt ws i pair) : i < ws.length := by
  obtain ⟨-, us, ms, rfl, rfl, -⟩ := h
  simp

end OpenAt

/-- The names that a list leaves open are those of the constructs, in order. -/
theorem Leaves.exists_places {ws : List String} {pending : List Pair} (h : Leaves ws pending) :
    ∃ places : List (Nat × Pair), places.Pairwise (·.1 < ·.1) ∧
      (∀ i pair, (i, pair) ∈ places ↔ OpenAt ws i pair) ∧
      places.map Prod.snd = pending.reverse := by
  induction h with
  | nested hws =>
    refine ⟨[], .nil, fun i pair => ⟨fun h => ?_, fun h => absurd h (hws.not_openAt i pair)⟩, rfl⟩
    cases h
  | @opener ws vs top pending h htop hvs ih =>
    obtain ⟨places, hsorted, hplaces, hpending⟩ := ih
    refine ⟨places ++ [(ws.length, top)], ?_, fun i pair => ?_, by simp [hpending]⟩
    · refine List.pairwise_append.mpr ⟨hsorted, List.pairwise_singleton _ _, ?_⟩
      rintro ⟨i, pair⟩ hplace _ hlast
      rw [List.mem_singleton.mp hlast]
      exact ((hplaces i pair).mp hplace).lt_length
    · rw [openAt_append_opener_iff htop hvs, List.mem_append, hplaces, List.mem_singleton,
        Prod.mk.injEq]

/-- The innermost construct that a list leaves open is the last of its open names. -/
theorem Leaves.exists_innermost {ws : List String} {top : Pair} {pending : List Pair}
    (h : Leaves ws (top :: pending)) :
    ∃ i, OpenAt ws i top ∧ ∀ j pair, OpenAt ws j pair → j ≤ i := by
  cases h with
  | @opener ws vs _ _ h htop hvs =>
    refine ⟨ws.length, (openAt_append_opener_iff htop hvs).mpr (Or.inr ⟨rfl, rfl⟩), ?_⟩
    intro j pair hopen
    rcases (openAt_append_opener_iff htop hvs).mp hopen with hopen | ⟨rfl, -⟩
    · exact Nat.le_of_lt hopen.lt_length
    · exact Nat.le_refl _

/-! ## The verdict -/

/-- `Stuck us pair pending`: the list leaves `pending` open, and the name that closes `pair` does
not close the innermost of them. -/
structure Stuck (us : List String) (pair : Pair) (pending : List Pair) : Prop where
  mem : pair ∈ tagPairs
  leaves : Leaves us pending
  closer_ne : ∀ top ∈ pending.head?, top.closer ≠ pair.closer

/-- A list of opening and closing names leaves some of them open, or it gets stuck. -/
theorem exists_leaves {ws : List String} (hws : ∀ w ∈ ws, w ∈ pairWords) :
    (∃ pending, Leaves ws pending) ∨
      ∃ us pair vs pending, ws = us ++ pair.closer :: vs ∧ Stuck us pair pending := by
  -- The induction takes names off the end, as `Leaves` grows there.
  induction ws using List.reverseRecOn with
  | nil => exact Or.inl ⟨[], .nested .nil⟩
  | append_singleton ws w ih =>
    obtain ⟨hfront, hw⟩ := List.forall_mem_append.mp hws
    rcases ih hfront with ⟨pending, h⟩ | ⟨us, pair, vs, pending, rfl, hstuck⟩
    · obtain ⟨pair, hpair, rfl | rfl⟩ := mem_pairWords.mp (hw w List.mem_cons_self)
      · exact Or.inl ⟨pair :: pending, .opener h hpair .nil⟩
      · by_cases hne : ∀ top ∈ pending.head?, top.closer ≠ pair.closer
        · exact Or.inr ⟨ws, pair, [], pending, rfl, hpair, h, hne⟩
        · simp only [not_forall, not_not] at hne
          obtain ⟨top, htop, hclose⟩ := hne
          obtain ⟨pending, rfl⟩ := List.head?_eq_some_iff.mp htop
          exact Or.inl ⟨pending, hclose ▸ h.append_closer⟩
    · exact Or.inr ⟨us, pair, vs ++ [w], pending, List.append_assoc .., hstuck⟩

namespace Leaves

variable {ws : List String} {pending : List Pair}

theorem eq_nil_iff (h : Leaves ws pending) : pending = [] ↔ WellNested ws := by
  constructor
  · rintro rfl
    cases h with
    | nested hws => exact hws
  · intro hws
    have hfault := h.tagFault?_eq
    rw [hws.tagFault?_eq_none] at hfault
    by_contra hne
    rw [if_neg (by simpa using hne)] at hfault
    cases hfault

/-- `tagFault?` reports the open names, outermost first. -/
theorem exists_unclosed (h : Leaves ws pending) (hws : ¬ WellNested ws) :
    ∃ places : List (Nat × Pair), places.Pairwise (·.1 < ·.1) ∧
      (∀ i pair, (i, pair) ∈ places ↔ OpenAt ws i pair) ∧
      tagFault? [] ws = some (.unclosed (places.map (·.2.opener))) := by
  obtain ⟨places, hsorted, hplaces, hpending⟩ := h.exists_places
  have hne : ¬ pending.isEmpty := by simpa using mt h.eq_nil_iff.mp hws
  refine ⟨places, hsorted, hplaces, ?_⟩
  rw [h.tagFault?_eq, if_neg hne, ← hpending, List.map_map]
  rfl

end Leaves

namespace Stuck

variable {us : List String} {pair : Pair} {pending : List Pair}

/-- The check reports the name, and the innermost open construct if there is one. -/
theorem tagFault?_eq (h : Stuck us pair pending) (vs : List String) :
    (∀ i top, ¬ OpenAt us i top) ∧
        tagFault? [] (us ++ pair.closer :: vs) = some (.unexpectedCloser pair.closer) ∨
      ∃ i top, OpenAt us i top ∧ (∀ j top', OpenAt us j top' → j ≤ i) ∧
        tagFault? [] (us ++ pair.closer :: vs) = some (.mismatchedCloser top pair.closer) := by
  obtain ⟨hpair, hus, hne⟩ := h
  rw [hus.tagFault?_append]
  cases pending with
  | nil => exact Or.inl ⟨(hus.eq_nil_iff.mp rfl).not_openAt, tagFault?_closer_nil hpair⟩
  | cons top pending =>
    obtain ⟨i, hopen, hlast⟩ := hus.exists_innermost
    exact Or.inr ⟨i, top, hopen, hlast, tagFault?_closer_ne hpair (hne top rfl)⟩

theorem tagFault?_ne_none (h : Stuck us pair pending) (vs : List String) :
    tagFault? [] (us ++ pair.closer :: vs) ≠ none := by
  intro hnone
  rcases h.tagFault?_eq vs with ⟨-, hfault⟩ | ⟨i, top, -, -, hfault⟩
  · rw [hfault] at hnone
    cases hnone
  · rw [hfault] at hnone
    cases hnone

/-- No names behind the list complete it. -/
theorem not_completable (h : Stuck us pair pending) (vs : List String) :
    ¬ Completable (us ++ pair.closer :: vs) := by
  rintro ⟨zs, hzs⟩
  have hnone := hzs.tagFault?_eq_none
  rw [List.append_assoc, List.cons_append] at hnone
  exact h.tagFault?_ne_none (vs ++ zs) hnone

end Stuck

/-- `tagFaults` finds nothing if and only if the names of the tags are `WellNested`. If they are
not, but are `Completable`, it reports the names that are `OpenAt` some place, outermost first.
Otherwise it reports the first name with which they are not `Completable` any more, together with
the innermost name that is open in front of it, if there is one. -/
theorem tagFaults_verdict (file : String) (text : List Char) :
    (tagFaults file text = [] ↔ WellNested (nestingWords text)) ∧
      (¬ WellNested (nestingWords text) → Completable (nestingWords text) →
        ∃ places : List (Nat × Pair), places.Pairwise (·.1 < ·.1) ∧
          (∀ i pair, (i, pair) ∈ places ↔ OpenAt (nestingWords text) i pair) ∧
          tagFaults file text = [⟨file, 1, .unclosed (places.map (·.2.opener)), none⟩]) ∧
      (¬ Completable (nestingWords text) →
        ∃ us tag vs, nestingWords text = us ++ tag :: vs ∧ Completable us ∧
          ¬ Completable (us ++ [tag]) ∧
          ((∀ i pair, ¬ OpenAt us i pair) ∧
              tagFaults file text = [⟨file, 1, .unexpectedCloser tag, none⟩] ∨
            ∃ i pair, OpenAt us i pair ∧ (∀ j pair', OpenAt us j pair' → j ≤ i) ∧
              tagFaults file text = [⟨file, 1, .mismatchedCloser pair tag, none⟩])) := by
  have hwords : ∀ w ∈ nestingWords text, w ∈ pairWords := fun w hw => by
    simpa using (List.mem_filter.mp hw).2
  have hfaults : tagFaults file text = (tagFault? [] (nestingWords text)).toList.map
      fun finding => ⟨file, 1, finding, none⟩ := by
    rw [tagFaults, nestingWords, tagFault?_filter]
  generalize nestingWords text = ws at hwords hfaults
  have hnil : tagFaults file text = [] ↔ tagFault? [] ws = none := by
    rw [hfaults, List.map_eq_nil_iff, Option.toList_eq_nil_iff]
  have hone {finding : Finding} (h : tagFault? [] ws = some finding) :
      tagFaults file text = [⟨file, 1, finding, none⟩] := by
    rw [hfaults, h]
    rfl
  rcases exists_leaves hwords with ⟨pending, h⟩ | ⟨us, pair, vs, pending, rfl, hstuck⟩
  · refine ⟨?_, fun hws _ => ?_, fun hws => absurd h.completable hws⟩
    · rw [hnil, ← h.eq_nil_iff, h.tagFault?_eq]
      cases pending <;> simp
    · obtain ⟨places, hsorted, hplaces, hfault⟩ := h.exists_unclosed hws
      exact ⟨places, hsorted, hplaces, hone hfault⟩
  · have hnot := hstuck.not_completable vs
    refine ⟨?_, fun _ hws => absurd hws hnot, fun _ => ?_⟩
    · have hws : ¬ WellNested (us ++ pair.closer :: vs) := fun h =>
        hnot ⟨[], by rwa [List.append_nil]⟩
      rw [hnil]
      exact iff_of_false (hstuck.tagFault?_ne_none vs) hws
    · refine ⟨us, pair.closer, vs, rfl, hstuck.leaves.completable, hstuck.not_completable [], ?_⟩
      rcases hstuck.tagFault?_eq vs with ⟨hopen, hfault⟩ | ⟨i, top, hopen, hlast, hfault⟩
      · exact Or.inl ⟨hopen, hone hfault⟩
      · exact Or.inr ⟨i, top, hopen, hlast, hone hfault⟩

end Templates
