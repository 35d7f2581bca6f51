import Templates.Proofs.CanonicalText
import Templates.Proofs.Outline
import Templates.Proofs.TextLines

/-!
# The lines of a canonical text

Every row of `bodyRows` has a text without a line feed or a carriage return (`RowsFill`), string
literals included, since `StringLiteral.quote` escapes both. So `textLines` of a canonical text
gives its rows with their indentation: none of them is empty, each is closed by a line feed alone,
and the text is nothing but its lines (`lines_of_canonical`).
-/

namespace Templates

/-! ## Texts that stay on one line -/

/-- The text holds no character of a line's end. -/
def OneLine (text : String) : Prop := '\n' ∉ text.toList ∧ '\r' ∉ text.toList

instance (text : String) : Decidable (OneLine text) := inferInstanceAs (Decidable (_ ∧ _))

theorem OneLine.append {a b : String} (ha : OneLine a) (hb : OneLine b) : OneLine (a ++ b) := by
  unfold OneLine
  rw [String.toList_append, List.mem_append, List.mem_append, not_or, not_or]
  exact ⟨⟨ha.1, hb.1⟩, ha.2, hb.2⟩

theorem oneLine_of_forall {text : String} (p : Char → Bool) (hfeed : p '\n' = false)
    (hreturn : p '\r' = false) (h : ∀ c ∈ text.toList, p c = true) : OneLine text := by
  constructor
  · intro hmem
    rw [h _ hmem] at hfeed
    cases hfeed
  · intro hmem
    rw [h _ hmem] at hreturn
    cases hreturn

theorem FitsRow.oneLine {text : String} (h : FitsRow text) : OneLine text :=
  ⟨h.plain '\n' (by decide), h.plain '\r' (by decide)⟩

/-! ## Rows -/

/-- The text is not empty and `OneLine`. -/
structure FillsLine (text : String) : Prop where
  ne_empty : text ≠ ""
  oneLine : OneLine text

/-- Every row of the list fills its line. -/
def RowsFill (rows : List Row) : Prop := ∀ r ∈ rows, FillsLine r.text

theorem rowsFill_bodyRows (style : Style) (body : List Stmt) (depth : Nat) (afterBare : Bool)
    (h : BodySpellable body) : RowsFill (bodyRows style depth afterBare body) := by
  rw [bodyRows_eq_marks]
  refine List.forall_mem_map.mpr fun p hp => ?_
  have hnamed : p.mark.Named := named_bodyMarks body afterBare h.named p hp
  have hfits : FitsRow p.mark.text := Mark.fitsRow_text hnamed
  exact ⟨hfits.ne_empty, hfits.oneLine⟩

/-! ## Lines -/

/-- `Row.line` adds the indentation and a line feed to a text that `FillsLine`. -/
theorem Row.exists_line {r : Row} (h : FillsLine r.text) (style : Style) :
    ∃ line, FillsLine line ∧ r.line style = line ++ "\n" := by
  refine ⟨String.ofList (List.replicate (r.depth * style.indentWidth) ' ') ++ r.text, ?_, ?_⟩
  · refine ⟨fun hempty => h.ne_empty (String.append_eq_empty_iff.mp hempty).2, ?_⟩
    refine OneLine.append ?_ h.oneLine
    refine oneLine_of_forall (· = ' ') (by decide) (by decide) fun c hc => ?_
    rw [String.toList_ofList] at hc
    exact decide_eq_true (List.eq_of_mem_replicate hc)
  · exact r.line_of_ne_empty style h.ne_empty

theorem RowsFill.exists_lines {rows : List Row} (h : RowsFill rows) (style : Style) :
    ∃ lines : List String, (∀ line ∈ lines, FillsLine line) ∧
      rows.map (Row.line style) = lines.map (· ++ "\n") := by
  induction rows with
  | nil => exact ⟨[], List.forall_mem_nil _, rfl⟩
  | cons r rows ih =>
    obtain ⟨hr, hrows⟩ := List.forall_mem_cons.mp h
    obtain ⟨lines, hlines, hmap⟩ := ih hrows
    obtain ⟨line, hline, heq⟩ := Row.exists_line hr style
    refine ⟨line :: lines, List.forall_mem_cons.mpr ⟨hline, hlines⟩, ?_⟩
    rw [List.map_cons, List.map_cons, hmap, heq]

/-- `textLines` gives back lines that are `OneLine` and closed by a line feed each. -/
theorem textLines_join {lines : List String} (h : ∀ line ∈ lines, OneLine line) :
    textLines (String.join (lines.map (· ++ "\n"))) = lines := by
  have htext : (String.join (lines.map (· ++ "\n"))).toList =
      (lines.map String.toList).flatMap (· ++ ['\n']) := by
    simp [String.toList_join, List.flatMap_map]
  have hrows : ∀ row ∈ lines.map String.toList, '\n' ∉ row ∧ '\r' ∉ row := by
    intro row hrow
    obtain ⟨line, hline, rfl⟩ := List.mem_map.mp hrow
    exact h line hline
  rw [textLines, htext, charLines_flatMap_line hrows, List.map_map]
  simp [Function.comp_def]

/-- The `textLines` of a canonical text are not empty, and the text consists of them, each closed by
a line feed. -/
theorem lines_of_canonical {style : Style} {source text : String}
    (h : canonical style source = .ok text) :
    (∀ line ∈ textLines text, line ≠ "") ∧
      String.join ((textLines text).map (· ++ "\n")) = text := by
  by_cases herr : (parseSource source).errors = []
  · have hsource : parseSource source = ⟨(parseSource source).template, []⟩ := by rw [← herr]
    rw [canonical_eq_ok hsource style] at h
    obtain rfl := Except.ok.inj h
    have hrows : RowsFill (Template.rows style (parseSource source).template) :=
      rowsFill_bodyRows style _ 0 false (bodySpellable_parseSource source)
    obtain ⟨lines, hlines, hmap⟩ := hrows.exists_lines style
    rw [Template.text_eq_join, hmap, textLines_join fun line hline => (hlines line hline).oneLine]
    exact ⟨fun line hline => (hlines line hline).ne_empty, rfl⟩
  · rw [canonical_eq_error herr style] at h
    cases h

end Templates
