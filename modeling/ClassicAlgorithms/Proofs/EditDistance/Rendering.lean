import ClassicAlgorithms.Proofs.EditDistance.Walk

/-!
# What an aligned text shows

A gap is shown as a blank, and a text may have blanks of its own. Taking the blanks out of
an aligned text takes these out as well, and a gap that faces one of them cannot be seen
at all. So the two aligned texts speak for themselves when there are no blanks in the
texts that were aligned, and only then.
-/
namespace ClassicAlgorithms

/-- The text without the characters that a gap looks like. -/
def withoutGaps (text : String) : String := String.ofList (text.toList.filter fun c => c ≠ gap)

/-- At how many positions two texts have different characters. -/
def differences (first second : String) : ℕ :=
  (first.toList.zip second.toList).countP fun p => p.1 ≠ p.2

theorem withoutGaps_eq_self_iff {text : String} : withoutGaps text = text ↔ gap ∉ text.toList := by
  rw [withoutGaps, ← String.toList_inj, String.toList_ofList, List.filter_eq_self]
  simp only [decide_eq_true_eq, ne_eq]
  constructor
  · exact fun h hgap => h gap hgap rfl
  · rintro h c hc rfl
    exact h hc

/-- A gap and the character it faces look the same. -/
def Column.hidesGap (c : Column) : Bool := c = ⟨none, gap⟩ || c = ⟨gap, none⟩

/-- One side of an alignment with blanks for its gaps has the same other characters as the text
that it spells. -/
theorem filter_map_getD_gap (sides : List (Option Char)) :
    (sides.map fun side => side.getD gap).filter (fun c => c ≠ gap) =
      (sides.filterMap id).filter fun c => c ≠ gap := by
  induction sides with
  | nil => rfl
  | cons side rest ih =>
    cases side with
    | none => simpa using ih
    | some c => by_cases hc : c = gap <;> simpa [hc] using ih

/-- A column that is not a match shows two characters, unless it hides a gap. -/
theorem Column.shown_add_hidden {c : Column} (h : c ≠ ⟨none, none⟩) :
    (if c.source.getD gap ≠ c.target.getD gap then 1 else 0) + (if c.hidesGap then 1 else 0) =
      if c.operation = .keep then 0 else 1 := by
  obtain ⟨_ | x, _ | y⟩ := c
  · exact absurd rfl h
  · by_cases hy : y = gap
    · simp [hidesGap, operation, hy]
    · simp [hidesGap, operation, hy, Ne.symm hy]
  · by_cases hx : x = gap <;> simp [hidesGap, operation, hx]
  · by_cases hsame : x = y <;> simp [hidesGap, operation, hsame]

section
variable {columns : List Column} {a b : List Char}

theorem Spells.countP_shown_add_hidden (h : Spells columns a b) :
    columns.countP (fun c => c.source.getD gap ≠ c.target.getD gap) +
      columns.countP Column.hidesGap = mismatches columns := by
  obtain ⟨-, -, hgap⟩ := h
  induction columns with
  | nil => rfl
  | cons c rest ih =>
    obtain ⟨hc, hrest⟩ := List.forall_mem_cons.mp hgap
    have hcolumn := Column.shown_add_hidden hc
    have hrest := ih hrest
    rw [List.countP_cons, List.countP_cons, mismatches_cons]
    simp only [decide_eq_true_eq]
    omega

/-- A gap is hidden by a blank of the text that it faces. -/
theorem Spells.countP_hidesGap (h : Spells columns a b) (ha : gap ∉ a) (hb : gap ∉ b) :
    columns.countP Column.hidesGap = 0 := by
  obtain ⟨rfl, rfl, -⟩ := h
  rw [List.countP_eq_zero]
  intro c hc hhides
  simp only [Column.hidesGap, Bool.or_eq_true, decide_eq_true_eq] at hhides
  rcases hhides with rfl | rfl
  · exact hb (List.mem_filterMap.mpr ⟨_, hc, rfl⟩)
  · exact ha (List.mem_filterMap.mpr ⟨_, hc, rfl⟩)

end

theorem spells_align (source target : String) :
    Spells (align source target).columns source.toList target.toList :=
  Alignment.spells_walk _ le_rfl le_rfl (by simpa using Spells.nil)

theorem mismatches_align (source target : String) :
    mismatches (align source target).columns = (align source target).distance := by
  have hcost : mismatches (align source target).columns =
      prefixDistance source.toList target.toList source.toList.length target.toList.length +
        mismatches [] :=
    Alignment.mismatches_walk [] le_rfl le_rfl
  have hdistance : (align source target).distance =
      distanceBack source.toList.reverse target.toList.reverse := EditTable.distance_build _ _
  rw [hcost, hdistance, prefixDistance, List.take_length, List.take_length, mismatches_nil,
    Nat.add_zero]

namespace Alignment

/-- How many gaps of the alignment look like the character that they face. -/
def hiddenGaps (a : Alignment) : ℕ := a.columns.countP Column.hidesGap

/-- The two texts come back from the aligned ones, which differ as often as the distance says. -/
structure SelfCertifying (a : Alignment) (source target : String) : Prop where
  source_eq : withoutGaps a.alignedSource = source
  target_eq : withoutGaps a.alignedTarget = target
  differences_eq : differences a.alignedSource a.alignedTarget = a.distance

/-- What the aligned texts show in any case, and when that is everything. -/
structure Shows (a : Alignment) (source target : String) : Prop where
  source_rest : withoutGaps a.alignedSource = withoutGaps source
  target_rest : withoutGaps a.alignedTarget = withoutGaps target
  source_eq_iff : withoutGaps a.alignedSource = source ↔ gap ∉ source.toList
  target_eq_iff : withoutGaps a.alignedTarget = target ↔ gap ∉ target.toList
  length_eq : a.alignedSource.length = a.alignedTarget.length
  differences_add_hidden :
    differences a.alignedSource a.alignedTarget + a.hiddenGaps = a.distance
  selfCertifying_iff :
    a.SelfCertifying source target ↔ gap ∉ source.toList ∧ gap ∉ target.toList

variable {a : Alignment} {source target : String}

/-- The rendering of one side of the columns, which spells the text. -/
theorem withoutGaps_rendered {columns : List Column} {side : Column → Option Char}
    {text : String} (h : columns.filterMap side = text.toList) :
    withoutGaps (String.ofList (columns.map fun c => (side c).getD gap)) = withoutGaps text := by
  have hside := filter_map_getD_gap (columns.map side)
  rw [List.map_map, List.filterMap_map, Function.id_comp, h] at hside
  rw [withoutGaps, String.toList_ofList]
  exact congrArg String.ofList hside

theorem withoutGaps_alignedSource (h : Spells a.columns source.toList target.toList) :
    withoutGaps a.alignedSource = withoutGaps source :=
  withoutGaps_rendered h.source_eq

theorem withoutGaps_alignedTarget (h : Spells a.columns source.toList target.toList) :
    withoutGaps a.alignedTarget = withoutGaps target :=
  withoutGaps_rendered h.target_eq

theorem differences_aligned (a : Alignment) :
    differences a.alignedSource a.alignedTarget =
      a.columns.countP fun c => c.source.getD gap ≠ c.target.getD gap := by
  rw [differences, alignedSource, alignedTarget, String.toList_ofList, String.toList_ofList,
    List.zip_map', List.countP_map]
  rfl

/-- Deleting the blanks of an aligned text leaves the text without its own blanks, and the
distance is made up of the differences that are seen and the gaps that are not. So the aligned
texts certify the alignment exactly when there is no blank in either text. -/
theorem shows_align (source target : String) : (align source target).Shows source target := by
  have hspells := spells_align source target
  have hsource := withoutGaps_alignedSource hspells
  have htarget := withoutGaps_alignedTarget hspells
  have hsource_iff : withoutGaps (align source target).alignedSource = source ↔
      gap ∉ source.toList := by
    rw [hsource, withoutGaps_eq_self_iff]
  have htarget_iff : withoutGaps (align source target).alignedTarget = target ↔
      gap ∉ target.toList := by
    rw [htarget, withoutGaps_eq_self_iff]
  have hsum : differences (align source target).alignedSource (align source target).alignedTarget +
      (align source target).hiddenGaps = (align source target).distance := by
    rw [differences_aligned, hiddenGaps, hspells.countP_shown_add_hidden, mismatches_align]
  constructor
  · exact hsource
  · exact htarget
  · exact hsource_iff
  · exact htarget_iff
  · simp [alignedSource, alignedTarget]
  · exact hsum
  · constructor
    · intro h
      exact ⟨hsource_iff.mp h.source_eq, htarget_iff.mp h.target_eq⟩
    · rintro ⟨hs, ht⟩
      have hhidden := hspells.countP_hidesGap hs ht
      rw [hiddenGaps, hhidden, Nat.add_zero] at hsum
      exact ⟨hsource_iff.mpr hs, htarget_iff.mpr ht, hsum⟩

/-- The blank of the first text is lost together with the gaps. -/
theorem not_selfCertifying_inner_blank :
    ¬ (align "a b" "ab").SelfCertifying "a b" "ab" := by
  rintro ⟨hsource, -, -⟩
  rw [withoutGaps_alignedSource (spells_align _ _), withoutGaps_eq_self_iff] at hsource
  exact hsource (by decide)

end Alignment

end ClassicAlgorithms
