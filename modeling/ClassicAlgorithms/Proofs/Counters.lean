import ClassicAlgorithms.Counters
import ClassicAlgorithms.Proofs.DisjointSet.Merging
import ClassicAlgorithms.Proofs.Graph.SpanningForest

/-!
# Counters and results

The counters go up in the middle of the work. On a graph they say afterwards what can also be
read off the results: how many edges are of each kind, and how many components have gone. An
input that is refused leaves them all untouched.
-/
namespace ClassicAlgorithms

/-- Enough turns tally what the turns of a run record. -/
theorem Search.Turns.tally_eq {g : Digraph} {s t : Search} {turns : List Search.Turn}
    (h : Search.Turns g s turns t) (hdone : t.stack = []) {limit : ℕ}
    (hlimit : turns.length ≤ limit) (made : Array (ℕ × EdgeKind)) :
    (Search.tally g limit s made).toList =
      made.toList ++ turns.flatMap Search.Turn.recorded := by
  induction h generalizing limit made with
  | nil => cases limit <;> simp [Search.tally, hdone]
  | @cons s s' t turns hstack hstep _ ih =>
    obtain ⟨limit, rfl⟩ : ∃ k, limit = k + 1 := ⟨limit - 1, by simp at hlimit; omega⟩
    have hrecorded : (s'.decisions.extract s.decisions.size).toList =
        Search.Turn.recorded ⟨s, s'⟩ := by
      simp [Search.Turn.recorded]
    rw [Search.tally, if_neg (by simpa using hstack), hstep]
    simp only [ih hdone (Nat.le_of_succ_le_succ hlimit), Array.toList_append, hrecorded,
      List.flatMap_cons, List.append_assoc]

/-- As long as no merge is a fault, all of them are made. -/
theorem DisjointSet.mergesMade_of_uniteAll {d d' : DisjointSet} {edges : List Edge}
    {flags : List Bool} (h : d.uniteAll edges = .ok (d', flags)) : d.mergesMade edges = flags := by
  induction edges generalizing d flags with
  | nil =>
    cases h
    rfl
  | cons e edges ih =>
    obtain ⟨next, merged, later, hunion, hrest, rfl⟩ := uniteAll_cons_eq_ok_iff.mp h
    rw [mergesMade, hunion]
    simp only [ih hrest]

/-- Each edge has one classification, so there are as many of a kind as edges of that kind. -/
theorem Progress.Complete.countP_made {n m : ℕ} {p : Progress} (h : p.Complete n m)
    (k : EdgeKind) : p.made.countP (fun d => d.2 = k) = (p.traversal n m).count k := by
  have hsize : (p.traversal n m).kinds.size = m := h.length_kinds
  have hkind : ∀ d ∈ p.made, (d.2 = k ↔ (p.traversal n m).kind? d.1 = some k) := by
    intro d hd
    rw [(h.kind?_traversal d.1 d.2).mpr hd, Option.some.injEq]
  calc
    p.made.countP (fun d => d.2 = k)
    _ = p.made.countP (fun d => (p.traversal n m).kind? d.1 == some k) := by
      apply List.countP_congr
      intro d hd
      simpa using hkind d hd
    _ = (p.made.map Prod.fst).countP (fun i => (p.traversal n m).kind? i == some k) := by
      rw [List.countP_map]
      rfl
    _ = (List.range m).countP (fun i => (p.traversal n m).kind? i == some k) :=
      h.made_perm.countP_eq _
    _ = (p.traversal n m).count k := by
      rw [Traversal.count_eq_length_filter, hsize, List.countP_eq_length_filter]

/-- Everything in a list of kinds is of one of the kinds. -/
theorem sum_count_kinds (kinds : List EdgeKind) :
    (EdgeKind.all.map fun k => kinds.count k).sum = kinds.length := by
  induction kinds with
  | nil => rfl
  | cons k rest ih =>
    simp only [EdgeKind.all, List.map_cons, List.map_nil, List.sum_cons, List.sum_nil,
      List.length_cons] at ih ⊢
    cases k <;> simp <;> omega

namespace Counters

variable {nodeCount : ℕ} {edges : List Edge} {g : Digraph} {t : Traversal} {d : DisjointSet}

/-- The name under which the classifications of a kind are counted. -/
def kindName (kind : EdgeKind) : String := s!"dfs_edges_classified,kind={kind.name}"

/-- The name under which the merges are counted. -/
def unionName : String := "disjoint_set_unions"

/-- What the table shows of a count: a counter that was never touched is absent. -/
def shown (count : ℕ) : Option ℕ := if count = 0 then none else some count

/-- Leaving out the counters that are zero leaves the others where they were. -/
theorem lookup_filter_ne_zero {table : List (String × ℕ)} (h : (table.map Prod.fst).Nodup)
    (name : String) :
    (table.filter fun entry => entry.2 ≠ 0).lookup name = (table.lookup name).bind shown := by
  induction table with
  | nil => rfl
  | cons entry rest ih =>
    obtain ⟨other, n⟩ := entry
    obtain ⟨hnew, hrest⟩ := List.nodup_cons.mp h
    have ih := ih hrest
    by_cases hname : name = other
    · subst hname
      have hnone : rest.lookup name = none := List.lookup_eq_none_iff.mpr fun p hp => by
        rw [bne_iff_ne]
        intro heq
        exact hnew (List.mem_map.mpr ⟨p, hp, heq.symm⟩)
      rw [List.lookup_cons_self, Option.bind_some, List.filter_cons]
      by_cases hn : n = 0
      · rw [if_neg (by simpa using hn), ih, hnone, shown, if_pos hn]
        rfl
      · rw [if_pos (by simpa using hn), List.lookup_cons_self, shown, if_neg hn]
    · have hskip (table : List (String × ℕ)) :
          ((other, n) :: table).lookup name = table.lookup name := by
        rw [List.lookup_cons, beq_eq_false_iff_ne.mpr hname]
      rw [hskip, ← ih, List.filter_cons]
      split_ifs
      · exact hskip _
      · rfl

/-- All counters, the untouched ones included. -/
def table (c : Counters) : List (String × ℕ) :=
  EdgeKind.all.map (fun kind => (kindName kind, c.classified kind)) ++ [(unionName, c.unions)]

theorem touched_eq (c : Counters) : c.touched = c.table.filter fun entry => entry.2 ≠ 0 := rfl

theorem nodup_table (c : Counters) : (c.table.map Prod.fst).Nodup := by
  change [kindName .tree, kindName .forward, kindName .back, kindName .cross, unionName].Nodup
  decide

/-- The table of touched counters shows the classifications of each kind. -/
theorem lookup_kindName (c : Counters) (kind : EdgeKind) :
    c.touched.lookup (kindName kind) = shown (c.classified kind) := by
  rw [touched_eq, lookup_filter_ne_zero c.nodup_table]
  cases kind <;> rfl

/-- And it shows the merges. -/
theorem lookup_unionName (c : Counters) : c.touched.lookup unionName = shown c.unions := by
  rw [touched_eq, lookup_filter_ne_zero c.nodup_table]
  rfl

/-- The counters say of an input what the results say of it, a counter of nothing being absent. -/
structure Tells (c : Counters) (nodeCount edgeCount : ℕ) (t : Traversal) (d : DisjointSet) :
    Prop where
  classified_eq : ∀ kind, c.classified kind = t.count kind
  classified_shown : ∀ kind, c.touched.lookup (kindName kind) = shown (t.count kind)
  sum_classified : (EdgeKind.all.map c.classified).sum = edgeCount
  components_le : d.components ≤ nodeCount
  unions_eq : c.unions = nodeCount - d.components
  unions_shown : c.touched.lookup unionName = shown (nodeCount - d.components)

/-- An input that is refused: without nodes, with an endpoint out of range, or with more nodes
than can be stored for a search or for a partition. -/
def Refused [Memory] (nodeCount : ℕ) (edges : List Edge) : Prop :=
  nodeCount = 0 ∨ (∃ e ∈ edges, nodeCount ≤ e.tail ∨ nodeCount ≤ e.head) ∨
    (Digraph.build nodeCount [] = .error (.tooManyNodes nodeCount) ∧
      DisjointSet.tryCreate nodeCount = .error (.tooManyNodes nodeCount))

/-- The search of a graph tallies the classifications that make its traversal. -/
theorem countP_decisions [Memory] {F : Forest} (hF : Spans g F) (hg : g.Sound)
    (h : Digraph.build nodeCount edges = .ok g) (kind : EdgeKind) :
    (decisions nodeCount edges).countP (fun d => d.2 = kind) =
      (Spans.traversal g F).count kind := by
  obtain ⟨turns, hturns⟩ := hF.exists_turns hg
  have htally := hturns.tally_eq rfl (hF.length_le_turnLimit hg hturns) #[]
  have hmade := Spans.recordedIn_eq hturns
  rw [Search.recordedIn] at hmade
  rw [hmade, List.nil_append] at htally
  rw [decisions, h, ← Array.countP_toList]
  simp only [htally]
  exact (hF.complete_play hg byNumber).countP_made kind

theorem merges_of_uniteAll [Memory] {flags : List Bool}
    (hin : ∀ e ∈ edges, e.tail < nodeCount ∧ e.head < nodeCount)
    (hlinks : Memory.Grants nodeCount DisjointSet.linkWidth)
    (hall : (DisjointSet.discrete nodeCount).uniteAll edges = .ok (d, flags)) :
    merges nodeCount edges = flags := by
  rw [merges, DisjointSet.invalidEndpoint?_eq_none.mpr hin, DisjointSet.tryCreate, if_pos hlinks]
  exact DisjointSet.mergesMade_of_uniteAll hall

/-- On a graph, both results are there, and the counters tell them. -/
theorem exists_tells [Memory] (h : Digraph.build nodeCount edges = .ok g) :
    ∃ t d, classify g = .ok t ∧ DisjointSet.ofEdges nodeCount edges = .ok d ∧
      (ofInput nodeCount edges).Tells nodeCount edges.length t d := by
  obtain ⟨F, hF, hg, hcount, hedges, hclassify⟩ := exists_spans_of_build h
  obtain ⟨-, hrows, hin⟩ := Digraph.exists_build_iff.mp ⟨g, h⟩
  have hlinks := DisjointSet.grants_linkWidth hrows
  obtain ⟨d, flags, hall, -⟩ := DisjointSet.exists_partitions_uniteAll hin
  have hd : DisjointSet.ofEdges nodeCount edges = .ok d :=
    map_eq_ok_iff.mpr ⟨(d, flags), DisjointSet.buildCounted_eq_ok_iff.mpr ⟨hin, hlinks, hall⟩, rfl⟩
  have hclassified : ∀ kind,
      (ofInput nodeCount edges).classified kind = (Spans.traversal g F).count kind :=
    countP_decisions hF hg h
  have hunions : (ofInput nodeCount edges).unions = flags.count true := by
    rw [← merges_of_uniteAll hin hlinks hall]
    rfl
  have hadd := DisjointSet.components_add_count hin hall
  have hdifference : (ofInput nodeCount edges).unions = nodeCount - d.components := by omega
  refine ⟨_, d, hclassify, hd, ?_⟩
  constructor
  · exact hclassified
  · intro kind
    rw [lookup_kindName, hclassified]
  · have hsize : (Spans.traversal g F).kinds.size = edges.length := by
      rw [← hedges, Array.length_toList]
      exact (hF.complete_play hg byNumber).length_kinds
    rw [← hsize, ← Array.length_toList, ← sum_count_kinds, funext hclassified]
    simp only [Array.count_toList]
    rfl
  · omega
  · exact hdifference
  · rw [lookup_unionName, hdifference]

/-- Where no classification and no merge was made, no counter is touched. -/
theorem touched_eq_nil [Memory] (hdecisions : decisions nodeCount edges = #[])
    (hmerges : (merges nodeCount edges).count true = 0) :
    (ofInput nodeCount edges).touched = [] := by
  rw [touched_eq, List.filter_eq_nil_iff]
  intro entry hentry
  have hzero : entry.2 = 0 := by
    rcases List.mem_append.mp hentry with hkind | hunion
    · obtain ⟨kind, -, rfl⟩ := List.mem_map.mp hkind
      simp [ofInput, hdecisions]
    · rw [List.mem_singleton.mp hunion]
      exact hmerges
  simpa using hzero

/-- A graph is refused before anything is classified. -/
theorem Refused.decisions_eq [Memory] (h : Refused nodeCount edges) :
    decisions nodeCount edges = #[] := by
  have hrefused : ¬ ∃ g, Digraph.build nodeCount edges = .ok g := by
    rw [Digraph.exists_build_iff]
    rintro ⟨hpos, hrows, hin⟩
    rcases h with hzero | ⟨e, he, hout⟩ | ⟨hmany, -⟩
    · omega
    · have := hin e he
      omega
    · obtain ⟨g, hg⟩ := Digraph.exists_build_iff.mpr ⟨hpos, hrows, List.forall_mem_nil _⟩
      cases hg.symm.trans hmany
  rw [decisions]
  cases hbuild : Digraph.build nodeCount edges with
  | error e => rfl
  | ok g => exact absurd ⟨g, hbuild⟩ hrefused

/-- A partition is refused before anything is merged, or it has no elements to merge. -/
theorem Refused.count_merges [Memory] (h : Refused nodeCount edges) :
    (merges nodeCount edges).count true = 0 := by
  rw [merges]
  split
  · next d hin hcreate =>
    rw [DisjointSet.invalidEndpoint?_eq_none] at hin
    rcases h with rfl | ⟨e, he, hout⟩ | ⟨-, hmany⟩
    · cases edges with
      | nil => rfl
      | cons e rest =>
        have := hin e List.mem_cons_self
        omega
    · have := hin e he
      omega
    · cases hcreate.symm.trans hmany
  · rfl

/-- What the counters say of an input: on a graph they tell the results, and on an input that is
refused none of them is touched. -/
theorem tells_and_touched_eq_nil [Memory] (nodeCount : ℕ) (edges : List Edge) :
    (∀ g, Digraph.build nodeCount edges = .ok g → ∃ t d, classify g = .ok t ∧
      DisjointSet.ofEdges nodeCount edges = .ok d ∧
      (ofInput nodeCount edges).Tells nodeCount edges.length t d) ∧
    (Refused nodeCount edges → (ofInput nodeCount edges).touched = []) := by
  constructor
  · exact fun g h => exists_tells h
  · exact fun h => touched_eq_nil h.decisions_eq h.count_merges

/-- A graph with edges of every kind, and a list of edges of which only the last is out of range. -/
theorem tells_tangle_and_touched_eq_nil_bad_head :
    (Digraph.build 5 [⟨0, 2⟩, ⟨2, 1⟩, ⟨1, 0⟩, ⟨0, 1⟩, ⟨2, 2⟩, ⟨0, 2⟩, ⟨3, 1⟩] = .ok .tangle ∧
      ∃ t d, classify .tangle = .ok t ∧
        DisjointSet.ofEdges 5 [⟨0, 2⟩, ⟨2, 1⟩, ⟨1, 0⟩, ⟨0, 1⟩, ⟨2, 2⟩, ⟨0, 2⟩, ⟨3, 1⟩] = .ok d ∧
        (ofInput 5 [⟨0, 2⟩, ⟨2, 1⟩, ⟨1, 0⟩, ⟨0, 1⟩, ⟨2, 2⟩, ⟨0, 2⟩, ⟨3, 1⟩]).Tells 5 7 t d) ∧
      Refused 3 [⟨0, 1⟩, ⟨1, 7⟩] ∧ (ofInput 3 [⟨0, 1⟩, ⟨1, 7⟩]).touched = [] := by
  have hrefused : Refused 3 [⟨0, 1⟩, ⟨1, 7⟩] := .inr (.inl ⟨⟨1, 7⟩, by decide, by decide⟩)
  exact ⟨⟨Digraph.build_tangle, (tells_and_touched_eq_nil _ _).1 _ Digraph.build_tangle⟩,
    hrefused, (tells_and_touched_eq_nil _ _).2 hrefused⟩

end Counters

end ClassicAlgorithms
