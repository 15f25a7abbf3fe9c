import ClassicAlgorithms.Proofs.Graph.Kinds

/-!
# Excerpts of a graph

A graph that keeps some nodes and edges of another one, under new names but in the old
order, is searched as the other one is: the forest of the excerpt is the forest of the
whole without the arcs that are left out. This needs only that no arc is left out that
found a node which is kept. The kinds of the kept edges are then what they were, because
they depend on the order of the nodes and on the arcs that found them.
-/
namespace ClassicAlgorithms

/-- New names for nodes and for the positions of edges. What has no new name is left out. -/
structure Renaming where
  node : ℕ → Option ℕ
  position : ℕ → Option ℕ

namespace Renaming

variable {r : Renaming} {a b : Arc} {i j v : ℕ} {e d : Edge}

/-- An edge goes with its endpoints. -/
def edge (r : Renaming) (e : Edge) : Option Edge := do
  return ⟨← r.node e.tail, ← r.node e.head⟩

def arc (r : Renaming) : Arc → Option Arc
  | .seed v => (r.node v).map .seed
  | .along i e => do return .along (← r.position i) (← r.edge e)

theorem edge_eq_some_iff :
    r.edge e = some d ↔ r.node e.tail = some d.tail ∧ r.node e.head = some d.head := by
  obtain ⟨tail, head⟩ := d
  simp only [edge, Option.bind_eq_bind, Option.pure_def, Option.bind_eq_some_iff,
    Option.some.injEq, Edge.mk.injEq]
  constructor
  · rintro ⟨_, ht, _, hh, rfl, rfl⟩
    exact ⟨ht, hh⟩
  · rintro ⟨ht, hh⟩
    exact ⟨_, ht, _, hh, rfl, rfl⟩

theorem arc_along_eq_some_iff :
    r.arc (.along i e) = some b ↔
      ∃ j d, r.position i = some j ∧ r.edge e = some d ∧ b = .along j d := by
  simp only [arc, Option.bind_eq_bind, Option.pure_def, Option.bind_eq_some_iff,
    Option.some.injEq]
  constructor
  · rintro ⟨j, hj, d, hd, rfl⟩
    exact ⟨j, d, hj, hd, rfl⟩
  · rintro ⟨j, d, hj, hd, rfl⟩
    exact ⟨j, hj, d, hd, rfl⟩

theorem arc_eq_along (hi : r.position i = some j) (he : r.edge e = some d) :
    r.arc (.along i e) = some (.along j d) :=
  arc_along_eq_some_iff.mpr ⟨j, d, hi, he, rfl⟩

/-- A kept arc leads to the new name of its head. -/
theorem node_head_of_arc (h : r.arc a = some b) : r.node a.head = some b.head := by
  cases a with
  | seed v =>
    obtain ⟨w, hw, rfl⟩ := Option.map_eq_some_iff.mp h
    exact hw
  | along i e =>
    obtain ⟨j, d, -, hd, rfl⟩ := arc_along_eq_some_iff.mp h
    exact (edge_eq_some_iff.mp hd).2

/-- Seeds are left out with their heads. -/
theorem bind_root?_arc (r : Renaming) (a : Arc) :
    (r.arc a).bind Arc.root? = a.root?.bind r.node := by
  cases a with
  | seed v => cases h : r.node v <;> simp [arc, h, Arc.root?]
  | along i e =>
    cases h : r.arc (.along i e) with
    | none => simp [Arc.root?]
    | some b =>
      obtain ⟨j, d, -, -, rfl⟩ := arc_along_eq_some_iff.mp h
      simp [Arc.root?]

end Renaming

/-- Both arcs are edges, and the first one is at the smaller position. -/
def Arc.Before (a b : Arc) : Prop :=
  ∃ i j, a.position? = some i ∧ b.position? = some j ∧ i < j

theorem Arc.Before.asymm {a b : Arc} (h : a.Before b) : ¬ b.Before a := by
  rintro ⟨i', j', hi', hj', hlt'⟩
  obtain ⟨i, j, hi, hj, hlt⟩ := h
  rw [hi, Option.some.injEq] at hj'
  rw [hj, Option.some.injEq] at hi'
  omega

theorem Digraph.pairwise_arcs (g : Digraph) (node : ℕ) : (g.arcs node).Pairwise Arc.Before :=
  List.pairwise_map.mpr ((leaving_pairwise _ node).imp fun hlt => ⟨_, _, rfl, rfl, hlt⟩)

/-- What `r` keeps of `g` makes up `g'`: nodes stay apart and keep their order, and so do the
edges out of one node. -/
structure Excerpt (r : Renaming) (g g' : Digraph) : Prop where
  node_inj : ∀ u v w, r.node u = some w → r.node v = some w → u = v
  nodes_eq : (List.range g.nodeCount).filterMap r.node = List.range g'.nodeCount
  edge_iff : ∀ j d, g'.edges[j]? = some d ↔
    ∃ i e, g.edges[i]? = some e ∧ r.position i = some j ∧ r.edge e = some d
  ordered : ∀ i i' e e', g.edges[i]? = some e → g.edges[i']? = some e' → e.tail = e'.tail →
    i < i' → ∀ j j' d d', r.position i = some j → r.edge e = some d →
      r.position i' = some j' → r.edge e' = some d' → j < j'

namespace Excerpt

variable {r : Renaming} {g g' : Digraph} {i j u v w : ℕ} {e d : Edge}

/-- Only one edge has a given new name. -/
theorem arc_inj (h : Excerpt r g g') {i' : ℕ} {e' : Edge} (he : g.edges[i]? = some e)
    (he' : g.edges[i']? = some e') {c : Arc} (harc : r.arc (.along i e) = some c)
    (harc' : r.arc (.along i' e') = some c) : i = i' := by
  obtain ⟨j, d, hj, hd, rfl⟩ := Renaming.arc_along_eq_some_iff.mp harc
  obtain ⟨_, _, hj', hd', heq⟩ := Renaming.arc_along_eq_some_iff.mp harc'
  cases heq
  have htail := h.node_inj _ _ _ (Renaming.edge_eq_some_iff.mp hd).1
    (Renaming.edge_eq_some_iff.mp hd').1
  rcases Nat.lt_trichotomy i i' with hlt | heq | hlt
  · have hself := h.ordered i i' e e' he he' htail hlt j j d d hj hd hj' hd'
    exact absurd hself (lt_irrefl j)
  · exact heq
  · have hself := h.ordered i' i e' e he' he htail.symm hlt j j d d hj' hd' hj hd
    exact absurd hself (lt_irrefl j)

/-- Arcs out of one node stay in order. -/
theorem before (h : Excerpt r g g') {a a' b b' : Arc} (ha : a ∈ g.arcs v) (hb : b ∈ g.arcs v)
    (hbefore : a.Before b) (ha' : r.arc a = some a') (hb' : r.arc b = some b') :
    a'.Before b' := by
  obtain ⟨i, e, he, rfl, rfl⟩ := Digraph.mem_arcs.mp ha
  obtain ⟨i', e', he', htail, rfl⟩ := Digraph.mem_arcs.mp hb
  obtain ⟨_, _, hi, hi', hlt⟩ := hbefore
  cases hi
  cases hi'
  obtain ⟨j, d, hj, hd, rfl⟩ := Renaming.arc_along_eq_some_iff.mp ha'
  obtain ⟨j', d', hj', hd', rfl⟩ := Renaming.arc_along_eq_some_iff.mp hb'
  exact ⟨j, j', rfl, rfl, h.ordered i i' e e' he he' htail.symm hlt j j' d d' hj hd hj' hd'⟩

theorem mem_arcs_iff (h : Excerpt r g g') (hv : r.node v = some w) {b : Arc} :
    b ∈ g'.arcs w ↔ ∃ a ∈ g.arcs v, r.arc a = some b := by
  rw [Digraph.mem_arcs]
  constructor
  · rintro ⟨j, d, hd, rfl, rfl⟩
    obtain ⟨i, e, he, hi, hed⟩ := (h.edge_iff j d).mp hd
    have htail := h.node_inj _ _ _ (Renaming.edge_eq_some_iff.mp hed).1 hv
    exact ⟨.along i e, Digraph.mem_arcs.mpr ⟨i, e, he, htail, rfl⟩, Renaming.arc_eq_along hi hed⟩
  · rintro ⟨a, ha, harc⟩
    obtain ⟨i, e, he, rfl, rfl⟩ := Digraph.mem_arcs.mp ha
    obtain ⟨j, d, hi, hed, rfl⟩ := Renaming.arc_along_eq_some_iff.mp harc
    refine ⟨j, d, (h.edge_iff j d).mpr ⟨i, e, he, hi, hed⟩, ?_, rfl⟩
    have htail := (Renaming.edge_eq_some_iff.mp hed).1
    exact Option.some.inj (htail.symm.trans hv)

/-- No arc out of a node that is left out is kept. -/
theorem filterMap_arcs_eq_nil (r : Renaming) (g : Digraph) (hv : r.node v = none) :
    (g.arcs v).filterMap r.arc = [] := by
  rw [List.filterMap_eq_nil_iff]
  intro a ha
  obtain ⟨i, e, -, rfl, rfl⟩ := Digraph.mem_arcs.mp ha
  rw [Option.eq_none_iff_forall_ne_some]
  intro b harc
  obtain ⟨j, d, -, hd, -⟩ := Renaming.arc_along_eq_some_iff.mp harc
  have htail := (Renaming.edge_eq_some_iff.mp hd).1
  simp [hv] at htail

/-- The arcs out of a kept node are those of the whole graph that are kept, in the same order. -/
theorem arcs_eq (h : Excerpt r g g') (hv : r.node v = some w) :
    g'.arcs w = (g.arcs v).filterMap r.arc := by
  have hpairwise : ((g.arcs v).filterMap r.arc).Pairwise Arc.Before := by
    rw [List.pairwise_filterMap]
    refine (g.pairwise_arcs v).imp_of_mem ?_
    intro a b ha hb hbefore a' ha' b' hb'
    exact h.before ha hb hbefore ha' hb'
  have hnodup : ∀ {l : List Arc}, l.Pairwise Arc.Before → l.Nodup := by
    intro l hl
    refine hl.imp fun hbefore heq => ?_
    subst heq
    exact hbefore.asymm hbefore
  have hperm : (g'.arcs w).Perm ((g.arcs v).filterMap r.arc) := by
    rw [List.perm_ext_iff_of_nodup (hnodup (g'.pairwise_arcs w)) (hnodup hpairwise)]
    intro b
    rw [h.mem_arcs_iff hv, List.mem_filterMap]
  exact hperm.eq_of_pairwise (fun _ _ _ _ hab hba => absurd hba hab.asymm)
    (g'.pairwise_arcs w) hpairwise

theorem seeds_eq (h : Excerpt r g g') : g'.seeds = g.seeds.filterMap r.arc := by
  rw [Digraph.seeds, Digraph.seeds, ← h.nodes_eq, List.map_filterMap, List.filterMap_map]
  rfl

end Excerpt

namespace Forest

/-- The forest without the arcs that `f` leaves out. What stays of a tree that is left out goes
to its place. -/
def filterMap (f : Arc → Option Arc) : Forest → Forest
  | nil => nil
  | skip a rest =>
    match f a with
    | none => rest.filterMap f
    | some b => skip b (rest.filterMap f)
  | grow a below rest =>
    match f a with
    | none => (below.filterMap f).append (rest.filterMap f)
    | some b => grow b (below.filterMap f) (rest.filterMap f)

/-- The forest `F'` is what `r` makes of `F`. -/
structure Mirrors (r : Renaming) (F F' : Forest) : Prop where
  nodes_eq : F'.nodes = F.nodes.filterMap r.node
  finishes_eq : F'.finishes = F.finishes.filterMap r.node
  grown_eq : F'.grown = F.grown.filterMap r.arc

variable {r : Renaming} {F F' : Forest}

/-- No arc of the forest is left out that found a node which is kept. -/
def Kept (r : Renaming) (F : Forest) : Prop :=
  ∀ a ∈ F.grown, (r.node a.head).isSome → (r.arc a).isSome

namespace Kept

variable {a : Arc} {inner others : Forest}

theorem below (h : Kept r (grow a inner others)) : Kept r inner := fun b hb =>
  h b (by simp [grown, hb])

theorem rest (h : Kept r (grow a inner others)) : Kept r others := fun b hb =>
  h b (by simp [grown, hb])

theorem node_eq_none (h : Kept r (grow a inner others)) (harc : r.arc a = none) :
    r.node a.head = none := by
  by_contra hne
  have hsome := h a List.mem_cons_self (Option.isSome_iff_ne_none.mpr hne)
  simp [harc] at hsome

theorem mirrors_filterMap (h : Kept r F) : Mirrors r F (F.filterMap r.arc) := by
  induction F with
  | nil => exact ⟨rfl, rfl, rfl⟩
  | skip a rest ih =>
    have hrest := ih h
    cases harc : r.arc a <;>
      exact ⟨by simpa [filterMap, harc, nodes] using hrest.nodes_eq,
        by simpa [filterMap, harc, finishes] using hrest.finishes_eq,
        by simpa [filterMap, harc, grown] using hrest.grown_eq⟩
  | grow a below rest ihb ihr =>
    have hbelow := ihb h.below
    have hrest := ihr h.rest
    cases harc : r.arc a with
    | none =>
      have hhead := h.node_eq_none harc
      constructor
      · simp [filterMap, harc, nodes, hhead, hbelow.nodes_eq, hrest.nodes_eq]
      · simp [filterMap, harc, finishes, hhead, hbelow.finishes_eq, hrest.finishes_eq]
      · simp [filterMap, harc, grown, hbelow.grown_eq, hrest.grown_eq]
    | some b =>
      have hhead := Renaming.node_head_of_arc harc
      constructor
      · simp [filterMap, harc, nodes, hhead, hbelow.nodes_eq, hrest.nodes_eq]
      · simp [filterMap, harc, finishes, hhead, hbelow.finishes_eq, hrest.finishes_eq]
      · simp [filterMap, harc, grown, hbelow.grown_eq, hrest.grown_eq]

end Kept

namespace Mirrors

theorem roots_eq (h : Mirrors r F F') : F'.roots = F.roots.filterMap r.node := by
  rw [roots, roots, h.grown_eq, List.filterMap_filterMap, List.filterMap_filterMap]
  exact List.filterMap_congr fun a _ => r.bind_root?_arc a

theorem encloses_iff (h : Mirrors r F F')
    (hinj : ∀ u v w, r.node u = some w → r.node v = some w → u = v) {u v u' v' : ℕ}
    (hu : r.node u = some u') (hv : r.node v = some v') :
    F'.Encloses u' v' ↔ F.Encloses u v := by
  have hdiscovered := numberIn_filterMap_le (l := F.nodes) hinj hu hv
  have hfinished := numberIn_filterMap_le (l := F.finishes) hinj hv hu
  rw [← h.nodes_eq] at hdiscovered
  rw [← h.finishes_eq] at hfinished
  constructor
  · exact fun hin => ⟨hdiscovered.mp hin.discovered_le, hfinished.mp hin.finished_le⟩
  · exact fun hin => ⟨hdiscovered.mpr hin.discovered_le, hfinished.mpr hin.finished_le⟩

end Mirrors

end Forest

/-- Nothing comes of no arcs. -/
theorem Explores.eq_nil {g : Digraph} {seen : List ℕ} {F : Forest} (h : Explores g seen [] F) :
    F = .nil := by
  cases h
  rfl

/-- A search of the whole that keeps what finds kept nodes is a search of the excerpt. -/
theorem Explores.excerpt {g g' : Digraph} {r : Renaming} {seen : List ℕ} {arcs : List Arc}
    {F : Forest} (h : Explores g seen arcs F) (hr : Excerpt r g g') (hkept : F.Kept r) :
    Explores g' (seen.filterMap r.node) (arcs.filterMap r.arc) (F.filterMap r.arc) := by
  induction h with
  | nil => exact .nil
  | @skip seen a arcs rest hseen hrest ih =>
    have hrest := ih hkept
    cases harc : r.arc a with
    | none => simpa [Forest.filterMap, harc] using hrest
    | some b =>
      have hhead := Renaming.node_head_of_arc harc
      have hmem : b.head ∈ seen.filterMap r.node := List.mem_filterMap.mpr ⟨_, hseen, hhead⟩
      simpa [Forest.filterMap, harc] using Explores.skip hmem hrest
  | @grow seen a arcs below rest hnew hbelow hrest ihb ihr =>
    have hnodes := hkept.below.mirrors_filterMap.nodes_eq
    have hb := ihb hkept.below
    have hr' := ihr hkept.rest
    rw [List.filterMap_append, List.filterMap_cons, ← hnodes] at hr'
    cases harc : r.arc a with
    | none =>
      -- No arc out of the head is kept, so that nothing is found below it.
      have hhead := hkept.node_eq_none harc
      rw [Excerpt.filterMap_arcs_eq_nil r g hhead] at hb
      simp only [hhead, hb.eq_nil, Forest.nodes, List.append_nil] at hr'
      simpa [Forest.filterMap, harc, hb.eq_nil, Forest.append] using hr'
    | some b =>
      have hhead := Renaming.node_head_of_arc harc
      have hnew' : b.head ∉ seen.filterMap r.node := by
        rwa [mem_filterMap_of_inj hr.node_inj hhead]
      simp only [hhead] at hr'
      simp only [List.filterMap_append, List.filterMap_cons, hhead, List.filterMap_nil,
        ← hr.arcs_eq hhead] at hb
      simpa [Forest.filterMap, harc] using Explores.grow hnew' hb hr'

/-- An edge that is neither tree nor back nor cross edge is a forward edge. -/
theorem EdgeKind.eq_of_iff {k k' : EdgeKind} (htree : k' = .tree ↔ k = .tree)
    (hback : k' = .back ↔ k = .back) (hcross : k' = .cross ↔ k = .cross) : k' = k := by
  cases k <;> cases k' <;> simp_all

namespace Spans

variable {g g' : Digraph} {r : Renaming} {F F' : Forest} {i j : ℕ} {e d : Edge}

theorem excerpt (h : Spans g F) (hr : Excerpt r g g') (hkept : F.Kept r) :
    Spans g' (F.filterMap r.arc) := by
  have hexplores := Explores.excerpt h hr hkept
  rwa [← hr.seeds_eq] at hexplores

/-- A back edge is one whose head does not lie below its tail but around it. -/
theorem eq_back_iff_encloses (h : Spans g F) (hg : g.Sound) (he : g.edges[i]? = some e)
    {k : EdgeKind} (hk : k.Describes F e) : k = .back ↔ F.Encloses e.head e.tail := by
  rw [h.eq_back_iff hg he hk]
  constructor
  · rintro (heq | ⟨hin, -⟩)
    · rw [heq]
      exact ⟨le_rfl, le_rfl⟩
    · exact hin
  · intro hin
    by_cases heq : e.head = e.tail
    · exact Or.inl heq
    · exact Or.inr ⟨hin, Ne.symm heq⟩

/-- Kinds are told by the arcs that found nodes and by the order of the endpoints. -/
theorem kind?_congr (h : Spans g F) (hg : g.Sound) (h' : Spans g' F') (hg' : g'.Sound)
    (he : g.edges[i]? = some e) (hd : g'.edges[j]? = some d)
    (hgrown : Arc.along j d ∈ F'.grown ↔ Arc.along i e ∈ F.grown)
    (hdown : F'.Encloses d.tail d.head ↔ F.Encloses e.tail e.head)
    (hup : F'.Encloses d.head d.tail ↔ F.Encloses e.head e.tail) :
    (traversal g' F').kind? j = (traversal g F).kind? i := by
  obtain ⟨k, hk, hdescribes⟩ := h.exists_kind hg he
  obtain ⟨k', hk', hdescribes'⟩ := h'.exists_kind hg' hd
  have htree : k' = .tree ↔ k = .tree := by
    rw [h'.along_mem_grown_iff hg', h.along_mem_grown_iff hg, hk, hk'] at hgrown
    simpa [he, hd] using hgrown
  have hcross : k' = .cross ↔ k = .cross := by
    rw [eq_cross_iff hdescribes', eq_cross_iff hdescribes, hdown, hup]
  have hback : k' = .back ↔ k = .back := by
    rw [h'.eq_back_iff_encloses hg' hd hdescribes', h.eq_back_iff_encloses hg he hdescribes, hup]
  rw [hk, hk', EdgeKind.eq_of_iff htree hback hcross]

/-- What is kept has the kind that it has in the whole. -/
theorem kind?_excerpt (h : Spans g F) (hg : g.Sound) (h' : Spans g' F') (hg' : g'.Sound)
    (hr : Excerpt r g g') (hmirrors : Forest.Mirrors r F F') (he : g.edges[i]? = some e)
    (hi : r.position i = some j) (hd : r.edge e = some d) :
    (traversal g' F').kind? j = (traversal g F).kind? i := by
  obtain ⟨htail, hhead⟩ := Renaming.edge_eq_some_iff.mp hd
  have harc := Renaming.arc_eq_along hi hd
  refine h.kind?_congr hg h' hg' he ((hr.edge_iff j d).mpr ⟨i, e, he, hi, hd⟩) ?_
    (hmirrors.encloses_iff hr.node_inj htail hhead) (hmirrors.encloses_iff hr.node_inj hhead htail)
  rw [hmirrors.grown_eq, List.mem_filterMap]
  constructor
  · rintro ⟨a, hgrown, harc'⟩
    cases a with
    | seed v => cases hv : r.node v <;> simp [Renaming.arc, hv] at harc'
    | along i' e' =>
      have he' := ((h.along_mem_grown_iff hg).mp hgrown).1
      obtain rfl := hr.arc_inj he he' harc harc'
      rwa [Option.some.inj (he.symm.trans he')]
  · exact fun hgrown => ⟨_, hgrown, harc⟩

end Spans

end ClassicAlgorithms
