import ClassicAlgorithms.Proofs.Graph.Visits
import Mathlib.Order.Bounds.Basic

/-!
# What holds between two turns

The tables, the cursor and the stack of a search tell one story at every moment of the loop
and not only at its end: the numbers are those of the order of discovery, the frames that
discovered a node are a path from the last root, and every edge is on its way from an
undiscovered tail over one frame of the stack to its record.
-/
namespace ClassicAlgorithms

namespace Search

/-- The frames that discovered a node and are still on the stack, from the bottom to the top. -/
def openFrames (s : Search) : List Frame :=
  (s.stack.filter fun f => f.stage = .explored true).reverse

/-- The edges of the frames that are still to be examined. -/
def waitingEdges (s : Search) : List ℕ := s.waiting.filterMap Frame.edge

/-- A frame of the edge is still to be examined, and the next frame below it that discovered a
node discovered the tail. -/
def IsAboveTail (g : Digraph) (s : Search) (i : ℕ) : Prop :=
  ∃ above f below parent e, s.stack = above ++ f :: below ∧ f.stage = .pending ∧
    f.edge = some i ∧ below.find? (fun f => f.stage = .explored true) = some parent ∧
    g.edges[i]? = some e ∧ parent.head = e.tail

/-- How far an edge has come. -/
inductive EdgePlace where
  | unreached
  | waiting
  | recorded

/-- An edge is unreached while its tail is undiscovered and no frame stands for it. Then it waits
in one frame above that of its tail, and at last it has a kind and waits no more. -/
def HasPlace (g : Digraph) (s : Search) (i : ℕ) : EdgePlace → Prop
  | .unreached => s.kinds[i]? = some none ∧ (∀ f ∈ s.stack, f.edge ≠ some i) ∧
      ∃ e, g.edges[i]? = some e ∧ s.preorder[e.tail]? = some 0
  | .waiting => s.kinds[i]? = some none ∧ s.waitingEdges.count i = 1 ∧ s.IsAboveTail g i
  | .recorded => (∃ kind, s.kinds[i]? = some (some kind)) ∧ i ∉ s.waitingEdges

/-- The numbers are positions in the orders of discovery and of finishing. The cursor is at the
smallest node without a number, and at the number of nodes when there is none. -/
structure Numbered (g : Digraph) (s : Search) : Prop where
  preorder_eq_succ_iff : ∀ v k, s.preorder[v]? = some (k + 1) ↔ s.discovery[k]? = some v
  preorder_eq_zero_iff : ∀ v, s.preorder[v]? = some 0 ↔ v < g.nodeCount ∧ v ∉ s.discovery
  cursor_least : IsLeast (insert g.nodeCount {v | s.preorder[v]? = some 0}) s.cursor
  postorder_perm : (s.postorder.toList.filter (· ≠ 0)).Perm (List.range' 1 (s.nextPostorder - 1))

/-- The frames that discovered a node which is not finished are a path of edges from the last
root. A frame that discovered nothing is on top, and a seed is at the bottom. -/
structure Nested (g : Digraph) (s : Search) : Prop where
  open_nodup : (s.openFrames.map Frame.head).Nodup
  mem_open_iff : ∀ v, v ∈ s.openFrames.map Frame.head ↔
    (∃ k, s.preorder[v]? = some (k + 1)) ∧ s.postorder[v]? = some 0
  open_root : ∀ f ∈ s.openFrames.head?, f.edge = none ∧ s.roots.back? = some f.head
  open_chain : s.openFrames.IsChain fun outer inner =>
    ∃ i, inner.edge = some i ∧ g.edges[i]? = some ⟨outer.head, inner.head⟩
  passed_on_top : ∀ f ∈ s.stack.tail, f.stage ≠ .explored false
  seed_at_bottom : ∀ f ∈ s.stack.getLast?, f.edge = none
  edge_above_bottom : ∀ f ∈ s.stack.dropLast, f.edge ≠ none

/-- What holds of a search whenever the loop comes round. -/
structure Invariant (g : Digraph) (s : Search) : Prop extends Numbered g s, Nested g s where
  edges : ∀ i < g.edgeCount, ∃! place, s.HasPlace g i place

variable {g : Digraph} {p : Progress} {visits : List Visit} {stack : List Frame}

/-- The numbers given out in a list without repetitions, in whatever order the nodes stand. -/
theorem filter_table_numberIn_perm {n : ℕ} {l : List ℕ} (hnodup : l.Nodup) (hlt : ∀ v ∈ l, v < n) :
    ((table n (numberIn l)).toList.filter (· ≠ 0)).Perm (List.range' 1 l.length) := by
  have hnumbered : ((List.range n).filter fun v => numberIn l v ≠ 0).Perm l := by
    rw [List.perm_ext_iff_of_nodup (List.nodup_range.filter _) hnodup]
    intro v
    simpa using hlt v
  rw [← map_range_eq_table, List.filter_map, ← map_numberIn_self hnodup]
  exact hnumbered.map _

theorem numbered_ofProgress (h : p.Visiting g visits) (stack : List Frame) :
    Numbered g (ofProgress g p stack) where
  preorder_eq_succ_iff v k := by
    simp only [ofProgress, getElem?_table_eq_some_iff, List.getElem?_toArray,
      getElem?_eq_some_iff_numberIn h.seen_nodup, and_iff_right_iff_imp]
    intro hnumber
    exact h.seen_lt v (numberIn_pos.mp (by omega))
  preorder_eq_zero_iff v := by
    simp only [ofProgress, getElem?_table_eq_some_iff, numberIn_eq_zero, List.mem_toArray]
  cursor_least := by
    constructor
    · rcases (cursorIn_le g.nodeCount p.seen).lt_or_eq with hlt | heq
      · have hzero := numberIn_eq_zero.mpr (cursorIn_not_mem hlt)
        exact .inr (getElem?_table_eq_some_iff.mpr ⟨hlt, hzero⟩)
      · exact .inl heq
    · rintro v (rfl | hv)
      · exact cursorIn_le _ _
      · by_contra hlt
        have hzero := (getElem?_table_eq_some_iff.mp hv).2
        exact numberIn_eq_zero.mp hzero (mem_of_lt_cursorIn (Nat.lt_of_not_le hlt))
  postorder_perm := by
    have hdone : ∀ v ∈ p.done, v < g.nodeCount :=
      fun v hv => h.seen_lt v (h.nodes_perm.subset (List.mem_append_left _ hv))
    simpa [ofProgress] using filter_table_numberIn_perm h.nodup.of_append_left hdone

/-- When the open frames are those of the visits, they are nested as the visits are. -/
theorem nested_ofProgress (h : p.Visiting g visits)
    (hopen : (ofProgress g p stack).openFrames = (visits.map Visit.frame).reverse)
    (hpassed : ∀ f ∈ stack.tail, f.stage ≠ .explored false)
    (hbottom : ∀ f ∈ stack.getLast?, f.edge = none)
    (habove : ∀ f ∈ stack.dropLast, f.edge ≠ none) : Nested g (ofProgress g p stack) := by
  have hheads : (ofProgress g p stack).openFrames.map Frame.head =
      (visits.map Visit.node).reverse := by
    simp [hopen, Visit.head_frame, Function.comp_def]
  refine ⟨?nodup, ?mem, ?root, ?chain, hpassed, hbottom, habove⟩
  case nodup =>
    rw [hheads, List.nodup_reverse]
    exact h.nodup.of_append_right
  case mem =>
    intro v
    rw [hheads, List.mem_reverse, h.mem_nodes_iff]
    simp only [ofProgress, getElem?_table_eq_some_iff, numberIn_eq_zero]
    constructor
    · rintro ⟨hseen, hdone⟩
      have hpos := numberIn_pos.mpr hseen
      have hlt := h.seen_lt v hseen
      exact ⟨⟨numberIn p.seen v - 1, hlt, by omega⟩, hlt, hdone⟩
    · rintro ⟨⟨k, -, hnumber⟩, -, hdone⟩
      exact ⟨numberIn_pos.mp (by omega), hdone⟩
  case root =>
    intro f hf
    rw [hopen, List.head?_reverse, List.getLast?_map] at hf
    obtain ⟨v, hv, rfl⟩ := Option.mem_map.mp hf
    obtain ⟨r, hvia, hroot⟩ := h.root v.via (by
      rw [List.getLast?_map]
      exact Option.mem_map_of_mem _ hv)
    have hnode : v.node = r := by rw [Visit.node, hvia, Arc.head]
    have hback : (ofProgress g p stack).roots.back? = some r := by simpa [ofProgress] using hroot
    rw [Visit.edge_frame, Visit.head_frame, hvia, hnode]
    exact ⟨rfl, hback⟩
  case chain =>
    rw [hopen, List.isChain_reverse, List.isChain_map]
    refine (List.isChain_map Visit.via).mp h.found_inside |>.imp ?_
    intro inner outer hinner
    obtain ⟨i, e, he, htail, hvia⟩ := Digraph.mem_arcs.mp hinner
    have hnode : inner.node = e.head := by rw [Visit.node, hvia, Arc.head]
    have hposition : inner.via.position? = some i := by rw [hvia, Arc.position?]
    refine ⟨i, by rw [Visit.edge_frame, hposition], ?_⟩
    rw [Visit.head_frame, Visit.head_frame, hnode, Visit.node, ← htail, he]

/-- The places exclude each other. -/
theorem HasPlace.unique {s : Search} {i : ℕ} {place place' : EdgePlace}
    (h : s.HasPlace g i place) (h' : s.HasPlace g i place') : place = place' := by
  have hrecorded : s.kinds[i]? = some none → ¬∃ kind, s.kinds[i]? = some (some kind) := by
    rintro hnone ⟨kind, hkind⟩
    simp [hnone] at hkind
  have hwaiting : s.waitingEdges.count i = 1 → ¬∀ f ∈ s.stack, f.edge ≠ some i := by
    intro hcount hfree
    obtain ⟨f, hf, hedge⟩ := List.mem_filterMap.mp (List.count_pos_iff.mp (by omega) :
      i ∈ s.waitingEdges)
    exact hfree f (List.mem_of_mem_filter hf) hedge
  match place, place', h, h' with
  | .unreached, .unreached, _, _ => rfl
  | .unreached, .waiting, h, h' => exact absurd h.2.1 (hwaiting h'.2.1)
  | .unreached, .recorded, h, h' => exact absurd h'.1 (hrecorded h.1)
  | .waiting, .unreached, h, h' => exact absurd h'.2.1 (hwaiting h.2.1)
  | .waiting, .waiting, _, _ => rfl
  | .waiting, .recorded, h, h' => exact absurd h'.1 (hrecorded h.1)
  | .recorded, .unreached, h, h' => exact absurd h.1 (hrecorded h'.1)
  | .recorded, .waiting, h, h' => exact absurd h.1 (hrecorded h'.1)
  | .recorded, .recorded, _, _ => rfl

/-- An edge out of a seen node is on record or waits, and the others are unreached. -/
theorem existsUnique_hasPlace (hg : g.Sound) (h : p.Visiting g visits)
    (hwaiting : (ofProgress g p stack).waitingEdges = visits.flatMap Visit.positions)
    (htail : ∀ f ∈ stack, ∀ i, f.edge = some i → ∃ e, g.edges[i]? = some e ∧ e.tail ∈ p.seen)
    (habove : ∀ i ∈ visits.flatMap Visit.positions, (ofProgress g p stack).IsAboveTail g i)
    {i : ℕ} (hi : i < g.edgeCount) : ∃! place, (ofProgress g p stack).HasPlace g i place := by
  have hnodup := h.positions_perm.nodup_iff.mpr (nodup_flatMap_leaving _ h.seen_nodup)
  have hmade : (p.made.map Prod.fst).Nodup := hnodup.of_append_left
  have hplace : ∃ place, (ofProgress g p stack).HasPlace g i place := by
    by_cases hrecorded : i ∈ p.made.map Prod.fst
    · obtain ⟨⟨j, kind⟩, hmem, rfl⟩ := List.mem_map.mp hrecorded
      refine ⟨.recorded, ⟨kind, (getElem?_kindTable hmade hi kind).mpr hmem⟩, ?_⟩
      rw [hwaiting]
      exact List.disjoint_of_nodup_append hnodup hrecorded
    have hnone := (getElem?_kindTable_eq_none hmade hi).mpr hrecorded
    by_cases hwait : i ∈ visits.flatMap Visit.positions
    · refine ⟨.waiting, hnone, ?_, habove i hwait⟩
      rw [hwaiting]
      exact List.count_eq_one_of_mem hnodup.of_append_right hwait
    · obtain ⟨e, he⟩ : ∃ e, g.edges[i]? = some e := ⟨g.edges[i], Array.getElem?_eq_getElem hi⟩
      have hnew : e.tail ∉ p.seen := by
        intro hseen
        have hleaving := mem_flatMap_leaving.mpr ⟨e, (Array.getElem?_toList ..).trans he, hseen⟩
        rcases List.mem_append.mp (h.positions_perm.mem_iff.mpr hleaving) with hmem | hmem
        · exact hrecorded hmem
        · exact hwait hmem
      refine ⟨.unreached, hnone, ?_, e, he, ?_⟩
      · intro f hf hedge
        obtain ⟨e', he', hseen⟩ := htail f hf i hedge
        obtain rfl := Option.some.inj (he.symm.trans he')
        exact hnew hseen
      · exact getElem?_table_eq_some_iff.mpr
          ⟨hg.tail_lt_of_getElem? he, numberIn_eq_zero.mpr hnew⟩
  exact existsUnique_of_exists_of_unique hplace fun _ _ => HasPlace.unique

/-- At the bottom of the stack is the frame of the outermost visit, and above it are frames of
edges with a tail under exploration. -/
theorem exists_frames_eq (hchain : (visits.map Visit.via).IsChain fun a b => a ∈ g.arcs b.head)
    (hahead : ∀ v ∈ visits, v.ahead ⊆ g.arcs v.node) (hne : visits ≠ []) :
    ∃ above, visits.flatMap Visit.frames = above ++ [(visits.getLast hne).frame] ∧
      ∀ f ∈ above, ∃ v ∈ visits, ∃ a ∈ g.arcs v.node, f.edge = a.position? := by
  induction visits with
  | nil => exact absurd rfl hne
  | cons v outer ih =>
    have hframes : ∀ f ∈ v.ahead.map Arc.frame, ∃ w ∈ v :: outer, ∃ a ∈ g.arcs w.node,
        f.edge = a.position? := by
      intro f hf
      obtain ⟨a, ha, rfl⟩ := List.mem_map.mp hf
      exact ⟨v, List.mem_cons_self, a, hahead v List.mem_cons_self ha, a.edge_frame⟩
    match outer, ih with
    | [], _ => exact ⟨v.ahead.map Arc.frame, by simp [Visit.frames], hframes⟩
    | w :: outer, ih =>
      obtain ⟨hvia, hrest⟩ := List.isChain_cons_cons.mp hchain
      obtain ⟨above, heq, habove⟩ := ih hrest (List.forall_mem_cons.mp hahead).2 (by simp)
      refine ⟨v.frames ++ above, by rw [List.flatMap_cons, heq, List.append_assoc]; rfl, ?_⟩
      intro f hf
      rcases List.mem_append.mp hf with hf | hf
      · rcases List.mem_append.mp hf with hf | hf
        · exact hframes f hf
        · rw [List.mem_singleton.mp hf]
          exact ⟨w, by simp, v.via, hvia, v.edge_frame⟩
      · obtain ⟨u, hu, a, ha, hedge⟩ := habove f hf
        exact ⟨u, List.mem_cons_of_mem _ hu, a, ha, hedge⟩

/-- So only the bottom of the stack is a seed, and the other frames are for edges out of seen
nodes. -/
theorem exists_stackOf_eq {passed : Option Arc} (h : p.Visiting g visits) (hne : visits ≠ [])
    (hpassed : ∀ a ∈ passed, ∃ v ∈ visits.head?, a ∈ g.arcs v.node) :
    ∃ above bottom, stackOf passed visits = above ++ [bottom] ∧ bottom.edge = none ∧
      ∀ f ∈ above, ∃ i e, f.edge = some i ∧ g.edges[i]? = some e ∧ e.tail ∈ p.seen := by
  have hfits : ∀ {f : Frame} {v : Visit} {a : Arc}, v ∈ visits → a ∈ g.arcs v.node →
      f.edge = a.position? → ∃ i e, f.edge = some i ∧ g.edges[i]? = some e ∧ e.tail ∈ p.seen := by
    intro f v a hv ha hedge
    obtain ⟨i, e, he, htail, rfl⟩ := Digraph.mem_arcs.mp ha
    exact ⟨i, e, hedge, he, htail ▸ h.node_mem_seen hv⟩
  obtain ⟨above, hframes, habove⟩ := exists_frames_eq h.found_inside h.ahead_subset hne
  refine ⟨(passed.map Arc.passedFrame).toList ++ above, (visits.getLast hne).frame, ?stack,
    ?bottom, ?above⟩
  case stack => rw [stackOf, hframes, List.append_assoc]
  case bottom =>
    obtain ⟨r, hvia, -⟩ := h.root (visits.getLast hne).via (by
      rw [List.getLast?_map, List.getLast?_eq_some_getLast hne]
      rfl)
    rw [Visit.edge_frame, hvia, Arc.position?]
  case above =>
    intro f hf
    rcases List.mem_append.mp hf with hf | hf
    · obtain ⟨a, ha, rfl⟩ : ∃ a ∈ passed, a.passedFrame = f := by simpa using hf
      obtain ⟨v, hv, harc⟩ := hpassed a ha
      exact hfits (List.mem_of_mem_head? hv) harc a.edge_frame
    · obtain ⟨v, hv, a, ha, hedge⟩ := habove f hf
      exact hfits hv ha hedge

/-- The frame of an arc ahead lies above that of its node. -/
theorem isAboveTail_stackOf {passed : Option Arc} {i : ℕ} (h : p.Visiting g visits)
    (hi : i ∈ visits.flatMap Visit.positions) :
    (ofProgress g p (stackOf passed visits)).IsAboveTail g i := by
  obtain ⟨v, hv, hposition⟩ := List.mem_flatMap.mp hi
  obtain ⟨a, ha, hai⟩ := List.mem_filterMap.mp hposition
  obtain ⟨j, e, he, htail, rfl⟩ := Digraph.mem_arcs.mp (h.ahead_subset v hv ha)
  obtain rfl : j = i := Option.some.inj hai
  obtain ⟨inner, outer, rfl⟩ := List.append_of_mem hv
  obtain ⟨before, after, hahead⟩ := List.append_of_mem ha
  refine ⟨(passed.map Arc.passedFrame).toList ++ inner.flatMap Visit.frames ++
    before.map Arc.frame, (Arc.along j e).frame,
    after.map Arc.frame ++ v.frame :: outer.flatMap Visit.frames, v.frame, e, ?stack, rfl, rfl,
    ?find, he, ?head⟩
  case stack => simp [ofProgress, stackOf, Visit.frames, hahead]
  case find =>
    have hpending : (after.map Arc.frame).find? (fun f => f.stage = .explored true) = none := by
      simp
    rw [List.find?_append, hpending]
    simp
  case head => rw [Visit.head_frame, htail]

/-- While a node is under exploration. -/
theorem invariant_stackOf {passed : Option Arc} (hg : g.Sound) (h : p.Visiting g visits)
    (hne : visits ≠ []) (hpassed : ∀ a ∈ passed, ∃ v ∈ visits.head?, a ∈ g.arcs v.node) :
    Invariant g (ofProgress g p (stackOf passed visits)) := by
  obtain ⟨above, bottom, hstack, hbottom, habove⟩ := exists_stackOf_eq h hne hpassed
  refine ⟨numbered_ofProgress h _, nested_ofProgress h ?opened ?passed ?bottom ?above,
    fun i hi => existsUnique_hasPlace hg h ?waiting ?tail (fun i => isAboveTail_stackOf h) hi⟩
  case opened => rw [openFrames, ofProgress, filter_explored_stackOf]
  case passed =>
    intro f hf
    rcases stage_of_mem_tail_stackOf hf with hstage | hstage <;> simp [hstage]
  case bottom =>
    rw [hstack, List.getLast?_concat]
    rintro f ⟨⟩
    exact hbottom
  case above =>
    rw [hstack, List.dropLast_concat]
    intro f hf
    obtain ⟨i, e, hedge, -⟩ := habove f hf
    simp [hedge]
  case waiting => rw [waitingEdges, waiting, ofProgress, filter_pending_stackOf]
  case tail =>
    rw [hstack]
    intro f hf i hedge
    rcases List.mem_append.mp hf with hf | hf
    · obtain ⟨j, e, hj, he, hseen⟩ := habove f hf
      obtain rfl := Option.some.inj (hj.symm.trans hedge)
      exact ⟨e, he, hseen⟩
    · rw [List.mem_singleton.mp hf, hbottom] at hedge
      exact absurd hedge (by simp)

/-- Between two trees there is nothing on the stack but the next seed. -/
theorem invariant_reseed (hg : g.Sound) (h : p.Visiting g []) :
    Invariant g (reseed g (ofProgress g p [])) := by
  obtain ⟨seed, hreseed⟩ : ∃ seed : Option ℕ,
      reseed g (ofProgress g p []) = ofProgress g p (seed.map Frame.seed).toList := by
    rcases lt_or_ge (cursorIn g.nodeCount p.seen) g.nodeCount with hlt | hge
    · exact ⟨some _, reseed_ofProgress_of_lt hlt⟩
    · exact ⟨none, reseed_ofProgress_of_le hge⟩
  rw [hreseed]
  refine ⟨numbered_ofProgress h _, nested_ofProgress h ?opened ?passed ?bottom ?above,
    fun i hi => existsUnique_hasPlace hg h ?waiting ?tail (by simp) hi⟩
  case opened => cases seed <;> rfl
  case passed => cases seed <;> simp
  case bottom => cases seed <;> simp [Frame.seed]
  case above => cases seed <;> simp
  case waiting => cases seed <;> rfl
  case tail => cases seed <;> simp [Frame.seed]

/-- Whatever a run on a built graph comes to between two turns keeps the invariant. -/
theorem invariant_of_build [Memory] {nodeCount : ℕ} {edges : List Edge} {turns : List Turn}
    {s : Search} (h : Digraph.build nodeCount edges = .ok g) (hrun : Turns g (start g) turns s) :
    Invariant g s := by
  obtain ⟨hg, -⟩ := Digraph.sound_of_build h
  cases (midway_start g).of_turns hg hrun with
  | exploring _ h hne hpassed => exact invariant_stackOf hg h hne hpassed
  | between h => exact invariant_reseed hg h

/-- Three nodes are under exploration, and an edge back to the root has just been passed. -/
theorem exists_invariant_tangle :
    Digraph.build 5 [⟨0, 2⟩, ⟨2, 1⟩, ⟨1, 0⟩, ⟨0, 1⟩, ⟨2, 2⟩, ⟨0, 2⟩, ⟨3, 1⟩] = .ok .tangle ∧
      ∃ turns s, Turns .tangle (start .tangle) turns s ∧ turns.length = 4 ∧
        s.stack.map Frame.edge =
          [some 2, some 1, some 4, some 0, some 3, some 5, none] ∧
        Invariant .tangle s := by
  have hrun : ∃ turns s, Turns .tangle (start .tangle) turns s ∧ turns.length = 4 ∧
      s.stack.map Frame.edge = [some 2, some 1, some 4, some 0, some 3, some 5, none] := by
    refine ⟨_, _, .cons ?_ rfl (.cons ?_ rfl (.cons ?_ rfl (.cons ?_ rfl .nil))), rfl, rfl⟩
    all_goals exact List.cons_ne_nil _ _
  obtain ⟨turns, s, hrun, hlength, hstack⟩ := hrun
  exact ⟨Digraph.build_tangle, turns, s, hrun, hlength, hstack,
    invariant_of_build Digraph.build_tangle hrun⟩

end Search

end ClassicAlgorithms
