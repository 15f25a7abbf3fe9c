import ClassicAlgorithms.Proofs.Graph.StackSearch

/-!
# The nodes under exploration

Between two turns the stack is made of the visits that have begun and not ended, the
innermost on top: of each, the arcs that are still to be examined, and below them the frame
that found its node. An arc to a node seen before lies on top of them for one turn. What a
turn does to the stack is to take an arc from the innermost visit, to begin a visit, or to
end one, and each of these keeps the account of nodes and edges.
-/
namespace ClassicAlgorithms

/-- A node under exploration: the arc that found it, and those of its own arcs that are still to
be examined. -/
structure Visit where
  via : Arc
  ahead : List Arc

@[simp] theorem Arc.edge_frame (a : Arc) : a.frame.edge = a.position? := by cases a <;> rfl

namespace Visit

def node (v : Visit) : ℕ := v.via.head

/-- The frame that found the node. -/
def frame (v : Visit) : Frame := { v.via.frame with stage := .explored true }

def frames (v : Visit) : List Frame := v.ahead.map Arc.frame ++ [v.frame]

/-- The positions of the edges that are still to be examined. -/
def positions (v : Visit) : List ℕ := v.ahead.filterMap Arc.position?

@[simp] theorem head_frame (v : Visit) : v.frame.head = v.node := v.via.head_frame

@[simp] theorem edge_frame (v : Visit) : v.frame.edge = v.via.position? := v.via.edge_frame

@[simp] theorem stage_frame (v : Visit) : v.frame.stage = .explored true := rfl

theorem mem_frames {v : Visit} {f : Frame} :
    f ∈ v.frames ↔ (∃ a ∈ v.ahead, a.frame = f) ∨ f = v.frame := by
  simp [frames]

/-- One frame of the visit has discovered a node. -/
theorem filter_explored_frames (v : Visit) :
    v.frames.filter (fun f => f.stage = .explored true) = [v.frame] := by
  simp [frames]

/-- The other frames are for the edges ahead. -/
theorem filter_pending_frames (v : Visit) :
    (v.frames.filter fun f => f.stage = .pending).filterMap Frame.edge = v.positions := by
  simp [frames, positions, List.filter_map, List.filterMap_map, Function.comp_def]

theorem positions_cons (via a : Arc) (ahead : List Arc) :
    positions ⟨via, a :: ahead⟩ = a.position?.toList ++ positions ⟨via, ahead⟩ := by
  cases a <;> rfl

/-- At the beginning of a visit, every edge out of the node is ahead. -/
theorem positions_arcs (g : Digraph) (via : Arc) :
    positions ⟨via, g.arcs via.head⟩ = (leaving g.edges.toList via.head).map Prod.snd :=
  g.filterMap_position?_arcs via.head

end Visit

/-- The frame of an arc that led to a node seen before. -/
def Arc.passedFrame (a : Arc) : Frame := { a.frame with stage := .explored false }

/-- The stack of some visits, the innermost first, with an arc on top that may have just been
passed. -/
def stackOf (passed : Option Arc) (visits : List Visit) : List Frame :=
  (passed.map Arc.passedFrame).toList ++ visits.flatMap Visit.frames

section
variable (passed : Option Arc) (visits : List Visit)

theorem filter_explored_stackOf :
    (stackOf passed visits).filter (fun f => f.stage = .explored true) =
      visits.map Visit.frame := by
  have hpassed : (passed.map Arc.passedFrame).toList.filter
      (fun f => f.stage = .explored true) = [] := by
    cases passed <;> simp [Arc.passedFrame]
  rw [stackOf, List.filter_append, hpassed, List.filter_flatMap, List.nil_append,
    List.map_eq_flatMap]
  simp only [Visit.filter_explored_frames]

theorem filter_pending_stackOf :
    ((stackOf passed visits).filter fun f => f.stage = .pending).filterMap Frame.edge =
      visits.flatMap Visit.positions := by
  have hpassed : (passed.map Arc.passedFrame).toList.filter (fun f => f.stage = .pending) = [] := by
    cases passed <;> simp [Arc.passedFrame]
  rw [stackOf, List.filter_append, hpassed, List.filter_flatMap, List.nil_append,
    List.filterMap_flatMap]
  simp only [Visit.filter_pending_frames]

variable {passed visits}

/-- Below the top no frame is for an arc that was passed. -/
theorem stage_of_mem_tail_stackOf {f : Frame} (h : f ∈ (stackOf passed visits).tail) :
    f.stage = .pending ∨ f.stage = .explored true := by
  have hframes : f ∈ visits.flatMap Visit.frames := by
    cases passed with
    | none => exact List.mem_of_mem_tail h
    | some a => exact h
  obtain ⟨v, -, hf⟩ := List.mem_flatMap.mp hframes
  rcases Visit.mem_frames.mp hf with ⟨a, -, rfl⟩ | rfl
  · exact .inl a.stage_frame
  · exact .inr v.stage_frame

end

theorem Progress.positions_made_pass (rule : Rule) (p : Progress) (a : Arc) :
    (p.pass rule a).made.map Prod.fst = p.made.map Prod.fst ++ a.position?.toList := by
  rw [pass, List.map_append, Option.toList_map.symm, Arc.map_fst_decision?]

theorem Progress.positions_made_enter (p : Progress) (a : Arc) :
    (p.enter a).made.map Prod.fst = p.made.map Prod.fst ++ a.position?.toList := by
  rw [enter, List.map_append, Option.toList_map.symm, Arc.map_fst_decision?]

/-- The visits account for a progress: their nodes are those that are seen and not done, each
is found from the one around it and the outermost is the last root. An edge out of a seen
node is either classified or ahead in the visit of its tail, and in one place only. -/
structure Progress.Visiting (g : Digraph) (p : Progress) (visits : List Visit) : Prop where
  seen_nodup : p.seen.Nodup
  seen_lt : ∀ v ∈ p.seen, v < g.nodeCount
  nodes_perm : (p.done ++ visits.map Visit.node).Perm p.seen
  found_inside : (visits.map Visit.via).IsChain fun inner outer => inner ∈ g.arcs outer.head
  root : ∀ a ∈ (visits.map Visit.via).getLast?, ∃ r, a = .seed r ∧ p.roots.getLast? = some r
  ahead_subset : ∀ v ∈ visits, v.ahead ⊆ g.arcs v.node
  positions_perm : (p.made.map Prod.fst ++ visits.flatMap Visit.positions).Perm
    (p.seen.flatMap fun v => (leaving g.edges.toList v).map Prod.snd)

namespace Progress.Visiting

variable {g : Digraph} {p : Progress} {via a : Arc} {ahead : List Arc} {v : Visit}
  {visits outer : List Visit}

theorem start (g : Digraph) : Progress.start.Visiting g [] where
  seen_nodup := by simp [Progress.start]
  seen_lt := by simp [Progress.start]
  nodes_perm := by simp [Progress.start]
  found_inside := .nil
  root := by simp
  ahead_subset := by simp
  positions_perm := by simp [Progress.start]

theorem nodup (h : p.Visiting g visits) : (p.done ++ visits.map Visit.node).Nodup :=
  h.nodes_perm.nodup_iff.mpr h.seen_nodup

/-- The nodes under exploration are those that are seen and not done. -/
theorem mem_nodes_iff (h : p.Visiting g visits) {n : ℕ} :
    n ∈ visits.map Visit.node ↔ n ∈ p.seen ∧ n ∉ p.done := by
  rw [← h.nodes_perm.mem_iff, List.mem_append]
  constructor
  · intro hn
    exact ⟨.inr hn, fun hdone => List.disjoint_of_nodup_append h.nodup hdone hn⟩
  · rintro ⟨hn, hdone⟩
    exact hn.resolve_left hdone

theorem node_mem_seen (h : p.Visiting g visits) (hv : v ∈ visits) : v.node ∈ p.seen :=
  (h.mem_nodes_iff.mp (List.mem_map_of_mem hv)).1

/-- An arc ahead leads to a node seen before. -/
theorem pass (h : p.Visiting g (⟨via, a :: ahead⟩ :: outer)) (rule : Rule) :
    (p.pass rule a).Visiting g (⟨via, ahead⟩ :: outer) where
  seen_nodup := h.seen_nodup
  seen_lt := h.seen_lt
  nodes_perm := h.nodes_perm
  found_inside := h.found_inside
  root := h.root
  ahead_subset := by
    obtain ⟨hinner, houter⟩ := List.forall_mem_cons.mp h.ahead_subset
    exact List.forall_mem_cons.mpr ⟨List.subset_of_cons_subset hinner, houter⟩
  positions_perm := by
    have hpositions := h.positions_perm
    rw [List.flatMap_cons, Visit.positions_cons, List.append_assoc] at hpositions
    rw [positions_made_pass, List.flatMap_cons, List.append_assoc]
    exact hpositions

theorem seen_nodup_enter (h : p.Visiting g visits) (hnew : a.head ∉ p.seen) :
    (p.enter a).seen.Nodup :=
  h.seen_nodup.append (List.nodup_singleton _) (by simpa using hnew)

theorem seen_lt_enter (h : p.Visiting g visits) (hlt : a.head < g.nodeCount) :
    ∀ v ∈ (p.enter a).seen, v < g.nodeCount := by
  intro v hv
  rcases List.mem_append.mp hv with hv | hv
  · exact h.seen_lt v hv
  · rwa [List.mem_singleton.mp hv]

/-- The arc goes from what is ahead to what is classified, and the arcs of its head are ahead
instead. -/
theorem positions_perm_enter {others : List ℕ}
    (h : (p.made.map Prod.fst ++ (a.position?.toList ++ others)).Perm
      (p.seen.flatMap fun v => (leaving g.edges.toList v).map Prod.snd)) :
    ((p.enter a).made.map Prod.fst ++ (Visit.positions ⟨a, g.arcs a.head⟩ ++ others)).Perm
      ((p.enter a).seen.flatMap fun v => (leaving g.edges.toList v).map Prod.snd) := by
  rw [positions_made_enter, Visit.positions_arcs, Progress.enter, List.flatMap_append,
    List.flatMap_singleton]
  have hmore := h.append_right ((leaving g.edges.toList a.head).map Prod.snd)
  refine List.Perm.trans ?_ hmore
  simp only [List.append_assoc]
  exact ((List.perm_append_comm).append_left _).append_left _

/-- A seed finds a new node. -/
theorem enter_seed (h : p.Visiting g []) {r : ℕ} (hlt : r < g.nodeCount) (hnew : r ∉ p.seen) :
    (p.enter (.seed r)).Visiting g [⟨.seed r, g.arcs r⟩] where
  seen_nodup := h.seen_nodup_enter hnew
  seen_lt := h.seen_lt_enter hlt
  nodes_perm := by
    have hnodes := h.nodes_perm
    rw [List.map_nil, List.append_nil] at hnodes
    exact hnodes.append_right [r]
  found_inside := .singleton _
  root := by simp [Progress.enter_seed]
  ahead_subset := by simp [Visit.node, Arc.head]
  positions_perm := positions_perm_enter h.positions_perm

/-- An arc ahead finds a new node. -/
theorem enter (h : p.Visiting g (⟨via, a :: ahead⟩ :: outer)) (hlt : a.head < g.nodeCount)
    (hnew : a.head ∉ p.seen) :
    (p.enter a).Visiting g (⟨a, g.arcs a.head⟩ :: ⟨via, ahead⟩ :: outer) := by
  obtain ⟨hinner, houter⟩ := List.forall_mem_cons.mp h.ahead_subset
  have ha : a ∈ g.arcs via.head := hinner List.mem_cons_self
  refine ⟨h.seen_nodup_enter hnew, h.seen_lt_enter hlt, ?nodes, ?found, ?root, ?ahead, ?positions⟩
  case nodes =>
    exact List.perm_middle.trans
      ((h.nodes_perm.cons a.head).trans (List.perm_append_singleton _ _).symm)
  case found => exact List.isChain_cons_cons.mpr ⟨ha, h.found_inside⟩
  case root =>
    rw [Progress.enter, Digraph.root?_of_mem_arcs ha, Option.toList_none, List.append_nil]
    exact h.root
  case ahead =>
    refine List.forall_mem_cons.mpr ⟨List.Subset.refl _, List.forall_mem_cons.mpr ⟨?_, houter⟩⟩
    exact List.subset_of_cons_subset hinner
  case positions =>
    have hpositions := h.positions_perm
    rw [List.flatMap_cons, Visit.positions_cons, List.append_assoc] at hpositions
    exact positions_perm_enter hpositions

/-- Nothing is ahead in the innermost visit. -/
theorem leave (h : p.Visiting g (⟨via, []⟩ :: outer)) :
    (p.leave via.head).Visiting g outer where
  seen_nodup := h.seen_nodup
  seen_lt := h.seen_lt
  nodes_perm := by
    rw [Progress.leave, List.append_assoc]
    exact h.nodes_perm
  found_inside := h.found_inside.tail
  root a ha := h.root a (List.mem_getLast?_cons ha)
  ahead_subset := (List.forall_mem_cons.mp h.ahead_subset).2
  positions_perm := h.positions_perm

end Progress.Visiting

namespace Search

/-- What the loop comes back to: some node is under exploration, possibly with an arc on top
that leads from the innermost one to a node seen before, or none is and the next seed is on
the stack, if there is a next one. -/
inductive Midway (g : Digraph) : Search → Prop
  | exploring {p visits} (passed : Option Arc) (h : p.Visiting g visits) (hne : visits ≠ [])
      (hpassed : ∀ a ∈ passed, ∃ v ∈ visits.head?, a ∈ g.arcs v.node) :
      Midway g (ofProgress g p (stackOf passed visits))
  | between {p} (h : p.Visiting g []) : Midway g (reseed g (ofProgress g p []))

variable {g : Digraph} {s s' t : Search} {turns : List Turn}

theorem midway_start (g : Digraph) : Midway g (start g) := by
  rw [start, empty_eq]
  exact .between (.start g)

/-- An arc to a new node, on top of some visits, begins a visit of its own. -/
theorem step_enter_visits {p : Progress} {a : Arc} (visits : List Visit) (hg : g.Sound)
    (hlt : a.head < g.nodeCount) (hnew : a.head ∉ p.seen) :
    step g (ofProgress g p (a.frame :: visits.flatMap Visit.frames)) =
      .ok (ofProgress g (p.enter a) (stackOf none (⟨a, g.arcs a.head⟩ :: visits))) := by
  rw [step_enter _ hg hlt hnew]
  simp [stackOf, Visit.frames, Visit.frame]

namespace Midway

/-- The arc on top, which led to a node seen before, goes. -/
theorem of_step_passed {p : Progress} {visits : List Visit} {a : Arc} (h : p.Visiting g visits)
    (hne : visits ≠ [])
    (hstep : step g (ofProgress g p (stackOf (some a) visits)) = .ok s') : Midway g s' := by
  obtain ⟨v, outer, rfl⟩ := List.exists_cons_of_ne_nil hne
  have hretire := step_retire (g := g) (p := p) ((v :: outer).flatMap Visit.frames)
    (f := a.passedFrame) rfl (by simp)
  rw [if_neg (by simp [Visit.frames])] at hretire
  obtain rfl := Except.ok.inj (hretire.symm.trans hstep)
  exact .exploring none h hne (by simp)

/-- Nothing is ahead in the innermost visit, which ends. -/
theorem of_step_leave {p : Progress} {via : Arc} {outer : List Visit}
    (h : p.Visiting g (⟨via, []⟩ :: outer))
    (hstep : step g (ofProgress g p (stackOf none (⟨via, []⟩ :: outer))) = .ok s') :
    Midway g s' := by
  have hdone : via.head ∉ p.done := (h.mem_nodes_iff.mp List.mem_cons_self).2
  have hretire := step_retire (g := g) (p := p) (outer.flatMap Visit.frames)
    (f := (⟨via, []⟩ : Visit).frame) rfl fun _ => by simpa [Visit.frame] using hdone
  have hhead : (⟨via, []⟩ : Visit).frame.head = via.head := via.head_frame
  rw [hhead] at hretire
  obtain rfl := Except.ok.inj (hretire.symm.trans hstep)
  cases outer with
  | nil => exact .between h.leave
  | cons v outer =>
    rw [if_neg (by simp [Visit.frames])]
    exact .exploring none h.leave (by simp) (by simp)

/-- The next arc ahead in the innermost visit is examined. -/
theorem of_step_arc {p : Progress} {via a : Arc} {ahead : List Arc} {outer : List Visit}
    (hg : g.Sound) (h : p.Visiting g (⟨via, a :: ahead⟩ :: outer))
    (hstep : step g (ofProgress g p (stackOf none (⟨via, a :: ahead⟩ :: outer))) = .ok s') :
    Midway g s' := by
  have ha : a ∈ g.arcs via.head := h.ahead_subset _ List.mem_cons_self List.mem_cons_self
  by_cases hseen : a.head ∈ p.seen
  · obtain ⟨i, e, he, -, rfl⟩ := Digraph.mem_arcs.mp ha
    have hpass := step_pass ((⟨via, ahead⟩ :: outer).flatMap Visit.frames) hg he hseen
    obtain rfl := Except.ok.inj (hpass.symm.trans hstep)
    exact .exploring (some (.along i e)) (h.pass byNumber) (by simp)
      (by simpa [Visit.node] using ha)
  · have hlt := hg.arc_head_lt ha
    have henter := step_enter_visits (⟨via, ahead⟩ :: outer) hg hlt hseen
    obtain rfl := Except.ok.inj (henter.symm.trans hstep)
    exact .exploring none (h.enter hlt hseen) (by simp) (by simp)

/-- Between two trees, the seed on the stack is examined. -/
theorem of_step_seed {p : Progress} (hg : g.Sound) (h : p.Visiting g [])
    (hstack : (reseed g (ofProgress g p [])).stack ≠ [])
    (hstep : step g (reseed g (ofProgress g p [])) = .ok s') : Midway g s' := by
  have hlt : cursorIn g.nodeCount p.seen < g.nodeCount := by
    by_contra hge
    rw [reseed_ofProgress_of_le (Nat.le_of_not_lt hge)] at hstack
    exact hstack rfl
  have hnew := cursorIn_not_mem hlt
  have henter := step_enter_visits (a := .seed (cursorIn g.nodeCount p.seen)) [] hg hlt hnew
  rw [reseed_ofProgress_of_lt hlt] at hstep
  obtain rfl := Except.ok.inj (henter.symm.trans hstep)
  exact .exploring none (h.enter_seed hlt hnew) (by simp) (by simp)

theorem of_step (hg : g.Sound) (h : Midway g s) (hstack : s.stack ≠ [])
    (hstep : step g s = .ok s') : Midway g s' := by
  cases h with
  | @exploring p visits passed h hne hpassed =>
    match passed, visits with
    | some a, visits => exact of_step_passed h hne hstep
    | none, ⟨via, []⟩ :: outer => exact of_step_leave h hstep
    | none, ⟨via, a :: ahead⟩ :: outer => exact of_step_arc hg h hstep
  | between h => exact of_step_seed hg h hstack hstep

/-- A run never leaves what the loop comes back to. -/
theorem of_turns (hg : g.Sound) (h : Midway g s) (hrun : Turns g s turns t) : Midway g t := by
  induction hrun with
  | nil => exact h
  | cons hstack hstep _ ih => exact ih (h.of_step hg hstack hstep)

end Midway

end Search

end ClassicAlgorithms
