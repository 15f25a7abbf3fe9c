import ClassicAlgorithms.Graph.Search
import ClassicAlgorithms.Proofs.Graph.Forest
import ClassicAlgorithms.Proofs.Graph.Numbering

/-!
# Playing a forest

A search is followed through its forest by the lists that it grows: the nodes
discovered and finished so far, the classifications made and the roots. The
rule for an edge to a seen node is a parameter, so that one replay serves every
search. `moments` lists the arcs together with what was known when each of them
was examined; two rules that agree at all moments play the forest alike.
-/
namespace ClassicAlgorithms

/-- The kind of an edge to a seen node, given the nodes seen and done. -/
abbrev Rule := Edge → (seen done : List ℕ) → EdgeKind

/-- By the numbers of the two endpoints. -/
def byNumber : Rule := fun e seen done =>
  revisitKind (numberIn seen e.tail) (numberIn seen e.head) (numberIn done e.head)

/-- By the colour of the head, with the numbers as a second question. -/
def byColour : Rule := fun e seen done =>
  if e.head ∉ done then .back
  else if numberIn seen e.tail < numberIn seen e.head then .forward
  else .cross

namespace Arc

/-- What examining the arc decides: nothing for a seed. -/
def decision? (kind : Edge → EdgeKind) : Arc → Option (ℕ × EdgeKind)
  | seed _ => none
  | along i e => some (i, kind e)

/-- The root that the arc makes when it finds a new node. -/
def root? : Arc → Option ℕ
  | seed head => some head
  | along _ _ => none

theorem decision?_congr {a : Arc} {kind kind' : Edge → EdgeKind}
    (h : ∀ i e, a = .along i e → kind e = kind' e) : a.decision? kind = a.decision? kind' := by
  cases a with
  | seed head => rfl
  | along i e => simp [decision?, h i e rfl]

theorem map_fst_decision? (a : Arc) (kind : Edge → EdgeKind) :
    (a.decision? kind).map Prod.fst = a.position? := by
  cases a <;> rfl

end Arc

theorem Digraph.root?_of_mem_arcs {g : Digraph} {node : ℕ} {a : Arc} (ha : a ∈ g.arcs node) :
    a.root? = none := by
  obtain ⟨i, e, -, -, rfl⟩ := Digraph.mem_arcs.mp ha
  rfl

/-- Everything that a search has found out so far, in the order of finding out. -/
@[ext]
structure Progress where
  seen : List ℕ
  done : List ℕ
  made : List (ℕ × EdgeKind)
  roots : List ℕ

namespace Progress

def start : Progress := ⟨[], [], [], []⟩

/-- After an arc to a seen node. -/
def pass (rule : Rule) (p : Progress) (a : Arc) : Progress :=
  { p with made := p.made ++ (a.decision? fun e => rule e p.seen p.done).toList }

/-- After an arc has found its head. -/
def enter (p : Progress) (a : Arc) : Progress :=
  { p with
    seen := p.seen ++ [a.head]
    made := p.made ++ (a.decision? fun _ => .tree).toList
    roots := p.roots ++ a.root?.toList }

/-- After the last arc of `node`. -/
def leave (p : Progress) (node : ℕ) : Progress := { p with done := p.done ++ [node] }

theorem enter_along (p : Progress) (i : ℕ) (e : Edge) :
    p.enter (.along i e) =
      { p with seen := p.seen ++ [e.head], made := p.made ++ [(i, .tree)] } := by
  simp [enter, Arc.head, Arc.decision?, Arc.root?]

theorem enter_seed (p : Progress) (v : ℕ) :
    p.enter (.seed v) = { p with seen := p.seen ++ [v], roots := p.roots ++ [v] } := by
  simp [enter, Arc.head, Arc.decision?, Arc.root?]

/-- Only seen nodes are done. -/
def Consistent (p : Progress) : Prop := ∀ v ∈ p.done, v ∈ p.seen

theorem Consistent.start : start.Consistent := by simp [Consistent, Progress.start]

theorem Consistent.enter {p : Progress} (h : p.Consistent) (a : Arc) : (p.enter a).Consistent :=
  fun v hv => List.mem_append_left _ (h v hv)

end Progress

namespace Forest

/-- The progress after all arcs of the forest. -/
def play (rule : Rule) : Forest → Progress → Progress
  | nil, p => p
  | skip a rest, p => rest.play rule (p.pass rule a)
  | grow a below rest, p => rest.play rule ((below.play rule (p.enter a)).leave a.head)

/-- The heads of the seeds that found a new node. -/
def roots (F : Forest) : List ℕ := F.grown.filterMap Arc.root?

theorem roots_grow (a : Arc) (below rest : Forest) :
    (grow a below rest).roots = a.root?.toList ++ (below.roots ++ rest.roots) := by
  cases a <;> simp [roots, grown, List.filterMap_cons, Arc.root?]

theorem roots_append (F other : Forest) : (F.append other).roots = F.roots ++ other.roots := by
  rw [roots, grown_append, List.filterMap_append, ← roots, ← roots]

theorem roots_sublist (F : Forest) : F.roots.Sublist F.nodes := by
  rw [roots, ← F.map_head_grown]
  generalize F.grown = arcs
  induction arcs with
  | nil => simp
  | cons a rest ih =>
    cases a with
    | seed v => exact ih.cons_cons v
    | along i e => exact ih.cons e.head

variable (rule : Rule) (F : Forest) (p : Progress)

@[simp] theorem seen_play : (F.play rule p).seen = p.seen ++ F.nodes := by
  induction F generalizing p with
  | nil => simp [play, nodes]
  | skip a rest ih => simp [play, nodes, ih, Progress.pass]
  | grow a below rest ihb ihr =>
    simp [play, nodes, ihb, ihr, Progress.enter, Progress.leave]

@[simp] theorem done_play : (F.play rule p).done = p.done ++ F.finishes := by
  induction F generalizing p with
  | nil => simp [play, finishes]
  | skip a rest ih => simp [play, finishes, ih, Progress.pass]
  | grow a below rest ihb ihr =>
    simp [play, finishes, ihb, ihr, Progress.enter, Progress.leave]

@[simp] theorem roots_play : (F.play rule p).roots = p.roots ++ F.roots := by
  induction F generalizing p with
  | nil => simp [play, roots, grown]
  | skip a rest ih => simp [play, roots, grown, ih, Progress.pass]
  | grow a below rest ihb ihr =>
    simp [play, roots_grow, ihb, ihr, Progress.enter, Progress.leave]

end Forest

/-- An arc at its examination, with the nodes seen and done by then. -/
structure Moment where
  arc : Arc
  seen : List ℕ
  done : List ℕ

/-- An edge is a tree edge if its head is new, and of the kind of the rule if not. -/
def Moment.decision? (rule : Rule) (m : Moment) : Option (ℕ × EdgeKind) :=
  m.arc.decision? fun e => if e.head ∈ m.seen then rule e m.seen m.done else .tree

/-- The moments of the forest when it is entered with `seen` and `done`. -/
def Forest.moments : Forest → (seen done : List ℕ) → List Moment
  | nil, _, _ => []
  | skip a rest, seen, done => ⟨a, seen, done⟩ :: rest.moments seen done
  | grow a below rest, seen, done =>
    ⟨a, seen, done⟩ :: (below.moments (seen ++ [a.head]) done ++
      rest.moments (seen ++ a.head :: below.nodes) (done ++ (below.finishes ++ [a.head])))

theorem Forest.map_arc_moments (F : Forest) (seen done : List ℕ) :
    (F.moments seen done).map Moment.arc = F.arcs := by
  induction F generalizing seen done with
  | nil => rfl
  | skip a rest ih => simp [moments, arcs, ih]
  | grow a below rest ihb ihr => simp [moments, arcs, ihb, ihr]

/-- The nodes seen when a tree has been entered, explored and left. -/
theorem Forest.seen_leave_play (rule : Rule) (p : Progress) (a : Arc) (below : Forest) :
    ((below.play rule (p.enter a)).leave a.head).seen = p.seen ++ a.head :: below.nodes := by
  simp [Progress.leave, Progress.enter]

theorem Progress.Consistent.leave_play {p : Progress} (h : p.Consistent) (rule : Rule) (a : Arc)
    (below : Forest) : ((below.play rule (p.enter a)).leave a.head).Consistent := by
  intro v hv
  simp only [Progress.leave, Forest.done_play, Forest.seen_play, Progress.enter, List.mem_append,
    List.mem_singleton, Forest.mem_finishes] at hv ⊢
  rcases hv with (hv | hv) | hv
  · exact Or.inl (Or.inl (h v hv))
  · exact Or.inr hv
  · exact Or.inl (Or.inr hv)

namespace Explores

variable {g : Digraph} {seen : List ℕ} {arcs : List Arc} {F : Forest}

/-- A new head is not done before everything below it is. -/
theorem head_not_mem_done {p : Progress} {a : Arc} (h : Explores g (p.seen ++ [a.head]) arcs F)
    (hp : p.Consistent) (hnew : a.head ∉ p.seen) (rule : Rule) :
    a.head ∉ (F.play rule (p.enter a)).done := by
  simp only [Forest.done_play, Progress.enter, List.mem_append, Forest.mem_finishes, not_or]
  exact ⟨fun hd => hnew (hp _ hd), fun hb => h.fresh _ hb (by simp)⟩

/-- The classifications are those of the moments, in order. -/
theorem made_play (h : Explores g seen arcs F) (rule : Rule) (p : Progress) (hp : p.seen = seen) :
    (F.play rule p).made =
      p.made ++ (F.moments p.seen p.done).filterMap (Moment.decision? rule) := by
  induction h generalizing p with
  | nil => simp [Forest.play, Forest.moments]
  | @skip seen a arcs rest hseen hrest ih =>
    subst hp
    have hdecision : Moment.decision? rule ⟨a, p.seen, p.done⟩ =
        a.decision? fun e => rule e p.seen p.done :=
      Arc.decision?_congr fun i e ha => by subst ha; exact if_pos hseen
    have := ih (p.pass rule a) rfl
    rw [Forest.play, this]
    cases hd : a.decision? fun e => rule e p.seen p.done <;>
      simp [Progress.pass, Forest.moments, hdecision, hd]
  | @grow seen a arcs below rest hnew hbelow hrest ihb ihr =>
    subst hp
    have hdecision : Moment.decision? rule ⟨a, p.seen, p.done⟩ = a.decision? fun _ => .tree :=
      Arc.decision?_congr fun i e ha => by subst ha; exact if_neg hnew
    have hb := ihb (p.enter a) rfl
    have hr := ihr ((below.play rule (p.enter a)).leave a.head)
      (Forest.seen_leave_play rule p a below)
    rw [Forest.play, hr]
    simp only [Progress.leave, hb, Forest.seen_play, Forest.done_play]
    cases hd : a.decision? fun _ => .tree <;>
      simp [Progress.enter, Forest.moments, hdecision, hd]

/-- Rules that agree at all moments are interchangeable. -/
theorem play_congr (h : Explores g seen arcs F) {rule rule' : Rule} (p : Progress)
    (hp : p.seen = seen)
    (hagree : ∀ m ∈ F.moments p.seen p.done, ∀ i e, m.arc = .along i e → e.head ∈ m.seen →
      rule e m.seen m.done = rule' e m.seen m.done) :
    F.play rule p = F.play rule' p := by
  apply Progress.ext
  · simp
  · simp
  · rw [h.made_play rule p hp, h.made_play rule' p hp]
    congr 1
    apply List.filterMap_congr
    intro m hm
    apply Arc.decision?_congr
    intro i e ha
    split_ifs with hseen
    · exact hagree m hm i e ha hseen
    · rfl
  · simp

/-- The positions that are classified, in order. -/
theorem positions_made_play (h : Explores g seen arcs F) (rule : Rule) (p : Progress)
    (hp : p.seen = seen) :
    (F.play rule p).made.map Prod.fst =
      p.made.map Prod.fst ++ F.arcs.filterMap Arc.position? := by
  rw [h.made_play rule p hp, List.map_append, List.map_filterMap,
    ← F.map_arc_moments p.seen p.done, List.filterMap_map]
  congr 1
  apply List.filterMap_congr
  intro m _
  exact Arc.map_fst_decision? _ _

end Explores

end ClassicAlgorithms
