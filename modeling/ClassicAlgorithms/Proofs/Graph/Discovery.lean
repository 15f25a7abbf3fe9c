import ClassicAlgorithms.Proofs.Graph.Build
import ClassicAlgorithms.Proofs.Graph.Turns

/-!
# Which edge discovers a node

Nodes stay visited, and an edge that is examined while its head is unvisited
visits it in the same turn. Hence the edge that is recorded as a tree edge is the
first edge into its head, among all that the run examines, to find it unvisited.
-/
namespace ClassicAlgorithms

theorem revisitKind_ne_tree (preTail preHead postHead : ℕ) :
    revisitKind preTail preHead postHead ≠ .tree := by
  unfold revisitKind
  split_ifs <;> simp

namespace Search

/-- The edge at `i` is examined in the turn. -/
def Turn.Examines (t : Turn) (i : ℕ) : Prop := ∃ f, t.examined? = some f ∧ f.edge = some i

/-- In the run, the edge at `i` is examined while `head` is unvisited, and each edge
into `head` that was examined before found it visited. -/
def FirstToFind (g : Digraph) (turns : List Turn) (i head : ℕ) : Prop :=
  ∃ earlier turn later, turns = earlier ++ turn :: later ∧ turn.Examines i ∧
    turn.before.isVisited head = false ∧
    ∀ t ∈ earlier, ∀ j d, t.Examines j → g.edges[j]? = some d → d.head = head →
      t.before.isVisited head = true

/-- What every state of a run keeps: frames lead to the heads of their edges, and
there is a number for each node. -/
structure Coherent (g : Digraph) (s : Search) : Prop where
  fits : ∀ f ∈ s.stack, Frame.Fits g f
  size_preorder : s.preorder.size = g.nodeCount

variable {g : Digraph} {s s' t : Search} {turns : List Turn} {v : ℕ}

theorem size_preorder_visit (s : Search) (node : ℕ) :
    (s.visit node).preorder.size = s.preorder.size := by
  simp [visit]

theorem isVisited_congr (h : t.preorder = s.preorder) (v : ℕ) : t.isVisited v = s.isVisited v := by
  rw [isVisited, isVisited, preorderOf, preorderOf, h]

/-- Visiting a node makes it visited. -/
theorem isVisited_visit_self {node : ℕ} (h : node < s.preorder.size) :
    (s.visit node).isVisited node = true := by
  simp [isVisited, preorderOf, visit, h]

/-- A visited node stays visited when a node is visited. -/
theorem isVisited_visit (node : ℕ) (h : s.isVisited v = true) :
    (s.visit node).isVisited v = true := by
  have hv : v < s.preorder.size := by
    by_contra hout
    simp [isVisited, preorderOf, hout] at h
  by_cases heq : node = v
  · subst heq
    exact isVisited_visit_self hv
  · simpa [isVisited, preorderOf, visit, hv, heq, Array.getElem_setIfInBounds] using h

namespace Coherent

protected theorem start (g : Digraph) : Coherent g (start g) where
  fits := by
    intro f hf
    simp only [Search.start, reseed_eq, empty, List.append_nil, nextSeed] at hf
    split_ifs at hf
    · rw [List.mem_singleton.mp hf]
      intro i hi
      simp [Frame.seed] at hi
    · simp at hf
  size_preorder := by simp [Search.start, reseed_eq, empty]

theorem step (h : Coherent g s) (hstack : s.stack ≠ []) (hstep : step g s = .ok s') :
    Coherent g s' := by
  obtain ⟨frame, rest, hs⟩ := List.exists_cons_of_ne_nil hstack
  have hframe := h.fits frame (by rw [hs]; exact List.mem_cons_self)
  have hrest : ∀ f ∈ rest, Frame.Fits g f :=
    fun f hf => h.fits f (by rw [hs]; exact List.mem_cons_of_mem _ hf)
  rcases step_cases hs hstep with ⟨d, -, rfl⟩ | ⟨-, -, rfl⟩ | ⟨-, -, i, e, -, -, rfl⟩
  · obtain ⟨more, hafter, hmore, -, -, hpreorder⟩ :=
      retire_effect g { s with stack := rest } frame.head d
    constructor
    · intro f hf
      rcases List.mem_append.mp (hafter ▸ hf) with hf | hf
      · intro i hi
        simp [(hmore f hf).2] at hi
      · exact hrest f hf
    · rw [hpreorder]
      exact h.size_preorder
  · obtain ⟨hafter, -, -, hpreorder⟩ := discover_effect g
      { s with stack := { frame with stage := .explored true } :: rest } frame
    constructor
    · intro f hf
      rcases List.mem_append.mp (hafter ▸ hf) with hf | hf
      · exact (framesFrom_fits hf).2
      · rcases List.mem_cons.mp hf with rfl | hf
        · exact hframe
        · exact hrest f hf
    · rw [hpreorder, size_preorder_visit]
      exact h.size_preorder
  · constructor
    · intro f hf
      rcases List.mem_cons.mp hf with rfl | hf
      · exact hframe
      · exact hrest f hf
    · exact h.size_preorder

end Coherent

theorem Turns.coherent (h : Turns g s turns t) (hs : Coherent g s) : Coherent g t := by
  induction h with
  | nil => exact hs
  | cons hstack hstep _ ih => exact ih (hs.step hstack hstep)

/-- A visited node stays visited. -/
theorem isVisited_step (hstack : s.stack ≠ []) (hstep : step g s = .ok s')
    (h : s.isVisited v = true) : s'.isVisited v = true := by
  obtain ⟨frame, rest, hs⟩ := List.exists_cons_of_ne_nil hstack
  rcases step_cases hs hstep with ⟨d, -, rfl⟩ | ⟨-, -, rfl⟩ | ⟨-, -, i, e, -, -, rfl⟩
  · obtain ⟨more, -, -, -, -, hpreorder⟩ := retire_effect g { s with stack := rest } frame.head d
    rwa [isVisited_congr hpreorder]
  · obtain ⟨-, -, -, hpreorder⟩ := discover_effect g
      { s with stack := { frame with stage := .explored true } :: rest } frame
    rw [isVisited_congr hpreorder]
    exact isVisited_visit (s := { s with stack := _ }) frame.head h
  · exact h

theorem Turns.isVisited (h : Turns g s turns t) (hv : s.isVisited v = true) :
    t.isVisited v = true := by
  induction h with
  | nil => exact hv
  | cons hstack hstep _ ih => exact ih (isVisited_step hstack hstep hv)

/-- A turn records a tree edge when it examines an edge whose head is unvisited. -/
theorem tree_mem_recorded_iff (hstack : s.stack ≠ []) (hstep : step g s = .ok s') {i : ℕ} :
    (i, EdgeKind.tree) ∈ (Turn.mk s s').recorded ↔
      ∃ f, (Turn.mk s s').examined? = some f ∧ f.edge = some i ∧ s.isVisited f.head = false := by
  obtain ⟨frame, rest, hs⟩ := List.exists_cons_of_ne_nil hstack
  rcases step_cases hs hstep with ⟨d, hstage, rfl⟩ | ⟨hstage, hnew, rfl⟩ |
    ⟨hstage, hvisited, j, e, hedge, -, rfl⟩
  · obtain ⟨-, -, -, hdecisions, -⟩ := retire_effect g { s with stack := rest } frame.head d
    rw [Turn.recorded_eq [] (by simp [hdecisions]),
      (Turn.examined?_explored (by exact hs) hstage).1]
    simp
  · obtain ⟨-, hdecisions, -⟩ := discover_effect g
      { s with stack := { frame with stage := .explored true } :: rest } frame
    rw [Turn.recorded_eq _ hdecisions, (Turn.examined?_pending (by exact hs) hstage).1]
    cases hedge : frame.edge with
    | none => simp [hedge]
    | some j => simp [hedge, hnew, Eq.comm (a := i)]
  · rw [Turn.recorded_eq _ Array.toList_push, (Turn.examined?_pending (by exact hs) hstage).1]
    constructor
    · intro hmem
      exact absurd (congrArg Prod.snd (List.mem_singleton.mp hmem)).symm (revisitKind_ne_tree _ _ _)
    · rintro ⟨f, hf, -, hnew⟩
      obtain rfl := Option.some.inj hf
      simp [hvisited] at hnew

/-- Whatever a turn examines has a visited head afterwards. -/
theorem isVisited_of_examined {f : Frame} (hstack : s.stack ≠ []) (hstep : step g s = .ok s')
    (hexamined : (Turn.mk s s').examined? = some f) (hf : f.head < s.preorder.size) :
    s'.isVisited f.head = true := by
  obtain ⟨frame, rest, hs⟩ := List.exists_cons_of_ne_nil hstack
  rcases step_cases hs hstep with ⟨d, hstage, rfl⟩ | ⟨hstage, -, rfl⟩ |
    ⟨hstage, hvisited, i, e, -, -, rfl⟩
  · rw [(Turn.examined?_explored (by exact hs) hstage).1] at hexamined
    simp at hexamined
  · rw [(Turn.examined?_pending (by exact hs) hstage).1, Option.some.injEq] at hexamined
    subst hexamined
    obtain ⟨-, -, -, hpreorder⟩ := discover_effect g
      { s with stack := { frame with stage := .explored true } :: rest } frame
    rw [isVisited_congr hpreorder]
    exact isVisited_visit_self (s := { s with stack := _ }) hf
  · rw [(Turn.examined?_pending (by exact hs) hstage).1, Option.some.injEq] at hexamined
    subst hexamined
    exact hvisited

theorem mem_stack_of_examined {t : Turn} {f : Frame} (h : t.examined? = some f) :
    f ∈ t.before.stack :=
  List.mem_of_mem_head? (Option.filter_eq_some_iff.mp h).1

namespace Turns

/-- What an examined edge leads to is visited for the rest of the run. -/
theorem isVisited_of_examines (hg : g.Sound) {turn : Turn} {earlier later : List Turn}
    (h : Turns g s (earlier ++ turn :: later) t) (hs : Coherent g s) {i : ℕ} {e : Edge}
    (hi : turn.Examines i) (he : g.edges[i]? = some e) : t.isVisited e.head = true := by
  obtain ⟨hbefore, hstack, hstep, hafter⟩ := h.split
  obtain ⟨f, hf, hedge⟩ := hi
  have hcoherent := hbefore.coherent hs
  obtain ⟨d, hd, hhead⟩ := hcoherent.fits f (mem_stack_of_examined hf) i hedge
  obtain rfl := Option.some.inj (he.symm.trans hd)
  have hlt : f.head < turn.before.preorder.size := by
    rw [hcoherent.size_preorder, hhead]
    exact hg.head_lt_of_getElem? he
  rw [← hhead]
  exact hafter.isVisited (isVisited_of_examined hstack hstep hf hlt)

/-- The edges recorded as tree edges are the first to find their heads unvisited. -/
theorem tree_recorded_iff (hg : g.Sound) (h : Turns g (start g) turns t) {i : ℕ} {e : Edge}
    (he : g.edges[i]? = some e) :
    (i, EdgeKind.tree) ∈ turns.flatMap Turn.recorded ↔ FirstToFind g turns i e.head := by
  have hfits : ∀ {earlier turn later f}, turns = earlier ++ turn :: later →
      turn.examined? = some f → f.edge = some i → f.head = e.head := by
    intro earlier turn later f hturns hf hedge
    obtain ⟨hbefore, -⟩ := (hturns ▸ h).split
    obtain ⟨d, hd, hhead⟩ :=
      (hbefore.coherent (.start g)).fits f (mem_stack_of_examined hf) i hedge
    rw [hhead, Option.some.inj (he.symm.trans hd)]
  constructor
  · intro hmem
    obtain ⟨turn, hturn, hrecorded⟩ := List.mem_flatMap.mp hmem
    obtain ⟨earlier, later, hturns⟩ := List.append_of_mem hturn
    obtain ⟨hbefore, hstack, hstep, -⟩ := (hturns ▸ h).split
    obtain ⟨f, hf, hedge, hnew⟩ := (tree_mem_recorded_iff hstack hstep).mp hrecorded
    rw [hfits hturns hf hedge] at hnew
    refine ⟨earlier, turn, later, hturns, ⟨f, hf, hedge⟩, hnew, ?_⟩
    -- An earlier edge into the same head would have left it visited.
    intro u hu j d hj hd hhead
    obtain ⟨first, second, rfl⟩ := List.append_of_mem hu
    have hvisited := hbefore.isVisited_of_examines hg (.start g) hj hd
    rw [hhead, hnew] at hvisited
    exact absurd hvisited Bool.false_ne_true
  · rintro ⟨earlier, turn, later, hturns, ⟨f, hf, hedge⟩, hnew, -⟩
    obtain ⟨-, hstack, hstep, -⟩ := (hturns ▸ h).split
    refine List.mem_flatMap.mpr ⟨turn, by simp [hturns], ?_⟩
    rw [← hfits hturns hf hedge] at hnew
    exact (tree_mem_recorded_iff hstack hstep).mpr ⟨f, hf, hedge, hnew⟩

end Turns

end Search

end ClassicAlgorithms
