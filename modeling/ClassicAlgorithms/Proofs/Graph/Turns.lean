import ClassicAlgorithms.Graph.Search
import Mathlib.Data.List.Basic
import Mathlib.Data.List.Perm.Basic

/-!
# The turns of the stack search

A run of the loop is the list of its turns, each with the state before and the
state after. What a turn examines, retires, pushes and records is read off these
two states alone. Frames are neither lost nor made up: whatever was pushed is
examined and retired, and each examined edge is recorded once.
-/
namespace ClassicAlgorithms

/-- The frame as it was when it was pushed. -/
def Frame.renewed (f : Frame) : Frame := { f with stage := .pending }

@[simp] theorem Frame.edge_renewed (f : Frame) : f.renewed.edge = f.edge := rfl

/-- The root that the frame makes when it is a seed. -/
def Frame.root? (f : Frame) : Option ℕ := if f.edge = none then some f.head else none

namespace Search

structure Turn where
  before : Search
  after : Search

namespace Turn

/-- The frame that is examined, if the one on top has not been before. -/
def examined? (t : Turn) : Option Frame := t.before.stack.head?.filter fun f => f.stage = .pending

/-- The frame that is retired, if the one on top has been examined. -/
def retired? (t : Turn) : Option Frame := t.before.stack.head?.filter fun f => f.stage ≠ .pending

/-- How many frames outlive the turn. -/
def kept (t : Turn) : ℕ := t.before.stack.length - t.retired?.toList.length

/-- The frames on top of those that outlive the turn. -/
def pushed (t : Turn) : List Frame := t.after.stack.take (t.after.stack.length - t.kept)

/-- The classifications that were not there before the turn. -/
def recorded (t : Turn) : List (ℕ × EdgeKind) :=
  t.after.decisions.toList.drop t.before.decisions.size

end Turn

/-- The loop, from one state to another, with its turns. -/
inductive Turns (g : Digraph) : Search → List Turn → Search → Prop
  | nil {s} : Turns g s [] s
  | cons {s s' t turns} (hstack : s.stack ≠ []) (hstep : step g s = .ok s')
      (hrest : Turns g s' turns t) : Turns g s (⟨s, s'⟩ :: turns) t

variable {g : Digraph} {s s' t : Search} {turns : List Turn}

/-- The frame that starts the next tree, if a node is left for it. -/
def nextSeed (g : Digraph) (s : Search) : List Frame :=
  if s.cursor < g.nodeCount then [.seed s.cursor] else []

theorem reseed_eq (g : Digraph) (s : Search) :
    reseed g s = { s with stack := nextSeed g s ++ s.stack } := by
  unfold reseed nextSeed
  split_ifs <;> rfl

/-- The state after the head of a finished frame got its number, if one was owed. -/
def close (s : Search) (head : ℕ) (discovered : Bool) : Search :=
  if discovered then
    { s with
      postorder := s.postorder.setIfInBounds head s.nextPostorder
      nextPostorder := s.nextPostorder + 1 }
  else s

theorem retire_eq (g : Digraph) (s : Search) (head : ℕ) (discovered : Bool) :
    retire g s head discovered =
      if s.stack = [] then reseed g (s.close head discovered) else s.close head discovered := by
  cases discovered <;> simp [retire, close]

/-- Retiring pushes nothing but the seed of the next tree. -/
theorem retire_effect (g : Digraph) (s : Search) (head : ℕ) (discovered : Bool) :
    ∃ more, (retire g s head discovered).stack = more ++ s.stack ∧
      (∀ f ∈ more, f.stage = .pending ∧ f.edge = none) ∧
      (retire g s head discovered).decisions = s.decisions ∧
      (retire g s head discovered).roots = s.roots ∧
      (retire g s head discovered).preorder = s.preorder := by
  have hseed : ∀ f ∈ nextSeed g (s.close head discovered), f.stage = .pending ∧ f.edge = none := by
    unfold nextSeed
    split_ifs <;> simp [Frame.seed]
  rw [retire_eq, reseed_eq]
  split_ifs with h
  · exact ⟨_, by cases discovered <;> simp [close], hseed, by cases discovered <;> rfl,
      by cases discovered <;> rfl, by cases discovered <;> rfl⟩
  · exact ⟨[], by cases discovered <;> rfl, by simp, by cases discovered <;> rfl,
      by cases discovered <;> rfl, by cases discovered <;> rfl⟩

/-- Discovering a node records the edge as a tree edge, or the node as a root. -/
theorem discover_effect (g : Digraph) (s : Search) (frame : Frame) :
    (discover g s frame).stack = framesFrom g frame.head ++ s.stack ∧
      (discover g s frame).decisions.toList =
        s.decisions.toList ++ (frame.edge.map fun i => (i, EdgeKind.tree)).toList ∧
      (discover g s frame).roots.toList = s.roots.toList ++ frame.root?.toList ∧
      (discover g s frame).preorder = (s.visit frame.head).preorder := by
  cases h : frame.edge <;> simp [discover, enter, visit, record, Frame.root?, h]

/-- A frame pushed for an edge leads to the head of that edge. -/
def Frame.Fits (g : Digraph) (f : Frame) : Prop :=
  ∀ i, f.edge = some i → ∃ e, g.edges[i]? = some e ∧ f.head = e.head

theorem framesFrom_fits {node : ℕ} {f : Frame} (h : f ∈ framesFrom g node) :
    f.stage = .pending ∧ Frame.Fits g f := by
  simp only [framesFrom, List.mem_filterMap, Option.map_eq_some_iff] at h
  obtain ⟨i, -, e, he, rfl⟩ := h
  refine ⟨rfl, fun j hj => ?_⟩
  obtain rfl : i = j := by simpa [Frame.along] using hj
  exact ⟨e, he, rfl⟩

theorem step_of_explored {frame : Frame} {rest : List Frame} {discovered : Bool}
    (hstack : s.stack = frame :: rest) (hstage : frame.stage = .explored discovered) :
    step g s = .ok (retire g { s with stack := rest } frame.head discovered) := by
  simp only [step, hstack, hstage]

theorem step_of_new {frame : Frame} {rest : List Frame} (hstack : s.stack = frame :: rest)
    (hstage : frame.stage = .pending) (hnew : s.isVisited frame.head = false) :
    step g s =
      .ok (discover g { s with stack := { frame with stage := .explored true } :: rest }
        frame) := by
  simp only [step, hstack, hstage, hnew, Bool.not_false, if_true]

theorem step_of_visited {frame : Frame} {rest : List Frame} (hstack : s.stack = frame :: rest)
    (hstage : frame.stage = .pending) (hvisited : s.isVisited frame.head = true) :
    step g s =
      revisit g { s with stack := { frame with stage := .explored false } :: rest } frame := by
  simp only [step, hstack, hstage, hvisited, Bool.not_true, Bool.false_eq_true, if_false]

/-- Everything that a turn can do: retire the frame on top, follow it to a new
node, or classify its edge to a node visited before. -/
theorem step_cases {frame : Frame} {rest : List Frame} (hstack : s.stack = frame :: rest)
    (h : step g s = .ok s') :
    (∃ discovered, frame.stage = .explored discovered ∧
      s' = retire g { s with stack := rest } frame.head discovered) ∨
    (frame.stage = .pending ∧ s.isVisited frame.head = false ∧
      s' = discover g { s with stack := { frame with stage := .explored true } :: rest } frame) ∨
    (frame.stage = .pending ∧ s.isVisited frame.head = true ∧
      ∃ i e, frame.edge = some i ∧ g.edges[i]? = some e ∧
        s' = ({ s with stack := { frame with stage := .explored false } :: rest } : Search).record i
          (revisitKind (s.preorderOf e.tail) (s.preorderOf frame.head)
            (s.postorderOf frame.head))) := by
  cases hstage : frame.stage with
  | explored discovered =>
    rw [step_of_explored hstack hstage, Except.ok.injEq] at h
    exact Or.inl ⟨discovered, rfl, h.symm⟩
  | pending =>
    cases hvisited : s.isVisited frame.head with
    | false =>
      rw [step_of_new hstack hstage hvisited, Except.ok.injEq] at h
      exact Or.inr (Or.inl ⟨rfl, rfl, h.symm⟩)
    | true =>
      rw [step_of_visited hstack hstage hvisited, revisit] at h
      cases hedge : frame.edge with
      | none => simp [hedge] at h
      | some i =>
        cases he : g.edges[i]? with
        | none => simp [hedge, he] at h
        | some e =>
          simp only [hedge, he, Except.ok.injEq] at h
          exact Or.inr (Or.inr ⟨rfl, rfl, i, e, rfl, he, h.symm⟩)

namespace Turn

variable {frame : Frame} {rest : List Frame}

theorem pushed_eq {t : Turn} {more stay : List Frame} (hafter : t.after.stack = more ++ stay)
    (hkept : t.kept = stay.length) : t.pushed = more := by
  simp [pushed, hafter, hkept]

theorem recorded_eq {t : Turn} (made : List (ℕ × EdgeKind))
    (h : t.after.decisions.toList = t.before.decisions.toList ++ made) : t.recorded = made := by
  simp [recorded, h]

theorem examined?_pending {t : Turn} (hstack : t.before.stack = frame :: rest)
    (hstage : frame.stage = .pending) : t.examined? = some frame ∧ t.retired? = none := by
  simp [examined?, retired?, hstack, hstage]

theorem examined?_explored {t : Turn} (hstack : t.before.stack = frame :: rest)
    {discovered : Bool} (hstage : frame.stage = .explored discovered) :
    t.examined? = none ∧ t.retired? = some frame := by
  simp [examined?, retired?, hstack, hstage]

end Turn

/-- The frames that are still to be examined. -/
def waiting (s : Search) : List Frame := s.stack.filter fun f => f.stage = .pending

/-- What becomes of the frames between two states: everything on the stack or
pushed is retired or still there, every frame that waited or was pushed is
examined or still waits, and each examined edge or seed leaves its record. -/
structure Account (s t : Search) (pushed examined retired : List Frame)
    (recorded : List (ℕ × EdgeKind)) : Prop where
  pushed_pending : ∀ f ∈ pushed, f.stage = .pending
  retired_perm : ((s.stack ++ pushed).map Frame.renewed).Perm
    ((retired ++ t.stack).map Frame.renewed)
  examined_perm : (s.waiting ++ pushed).Perm (examined ++ t.waiting)
  decisions_eq : t.decisions.toList = s.decisions.toList ++ recorded
  recorded_eq : recorded.map Prod.fst = examined.filterMap Frame.edge
  roots_eq : t.roots.toList = s.roots.toList ++ examined.filterMap Frame.root?

namespace Account

protected theorem refl (s : Search) : Account s s [] [] [] [] where
  pushed_pending := by simp
  retired_perm := by simp
  examined_perm := by simp
  decisions_eq := by simp
  recorded_eq := rfl
  roots_eq := by simp

theorem trans {u : Search} {p e r p' e' r' : List Frame} {d d' : List (ℕ × EdgeKind)}
    (h : Account s t p e r d) (h' : Account t u p' e' r' d') :
    Account s u (p ++ p') (e ++ e') (r ++ r') (d ++ d') where
  pushed_pending f hf := (List.mem_append.mp hf).elim (h.pushed_pending f) (h'.pushed_pending f)
  retired_perm := by
    have hleft := h.retired_perm.append_right (p'.map Frame.renewed)
    have hright := h'.retired_perm.append_left (r.map Frame.renewed)
    simp only [List.map_append, List.append_assoc] at hleft hright ⊢
    exact hleft.trans hright
  examined_perm := by
    have hleft := h.examined_perm.append_right p'
    have hright := h'.examined_perm.append_left e
    simp only [List.append_assoc] at hleft hright ⊢
    exact hleft.trans hright
  decisions_eq := by rw [h'.decisions_eq, h.decisions_eq, List.append_assoc]
  recorded_eq := by rw [List.map_append, List.filterMap_append, h.recorded_eq, h'.recorded_eq]
  roots_eq := by rw [h'.roots_eq, h.roots_eq, List.filterMap_append, List.append_assoc]

/-- Retiring the frame on top. -/
theorem of_retire {frame : Frame} {rest more : List Frame} {discovered : Bool}
    (hstack : s.stack = frame :: rest) (hstage : frame.stage = .explored discovered)
    (hafter : t.stack = more ++ rest) (hmore : ∀ f ∈ more, f.stage = .pending)
    (hdecisions : t.decisions = s.decisions) (hroots : t.roots = s.roots) :
    Account s t more [] [frame] [] where
  pushed_pending := hmore
  retired_perm := by
    simp only [hstack, hafter, List.map_append, List.map_cons, List.cons_append, List.nil_append]
    exact List.perm_append_comm.cons _
  examined_perm := by
    have hwait : more.filter (fun f => f.stage = .pending) = more :=
      List.filter_eq_self.mpr (by simpa using hmore)
    simp only [waiting, hstack, hafter, List.filter_append, hwait, List.nil_append]
    simpa [hstage] using List.perm_append_comm
  decisions_eq := by simp [hdecisions]
  recorded_eq := rfl
  roots_eq := by simp [hroots]

/-- Examining the frame on top. -/
theorem of_examine {frame : Frame} {rest more : List Frame} {discovered : Bool}
    {made : List (ℕ × EdgeKind)}
    (hstack : s.stack = frame :: rest) (hstage : frame.stage = .pending)
    (hafter : t.stack = more ++ { frame with stage := .explored discovered } :: rest)
    (hmore : ∀ f ∈ more, f.stage = .pending)
    (hdecisions : t.decisions.toList = s.decisions.toList ++ made)
    (hmade : made.map Prod.fst = frame.edge.toList)
    (hroots : t.roots.toList = s.roots.toList ++ frame.root?.toList) :
    Account s t more [frame] [] made where
  pushed_pending := hmore
  retired_perm := by
    simp only [hstack, hafter, List.map_append, List.map_cons, List.cons_append, List.nil_append]
    exact (List.perm_append_comm.cons _).trans List.perm_middle.symm
  examined_perm := by
    have hwait : more.filter (fun f => f.stage = .pending) = more :=
      List.filter_eq_self.mpr (by simpa using hmore)
    simp only [waiting, hstack, hafter, List.filter_append, hwait]
    simpa [hstage] using List.perm_append_comm
  decisions_eq := hdecisions
  recorded_eq := by cases h : frame.edge <;> simp [hmade, h]
  roots_eq := by cases h : frame.root? <;> simp [hroots, h]

end Account

/-- A turn accounts for its own frames. -/
def Turn.Accounted (t : Turn) : Prop :=
  Account t.before t.after t.pushed t.examined?.toList t.retired?.toList t.recorded

theorem Turn.accounted_of_retire {t : Turn} {frame : Frame} {rest more : List Frame}
    {discovered : Bool} (hstack : t.before.stack = frame :: rest)
    (hstage : frame.stage = .explored discovered) (hafter : t.after.stack = more ++ rest)
    (hmore : ∀ f ∈ more, f.stage = .pending) (hdecisions : t.after.decisions = t.before.decisions)
    (hroots : t.after.roots = t.before.roots) : t.Accounted := by
  obtain ⟨hexamined, hretired⟩ := examined?_explored hstack hstage
  rw [Accounted, pushed_eq hafter (by simp [kept, hretired, hstack]), hexamined, hretired,
    recorded_eq [] (by simp [hdecisions])]
  exact .of_retire hstack hstage hafter hmore hdecisions hroots

theorem Turn.accounted_of_examine {t : Turn} {frame : Frame} {rest : List Frame}
    (more : List Frame) (discovered : Bool) {made : List (ℕ × EdgeKind)}
    (hstack : t.before.stack = frame :: rest) (hstage : frame.stage = .pending)
    (hafter : t.after.stack = more ++ { frame with stage := .explored discovered } :: rest)
    (hmore : ∀ f ∈ more, f.stage = .pending)
    (hdecisions : t.after.decisions.toList = t.before.decisions.toList ++ made)
    (hmade : made.map Prod.fst = frame.edge.toList)
    (hroots : t.after.roots.toList = t.before.roots.toList ++ frame.root?.toList) :
    t.Accounted := by
  obtain ⟨hexamined, hretired⟩ := examined?_pending hstack hstage
  rw [Accounted, pushed_eq hafter (by simp [kept, hretired, hstack]), hexamined, hretired,
    recorded_eq made hdecisions]
  exact .of_examine hstack hstage hafter hmore hdecisions hmade hroots

/-- Every turn of the loop accounts for its frames. -/
theorem accounted_of_step (hstack : s.stack ≠ []) (hstep : step g s = .ok s') :
    (Turn.mk s s').Accounted := by
  obtain ⟨frame, rest, hs⟩ := List.exists_cons_of_ne_nil hstack
  rcases step_cases hs hstep with ⟨d, hstage, rfl⟩ | ⟨hstage, -, rfl⟩ |
    ⟨hstage, -, i, e, hedge, -, rfl⟩
  · obtain ⟨more, hafter, hmore, hdecisions, hroots, -⟩ :=
      retire_effect g { s with stack := rest } frame.head d
    exact Turn.accounted_of_retire hs hstage hafter (fun f hf => (hmore f hf).1) hdecisions hroots
  · obtain ⟨hafter, hdecisions, hroots, -⟩ := discover_effect g
      { s with stack := { frame with stage := .explored true } :: rest } frame
    exact Turn.accounted_of_examine _ _ hs hstage hafter (fun f hf => (framesFrom_fits hf).1)
      hdecisions (by cases frame.edge <;> rfl) hroots
  · exact Turn.accounted_of_examine [] false hs hstage rfl (by simp)
      Array.toList_push (by simp [hedge])
      (by simp [record, Frame.root?, hedge])

namespace Turns

/-- What a run pushes, examines, retires and records adds up. -/
theorem account (h : Turns g s turns t) :
    Account s t (turns.flatMap Turn.pushed) (turns.filterMap Turn.examined?)
      (turns.filterMap Turn.retired?) (turns.flatMap Turn.recorded) := by
  induction h with
  | nil => exact .refl _
  | @cons s s' t turns hstack hstep hrest ih =>
    have hconcat (f : Turn → Option Frame) :
        (Turn.mk s s' :: turns).filterMap f = (f ⟨s, s'⟩).toList ++ turns.filterMap f := by
      cases h : f ⟨s, s'⟩ <;> simp [h]
    rw [hconcat, hconcat, List.flatMap_cons, List.flatMap_cons]
    exact Account.trans (accounted_of_step hstack hstep) ih

/-- A turn either examines a frame or retires one. -/
theorem length_eq (h : Turns g s turns t) :
    turns.length =
      (turns.filterMap Turn.examined?).length + (turns.filterMap Turn.retired?).length := by
  induction h with
  | nil => rfl
  | @cons s s' t turns hstack hstep hrest ih =>
    obtain ⟨frame, rest, hs⟩ := List.exists_cons_of_ne_nil hstack
    cases hstage : frame.stage with
    | pending =>
      obtain ⟨hexamined, hretired⟩ := Turn.examined?_pending (t := ⟨s, s'⟩) hs hstage
      simp only [List.filterMap_cons, hexamined, hretired, List.length_cons]
      omega
    | explored discovered =>
      obtain ⟨hexamined, hretired⟩ := Turn.examined?_explored (t := ⟨s, s'⟩) hs hstage
      simp only [List.filterMap_cons, hexamined, hretired, List.length_cons]
      omega

theorem trans {u : Search} {more : List Turn} (h : Turns g s turns t) (h' : Turns g t more u) :
    Turns g s (turns ++ more) u := by
  induction h with
  | nil => exact h'
  | cons hstack hstep hrest ih => exact .cons hstack hstep (ih h')

/-- A run can be cut at any of its turns. -/
theorem split {earlier later : List Turn} {turn : Turn}
    (h : Turns g s (earlier ++ turn :: later) t) :
    Turns g s earlier turn.before ∧ turn.before.stack ≠ [] ∧
      step g turn.before = .ok turn.after ∧ Turns g turn.after later t := by
  induction earlier generalizing s with
  | nil =>
    cases h with
    | cons hstack hstep hrest => exact ⟨.nil, hstack, hstep, hrest⟩
  | cons first earlier ih =>
    cases h with
    | cons hstack hstep hrest =>
      obtain ⟨hearlier, hturn⟩ := ih hrest
      exact ⟨.cons hstack hstep hearlier, hturn⟩

/-- A turn is determined by the state before it, so every run is a beginning of
the run that empties the stack. -/
theorem exists_append {earlier : List Turn} {u : Search} (h : Turns g s turns t)
    (hdone : t.stack = []) (hearlier : Turns g s earlier u) :
    ∃ later, turns = earlier ++ later ∧ Turns g u later t := by
  induction hearlier generalizing turns with
  | nil => exact ⟨turns, rfl, h⟩
  | cons hstack hstep _ ih =>
    cases h with
    | nil => exact absurd hdone hstack
    | cons _ hstep' hrest' =>
      obtain rfl := Except.ok.inj (hstep.symm.trans hstep')
      obtain ⟨later, rfl, hlater⟩ := ih hrest'
      exact ⟨later, rfl, hlater⟩

/-- Enough turns are as good as any number of turns. -/
theorem run_eq (h : Turns g s turns t) (hdone : t.stack = []) {limit : ℕ}
    (hlimit : turns.length ≤ limit) : run g limit s = .ok t := by
  induction h generalizing limit with
  | nil => cases limit <;> simp [run, hdone]
  | cons hstack hstep hrest ih =>
    obtain ⟨limit, rfl⟩ : ∃ k, limit = k + 1 := ⟨limit - 1, by simp at hlimit; omega⟩
    rw [run, if_neg (by simpa using hstack), hstep]
    exact ih hdone (by simpa using hlimit)

end Turns

end Search

end ClassicAlgorithms
