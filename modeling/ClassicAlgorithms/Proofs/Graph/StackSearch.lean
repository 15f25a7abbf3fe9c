import ClassicAlgorithms.Proofs.Graph.Tables
import ClassicAlgorithms.Proofs.Graph.Turns

/-!
# The stack search plays the forest

Apart from its stack, the state of the search is the table form of its progress.
With the frames of some arcs on top of other frames, the search plays the forest
of these arcs by the rule of numbers and comes back to the other frames. When
nothing lies below, it goes on with the smallest node left, which is the next
seed that finds a new node.
-/
namespace ClassicAlgorithms

def Arc.frame : Arc → Frame
  | seed head => .seed head
  | along i e => .along i e.head

@[simp] theorem Arc.head_frame (a : Arc) : a.frame.head = a.head := by cases a <;> rfl

@[simp] theorem Arc.stage_frame (a : Arc) : a.frame.stage = .pending := by cases a <;> rfl

section
variable {numbers : Array ℕ} {cursor : ℕ}

theorem firstUnnumbered_of_zero (hlt : cursor < numbers.size) (hzero : numbers[cursor] = 0) :
    firstUnnumbered numbers cursor = cursor := by
  rw [firstUnnumbered, dif_pos hlt, if_pos hzero]

theorem firstUnnumbered_of_size_le (h : numbers.size ≤ cursor) :
    firstUnnumbered numbers cursor = cursor := by
  rw [firstUnnumbered, dif_neg (by omega)]

theorem firstUnnumbered_succ (hlt : cursor < numbers.size) (hnumber : numbers[cursor] ≠ 0) :
    firstUnnumbered numbers cursor = firstUnnumbered numbers (cursor + 1) := by
  rw [firstUnnumbered, dif_pos hlt, if_neg hnumber]

/-- Positions with a number may be left out of the scan. -/
theorem firstUnnumbered_skip (numbers : Array ℕ) (cursor : ℕ) (hle : cursor ≤ numbers.size)
    (h : ∀ i, i < cursor → ∀ hi : i < numbers.size, numbers[i] ≠ 0) :
    firstUnnumbered numbers 0 = firstUnnumbered numbers cursor := by
  induction cursor with
  | zero => rfl
  | succ c ih =>
    rw [ih (by omega) fun i hi => h i (by omega),
      firstUnnumbered_succ (by omega) (h c (by omega) (by omega))]

/-- Every position before the result has a number. -/
theorem number_of_lt_firstUnnumbered {i : ℕ} (hc : cursor ≤ i)
    (hi : i < firstUnnumbered numbers cursor) : ∀ h : i < numbers.size, numbers[i] ≠ 0 := by
  fun_induction firstUnnumbered numbers cursor with
  | case1 cursor hlt hzero => omega
  | case2 cursor hlt hnumber ih =>
    intro h
    by_cases heq : cursor = i
    · subst heq
      exact hnumber
    · exact ih (by omega) hi h
  | case3 cursor hge => omega

/-- The result itself, if it is a position, has none. -/
theorem getElem_firstUnnumbered (numbers : Array ℕ) (cursor : ℕ)
    (h : firstUnnumbered numbers cursor < numbers.size) :
    numbers[firstUnnumbered numbers cursor] = 0 := by
  fun_induction firstUnnumbered numbers cursor with
  | case1 cursor hlt hzero => exact hzero
  | case2 cursor hlt hnumber ih => exact ih h
  | case3 cursor hge => exact absurd h hge

theorem firstUnnumbered_le_size (numbers : Array ℕ) (hc : cursor ≤ numbers.size) :
    firstUnnumbered numbers cursor ≤ numbers.size := by
  fun_induction firstUnnumbered numbers cursor with
  | case1 cursor hlt hzero => exact hc
  | case2 cursor hlt hnumber ih => exact ih hlt
  | case3 cursor hge => exact hc

end

/-- The smallest node below `n` that is not in `seen`, or `n`. -/
def cursorIn (n : ℕ) (seen : List ℕ) : ℕ := firstUnnumbered (table n (numberIn seen)) 0

section
variable {n : ℕ} {seen : List ℕ}

theorem cursorIn_le (n : ℕ) (seen : List ℕ) : cursorIn n seen ≤ n := by
  simpa [cursorIn] using firstUnnumbered_le_size (table n (numberIn seen)) (Nat.zero_le _)

theorem mem_of_lt_cursorIn {v : ℕ} (hv : v < cursorIn n seen) : v ∈ seen := by
  have hn : v < n := Nat.lt_of_lt_of_le hv (cursorIn_le n seen)
  simpa [table] using number_of_lt_firstUnnumbered (Nat.zero_le v) hv (by simpa using hn)

theorem cursorIn_not_mem (h : cursorIn n seen < n) : cursorIn n seen ∉ seen := by
  have hnumber := getElem_firstUnnumbered (table n (numberIn seen)) 0 (by rwa [size_table])
  simpa [table, cursorIn] using hnumber

/-- Scanning on from the old cursor finds the new one. -/
theorem firstUnnumbered_cursorIn (n : ℕ) (seen new : List ℕ) :
    firstUnnumbered (table n (numberIn (seen ++ new))) (cursorIn n seen) =
      cursorIn n (seen ++ new) := by
  refine (firstUnnumbered_skip _ _ ?_ ?_).symm
  · simpa using cursorIn_le n seen
  · intro i hi _
    have hold := mem_of_lt_cursorIn hi
    simp [table, hold]

theorem cursorIn_eq {k : ℕ} (hk : k ≤ n) (hseen : ∀ v < k, v ∈ seen) (hnew : k < n → k ∉ seen) :
    cursorIn n seen = k := by
  have hskip := firstUnnumbered_skip (table n (numberIn seen)) k
    (by simpa using hk) fun i hi _ => by simpa [table] using hseen i hi
  rw [cursorIn, hskip]
  by_cases hlt : k < n
  · exact firstUnnumbered_of_zero (by simpa using hlt) (by simpa [table] using hnew hlt)
  · exact firstUnnumbered_of_size_le (by simp; omega)

end

namespace Search

/-- The state that shows a progress, with the frames of `stack` still to be dealt with. -/
def ofProgress (g : Digraph) (p : Progress) (stack : List Frame) : Search where
  stack
  preorder := table g.nodeCount (numberIn p.seen)
  postorder := table g.nodeCount (numberIn p.done)
  kinds := kindTable g.edgeCount p.made
  discovery := p.seen.toArray
  roots := p.roots.toArray
  decisions := p.made.toArray
  nextPostorder := p.done.length + 1
  cursor := cursorIn g.nodeCount p.seen

variable {g : Digraph} {p : Progress} {rest : List Frame} {v : ℕ}

theorem empty_eq (g : Digraph) : empty g = ofProgress g .start [] := by
  have hnumbers : numberIn [] = fun _ => 0 := by
    funext v
    simp
  have hcursor : cursorIn g.nodeCount [] = 0 := cursorIn_eq (Nat.zero_le _) (by simp) (by simp)
  simp [empty, ofProgress, Progress.start, replicate_eq_table, kindTable, hnumbers, hcursor]

theorem reseed_ofProgress_of_lt (h : cursorIn g.nodeCount p.seen < g.nodeCount) :
    reseed g (ofProgress g p []) =
      ofProgress g p [(Arc.seed (cursorIn g.nodeCount p.seen)).frame] := by
  simp [reseed, ofProgress, h, Arc.frame]

theorem reseed_ofProgress_of_le (h : g.nodeCount ≤ cursorIn g.nodeCount p.seen) :
    reseed g (ofProgress g p []) = ofProgress g p [] := by
  simp [reseed, ofProgress, Nat.not_lt.mpr h]

theorem isVisited_ofProgress (hv : v < g.nodeCount) :
    (ofProgress g p rest).isVisited v = true ↔ v ∈ p.seen := by
  simp [isVisited, preorderOf, ofProgress, getD_table hv]

theorem framesFrom_eq (hg : g.Sound) (node : ℕ) :
    framesFrom g node = (g.arcs node).map Arc.frame := by
  have hlookup : ∀ d ∈ leaving g.edges.toList node,
      (g.edges[d.2]?.map fun e => Frame.along d.2 e.head) = some (Frame.along d.2 d.1.head) := by
    intro d hd
    have hedge : g.edges[d.2]? = some d.1 := by simpa using (mem_leaving.mp hd).1
    simp [hedge]
  rw [framesFrom, hg.outgoing_eq, Digraph.arcs, List.filterMap_map, List.map_map,
    ← List.filterMap_eq_map]
  exact List.filterMap_congr hlookup

/-- Examining an edge to a seen node. -/
theorem step_pass (rest : List Frame) (hg : g.Sound) {i : ℕ} {e : Edge} (he : g.edges[i]? = some e)
    (hseen : e.head ∈ p.seen) :
    step g (ofProgress g p ((Arc.along i e).frame :: rest)) =
      .ok (ofProgress g (p.pass byNumber (.along i e))
        ({ (Arc.along i e).frame with stage := .explored false } :: rest)) := by
  have ht := hg.tail_lt_of_getElem? he
  have hh := hg.head_lt_of_getElem? he
  rw [step_of_visited rfl rfl ((isVisited_ofProgress hh).mpr hseen)]
  simp only [revisit, Arc.frame, Frame.along, he]
  simp [ofProgress, record, preorderOf, postorderOf, getD_table ht, getD_table hh,
    kindTable_concat, Progress.pass, Arc.decision?, byNumber]

/-- Examining an arc to a new node. -/
theorem step_enter (rest : List Frame) (hg : g.Sound) {a : Arc}
    (hlt : a.head < g.nodeCount) (hnew : a.head ∉ p.seen) :
    step g (ofProgress g p (a.frame :: rest)) =
      .ok (ofProgress g (p.enter a)
        ((g.arcs a.head).map Arc.frame ++ { a.frame with stage := .explored true } :: rest)) := by
  have hvisited : (ofProgress g p (a.frame :: rest)).isVisited a.frame.head = false := by
    rw [Arc.head_frame, ← Bool.not_eq_true, isVisited_ofProgress hlt]
    exact hnew
  have hpreorder := table_numberIn_concat g.nodeCount hnew
  have hcursor := firstUnnumbered_cursorIn g.nodeCount p.seen [a.head]
  rw [step_of_new rfl a.stage_frame hvisited, discover, framesFrom_eq hg, Arc.head_frame]
  cases a with
  | seed v =>
    simp only [Arc.head] at hpreorder hcursor
    simp [ofProgress, visit, enter, Arc.frame, Frame.seed, Arc.head, Progress.enter_seed,
      hpreorder, hcursor]
  | along i e =>
    simp only [Arc.head] at hpreorder hcursor
    simp [ofProgress, visit, enter, record, Arc.frame, Frame.along, Arc.head,
      Progress.enter_along, kindTable_concat, hpreorder, hcursor]

/-- Retiring a frame, which finishes its head if the frame discovered it. -/
theorem step_retire (rest : List Frame) {f : Frame} {discovered : Bool}
    (hstage : f.stage = .explored discovered) (hdone : discovered = true → f.head ∉ p.done) :
    step g (ofProgress g p (f :: rest)) =
      .ok (if rest = [] then
          reseed g (ofProgress g (if discovered then p.leave f.head else p) rest)
        else ofProgress g (if discovered then p.leave f.head else p) rest) := by
  have hclose : close (ofProgress g p rest) f.head discovered =
      ofProgress g (if discovered then p.leave f.head else p) rest := by
    cases discovered with
    | false => rfl
    | true => simp [close, ofProgress, Progress.leave, table_numberIn_concat _ (hdone rfl)]
  rw [step_of_explored rfl hstage, retire_eq]
  change Except.ok (if rest = [] then reseed g (close (ofProgress g p rest) f.head discovered)
    else close (ofProgress g p rest) f.head discovered) = _
  rw [hclose]

end Search

open Search

namespace Explores

variable {g : Digraph} {seen : List ℕ} {arcs : List Arc} {F : Forest}

/-- A frame with a new head is examined, the forest below its head is played, and the
frame is retired. -/
theorem exists_turns_of_new {p : Progress} {a : Arc} {below : Forest}
    (h : Explores g (p.seen ++ [a.head]) arcs below) (hg : g.Sound) (hdone : p.Consistent)
    (hlt : a.head < g.nodeCount) (hnew : a.head ∉ p.seen) (rest : List Frame)
    (hbelow : ∀ stack ≠ [], ∃ turns,
      Turns g (ofProgress g (p.enter a) ((g.arcs a.head).map Arc.frame ++ stack)) turns
        (ofProgress g (below.play byNumber (p.enter a)) stack)) :
    ∃ turns, Turns g (ofProgress g p (a.frame :: rest)) turns
      (if rest = [] then
          reseed g (ofProgress g ((below.play byNumber (p.enter a)).leave a.head) rest)
        else ofProgress g ((below.play byNumber (p.enter a)).leave a.head) rest) := by
  have hexamine := step_enter rest hg hlt hnew
  obtain ⟨inner, hinner⟩ := hbelow ({ a.frame with stage := .explored true } :: rest) (by simp)
  have hretire := step_retire (g := g) (p := below.play byNumber (p.enter a)) rest
    (f := { a.frame with stage := .explored true }) rfl
    fun _ => by simpa using h.head_not_mem_done hdone hnew byNumber
  rw [show ({ a.frame with stage := .explored true } : Frame).head = a.head from a.head_frame]
    at hretire
  exact ⟨_, .cons (by simp [ofProgress]) hexamine
    (hinner.trans (.cons (by simp [ofProgress]) hretire .nil))⟩

/-- With the arcs of a node on top, the search plays their forest and comes back
to the frames below. -/
theorem exists_turns (h : Explores g seen arcs F) (hg : g.Sound) {p : Progress}
    (hp : p.seen = seen) (hdone : p.Consistent) {node : ℕ} (harcs : arcs ⊆ g.arcs node)
    (rest : List Frame) (hrest : rest ≠ []) :
    ∃ turns, Turns g (ofProgress g p (arcs.map Arc.frame ++ rest)) turns
      (ofProgress g (F.play byNumber p) rest) := by
  induction h generalizing p node rest with
  | nil => exact ⟨[], .nil⟩
  | @skip seen a arcs below hseen _ ih =>
    subst hp
    obtain ⟨i, e, he, -, rfl⟩ := Digraph.mem_arcs.mp (harcs List.mem_cons_self)
    have hexamine := step_pass (arcs.map Arc.frame ++ rest) hg he hseen
    have hretire := step_retire (g := g) (p := p.pass byNumber (.along i e))
      (arcs.map Arc.frame ++ rest)
      (f := { (Arc.along i e).frame with stage := .explored false }) rfl (by simp)
    rw [if_neg (by simp [hrest])] at hretire
    obtain ⟨turns, hturns⟩ := ih (p := p.pass byNumber (.along i e)) rfl hdone
      (List.subset_of_cons_subset harcs) rest hrest
    exact ⟨_, .cons (by simp [ofProgress]) hexamine (.cons (by simp [ofProgress]) hretire hturns)⟩
  | @grow seen a arcs below after hnew hbelow _ ihb ihr =>
    subst hp
    obtain ⟨tree, htree⟩ := hbelow.exists_turns_of_new hg hdone
      (hg.arc_head_lt (harcs List.mem_cons_self)) hnew (arcs.map Arc.frame ++ rest)
      (ihb rfl (hdone.enter a) (List.Subset.refl _))
    rw [if_neg (by simp [hrest])] at htree
    obtain ⟨later, hlater⟩ := ihr (Forest.seen_leave_play byNumber p a below)
      (hdone.leave_play byNumber a below) (List.subset_of_cons_subset harcs) rest hrest
    exact ⟨_, htree.trans hlater⟩

theorem seeds_from_cons {n k : ℕ} {a : Arc} {arcs : List Arc}
    (h : a :: arcs = (List.range' k (n - k)).map .seed) :
    k < n ∧ a = .seed k ∧ arcs = (List.range' (k + 1) (n - (k + 1))).map .seed := by
  have hlt : k < n := by
    have := congrArg List.length h
    simp at this
    omega
  rw [show n - k = n - (k + 1) + 1 by omega, List.range'_succ, List.map_cons, List.cons.injEq] at h
  exact ⟨hlt, h⟩

theorem seeds_eq_from_zero (g : Digraph) :
    g.seeds = (List.range' 0 (g.nodeCount - 0)).map .seed := by
  rw [Digraph.seeds, List.range_eq_range', Nat.sub_zero]

/-- A tree seeded at the smallest node left takes that node to the ones behind. -/
theorem mem_of_lt_succ {k : ℕ} (hbefore : ∀ v < k, v ∈ seen) (more : List ℕ) :
    ∀ v < k + 1, v ∈ seen ++ k :: more := by
  rw [Nat.forall_lt_succ_right]
  exact ⟨fun v hv => List.mem_append_left _ (hbefore v hv),
    List.mem_append_right _ List.mem_cons_self⟩

/-- Whenever the stack is empty, the search goes on with the next seed that finds a
new node, until no node is left. -/
theorem exists_turns_seeds (h : Explores g seen arcs F) (hg : g.Sound) {p : Progress}
    (hp : p.seen = seen) (hdone : p.Consistent) {k : ℕ} (hk : k ≤ g.nodeCount)
    (hbefore : ∀ v < k, v ∈ seen)
    (hseeds : arcs = (List.range' k (g.nodeCount - k)).map .seed) :
    ∃ turns, Turns g (reseed g (ofProgress g p [])) turns
      (ofProgress g (F.play byNumber p) []) := by
  induction h generalizing p k with
  | nil =>
    subst hp
    have hend : k = g.nodeCount := by
      have := congrArg List.length hseeds
      simp at this
      omega
    have hcursor : cursorIn g.nodeCount p.seen = g.nodeCount :=
      cursorIn_eq le_rfl (hend ▸ hbefore) (by simp)
    rw [reseed_ofProgress_of_le hcursor.ge]
    exact ⟨[], .nil⟩
  | skip hseen _ ih =>
    subst hp
    obtain ⟨hlt, rfl, harcs⟩ := seeds_from_cons hseeds
    have hpass : p.pass byNumber (.seed k) = p := by simp [Progress.pass, Arc.decision?]
    rw [Forest.play, hpass]
    exact ih rfl hdone hlt (Nat.forall_lt_succ_right.mpr ⟨hbefore, hseen⟩) harcs
  | @grow seen a arcs below after hnew hbelow _ ihb ihr =>
    subst hp
    obtain ⟨hlt, rfl, harcs⟩ := seeds_from_cons hseeds
    have hcursor : cursorIn g.nodeCount p.seen = k := cursorIn_eq hk hbefore fun _ => hnew
    have hseed := reseed_ofProgress_of_lt (hcursor.symm ▸ hlt)
    rw [hcursor] at hseed
    obtain ⟨tree, htree⟩ := hbelow.exists_turns_of_new hg hdone hlt hnew []
      (hbelow.exists_turns hg rfl (hdone.enter _) (List.Subset.refl _))
    rw [if_pos rfl] at htree
    obtain ⟨later, hlater⟩ := ihr (Forest.seen_leave_play byNumber p (.seed k) below)
      (hdone.leave_play byNumber (.seed k) below) hlt (mem_of_lt_succ hbefore below.nodes) harcs
    rw [hseed]
    exact ⟨_, htree.trans hlater⟩

end Explores

namespace Spans

variable {g : Digraph} {F : Forest}

/-- The whole search plays the forest of the graph. -/
theorem exists_turns (h : Spans g F) (hg : g.Sound) :
    ∃ turns, Turns g (start g) turns (ofProgress g (F.play byNumber .start) []) := by
  rw [start, empty_eq]
  exact Explores.exists_turns_seeds h hg rfl .start (Nat.zero_le _) (by simp)
    (Explores.seeds_eq_from_zero g)

end Spans

theorem allKinds_map_some (i : ℕ) (kinds : List EdgeKind) :
    Search.allKinds i (kinds.map some) = .ok kinds := by
  induction kinds generalizing i with
  | nil => rfl
  | cons k rest ih => simp [Search.allKinds, ih, Functor.map, Except.map]

/-- A complete progress is read off without a complaint. -/
theorem finish_ofProgress {g : Digraph} {p : Progress} (h : p.Complete g.nodeCount g.edgeCount)
    (stack : List Frame) :
    finish (ofProgress g p stack) = .ok (p.traversal g.nodeCount g.edgeCount) := by
  have hnumbered : (ofProgress g p stack).preorder.toList.idxOf? 0 = none := by
    rw [List.idxOf?_eq_none_iff]
    intro hzero
    obtain ⟨v, hv, hentry⟩ := List.mem_iff_getElem.mp hzero
    have hlt : v < g.nodeCount := by simpa [ofProgress] using hv
    have hseen : v ∉ p.seen := by simpa [ofProgress, table] using hentry
    exact hseen (h.seen_perm.mem_iff.mpr (List.mem_range.mpr hlt))
  rw [finish, hnumbered]
  simp only [ofProgress, ← h.map_some_kinds, allKinds_map_some]
  rfl

end ClassicAlgorithms
