import ClassicAlgorithms.Graph.ColourSearch
import ClassicAlgorithms.Proofs.Graph.Tables

/-!
# The search by colours plays the forest

A colour search is nothing but its progress: colours, numbers and kinds are
tables of the nodes seen and done and of the classifications made. On the arcs
of any node it plays the forest of these arcs by the rule of colours.
-/
namespace ClassicAlgorithms

/-- White before discovery, black after finishing, grey in between. -/
def colourIn (seen done : List ℕ) (v : ℕ) : Colour :=
  if v ∈ done then .black else if v ∈ seen then .grey else .white

namespace ColourSearch

/-- The tables of a progress on `n` nodes and `m` edges. -/
def ofProgress (n m : ℕ) (p : Progress) : ColourSearch where
  colours := table n (colourIn p.seen p.done)
  kinds := kindTable m p.made
  discovery := p.seen.toArray
  preorder := table n (numberIn p.seen)
  postorder := table n (numberIn p.done)
  roots := p.roots.toArray
  finished := p.done.length

theorem start_eq (n m : ℕ) : start n m = ofProgress n m .start := by
  have hcolours : colourIn [] [] = fun _ => .white := by
    funext v
    simp [colourIn]
  have hnumbers : numberIn [] = fun _ => 0 := by
    funext v
    simp
  simp [start, ofProgress, Progress.start, replicate_eq_table, kindTable, hcolours, hnumbers]

variable {n m : ℕ} {p : Progress} {v : ℕ}

theorem paint_ofProgress (i : ℕ) (k : EdgeKind) :
    (ofProgress n m p).paint i k = ofProgress n m { p with made := p.made ++ [(i, k)] } := by
  simp [ofProgress, paint, kindTable_concat]

theorem enter_ofProgress (hseen : v ∉ p.seen) (hdone : v ∉ p.done) :
    (ofProgress n m p).enter v = ofProgress n m { p with seen := p.seen ++ [v] } := by
  have hcolours : Function.update (colourIn p.seen p.done) v .grey =
      colourIn (p.seen ++ [v]) p.done := by
    funext w
    by_cases hw : w = v
    · subst hw
      simp [colourIn, hdone]
    · simp [colourIn, hw]
  simp [ofProgress, enter, table_setIfInBounds, hcolours, numberIn_concat hseen]

theorem leave_ofProgress (hdone : v ∉ p.done) :
    (ofProgress n m p).leave v = ofProgress n m (p.leave v) := by
  have hcolours : Function.update (colourIn p.seen p.done) v .black =
      colourIn p.seen (p.done ++ [v]) := by
    funext w
    by_cases hw : w = v
    · subst hw
      simp [colourIn]
    · simp [colourIn, hw]
  simp [ofProgress, leave, Progress.leave, table_setIfInBounds, hcolours, numberIn_concat hdone]

theorem getElem?_colours (hv : v < n) :
    (ofProgress n m p).colours[v]? = some (colourIn p.seen p.done v) :=
  getElem?_table hv

/-- An edge to a seen node gets its kind by the rule of colours. -/
theorem examine_seen (explore : ℕ → ColourSearch → Except Fault ColourSearch) {e : Edge} (i : ℕ)
    (ht : e.tail < n) (hh : e.head < n) (hseen : e.head ∈ p.seen) :
    examine explore (ofProgress n m p) (e, i) =
      .ok (ofProgress n m (p.pass byColour (.along i e))) := by
  have hcolour := getElem?_colours (m := m) (p := p) hh
  by_cases hd : e.head ∈ p.done
  · simp only [colourIn, hd, if_true] at hcolour
    simp only [examine, hcolour, paint_ofProgress]
    simp [ofProgress, Progress.pass, Arc.decision?, byColour, hd, getD_table ht, getD_table hh]
  · simp only [colourIn, hd, hseen, if_true, if_false] at hcolour
    simp only [examine, hcolour, paint_ofProgress]
    simp [Progress.pass, Arc.decision?, byColour, hd]

/-- An edge to a new node becomes a tree edge before the node is explored. -/
theorem examine_new (explore : ℕ → ColourSearch → Except Fault ColourSearch) {e : Edge} (i : ℕ)
    (hh : e.head < n) (hseen : e.head ∉ p.seen) (hdone : e.head ∉ p.done) :
    examine explore (ofProgress n m p) (e, i) =
      explore e.head (ofProgress n m { p with made := p.made ++ [(i, .tree)] }) := by
  have hcolour := getElem?_colours (m := m) (p := p) hh
  simp only [colourIn, hdone, hseen, if_false] at hcolour
  simp only [examine, hcolour, paint_ofProgress]

variable {g : Digraph}

/-- The lists of outgoing edges that the search works with. -/
def rowsOf (g : Digraph) : Array (List (Edge × ℕ)) := rows g.nodeCount g.edges.toList

@[simp] theorem size_rowsOf (g : Digraph) : (rowsOf g).size = g.nodeCount := by
  simp [rowsOf, rows]

theorem getD_rowsOf (hv : v < g.nodeCount) :
    (rowsOf g).getD v [] = leaving g.edges.toList v := by
  simp [rowsOf, rows, leaving, Array.getD_eq_getD_getElem?, getElem?_distribute hv]

/-- A visit enters the node, goes through its edges and leaves it. -/
theorem visit_ofProgress {q : Progress} {depth : ℕ} (hv : v < g.nodeCount) (hseen : v ∉ p.seen)
    (hdone : v ∉ p.done) (hq : v ∉ q.done)
    (hinner : (leaving g.edges.toList v).foldlM (examine (visit (rowsOf g) depth))
      (ofProgress g.nodeCount m { p with seen := p.seen ++ [v] }) =
        .ok (ofProgress g.nodeCount m q)) :
    visit (rowsOf g) (depth + 1) v (ofProgress g.nodeCount m p) =
      .ok (ofProgress g.nodeCount m (q.leave v)) := by
  rw [visit, getD_rowsOf hv, enter_ofProgress hseen hdone, hinner]
  simp [bind, Except.bind, pure, Except.pure, leave_ofProgress hq]

/-- A root that was reached before is passed over. -/
theorem visitRoot_seen (hv : v < g.nodeCount) (hseen : v ∈ p.seen) :
    visitRoot (rowsOf g) (ofProgress g.nodeCount m p) v = .ok (ofProgress g.nodeCount m p) := by
  have hcolour : (ofProgress g.nodeCount m p).colours[v]? ≠ some .white := by
    rw [getElem?_colours hv, colourIn]
    split_ifs <;> simp
  rw [visitRoot, if_neg hcolour]

/-- A root that is still white is visited. -/
theorem visitRoot_new (hv : v < g.nodeCount) (hseen : v ∉ p.seen) (hdone : v ∉ p.done) :
    visitRoot (rowsOf g) (ofProgress g.nodeCount m p) v =
      visit (rowsOf g) g.nodeCount v
        (ofProgress g.nodeCount m { p with roots := p.roots ++ [v] }) := by
  have hcolour : (ofProgress g.nodeCount m p).colours[v]? = some .white := by
    rw [getElem?_colours hv, colourIn, if_neg hdone, if_neg hseen]
  have hroots : { ofProgress g.nodeCount m p with
      roots := (ofProgress g.nodeCount m p).roots.push v } =
        ofProgress g.nodeCount m { p with roots := p.roots ++ [v] } := by
    simp [ofProgress]
  rw [visitRoot, if_pos hcolour, hroots, size_rowsOf]

end ColourSearch

open ColourSearch

namespace Explores

variable {g : Digraph} {seen : List ℕ} {arcs : List Arc} {F : Forest}

/-- Going through the edges of a node plays their forest. A call deeper takes at
least one node of the forest with it, so its size bounds the depth. -/
theorem foldlM_examine (h : Explores g seen arcs F) (hg : g.Sound) (m : ℕ) {p : Progress}
    (hp : p.seen = seen) (hdone : p.Consistent) (depth : ℕ) (hdepth : F.nodes.length ≤ depth)
    (row : List (Edge × ℕ)) (hrow : row.map (fun d => Arc.along d.2 d.1) = arcs)
    (hmem : ∀ d ∈ row, d.1 ∈ g.edges.toList) :
    row.foldlM (examine (visit (rowsOf g) depth)) (ofProgress g.nodeCount m p) =
      .ok (ofProgress g.nodeCount m (F.play byColour p)) := by
  induction h generalizing p depth row with
  | nil =>
    obtain rfl : row = [] := List.map_eq_nil_iff.mp hrow
    rfl
  | skip hseen hrest ih =>
    subst hp
    obtain ⟨⟨e, i⟩, row, rfl, rfl, rfl⟩ := List.map_eq_cons_iff.mp hrow
    have he := hmem _ List.mem_cons_self
    rw [List.foldlM_cons, examine_seen _ i (hg.tail_lt e he) (hg.head_lt e he) hseen]
    exact ih (p := p.pass byColour (.along i e)) rfl hdone depth hdepth row rfl
      fun d hd => hmem d (List.mem_cons_of_mem _ hd)
  | @grow seen a arcs below rest hnew hbelow hrest ihb ihr =>
    subst hp
    obtain ⟨⟨e, i⟩, row, rfl, rfl, rfl⟩ := List.map_eq_cons_iff.mp hrow
    simp only [Forest.nodes, List.length_cons, List.length_append] at hdepth
    obtain ⟨depth, rfl⟩ : ∃ d, depth = d + 1 := ⟨depth - 1, by omega⟩
    have hh : e.head < g.nodeCount := hg.head_lt e (hmem _ List.mem_cons_self)
    have hinner := ihb (p := p.enter (.along i e)) rfl (hdone.enter _) depth (by omega)
      (leaving g.edges.toList e.head) rfl
      fun d hd => List.mem_of_getElem? (mem_leaving.mp hd).1
    have hvisit := visit_ofProgress (p := { p with made := p.made ++ [(i, .tree)] }) hh hnew
      (fun hd => hnew (hdone _ hd)) (hbelow.head_not_mem_done hdone hnew byColour)
      (by simpa only [Progress.enter_along] using hinner)
    rw [List.foldlM_cons, examine_new _ i hh hnew fun hd => hnew (hdone _ hd), hvisit]
    exact ihr (Forest.seen_leave_play byColour p (.along i e) below)
      (hdone.leave_play byColour _ below) (depth + 1) (by omega) row rfl
      fun d hd => hmem d (List.mem_cons_of_mem _ hd)

/-- The outer loop plays the forest of its seeds. -/
theorem foldlM_visitRoot (h : Explores g seen arcs F) (hg : g.Sound) (m : ℕ) {p : Progress}
    (hp : p.seen = seen) (hdone : p.Consistent) (hdepth : F.nodes.length ≤ g.nodeCount)
    (nodes : List ℕ) (hnodes : nodes.map Arc.seed = arcs) (hlt : ∀ v ∈ nodes, v < g.nodeCount) :
    nodes.foldlM (visitRoot (rowsOf g)) (ofProgress g.nodeCount m p) =
      .ok (ofProgress g.nodeCount m (F.play byColour p)) := by
  induction h generalizing p nodes with
  | nil =>
    obtain rfl : nodes = [] := List.map_eq_nil_iff.mp hnodes
    rfl
  | skip hseen hrest ih =>
    subst hp
    obtain ⟨v, nodes, rfl, rfl, rfl⟩ := List.map_eq_cons_iff.mp hnodes
    have hpass : p.pass byColour (.seed v) = p := by simp [Progress.pass, Arc.decision?]
    rw [List.foldlM_cons, visitRoot_seen (hlt v List.mem_cons_self) hseen, Forest.play, hpass]
    exact ih rfl hdone hdepth nodes rfl fun w hw => hlt w (List.mem_cons_of_mem _ hw)
  | @grow seen a arcs below rest hnew hbelow hrest ihb ihr =>
    subst hp
    obtain ⟨v, nodes, rfl, rfl, rfl⟩ := List.map_eq_cons_iff.mp hnodes
    have hv : v < g.nodeCount := hlt v List.mem_cons_self
    have hdone' : v ∉ p.done := fun hd => hnew (hdone _ hd)
    simp only [Forest.nodes, List.length_cons, List.length_append] at hdepth
    obtain ⟨depth, hsize⟩ : ∃ d, g.nodeCount = d + 1 := ⟨g.nodeCount - 1, by omega⟩
    have hinner := hbelow.foldlM_examine hg m (p := p.enter (.seed v)) rfl (hdone.enter _) depth
      (by omega) (leaving g.edges.toList v) rfl
      fun d hd => List.mem_of_getElem? (mem_leaving.mp hd).1
    have hvisit := visit_ofProgress (p := { p with roots := p.roots ++ [v] }) hv hnew hdone'
      (hbelow.head_not_mem_done hdone hnew byColour)
      (by simpa only [Progress.enter_seed] using hinner)
    rw [← hsize] at hvisit
    rw [List.foldlM_cons, visitRoot_new hv hnew hdone', hvisit]
    exact ihr (Forest.seen_leave_play byColour p (.seed v) below)
      (hdone.leave_play byColour _ below) (by omega) nodes rfl
      fun w hw => hlt w (List.mem_cons_of_mem _ hw)

end Explores

theorem mapM_id_map_some {α : Type} (l : List α) : (l.map some).mapM id = some l := by
  induction l with
  | nil => rfl
  | cons a rest ih => simp [ih]

namespace Spans

variable {g : Digraph} {F : Forest}

/-- The search by colours returns the traversal of the forest. -/
theorem classifyByColour_eq (h : Spans g F) (hg : g.Sound)
    (hrows : ¬ Memory.Overflows g.nodeCount Digraph.rowWidth) :
    classifyByColour g.nodeCount g.edges.toList =
      .ok ((F.play byColour .start).traversal g.nodeCount g.edgeCount) := by
  have htails : g.edges.toList.find? (fun e => g.nodeCount ≤ e.tail) = none := by
    rw [List.find?_eq_none]
    intro e he
    have := hg.tail_lt e he
    simpa using this
  have hnodes : F.nodes.length ≤ g.nodeCount := by
    rw [(h.nodes_perm hg).length_eq, List.length_range]
  have hloop := Explores.foldlM_visitRoot h hg g.edgeCount (p := .start) rfl .start hnodes
    (List.range g.nodeCount) rfl fun v hv => List.mem_range.mp hv
  have hcount : g.edges.toList.length = g.edgeCount := by simp [Digraph.edgeCount]
  simp only [classifyByColour, if_neg hrows, htails, hcount, start_eq]
  change (List.foldlM (visitRoot (rowsOf g)) _ _ >>= fun c => c.finish) = _
  rw [hloop]
  change finish _ = _
  rw [finish]
  simp only [ofProgress, ← (h.complete_play hg byColour).map_some_kinds, mapM_id_map_some]
  rfl

end Spans

end ClassicAlgorithms
