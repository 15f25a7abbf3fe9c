import ClassicAlgorithms.Fault
import ClassicAlgorithms.Graph.Traversal

/-!
# Recursive search by colours

The textbook search: a white node has not been reached, a grey one is on the
current path, a black one is finished. The colour of the head at the moment an
edge is examined decides its kind, so this search shares no rule with the
stack-based one and serves as its yardstick. It takes raw edges on trust: an
endpoint outside the node range is a fault, raised where it is first used.
-/
namespace ClassicAlgorithms

inductive Colour where
  | white
  | grey
  | black
deriving DecidableEq

structure ColourSearch where
  colours : Array Colour
  kinds : Array (Option EdgeKind)
  discovery : Array Nat
  preorder : Array Nat
  postorder : Array Nat
  roots : Array Nat
  finished : Nat
deriving DecidableEq

namespace ColourSearch

def start (nodeCount edgeCount : Nat) : ColourSearch where
  colours := Array.replicate nodeCount .white
  kinds := Array.replicate edgeCount none
  discovery := #[]
  preorder := Array.replicate nodeCount 0
  postorder := Array.replicate nodeCount 0
  roots := #[]
  finished := 0

/-- Hands every edge to its tail, keeping the order. -/
def distribute (nodeCount : Nat) (edges : List (Edge × Nat)) : Array (List (Edge × Nat)) :=
  edges.foldr (fun edge rows => rows.modify edge.1.tail (edge :: ·)) (Array.replicate nodeCount [])

@[simp] theorem size_distribute (nodeCount : Nat) (edges : List (Edge × Nat)) :
    (distribute nodeCount edges).size = nodeCount := by
  induction edges with
  | nil => simp [distribute]
  | cons edge rest ih => simpa [distribute] using ih

theorem getElem?_distribute {nodeCount node : Nat} (h : node < nodeCount)
    (edges : List (Edge × Nat)) :
    (distribute nodeCount edges)[node]? = some (edges.filter fun edge => edge.1.tail = node) := by
  induction edges with
  | nil => simp [distribute, h]
  | cons edge rest ih =>
    have row : distribute nodeCount (edge :: rest) =
        (distribute nodeCount rest).modify edge.1.tail (edge :: ·) := rfl
    rw [row, Array.getElem?_modify, ih]
    by_cases tail : edge.1.tail = node <;> simp [tail]

/-- The edges that leave each node, with their positions, in input order. -/
def rows (nodeCount : Nat) (edges : List Edge) : Array (List (Edge × Nat)) :=
  distribute nodeCount edges.zipIdx

def enter (c : ColourSearch) (node : Nat) : ColourSearch :=
  let discovery := c.discovery.push node
  { c with
    colours := c.colours.setIfInBounds node .grey
    discovery
    preorder := c.preorder.setIfInBounds node discovery.size }

def leave (c : ColourSearch) (node : Nat) : ColourSearch :=
  { c with
    colours := c.colours.setIfInBounds node .black
    finished := c.finished + 1
    postorder := c.postorder.setIfInBounds node (c.finished + 1) }

def paint (c : ColourSearch) (edge : Nat) (kind : EdgeKind) : ColourSearch :=
  { c with kinds := c.kinds.setIfInBounds edge (some kind) }

/-- Examines one edge; `explore` visits a white head. -/
def examine (explore : Nat → ColourSearch → Except Fault ColourSearch)
    (c : ColourSearch) : Edge × Nat → Except Fault ColourSearch
  | (e, index) =>
    match c.colours[e.head]? with
    | none => .error (.indexOutOfBounds c.colours.size e.head)
    | some .white => explore e.head (c.paint index .tree)
    | some .grey => .ok (c.paint index .back)
    | some .black =>
      let later := c.preorder.getD e.tail 0 < c.preorder.getD e.head 0
      .ok (c.paint index (if later then .forward else .cross))

/-- Visits `node` and, through its edges, every white node below it. Each call
on the way down turns a white node grey, so `depth` need not exceed the node
count. -/
def visit (rows : Array (List (Edge × Nat))) : (depth : Nat) → (node : Nat) → ColourSearch →
    Except Fault ColourSearch
  | 0, _, _ => .error (.internal "a grey path repeats no node")
  | depth + 1, node, c => do
    let c ← (rows.getD node []).foldlM (examine (visit rows depth)) (c.enter node)
    return c.leave node

/-- Starts a tree at `root` unless it was reached before. -/
def visitRoot (rows : Array (List (Edge × Nat))) (c : ColourSearch) (root : Nat) :
    Except Fault ColourSearch :=
  if c.colours[root]? = some .white then
    visit rows rows.size root { c with roots := c.roots.push root }
  else .ok c

/-- The finished tables, provided that every edge has a kind. -/
def finish (c : ColourSearch) : Except Fault Traversal :=
  match c.kinds.toList.mapM id with
  | none => .error (.internal "every edge is examined")
  | some kinds => .ok ⟨c.discovery, kinds.toArray, c.preorder, c.postorder, c.roots⟩

end ColourSearch

/-- Classifies the edges by recursive search from every node still white, in
ascending order. More rows than any memory has room for are a fault. The tails are looked
up before the search begins. -/
def classifyByColour (nodeCount : Nat) (edges : List Edge) : Except Fault Traversal :=
  if Memory.Overflows nodeCount Digraph.rowWidth then .error .capacityOverflow
  else
    match edges.find? fun e => nodeCount ≤ e.tail with
    | some e => .error (.indexOutOfBounds nodeCount e.tail)
    | none => do
      let rows := ColourSearch.rows nodeCount edges
      let c ← (List.range nodeCount).foldlM (ColourSearch.visitRoot rows)
        (ColourSearch.start nodeCount edges.length)
      c.finish

end ClassicAlgorithms
