import ClassicAlgorithms.Graph.Traversal

/-!
# Depth-first search with an explicit stack

A frame stands for one edge on its way through the search. It is examined once,
when it first reaches the top of the stack, and retired once, when everything
pushed above it is gone; that is the moment at which a recursive search would
return from the head of the edge. A frame without an edge seeds a new tree and
always targets the smallest node not yet visited.

`Search.step` is one turn of the loop, `Search.run` repeats it, and `classify`
reads the finished tables. A number 0 means that the node has none yet.
-/
namespace ClassicAlgorithms

inductive Stage where
  | pending
  /-- `discovered` says that examining the frame visited its head, which then
  is owed a postorder number when the frame retires. -/
  | explored (discovered : Bool)
deriving DecidableEq

structure Frame where
  /-- `none` for the seed of a tree. -/
  edge : Option Nat
  head : Nat
  stage : Stage
deriving DecidableEq

namespace Frame

def seed (head : Nat) : Frame := ⟨none, head, .pending⟩

def along (edge head : Nat) : Frame := ⟨some edge, head, .pending⟩

end Frame

/-- A search in progress. The top of the stack comes first. -/
structure Search where
  stack : List Frame
  preorder : Array Nat
  postorder : Array Nat
  kinds : Array (Option EdgeKind)
  discovery : Array Nat
  roots : Array Nat
  /-- Every classification in the order in which it was made. -/
  decisions : Array (Nat × EdgeKind)
  nextPostorder : Nat
  /-- The smallest node without a preorder number. -/
  cursor : Nat
deriving DecidableEq

/-- The first position from `cursor` on that holds no number. -/
def firstUnnumbered (numbers : Array Nat) (cursor : Nat) : Nat :=
  if h : cursor < numbers.size then
    if numbers[cursor] = 0 then cursor else firstUnnumbered numbers (cursor + 1)
  else cursor
termination_by numbers.size - cursor

/-- The kind of an edge whose head was visited before: a head with a later
number than its tail is a descendant, one that is not finished is an ancestor. -/
def revisitKind (preTail preHead postHead : Nat) : EdgeKind :=
  if preTail < preHead then .forward else if postHead = 0 then .back else .cross

namespace Search

def empty (g : Digraph) : Search where
  stack := []
  preorder := Array.replicate g.nodeCount 0
  postorder := Array.replicate g.nodeCount 0
  kinds := Array.replicate g.edgeCount none
  discovery := #[]
  roots := #[]
  decisions := #[]
  nextPostorder := 1
  cursor := 0

def preorderOf (s : Search) (node : Nat) : Nat := s.preorder.getD node 0

def postorderOf (s : Search) (node : Nat) : Nat := s.postorder.getD node 0

def isVisited (s : Search) (node : Nat) : Bool := s.preorderOf node != 0

/-- Seeds a tree at the smallest unvisited node, if there is one. -/
def reseed (g : Digraph) (s : Search) : Search :=
  if s.cursor < g.nodeCount then { s with stack := .seed s.cursor :: s.stack } else s

/-- The state before the first turn: a single seed at node 0. -/
def start (g : Digraph) : Search := reseed g (empty g)

def record (s : Search) (edge : Nat) (kind : EdgeKind) : Search :=
  { s with
    kinds := s.kinds.setIfInBounds edge (some kind)
    decisions := s.decisions.push (edge, kind) }

/-- Gives `node` the next preorder number and moves the cursor past it. -/
def visit (s : Search) (node : Nat) : Search :=
  let discovery := s.discovery.push node
  let preorder := s.preorder.setIfInBounds node discovery.size
  { s with discovery, preorder, cursor := firstUnnumbered preorder s.cursor }

/-- A seed makes its head a root; any other frame makes its edge a tree edge. -/
def enter (s : Search) (frame : Frame) : Search :=
  match frame.edge with
  | some edge => s.record edge .tree
  | none => { s with roots := s.roots.push frame.head }

/-- The frames of the edges that leave `node`, the first one on top. -/
def framesFrom (g : Digraph) (node : Nat) : List Frame :=
  (g.outgoing node).filterMap fun edge => g.edges[edge]?.map fun e => .along edge e.head

/-- Examines a frame whose head is new. -/
def discover (g : Digraph) (s : Search) (frame : Frame) : Search :=
  let s := (s.visit frame.head).enter frame
  { s with stack := framesFrom g frame.head ++ s.stack }

/-- Examines a frame whose head was visited before. -/
def revisit (g : Digraph) (s : Search) (frame : Frame) : Except GraphError Search :=
  match frame.edge with
  | none => .error (.invariantViolation "seed frames target unvisited nodes" frame.head)
  | some edge =>
    match g.edges[edge]? with
    | none => .error (.invariantViolation "stacked edges exist in the graph" edge)
    | some e =>
      let kind := revisitKind (s.preorderOf e.tail) (s.preorderOf frame.head)
        (s.postorderOf frame.head)
      .ok (s.record edge kind)

/-- Numbers the head of a finished frame if the frame discovered it, and starts
the next tree when the stack has drained. -/
def retire (g : Digraph) (s : Search) (head : Nat) (discovered : Bool) : Search :=
  let s := if discovered then
      { s with
        postorder := s.postorder.setIfInBounds head s.nextPostorder
        nextPostorder := s.nextPostorder + 1 }
    else s
  if s.stack.isEmpty then reseed g s else s

/-- One turn: the frame on top is either examined, which leaves it explored
under whatever it pushes, or retired. -/
def step (g : Digraph) (s : Search) : Except GraphError Search :=
  match s.stack with
  | [] => .ok s
  | frame :: rest =>
    match frame.stage with
    | .explored discovered => .ok (retire g { s with stack := rest } frame.head discovered)
    | .pending =>
      let discovered := !s.isVisited frame.head
      let s := { s with stack := { frame with stage := .explored discovered } :: rest }
      if discovered then .ok (discover g s frame) else revisit g s frame

/-- Turns until the stack is empty. Stopping short of that is an error of its
own, so it cannot pass for a finished search. -/
def run (g : Digraph) : Nat → Search → Except GraphError Search
  | 0, s =>
    match s.stack with
    | [] => .ok s
    | frame :: _ => .error (.invariantViolation "the stack drains" frame.head)
  | turns + 1, s => if s.stack.isEmpty then .ok s else step g s >>= run g turns

/-- Each edge and each root has one frame, and each frame takes two turns. -/
def turnLimit (g : Digraph) : Nat := 2 * (g.nodeCount + g.edgeCount)

def complete (g : Digraph) : Except GraphError Search :=
  run g (turnLimit g) (start g)

/-- The kinds of all edges from position `edge` on, if each has one. -/
def allKinds (edge : Nat) : List (Option EdgeKind) → Except GraphError (List EdgeKind)
  | [] => .ok []
  | none :: _ => .error (.invariantViolation "every edge is classified" edge)
  | some kind :: rest => (kind :: ·) <$> allKinds (edge + 1) rest

/-- The tables of a search that left nothing out. -/
def finish (s : Search) : Except GraphError Traversal :=
  match s.preorder.toList.idxOf? 0 with
  | some node => .error (.invariantViolation "every node is discovered" node)
  | none => do
    let kinds ← allKinds 0 s.kinds.toList
    return ⟨s.discovery, kinds.toArray, s.preorder, s.postorder, s.roots⟩

end Search

/-- Numbers the nodes of `g` and sorts its edges by kind. Trees are rooted at
node 0 and then at the smallest node left whenever a tree is complete; outgoing
edges are explored in input order, so the outcome depends on `g` alone. -/
def classify (g : Digraph) : Except GraphError Traversal :=
  Search.complete g >>= Search.finish

end ClassicAlgorithms
