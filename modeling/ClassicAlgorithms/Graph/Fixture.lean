import ClassicAlgorithms.Graph.Basic

/-!
# Graph fixtures

An edge list together with the shape that it is meant to have. The label is a
promise by whoever made the fixture; nothing here checks it.
-/
namespace ClassicAlgorithms

inductive Topology where
  /-- One to two edges for each node. -/
  | sparse
  /-- Every ordered pair with one common probability between 0.4 and 0.9. -/
  | dense
  /-- Edges lead from lower to higher nodes only. -/
  | acyclic
  /-- Blocks of consecutive nodes, with every edge inside one block. -/
  | disconnected
  /-- Sparse, with self-loops and repeated edges added. -/
  | multigraph
deriving DecidableEq

namespace Topology

def all : List Topology := [sparse, dense, acyclic, disconnected, multigraph]

def name : Topology → String
  | sparse => "sparse"
  | dense => "dense"
  | acyclic => "acyclic"
  | disconnected => "disconnected"
  | multigraph => "multigraph"

def named? (name : String) : Option Topology := all.find? fun t => t.name == name

@[simp] theorem named?_name (t : Topology) : named? t.name = some t := by
  cases t <;> decide

end Topology

structure Fixture where
  topology : Topology
  nodeCount : Nat
  edges : List Edge
deriving DecidableEq

end ClassicAlgorithms
