import Galerkin.Index.MultiIndex

/-! # Arrays over a tensor grid

A `GridArray` keeps a fixed number of components for every node of a tensor grid, node after node, the
last axis fastest. The number of nodes of an array, and distances inside it, are 64-bit words.

* **`gridWalk`**, **`gridNodes`** — the multi-indices of the nodes in storage order;
* **`GridArray.ofNodes`** — an array filled node by node;
* **`GridArray.filled`** — an array of equal entries, its number of nodes a word;
* **`GridArray.storeNodes?`** — values stored node by node, as long as there is room for them;
* **`GridArray.stride`** — the distance of neighbouring nodes along an axis. -/

namespace Galerkin

/-- The number of nodes of a grid; a grid without axes has none. -/
def nodeCount (shape : List Nat) : Nat :=
  if shape.isEmpty then 0 else MultiIndex.product shape

/-- The number of nodes of a grid as a 64-bit word. -/
def nodeCountWord (shape : List Nat) : UInt64 :=
  if shape.isEmpty then 0 else MultiIndex.product (shape.map UInt64.ofNat)

/-- The two counts agree modulo the number of words. -/
theorem nodeCountWord_eq (shape : List Nat) :
    nodeCountWord shape = UInt64.ofNat (nodeCount shape) := by
  unfold nodeCountWord nodeCount
  split
  · rfl
  · exact MultiIndex.product_ofNat shape

/-- **The first `count` nodes of a grid in storage order:** an odometer that starts at zero on every
axis. -/
def gridWalk (count : Nat) (shape : List Nat) : List (List Nat) :=
  let origin := shape.map fun _ => 0
  MultiIndex.walkFrom origin shape count origin

/-- **The nodes of a grid in storage order.** -/
def gridNodes (shape : List Nat) : List (List Nat) := gridWalk (nodeCount shape) shape

/-- Components for every node of a grid. -/
structure GridArray (α : Type) where
  shape : List Nat
  nodes : Nat
  components : Nat
  data : Array α
  deriving Repr, Inhabited

namespace GridArray

variable {α : Type}

/-- The array without axes, nodes and components. -/
def empty : GridArray α := ⟨[], 0, 0, #[]⟩

/-- An array whose entries are all `value`. The number of nodes and that of entries are words. -/
def filled (shape : List Nat) (components : Nat) (value : α) : GridArray α :=
  let count := nodeCountWord shape
  ⟨shape, count.toNat, components,
    Array.replicate (count * UInt64.ofNat components).toNat value⟩

/-- An array filled from the component lists of its nodes, which are given in storage order. -/
def ofNodes (shape : List Nat) (components : Nat) (nodes : List (Array α)) : GridArray α :=
  ⟨shape, nodes.length, components, nodes.foldl (· ++ ·) #[]⟩

/-- Whether the array holds no value. -/
def isEmpty (g : GridArray α) : Bool := g.data.isEmpty

/-- The multi-indices of the nodes in storage order. -/
def walk (g : GridArray α) : List (List Nat) := gridWalk g.nodes g.shape

/-- The component of a node, if there is one. -/
def get? (g : GridArray α) (node component : Nat) : Option α :=
  g.data[node * g.components + component]?

/-- Changes one component of a node. -/
def set (g : GridArray α) (node component : Nat) (value : α) : GridArray α :=
  { g with data := g.data.setIfInBounds (node * g.components + component) value }

/-- Stores values from the first component of a node on. There is room for them if the array goes on
to the last one; values behind the components of the node are stored in the nodes that follow. -/
def store? (g : GridArray α) (node : Nat) (values : Array α) : Option (GridArray α) :=
  let start := node * g.components
  let stored := values.toList.zipIdx.foldl
    (fun data (x, c) => data.setIfInBounds (start + c) x) g.data
  if start + values.size ≤ g.data.size then some { g with data := stored } else none

/-- **Stores values for the first nodes,** one node after the other. -/
def storeNodes? (g : GridArray α) (nodes : List (Array α)) : Option (GridArray α) :=
  nodes.zipIdx.foldlM (fun g (values, n) => g.store? n values) g

/-- The components of a node. -/
def nodeData (g : GridArray α) (node : Nat) : Array α :=
  g.data.extract (node * g.components) (node * g.components + g.components)

/-- The distance, in entries, of neighbouring nodes along an axis, as a word. -/
def stride (g : GridArray α) (axis : Nat) : UInt64 :=
  UInt64.ofNat g.components * MultiIndex.product ((g.shape.drop (axis + 1)).map UInt64.ofNat)

end GridArray

end Galerkin
