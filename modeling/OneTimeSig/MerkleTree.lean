import OneTimeSig.Hash
import OneTimeSig.Params

/-!
# Hash trees

A balanced binary tree over `1 <<< depth` leaves in which every inner node is the hash of its two
children. The nodes stand in one array in level order: the root first, the children of node `p` at
`2 * p + 1` and `2 * p + 2`, the leaves last. A second array holds the parent of each node, and the
authentication path of a leaf is read off by following it up to the root.
-/

namespace OneTimeSig

/-- A balanced hash tree. -/
structure MerkleTree where
  /-- The number of levels below the root. -/
  depth : Nat
  /-- The nodes in level order. -/
  nodes : Array Hash160
  /-- The place of each node's parent; the root is its own. -/
  parents : Array Nat
  /-- Every level is full. -/
  size_nodes : nodes.size = 1 <<< (depth + 1) - 1

namespace MerkleTree

/-- The inner node above two nodes. -/
def join (left right : Hash160) : Hash160 :=
  hash160 (left.toList ++ right.toList)

/-- The level above a level: neighbours are joined in pairs. -/
def levelAbove : List Hash160 → List Hash160
  | left :: right :: rest => join left right :: levelAbove rest
  | _ => []

/-- Joining halves the length. -/
theorem length_levelAbove (n : Nat) (level : List Hash160) (h : level.length = 2 * n) :
    (levelAbove level).length = n := by
  fun_induction levelAbove level generalizing n with
  | case1 left right rest ih =>
    have := ih (n - 1) (by simp at h; omega)
    simp at h ⊢
    omega
  | case2 level hne =>
    match level, hne with
    | [], _ => simp at h ⊢; omega
    | [_], _ => simp at h; omega
    | a :: b :: rest, hne => exact absurd rfl (hne a b rest)

/-- No level is empty. -/
theorem levelSize_pos (level : Nat) : 0 < 1 <<< level := by
  rw [Nat.one_shiftLeft]
  exact Nat.two_pow_pos level

/-- All levels in level order, above and including the given one. -/
def levels : (depth : Nat) → List Hash160 → List Hash160
  | 0, level => level
  | depth + 1, level => levels depth (levelAbove level) ++ level

/-- A full level and those above it have one node less than two levels of its size. -/
theorem length_levels (depth : Nat) (level : List Hash160) (h : level.length = 1 <<< depth) :
    (levels depth level).length = 1 <<< (depth + 1) - 1 := by
  induction depth generalizing level with
  | zero => simpa [levels] using h
  | succ depth ih =>
    have hup := length_levelAbove (1 <<< depth) level (by rw [h, Nat.shiftLeft_succ])
    have hpos := levelSize_pos depth
    simp only [levels, List.length_append, ih _ hup, h, Nat.shiftLeft_succ]
    omega

/-- The parents of all nodes in level order: each node of a level is named twice in a row. -/
def parentTable : (depth : Nat) → List Nat
  | 0 => [0]
  | depth + 1 =>
    let first := 1 <<< depth - 1
    parentTable depth ++ (List.range (1 <<< depth)).flatMap fun i => [first + i, first + i]

/-- The tree over the leaves, whose number must be a power of two. -/
def ofLeaves (leaves : List Hash160) : Except Error MerkleTree :=
  let depth := leaves.length.log2
  if h : leaves.length = 1 <<< depth then
    .ok {
      depth
      nodes := (levels depth leaves).toArray
      parents := (parentTable depth).toArray
      size_nodes := by simpa using length_levels depth leaves h }
  else .error (.unbalancedTree leaves.length)

/-- The number of leaves. -/
def leafCount (t : MerkleTree) : Nat :=
  1 <<< t.depth

/-- The root. -/
def root (t : MerkleTree) : Hash160 :=
  have : 0 < t.nodes.size := by
    have hsize := t.size_nodes
    have hpos := levelSize_pos t.depth
    rw [Nat.shiftLeft_succ] at hsize
    omega
  t.nodes[0]

/-- The node at a place counted from the start of a level, the root's level being 0. The place may
lie in a later level; past the last node there is none. -/
def get? (t : MerkleTree) (level index : Nat) : Option Hash160 :=
  if level ≤ t.depth then t.nodes[1 <<< level - 1 + index]? else none

/-- The node at a place counted from the first leaf. -/
def leaf? (t : MerkleTree) (index : Nat) : Option Hash160 :=
  t.get? t.depth index

/-- The leaf of an index, which must be one of the tree's. -/
def index (t : MerkleTree) (leaf : Nat) : Except Error (Fin t.leafCount) :=
  if h : leaf < t.leafCount then .ok ⟨leaf, h⟩ else .error (.leafOutOfRange leaf t.leafCount)

/-- The place of the other child of a node's parent: left children stand at odd places. -/
def sibling (node : Nat) : Nat :=
  if node % 2 = 1 then node + 1 else node - 1

/-- The siblings met on the way from a node to the root, for at most `steps` steps. -/
def climb (t : MerkleTree) : (steps : Nat) → (node : Nat) → List Hash160
  | 0, _ => []
  | steps + 1, node =>
    if node = 0 then []
    else t.nodes[sibling node]?.toList ++ t.climb steps (t.parents.getD node 0)

/-- The siblings on the way from the leaf to the root. -/
def path (t : MerkleTree) (leaf : Fin t.leafCount) : Except Error (List Hash160) :=
  let siblings := t.climb t.nodes.size (t.leafCount - 1 + leaf)
  if siblings.length = t.depth then .ok siblings
  else .error (.pathLength siblings.length t.depth)

/-- The authentication path of a leaf, from the leaf's level to the root's. -/
def authPath (t : MerkleTree) (leaf : Nat) : Except Error (List Hash160) := do
  t.path (← t.index leaf)

/-- A node cut short for a listing: its first two bytes. -/
def nodeText (node : Hash160) : String :=
  Hex.encode (node.toList.take 2) ++ "..\t"

/-- One level of the listing. -/
def levelText (t : MerkleTree) (level : Nat) : String :=
  String.join (((t.nodes.toList.drop (1 <<< level - 1)).take (1 <<< level)).map nodeText) ++ "\n"

/-- The listing of a tree gives its measures and then every level on a line of its own. -/
instance : ToString MerkleTree where
  toString t :=
    s!"\n--- MerkleTree ---\nt:    {t.leafCount}\n" ++ s!"h:    {t.depth + 1}\n"
      ++ s!"size: {t.nodes.size}\n\n"
      ++ String.join ((List.range (t.depth + 1)).map t.levelText) ++ "\n"

end MerkleTree

end OneTimeSig
