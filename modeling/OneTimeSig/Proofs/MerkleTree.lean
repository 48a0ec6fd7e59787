import Mathlib.Tactic.Linarith
import OneTimeSig.MerkleTree
import OneTimeSig.Proofs.Outcome
import OneTimeSig.Proofs.Path

/-!
# Trees and the paths in them

A tree is built level by level, and each proof here follows that recursion from a level to the one
above. `levelPath` reads a path off the levels without the parent table, and `climb_eq` shows that
following the table gives the same path.

The two main results face each other. From a leaf of the tree its path leads to the root
(`fold_levelPath`). Conversely, whatever leads to the root along the turns of an index is the leaf
of that index and its path, unless a string hashed on the way collides with one that was hashed when
the tree was built (`leaf_or_collides`); nothing is assumed of the siblings there, which may be any
byte strings.
-/

open OneTimeSig.Path

namespace OneTimeSig.MerkleTree

/-! ## One level -/

/-- The strings that are hashed to make the level above. -/
def levelInputs : List Hash160 → List Bytes
  | left :: right :: rest => (left.toList ++ right.toList) :: levelInputs rest
  | _ => []

/-- The strings that are hashed to make all levels above. -/
def treeInputs : (depth : Nat) → List Hash160 → List Bytes
  | 0, _ => []
  | depth + 1, level => treeInputs depth (levelAbove level) ++ levelInputs level

/-- The level above has the hashes of these strings. -/
theorem levelAbove_eq (level : List Hash160) : levelAbove level = (levelInputs level).map hash160 := by
  fun_induction levelAbove level with
  | case1 left right rest ih => rw [levelInputs, List.map_cons, ← ih, join]
  | case2 level hne =>
    unfold levelInputs
    split
    next left right rest => exact absurd rfl (hne left right rest)
    next => rfl

/-- Each string is made of two neighbours. -/
theorem getElem?_levelInputs (level : List Hash160) (i : Nat) :
    (levelInputs level)[i]? =
      level[2 * i]?.bind fun left =>
        level[2 * i + 1]?.map fun right => left.toList ++ right.toList := by
  fun_induction levelInputs level generalizing i with
  | case1 left right rest ih =>
    cases i with
    | zero => rfl
    | succ i =>
      rw [List.getElem?_cons_succ, ih, show 2 * (i + 1) = 2 * i + 2 by omega]
      rfl
  | case2 level hne =>
    match level, hne with
    | [], _ => rfl
    | [node], _ => cases i <;> rfl
    | left :: right :: rest, hne => exact absurd rfl (hne left right rest)

/-- The string above a place joins its node with the node on the other side, and so it shows both
of them. -/
theorem getElem?_levelInputs_eq_some_iff {level : List Hash160} {index : Nat} {x : Bytes} :
    (levelInputs level)[index / 2]? = some x ↔
      ∃ node sibling, level[index]? = some node ∧ level[index ^^^ 1]? = some sibling ∧
        joinInput (index.testBit 0) node sibling.toList = x := by
  rw [getElem?_levelInputs, Nat.testBit_zero]
  -- A node in an even place is on the left, and one in an odd place on the right.
  rcases Nat.even_or_odd index with heven | hodd
  · have htwice : 2 * (index / 2) = index := Nat.two_mul_div_two_of_even heven
    have hturn : ¬ index % 2 = 1 := by
      rw [Nat.even_iff] at heven
      omega
    rw [Nat.xor_one_of_even heven, htwice, decide_eq_false hturn]
    simp [Option.bind_eq_some_iff, Option.map_eq_some_iff, joinInput]
  · have htwice : 2 * (index / 2) + 1 = index := Nat.two_mul_div_two_add_one_of_odd hodd
    have hleft : 2 * (index / 2) = index - 1 := by omega
    rw [Nat.xor_one_of_odd hodd, htwice, hleft, decide_eq_true (Nat.odd_iff.mp hodd)]
    simp only [Option.bind_eq_some_iff, Option.map_eq_some_iff, joinInput, if_true]
    constructor
    · rintro ⟨left, hleft, right, hright, hx⟩
      exact ⟨right, left, hright, hleft, hx⟩
    · rintro ⟨right, left, hright, hleft, hx⟩
      exact ⟨left, hleft, right, hright, hx⟩

/-! ## Paths through the levels -/

/-- The siblings of the nodes between a place and the root, read off the levels. -/
def levelPath : (depth : Nat) → List Hash160 → (index : Nat) → List Hash160
  | 0, _, _ => []
  | depth + 1, level, index =>
    level[index ^^^ 1]?.toList ++ levelPath depth (levelAbove level) (index / 2)

variable {depth index : Nat} {level : List Hash160}

/-- Half as many nodes in the level above. -/
theorem length_levelAbove_of_pow (hlen : level.length = 2 ^ (depth + 1)) :
    (levelAbove level).length = 2 ^ depth := by
  apply length_levelAbove _ level
  rw [hlen, pow_succ]
  omega

/-- The number of nodes in a full level and those above it. -/
theorem length_levels_of_pow (hlen : level.length = 2 ^ depth) :
    (levels depth level).length = 2 ^ (depth + 1) - 1 := by
  rw [length_levels depth level (by rw [hlen, Nat.one_shiftLeft]), Nat.one_shiftLeft]

/-- The last level stands behind those above it. -/
theorem getElem?_levels_last (hlen : level.length = 2 ^ depth) (index : Nat) :
    (levels depth level)[2 ^ depth - 1 + index]? = level[index]? := by
  cases depth with
  | zero => rw [levels, pow_zero, Nat.sub_self, Nat.zero_add]
  | succ depth =>
    have habove := length_levels_of_pow (length_levelAbove_of_pow hlen)
    rw [levels, List.getElem?_append_right (by omega), habove, Nat.add_sub_cancel_left]

/-- What does not stand in the last level stands in those above it. -/
theorem getElem?_levels_above (hlen : level.length = 2 ^ (depth + 1)) {place : Nat}
    (hplace : place < 2 ^ (depth + 1) - 1) :
    (levels (depth + 1) level)[place]? = (levels depth (levelAbove level))[place]? := by
  have habove := length_levels_of_pow (length_levelAbove_of_pow hlen)
  rw [levels, List.getElem?_append_left (by omega)]

/-- The first node of all levels is the one of the levels above. -/
theorem head?_levels_succ (hlen : level.length = 2 ^ (depth + 1)) :
    (levels (depth + 1) level).head? = (levels depth (levelAbove level)).head? := by
  have hfirst : 0 < 2 ^ (depth + 1) - 1 := by
    have hpos := Nat.two_pow_pos depth
    rw [pow_succ]
    omega
  rw [List.head?_eq_getElem?, List.head?_eq_getElem?, getElem?_levels_above hlen hfirst]

/-- Every place in a full level but the root's has a place on the other side. -/
theorem xor_one_lt (hindex : index < 2 ^ (depth + 1)) : index ^^^ 1 < 2 ^ (depth + 1) := by
  have heven : 2 ^ (depth + 1) = 2 ^ depth * 2 := pow_succ 2 depth
  rcases Nat.even_or_odd index with h | h
  · rw [Nat.xor_one_of_even h]
    rw [Nat.even_iff] at h
    omega
  · rw [Nat.xor_one_of_odd h]
    omega

/-- A path has one sibling on each level. -/
theorem length_levelPath (hlen : level.length = 2 ^ depth) (hindex : index < 2 ^ depth) :
    (levelPath depth level index).length = depth := by
  induction depth generalizing level index with
  | zero => rfl
  | succ depth ih =>
    have hsibling : index ^^^ 1 < level.length := by
      rw [hlen]
      exact xor_one_lt hindex
    have hhalf : index / 2 < 2 ^ depth := by omega
    have hrest := ih (length_levelAbove_of_pow hlen) hhalf
    rw [levelPath, List.getElem?_eq_getElem hsibling, List.length_append, hrest]
    exact Nat.add_comm _ _

/-- A node of a level below the root has a sibling, with which it is joined. -/
theorem exists_levelInputs {node : Hash160} (hlen : level.length = 2 ^ (depth + 1))
    (hnode : level[index]? = some node) :
    ∃ sibling, level[index ^^^ 1]? = some sibling ∧
      (levelInputs level)[index / 2]? =
        some (joinInput (index.testBit 0) node sibling.toList) := by
  obtain ⟨hindex, -⟩ := List.getElem?_eq_some_iff.mp hnode
  have hsibling : index ^^^ 1 < level.length := by
    rw [hlen] at hindex ⊢
    exact xor_one_lt hindex
  have hget := List.getElem?_eq_getElem hsibling
  exact ⟨_, hget, getElem?_levelInputs_eq_some_iff.mpr ⟨node, _, hnode, hget, rfl⟩⟩

/-- From a node of a level its path leads to the root. -/
theorem fold_levelPath {node : Hash160} (hlen : level.length = 2 ^ depth)
    (hnode : level[index]? = some node) :
    (levels depth level).head? =
      some (fold (turns depth index) node ((levelPath depth level index).map FixedBytes.toList)) := by
  induction depth generalizing level index node with
  | zero =>
    obtain ⟨root, rfl⟩ := List.length_eq_one_iff.mp hlen
    rw [List.getElem?_singleton] at hnode
    split_ifs at hnode with h
    exact hnode
  | succ depth ih =>
    -- The node and its sibling make the parent, from which the path of the level above goes on.
    obtain ⟨sibling, hsibling, hinput⟩ := exists_levelInputs hlen hnode
    rw [head?_levels_succ hlen, turns_succ, levelPath, hsibling]
    apply ih (length_levelAbove_of_pow hlen)
    rw [levelAbove_eq, List.getElem?_map, hinput, Option.map_some]

/-- The strings that are hashed on the path of a node are among those of the levels. -/
theorem inputs_levelPath_subset {node : Hash160} (hlen : level.length = 2 ^ depth)
    (hnode : level[index]? = some node) :
    inputs (turns depth index) node ((levelPath depth level index).map FixedBytes.toList) ⊆
      treeInputs depth level := by
  induction depth generalizing level index node with
  | zero => exact List.nil_subset _
  | succ depth ih =>
    obtain ⟨sibling, hsibling, hinput⟩ := exists_levelInputs hlen hnode
    have hparent : (levelAbove level)[index / 2]? =
        some (hash160 (joinInput (index.testBit 0) node sibling.toList)) := by
      rw [levelAbove_eq, List.getElem?_map, hinput, Option.map_some]
    rw [turns_succ, levelPath, hsibling, treeInputs]
    refine List.cons_subset.mpr ⟨?_, ?_⟩
    · exact List.mem_append_right _ (List.mem_of_getElem? hinput)
    · exact List.Subset.trans (ih (length_levelAbove_of_pow hlen) hparent)
        (List.subset_append_left _ _)

/-- What leads to the root along the turns of an index is the node of that index and its path, or a
string that is hashed on the way collides with one that was hashed to make the levels. -/
theorem leaf_or_collides {node : Hash160} {siblings : List Bytes}
    (hlen : level.length = 2 ^ depth) (hindex : index < 2 ^ depth)
    (hsiblings : siblings.length = depth)
    (hroot : (levels depth level).head? = some (fold (turns depth index) node siblings)) :
    level[index]? = some node ∧ siblings = (levelPath depth level index).map FixedBytes.toList ∨
      Collides hash160 (inputs (turns depth index) node siblings) (treeInputs depth level) := by
  induction depth generalizing level index node siblings with
  | zero =>
    obtain ⟨root, rfl⟩ := List.length_eq_one_iff.mp hlen
    obtain rfl := List.length_eq_zero_iff.mp hsiblings
    have hzero : index = 0 := Nat.lt_one_iff.mp hindex
    rw [hzero]
    exact .inl ⟨hroot, rfl⟩
  | succ depth ih =>
    obtain ⟨sibling, rest, rfl⟩ := List.exists_cons_of_length_eq_add_one hsiblings
    rw [head?_levels_succ hlen, turns_succ, fold] at hroot
    rw [turns_succ, inputs, treeInputs]
    have habove := ih (length_levelAbove_of_pow hlen) (by omega) (by simpa using hsiblings) hroot
    rcases habove with ⟨hparent, hrest⟩ | hcollides
    · -- The levels above are the tree's, so the node here has the hash of a string of the tree.
      rw [levelAbove_eq, List.getElem?_map, Option.map_eq_some_iff] at hparent
      obtain ⟨x, hx, hhash⟩ := hparent
      have hmem : x ∈ treeInputs depth (levelAbove level) ++ levelInputs level :=
        List.mem_append_right _ (List.mem_of_getElem? hx)
      rcases eq_or_collides hhash.symm List.mem_cons_self hmem with heq | hcollides
      · obtain ⟨node', sibling', hnode', hsibling', hjoin⟩ :=
          getElem?_levelInputs_eq_some_iff.mp (heq ▸ hx)
        obtain ⟨rfl, hsib⟩ := joinInput_inj hjoin
        refine .inl ⟨hnode', ?_⟩
        rw [levelPath, hsibling', List.map_append, ← hrest, ← hsib]
        rfl
      · exact .inr hcollides
    · exact .inr (hcollides.mono (List.subset_cons_self _ _) (List.subset_append_left _ _))

/-! ## The parent table -/

/-- The number of places in the table. -/
theorem length_parentTable (depth : Nat) : (parentTable depth).length = 2 ^ (depth + 1) - 1 := by
  induction depth with
  | zero => rfl
  | succ depth ih =>
    have hpairs : ∀ n first : Nat,
        ((List.range n).flatMap fun i => [first + i, first + i]).length = 2 * n := by
      intro n first
      rw [List.length_flatMap]
      simp [Nat.mul_comm]
    have hpos := Nat.two_pow_pos depth
    rw [parentTable, List.length_append, ih, hpairs, Nat.one_shiftLeft, pow_succ, pow_succ]
    omega

/-- A list in which every element stands twice. -/
theorem getElem?_flatMap_pair (f : Nat → Nat) (xs : List Nat) (i : Nat) :
    (xs.flatMap fun x => [f x, f x])[i]? = xs[i / 2]?.map f := by
  induction xs generalizing i with
  | nil => rfl
  | cons x xs ih =>
    match i with
    | 0 => rfl
    | 1 => rfl
    | i + 2 =>
      rw [List.flatMap_cons, Nat.add_div_right i (by decide)]
      exact ih i

/-- The last level's part of the table: the parent of a node stands in the level above at half its
place. -/
theorem getElem?_parentTable (hindex : index < 2 ^ (depth + 1)) :
    (parentTable (depth + 1))[2 ^ (depth + 1) - 1 + index]? = some (2 ^ depth - 1 + index / 2) := by
  have hhalf : index / 2 < 2 ^ depth := by
    rw [pow_succ] at hindex
    omega
  rw [parentTable, List.getElem?_append_right (by rw [length_parentTable]; omega),
    length_parentTable, Nat.add_sub_cancel_left, getElem?_flatMap_pair, Nat.one_shiftLeft,
    List.getElem?_range hhalf]
  rfl

/-- The sibling of a node stands in the same level on the other side. -/
theorem sibling_eq (depth index : Nat) :
    sibling (2 ^ (depth + 1) - 1 + index) = 2 ^ (depth + 1) - 1 + (index ^^^ 1) := by
  have hpos := Nat.two_pow_pos depth
  have htwice : 2 ^ (depth + 1) = 2 ^ depth * 2 := pow_succ 2 depth
  unfold sibling
  rcases Nat.even_or_odd index with h | h
  · rw [Nat.xor_one_of_even h]
    rw [Nat.even_iff] at h
    rw [if_pos (by omega)]
    omega
  · rw [Nat.xor_one_of_odd h]
    rw [Nat.odd_iff] at h
    rw [if_neg (by omega)]
    omega

/-- In a tree that starts with these levels, following the parent table from a node of the last of
them gives its path. -/
theorem climb_eq (t : MerkleTree) {steps : Nat} (hnodes : levels depth level <+: t.nodes.toList)
    (hparents : parentTable depth <+: t.parents.toList) (hlen : level.length = 2 ^ depth)
    (hindex : index < 2 ^ depth) (hsteps : depth ≤ steps) :
    t.climb steps (2 ^ depth - 1 + index) = levelPath depth level index := by
  induction depth generalizing level index steps with
  | zero =>
    obtain rfl := Nat.lt_one_iff.mp hindex
    cases steps with
    | zero => rfl
    | succ steps => exact if_pos rfl
  | succ depth ih =>
    obtain ⟨steps, rfl⟩ : ∃ n, steps = n + 1 := ⟨steps - 1, by omega⟩
    have hpos := Nat.two_pow_pos depth
    have hpow : 2 ^ (depth + 1) = 2 ^ depth * 2 := pow_succ 2 depth
    have hroot : ¬ 2 ^ (depth + 1) - 1 + index = 0 := by omega
    obtain ⟨below, hnodes⟩ := hnodes
    obtain ⟨others, hparents⟩ := hparents
    -- The last level stands behind the levels above it, in the nodes as in the parent table.
    have hsibling : t.nodes[2 ^ (depth + 1) - 1 + (index ^^^ 1)]? = level[index ^^^ 1]? := by
      have hplace : 2 ^ (depth + 1) - 1 + (index ^^^ 1) < (levels (depth + 1) level).length := by
        have hother := xor_one_lt hindex
        rw [length_levels_of_pow hlen, pow_succ 2 (depth + 1)]
        omega
      rw [← Array.getElem?_toList, ← hnodes, List.getElem?_append_left hplace,
        getElem?_levels_last hlen]
    have hparent : t.parents.getD (2 ^ (depth + 1) - 1 + index) 0 = 2 ^ depth - 1 + index / 2 := by
      have hplace : 2 ^ (depth + 1) - 1 + index < (parentTable (depth + 1)).length := by
        rw [length_parentTable, pow_succ 2 (depth + 1)]
        omega
      rw [Array.getD_eq_getD_getElem?, ← Array.getElem?_toList, ← hparents,
        List.getElem?_append_left hplace, getElem?_parentTable hindex]
      rfl
    -- The tree starts with the levels above as well, so the path goes on in them.
    have hnodesAbove : levels depth (levelAbove level) <+: t.nodes.toList := by
      rw [← hnodes, levels, List.append_assoc]
      exact List.prefix_append _ _
    have hparentsAbove : parentTable depth <+: t.parents.toList := by
      rw [← hparents, parentTable, List.append_assoc]
      exact List.prefix_append _ _
    rw [climb, if_neg hroot, sibling_eq, hsibling, hparent, levelPath,
      ih hnodesAbove hparentsAbove (length_levelAbove_of_pow hlen) (by omega) (by omega)]

/-! ## Trees -/

/-- The number of leaves as a power of two. -/
theorem leafCount_eq_two_pow (t : MerkleTree) : t.leafCount = 2 ^ t.depth := Nat.one_shiftLeft _

/-- The root is the first node. -/
theorem getElem?_nodes_zero (t : MerkleTree) : t.nodes[0]? = some t.root :=
  Array.getElem?_eq_getElem _

/-- The tree over these leaves. -/
structure IsOver (t : MerkleTree) (leaves : List Hash160) : Prop where
  /-- The leaves make a full level. -/
  length_leaves : leaves.length = 2 ^ t.depth
  /-- The nodes are those of the levels. -/
  nodes_eq : t.nodes.toList = levels t.depth leaves
  /-- The parents are those of the levels. -/
  parents_eq : t.parents.toList = parentTable t.depth

/-- An index that has no leaf is refused. -/
theorem index_eq_error {t : MerkleTree} {leaf : Nat} (hleaf : t.leafCount ≤ leaf) :
    t.index leaf = .error (.leafOutOfRange leaf t.leafCount) :=
  dif_neg (Nat.not_lt.mpr hleaf)

/-- There is no authentication path of an index that has no leaf. -/
theorem authPath_eq_error {t : MerkleTree} {leaf : Nat} (hleaf : t.leafCount ≤ leaf) :
    t.authPath leaf = .error (.leafOutOfRange leaf t.leafCount) := by
  unfold authPath
  rw [index_eq_error hleaf, error_bind]

/-- A tree that is built is the one over its leaves. -/
theorem isOver_of_ofLeaves {leaves : List Hash160} {t : MerkleTree} (h : ofLeaves leaves = .ok t) :
    t.IsOver leaves := by
  simp only [ofLeaves] at h
  split at h
  next hlen =>
    cases h
    exact ⟨by rwa [Nat.one_shiftLeft] at hlen, rfl, rfl⟩
  next => nomatch h

/-- Over a power of two leaves a tree is built. -/
theorem exists_ofLeaves {leaves : List Hash160} (hlen : leaves.length = 2 ^ depth) :
    ∃ t, ofLeaves leaves = .ok t ∧ t.depth = depth := by
  have hlog : leaves.length.log2 = depth := by rw [hlen, Nat.log2_two_pow]
  have hshape : leaves.length = 1 <<< leaves.length.log2 := by
    rw [hlog, Nat.one_shiftLeft, hlen]
  simp only [ofLeaves, dif_pos hshape]
  exact ⟨_, rfl, hlog⟩

namespace IsOver

variable {t : MerkleTree} {leaves : List Hash160} (h : t.IsOver leaves)
include h

/-- The root is the first node of the levels. -/
theorem head?_levels : (levels t.depth leaves).head? = some t.root := by
  rw [← h.nodes_eq, List.head?_eq_getElem?, Array.getElem?_toList, t.getElem?_nodes_zero]

/-- The climb from a leaf is never cut short, and gives the path through the levels. -/
theorem climb_eq {index : Nat} (hindex : index < 2 ^ t.depth) :
    t.climb t.nodes.size (2 ^ t.depth - 1 + index) = levelPath t.depth leaves index := by
  -- The climb may take as many steps as there are nodes, which is more than there are levels.
  have hsteps : t.depth ≤ t.nodes.size := by
    have hdepth : t.depth < 2 ^ t.depth := Nat.lt_two_pow_self
    rw [t.size_nodes, Nat.one_shiftLeft, pow_succ]
    omega
  exact MerkleTree.climb_eq t (h.nodes_eq ▸ List.prefix_rfl) (h.parents_eq ▸ List.prefix_rfl)
    h.length_leaves hindex hsteps

/-- The path of a leaf is the one through the levels, and it is always found. -/
theorem path_eq (leaf : Fin t.leafCount) :
    t.path leaf = .ok (levelPath t.depth leaves leaf) := by
  obtain ⟨index, hleaf⟩ := leaf
  have hindex : index < 2 ^ t.depth := t.leafCount_eq_two_pow ▸ hleaf
  simp only [path, t.leafCount_eq_two_pow, h.climb_eq hindex]
  rw [if_pos (length_levelPath h.length_leaves hindex)]

/-- The authentication path of an index that has a leaf. -/
theorem authPath_eq {index : Nat} (hindex : index < t.leafCount) :
    t.authPath index = .ok (levelPath t.depth leaves index) := by
  unfold authPath MerkleTree.index
  rw [dif_pos hindex, ok_bind, h.path_eq]

/-- From a leaf its path leads to the root. -/
theorem fold_levelPath {node : Hash160} {index : Nat} (hnode : leaves[index]? = some node) :
    fold (turns t.depth index) node ((levelPath t.depth leaves index).map FixedBytes.toList) =
      t.root := by
  have hfold := MerkleTree.fold_levelPath h.length_leaves hnode
  rw [h.head?_levels] at hfold
  exact (Option.some.inj hfold).symm

/-- What leads to the root is a leaf and its path, or something collides. An index beyond the tree
means the leaf of its remainder. -/
theorem leaf_or_collides {node : Hash160} {index : Nat} {siblings : List Bytes}
    (hsiblings : siblings.length = t.depth)
    (hroot : fold (turns t.depth index) node siblings = t.root) :
    leaves[index % 2 ^ t.depth]? = some node ∧
        siblings = (levelPath t.depth leaves (index % 2 ^ t.depth)).map FixedBytes.toList ∨
      Collides hash160 (inputs (turns t.depth index) node siblings)
        (treeInputs t.depth leaves) := by
  rw [← turns_mod] at hroot ⊢
  have hindex := Nat.mod_lt index (Nat.two_pow_pos t.depth)
  apply MerkleTree.leaf_or_collides h.length_leaves hindex hsiblings
  rw [h.head?_levels, hroot]

end IsOver

end OneTimeSig.MerkleTree
