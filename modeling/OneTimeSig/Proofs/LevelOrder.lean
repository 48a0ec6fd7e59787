import Mathlib.Tactic.Ring
import OneTimeSig.Proofs.MerkleTree

/-!
# The order of the nodes

A tree keeps its nodes in one array, level after level. What holds of every inner node there is that
its children stand at twice its place and that it has the hash of both (`exists_children`). This is
proved level by level, as the levels are made, and the rest is read off the array: from the leaves
upwards, every node is the root that halving finds for the leaves below it
(`IsOver.halvedRoot?_stretch`). `IsLevelOrdered` gathers what is known of the two arrays, and
`ofLeaves_levelOrdered` says over which leaves a tree is built and that it is ordered so.
-/

namespace OneTimeSig.MerkleTree

/-! ## Roots by halving -/

/-- The root over the leaves, found by halving them: a single leaf is its own root, and otherwise the
roots of the two halves are hashed together. Over no leaves there is none. -/
def halvedRoot? (leaves : List Hash160) : Option Hash160 :=
  if leaves.length ≤ 1 then leaves.head?
  else
    (halvedRoot? (leaves.take (leaves.length / 2))).bind fun left =>
      (halvedRoot? (leaves.drop (leaves.length / 2))).map fun right =>
        hash160 (left.toList ++ right.toList)
termination_by leaves.length
decreasing_by all_goals simp only [List.length_take, List.length_drop]; omega

/-- A single leaf is its own root. -/
theorem halvedRoot?_singleton (leaf : Hash160) : halvedRoot? [leaf] = some leaf := by
  unfold halvedRoot?
  rfl

/-- The roots of two halves are joined. -/
theorem halvedRoot?_append {left right : List Hash160} {l r : Hash160}
    (hlen : left.length = right.length) (hpos : 0 < right.length)
    (hleft : halvedRoot? left = some l) (hright : halvedRoot? right = some r) :
    halvedRoot? (left ++ right) = some (join l r) := by
  have hhalf : (left ++ right).length / 2 = left.length := by
    rw [List.length_append, ← hlen]
    omega
  have hmany : ¬ (left ++ right).length ≤ 1 := by
    rw [List.length_append]
    omega
  unfold halvedRoot?
  rw [if_neg hmany, hhalf, List.take_left, List.drop_left, hleft, hright]
  rfl

/-! ## The array of the nodes -/

variable {depth : Nat} {level : List Hash160}

/-- The node above two neighbours. -/
theorem getElem?_levelAbove {index : Nat} {left right : Hash160}
    (hleft : level[2 * index]? = some left) (hright : level[2 * index + 1]? = some right) :
    (levelAbove level)[index]? = some (join left right) := by
  rw [levelAbove_eq, List.getElem?_map, getElem?_levelInputs, hleft, hright]
  rfl

/-- An inner node has the hash of its children, which stand at twice its place. -/
theorem exists_children (hlen : level.length = 2 ^ depth) {place : Nat}
    (hplace : place + 1 < 2 ^ depth) :
    ∃ left right, (levels depth level)[2 * place + 1]? = some left ∧
      (levels depth level)[2 * place + 2]? = some right ∧
      (levels depth level)[place]? = some (join left right) := by
  induction depth generalizing level with
  | zero => exact absurd hplace (by omega)
  | succ depth ih =>
    have hpow : 2 ^ (depth + 1) = 2 ^ depth * 2 := pow_succ 2 depth
    have hlenAbove := length_levelAbove_of_pow hlen
    have hnode := getElem?_levels_above hlen (show place < 2 ^ (depth + 1) - 1 by omega)
    rcases Nat.lt_or_ge (place + 1) (2 ^ depth) with habove | hlast
    · -- The children stand in the levels above as well.
      rw [getElem?_levels_above hlen (by omega), getElem?_levels_above hlen (by omega), hnode]
      exact ih hlenAbove habove
    · -- The node is in the level above this one, and its children are neighbours in this one.
      obtain ⟨i, rfl⟩ : ∃ i, place = 2 ^ depth - 1 + i := ⟨place - (2 ^ depth - 1), by omega⟩
      have hleft : level[2 * i]? = some level[2 * i] := List.getElem?_eq_getElem (by omega)
      have hright : level[2 * i + 1]? = some level[2 * i + 1] := List.getElem?_eq_getElem (by omega)
      have hplaceLeft : 2 * (2 ^ depth - 1 + i) + 1 = 2 ^ (depth + 1) - 1 + 2 * i := by omega
      have hplaceRight : 2 * (2 ^ depth - 1 + i) + 2 = 2 ^ (depth + 1) - 1 + (2 * i + 1) := by omega
      rw [hnode, hplaceLeft, hplaceRight, getElem?_levels_last hlen, getElem?_levels_last hlen,
        getElem?_levels_last hlenAbove]
      exact ⟨_, _, hleft, hright, getElem?_levelAbove hleft hright⟩

/-! ## The parent table -/

/-- The parent of a node stands at half its place, and the root is its own parent. -/
theorem getElem?_parentTable_of_lt {place : Nat} (hplace : place < 2 ^ (depth + 1) - 1) :
    (parentTable depth)[place]? = some ((place - 1) / 2) := by
  induction depth with
  | zero =>
    obtain rfl : place = 0 := by omega
    rfl
  | succ depth ih =>
    have hpow : 2 ^ (depth + 2) = 2 ^ (depth + 1) * 2 := pow_succ 2 (depth + 1)
    rcases Nat.lt_or_ge place (2 ^ (depth + 1) - 1) with habove | hlast
    · rw [parentTable, List.getElem?_append_left (by rwa [length_parentTable]), ih habove]
    · obtain ⟨i, rfl⟩ : ∃ i, place = 2 ^ (depth + 1) - 1 + i :=
        ⟨place - (2 ^ (depth + 1) - 1), by omega⟩
      have hparent : (2 ^ (depth + 1) - 1 + i - 1) / 2 = 2 ^ depth - 1 + i / 2 := by
        have hpos := Nat.two_pow_pos depth
        rw [pow_succ]
        omega
      rw [getElem?_parentTable (by omega), hparent]

/-! ## Trees -/

/-- What stands where in a tree over the leaves. -/
structure IsLevelOrdered (t : MerkleTree) (leaves : List Hash160) : Prop where
  /-- There are twice as many nodes as leaves, less one. -/
  size_nodes : t.nodes.size = 2 * leaves.length - 1
  /-- Every node has an entry in the parent table. -/
  size_parents : t.parents.size = 2 * leaves.length - 1
  /-- The leaves are the given ones in order. -/
  leaf?_eq : ∀ i < leaves.length, t.leaf? i = leaves[i]?
  /-- The root is its own parent. -/
  parent_root : t.parents[0]? = some 0
  /-- The parent of another node stands at half its place. -/
  parent_eq : ∀ c < 2 * leaves.length - 1, 0 < c → t.parents[c]? = some ((c - 1) / 2)
  /-- An inner node has the hash of its two children. -/
  inner : ∀ p, p + 1 < leaves.length → ∃ left right, t.nodes[2 * p + 1]? = some left ∧
    t.nodes[2 * p + 2]? = some right ∧ t.nodes[p]? = some (hash160 (left.toList ++ right.toList))
  /-- A node of a level is the root over its share of the leaves. -/
  get?_eq : ∀ level ≤ t.depth, ∀ i < 2 ^ level, ∃ node, t.get? level i = some node ∧
    halvedRoot? (leaves.extract (i * leaves.length / 2 ^ level)
      ((i + 1) * leaves.length / 2 ^ level)) = some node
  /-- The root is the root over all leaves. -/
  root_eq : halvedRoot? leaves = some t.root

/-- A node counted from the start of a level. -/
theorem get?_eq (t : MerkleTree) {level : Nat} (hlevel : level ≤ t.depth) (index : Nat) :
    t.get? level index = t.nodes[2 ^ level - 1 + index]? := by
  unfold get?
  rw [if_pos hlevel, Nat.one_shiftLeft]

/-- A stretch of leaves of twice the width is made of two stretches of the width. -/
theorem stretch_two_mul (leaves : List Hash160) (index width : Nat) :
    (leaves.drop (index * (width * 2))).take (width * 2) =
      (leaves.drop (2 * index * width)).take width ++
        (leaves.drop ((2 * index + 1) * width)).take width := by
  have hstart : index * (width * 2) = 2 * index * width := by ring
  have hmiddle : (2 * index + 1) * width = 2 * index * width + width := by ring
  rw [hstart, hmiddle, Nat.mul_two, List.take_add, List.drop_drop]

namespace IsOver

variable {t : MerkleTree} {leaves : List Hash160} (h : t.IsOver leaves)
include h

/-- The nodes are those of the levels. -/
theorem getElem?_nodes (place : Nat) : t.nodes[place]? = (levels t.depth leaves)[place]? := by
  rw [← Array.getElem?_toList, h.nodes_eq]

/-- The leaves are the given ones in order. -/
theorem leaf?_eq (index : Nat) : t.leaf? index = leaves[index]? := by
  unfold leaf?
  rw [t.get?_eq le_rfl, h.getElem?_nodes, getElem?_levels_last h.length_leaves]

/-- An inner node has the hash of its two children. -/
theorem exists_children {place : Nat} (hplace : place + 1 < leaves.length) :
    ∃ left right, t.nodes[2 * place + 1]? = some left ∧ t.nodes[2 * place + 2]? = some right ∧
      t.nodes[place]? = some (join left right) := by
  rw [h.length_leaves] at hplace
  simp only [h.getElem?_nodes]
  exact MerkleTree.exists_children h.length_leaves hplace

/-- The number of leaves below a node. -/
theorem length_stretch {level height index : Nat} (hheight : level + height = t.depth)
    (hindex : index < 2 ^ level) :
    ((leaves.drop (index * 2 ^ height)).take (2 ^ height)).length = 2 ^ height := by
  have hend : (index + 1) * 2 ^ height ≤ leaves.length :=
    calc (index + 1) * 2 ^ height
      _ ≤ 2 ^ level * 2 ^ height := Nat.mul_le_mul_right _ hindex
      _ = leaves.length := by rw [← pow_add, hheight, h.length_leaves]
  rw [Nat.succ_mul] at hend
  rw [List.length_take, List.length_drop]
  omega

/-- The children of a node stand in the next level at twice its place there. -/
theorem exists_children_of_level {level index : Nat} (hlevel : level < t.depth)
    (hindex : index < 2 ^ level) :
    ∃ left right, t.nodes[2 ^ (level + 1) - 1 + 2 * index]? = some left ∧
      t.nodes[2 ^ (level + 1) - 1 + (2 * index + 1)]? = some right ∧
      t.nodes[2 ^ level - 1 + index]? = some (join left right) := by
  have hpow : 2 ^ (level + 1) = 2 ^ level * 2 := pow_succ 2 level
  have hle : 2 ^ (level + 1) ≤ 2 ^ t.depth := Nat.pow_le_pow_right (by decide) hlevel
  have hinner : 2 ^ level - 1 + index + 1 < leaves.length := by
    rw [h.length_leaves]
    omega
  have hleft : 2 ^ (level + 1) - 1 + 2 * index = 2 * (2 ^ level - 1 + index) + 1 := by omega
  have hright : 2 ^ (level + 1) - 1 + (2 * index + 1) = 2 * (2 ^ level - 1 + index) + 2 := by omega
  rw [hleft, hright]
  exact h.exists_children hinner

/-- A node is the root over the leaves below it. -/
theorem halvedRoot?_stretch {level height index : Nat} {node : Hash160}
    (hheight : level + height = t.depth) (hindex : index < 2 ^ level)
    (hnode : t.nodes[2 ^ level - 1 + index]? = some node) :
    halvedRoot? ((leaves.drop (index * 2 ^ height)).take (2 ^ height)) = some node := by
  -- The induction goes from the leaves upwards.
  induction height generalizing level index node with
  | zero =>
    obtain rfl : level = t.depth := hheight
    rw [h.getElem?_nodes, getElem?_levels_last h.length_leaves] at hnode
    obtain ⟨hleaf, rfl⟩ := List.getElem?_eq_some_iff.mp hnode
    rw [pow_zero, Nat.mul_one, List.drop_eq_getElem_cons hleaf]
    exact halvedRoot?_singleton _
  | succ height ih =>
    have hbelow : level + 1 + height = t.depth := by omega
    have hindexLeft : 2 * index < 2 ^ (level + 1) := by
      rw [pow_succ]
      omega
    have hindexRight : 2 * index + 1 < 2 ^ (level + 1) := by
      rw [pow_succ]
      omega
    obtain ⟨left, right, hleft, hright, hjoin⟩ := h.exists_children_of_level (by omega) hindex
    obtain rfl : join left right = node := Option.some.inj (hjoin.symm.trans hnode)
    have hlenLeft := h.length_stretch hbelow hindexLeft
    have hlenRight := h.length_stretch hbelow hindexRight
    have hpos : 0 < ((leaves.drop ((2 * index + 1) * 2 ^ height)).take (2 ^ height)).length := by
      rw [hlenRight]
      exact Nat.two_pow_pos height
    rw [pow_succ, stretch_two_mul]
    exact halvedRoot?_append (hlenLeft.trans hlenRight.symm) hpos (ih hbelow hindexLeft hleft)
      (ih hbelow hindexRight hright)

/-- The share of the leaves that a node of a level stands over. -/
theorem extract_eq {level height : Nat} (hheight : level + height = t.depth) (index : Nat) :
    leaves.extract (index * leaves.length / 2 ^ level) ((index + 1) * leaves.length / 2 ^ level) =
      (leaves.drop (index * 2 ^ height)).take (2 ^ height) := by
  have hshare : ∀ i, i * leaves.length / 2 ^ level = i * 2 ^ height := by
    intro i
    calc i * leaves.length / 2 ^ level
      _ = 2 ^ level * (i * 2 ^ height) / 2 ^ level := by
        rw [h.length_leaves, ← hheight, pow_add, Nat.mul_left_comm]
      _ = i * 2 ^ height := Nat.mul_div_cancel_left _ (Nat.two_pow_pos level)
  rw [hshare, hshare, List.extract_eq_take_drop, Nat.succ_mul, Nat.add_sub_cancel_left]

/-- A node of a level is the root over its share of the leaves. -/
theorem exists_get? {level index : Nat} (hlevel : level ≤ t.depth) (hindex : index < 2 ^ level) :
    ∃ node, t.get? level index = some node ∧
      halvedRoot? (leaves.extract (index * leaves.length / 2 ^ level)
        ((index + 1) * leaves.length / 2 ^ level)) = some node := by
  obtain ⟨height, hheight⟩ := Nat.exists_eq_add_of_le hlevel
  have hplace : 2 ^ level - 1 + index < t.nodes.size := by
    have hle : 2 ^ level ≤ 2 ^ t.depth := Nat.pow_le_pow_right (by decide) hlevel
    rw [t.size_nodes, Nat.one_shiftLeft, pow_succ]
    omega
  have hnode := Array.getElem?_eq_getElem hplace
  rw [t.get?_eq hlevel, h.extract_eq hheight.symm]
  exact ⟨_, hnode, h.halvedRoot?_stretch hheight.symm hindex hnode⟩

/-- The root is the root over all leaves. -/
theorem halvedRoot?_leaves : halvedRoot? leaves = some t.root := by
  have hroot := h.halvedRoot?_stretch (Nat.zero_add t.depth) Nat.one_pos t.getElem?_nodes_zero
  rw [Nat.zero_mul, List.drop_zero, ← h.length_leaves, List.take_length] at hroot
  exact hroot

/-- A tree over leaves is ordered by levels. -/
theorem isLevelOrdered : t.IsLevelOrdered leaves := by
  have hnodes : 2 ^ (t.depth + 1) - 1 = 2 * leaves.length - 1 := by
    rw [h.length_leaves, pow_succ, Nat.mul_comm]
  have hpos : 0 < leaves.length := by
    rw [h.length_leaves]
    exact Nat.two_pow_pos _
  have hparent : ∀ c < 2 * leaves.length - 1, t.parents[c]? = some ((c - 1) / 2) := by
    intro c hc
    rw [← Array.getElem?_toList, h.parents_eq]
    exact getElem?_parentTable_of_lt (by rwa [hnodes])
  constructor
  case size_nodes => rw [t.size_nodes, Nat.one_shiftLeft, hnodes]
  case size_parents => rw [← Array.length_toList, h.parents_eq, length_parentTable, hnodes]
  case leaf?_eq => exact fun i _ => h.leaf?_eq i
  case parent_root => exact hparent 0 (by omega)
  case parent_eq => exact fun c hc _ => hparent c hc
  case inner => exact fun p hp => h.exists_children hp
  case get?_eq => exact fun level hlevel i hi => h.exists_get? hlevel hi
  case root_eq => exact h.halvedRoot?_leaves

end IsOver

/-- A tree is built exactly over a power of two leaves, and it is ordered by levels. -/
theorem ofLeaves_levelOrdered (leaves : List Hash160) :
    ((∃ t, ofLeaves leaves = .ok t) ↔ ∃ depth, leaves.length = 2 ^ depth) ∧
      (∀ e, ofLeaves leaves = .error e → e.kind = .structuralInvariant) ∧
      ∀ t, ofLeaves leaves = .ok t → leaves.length = 2 ^ t.depth ∧ t.IsLevelOrdered leaves := by
  refine ⟨⟨?_, ?_⟩, ?_, ?_⟩
  · rintro ⟨t, ht⟩
    exact ⟨t.depth, (isOver_of_ofLeaves ht).length_leaves⟩
  · rintro ⟨depth, hlen⟩
    obtain ⟨t, ht, -⟩ := exists_ofLeaves hlen
    exact ⟨t, ht⟩
  · intro e he
    simp only [ofLeaves] at he
    split at he
    next => cases he
    next =>
      obtain rfl := Except.error.inj he
      rfl
  · intro t ht
    have hover := isOver_of_ofLeaves ht
    exact ⟨hover.length_leaves, hover.isLevelOrdered⟩

/-- Four leaves. -/
def fourLeaves : List Hash160 := (List.range 4).map (FixedBytes.ofNat 20)

/-- Four leaves make a tree in level order, and three of them make none. -/
theorem ofLeaves_levelOrdered_four :
    (∃ t, ofLeaves fourLeaves = .ok t ∧ fourLeaves.length = 2 ^ t.depth ∧
      t.IsLevelOrdered fourLeaves) ∧
    ∃ e, ofLeaves fourLeaves.tail = .error e ∧ e.kind = .structuralInvariant := by
  obtain ⟨hbuilt, -, hordered⟩ := ofLeaves_levelOrdered fourLeaves
  obtain ⟨-, hrefused, -⟩ := ofLeaves_levelOrdered fourLeaves.tail
  obtain ⟨t, ht⟩ := hbuilt.mpr ⟨2, rfl⟩
  have herror : ofLeaves fourLeaves.tail = .error (.unbalancedTree 3) := rfl
  exact ⟨⟨t, ht, hordered t ht⟩, _, herror, hrefused _ herror⟩

end OneTimeSig.MerkleTree
