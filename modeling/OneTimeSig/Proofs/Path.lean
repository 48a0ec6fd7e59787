import Mathlib.Data.Nat.Bitwise
import OneTimeSig.DigitProof

/-!
# Paths and the strings that are hashed on them

A path is climbed by joining a node with a sibling on every level. `Path.fold` does so along any
turns and with any byte strings in the place of the siblings, and `Path.inputs` lists the strings
that it hashes. The fold of a proof is the case in which the turns are the bits of the digit
(`DigitProof.recoverRoot_eq`).

Nothing is assumed of the hashes. A statement that would need one of them to be injective ends with
`Collides` instead, which names two different strings with the same hash and says where each of them
was hashed. So, `turnsAlike_or_collides` compares two ways up the same path: they only end in the
same node when they hash the same strings on every level, unless strings of theirs collide.
-/

namespace OneTimeSig

/-! ## Collisions -/

/-- Two different strings, the first from `xs` and the second from `ys`, have the same hash. -/
def Collides {n : Nat} (hash : Bytes → FixedBytes n) (xs ys : List Bytes) : Prop :=
  ∃ x ∈ xs, ∃ y ∈ ys, x ≠ y ∧ hash x = hash y

section

variable {n : Nat} {hash : Bytes → FixedBytes n} {x y : Bytes} {xs xs' ys ys' : List Bytes}

/-- A collision stays one among more strings. -/
theorem Collides.mono (h : Collides hash xs ys) (hx : xs ⊆ xs') (hy : ys ⊆ ys') :
    Collides hash xs' ys' := by
  obtain ⟨x, hxs, y, hys, hne, heq⟩ := h
  exact ⟨x, hx hxs, y, hy hys, hne, heq⟩

/-- Strings with the same hash are the same, or they collide. -/
theorem eq_or_collides (h : hash x = hash y) (hx : x ∈ xs) (hy : y ∈ ys) :
    x = y ∨ Collides hash xs ys := by
  rcases eq_or_ne x y with heq | hne
  · exact .inl heq
  · exact .inr ⟨x, hx, y, hy, hne, h⟩

end

namespace Path

/-! ## Turns -/

/-- The turns on the path to the leaf of an index, from the leaf's level to the root's: a bit is set
where the node is the right child. -/
def turns (depth index : Nat) : List Bool :=
  (List.range depth).map index.testBit

@[simp]
theorem length_turns (depth index : Nat) : (turns depth index).length = depth := by
  simp [turns]

/-- The lowest bit is the turn at the leaf, and the others lead on from the node above it. -/
theorem turns_succ (depth index : Nat) :
    turns (depth + 1) index = index.testBit 0 :: turns depth (index / 2) := by
  unfold turns
  rw [List.range_succ_eq_map, List.map_cons, List.map_map]
  congr 1
  refine List.map_congr_left fun level _ => ?_
  exact Nat.testBit_succ index level

/-- An index beyond the tree turns as its remainder does. -/
theorem turns_mod (depth index : Nat) : turns depth (index % 2 ^ depth) = turns depth index := by
  refine List.map_congr_left fun level hlevel => ?_
  rw [Nat.testBit_mod_two_pow, decide_eq_true (List.mem_range.mp hlevel), Bool.true_and]

/-! ## One level -/

/-- What is hashed to join a node with its sibling, which stands on the left when the node is the
right child. -/
def joinInput (right : Bool) (node : Hash160) (sibling : Bytes) : Bytes :=
  if right then sibling ++ node.toList else node.toList ++ sibling

/-- What is hashed shows the node and the sibling, as the width of the node is known. -/
theorem joinInput_inj {right : Bool} {node node' : Hash160} {sibling sibling' : Bytes}
    (h : joinInput right node sibling = joinInput right node' sibling') :
    node = node' ∧ sibling = sibling' := by
  have hlen : node.toList.length = node'.toList.length := by
    rw [node.length_toList, node'.length_toList]
  unfold joinInput at h
  cases right with
  | true =>
    obtain ⟨hsibling, hnode⟩ := List.append_inj' h hlen
    exact ⟨FixedBytes.ext hnode, hsibling⟩
  | false =>
    obtain ⟨hnode, hsibling⟩ := List.append_inj h hlen
    exact ⟨FixedBytes.ext hnode, hsibling⟩

/-- A node and its sibling can change sides when they are the same. -/
theorem joinInput_eq_iff {right right' : Bool} {node node' sibling : Hash160} :
    joinInput right node sibling.toList = joinInput right' node' sibling.toList ↔
      node = node' ∧ (right = right' ∨ sibling = node) := by
  constructor
  · intro h
    have hlen : ∀ a b : Hash160, a.toList.length = b.toList.length := fun a b => by
      rw [a.length_toList, b.length_toList]
    rcases eq_or_ne right right' with rfl | hturn
    · exact ⟨(joinInput_inj h).1, .inl rfl⟩
    · -- The node stands where the other side has the sibling, and the sibling where the node is.
      unfold joinInput at h
      cases right with
      | true =>
        rw [Bool.eq_false_of_not_eq_true hturn.symm] at h
        obtain ⟨hleft, hright⟩ := List.append_inj h (hlen _ _)
        have hnode : node = sibling := FixedBytes.ext hright
        exact ⟨hnode.trans (FixedBytes.ext hleft), .inr hnode.symm⟩
      | false =>
        rw [Bool.eq_true_of_not_eq_false hturn.symm] at h
        obtain ⟨hleft, hright⟩ := List.append_inj h (hlen _ _)
        have hnode : node = sibling := FixedBytes.ext hleft
        exact ⟨hnode.trans (FixedBytes.ext hright), .inr hnode.symm⟩
  · rintro ⟨rfl, rfl | rfl⟩
    · rfl
    · simp [joinInput]

/-! ## All levels -/

/-- Joins a node with the siblings in turn, and turns as the bits say. -/
def fold : List Bool → Hash160 → List Bytes → Hash160
  | right :: turns, node, sibling :: rest =>
    fold turns (hash160 (joinInput right node sibling)) rest
  | _, node, _ => node

/-- The strings that the fold hashes, from the leaf's level to the root's. -/
def inputs : List Bool → Hash160 → List Bytes → List Bytes
  | right :: turns, node, sibling :: rest =>
    joinInput right node sibling ::
      inputs turns (hash160 (joinInput right node sibling)) rest
  | _, _, _ => []

/-- On every level where the turns differ, the node is its own sibling, so that the order in which
the two are joined is of no account. -/
def TurnsAlike : List Bool → List Bool → Hash160 → List Hash160 → Prop
  | right :: turns, right' :: turns', node, sibling :: rest =>
    (right = right' ∨ sibling = node) ∧
      TurnsAlike turns turns' (hash160 (joinInput right node sibling.toList)) rest
  | _, _, _, _ => True

/-- The same turns are alike. -/
theorem turnsAlike_refl (turns : List Bool) (node : Hash160) (siblings : List Hash160) :
    TurnsAlike turns turns node siblings := by
  induction turns generalizing node siblings with
  | nil => trivial
  | cons right turns ih =>
    cases siblings with
    | nil => trivial
    | cons sibling rest => exact ⟨.inl rfl, ih _ _⟩

/-- Turns that are alike lead to the same node. -/
theorem fold_eq_of_turnsAlike {turns turns' : List Bool} {node : Hash160} {siblings : List Hash160}
    (hlen : turns.length = turns'.length) (h : TurnsAlike turns turns' node siblings) :
    fold turns node (siblings.map FixedBytes.toList) =
      fold turns' node (siblings.map FixedBytes.toList) := by
  induction turns generalizing turns' node siblings with
  | nil =>
    rw [List.length_nil, eq_comm, List.length_eq_zero_iff] at hlen
    rw [hlen]
  | cons right turns ih =>
    obtain ⟨right', turns', rfl⟩ := List.exists_cons_of_length_eq_add_one hlen.symm
    cases siblings with
    | nil => rfl
    | cons sibling rest =>
      -- Where the turns differ the node and its sibling are the same, so both ways join alike.
      have hjoin : joinInput right node sibling.toList = joinInput right' node sibling.toList :=
        joinInput_eq_iff.mpr ⟨rfl, h.1⟩
      rw [List.map_cons, fold, fold, ← hjoin]
      exact ih (by simpa using hlen) h.2

/-- Turns that lead to the same node start from the same node and are alike, unless two strings that
are hashed on the way collide. -/
theorem turnsAlike_or_collides {turns turns' : List Bool} {node node' : Hash160}
    {siblings : List Hash160} (hturns : turns.length = turns'.length)
    (h : fold turns node (siblings.map FixedBytes.toList) =
      fold turns' node' (siblings.map FixedBytes.toList)) :
    node = node' ∧ TurnsAlike turns turns' node siblings ∨
      Collides hash160 (inputs turns node (siblings.map FixedBytes.toList))
        (inputs turns' node' (siblings.map FixedBytes.toList)) := by
  induction turns generalizing turns' node node' siblings with
  | nil =>
    rw [List.length_nil, eq_comm, List.length_eq_zero_iff] at hturns
    rw [hturns] at h
    exact .inl ⟨h, trivial⟩
  | cons right turns ih =>
    obtain ⟨right', turns', rfl⟩ := List.exists_cons_of_length_eq_add_one hturns.symm
    cases siblings with
    | nil => exact .inl ⟨h, trivial⟩
    | cons sibling rest =>
      rw [List.map_cons, fold, fold] at h
      rw [List.map_cons, inputs, inputs]
      -- The levels above are compared first, and this level by what it hands to them.
      rcases ih (by simpa using hturns) h with ⟨hhash, halike⟩ | hcollides
      · rcases eq_or_collides hhash List.mem_cons_self List.mem_cons_self with hjoin | hcollides
        · obtain ⟨hnode, hturn⟩ := joinInput_eq_iff.mp hjoin
          exact .inl ⟨hnode, hturn, halike⟩
        · exact .inr hcollides
      · exact .inr (hcollides.mono (List.subset_cons_self _ _) (List.subset_cons_self _ _))

end Path

namespace DigitProof

/-- The fold of a proof turns as the bits of its directions. -/
theorem fold_eq (directions : Nat) (node : Hash160) (siblings : List Hash160) :
    fold directions node siblings =
      Path.fold (Path.turns siblings.length directions) node
        (siblings.map FixedBytes.toList) := by
  induction siblings generalizing directions node with
  | nil => rfl
  | cons sibling rest ih =>
    have hjoin : (if directions % 2 = 1 then MerkleTree.join sibling node
        else MerkleTree.join node sibling) =
        hash160 (Path.joinInput (directions.testBit 0) node sibling.toList) := by
      unfold Path.joinInput MerkleTree.join
      rw [Nat.testBit_zero]
      split_ifs <;> simp_all
    rw [fold, ih, hjoin, List.length_cons, Path.turns_succ]
    rfl

/-- The root of a proof is found by folding its siblings from the leaf upwards. -/
theorem recoverRoot_eq (p : DigitProof) :
    p.recoverRoot =
      Path.fold (Path.turns p.siblings.length p.control.toNat) (leafHash p.control p.preimage)
        (p.siblings.reverse.map FixedBytes.toList) := by
  rw [recoverRoot, fold_eq, List.length_reverse]

/-- The strings that are hashed to recover the root: that of the leaf, and those on the path. -/
def inputs (p : DigitProof) : List Bytes :=
  (p.control :: p.preimage.toList) ::
    Path.inputs (Path.turns p.siblings.length p.control.toNat) (leafHash p.control p.preimage)
      (p.siblings.reverse.map FixedBytes.toList)

end DigitProof

end OneTimeSig
