import OneTimeSig.Proofs.KeyPair

/-!
# Which digit trees are built, and what they prove

More leaves than a byte can index are refused for their number alone (`DigitTree.derive_of_gt`).
Else the leaves are derived in order, and what can fail then is one of them, or the tree over them
when their number is no power of two (`DigitTree.derive_of_le`, `DigitTree.exists_derive_iff`). A
tree that is built is honest, so it proves each digit that has a leaf, and its proofs lead to its
root. Both are put together in `DigitTree.derive_outcome`.
-/

namespace OneTimeSig

variable {node : Node} {e : Error}

/-- Deriving a leaf fails as deriving the child does. -/
theorem Leaf.derive_eq_error_iff {index : Nat} :
    derive node index = .error e ↔ node.child (UInt32.ofNat index) = .error e := by
  unfold derive
  rw [bind_eq_error_iff]
  constructor
  · rintro (h | ⟨child, -, h⟩)
    · exact h
    · cases h
  · exact .inl

namespace DigitTree

variable {leafCount : Nat} {t : DigitTree}

/-! ## Building -/

/-- Only for their number no tree is built over leaves. -/
theorem ofLeaves_eq_error {leaves : List Leaf} (h : ofLeaves leaves = .error e) :
    e = .unbalancedTree leaves.length := by
  unfold ofLeaves at h
  split at h
  next => nomatch h
  next e' he' =>
    obtain rfl := Except.error.inj h
    unfold MerkleTree.ofLeaves at he'
    dsimp only at he'
    split_ifs at he'
    rw [List.length_map] at he'
    exact (Except.error.inj he').symm

/-- A tree is built over a power of two leaves. -/
theorem exists_ofLeaves_iff {leaves : List Leaf} :
    (∃ t, ofLeaves leaves = .ok t) ↔ ∃ depth, leaves.length = 2 ^ depth := by
  constructor
  · rintro ⟨t, ht⟩
    have hlen := (MerkleTree.isOver_of_ofLeaves (ofLeaves_eq_ok ht).1).length_leaves
    rw [List.length_map] at hlen
    exact ⟨_, hlen⟩
  · rintro ⟨depth, hlen⟩
    exact exists_ofLeaves depth hlen

/-- Of a power of two leaves, the tree fails as the first leaf that fails. -/
theorem derive_eq_error_iff (hle : leafCount ≤ 256) {depth : Nat} (hpow : leafCount = 2 ^ depth) :
    derive node leafCount = .error e ↔
      FailsFirst (Leaf.derive node) (List.range leafCount) e := by
  rw [derive_of_le hle, bind_eq_error_iff, mapM_eq_error_iff]
  constructor
  · rintro (h | ⟨leaves, hleaves, h⟩)
    · exact h
    · have hlen := (mapM_eq_ok_iff.mp hleaves).length_eq
      rw [List.length_range, hpow] at hlen
      obtain ⟨t, ht⟩ := exists_ofLeaves depth hlen.symm
      rw [ht] at h
      nomatch h
  · exact .inl

section Derived

variable (hle : leafCount ≤ 256)
  (hchildren : ∀ index < leafCount, ∃ child, node.child (UInt32.ofNat index) = .ok child)
include hle hchildren

/-- When all leaves can be derived, it is the tree over them that decides. -/
theorem exists_derive_eq :
    ∃ leaves, leaves.length = leafCount ∧ derive node leafCount = ofLeaves leaves := by
  have hderived : ∀ index ∈ List.range leafCount, ∃ leaf, Leaf.derive node index = .ok leaf := by
    intro index hindex
    obtain ⟨child, hchild⟩ := hchildren index (List.mem_range.mp hindex)
    exact ⟨_, Leaf.derive_eq_ok_iff.mpr ⟨child, hchild, rfl⟩⟩
  obtain ⟨leaves, hleaves⟩ := exists_mapM_eq_ok hderived
  refine ⟨leaves, ?_, ?_⟩
  · rw [← (mapM_eq_ok_iff.mp hleaves).length_eq, List.length_range]
  · rw [derive_of_le hle, hleaves, ok_bind]

/-- Then a tree is derived exactly when the number of leaves is a power of two. -/
theorem exists_derive_iff :
    (∃ t, derive node leafCount = .ok t) ↔ ∃ depth, leafCount = 2 ^ depth := by
  obtain ⟨leaves, hlen, hderive⟩ := exists_derive_eq hle hchildren
  rw [hderive, exists_ofLeaves_iff, hlen]

/-- Then nothing but the structure of the tree can be wrong. -/
theorem kind_of_derive (he : derive node leafCount = .error e) : e.kind = .structuralInvariant := by
  obtain ⟨leaves, -, hderive⟩ := exists_derive_eq hle hchildren
  rw [hderive] at he
  obtain rfl := ofLeaves_eq_error he
  rfl

end Derived

/-! ## The law of digit trees -/

/-- A derived tree has as many levels below its root as the number of leaves says. -/
theorem leafCount_depth_of_derive (h : derive node leafCount = .ok t) :
    t.tree.leafCount = leafCount ∧ t.tree.depth = leafCount.log2 := by
  have hcount : t.tree.leafCount = leafCount := by
    rw [← t.size_leaves, (isHonest_of_derive h).2]
  refine ⟨hcount, ?_⟩
  rw [← hcount, t.tree.leafCount_eq_two_pow, Nat.log2_two_pow]

/-- When a tree is built and what it proves. Too many leaves are refused whatever the node is. Else,
when all leaves can be derived, the tree is built exactly over a power of two of them, and what is
wrong otherwise is its structure. A tree that is built proves exactly the digits that have a leaf,
and refuses any other as an input that cannot be used. A proof is of the digit and reveals the
preimage of its leaf, has one sibling on each level, and leads to the root. -/
theorem derive_outcome (node : Node) (leafCount : Nat) :
    (256 < leafCount → ∃ e, derive node leafCount = .error e ∧ e.kind = .precondition) ∧
    (leafCount ≤ 256 →
      (∀ index < leafCount, ∃ child, node.child (UInt32.ofNat index) = .ok child) →
        ((∃ t, derive node leafCount = .ok t) ↔ ∃ depth, leafCount = 2 ^ depth) ∧
        ∀ e, derive node leafCount = .error e → e.kind = .structuralInvariant) ∧
    ∀ t, derive node leafCount = .ok t → ∀ digit : UInt8,
      ((∃ p, t.prove digit = .ok p) ↔ digit.toNat < leafCount) ∧
      (∀ e, t.prove digit = .error e → e.kind = .precondition) ∧
      ∀ p, t.prove digit = .ok p →
        p.control = digit ∧
          (∃ leaf, t.leaves[digit.toNat]? = some leaf ∧ p.preimage = leaf.preimage) ∧
          p.siblings.length = leafCount.log2 ∧ p.recoverRoot = t.root := by
  refine ⟨fun hgt => ⟨_, derive_of_gt hgt, rfl⟩, fun hle hchildren => ?_, fun t ht digit => ?_⟩
  · exact ⟨exists_derive_iff hle hchildren, fun e => kind_of_derive hle hchildren⟩
  · obtain ⟨hhonest, -⟩ := isHonest_of_derive ht
    obtain ⟨hcount, hdepth⟩ := leafCount_depth_of_derive ht
    rw [← hdepth, ← hcount]
    refine ⟨⟨fun ⟨p, hp⟩ => lt_of_prove hp, fun hlt => ⟨_, hhonest.prove_eq hlt⟩⟩,
      fun e => hhonest.kind_of_prove, fun p hp => ?_⟩
    obtain ⟨hcontrol, hsiblings, hroot⟩ := hhonest.recoverRoot_of_prove hp
    have hlt := lt_of_prove hp
    have hindex : digit.toNat < t.leaves.size := by rwa [t.size_leaves]
    rw [hhonest.prove_eq hlt] at hp
    obtain rfl := Except.ok.inj hp
    exact ⟨hcontrol, ⟨_, Array.getElem?_eq_getElem hindex, rfl⟩, hsiblings, hroot⟩

/-- Some node has a tree of two leaves, which proves the digit 1 and refuses the digit 2, and no
tree of no leaves. A node that has no children refuses 257 leaves for their number all the same. -/
theorem derive_outcome_two :
    ∃ node deep : Node, deep.child 0 = .error .derivationTooDeep ∧
      (∃ e, derive deep 257 = .error e ∧ e.kind = .precondition) ∧
      (∃ e, derive node 0 = .error e ∧ e.kind = .structuralInvariant) ∧
      ∃ t, derive node 2 = .ok t ∧
        (∃ p, t.prove 1 = .ok p ∧ p.control = 1 ∧ p.siblings.length = 1 ∧ p.recoverRoot = t.root) ∧
        ∃ e, t.prove 2 = .error e ∧ e.kind = .precondition := by
  -- The tree is the one of the only digit of a generated key.
  obtain ⟨kp, hkp⟩ := Scheme.exists_keyPair_smallest
  obtain ⟨-, keys, trees, -, -, htrees, -⟩ := Scheme.keyPair_eq_ok_iff.mp hkp
  obtain ⟨t, -, htree, -⟩ := List.forall₂_cons_left_iff.mp htrees
  rw [Scheme.outcome_deriveTree] at htree
  obtain ⟨node, -, ht⟩ := bind_eq_ok_iff.mp htree
  obtain ⟨-, hempty, -⟩ := derive_outcome node 0
  obtain ⟨hiff, hstructure⟩ :=
    hempty (by decide) fun index hindex => absurd hindex index.not_lt_zero
  obtain ⟨hone, -, hproof⟩ := (derive_outcome node 2).2.2 t ht 1
  obtain ⟨p, hp⟩ := hone.mpr (by decide)
  obtain ⟨hcontrol, -, hsiblings, hroot⟩ := hproof p hp
  obtain ⟨htwo, hrefused, -⟩ := (derive_outcome node 2).2.2 t ht 2
  refine ⟨node, { node with depth := 255 }, rfl, (derive_outcome _ 257).1 (by decide), ?_, t, ht,
    ⟨p, hp, hcontrol, hsiblings, hroot⟩, ?_⟩
  · cases hderive : derive node 0 with
    | error e => exact ⟨e, rfl, hstructure e hderive⟩
    | ok t =>
      obtain ⟨depth, hdepth⟩ := hiff.mp ⟨t, hderive⟩
      exact absurd hdepth.symm (Nat.two_pow_pos depth).ne'
  · cases hprove : t.prove 2 with
    | error e => exact ⟨e, rfl, hrefused e hprove⟩
    | ok p => exact absurd (htwo.mp ⟨p, hprove⟩) (by decide)

end DigitTree

end OneTimeSig
