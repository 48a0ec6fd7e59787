import OneTimeSig.Proofs.LevelOrder

/-!
# A root binds its leaves

Two trees of the same size with the same root are compared from the root downwards. Where both have
the same node, the strings that were hashed to make it are the same, and with them the children on
both sides, or they are a collision at that place (`children_eq_or_collideAt`). A node is reached from
the root over places that are smaller than its own, so without a collision all nodes are the same
(`nodes_eq_or_collideAt`), and the leaves among them.
-/

open OneTimeSig.Path

namespace OneTimeSig.MerkleTree

/-- Both trees have the same node in this place, and it is the hash of different strings. -/
def CollideAt (t t' : MerkleTree) (place : Nat) : Prop :=
  ∃ left right left' right' : Hash160,
    t.nodes[2 * place + 1]? = some left ∧ t.nodes[2 * place + 2]? = some right ∧
    t'.nodes[2 * place + 1]? = some left' ∧ t'.nodes[2 * place + 2]? = some right' ∧
    t.nodes[place]? = some (hash160 (left.toList ++ right.toList)) ∧
    t'.nodes[place]? = some (hash160 (left'.toList ++ right'.toList)) ∧
    hash160 (left.toList ++ right.toList) = hash160 (left'.toList ++ right'.toList) ∧
    left.toList ++ right.toList ≠ left'.toList ++ right'.toList

section

variable {t t' : MerkleTree} {leaves leaves' : List Hash160} (h : t.IsLevelOrdered leaves)
  (h' : t'.IsLevelOrdered leaves') (hlen : leaves.length = leaves'.length)
include h h' hlen

/-- Below the same inner node stand the same children, unless the trees collide there. -/
theorem children_eq_or_collideAt {place : Nat} (hplace : place + 1 < leaves.length)
    (hnode : t.nodes[place]? = t'.nodes[place]?) :
    (t.nodes[2 * place + 1]? = t'.nodes[2 * place + 1]? ∧
      t.nodes[2 * place + 2]? = t'.nodes[2 * place + 2]?) ∨ t.CollideAt t' place := by
  obtain ⟨left, right, hleft, hright, hjoin⟩ := h.inner place hplace
  obtain ⟨left', right', hleft', hright', hjoin'⟩ := h'.inner place (hlen ▸ hplace)
  have hhash : hash160 (left.toList ++ right.toList) = hash160 (left'.toList ++ right'.toList) := by
    rw [hjoin, hjoin'] at hnode
    exact Option.some.inj hnode
  rcases eq_or_ne (left.toList ++ right.toList) (left'.toList ++ right'.toList) with heq | hne
  · have hinput : joinInput false left right.toList = joinInput false left' right'.toList := heq
    obtain ⟨rfl, hsame⟩ := joinInput_inj hinput
    obtain rfl : right = right' := FixedBytes.ext hsame
    exact .inl ⟨hleft.trans hleft'.symm, hright.trans hright'.symm⟩
  · exact .inr ⟨left, right, left', right', hleft, hright, hleft', hright', hjoin, hjoin', hhash, hne⟩

/-- Under the same root the trees have the same node in every place, unless they collide
somewhere. -/
theorem nodes_eq_or_collideAt (hroot : t.root = t'.root) (place : Nat)
    (hplace : place < 2 * leaves.length - 1) :
    t.nodes[place]? = t'.nodes[place]? ∨
      ∃ inner, inner + 1 < leaves.length ∧ t.CollideAt t' inner := by
  induction place using Nat.strongRecOn with
  | ind place ih =>
    rcases Nat.eq_zero_or_pos place with rfl | hpos
    · rw [t.getElem?_nodes_zero, t'.getElem?_nodes_zero, hroot]
      exact .inl rfl
    · -- The parent stands in a smaller place, so both trees have it, and this is one of its children.
      have hinner : (place - 1) / 2 + 1 < leaves.length := by omega
      rcases ih ((place - 1) / 2) (by omega) (by omega) with hparent | hcollide
      · rcases children_eq_or_collideAt h h' hlen hinner hparent with ⟨hleft, hright⟩ | hcollide
        · have hside : place = 2 * ((place - 1) / 2) + 1 ∨ place = 2 * ((place - 1) / 2) + 2 := by
            omega
          rcases hside with hside | hside
          · rw [hside]
            exact .inl hleft
          · rw [hside]
            exact .inl hright
        · exact .inr ⟨_, hinner, hcollide⟩
      · exact .inr hcollide

end

/-- Trees over as many leaves with the same root are the same: their leaves are, and all of their
nodes; or there is an inner node that both trees have, and that is the hash of two different
strings. -/
theorem root_binds {leaves leaves' : List Hash160} {t t' : MerkleTree}
    (hlen : leaves.length = leaves'.length) (ht : ofLeaves leaves = .ok t)
    (ht' : ofLeaves leaves' = .ok t') (hroot : t.root = t'.root) :
    leaves = leaves' ∧ t.nodes = t'.nodes ∨
      ∃ place, place + 1 < leaves.length ∧ t.CollideAt t' place := by
  have hover := isOver_of_ofLeaves ht
  have hover' := isOver_of_ofLeaves ht'
  have h := hover.isLevelOrdered
  have h' := hover'.isLevelOrdered
  by_cases hcollide : ∃ place, place + 1 < leaves.length ∧ t.CollideAt t' place
  · exact .inr hcollide
  · have hnodes : t.nodes = t'.nodes := by
      apply Array.ext
      · rw [h.size_nodes, h'.size_nodes, hlen]
      · intro place hplace hplace'
        have hsize : place < 2 * leaves.length - 1 := by rwa [← h.size_nodes]
        have hnode := (nodes_eq_or_collideAt h h' hlen hroot place hsize).resolve_right hcollide
        rw [Array.getElem?_eq_getElem hplace, Array.getElem?_eq_getElem hplace'] at hnode
        exact Option.some.inj hnode
    have hdepth : t.depth = t'.depth := by
      rw [hover.length_leaves, hover'.length_leaves] at hlen
      exact Nat.pow_right_injective le_rfl hlen
    refine .inl ⟨List.ext_getElem? fun i => ?_, hnodes⟩
    rw [← hover.leaf?_eq, ← hover'.leaf?_eq]
    unfold leaf?
    rw [t.get?_eq le_rfl, t'.get?_eq le_rfl, hnodes, hdepth]

/-- A tree of four leaves and itself are two trees with one root. -/
theorem root_binds_four :
    ∃ t, ofLeaves fourLeaves = .ok t ∧
      (fourLeaves = fourLeaves ∧ t.nodes = t.nodes ∨
        ∃ place, place + 1 < fourLeaves.length ∧ t.CollideAt t place) := by
  obtain ⟨t, ht, -⟩ : ∃ t, ofLeaves fourLeaves = .ok t ∧ t.depth = 2 := exists_ofLeaves rfl
  exact ⟨t, ht, root_binds rfl ht ht rfl⟩

end OneTimeSig.MerkleTree
