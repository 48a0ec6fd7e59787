import OneTimeSig.Proofs.LevelOrder

/-!
# Authentication paths

The path of a leaf is collected by a loop that follows the parent table until it comes to the root.
`Climbs` is this loop without a bound on its steps: it relates a node to the siblings that the loop
collects from there, and does so only when the loop ends and every place it looks up exists. The
parent of a node stands in a smaller place, so from every node of a built tree the loop ends
(`climbs_climb`), and a path is what it collects from the leaf. Read off the levels, the entries of the
path are the siblings of the nodes on the way (`getElem?_levelPath`). `authPath_opens` puts together
what is known of a path.
-/

open OneTimeSig.Path

namespace OneTimeSig.MerkleTree

/-! ## The loop -/

/-- The loop from a node to the root, with the siblings that it collects. -/
inductive Climbs (t : MerkleTree) : (node : Nat) → (siblings : List Hash160) → Prop
  /-- At the root the loop ends. -/
  | root : Climbs t 0 []
  /-- From any other node it takes the sibling and goes on from the parent. -/
  | step {node parent : Nat} {other : Hash160} {rest : List Hash160} (hnode : node ≠ 0)
      (hother : t.nodes[sibling node]? = some other) (hparent : t.parents[node]? = some parent)
      (hrest : Climbs t parent rest) : Climbs t node (other :: rest)

variable {t : MerkleTree} {leaves : List Hash160}

/-- From one node the loop collects one list of siblings. -/
theorem Climbs.unique {node : Nat} {siblings siblings' : List Hash160}
    (h : t.Climbs node siblings) (h' : t.Climbs node siblings') : siblings = siblings' := by
  induction h generalizing siblings' with
  | root =>
    cases h' with
    | root => rfl
    | step hnode => exact absurd rfl hnode
  | step hnode hother hparent _ ih =>
    cases h' with
    | root => exact absurd rfl hnode
    | step _ hother' hparent' hrest' =>
      rw [hother, Option.some_inj] at hother'
      rw [hparent, Option.some_inj] at hparent'
      subst hother' hparent'
      rw [ih hrest']

/-- The sibling of a node stands among the nodes. -/
theorem sibling_lt {node count : Nat} (hlt : node < 2 * count - 1) :
    sibling node < 2 * count - 1 := by
  unfold sibling
  split_ifs <;> omega

/-- From every node the loop ends, and a climb that may take as many steps as the place of the node
collects what the loop does. -/
theorem climbs_climb (h : t.IsLevelOrdered leaves) {node steps : Nat}
    (hnode : node < 2 * leaves.length - 1) (hsteps : node ≤ steps) :
    t.Climbs node (t.climb steps node) := by
  induction steps generalizing node with
  | zero =>
    obtain rfl : node = 0 := Nat.le_zero.mp hsteps
    exact .root
  | succ steps ih =>
    unfold climb
    split_ifs with hzero
    · rw [hzero]
      exact .root
    · have hsibling : sibling node < t.nodes.size := by
        rw [h.size_nodes]
        exact sibling_lt hnode
      have hother := Array.getElem?_eq_getElem hsibling
      have hparent := h.parent_eq node hnode (Nat.pos_of_ne_zero hzero)
      rw [hother, Array.getD_eq_getD_getElem?, hparent]
      exact .step hzero hother hparent (ih (by omega) (by omega))

/-! ## The entries -/

/-- The entries of a path are the siblings of the nodes between the leaf and the root. -/
theorem getElem?_levelPath {depth index step : Nat} {level : List Hash160}
    (hlen : level.length = 2 ^ depth) (hindex : index < 2 ^ depth) (hstep : step < depth) :
    (levelPath depth level index)[step]? =
      (levels depth level)[2 ^ (depth - step) - 1 + (index >>> step ^^^ 1)]? := by
  induction depth generalizing level index step with
  | zero => exact absurd hstep (Nat.not_lt_zero step)
  | succ depth ih =>
    have hsibling : index ^^^ 1 < level.length := by
      rw [hlen]
      exact xor_one_lt hindex
    have hother := List.getElem?_eq_getElem hsibling
    rw [levelPath, hother, Option.toList_some, List.singleton_append]
    cases step with
    | zero =>
      rw [List.getElem?_cons_zero, Nat.shiftRight_zero, Nat.sub_zero, getElem?_levels_last hlen,
        hother]
    | succ step =>
      -- The rest of the path is that of the parent in the levels above.
      obtain ⟨height, hheight⟩ : ∃ height, depth - step = height + 1 := ⟨depth - step - 1, by omega⟩
      have hparent : index / 2 < 2 ^ step * 2 ^ (height + 1) := by
        rw [← hheight, ← pow_add, show step + (depth - step) = depth by omega]
        omega
      have hancestor : (index / 2) >>> step < 2 ^ (height + 1) :=
        calc (index / 2) >>> step
          _ = index / 2 / 2 ^ step := Nat.shiftRight_eq_div_pow _ _
          _ < 2 ^ (height + 1) := Nat.div_lt_of_lt_mul hparent
      have hother' := xor_one_lt hancestor
      have hle : 2 ^ (height + 1) ≤ 2 ^ depth := Nat.pow_le_pow_right (by decide) (by omega)
      have hplace : 2 ^ (depth - step) - 1 + ((index / 2) >>> step ^^^ 1) < 2 ^ (depth + 1) - 1 := by
        rw [hheight, pow_succ 2 depth]
        omega
      rw [List.getElem?_cons_succ, ih (length_levelAbove_of_pow hlen) (by omega) (by omega),
        Nat.shiftRight_succ_inside, Nat.add_sub_add_right, getElem?_levels_above hlen hplace]

/-! ## Paths -/

namespace IsOver

variable (h : t.IsOver leaves) {index : Nat}
include h

/-- The path of a leaf is what the loop collects. -/
theorem climbs_levelPath (hindex : index < leaves.length) :
    t.Climbs (leaves.length - 1 + index) (levelPath t.depth leaves index) := by
  have hordered := h.isLevelOrdered
  have hpow : index < 2 ^ t.depth := by rwa [← h.length_leaves]
  have hplace : leaves.length - 1 + index < 2 * leaves.length - 1 := by omega
  have hsteps : leaves.length - 1 + index ≤ t.nodes.size := by
    rw [hordered.size_nodes]
    omega
  rw [← h.climb_eq hpow, ← h.length_leaves]
  exact climbs_climb hordered hplace hsteps

/-- A path is found for an index that has a leaf. -/
theorem authPath_eq_ok_iff {path : List Hash160} :
    t.authPath index = .ok path ↔
      index < leaves.length ∧ levelPath t.depth leaves index = path := by
  have hcount : t.leafCount = leaves.length := by rw [t.leafCount_eq_two_pow, h.length_leaves]
  rcases Nat.lt_or_ge index t.leafCount with hindex | hindex
  · rw [h.authPath_eq hindex, Except.ok.injEq, ← hcount, and_iff_right hindex]
  · rw [authPath_eq_error hindex, ← hcount]
    simp [Nat.not_lt.mpr hindex]

end IsOver

/-- A path is found exactly for the indices that have a leaf; any other index is refused, and the
number of entries is never wrong. A path is what the loop collects, which ends; it has one entry on
each level, the sibling of the node that the leaf's index names there; and joining the leaf with the
entries, each on the left where the index has a bit, gives the root. -/
theorem authPath_opens {leaves : List Hash160} {t : MerkleTree} (ht : ofLeaves leaves = .ok t)
    (index : Nat) :
    ((∃ path, t.authPath index = .ok path) ↔ index < leaves.length) ∧
      (∀ e, t.authPath index = .error e → e.kind = .precondition) ∧
      ∀ path, t.authPath index = .ok path →
        (∀ siblings, t.Climbs (leaves.length - 1 + index) siblings ↔ siblings = path) ∧
        path.length = t.depth ∧
        (∀ k < t.depth, path[k]? = t.get? (t.depth - k) (index >>> k ^^^ 1)) ∧
        ∃ leaf, t.leaf? index = some leaf ∧
          fold (turns t.depth index) leaf (path.map FixedBytes.toList) = t.root := by
  have h := isOver_of_ofLeaves ht
  refine ⟨⟨?_, ?_⟩, fun e he => ?_, fun path hpath => ?_⟩
  · rintro ⟨path, hpath⟩
    exact (h.authPath_eq_ok_iff.mp hpath).1
  · intro hindex
    exact ⟨_, h.authPath_eq_ok_iff.mpr ⟨hindex, rfl⟩⟩
  · rcases Nat.lt_or_ge index t.leafCount with hindex | hindex
    · rw [h.authPath_eq hindex] at he
      cases he
    · rw [authPath_eq_error hindex] at he
      obtain rfl := Except.error.inj he
      rfl
  · obtain ⟨hindex, rfl⟩ := h.authPath_eq_ok_iff.mp hpath
    have hclimbs := h.climbs_levelPath hindex
    have hleaf := List.getElem?_eq_getElem hindex
    have hpow : index < 2 ^ t.depth := by rwa [← h.length_leaves]
    refine ⟨fun siblings => ⟨?_, ?_⟩, length_levelPath h.length_leaves hpow, fun k hk => ?_, ?_⟩
    · intro hsiblings
      exact hsiblings.unique hclimbs
    · rintro rfl
      exact hclimbs
    · rw [getElem?_levelPath h.length_leaves hpow hk, t.get?_eq (Nat.sub_le _ _), h.getElem?_nodes]
    · rw [h.leaf?_eq]
      exact ⟨leaves[index], hleaf, h.fold_levelPath hleaf⟩

/-- In a tree of four leaves the path of leaf 1 has two entries that lead to the root, and there is
no leaf 4. -/
theorem authPath_opens_four :
    ∃ t path leaf, ofLeaves fourLeaves = .ok t ∧ t.authPath 1 = .ok path ∧
      t.Climbs 4 path ∧ path.length = 2 ∧ path[1]? = t.get? 1 1 ∧ t.leaf? 1 = some leaf ∧
      fold [true, false] leaf (path.map FixedBytes.toList) = t.root ∧
      ∃ e, t.authPath 4 = .error e ∧ e.kind = .precondition := by
  obtain ⟨t, ht, hdepth⟩ : ∃ t, ofLeaves fourLeaves = .ok t ∧ t.depth = 2 := exists_ofLeaves rfl
  obtain ⟨hfound, -, hopens⟩ := authPath_opens ht 1
  obtain ⟨hmissing, hrefused, -⟩ := authPath_opens ht 4
  obtain ⟨path, hpath⟩ := hfound.mpr (by decide)
  obtain ⟨hclimbs, hlength, hentries, leaf, hleaf, hfold⟩ := hopens path hpath
  have herror : ∃ e, t.authPath 4 = .error e := by
    cases houtcome : t.authPath 4 with
    | ok path' => exact absurd (hmissing.mp ⟨path', houtcome⟩) (by decide)
    | error e => exact ⟨e, rfl⟩
  obtain ⟨e, he⟩ := herror
  rw [hdepth] at hlength hentries hfold
  exact ⟨t, path, leaf, ht, hpath, (hclimbs path).mpr rfl, hlength, hentries 1 (by decide), hleaf,
    hfold, e, he, hrefused e he⟩

end OneTimeSig.MerkleTree
