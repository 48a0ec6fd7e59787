import OneTimeSig.KeyPair
import OneTimeSig.Proofs.MerkleTree
import OneTimeSig.Proofs.Params

/-!
# What key generation gives

Each tree of a generated key is the one over its leaves, and each of its leaves commits to its place
and a preimage (`DigitTree.IsHonest`), since the leaves are derived in order (`DigitTree.of_derive`).
An honest tree proves every digit that it has a leaf for, and what it proves leads to its root
(`DigitTree.IsHonest.prove_eq`, `recoverRoot_of_prove`). A key pair is made of the trees that are
derived for the digits in order (`keyPair_eq_ok_iff`). So a generated key has one honest tree for
each digit, all of the depth of the scheme, and the public key is the aggregate of their roots
(`isSecretKey_of_keyPair`). A secret for which key generation succeeds has key pairs in all smaller
schemes too (`exists_keyPair_of_le`).
-/

namespace OneTimeSig

namespace Leaf

variable {node : Node} {index : Nat}

/-- A hash is long enough to take a preimage from. -/
theorem preimageSize_le : Params.preimageSize ≤ 20 := by decide

/-- The leaf that is made of a child: it commits to the place of the child and to the start of the
hash of its private key. -/
def ofChild (index : Nat) (child : Node) : Leaf :=
  commit (UInt8.ofNat index)
    ((hash160 child.secretBytes.toList).take Params.preimageSize preimageSize_le)

/-- A leaf is derived from the child at its place. -/
theorem derive_eq_ok_iff {leaf : Leaf} :
    derive node index = .ok leaf ↔
      ∃ child, node.child (UInt32.ofNat index) = .ok child ∧ ofChild index child = leaf := by
  unfold derive
  rw [bind_eq_ok_iff]
  constructor
  · rintro ⟨child, hchild, h⟩
    exact ⟨child, hchild, Except.ok.inj h⟩
  · rintro ⟨child, hchild, rfl⟩
    exact ⟨child, hchild, rfl⟩

end Leaf

namespace DigitTree

/-! ## Honest trees -/

/-- The nodes of the leaves in order. -/
def hashes (t : DigitTree) : List Hash160 :=
  t.leaves.toList.map Leaf.hash

/-- The tree is the one over its leaves, and each leaf commits to its place and its preimage. -/
structure IsHonest (t : DigitTree) : Prop where
  /-- The nodes are made of the leaves. -/
  isOver : t.tree.IsOver t.hashes
  /-- The leaves are commitments. -/
  commit : ∀ (i : Nat) (h : i < t.leaves.size),
    t.leaves[i] = Leaf.commit (UInt8.ofNat i) t.leaves[i].preimage

/-- A tree that is built has the leaves that it was given. -/
theorem ofLeaves_eq_ok {leaves : List Leaf} {t : DigitTree} (h : ofLeaves leaves = .ok t) :
    MerkleTree.ofLeaves (leaves.map Leaf.hash) = .ok t.tree ∧ t.leaves.toList = leaves := by
  unfold ofLeaves at h
  split at h
  next tree htree =>
    cases h
    exact ⟨htree, rfl⟩
  next => nomatch h

/-- Over a power of two leaves a tree is built. -/
theorem exists_ofLeaves {leaves : List Leaf} (depth : Nat) (hlen : leaves.length = 2 ^ depth) :
    ∃ t, ofLeaves leaves = .ok t := by
  have hhashes : (leaves.map Leaf.hash).length = 2 ^ depth := by rw [List.length_map, hlen]
  obtain ⟨tree, htree, -⟩ := MerkleTree.exists_ofLeaves hhashes
  unfold ofLeaves
  split
  next => exact ⟨_, rfl⟩
  next e he =>
    rw [htree] at he
    nomatch he

/-- A tree that is built over commitments is honest. -/
theorem isHonest_of_ofLeaves {leaves : List Leaf} {t : DigitTree} (h : ofLeaves leaves = .ok t)
    (hcommit : ∀ (i : Nat) (hi : i < leaves.length),
      leaves[i] = Leaf.commit (UInt8.ofNat i) leaves[i].preimage) : t.IsHonest := by
  obtain ⟨htree, hleaves⟩ := ofLeaves_eq_ok h
  constructor
  · rw [hashes, hleaves]
    exact MerkleTree.isOver_of_ofLeaves htree
  · intro i hi
    have hget : t.leaves[i] = t.leaves.toList[i] := rfl
    simp only [hget, hleaves]
    exact hcommit i (by rw [← hleaves]; exact hi)

section Derive

variable {node : Node} {leafCount : Nat}

/-- Too many leaves are refused, whatever could be derived. -/
theorem derive_of_gt (h : 256 < leafCount) :
    derive node leafCount = .error (.tooManyLeaves leafCount) :=
  if_pos h

/-- Otherwise the leaves are derived in order, and the tree is built over them. -/
theorem derive_of_le (h : leafCount ≤ 256) :
    derive node leafCount = (List.range leafCount).mapM (Leaf.derive node) >>= ofLeaves :=
  if_neg (not_lt.mpr h)

/-- A derived tree is the one over its leaves, and these are derived in order. -/
theorem of_derive {t : DigitTree} (h : derive node leafCount = .ok t) :
    leafCount ≤ 256 ∧ MerkleTree.ofLeaves t.hashes = .ok t.tree ∧
      List.Forall₂ (fun index leaf => Leaf.derive node index = .ok leaf) (List.range leafCount)
        t.leaves.toList := by
  have hle : leafCount ≤ 256 := by
    by_contra hgt
    rw [derive_of_gt (not_le.mp hgt)] at h
    nomatch h
  rw [derive_of_le hle] at h
  obtain ⟨leaves, hleaves, htree⟩ := bind_eq_ok_iff.mp h
  obtain ⟨hover, rfl⟩ := ofLeaves_eq_ok htree
  exact ⟨hle, hover, mapM_eq_ok_iff.mp hleaves⟩

/-- A derived tree is honest and has as many leaves as were asked for. -/
theorem isHonest_of_derive {t : DigitTree} (h : derive node leafCount = .ok t) :
    t.IsHonest ∧ t.leaves.size = leafCount := by
  obtain ⟨-, htree, hleaves⟩ := of_derive h
  have hsize : t.leaves.size = leafCount := by
    rw [← Array.length_toList, ← hleaves.length_eq, List.length_range]
  refine ⟨⟨MerkleTree.isOver_of_ofLeaves htree, fun i hi => ?_⟩, hsize⟩
  -- The leaves come from the indices in order, so the leaf in a place commits to that place.
  obtain ⟨leaf, hleaf, hderive⟩ := exists_getElem?_of_range hleaves (by rwa [← hsize])
  rw [Array.getElem?_toList, Array.getElem?_eq_getElem hi] at hleaf
  obtain ⟨child, -, hcommit⟩ := Leaf.derive_eq_ok_iff.mp hderive
  rw [Option.some.inj hleaf, ← hcommit]
  rfl

/-- Where a tree is derived, one of fewer leaves is too, if their number is a power of two. -/
theorem exists_derive_of_le {t : DigitTree} {count depth : Nat}
    (h : derive node leafCount = .ok t) (hcount : count ≤ leafCount) (hpow : count = 2 ^ depth) :
    ∃ t', derive node count = .ok t' := by
  obtain ⟨hle, -, hall⟩ := of_derive h
  have hleaf : ∀ index ∈ List.range count, ∃ leaf, Leaf.derive node index = .ok leaf := by
    intro index hindex
    have hlt : index < leafCount := lt_of_lt_of_le (List.mem_range.mp hindex) hcount
    obtain ⟨leaf, -, hderive⟩ := exists_getElem?_of_range hall hlt
    exact ⟨leaf, hderive⟩
  obtain ⟨leaves, hleaves⟩ := exists_mapM_eq_ok hleaf
  have hlen : leaves.length = 2 ^ depth := by
    rw [← (mapM_eq_ok_iff.mp hleaves).length_eq, List.length_range, hpow]
  rw [derive_of_le (hcount.trans hle), hleaves, ok_bind]
  exact exists_ofLeaves depth hlen

end Derive

/-- Only a digit that has a leaf is proved. -/
theorem lt_of_prove {t : DigitTree} {digit : UInt8} {p : DigitProof} (hp : t.prove digit = .ok p) :
    digit.toNat < t.tree.leafCount := by
  unfold prove at hp
  obtain ⟨index, hindex, -⟩ := bind_eq_ok_iff.mp hp
  unfold MerkleTree.index at hindex
  split_ifs at hindex with hlt
  exact hlt

/-- A digit that has no leaf is refused. -/
theorem prove_eq_error {t : DigitTree} {digit : UInt8} (hdigit : t.tree.leafCount ≤ digit.toNat) :
    t.prove digit = .error (.leafOutOfRange digit.toNat t.tree.leafCount) := by
  unfold prove
  rw [MerkleTree.index_eq_error hdigit, error_bind]

namespace IsHonest

variable {t : DigitTree} (h : t.IsHonest) {digit : UInt8}
include h

/-- The proof of a digit that has a leaf. -/
theorem prove_eq (hdigit : digit.toNat < t.tree.leafCount) :
    t.prove digit = .ok {
      siblings := (MerkleTree.levelPath t.tree.depth t.hashes digit.toNat).reverse
      preimage := (t.leaf ⟨digit.toNat, hdigit⟩).preimage
      control := digit } := by
  unfold prove MerkleTree.index
  rw [dif_pos hdigit, ok_bind, h.isOver.path_eq]
  rfl

/-- A digit is refused only as an input that cannot be used: it has no leaf. -/
theorem kind_of_prove {e : Error} (he : t.prove digit = .error e) : e.kind = .precondition := by
  rcases Nat.lt_or_ge digit.toNat t.tree.leafCount with hlt | hge
  · rw [h.prove_eq hlt] at he
    nomatch he
  · rw [prove_eq_error hge] at he
    obtain rfl := Except.error.inj he
    rfl

/-- The leaf of a digit commits to the digit. -/
theorem commit_leaf (hdigit : digit.toNat < t.tree.leafCount) :
    t.leaf ⟨digit.toNat, hdigit⟩ =
      Leaf.commit digit (t.leaf ⟨digit.toNat, hdigit⟩).preimage := by
  have hsize : digit.toNat < t.leaves.size := by rwa [t.size_leaves]
  have hcommit := h.commit digit.toNat hsize
  rw [UInt8.ofNat_toNat] at hcommit
  exact hcommit

/-- The leaf of a digit is found at its place. -/
theorem getElem?_hashes (hdigit : digit.toNat < t.tree.leafCount) :
    t.hashes[digit.toNat]? =
      some (leafHash digit (t.leaf ⟨digit.toNat, hdigit⟩).preimage) := by
  have hsize : digit.toNat < t.leaves.size := by rwa [t.size_leaves]
  have hget : t.leaves[digit.toNat]? = some (t.leaf ⟨digit.toNat, hdigit⟩) :=
    Array.getElem?_eq_getElem hsize
  rw [hashes, List.getElem?_map, Array.getElem?_toList, hget, Option.map_some, h.commit_leaf hdigit]
  rfl

/-- What a proof is made of: the digit itself, a preimage that gives the leaf of the digit, and the
path of that leaf. -/
theorem of_prove {p : DigitProof} (hp : t.prove digit = .ok p) :
    p.control = digit ∧ t.hashes[digit.toNat]? = some (leafHash p.control p.preimage) ∧
      p.siblings.length = t.tree.depth ∧
      p.siblings.reverse = MerkleTree.levelPath t.tree.depth t.hashes digit.toNat := by
  have hdigit := lt_of_prove hp
  have hindex : digit.toNat < 2 ^ t.tree.depth := by rwa [← t.tree.leafCount_eq_two_pow]
  rw [h.prove_eq hdigit] at hp
  obtain rfl := Except.ok.inj hp
  refine ⟨rfl, h.getElem?_hashes hdigit, ?_, List.reverse_reverse _⟩
  rw [List.length_reverse, MerkleTree.length_levelPath h.isOver.length_leaves hindex]

/-- A proof is of the digit, has one sibling on each level, and leads to the root. -/
theorem recoverRoot_of_prove {p : DigitProof} (hp : t.prove digit = .ok p) :
    p.control = digit ∧ p.siblings.length = t.tree.depth ∧ p.recoverRoot = t.root := by
  obtain ⟨rfl, hleaf, hlength, hpath⟩ := h.of_prove hp
  refine ⟨rfl, hlength, ?_⟩
  rw [DigitProof.recoverRoot_eq, hlength, hpath]
  exact h.isOver.fold_levelPath hleaf

end IsHonest

end DigitTree

namespace Scheme

/-! ## Keys -/

/-- A secret key with an honest tree for each digit. -/
structure IsSecretKey (s : Scheme) (key : SecretKey) : Prop where
  /-- There is one tree for each digit. -/
  length_trees : key.trees.length = s.digits
  /-- The trees are honest. -/
  isHonest : ∀ t ∈ key.trees, t.IsHonest
  /-- The trees have the depth of the scheme. -/
  depth_eq : ∀ t ∈ key.trees, t.tree.depth = s.depth

/-- The trees over commitments to given preimages, one for each digit. -/
def commitTrees (s : Scheme) (preimages : Nat → Nat → Preimage) : Except Error (List DigitTree) :=
  (List.range s.digits).mapM fun digit =>
    DigitTree.ofLeaves ((List.range s.leafCount).map fun i =>
      Leaf.commit (UInt8.ofNat i) (preimages digit i))

/-- A tree over as many commitments as a digit has values is honest and has the depth of the
scheme. -/
theorem isHonest_of_commit {s : Scheme} {preimages : Nat → Preimage} {t : DigitTree}
    (h : DigitTree.ofLeaves ((List.range s.leafCount).map fun i =>
      Leaf.commit (UInt8.ofNat i) (preimages i)) = .ok t) :
    t.IsHonest ∧ t.tree.depth = s.depth := by
  obtain ⟨htree, hleaves⟩ := DigitTree.ofLeaves_eq_ok h
  refine ⟨DigitTree.isHonest_of_ofLeaves h fun i hi => ?_, ?_⟩
  · rw [List.getElem_map, List.getElem_range]
    rfl
  · have hlen := (MerkleTree.isOver_of_ofLeaves htree).length_leaves
    rw [List.length_map, List.length_map, List.length_range, s.leafCount_eq] at hlen
    exact (Nat.pow_right_injective le_rfl hlen).symm

/-- The leaves of a tree over commitments reveal the preimages. -/
theorem preimage_of_commit {s : Scheme} {preimages : Nat → Preimage} {t : DigitTree}
    (h : DigitTree.ofLeaves ((List.range s.leafCount).map fun i =>
      Leaf.commit (UInt8.ofNat i) (preimages i)) = .ok t) (index : Fin t.tree.leafCount) :
    (t.leaf index).preimage = preimages index := by
  have hindex : index.val < t.leaves.toList.length := by
    rw [Array.length_toList, t.size_leaves]
    exact index.isLt
  have hget : t.leaf index = t.leaves.toList[index.val] := rfl
  simp only [hget, (DigitTree.ofLeaves_eq_ok h).2, List.getElem_map, List.getElem_range]
  rfl

/-- The leaves of trees over commitments reveal the preimages of their digits. -/
theorem preimage_of_commitTrees {s : Scheme} {preimages : Nat → Nat → Preimage}
    {trees : List DigitTree} (h : s.commitTrees preimages = .ok trees) {digit : Nat}
    (hdigit : digit < trees.length) (index : Fin trees[digit].tree.leafCount) :
    (trees[digit].leaf index).preimage = preimages digit index := by
  have hall := mapM_eq_ok_iff.mp h
  have hbuilt := hall.get (by rwa [hall.length_eq]) hdigit
  simp only [List.get_eq_getElem, List.getElem_range] at hbuilt
  exact preimage_of_commit hbuilt index

/-- Trees over commitments to any preimages are built, and they make a secret key. -/
theorem exists_commitTrees (s : Scheme) (preimages : Nat → Nat → Preimage) :
    ∃ trees, s.commitTrees preimages = .ok trees ∧ ∀ text, s.IsSecretKey ⟨trees, text⟩ := by
  have hbuilt : ∀ digit, ∃ t, DigitTree.ofLeaves ((List.range s.leafCount).map fun i =>
      Leaf.commit (UInt8.ofNat i) (preimages digit i)) = .ok t := by
    intro digit
    apply DigitTree.exists_ofLeaves s.depth
    rw [List.length_map, List.length_range, s.leafCount_eq]
  -- The trees are independent of each other, so one is taken for each digit.
  choose tree htree using hbuilt
  have htrees : s.commitTrees preimages = .ok ((List.range s.digits).map tree) := by
    apply mapM_eq_ok_iff.mpr
    rw [List.forall₂_map_right_iff, List.forall₂_same]
    exact fun digit _ => htree digit
  refine ⟨_, htrees, fun text => ⟨?_, ?_, ?_⟩⟩
  · rw [List.length_map, List.length_range]
  · rw [List.forall_mem_map]
    exact fun digit _ => (isHonest_of_commit (htree digit)).1
  · rw [List.forall_mem_map]
    exact fun digit _ => (isHonest_of_commit (htree digit)).2

/-- The tree of a digit is derived below the child of the digit. -/
theorem outcome_deriveTree (s : Scheme) (keys : Node) (digit : Nat) :
    (s.deriveTree keys digit).outcome =
      keys.child (UInt32.ofNat digit) >>= fun node => DigitTree.derive node s.leafCount := by
  unfold deriveTree
  rw [Logged.outcome_bind, Logged.outcome_monadLift]
  apply bind_congr
  intro node
  rw [Logged.outcome_bind, Logged.outcome_monadLift]
  exact bind_pure _

/-- The key pair is made of the trees of the digits, which are derived in order. -/
theorem outcome_keyPair (s : Scheme) (secret : MasterSecret) :
    (s.keyPair secret).outcome =
      Node.master secret >>= fun master => master.child keyNamespace >>= fun keys =>
        ((List.range s.digits).mapM fun digit => (s.deriveTree keys digit).outcome) >>= fun trees =>
          .ok ⟨⟨trees, master.extendedText⟩, aggregate (trees.map DigitTree.root)⟩ := by
  unfold keyPair
  rw [Logged.outcome_bind, Logged.outcome_monadLift]
  apply bind_congr
  intro master
  rw [Logged.outcome_bind, Logged.outcome_monadLift]
  apply bind_congr
  intro keys
  rw [Logged.outcome_bind, Logged.outcome_mapM]
  rfl

/-- What a generated key pair is made of. -/
theorem keyPair_eq_ok_iff {s : Scheme} {secret : MasterSecret} {kp : KeyPair} :
    (s.keyPair secret).outcome = .ok kp ↔
      ∃ master keys trees, Node.master secret = .ok master ∧ master.child keyNamespace = .ok keys ∧
        List.Forall₂ (fun digit t => (s.deriveTree keys digit).outcome = .ok t)
          (List.range s.digits) trees ∧
        kp = ⟨⟨trees, master.extendedText⟩, aggregate (trees.map DigitTree.root)⟩ := by
  simp only [outcome_keyPair, bind_eq_ok_iff, mapM_eq_ok_iff]
  constructor
  · rintro ⟨master, hmaster, keys, hkeys, trees, htrees, h⟩
    exact ⟨master, keys, trees, hmaster, hkeys, htrees, (Except.ok.inj h).symm⟩
  · rintro ⟨master, keys, trees, hmaster, hkeys, htrees, rfl⟩
    exact ⟨master, hmaster, keys, hkeys, trees, htrees, rfl⟩

/-- The derived tree of a digit is honest and has the depth of the scheme. -/
theorem isHonest_of_deriveTree {s : Scheme} {keys : Node} {digit : Nat} {t : DigitTree}
    (h : (s.deriveTree keys digit).outcome = .ok t) : t.IsHonest ∧ t.tree.depth = s.depth := by
  rw [outcome_deriveTree] at h
  obtain ⟨node, -, htree⟩ := bind_eq_ok_iff.mp h
  obtain ⟨hhonest, hsize⟩ := DigitTree.isHonest_of_derive htree
  refine ⟨hhonest, ?_⟩
  rw [t.size_leaves, t.tree.leafCount_eq_two_pow, s.leafCount_eq] at hsize
  exact Nat.pow_right_injective le_rfl hsize

/-- Key generation gives a secret key with an honest tree for each digit, and the public key that
belongs to it. -/
theorem isSecretKey_of_keyPair {s : Scheme} {secret : MasterSecret} {kp : KeyPair}
    (h : (s.keyPair secret).outcome = .ok kp) :
    s.IsSecretKey kp.secretKey ∧ kp.publicKey = aggregate kp.secretKey.roots := by
  obtain ⟨master, keys, trees, -, -, htrees, rfl⟩ := keyPair_eq_ok_iff.mp h
  have htree : ∀ t ∈ trees, t.IsHonest ∧ t.tree.depth = s.depth := by
    intro t ht
    obtain ⟨digit, -, hdigit⟩ := exists_of_mapM_eq_ok (mapM_eq_ok_iff.mpr htrees) ht
    exact isHonest_of_deriveTree hdigit
  refine ⟨⟨?_, fun t ht => (htree t ht).1, fun t ht => (htree t ht).2⟩, rfl⟩
  rw [← htrees.length_eq, List.length_range]

/-- A secret that gives a key pair gives one for fewer digits and smaller trees as well. -/
theorem exists_keyPair_of_le {s s' : Scheme} {secret : MasterSecret}
    (h : ∃ kp, (s.keyPair secret).outcome = .ok kp) (hdigits : s'.digits ≤ s.digits)
    (hleafCount : s'.leafCount ≤ s.leafCount) : ∃ kp, (s'.keyPair secret).outcome = .ok kp := by
  obtain ⟨kp, hkp⟩ := h
  obtain ⟨master, keys, trees, hmaster, hkeys, htrees, -⟩ := keyPair_eq_ok_iff.mp hkp
  have htree : ∀ digit ∈ List.range s'.digits,
      ∃ t, (s'.deriveTree keys digit).outcome = .ok t := by
    intro digit hdigit
    have hlt : digit < s.digits := lt_of_lt_of_le (List.mem_range.mp hdigit) hdigits
    obtain ⟨t, -, ht⟩ := exists_getElem?_of_range htrees hlt
    rw [outcome_deriveTree] at ht ⊢
    obtain ⟨node, hnode, hderive⟩ := bind_eq_ok_iff.mp ht
    rw [hnode, ok_bind]
    exact DigitTree.exists_derive_of_le hderive hleafCount s'.leafCount_eq
  obtain ⟨trees', htrees'⟩ := exists_mapM_eq_ok htree
  exact ⟨_, keyPair_eq_ok_iff.mpr
    ⟨master, keys, trees', hmaster, hkeys, mapM_eq_ok_iff.mp htrees', rfl⟩⟩

/-- Key generation succeeds for the secret of zeros in every scheme of one digit or two, which are
below 4. -/
theorem exists_keyPair_zeros {s : Scheme} (hdigits : s.digits ≤ 2) (hleafCount : s.leafCount ≤ 4) :
    ∃ kp, (s.keyPair ⟨FixedBytes.ofNat 32 0⟩).outcome = .ok kp := by
  -- The kernel runs key generation for this secret to its end, in the largest of these schemes.
  have hok : (Scheme.keyPair ⟨⟨2, 4⟩, rfl⟩ ⟨FixedBytes.ofNat 32 0⟩).outcome.isOk = true := by
    decide +kernel
  exact exists_keyPair_of_le (exists_eq_ok_of_isOk hok) hdigits hleafCount

/-- So it does in the smallest scheme. -/
theorem exists_keyPair_smallest :
    ∃ kp, (smallest.keyPair ⟨FixedBytes.ofNat 32 0⟩).outcome = .ok kp :=
  exists_keyPair_zeros (by decide) (by decide)

end Scheme

end OneTimeSig
