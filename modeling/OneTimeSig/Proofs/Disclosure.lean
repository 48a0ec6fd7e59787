import OneTimeSig.Proofs.KeyDerivation
import OneTimeSig.Signing

/-!
# What a signature discloses

Of a secret key, signing uses the hash trees, which hold nothing but hashes, and for each digit of the
digest the preimage of the digit's leaf. So these preimages are all of the secrets that is disclosed.
Two keys that are the same in this respect (`SecretKey.ShowsAlike`) may have other preimages everywhere
else, and another master node. Signing does not tell them apart: each tree gives the same proof or the
same refusal (`DigitTree.prove_congr`), so both runs end alike and keep the same records
(`sign_eq_of_showsAlike`).
-/

namespace OneTimeSig

namespace DigitTree

/-- The leaf of an index stands in its place. -/
theorem getElem?_leaves (t : DigitTree) (index : Fin t.tree.leafCount) :
    t.leaves[index.val]? = some (t.leaf index) :=
  Array.getElem?_eq_getElem (by rw [t.size_leaves]; exact index.isLt)

/-- Trees with the same hash tree and the same preimage for a digit prove the digit alike. -/
theorem prove_congr {t t' : DigitTree} {digit : UInt8} (htree : t.tree = t'.tree)
    (hpreimage : t.leaves[digit.toNat]?.map Leaf.preimage =
      t'.leaves[digit.toNat]?.map Leaf.preimage) : t.prove digit = t'.prove digit := by
  rcases Nat.lt_or_ge digit.toNat t.tree.leafCount with hlt | hge
  · obtain ⟨tree, leaves, hsize⟩ := t
    obtain ⟨tree', leaves', hsize'⟩ := t'
    obtain rfl : tree = tree' := htree
    -- The only leaf that is looked up is the digit's.
    rw [getElem?_leaves ⟨tree, leaves, hsize⟩ ⟨digit.toNat, hlt⟩,
      getElem?_leaves ⟨tree, leaves', hsize'⟩ ⟨digit.toNat, hlt⟩] at hpreimage
    have hsame := Option.some.inj hpreimage
    unfold prove MerkleTree.index
    rw [dif_pos hlt, ok_bind, ok_bind, hsame]
  · rw [prove_eq_error hge, prove_eq_error (htree ▸ hge), htree]

end DigitTree

/-- The keys show the same of the digest: they have the same hash trees, and so as many leaves in each
of them, and the same preimage for each digit. -/
structure SecretKey.ShowsAlike (digest : Bytes) (key key' : SecretKey) : Prop where
  /-- The hash trees are the same. -/
  tree_eq : key.trees.map DigitTree.tree = key'.trees.map DigitTree.tree
  /-- The preimage of each digit's leaf is the same. -/
  preimage_eq : ∀ digit value, digest[digit]? = some value →
    (key.leaf? digit value.toNat).map Leaf.preimage =
      (key'.leaf? digit value.toNat).map Leaf.preimage

namespace Scheme

/-- Trees that prove a digit alike and have the same hash tree pass or fail the tests alike. -/
theorem proveDigit_congr (s : Scheme) (digit : Nat) {t t' : DigitTree} {value : UInt8}
    (htree : t.tree = t'.tree)
    (hpreimage : t.leaves[value.toNat]?.map Leaf.preimage =
      t'.leaves[value.toNat]?.map Leaf.preimage) :
    s.proveDigit digit t value = s.proveDigit digit t' value := by
  have hroot : t.root = t'.root := by rw [DigitTree.root, DigitTree.root, htree]
  unfold proveDigit
  rw [DigitTree.prove_congr htree hpreimage, t.size_leaves, t'.size_leaves, htree, hroot]

/-- The digits are proved alike, or the first of them that is refused is refused alike. -/
theorem proveDigits_congr (s : Scheme) (digit : Nat) {trees trees' : List DigitTree}
    {digest : Bytes} (htree : trees.map DigitTree.tree = trees'.map DigitTree.tree)
    (hpreimage : ∀ (place : Nat) (value : UInt8), digest[place]? = some value →
      (trees[place]?.bind fun t => t.leaves[value.toNat]?).map Leaf.preimage =
        (trees'[place]?.bind fun t => t.leaves[value.toNat]?).map Leaf.preimage) :
    s.proveDigits digit trees digest = s.proveDigits digit trees' digest := by
  induction trees generalizing digit trees' digest with
  | nil =>
    rw [List.map_nil, eq_comm, List.map_eq_nil_iff] at htree
    rw [htree]
  | cons t trees ih =>
    rw [List.map_cons, eq_comm, List.map_eq_cons_iff] at htree
    obtain ⟨t', trees', rfl, htree, hrest⟩ := htree
    cases digest with
    | nil => rw [proveDigits, proveDigits] <;> simp
    | cons value rest =>
      have hfirst := hpreimage 0 value rfl
      have hothers := ih (digit + 1) hrest.symm fun place value hvalue =>
        hpreimage (place + 1) value hvalue
      rw [proveDigits, proveDigits, s.proveDigit_congr digit htree.symm hfirst, hothers]

/-- With keys that show the same of a digest, a scheme signs the digest alike: it gives the same
signature or the same error, and keeps the same records. This holds of every digest, also of those
that are refused, and of all keys, however their preimages and their master nodes differ
elsewhere. -/
theorem sign_eq_of_showsAlike (s : Scheme) (digest : Bytes) (key key' : SecretKey)
    (h : key.ShowsAlike digest key') :
    (s.sign digest key).outcome = (s.sign digest key').outcome ∧
      (s.sign digest key).written = (s.sign digest key').written := by
  have hlength : key.trees.length = key'.trees.length := by
    rw [← List.length_map DigitTree.tree, h.tree_eq, List.length_map]
  have hproofs := s.proveDigits_congr 0 h.tree_eq h.preimage_eq
  have hsign : s.sign digest key = s.sign digest key' := by
    unfold sign
    rw [hlength, hproofs]
  exact ⟨congrArg Logged.outcome hsign, congrArg Logged.written hsign⟩

/-- A key with one tree of two leaves. The leaf of 1 commits to zeros; the node of the other leaf is
zero, whatever its preimage is. -/
def halfShown (preimage : Preimage) (text : String) : SecretKey where
  trees := [{
    tree := {
      depth := 1
      nodes := #[MerkleTree.join (FixedBytes.ofNat 20 0) (leafHash 1 (FixedBytes.ofNat 16 0)),
        FixedBytes.ofNat 20 0, leafHash 1 (FixedBytes.ofNat 16 0)]
      parents := #[0, 0, 0]
      size_nodes := rfl }
    leaves := #[⟨0, preimage, FixedBytes.ofNat 20 0⟩, Leaf.commit 1 (FixedBytes.ofNat 16 0)]
    size_leaves := rfl }]
  extendedText := text

/-- Keys with other preimages for the digit 0 sign the digit 1, and the signatures are the same. -/
theorem sign_eq_of_showsAlike_halfShown :
    (halfShown (FixedBytes.ofNat 16 1) "one").leaf? 0 0 ≠
        (halfShown (FixedBytes.ofNat 16 2) "two").leaf? 0 0 ∧
      (halfShown (FixedBytes.ofNat 16 1) "one").ShowsAlike [1]
        (halfShown (FixedBytes.ofNat 16 2) "two") ∧
      ∃ sig,
        (smallest.sign [1] (halfShown (FixedBytes.ofNat 16 1) "one")).outcome = .ok sig ∧
        (smallest.sign [1] (halfShown (FixedBytes.ofNat 16 2) "two")).outcome = .ok sig ∧
        (smallest.sign [1] (halfShown (FixedBytes.ofNat 16 1) "one")).written =
          (smallest.sign [1] (halfShown (FixedBytes.ofNat 16 2) "two")).written := by
  have halike : (halfShown (FixedBytes.ofNat 16 1) "one").ShowsAlike [1]
      (halfShown (FixedBytes.ofNat 16 2) "two") := by
    refine ⟨rfl, fun digit value hvalue => ?_⟩
    cases digit with
    | zero =>
      obtain rfl := Option.some.inj hvalue
      rfl
    | succ digit => nomatch hvalue
  obtain ⟨houtcome, hwritten⟩ := sign_eq_of_showsAlike smallest [1] _ _ halike
  -- The kernel runs signing with the first of the keys to its end.
  have hok : (smallest.sign [1] (halfShown (FixedBytes.ofNat 16 1) "one")).outcome.isOk = true := by
    decide +kernel
  obtain ⟨sig, hsig⟩ := exists_eq_ok_of_isOk hok
  exact ⟨by decide, halike, sig, hsig, houtcome ▸ hsig, hwritten⟩

end Scheme

end OneTimeSig
