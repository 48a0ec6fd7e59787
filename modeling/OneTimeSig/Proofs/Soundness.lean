import OneTimeSig.Proofs.Signing

/-!
# A verified signature is the signed one, or something collides

A signature that is verified under the key of honest trees leads to their roots. The descent starts
at the aggregate, which shows the roots, and goes down each tree along the turns of the control byte:
on every level the node and its sibling are those of the tree, down to the leaf, which shows the
index and the preimage. Where one of these steps would fail, a string that is hashed to verify the
signature has the same hash as another that was hashed to make the key. `SecretKey.CollidesWith` says
that there are two such strings, and `proves_or_collidesWith` is the result for any honest key.

A signed signature with one byte changed is never signed itself, unless the byte is a control byte;
and then two different leaves would have the same path, which is a collision again
(`collidesWith_of_set`). `verify_sound` states both for keys over any preimages.
-/

namespace OneTimeSig

/-! ## One digit -/

/-- Two proofs with the same siblings that lead to the same root are of the same digit, or strings
collide. -/
theorem DigitProof.control_eq_or_collides {p q : DigitProof} (hsiblings : p.siblings = q.siblings)
    (hroot : p.recoverRoot = q.recoverRoot) :
    p.control = q.control ∨ Collides hash160 p.inputs q.inputs := by
  rw [recoverRoot_eq, recoverRoot_eq, hsiblings] at hroot
  rcases Path.turnsAlike_or_collides (by simp) hroot with ⟨hleaf, -⟩ | hcollides
  · rcases eq_or_collides hleaf List.mem_cons_self List.mem_cons_self with hinput | hcollides
    · exact .inl (List.cons_eq_cons.mp hinput).1
    · exact .inr hcollides
  · refine .inr (hcollides.mono ?_ (List.subset_cons_self _ _))
    rw [← hsiblings]
    exact List.subset_cons_self _ _

namespace DigitTree

/-- The strings that were hashed to make the tree: those of the leaves, and those of the nodes above
them. -/
def inputs (t : DigitTree) : List Bytes :=
  t.leaves.toList.map (fun leaf => leaf.index :: leaf.preimage.toList) ++
    MerkleTree.treeInputs t.tree.depth t.hashes

namespace IsHonest

variable {t : DigitTree} (h : t.IsHonest)
include h

/-- The string of a digit's leaf was hashed. -/
theorem leafInput_mem {digit : UInt8} (hdigit : digit.toNat < t.tree.leafCount) :
    digit :: (t.leaf ⟨digit.toNat, hdigit⟩).preimage.toList ∈ t.inputs := by
  have hindex : (t.leaf ⟨digit.toNat, hdigit⟩).index = digit := by
    rw [h.commit_leaf hdigit]
    rfl
  have hmem : t.leaf ⟨digit.toNat, hdigit⟩ ∈ t.leaves.toList := Array.getElem_mem_toList _
  refine List.mem_append_left _ (List.mem_map.mpr ⟨_, hmem, ?_⟩)
  rw [hindex]

/-- The strings that are hashed to verify a proof of the tree were hashed to make it. -/
theorem inputs_subset {digit : UInt8} {p : DigitProof} (hp : t.prove digit = .ok p) :
    p.inputs ⊆ t.inputs := by
  have hdigit := lt_of_prove hp
  have hpreimage : (t.leaf ⟨digit.toNat, hdigit⟩).preimage = p.preimage := by
    rw [h.prove_eq hdigit] at hp
    rw [← Except.ok.inj hp]
  have hmem := h.leafInput_mem hdigit
  obtain ⟨rfl, hleaf, hlength, hpath⟩ := h.of_prove hp
  rw [hpreimage] at hmem
  unfold DigitProof.inputs
  rw [hlength, hpath]
  refine List.cons_subset.mpr ⟨hmem, ?_⟩
  exact List.Subset.trans (MerkleTree.inputs_levelPath_subset h.isOver.length_leaves hleaf)
    (List.subset_append_right _ _)

/-- A proof that leads to the root is the tree's proof of its digit, or strings collide. -/
theorem prove_or_collides {p : DigitProof} (hsiblings : p.siblings.length = t.tree.depth)
    (hroot : p.recoverRoot = t.root) :
    t.prove p.control = .ok p ∨ Collides hash160 p.inputs t.inputs := by
  have hpaths : (p.siblings.reverse.map FixedBytes.toList).length = t.tree.depth := by
    rw [List.length_map, List.length_reverse, hsiblings]
  rw [DigitProof.recoverRoot_eq, hsiblings] at hroot
  rcases h.isOver.leaf_or_collides hpaths hroot with ⟨hnode, hpath⟩ | hcollides
  · -- The path is the one of the remainder, and the leaf tells whether that is the control byte.
    have hlt : p.control.toNat % 2 ^ t.tree.depth < t.tree.leafCount := by
      rw [t.tree.leafCount_eq_two_pow]
      exact Nat.mod_lt _ (Nat.two_pow_pos _)
    obtain ⟨digit, hdigit⟩ : ∃ digit : UInt8,
        digit.toNat = p.control.toNat % 2 ^ t.tree.depth := by
      have hbyte := Nat.lt_of_le_of_lt (Nat.mod_le _ (2 ^ t.tree.depth)) p.control.toNat_lt_size
      exact ⟨_, UInt8.toNat_ofNat_of_lt' hbyte⟩
    rw [← hdigit] at hnode hpath hlt
    rw [h.getElem?_hashes hlt] at hnode
    have hleaf : leafHash p.control p.preimage =
        leafHash digit (t.leaf ⟨digit.toNat, hlt⟩).preimage := (Option.some.inj hnode).symm
    rcases eq_or_collides hleaf List.mem_cons_self (h.leafInput_mem hlt) with hinput | hcollides
    · obtain ⟨rfl, hpreimage⟩ := List.cons_eq_cons.mp hinput
      have hsame : ∀ a b : Hash160, a.toList = b.toList → a = b := fun _ _ => FixedBytes.ext
      have hreverse := List.map_injective_iff.mpr hsame hpath
      left
      rw [h.prove_eq hlt, ← hreverse, List.reverse_reverse, ← FixedBytes.ext hpreimage]
    · exact .inr hcollides
  · refine .inr (hcollides.mono ?_ (List.subset_append_right _ _))
    unfold DigitProof.inputs
    rw [hsiblings]
    exact List.subset_cons_self _ _

end IsHonest

end DigitTree

/-- Where a relation holds in every place unless something else is the case, it holds in all places or
that is the case. -/
theorem forall₂_or_of_forall {α β : Type} {r : α → β → Prop} {c : Prop} {as : List α} {bs : List β}
    (hlen : as.length = bs.length)
    (h : ∀ (i : Nat) (hi : i < as.length) (hi' : i < bs.length), r as[i] bs[i] ∨ c) :
    List.Forall₂ r as bs ∨ c := by
  by_cases hc : c
  · exact .inr hc
  · exact .inl (List.forall₂_iff_get.mpr ⟨hlen, fun i hi hi' => (h i hi hi').resolve_right hc⟩)

namespace SecretKey

/-! ## All digits -/

/-- The strings that `hash160` was applied to in order to make the leaves and the trees. -/
def inputs (key : SecretKey) : List Bytes :=
  key.trees.flatMap DigitTree.inputs

/-- The string that `hash256` was applied to in order to make the public key. -/
def keyInput (key : SecretKey) : Bytes :=
  key.roots.flatMap FixedBytes.toList

/-- A string that is hashed to verify the signature has the same hash as another that was hashed to
make the key. -/
def CollidesWith (key : SecretKey) (sig : Signature) : Prop :=
  Collides hash160 sig.inputs key.inputs ∨ Collides hash256 [sig.keyInput] [key.keyInput]

/-- A collision at one digit is one with the key. -/
theorem collidesWith_of_digit {key : SecretKey} {sig : Signature} {t : DigitTree} {p : DigitProof}
    (ht : t ∈ key.trees) (hp : p ∈ sig.proofs) (h : Collides hash160 p.inputs t.inputs) :
    key.CollidesWith sig := by
  refine .inl (h.mono ?_ ?_)
  · exact fun _ => List.mem_flatMap_of_mem hp
  · exact fun _ => List.mem_flatMap_of_mem ht

end SecretKey

/-- A string that differs from another in one place has the same bytes in front of that place and
behind it. -/
theorem eq_of_append_cons_eq_set {xs ys as bs : Bytes} {x a v : UInt8} {i : Nat}
    (hlen : xs.length = as.length) (hne : x ≠ a) (h : xs ++ x :: ys = (as ++ a :: bs).set i v) :
    xs = as ∧ ys = bs := by
  -- The two strings differ in this place, so it is the one that was changed.
  have hplace : i = as.length := by
    by_contra hi
    have hx : (xs ++ x :: ys)[as.length]? = some x := by
      rw [← hlen, List.getElem?_append_right le_rfl, Nat.sub_self, List.getElem?_cons_zero]
    have ha : ((as ++ a :: bs).set i v)[as.length]? = some a := by
      rw [List.getElem?_set_ne hi, List.getElem?_append_right le_rfl, Nat.sub_self,
        List.getElem?_cons_zero]
    rw [h, ha] at hx
    exact hne (Option.some.inj hx).symm
  rw [hplace, List.set_append_right _ _ le_rfl, Nat.sub_self, List.set_cons_zero] at h
  obtain ⟨hfront, hback⟩ := List.append_inj h hlen
  exact ⟨hfront, (List.cons_eq_cons.mp hback).2⟩

/-- The bytes of a signature around the control byte of one proof. -/
theorem Signature.toBytes_eq (sig : Signature) {digit : Nat} (h : digit < sig.proofs.length) :
    sig.toBytes =
      (sig.proofs.take digit).flatMap DigitProof.toBytes ++
          (sig.proofs[digit].siblings.flatMap FixedBytes.toList ++
            sig.proofs[digit].preimage.toList) ++
        sig.proofs[digit].control :: (sig.proofs.drop (digit + 1)).flatMap DigitProof.toBytes := by
  have hsplit : sig.proofs =
      sig.proofs.take digit ++ sig.proofs[digit] :: sig.proofs.drop (digit + 1) := by
    rw [← List.drop_eq_getElem_cons h, List.take_append_drop]
  unfold toBytes
  conv_lhs => rw [hsplit]
  rw [List.flatMap_append, List.flatMap_cons, DigitProof.toBytes]
  simp only [List.append_assoc, List.singleton_append]

namespace Scheme

variable {s : Scheme}

/-- Where one byte is changed and this changes a digit, the siblings of the digit stay. -/
theorem siblings_eq_of_set {sig changed : Signature} {i digit : Nat} {v : UInt8}
    (hsig : s.hasShape sig = true) (hchanged : s.hasShape changed = true)
    (hbytes : changed.toBytes = sig.toBytes.set i v) (h : digit < sig.proofs.length)
    (h' : digit < changed.proofs.length)
    (hcontrol : changed.proofs[digit].control ≠ sig.proofs[digit].control) :
    changed.proofs[digit].siblings = sig.proofs[digit].siblings := by
  obtain ⟨-, hdepth⟩ := hasShape_iff.mp hsig
  obtain ⟨-, hdepth'⟩ := hasShape_iff.mp hchanged
  -- All proofs have the same width, so the digit takes the same places in both signatures.
  have hfront : ((changed.proofs.take digit).flatMap DigitProof.toBytes).length =
      ((sig.proofs.take digit).flatMap DigitProof.toBytes).length := by
    rw [DigitProof.length_flatMap_toBytes fun p hp => hdepth p (List.mem_of_mem_take hp),
      DigitProof.length_flatMap_toBytes fun p hp => hdepth' p (List.mem_of_mem_take hp),
      List.length_take, List.length_take, min_eq_left h.le, min_eq_left h'.le]
  have hcount : changed.proofs[digit].siblings.length = sig.proofs[digit].siblings.length := by
    rw [hdepth _ (List.getElem_mem h), hdepth' _ (List.getElem_mem h')]
  have hpath : (changed.proofs[digit].siblings.flatMap FixedBytes.toList).length =
      (sig.proofs[digit].siblings.flatMap FixedBytes.toList).length := by
    rw [FixedBytes.length_flatMap_toList, FixedBytes.length_flatMap_toList, hcount]
  rw [changed.toBytes_eq h', sig.toBytes_eq h] at hbytes
  have hlen : ((changed.proofs.take digit).flatMap DigitProof.toBytes ++
      (changed.proofs[digit].siblings.flatMap FixedBytes.toList ++
        changed.proofs[digit].preimage.toList)).length =
      ((sig.proofs.take digit).flatMap DigitProof.toBytes ++
        (sig.proofs[digit].siblings.flatMap FixedBytes.toList ++
          sig.proofs[digit].preimage.toList)).length := by
    simp only [List.length_append, hfront, hpath, FixedBytes.length_toList]
  -- The changed byte is the control byte, and so everything in front of it is the same.
  obtain ⟨hsame, -⟩ := eq_of_append_cons_eq_set hlen hcontrol hbytes
  obtain ⟨-, hproof⟩ := List.append_inj hsame hfront
  obtain ⟨hsiblings, -⟩ := List.append_inj hproof hpath
  exact FixedBytes.flatMap_toList_inj hcount hsiblings

namespace IsSecretKey

variable {key : SecretKey} (h : s.IsSecretKey key) {sig : Signature} {digest : Bytes}
include h

/-- A signature that is verified is the one that the key signs its digest with, or strings
collide. -/
theorem proves_or_collidesWith (hverify : s.verify digest sig (aggregate key.roots) = true) :
    key.Proves sig ∨ key.CollidesWith sig := by
  obtain ⟨hshape, -, hkey⟩ := verify_iff.mp hverify
  obtain ⟨hcount, hsiblings⟩ := hasShape_iff.mp hshape
  have hlen : key.trees.length = sig.proofs.length := by rw [h.length_trees, hcount]
  have haggregate : hash256 sig.keyInput = hash256 key.keyInput := hkey
  rcases eq_or_collides haggregate List.mem_cons_self List.mem_cons_self with hinput | hcollides
  · have hroots : sig.proofs.map DigitProof.recoverRoot = key.trees.map DigitTree.root :=
      FixedBytes.flatMap_toList_inj (by rw [List.length_map, List.length_map, hlen]) hinput
    refine forall₂_or_of_forall hlen fun i hi hi' => ?_
    have htree := List.getElem_mem hi
    have hproof := List.getElem_mem hi'
    have hroot : sig.proofs[i].recoverRoot = key.trees[i].root := by
      have hget := congrArg (fun roots => roots[i]?) hroots
      simpa [hi, hi'] using hget
    have hdepth : sig.proofs[i].siblings.length = key.trees[i].tree.depth := by
      rw [hsiblings _ hproof, h.depth_eq _ htree]
    have hdigit := (h.isHonest _ htree).prove_or_collides hdepth hroot
    exact hdigit.imp_right (SecretKey.collidesWith_of_digit htree hproof)
  · exact .inr (.inr hcollides)

/-- A signature is signed at most once: it is determined by its digest. -/
theorem eq_of_proves {sig' : Signature} (hsig : key.Proves sig) (hsig' : key.Proves sig')
    (hdigest : sig.digest = sig'.digest) : sig = sig' := by
  have hsign := h.sign_eq_ok_iff.mpr ⟨hsig, hdigest⟩
  have hsign' := h.sign_eq_ok_iff.mpr ⟨hsig', rfl⟩
  rw [hsign] at hsign'
  exact Except.ok.inj hsign'

/-- A signature that is signed is not verified any more when one of its bytes is changed, unless
strings collide. -/
theorem collidesWith_of_set {changed : Signature} {i : Nat} {v : UInt8} (hsig : key.Proves sig)
    (hne : changed ≠ sig) (hbytes : changed.toBytes = sig.toBytes.set i v)
    (hverify : s.verify digest changed (aggregate key.roots) = true) :
    key.CollidesWith changed := by
  rcases h.proves_or_collidesWith hverify with hchanged | hcollides
  · have hlen : changed.proofs.length = sig.proofs.length := by
      rw [← hchanged.length_eq, ← hsig.length_eq]
    -- Both are signed, so they are of different digests, and differ in some control byte.
    obtain ⟨digit, hdigit, hdigit', hcontrol⟩ : ∃ (digit : Nat) (hd : digit < sig.proofs.length)
        (hd' : digit < changed.proofs.length),
        changed.proofs[digit].control ≠ sig.proofs[digit].control := by
      by_contra hall
      push Not at hall
      refine hne (h.eq_of_proves hchanged hsig (List.ext_getElem ?_ fun k hk hk' => ?_))
      · rw [Signature.digest, Signature.digest, List.length_map, List.length_map, hlen]
      · simp only [Signature.digest, List.length_map] at hk hk'
        simp only [Signature.digest, List.getElem_map]
        exact hall k hk' hk
    have hsiblings := siblings_eq_of_set (h.hasShape_of_proves hsig) (h.hasShape_of_proves hchanged)
      hbytes hdigit hdigit' hcontrol
    have htree : digit < key.trees.length := by rwa [hsig.length_eq]
    have hhonest := h.isHonest _ (List.getElem_mem htree)
    have hprove := hsig.get htree hdigit
    have hprove' := hchanged.get htree hdigit'
    have hroot : changed.proofs[digit].recoverRoot = sig.proofs[digit].recoverRoot :=
      calc changed.proofs[digit].recoverRoot
        _ = key.trees[digit].root := (hhonest.recoverRoot_of_prove hprove').2.2
        _ = sig.proofs[digit].recoverRoot := (hhonest.recoverRoot_of_prove hprove).2.2.symm
    rcases DigitProof.control_eq_or_collides hsiblings hroot with heq | hcollides
    · exact absurd heq hcontrol
    · have hmade := hcollides.mono (List.Subset.refl _) (hhonest.inputs_subset hprove)
      exact SecretKey.collidesWith_of_digit (List.getElem_mem htree) (List.getElem_mem hdigit') hmade
  · exact hcollides

/-- The proof of a digit in a signature that is signed with a key over given preimages: the path of
the digit's leaf, the preimage of the leaf and the digit. -/
theorem exists_path_of_proves {preimages : Nat → Nat → Preimage}
    (hkey : s.commitTrees preimages = .ok key.trees) (hsig : key.Proves sig) {digit : Nat}
    (hdigit : digit < s.digits) :
    ∃ tree value path, key.trees[digit]? = some tree ∧ sig.digest[digit]? = some value ∧
      tree.tree.authPath value.toNat = .ok path ∧
      sig.proofs[digit]? = some ⟨path.reverse, preimages digit value.toNat, value⟩ := by
  obtain ⟨tree, value, path, leaf, proof, htree, hvalue, hpath, hleaf, hproof, rfl, -⟩ :=
    h.exists_leaf_of_proves hsig hdigit
  obtain ⟨hplace, rfl⟩ := List.getElem?_eq_some_iff.mp htree
  obtain ⟨hsize, rfl⟩ := Array.getElem?_eq_some_iff.mp hleaf
  have hindex : value.toNat < key.trees[digit].tree.leafCount := by
    rwa [← DigitTree.size_leaves]
  have hpreimage := preimage_of_commitTrees hkey hplace ⟨value.toNat, hindex⟩
  refine ⟨_, value, path, htree, hvalue, hpath, ?_⟩
  rw [hproof, ← hpreimage]
  rfl

end IsSecretKey

/-- Verification is sound for a key over any preimages. A signature that is verified is the one that
the key signs the digest with: each digit has a leaf, and its proof is made of the leaf's path, the
leaf's preimage and the digit itself; or a string that is hashed to verify it collides with one that
was hashed to make the key. So a signature that was signed is rejected for every digest when one of
its bytes is changed, or there is such a collision. -/
theorem verify_sound (s : Scheme) (preimages : Nat → Nat → Preimage) :
    ∃ trees, s.commitTrees preimages = .ok trees ∧ ∀ text,
      (∀ digest sig,
        s.verify digest sig (aggregate (trees.map DigitTree.root)) = true →
          ((∀ b ∈ digest, b.toNat < s.leafCount) ∧
            (∀ digit < s.digits, ∃ tree value path,
              trees[digit]? = some tree ∧ digest[digit]? = some value ∧
                tree.tree.authPath value.toNat = .ok path ∧
                sig.proofs[digit]? = some ⟨path.reverse, preimages digit value.toNat, value⟩) ∧
            (s.sign digest ⟨trees, text⟩).outcome = .ok sig) ∨
          (SecretKey.mk trees text).CollidesWith sig) ∧
      ∀ digest sig, (s.sign digest ⟨trees, text⟩).outcome = .ok sig →
        ∀ changed i v, changed ≠ sig → changed.toBytes = sig.toBytes.set i v →
          ∀ claimed, s.verify claimed changed (aggregate (trees.map DigitTree.root)) = true →
            (SecretKey.mk trees text).CollidesWith changed := by
  obtain ⟨trees, htrees, hkey⟩ := s.exists_commitTrees preimages
  refine ⟨trees, htrees, fun text => ⟨fun digest sig hverify => ?_, ?_⟩⟩
  · obtain ⟨-, rfl, -⟩ := verify_iff.mp hverify
    rcases (hkey text).proves_or_collidesWith hverify with hproves | hcollides
    · refine .inl ⟨(hkey text).lt_of_proves hproves, fun digit hdigit => ?_, ?_⟩
      · exact (hkey text).exists_path_of_proves htrees hproves hdigit
      · exact (hkey text).sign_eq_ok_iff.mpr ⟨hproves, rfl⟩
    · exact .inr hcollides
  · intro digest sig hsign changed i v hne hbytes claimed hverify
    have hproves := ((hkey text).sign_eq_ok_iff.mp hsign).1
    exact (hkey text).collidesWith_of_set hproves hne hbytes hverify

/-- Over preimages of zeros the signature of the digit 1 is verified, and then it is the one that
the key signs, or strings collide. -/
theorem verify_sound_smallest :
    ∃ trees sig, smallest.commitTrees (fun _ _ => FixedBytes.ofNat 16 0) = .ok trees ∧
      smallest.verify [1] sig (aggregate (trees.map DigitTree.root)) = true ∧
      ((smallest.sign [1] ⟨trees, ""⟩).outcome = .ok sig ∨
        (SecretKey.mk trees "").CollidesWith sig) := by
  obtain ⟨trees, htrees, hsound⟩ := verify_sound smallest fun _ _ => FixedBytes.ofNat 16 0
  obtain ⟨trees', htrees', hkey⟩ := exists_commitTrees smallest fun _ _ => FixedBytes.ofNat 16 0
  obtain rfl : trees' = trees := Except.ok.inj (htrees'.symm.trans htrees)
  have hlen : [(1 : UInt8)].length = smallest.digits := rfl
  have hdigit : ∀ b ∈ [(1 : UInt8)], b.toNat < smallest.leafCount :=
    List.forall_mem_singleton.mpr (by decide)
  obtain ⟨sig, hproves, hdigest⟩ := (hkey "").exists_proves hlen hdigit
  have hverify := (hkey "").verify_of_proves hproves
  rw [hdigest] at hverify
  exact ⟨trees', sig, htrees, hverify, ((hsound "").1 [1] sig hverify).imp_left fun h => h.2.2⟩

end Scheme

end OneTimeSig
