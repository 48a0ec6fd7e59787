import OneTimeSig.Proofs.Completeness
import OneTimeSig.Proofs.Script.Hashing
import OneTimeSig.Proofs.Soundness
import OneTimeSig.Proofs.WireFormat

/-!
# An accepted witness opens leaves of the key, or something collides

The verifier program takes any byte strings for its items. A witness that it accepts under the key of
honest trees leads to their roots, and the descent from the roots shows the siblings as they stand in
the witness: a sibling is hashed together with a node whose width is known. The last string on the way
down is the control item followed by the preimage item, and of these only the bytes in a row are shown
and not where one item ends. So a digit opens some leaf of its tree (`DigitTree.Opens`): its siblings
are those of the leaf's path, and its two other items write the index and the preimage of the leaf.

A number beyond the tree turns to the right on every level, which is the path of the last leaf
(`directions_eq_turns`). Where a step of the descent fails, a string that the run hashes has the same
hash as another that was hashed to make the key (`SecretKey.CollidesInRun`).

The items of a signature have known widths, so there the control item is the index and the preimage
item the preimage, and the signature is the one that the key signs the digest with
(`proves_of_opens`).
-/

namespace OneTimeSig

open Script Script.Machine

/-- The directions of a number are the turns to a leaf; a number beyond the tree leads to the last
one. -/
theorem Script.directions_eq_turns (depth v : Nat) :
    directions depth v = Path.turns depth (min v (2 ^ depth - 1)) := by
  have hpos := Nat.two_pow_pos depth
  rcases Nat.lt_or_ge v (2 ^ depth) with hlow | hhigh
  · rw [min_eq_left (by omega)]
    exact (directions_eq_turns_iff depth v).mpr (.inl hlow)
  · rw [min_eq_right (by omega)]
    refine List.map_congr_left fun level hlevel => ?_
    rw [direction, decide_eq_true hhigh, Nat.testBit_two_pow_sub_one,
      decide_eq_true (List.mem_range.mp hlevel), Bool.true_or]

namespace DigitTree

/-! ## One digit -/

/-- The items open a leaf of the tree: the siblings are those of its path, and the control item and the
preimage item in a row are its index and its preimage. -/
def Opens (t : DigitTree) (p : RawProof) : Prop :=
  ∃ (index : Fin t.tree.leafCount) (path : List Hash160),
    t.tree.authPath index = .ok path ∧ p.siblings = path.reverse.map FixedBytes.toList ∧
      p.control ++ p.preimage = UInt8.ofNat index :: (t.leaf index).preimage.toList

/-- A tree of at most eight levels has its indices in one byte. -/
theorem exists_digit_of_lt (t : DigitTree) (hdepth : t.tree.depth ≤ 8) {index : Nat}
    (hindex : index < t.tree.leafCount) : ∃ digit : UInt8, digit.toNat = index := by
  rw [t.tree.leafCount_eq_two_pow] at hindex
  have hbyte : index < 256 :=
    Nat.lt_of_lt_of_le hindex (Nat.pow_le_pow_right (by decide) hdepth)
  exact ⟨_, UInt8.toNat_ofNat_of_lt' hbyte⟩

namespace IsHonest

variable {t : DigitTree} (h : t.IsHonest) {p : RawProof}
include h

/-- Items that lead to the root open a leaf, or strings collide. -/
theorem opens_or_collides {v : Nat} (hdepth : t.tree.depth ≤ 8)
    (hsiblings : p.siblings.length = t.tree.depth) (hroot : p.root v = t.root) :
    t.Opens p ∨ Collides hash160 (p.inputs v) t.inputs := by
  have hpos := Nat.two_pow_pos t.tree.depth
  generalize hindex : min v (2 ^ t.tree.depth - 1) = index
  have hlt : index < 2 ^ t.tree.depth := by omega
  have hcount : index < t.tree.leafCount := by rwa [t.tree.leafCount_eq_two_pow]
  have hturns : directions p.siblings.length v = Path.turns t.tree.depth index := by
    rw [hsiblings, directions_eq_turns, hindex]
  rw [RawProof.root, hturns] at hroot
  rcases h.isOver.leaf_or_collides (by rw [List.length_reverse, hsiblings]) hroot with
    ⟨hnode, hpath⟩ | hcollides
  · rw [Nat.mod_eq_of_lt hlt] at hnode hpath
    obtain ⟨digit, rfl⟩ := t.exists_digit_of_lt hdepth hcount
    rw [h.getElem?_hashes hcount] at hnode
    have hleaf : hash160 (p.control ++ p.preimage) =
        hash160 (digit :: (t.leaf ⟨digit.toNat, hcount⟩).preimage.toList) :=
      (Option.some.inj hnode).symm
    rcases eq_or_collides hleaf List.mem_cons_self (h.leafInput_mem hcount) with hinput | hcollides
    · refine .inl ⟨⟨digit.toNat, hcount⟩, _, h.isOver.authPath_eq hcount, ?_, ?_⟩
      · rw [List.map_reverse, ← hpath, List.reverse_reverse]
      · rw [hinput, UInt8.ofNat_toNat]
    · exact .inr hcollides
  · refine .inr (hcollides.mono ?_ (List.subset_append_right _ _))
    unfold RawProof.inputs
    rw [hturns]
    exact List.subset_cons_self _ _

/-- Items that open a leaf, with one byte for the index, are those of the tree's proof of it. -/
theorem exists_prove_of_opens (hopens : t.Opens p) (hdepth : t.tree.depth ≤ 8)
    (hcontrol : p.control.length = 1) : ∃ q, t.prove q.control = .ok q ∧ q.raw = p := by
  obtain ⟨⟨index, hindex⟩, path, hpath, hsiblings, hbytes⟩ := hopens
  obtain ⟨digit, hdigit⟩ := List.length_eq_one_iff.mp hcontrol
  rw [hdigit, List.singleton_append] at hbytes
  obtain ⟨rfl, hpreimage⟩ := List.cons_eq_cons.mp hbytes
  obtain ⟨digit, rfl⟩ := t.exists_digit_of_lt hdepth hindex
  rw [UInt8.ofNat_toNat] at hdigit
  rw [h.isOver.authPath_eq hindex] at hpath
  obtain rfl := Except.ok.inj hpath
  refine ⟨⟨_, _, digit⟩, h.prove_eq hindex, ?_⟩
  obtain ⟨siblings, preimage, control⟩ := p
  rw [DigitProof.raw, RawProof.mk.injEq]
  exact ⟨hsiblings.symm, hpreimage.symm, hdigit.symm⟩

end IsHonest

end DigitTree

/-- Items that open a leaf of every tree, with one byte for each index, are those of proofs of the
trees. -/
theorem exists_forall₂_prove_of_opens {trees : List DigitTree} {ps : List RawProof}
    (htrees : ∀ t ∈ trees, t.IsHonest) (hdepth : ∀ t ∈ trees, t.tree.depth ≤ 8)
    (hopens : List.Forall₂ DigitTree.Opens trees ps) (hcontrol : ∀ p ∈ ps, p.control.length = 1) :
    ∃ qs, List.Forall₂ (fun t q => t.prove q.control = .ok q) trees qs ∧
      qs.map DigitProof.raw = ps := by
  induction hopens with
  | nil => exact ⟨[], .nil, rfl⟩
  | @cons t p trees ps hopen _ ih =>
    rw [List.forall_mem_cons] at htrees hdepth hcontrol
    obtain ⟨q, hq, rfl⟩ := htrees.1.exists_prove_of_opens hopen hdepth.1 hcontrol.1
    obtain ⟨qs, hqs, rfl⟩ := ih htrees.2 hdepth.2 hcontrol.2
    exact ⟨q :: qs, .cons hq hqs, rfl⟩

namespace SecretKey

/-! ## All digits -/

/-- A string that the run under the public key hashes has the same hash as another that was hashed to
make the key. -/
def CollidesInRun (key : SecretKey) (program : Program) (witness : List Bytes) : Prop :=
  (∃ x, Applies (aggregate key.roots) .hash160 program.instructions (start witness) x ∧
      ∃ y ∈ key.inputs, x ≠ y ∧ hash160 x = hash160 y) ∨
    ∃ x, Applies (aggregate key.roots) .hash256 program.instructions (start witness) x ∧
      x ≠ key.keyInput ∧ hash256 x = hash256 key.keyInput

end SecretKey

/-- The items of a signature have the widths of a sibling, a preimage or a control byte. -/
theorem Signature.length_of_mem_witness {sig : Signature} {item : Bytes} (h : item ∈ sig.witness) :
    item.length = 20 ∨ item.length = 16 ∨ item.length = 1 := by
  obtain ⟨p, -, hitem⟩ := List.mem_flatMap.mp h
  rcases List.mem_append.mp hitem with hsibling | hback
  · obtain ⟨sibling, -, rfl⟩ := List.mem_map.mp hsibling
    exact .inl sibling.length_toList
  · rcases List.mem_pair.mp hback with rfl | rfl
    · exact .inr (.inl p.preimage.length_toList)
    · exact .inr (.inr rfl)

/-- Items of a signature that open a leaf have one byte for the index, when the control item has at
most four bytes: the 17 bytes of the leaf are those of two items. -/
theorem DigitTree.Opens.length_control {t : DigitTree} {p : RawProof} (h : t.Opens p)
    {sig : Signature} (hitems : p.items ⊆ sig.witness) (hcontrol : p.control.length ≤ 4) :
    p.control.length = 1 := by
  obtain ⟨index, -, -, -, hbytes⟩ := h
  have hpreimage : p.preimage ∈ p.items := by simp [RawProof.items]
  have hbyte : p.control ∈ p.items := by simp [RawProof.items]
  have hwidth := Signature.length_of_mem_witness (hitems hpreimage)
  have hwidth' := Signature.length_of_mem_witness (hitems hbyte)
  have hlen := congrArg List.length hbytes
  rw [List.length_append, List.length_cons, FixedBytes.length_toList] at hlen
  omega

namespace Scheme.IsSecretKey

variable {s : Scheme} {key : SecretKey} (h : s.IsSecretKey key)
include h

/-- Where the items of a signature open a leaf of every tree, the key proves the signature. -/
theorem proves_of_opens {sig : Signature} {ps : List RawProof}
    (hopens : List.Forall₂ DigitTree.Opens key.trees ps)
    (hcontrol : ∀ p ∈ ps, p.control.length ≤ 4)
    (hwitness : sig.witness = ps.flatMap RawProof.items) :
    key.Proves sig ∧ sig.digest = RawProof.digest ps := by
  have hone : ∀ p ∈ ps, p.control.length = 1 := by
    intro p hp
    have hitems : p.items ⊆ sig.witness := by
      rw [hwitness]
      exact fun _ => List.mem_flatMap_of_mem hp
    obtain ⟨i, hi, rfl⟩ := List.getElem_of_mem hp
    have hopen := hopens.get (by rwa [hopens.length_eq]) hi
    exact hopen.length_control hitems (hcontrol _ hp)
  have hdepth : ∀ t ∈ key.trees, t.tree.depth ≤ 8 := fun t ht => h.depth_eq t ht ▸ s.depth_le
  obtain ⟨qs, hqs, rfl⟩ := exists_forall₂_prove_of_opens h.isHonest hdepth hopens hone
  -- These proofs have the items of the signature, so they are its proofs.
  have hsig : sig = ⟨qs⟩ := by
    apply Signature.witness_injective
    rw [hwitness, Signature.witness_eq]
  rw [hsig]
  exact ⟨hqs, (Signature.digest_raw ⟨qs⟩).symm⟩

/-- A witness that the program accepts opens a leaf of every tree, or strings collide. -/
theorem opens_or_collidesInRun {witness : List Bytes} {out : Bytes}
    (hrun : execute (Verifier.program s.digits s.depth) (aggregate key.roots) witness = .ok out) :
    List.Forall₂ DigitTree.Opens key.trees (RawProof.read s.depth s.digits witness) ∨
      key.CollidesInRun (Verifier.program s.digits s.depth) witness := by
  obtain ⟨hlen, roots, hroots, hkey, -⟩ :=
    (Verifier.execute_program_eq_ok_iff _ s.depth_pos s.depth_le s.digits_pos _ _).mp hrun
  obtain ⟨values, hvalues, rfl⟩ := (RawProof.recoverRoots_eq_ok_iff _ _).mp hroots
  obtain ⟨hitems, hsiblings⟩ := RawProof.flatMap_items_read hlen
  generalize hps : RawProof.read s.depth s.digits witness = ps at *
  have hcount : ps.length = s.digits := by rw [← hps, RawProof.length_read]
  have hne : ps ≠ [] := by
    rw [← List.length_pos_iff, hcount]
    exact s.digits_pos
  have happlies := Verifier.applies_program (aggregate key.roots) s.depth_pos s.depth_le hne
    hsiblings hvalues
  rw [hcount, hitems] at happlies
  obtain ⟨hpaths, hinput⟩ := happlies
  by_cases heq :
      (List.zipWith RawProof.root ps values).flatMap FixedBytes.toList = key.keyInput
  · have hsame : List.zipWith RawProof.root ps values = key.trees.map DigitTree.root := by
      refine FixedBytes.flatMap_toList_inj ?_ heq
      rw [List.length_zipWith, ← hvalues.length_eq, min_self, hcount, List.length_map, h.length_trees]
    refine forall₂_or_of_forall (by rw [h.length_trees, hcount]) fun i hi hi' => ?_
    have hvalue : i < values.length := by rwa [← hvalues.length_eq]
    have hpair : (ps[i], values[i]) ∈ ps.zip values :=
      List.mem_iff_getElem.mpr ⟨i, by simp [hi', hvalue], List.getElem_zip⟩
    have hroot : ps[i].root values[i] = key.trees[i].root := by
      have hget := congrArg (fun roots => roots[i]?) hsame
      simpa [hi, hi', hvalue] using hget
    have htree := List.getElem_mem hi
    have hdepth := h.depth_eq _ htree
    have hsibling : ps[i].siblings.length = key.trees[i].tree.depth := by
      rw [hdepth, hsiblings _ (List.getElem_mem hi')]
    rcases (h.isHonest _ htree).opens_or_collides (hdepth ▸ s.depth_le) hsibling hroot with
      hopens | ⟨x, hx, y, hy, hne, hhash⟩
    · exact .inl hopens
    · exact .inr (.inl ⟨x, hpaths _ _ hpair x hx, y, List.mem_flatMap_of_mem htree hy, hne, hhash⟩)
  · exact .inr (.inr ⟨_, hinput, heq, hkey⟩)

/-- The items of a digit in a witness that opens a leaf of every tree, for a key over given preimages:
the path of the leaf, and the index and the preimage of the leaf in a row. -/
theorem exists_path_of_opens {preimages : Nat → Nat → Preimage} {ps : List RawProof}
    (hkey : s.commitTrees preimages = .ok key.trees)
    (hopens : List.Forall₂ DigitTree.Opens key.trees ps) {digit : Nat} (hdigit : digit < s.digits) :
    ∃ tree index path p, key.trees[digit]? = some tree ∧ index < s.leafCount ∧
      tree.tree.authPath index = .ok path ∧ ps[digit]? = some p ∧
      p.siblings = path.reverse.map FixedBytes.toList ∧
      p.control ++ p.preimage = UInt8.ofNat index :: (preimages digit index).toList := by
  have htree : digit < key.trees.length := by rwa [h.length_trees]
  have hproof : digit < ps.length := by rwa [← hopens.length_eq]
  obtain ⟨index, path, hpath, hsiblings, hbytes⟩ := hopens.get htree hproof
  have hindex : index.val < s.leafCount := by
    rw [← leafCount_tree (h.depth_eq _ (List.getElem_mem htree))]
    exact index.isLt
  refine ⟨_, index, path, _, List.getElem?_eq_getElem htree, hindex, hpath,
    List.getElem?_eq_getElem hproof, hsiblings, ?_⟩
  rw [← preimage_of_commitTrees hkey htree index]
  exact hbytes

end Scheme.IsSecretKey

namespace Scheme

/-- The verifier program is sound for a key over any preimages. A witness that it accepts, of any byte
strings, has the items of all digits, and each digit opens a leaf: its siblings are those of the
leaf's path, and its control item and its preimage item in a row are the index and the preimage of the
leaf. Where these are the items of a signature, it is the one that the key signs the returned digest
with. Otherwise a string that the run hashes collides with one that was hashed to make the key. -/
theorem execute_sound (s : Scheme) (preimages : Nat → Nat → Preimage) :
    ∃ trees program, s.commitTrees preimages = .ok trees ∧
      Verifier.compile s.params = .ok program ∧ ∀ text witness out,
        execute program (aggregate (trees.map DigitTree.root)) witness = .ok out →
          (witness.length = s.digits * (s.depth + 2) ∧
            (∀ digit < s.digits, ∃ tree index path p,
              trees[digit]? = some tree ∧ index < s.leafCount ∧
                tree.tree.authPath index = .ok path ∧
                (RawProof.read s.depth s.digits witness)[digit]? = some p ∧
                p.siblings = path.reverse.map FixedBytes.toList ∧
                p.control ++ p.preimage = UInt8.ofNat index :: (preimages digit index).toList) ∧
            ∀ sig : Signature, sig.witness = witness →
              (s.sign out ⟨trees, text⟩).outcome = .ok sig) ∨
          (SecretKey.mk trees text).CollidesInRun program witness := by
  obtain ⟨trees, htrees, hkey⟩ := s.exists_commitTrees preimages
  refine ⟨trees, _, htrees, Verifier.compile_params s, fun text witness out hrun => ?_⟩
  refine ((hkey text).opens_or_collidesInRun hrun).imp_left fun hopens => ?_
  obtain ⟨hlen, roots, hroots, -, rfl⟩ :=
    (Verifier.execute_program_eq_ok_iff _ s.depth_pos s.depth_le s.digits_pos _ _).mp hrun
  refine ⟨hlen, fun digit hdigit => ?_, fun sig hsig => ?_⟩
  · exact (hkey text).exists_path_of_opens htrees hopens hdigit
  · have hitems := (RawProof.flatMap_items_read hlen).1
    have hcontrol := RawProof.length_control_le hroots
    exact (hkey text).sign_eq_ok_iff.mpr
      ((hkey text).proves_of_opens hopens hcontrol (by rw [hitems, hsig]))

/-- Over preimages of zeros the program accepts the items of the signature of the digit 1, and then
it is the one that the key signs, or strings collide. -/
theorem execute_sound_smallest :
    ∃ trees program sig, smallest.commitTrees (fun _ _ => FixedBytes.ofNat 16 0) = .ok trees ∧
      Verifier.compile smallest.params = .ok program ∧
      execute program (aggregate (trees.map DigitTree.root)) sig.witness = .ok [1] ∧
      ((smallest.sign [1] ⟨trees, ""⟩).outcome = .ok sig ∨
        (SecretKey.mk trees "").CollidesInRun program sig.witness) := by
  obtain ⟨trees, program, htrees, hprogram, hsound⟩ :=
    execute_sound smallest fun _ _ => FixedBytes.ofNat 16 0
  obtain ⟨trees', htrees', hkey⟩ := exists_commitTrees smallest fun _ _ => FixedBytes.ofNat 16 0
  obtain rfl : trees' = trees := Except.ok.inj (htrees'.symm.trans htrees)
  obtain rfl := Except.ok.inj (hprogram.symm.trans (Verifier.compile_params smallest))
  have hlen : [(1 : UInt8)].length = smallest.digits := rfl
  have hdigit : ∀ b ∈ [(1 : UInt8)], b.toNat < smallest.leafCount :=
    List.forall_mem_singleton.mpr (by decide)
  obtain ⟨sig, hproves, hdigest⟩ := (hkey "").exists_proves hlen hdigit
  have hrun := (hkey "").execute_of_proves hproves
  rw [hdigest] at hrun
  exact ⟨trees', _, sig, htrees, hprogram, hrun,
    (hsound "" _ _ hrun).imp_left fun h => h.2.2 sig rfl⟩

end Scheme

end OneTimeSig
