import OneTimeSig.Proofs.DigitTree

/-!
# Where generated keys come from

Below a secret each path of hardened child numbers names at most one node (`Node.descendant`), and
here the numbers are of any size: one that is no hardened number is refused, and never taken for
another. A generated key takes the leaf of each digit and index from the node of the path that ends
with the two (`Scheme.IsDerivedKey`). The numbers of the digits are cut to words on the way, but the
first digit that a word would mistake stands far behind the first one that is refused, and the
digits are derived in order (`Scheme.failsFirst_deriveTree_iff`). So key generation is the
derivation of the paths in order, it fails as the first of them that fails, and keys of different
schemes share the leaves that both have (`Scheme.keyPair_outcome`).
-/

namespace OneTimeSig

variable {e : Error}

namespace Node

/-! ## Nodes by their paths -/

/-- The hardened child of a number, if it is the number of one. -/
def hardened (node : Node) (number : Nat) : Except Error Node :=
  if number < 2 ^ 31 then node.child (UInt32.ofNat number) else .error (.hardenedIndex number)

/-- The node that a path of numbers leads to from the node of a master secret. -/
def descendant (secret : MasterSecret) (path : List Nat) : Except Error Node := do
  path.foldlM hardened (← master secret)

variable {node : Node} {number : Nat} {secret : MasterSecret}

theorem hardened_of_lt (h : number < 2 ^ 31) :
    node.hardened number = node.child (UInt32.ofNat number) :=
  if_pos h

/-- The first number that is refused is refused with the same words by its word. -/
theorem child_ofNat (h : number ≤ 2 ^ 31) :
    node.child (UInt32.ofNat number) = node.hardened number := by
  rcases Nat.lt_or_eq_of_le h with hlt | rfl
  · exact (hardened_of_lt hlt).symm
  · rfl

/-- Only hardened numbers have a child. -/
theorem lt_of_hardened {child : Node} (h : node.hardened number = .ok child) : number < 2 ^ 31 := by
  unfold hardened at h
  split_ifs at h with hlt
  exact hlt

@[simp]
theorem descendant_nil : descendant secret [] = master secret :=
  bind_pure _

/-- A path goes on from where it has led to. -/
theorem descendant_concat {path : List Nat} (h : descendant secret path = .ok node)
    (number : Nat) : descendant secret (path ++ [number]) = node.hardened number := by
  unfold descendant at h ⊢
  obtain ⟨root, hroot, hnode⟩ := bind_eq_ok_iff.mp h
  rw [hroot, ok_bind, List.foldlM_append, hnode, ok_bind]
  exact bind_pure _

/-- What is wrong with a number that is no private key is a matter of the derivation. -/
theorem kind_of_scalar {key : Option Secp256k1.Scalar} (h : scalar key = .error e) :
    e.kind = .derivation := by
  cases key with
  | some k => nomatch h
  | none =>
    obtain rfl := Except.error.inj h
    rfl

theorem kind_of_child {index : UInt32} (h : node.child index = .error e) :
    e.kind = .derivation := by
  unfold child at h
  dsimp only at h
  split at h
  · obtain rfl := Except.error.inj h
    rfl
  · split at h
    · obtain rfl := Except.error.inj h
      rfl
    · rcases bind_eq_error_iff.mp h with htweak | ⟨tweak, -, h⟩
      · exact kind_of_scalar htweak
      · rcases bind_eq_error_iff.mp h with hkey | ⟨key, -, h⟩
        · exact kind_of_scalar hkey
        · nomatch h

theorem kind_of_hardened (h : node.hardened number = .error e) : e.kind = .derivation := by
  unfold hardened at h
  split_ifs at h
  · exact kind_of_child h
  · obtain rfl := Except.error.inj h
    rfl

theorem kind_of_master (h : master secret = .error e) : e.kind = .derivation := by
  unfold master at h
  rcases bind_eq_error_iff.mp h with hkey | ⟨key, -, h⟩
  · exact kind_of_scalar hkey
  · nomatch h

theorem kind_of_foldlM {path : List Nat} (h : path.foldlM hardened node = .error e) :
    e.kind = .derivation := by
  induction path generalizing node with
  | nil => nomatch h
  | cons number path ih =>
    rw [List.foldlM_cons] at h
    rcases bind_eq_error_iff.mp h with hnumber | ⟨child, -, hrest⟩
    · exact kind_of_hardened hnumber
    · exact ih hrest

/-- Whatever is wrong on the way to a node is a matter of the derivation. -/
theorem kind_of_descendant {path : List Nat} (h : descendant secret path = .error e) :
    e.kind = .derivation := by
  unfold descendant at h
  rcases bind_eq_error_iff.mp h with hmaster | ⟨root, -, hrest⟩
  · exact kind_of_master hmaster
  · exact kind_of_foldlM hrest

end Node

/-- The leaf that a key has for an index of a digit, if it has one. -/
def SecretKey.leaf? (key : SecretKey) (digit index : Nat) : Option Leaf :=
  key.trees[digit]?.bind fun t => t.leaves[index]?

namespace Scheme

variable {s s' : Scheme} {secret : MasterSecret} {keys node : Node} {digit index : Nat}

/-! ## The derivations in order -/

/-- The paths of the nodes that the tree of a digit is derived from: of the digit itself, and then
of its leaves. -/
def digitPaths (s : Scheme) (digit : Nat) : List (List Nat) :=
  [69420, digit] :: (List.range s.leafCount).map fun index => [69420, digit, index]

/-- The paths of the nodes that a key is derived from: of the master node, of the node reserved for
signing keys, and then digit by digit. -/
def keyPaths (s : Scheme) : List (List Nat) :=
  [] :: [69420] :: (List.range s.digits).flatMap s.digitPaths

theorem leafCount_le (s : Scheme) : s.leafCount ≤ 256 := by
  rw [s.leafCount_eq]
  exact Nat.pow_le_pow_right (by decide) s.depth_le

/-- The node of the signing keys is derived by the word of its number. -/
theorem descendant_keys {master : Node} (hmaster : Node.master secret = .ok master) :
    Node.descendant secret [69420] = master.child keyNamespace :=
  Node.descendant_concat (Node.descendant_nil.trans hmaster) 69420

/-- The node of a digit is derived by the word of the digit, up to the first that is refused. -/
theorem descendant_digit (hkeys : Node.descendant secret [69420] = .ok keys)
    (hdigit : digit ≤ 2 ^ 31) :
    Node.descendant secret [69420, digit] = keys.child (UInt32.ofNat digit) :=
  (Node.descendant_concat hkeys digit).trans (Node.child_ofNat hdigit).symm

/-- The node of a leaf is derived by the word of its index. -/
theorem descendant_leaf (hnode : Node.descendant secret [69420, digit] = .ok node)
    (hindex : index < s.leafCount) :
    Node.descendant secret [69420, digit, index] = node.child (UInt32.ofNat index) := by
  have hle : index ≤ 2 ^ 31 := by
    have := s.leafCount_le
    omega
  exact (Node.descendant_concat hnode index).trans (Node.child_ofNat hle).symm

/-- There is a tree for hardened numbers only. -/
theorem lt_of_deriveTree (hdigit : digit ≤ 2 ^ 31) {t : DigitTree}
    (h : (s.deriveTree keys digit).outcome = .ok t) : digit < 2 ^ 31 := by
  rw [outcome_deriveTree, Node.child_ofNat hdigit] at h
  obtain ⟨node, hnode, -⟩ := bind_eq_ok_iff.mp h
  exact Node.lt_of_hardened hnode

section Digits

variable (hkeys : Node.descendant secret [69420] = .ok keys)
include hkeys

/-- The tree of a digit fails as the first of its derivations that fails. This covers the first
number that no hardened child has. -/
theorem deriveTree_eq_error_iff (hdigit : digit ≤ 2 ^ 31) :
    (s.deriveTree keys digit).outcome = .error e ↔
      FailsFirst (Node.descendant secret) (s.digitPaths digit) e := by
  rw [outcome_deriveTree, ← descendant_digit hkeys hdigit, digitPaths, FailsFirst.cons_iff]
  cases hnode : Node.descendant secret [69420, digit] with
  | error e' => simp
  | ok node =>
    rw [ok_bind, DigitTree.derive_eq_error_iff s.leafCount_le s.leafCount_eq]
    have hleaves : FailsFirst (Node.descendant secret)
        ((List.range s.leafCount).map fun index => [69420, digit, index]) e ↔
        FailsFirst (Leaf.derive node) (List.range s.leafCount) e := by
      apply FailsFirst.map_iff
      intro index hindex e
      rw [Leaf.derive_eq_error_iff, descendant_leaf hnode (List.mem_range.mp hindex)]
    rw [hleaves]
    simp

/-- The trees of the digits fail as the first of all their derivations that fails. -/
theorem failsFirst_deriveTree_iff :
    FailsFirst (fun digit => (s.deriveTree keys digit).outcome) (List.range s.digits) e ↔
      FailsFirst (Node.descendant secret) ((List.range s.digits).flatMap s.digitPaths) e := by
  -- The word of a digit is right up to the first number that is refused. What the words of the
  -- digits behind it name does not matter.
  obtain ⟨e', hlast⟩ : ∃ e', (s.deriveTree keys (2 ^ 31)).outcome = .error e' := by
    cases h : (s.deriveTree keys (2 ^ 31)).outcome with
    | error e' => exact ⟨e', rfl⟩
    | ok t => exact absurd (lt_of_deriveTree le_rfl h) (lt_irrefl _)
  exact (FailsFirst.flatMap_range_iff (fun digit hdigit e => deriveTree_eq_error_iff hkeys hdigit)
    hlast s.digits).symm

end Digits

/-- Key generation fails as the first of its derivations that fails. -/
theorem keyPair_eq_error_iff :
    (s.keyPair secret).outcome = .error e ↔ FailsFirst (Node.descendant secret) s.keyPaths e := by
  rw [outcome_keyPair, keyPaths, FailsFirst.cons_iff, FailsFirst.cons_iff, Node.descendant_nil]
  cases hmaster : Node.master secret with
  | error e' => simp
  | ok master =>
    rw [ok_bind, ← descendant_keys hmaster]
    cases hkeys : Node.descendant secret [69420] with
    | error e' => simp
    | ok keys =>
      rw [ok_bind, bind_eq_error_iff, mapM_eq_error_iff, failsFirst_deriveTree_iff hkeys]
      simp

/-! ## Derived keys -/

/-- The key is the one that is derived from a secret. -/
structure IsDerivedKey (s : Scheme) (secret : MasterSecret) (key : SecretKey) : Prop where
  /-- There is one tree for each digit. -/
  length_trees : key.trees.length = s.digits
  /-- Each tree has one leaf for each value of a digit. -/
  size_leaves : ∀ t ∈ key.trees, t.leaves.size = s.leafCount
  /-- The nodes of each tree are made of its leaves. -/
  ofLeaves_eq : ∀ t ∈ key.trees, MerkleTree.ofLeaves t.hashes = .ok t.tree
  /-- The leaf of an index has that index, its preimage is taken from the private key at the path
  that ends with the digit and the index, and it commits to the two. -/
  leaf : ∀ digit < s.digits, ∀ index < s.leafCount, ∃ leaf node,
    key.leaf? digit index = some leaf ∧ Node.descendant secret [69420, digit, index] = .ok node ∧
      leaf.index.toNat = index ∧
      leaf.preimage.toList = (hash160 node.secretBytes.toList).toList.take 16 ∧
      leaf.hash = leafHash leaf.index leaf.preimage

namespace IsDerivedKey

variable {key key' : SecretKey} (h : s.IsDerivedKey secret key)
include h

/-- A key has leaves for the values of its digits only. -/
theorem lt_of_leaf? {leaf : Leaf} (hleaf : key.leaf? digit index = some leaf) :
    digit < s.digits ∧ index < s.leafCount := by
  obtain ⟨t, ht, hleaf⟩ := Option.bind_eq_some_iff.mp hleaf
  obtain ⟨hdigit, rfl⟩ := List.getElem?_eq_some_iff.mp ht
  obtain ⟨hindex, -⟩ := Array.getElem?_eq_some_iff.mp hleaf
  rw [h.size_leaves _ (List.getElem_mem hdigit)] at hindex
  exact ⟨by rwa [← h.length_trees], hindex⟩

/-- Keys that are derived from one secret share the leaves that both have. -/
theorem leaf_eq (h' : s'.IsDerivedKey secret key') {leaf leaf' : Leaf}
    (hleaf : key.leaf? digit index = some leaf) (hleaf' : key'.leaf? digit index = some leaf') :
    leaf = leaf' := by
  obtain ⟨hdigit, hindex⟩ := h.lt_of_leaf? hleaf
  obtain ⟨hdigit', hindex'⟩ := h'.lt_of_leaf? hleaf'
  obtain ⟨_, node, hsome, hnode, hnumber, hpreimage, hhash⟩ := h.leaf digit hdigit index hindex
  obtain ⟨_, node', hsome', hnode', hnumber', hpreimage', hhash'⟩ :=
    h'.leaf digit hdigit' index hindex'
  obtain rfl := Option.some.inj (hsome.symm.trans hleaf)
  obtain rfl := Option.some.inj (hsome'.symm.trans hleaf')
  obtain rfl := Except.ok.inj (hnode.symm.trans hnode')
  rw [Leaf.mk.injEq, hhash, hhash', UInt8.toNat_inj.mp (hnumber.trans hnumber'.symm),
    FixedBytes.ext (hpreimage.trans hpreimage'.symm)]
  exact ⟨rfl, rfl, rfl⟩

end IsDerivedKey

/-- A derived leaf of an index that a byte can hold. -/
theorem leaf_of_derive {leaf : Leaf} (hnode : Node.descendant secret [69420, digit] = .ok node)
    (hindex : index < s.leafCount) (h : Leaf.derive node index = .ok leaf) :
    ∃ child, Node.descendant secret [69420, digit, index] = .ok child ∧
      leaf.index.toNat = index ∧
      leaf.preimage.toList = (hash160 child.secretBytes.toList).toList.take 16 ∧
      leaf.hash = leafHash leaf.index leaf.preimage := by
  have hbyte : index < 256 := lt_of_lt_of_le hindex s.leafCount_le
  obtain ⟨child, hchild, rfl⟩ := Leaf.derive_eq_ok_iff.mp h
  have hpath := (descendant_leaf hnode hindex).trans hchild
  exact ⟨child, hpath, UInt8.toNat_ofNat_of_lt' hbyte, rfl, rfl⟩

/-- Key generation succeeds for no more digits than there are hardened numbers, and gives the key
that is derived from the secret. -/
theorem isDerivedKey_of_keyPair {kp : KeyPair} (h : (s.keyPair secret).outcome = .ok kp) :
    s.digits ≤ 2 ^ 31 ∧ s.IsDerivedKey secret kp.secretKey := by
  obtain ⟨master, keys, trees, hmaster, hkeys, htrees, rfl⟩ := keyPair_eq_ok_iff.mp h
  have hpath := (descendant_keys hmaster).trans hkeys
  have hdigits : s.digits ≤ 2 ^ 31 := by
    by_contra hgt
    obtain ⟨t, -, ht⟩ := exists_getElem?_of_range htrees (not_le.mp hgt)
    exact lt_irrefl _ (lt_of_deriveTree le_rfl ht)
  have hderived : ∀ t ∈ trees,
      t.leaves.size = s.leafCount ∧ MerkleTree.ofLeaves t.hashes = .ok t.tree := by
    intro t ht
    obtain ⟨digit, -, hdigit⟩ := exists_of_mapM_eq_ok (mapM_eq_ok_iff.mpr htrees) ht
    rw [outcome_deriveTree] at hdigit
    obtain ⟨node, -, hbuilt⟩ := bind_eq_ok_iff.mp hdigit
    exact ⟨(DigitTree.isHonest_of_derive hbuilt).2, (DigitTree.of_derive hbuilt).2.1⟩
  refine ⟨hdigits, ?_, fun t ht => (hderived t ht).1, fun t ht => (hderived t ht).2, ?_⟩
  · rw [← htrees.length_eq, List.length_range]
  · intro digit hdigit index hindex
    obtain ⟨t, ht, hbuilt⟩ := exists_getElem?_of_range htrees hdigit
    rw [outcome_deriveTree, ← descendant_digit hpath (by omega)] at hbuilt
    obtain ⟨node, hnode, hbuilt⟩ := bind_eq_ok_iff.mp hbuilt
    obtain ⟨-, -, hleaves⟩ := DigitTree.of_derive hbuilt
    obtain ⟨leaf, hleaf, hderive⟩ := exists_getElem?_of_range hleaves hindex
    obtain ⟨child, hchild, hfacts⟩ := leaf_of_derive hnode hindex hderive
    refine ⟨leaf, child, ?_, hchild, hfacts⟩
    rw [SecretKey.leaf?, ht, Option.bind_some, ← Array.getElem?_toList, hleaf]

/-! ## The law of key generation -/

/-- When it succeeds, there are no more digits than hardened numbers, the key is the one that is
derived from the secret, the public key is made of the roots in order, and any other scheme takes
the same leaf from the secret wherever it has one. When it fails, it fails as the first derivation
that fails, and never for another reason. -/
theorem keyPair_outcome (s : Scheme) (secret : MasterSecret) :
    (∀ kp, (s.keyPair secret).outcome = .ok kp →
      s.digits ≤ 2 ^ 31 ∧ s.IsDerivedKey secret kp.secretKey ∧
        kp.publicKey = aggregate (kp.secretKey.trees.map DigitTree.root) ∧
        ∀ (s' : Scheme) kp', (s'.keyPair secret).outcome = .ok kp' → ∀ digit index leaf leaf',
          kp.secretKey.leaf? digit index = some leaf →
          kp'.secretKey.leaf? digit index = some leaf' → leaf = leaf') ∧
    (∀ e, (s.keyPair secret).outcome = .error e ↔
      FailsFirst (Node.descendant secret) s.keyPaths e) ∧
    ∀ e, (s.keyPair secret).outcome = .error e → e.kind = .derivation := by
  refine ⟨fun kp hkp => ?_, fun e => keyPair_eq_error_iff, fun e he => ?_⟩
  · obtain ⟨hdigits, hkey⟩ := isDerivedKey_of_keyPair hkp
    refine ⟨hdigits, hkey, (isSecretKey_of_keyPair hkp).2, ?_⟩
    intro s' kp' hkp' digit index leaf leaf' hleaf hleaf'
    exact hkey.leaf_eq (isDerivedKey_of_keyPair hkp').2 hleaf hleaf'
  · obtain ⟨path, -, hpath⟩ := (keyPair_eq_error_iff.mp he).exists_mem
    exact Node.kind_of_descendant hpath

/-- A scheme of one digit, which is below 4. -/
def ofFour : Scheme := ⟨⟨1, 4⟩, rfl⟩

/-- A scheme with one digit more than there are hardened numbers. -/
def ofTooMany : Scheme := ⟨⟨2147483649, 2⟩, rfl⟩

/-- Key generation succeeds for the secret of zeros in the scheme of a digit below 4. -/
theorem exists_keyPair_ofFour :
    ∃ kp, (ofFour.keyPair ⟨FixedBytes.ofNat 32 0⟩).outcome = .ok kp :=
  exists_keyPair_zeros (by decide) (by decide)

/-- The secret of zeros gives a key for a digit of two values and one for a digit of four, which
have the leaf of the value 1 in common. It gives none for more digits than there are hardened
numbers, which is a failure of the derivation. -/
theorem keyPair_outcome_zeros :
    ∃ kp kp', (smallest.keyPair ⟨FixedBytes.ofNat 32 0⟩).outcome = .ok kp ∧
      (ofFour.keyPair ⟨FixedBytes.ofNat 32 0⟩).outcome = .ok kp' ∧
      (∃ leaf, kp.secretKey.leaf? 0 1 = some leaf ∧ kp'.secretKey.leaf? 0 1 = some leaf) ∧
      ∃ e, (ofTooMany.keyPair ⟨FixedBytes.ofNat 32 0⟩).outcome = .error e ∧
        e.kind = .derivation := by
  obtain ⟨kp, hkp⟩ := exists_keyPair_smallest
  obtain ⟨kp', hkp'⟩ := exists_keyPair_ofFour
  obtain ⟨-, hkey, -, hshared⟩ := (keyPair_outcome smallest _).1 kp hkp
  obtain ⟨-, hkey', -, -⟩ := (keyPair_outcome ofFour _).1 kp' hkp'
  obtain ⟨leaf, -, hleaf, -⟩ := hkey.leaf 0 (by decide) 1 (by decide)
  obtain ⟨leaf', -, hleaf', -⟩ := hkey'.leaf 0 (by decide) 1 (by decide)
  obtain rfl := hshared ofFour kp' hkp' 0 1 leaf leaf' hleaf hleaf'
  refine ⟨kp, kp', hkp, hkp', ⟨leaf, hleaf, hleaf'⟩, ?_⟩
  obtain ⟨hok, -, hkind⟩ := keyPair_outcome ofTooMany ⟨FixedBytes.ofNat 32 0⟩
  cases h : (ofTooMany.keyPair ⟨FixedBytes.ofNat 32 0⟩).outcome with
  | error e => exact ⟨e, rfl, hkind e h⟩
  | ok kp => exact absurd (hok kp h).1 (by decide)

end Scheme

end OneTimeSig
