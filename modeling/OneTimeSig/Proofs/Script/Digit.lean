import OneTimeSig.Proofs.Script.Code
import OneTimeSig.Proofs.Script.RawProof

/-!
# The run of one digit

What the instructions of a digit do to the two stacks when the items of the digit are there. The
proof goes part by part: the control item is brought to its number (`run_normalizeCode`), the number
is split into directions (`run_splitCode`), the leaf is hashed (`run_leafCode`), and every level
takes a sibling from the main stack and a direction from the alt stack (`run_levels`). Leaf and level
are each run up to the string that they hash first (`run_leafInputCode`, `run_levelInputCode`).
Together these are `run_rootCode`, and `run_firstCode` and `run_nextCode` say what is left on the alt stack.
Each statement is an equation that also gives the error when the control item is no number.
-/

namespace OneTimeSig.Script

open Machine

namespace Verifier

variable (pk : PublicKey)

/-! ## The control item -/

/-- An item is replaced when it is the byte. -/
theorem run_replaceCode (raw : UInt8) (replacement : Int) (item : Bytes) (main alt : List Bytes) :
    run pk (replaceCode raw replacement) [] ⟨item :: main, alt⟩ =
      .ok ⟨(if item = [raw] then Number.encode replacement else item) :: main, alt⟩ := by
  have hbody : Balanced [.op .drop, .pushNumber replacement] :=
    balanced_of_plain (by simp [Instruction.IsPlain])
  -- The comparison leaves its outcome above the item.
  have htest : run pk (replaceCode raw replacement) [] ⟨item :: main, alt⟩ =
      run pk (.op .opIf :: ([.op .drop, .pushNumber replacement] ++ .op .endIf :: [])) []
        ⟨Number.ofBool (item == [raw]) :: item :: main, alt⟩ := rfl
  rw [htest, run_block pk hbody, Number.isTrue_ofBool]
  rcases eq_or_ne item [raw] with h | h
  · rw [if_pos (by simpa using h), if_pos h]
    rfl
  · rw [if_neg (by simpa using h), if_neg h]
    rfl

/-- A number that is not negative stays, and 128 minus a negative one takes its place. -/
theorem run_signCode (item : Bytes) (main alt : List Bytes) :
    run pk signCode [] ⟨item :: main, alt⟩ =
      Number.decode item >>= fun n =>
        .ok ⟨Number.encode (if 0 ≤ n then n else 128 - n) :: main, alt⟩ := by
  have hbody : Balanced [.pushNumber 128, .op .swap, .op .sub] := balanced_of_plain (by decide)
  have hzero : Number.decode (Number.encode 0) = .ok 0 := by rw [Number.decode_encode]; rfl
  have h128 : Number.decode (Number.encode 128) = .ok 128 := by rw [Number.decode_encode]; rfl
  unfold signCode
  rw [run_append pk (balanced_of_plain (by decide))]
  cases hread : Number.decode item with
  -- The comparison with zero reads the item, and stops the run where the number cannot be read.
  | error e => simp [run, perform, step, popNumbers, popNumber, hread, hzero]
  | ok n =>
    -- A number that is read has one written form, so the item is what would be written for it.
    have hitem : item = Number.encode n := ((Number.decode_eq_ok_iff item n).mp hread).2
    have htest : run pk [.op .dup, .pushNumber 0, .op .lessThan] [] ⟨item :: main, alt⟩ =
        .ok ⟨Number.ofBool (n < 0) :: item :: main, alt⟩ := by
      simp [run, perform, step, popNumbers, popNumber, hread, hzero]
    rw [htest, ok_bind, run_block pk hbody, Number.isTrue_ofBool, ok_bind]
    rcases lt_or_ge n 0 with hneg | hnonneg
    · have hsub : Number.subtract 128 n = .ok (128 - n) :=
        Number.subtract_eq_ok (by decide) (Number.natAbs_le_of_decode hread)
      rw [if_pos (decide_eq_true hneg), if_neg (not_le.mpr hneg)]
      simp [run, perform, step, popNumbers, popNumber, hread, h128, hsub]
    · rw [if_neg (by simpa using hnonneg), if_pos hnonneg, hitem]
      rfl

/-- The control item is brought to its number. -/
theorem run_normalizeCode (item : Bytes) (main alt : List Bytes) :
    run pk normalizeCode [] ⟨item :: main, alt⟩ =
      normalized item >>= fun v => .ok ⟨Number.encode v :: main, alt⟩ := by
  unfold normalizeCode normalized
  rw [List.append_assoc, run_append pk (balanced_replaceCode _ _), run_replaceCode, ok_bind,
    run_append pk (balanced_replaceCode _ _), run_replaceCode, ok_bind, run_signCode]
  -- What the first test puts in place of its byte is not the byte of the second.
  rcases eq_or_ne item [0x00] with h0 | h0
  · rw [if_pos h0, if_pos h0, if_neg (by decide +kernel), Number.decode_encode]
    rfl
  rcases eq_or_ne item [0x80] with h128 | h128
  · rw [if_neg h0, if_neg h0, if_pos h128, if_pos h128, Number.decode_encode]
    rfl
  · rw [if_neg h0, if_neg h0, if_neg h128, if_neg h128, bind_assoc]
    rfl

/-! ## The directions -/

/-- The weights of the levels can be operands. -/
theorem two_pow_le_of_le {depth : Nat} (hd : depth ≤ 8) : 2 ^ depth ≤ 2 ^ 31 - 1 :=
  calc 2 ^ depth
    _ ≤ 2 ^ 8 := Nat.pow_le_pow_right (by decide) hd
    _ ≤ 2 ^ 31 - 1 := by decide

/-- One direction is split off a number that can be an operand. -/
theorem run_splitBitCode {weight v : Nat} (hw : weight ≤ 2 ^ 31 - 1) (hv : v ≤ 2 ^ 31 - 1)
    (main alt : List Bytes) :
    run pk (splitBitCode weight) [] ⟨Number.encode v :: main, alt⟩ =
      .ok ⟨Number.encode (if weight ≤ v then v - weight else v : Nat) :: main,
        Number.ofBool (weight ≤ v) :: alt⟩ := by
  have hbody : Balanced [.pushNumber weight, .op .sub] :=
    balanced_of_plain (by simp [Instruction.IsPlain])
  have hweight : Number.decode (Number.encode weight) = .ok weight := by
    rw [Number.decode_encode, if_pos (by omega)]
  have hread : Number.decode (Number.encode v) = .ok v := by
    rw [Number.decode_encode, if_pos (by omega)]
  -- The outcome of the comparison is kept on the alt stack and decides about the subtraction.
  have htest : run pk [.op .dup, .pushNumber weight, .op .greaterThanOrEqual, .op .dup,
        .op .toAltStack] [] ⟨Number.encode v :: main, alt⟩ =
      .ok ⟨Number.ofBool (weight ≤ v) :: Number.encode v :: main,
        Number.ofBool (weight ≤ v) :: alt⟩ := by
    simp [run, perform, step, popNumbers, popNumber, hread, hweight]
  unfold splitBitCode
  rw [run_append pk (balanced_of_plain (by simp [Instruction.IsPlain])), htest, ok_bind,
    run_block pk hbody, Number.isTrue_ofBool]
  rcases Nat.lt_or_ge v weight with hlt | hge
  · rw [if_neg (by simpa using hlt), if_neg (by omega)]
    rfl
  · have hsub : Number.subtract v weight = .ok (v - weight : Nat) := by
      rw [Number.subtract_eq_ok (by omega) (by omega), Int.ofNat_sub hge]
    rw [if_pos (decide_eq_true hge), if_pos hge]
    simp [run, perform, step, popNumbers, popNumber, hread, hweight, hsub]

/-- A number that is too long for an operand stops the run. -/
theorem run_splitBitCode_of_gt {weight : Nat} {v : Int} (hw : weight ≤ 2 ^ 31 - 1)
    (hv : ¬ v ≤ 2 ^ 31 - 1) (main alt : List Bytes) :
    run pk (splitBitCode weight) [] ⟨Number.encode v :: main, alt⟩ =
      .error (.numberTooLong (Number.encode v).length) := by
  have hweight : Number.decode (Number.encode weight) = .ok weight := by
    rw [Number.decode_encode, if_pos (by omega)]
  have hread := Number.decode_encode v
  rw [if_neg (by omega)] at hread
  unfold splitBitCode
  rw [run_append pk (balanced_of_plain (by simp [Instruction.IsPlain]))]
  simp [run, perform, step, popNumbers, popNumber, hread, hweight]

/-- All directions are split off, and the lowest lies on top of the alt stack. -/
theorem run_splitCode {depth v : Nat} (hd : depth ≤ 8) (hv : v ≤ 2 ^ 31 - 1)
    (main alt : List Bytes) :
    ∃ left : Bytes, run pk (splitCode depth) [] ⟨Number.encode v :: main, alt⟩ =
      .ok ⟨left :: main, (directions depth v).map Number.ofBool ++ alt⟩ := by
  induction depth generalizing v alt with
  | zero => exact ⟨_, rfl⟩
  | succ depth ih =>
    have hweight : 2 ^ depth ≤ 2 ^ 31 - 1 := two_pow_le_of_le (by omega)
    -- The highest weight is split off first, so its direction ends up below the others.
    obtain ⟨left, hleft⟩ := ih (v := if 2 ^ depth ≤ v then v - 2 ^ depth else v) (by omega)
      (by split_ifs; exacts [le_trans (Nat.sub_le _ _) hv, hv]) (Number.ofBool (2 ^ depth ≤ v) :: alt)
    refine ⟨left, ?_⟩
    rw [splitCode, run_append pk (balanced_splitBitCode _), run_splitBitCode pk hweight hv, ok_bind,
      hleft, directions_succ, List.map_append, List.append_assoc]
    rfl

/-! ## The leaf and the levels -/

/-- From the two upper items of a digit to the string that its leaf is the hash of. The control item
and the directions are left on the alt stack. -/
theorem run_leafInputCode {depth : Nat} (hpos : 0 < depth) (hd : depth ≤ 8) (p : RawProof)
    (main alt : List Bytes) :
    run pk (leafInputCode depth) [] ⟨p.control :: p.preimage :: main, alt⟩ =
      controlNumber p.control >>= fun v =>
        .ok ⟨(p.control ++ p.preimage) :: main,
          (directions depth v).map Number.ofBool ++ p.control :: alt⟩ := by
  have hcopy : run pk (opCode [.dup, .toAltStack, .dup]) [] ⟨p.control :: p.preimage :: main, alt⟩ =
      .ok ⟨p.control :: p.control :: p.preimage :: main, p.control :: alt⟩ := rfl
  have hjoin : ∀ left alt', run pk (opCode [.drop, .swap, .cat]) []
        ⟨left :: p.control :: p.preimage :: main, alt'⟩ =
      .ok ⟨(p.control ++ p.preimage) :: main, alt'⟩ := fun _ _ => rfl
  unfold leafInputCode controlNumber
  rw [List.append_assoc, List.append_assoc, run_append pk (balanced_of_plain (by decide)), hcopy,
    ok_bind, run_append pk balanced_normalizeCode, run_normalizeCode, bind_assoc, bind_assoc]
  cases hnorm : normalized p.control with
  | error e => rfl
  | ok v =>
    -- The number is not negative, and what matters is whether it can be an operand again.
    have hnonneg := normalized_nonneg hnorm
    rw [ok_bind, ok_bind, ok_bind, run_append pk (balanced_splitCode depth)]
    rcases le_or_gt v (2 ^ 31 - 1) with hle | hgt
    · obtain ⟨n, rfl⟩ := Int.eq_ofNat_of_zero_le hnonneg
      obtain ⟨left, hleft⟩ := run_splitCode pk hd (v := n) (by omega)
        (p.control :: p.preimage :: main) (p.control :: alt)
      rw [if_pos hle, hleft, ok_bind, hjoin, ok_bind]
      rfl
    · -- The first comparison reads the number, and there is one since the tree has a level.
      obtain ⟨depth, rfl⟩ : ∃ d, depth = d + 1 := ⟨depth - 1, by omega⟩
      have hweight : 2 ^ depth ≤ 2 ^ 31 - 1 := two_pow_le_of_le (by omega)
      rw [if_neg (not_le.mpr hgt), splitCode, run_append pk (balanced_splitBitCode _),
        run_splitBitCode_of_gt pk hweight (not_le.mpr hgt)]
      rfl

/-- From the two upper items of a digit to its leaf. -/
theorem run_leafCode {depth : Nat} (hpos : 0 < depth) (hd : depth ≤ 8) (p : RawProof)
    (main alt : List Bytes) :
    run pk (leafCode depth) [] ⟨p.control :: p.preimage :: main, alt⟩ =
      controlNumber p.control >>= fun v =>
        .ok ⟨p.leaf.toList :: main,
          (directions depth v).map Number.ofBool ++ p.control :: alt⟩ := by
  rw [leafCode_eq, run_append pk (balanced_leafInputCode depth), run_leafInputCode pk hpos hd,
    bind_assoc]
  rfl

/-- One level puts the node on top and the sibling below it in a row. -/
theorem run_levelInputCode (right : Bool) (node : Hash160) (sibling : Bytes)
    (main alt : List Bytes) :
    run pk levelInputCode [] ⟨node.toList :: sibling :: main, Number.ofBool right :: alt⟩ =
      .ok ⟨Path.joinInput right node sibling :: main, alt⟩ := by
  have hbody : Balanced (opCode [.swap]) := balanced_of_plain (by decide)
  have hturn : run pk (opCode [.swap, .fromAltStack]) []
        ⟨node.toList :: sibling :: main, Number.ofBool right :: alt⟩ =
      .ok ⟨Number.ofBool right :: sibling :: node.toList :: main, alt⟩ := rfl
  have hjoin : ∀ a b, run pk (opCode [.cat]) [] ⟨b :: a :: main, alt⟩ =
      .ok ⟨(a ++ b) :: main, alt⟩ := fun _ _ => rfl
  have hswap : run pk (opCode [.swap]) [] ⟨sibling :: node.toList :: main, alt⟩ =
      .ok ⟨node.toList :: sibling :: main, alt⟩ := rfl
  unfold levelInputCode Path.joinInput
  rw [run_append pk (balanced_of_plain (by decide)), hturn, ok_bind, run_block pk hbody,
    Number.isTrue_ofBool, hswap]
  cases right with
  | true => rw [if_pos rfl, if_pos rfl, ok_bind, hjoin]
  | false => rw [if_neg (by decide), if_neg (by decide), ok_bind, hjoin]

/-- One level joins the node on top with the sibling below it. -/
theorem run_levelCode (right : Bool) (node : Hash160) (sibling : Bytes) (main alt : List Bytes) :
    run pk levelCode [] ⟨node.toList :: sibling :: main, Number.ofBool right :: alt⟩ =
      .ok ⟨(hash160 (Path.joinInput right node sibling)).toList :: main, alt⟩ := by
  rw [levelCode_eq, run_append pk balanced_levelInputCode, run_levelInputCode]
  rfl

/-- All levels join the leaf with the siblings in turn. -/
theorem run_levels (bits : List Bool) (node : Hash160) (siblings : List Bytes)
    (hlen : siblings.length = bits.length) (main alt : List Bytes) :
    run pk (List.replicate bits.length levelCode).flatten []
        ⟨node.toList :: (siblings ++ main), bits.map Number.ofBool ++ alt⟩ =
      .ok ⟨(Path.fold bits node siblings).toList :: main, alt⟩ := by
  induction bits generalizing node siblings with
  | nil =>
    rw [List.length_nil, List.length_eq_zero_iff] at hlen
    rw [hlen]
    rfl
  | cons right bits ih =>
    -- A level uses up one direction and one sibling, and leaves its node for the next.
    obtain ⟨sibling, rest, rfl⟩ := List.exists_cons_of_length_eq_add_one hlen
    rw [List.length_cons, List.replicate_succ, List.flatten_cons,
      run_append pk balanced_levelCode, List.cons_append, List.map_cons, List.cons_append,
      run_levelCode, ok_bind, Path.fold]
    exact ih _ rest (by simpa using hlen)

/-! ## The digit -/

/-- From the items of a digit to its root. -/
theorem run_rootCode {depth : Nat} (hpos : 0 < depth) (hd : depth ≤ 8) (p : RawProof)
    (hp : p.siblings.length = depth) (main alt : List Bytes) :
    run pk (rootCode depth) [] ⟨p.items.reverse ++ main, alt⟩ =
      p.recoverRoot >>= fun root => .ok ⟨root.toList :: main, p.control :: alt⟩ := by
  have hitems : p.items.reverse ++ main =
      p.control :: p.preimage :: (p.siblings.reverse ++ main) := by
    simp [RawProof.items]
  unfold rootCode RawProof.recoverRoot
  rw [hitems, run_append pk (balanced_leafCode depth), run_leafCode pk hpos hd, bind_assoc,
    bind_assoc]
  apply bind_congr
  intro v
  have hlevels := run_levels pk (directions depth v) p.leaf p.siblings.reverse (by simp [hp]) main
    (p.control :: alt)
  rw [length_directions] at hlevels
  rw [ok_bind, hlevels, RawProof.root, hp]
  rfl

/-- The digit that is processed first leaves its root and its control item. -/
theorem run_firstCode {depth : Nat} (hpos : 0 < depth) (hd : depth ≤ 8) (p : RawProof)
    (hp : p.siblings.length = depth) (main : List Bytes) :
    run pk (firstCode depth) [] ⟨p.items.reverse ++ main, []⟩ =
      p.recoverRoot >>= fun root => .ok ⟨main, [root.toList, p.control]⟩ := by
  unfold firstCode
  rw [run_append pk (balanced_rootCode depth), run_rootCode pk hpos hd p hp, bind_assoc]
  rfl

/-- Every other digit puts its root in front of the roots and its control item in front of the
digest. -/
theorem run_nextCode {depth : Nat} (hpos : 0 < depth) (hd : depth ≤ 8) (p : RawProof)
    (hp : p.siblings.length = depth) (main : List Bytes) (roots digest : Bytes) :
    run pk (nextCode depth) [] ⟨p.items.reverse ++ main, [roots, digest]⟩ =
      p.recoverRoot >>= fun root =>
        .ok ⟨main, [root.toList ++ roots, p.control ++ digest]⟩ := by
  unfold nextCode
  rw [run_append pk (balanced_rootCode depth), run_rootCode pk hpos hd p hp, bind_assoc]
  rfl

end Verifier

end OneTimeSig.Script
