import OneTimeSig.Proofs.Outcome
import OneTimeSig.Proofs.Path
import OneTimeSig.Proofs.Script.Number

/-!
# What a witness of the verifier program says

The verifier program takes any byte strings for the items of its witness. `RawProof` holds the items
of one digit as they are, and this module says what the program makes of them: the number that the
control item stands for (`IsControlValue`, and `controlNumber` as a computation that fails where
the program does), the directions that the number gives (`directions`), and the root that they lead
to (`RawProof.root`). A number that is too large for the tree turns to the right on every level. An
item that stands for no number has an error instead (`IsControlError`), and of all digits the last one
that has an error decides (`exists_of_recoverRoots_eq_error`).

`RawProof.read` cuts a witness into the items of its digits, and is undone by writing them in a row
(`flatMap_items_read`, `read_flatMap_items`).
-/

namespace OneTimeSig.Script

/-- The items of one digit in a witness. -/
structure RawProof where
  /-- The items in the place of the siblings, from the root's level to the leaf's. -/
  siblings : List Bytes
  /-- The item in the place of the preimage. -/
  preimage : Bytes
  /-- The item in the place of the control byte. -/
  control : Bytes

/-- The number that a control item stands for: two bytes have a meaning of their own, and every
other item is an operand, whose negative values stand for those above 128. -/
def IsControlValue (item : Bytes) (v : Nat) : Prop :=
  (item = [0x00] ∧ v = 0 ∨ item = [0x80] ∧ v = 128 ∨
    ∃ n, Number.decode item = .ok n ∧ (v : Int) = if 0 ≤ n then n else 128 - n) ∧
  v ≤ 2 ^ 31 - 1

/-- The number that a control item is brought to. -/
def normalized (item : Bytes) : Except Error Int :=
  if item = [0x00] then .ok 0
  else if item = [0x80] then .ok 128
  else do
    let n ← Number.decode item
    return if 0 ≤ n then n else 128 - n

/-- The number that a control item stands for, which has to be an operand again. -/
def controlNumber (item : Bytes) : Except Error Nat := do
  let v ← normalized item
  if v ≤ 2 ^ 31 - 1 then .ok v.toNat else .error (.numberTooLong (Number.encode v).length)

/-- Control items are brought to numbers that are not negative. -/
theorem normalized_nonneg {item : Bytes} {v : Int} (h : normalized item = .ok v) : 0 ≤ v := by
  unfold normalized at h
  split_ifs at h
  · rw [Except.ok.injEq] at h
    omega
  · rw [Except.ok.injEq] at h
    omega
  · obtain ⟨n, -, hn⟩ := bind_eq_ok_iff.mp h
    have hv : (if 0 ≤ n then n else 128 - n) = v := Except.ok.inj hn
    split_ifs at hv <;> omega

/-- The number 0 has no other control item than its byte and the empty one, and 128 has none but its
byte and its operand: neither of the two bytes is an operand. -/
theorem decode_ne_ok_of_special {item : Bytes} (h : item = [0x00] ∨ item = [0x80]) (n : Int) :
    Number.decode item ≠ .ok n := by
  rcases h with rfl | rfl
  · exact fun h => nomatch h
  · exact fun h => nomatch h

/-- The computation gives the number that the item stands for. -/
theorem controlNumber_eq_ok_iff (item : Bytes) (v : Nat) :
    controlNumber item = .ok v ↔ IsControlValue item v := by
  have hlimit : ∀ w : Int, 0 ≤ w →
      ((if w ≤ 2 ^ 31 - 1 then .ok w.toNat
        else .error (.numberTooLong (Number.encode w).length) : Except Error Nat) = .ok v ↔
        (v : Int) = w ∧ v ≤ 2 ^ 31 - 1) := by
    intro w hw
    split_ifs with hle
    · rw [Except.ok.injEq]
      omega
    · simp only [false_iff]
      omega
  unfold controlNumber IsControlValue normalized
  -- Neither of the two bytes is an operand, so at most one of the alternatives holds.
  rcases eq_or_ne item [0x00] with rfl | h0
  · rw [if_pos rfl, ok_bind, hlimit 0 le_rfl]
    simp [decode_ne_ok_of_special]
  rcases eq_or_ne item [0x80] with rfl | h128
  · rw [if_neg h0, if_pos rfl, ok_bind, hlimit 128 (by norm_num)]
    simp [decode_ne_ok_of_special]
    omega
  · rw [if_neg h0, if_neg h128]
    cases Number.decode item with
    | error e => simp [h0, h128]
    | ok n =>
      have hw : 0 ≤ if 0 ≤ n then n else 128 - n := by split_ifs <;> omega
      simp only [ok_bind, pure_bind, hlimit _ hw, h0, h128, false_and, false_or, Except.ok.injEq,
        exists_eq_left']

/-- A control item that stands for no number, and the error that it ends a run with: it is neither of
the two bytes, and it is no operand or a negative one whose place above 128 is too high for an operand
again. -/
def IsControlError (item : Bytes) (e : Error) : Prop :=
  item ≠ [0x00] ∧ item ≠ [0x80] ∧
    (Number.decode item = .error e ∨
      ∃ n, Number.decode item = .ok n ∧ 2 ^ 31 - 1 < 128 - n ∧ e = .numberTooLong 5)

/-- The errors that refuse an operand: it is too long or not minimal. -/
def Error.RefusesOperand (e : Error) : Prop :=
  (∃ length, e = .numberTooLong length) ∨ ∃ hex, e = .nonMinimalNumber hex

/-- An operand that cannot be read is too long or not minimal. -/
theorem Number.refusesOperand_of_decode {item : Bytes} {e : Error} (h : decode item = .error e) :
    e.RefusesOperand := by
  unfold decode at h
  split_ifs at h with hlong hmin
  · exact .inl ⟨_, (Except.error.inj h).symm⟩
  · exact .inr ⟨_, (Except.error.inj h).symm⟩

/-- A control item that stands for no number is too long or not minimal. -/
theorem IsControlError.refusesOperand {item : Bytes} {e : Error} (h : IsControlError item e) :
    e.RefusesOperand := by
  obtain ⟨-, -, hdecode | ⟨n, -, -, rfl⟩⟩ := h
  · exact Number.refusesOperand_of_decode hdecode
  · exact .inl ⟨5, rfl⟩

/-- The numbers just beyond the operands take five bytes. -/
theorem Number.length_encode_eq_five {v : Int} (hlow : 2 ^ 31 - 1 < v) (hhigh : v < 2 ^ 39) :
    (encode v).length = 5 := by
  have hfour := length_signed_le_iff (v < 0) 3 v.natAbs
  have hfive := length_signed_le_iff (v < 0) 4 v.natAbs
  rw [encode_eq_signed]
  omega

/-- The computation fails for the items that stand for no number, with their errors. -/
theorem controlNumber_eq_error_iff (item : Bytes) (e : Error) :
    controlNumber item = .error e ↔ IsControlError item e := by
  unfold controlNumber IsControlError normalized
  rcases eq_or_ne item [0x00] with rfl | h0
  · rw [if_pos rfl, ok_bind, if_pos (by norm_num)]
    simp
  rcases eq_or_ne item [0x80] with rfl | h128
  · rw [if_neg h0, if_pos rfl, ok_bind, if_pos (by norm_num)]
    simp
  rw [if_neg h0, if_neg h128]
  cases hread : Number.decode item with
  | error e' => simp [h0, h128]
  | ok n =>
    have hsmall := Number.natAbs_le_of_decode hread
    simp only [ok_bind, pure_bind, h0, h128, ne_eq, not_false_eq_true, true_and, reduceCtorEq,
      false_or, Except.ok.injEq, exists_eq_left']
    -- An operand that is not negative stays one, so only the place of a negative one can be too high.
    rcases le_or_gt 0 n with hnonneg | hneg
    · rw [if_pos hnonneg, if_pos (by omega)]
      simp only [reduceCtorEq, false_iff]
      omega
    · rw [if_neg (not_le.mpr hneg)]
      split_ifs with hle
      · simp only [false_iff]
        omega
      · rw [Number.length_encode_eq_five (by omega) (by omega), Except.error.injEq]
        exact ⟨fun h => ⟨by omega, h.symm⟩, fun h => h.2.symm⟩

/-- A control item stands for a number or has an error. -/
theorem exists_isControlValue_iff (item : Bytes) :
    (∃ v, IsControlValue item v) ↔ ∀ e, ¬ IsControlError item e := by
  simp only [← controlNumber_eq_ok_iff, ← controlNumber_eq_error_iff]
  cases controlNumber item with
  | error e => simp
  | ok v => simp

/-- A control item that stands for a number has at most four bytes. -/
theorem IsControlValue.length_le {item : Bytes} {v : Nat} (h : IsControlValue item v) :
    item.length ≤ 4 := by
  obtain ⟨⟨rfl, -⟩ | ⟨rfl, -⟩ | ⟨n, hn, -⟩, -⟩ := h
  · decide
  · decide
  · exact ((Number.decode_eq_ok_iff item n).mp hn).1

/-- The direction on a level: a number within the tree gives its bit, and one beyond it turns to the
right everywhere. -/
def direction (depth v level : Nat) : Bool :=
  decide (2 ^ depth ≤ v) || v.testBit level

/-- The directions from the leaf's level to the root's. -/
def directions (depth v : Nat) : List Bool :=
  (List.range depth).map (direction depth v)

@[simp]
theorem length_directions (depth v : Nat) : (directions depth v).length = depth := by
  simp [directions]

/-- The direction below the root is split off first, and the others are those of what is left. -/
theorem directions_succ (depth v : Nat) :
    directions (depth + 1) v =
      directions depth (if 2 ^ depth ≤ v then v - 2 ^ depth else v) ++ [decide (2 ^ depth ≤ v)] := by
  have hpow : 2 ^ (depth + 1) = 2 ^ depth + 2 ^ depth := by
    rw [pow_succ]
    omega
  unfold directions
  rw [List.range_succ, List.map_append, List.map_singleton]
  congr 1
  · refine List.map_congr_left fun level hlevel => ?_
    rw [List.mem_range] at hlevel
    unfold direction
    rcases Nat.lt_or_ge v (2 ^ depth) with hlow | hge
    · rw [if_neg (by omega), decide_eq_false (by omega), decide_eq_false (by omega)]
    · rw [if_pos hge]
      rcases Nat.lt_or_ge v (2 ^ (depth + 1)) with hin | hout
      · -- Within the tree, taking the top bit off leaves the lower ones.
        rw [decide_eq_false (by omega), decide_eq_false (by omega), Bool.false_or, Bool.false_or]
        conv_lhs => rw [show v = 2 ^ depth + (v - 2 ^ depth) by omega]
        exact Nat.testBit_two_pow_add_gt hlevel _
      · rw [decide_eq_true hout, decide_eq_true (by omega), Bool.true_or, Bool.true_or]
  · rw [List.cons.injEq]
    refine ⟨?_, rfl⟩
    unfold direction
    rcases Nat.lt_or_ge v (2 ^ (depth + 1)) with hin | hout
    · rw [decide_eq_false (by omega), Bool.false_or, Nat.testBit_eq_decide_div_mod_eq]
      rcases Nat.lt_or_ge v (2 ^ depth) with hlow | hge
      · rw [Nat.div_eq_of_lt hlow, decide_eq_false (by omega), decide_eq_false (by omega)]
      · rw [show v / 2 ^ depth = 1 by rw [Nat.div_eq_iff (by positivity)]; omega,
          decide_eq_true rfl, decide_eq_true hge]
    · rw [decide_eq_true hout, decide_eq_true (by omega), Bool.true_or]

namespace RawProof

/-- The items in the order of the witness. -/
def items (p : RawProof) : List Bytes :=
  p.siblings ++ [p.preimage, p.control]

/-- The leaf that the items lead from. -/
def leaf (p : RawProof) : Hash160 :=
  hash160 (p.control ++ p.preimage)

/-- The root that the items lead to when the control item stands for the number. -/
def root (p : RawProof) (v : Nat) : Hash160 :=
  Path.fold (directions p.siblings.length v) p.leaf p.siblings.reverse

/-- The root that the items lead to. -/
def recoverRoot (p : RawProof) : Except Error Hash160 := do
  return p.root (← controlNumber p.control)

/-- The roots of all digits in order. The last digit is read first. -/
def recoverRoots : List RawProof → Except Error (List Hash160)
  | [] => .ok []
  | p :: ps => do
    let roots ← recoverRoots ps
    let root ← p.recoverRoot
    return root :: roots

/-- The digest that the control items write. -/
def digest (ps : List RawProof) : Bytes :=
  ps.flatMap control

/-- The roots are recovered when every control item stands for a number. -/
theorem recoverRoots_eq_ok_iff (ps : List RawProof) (roots : List Hash160) :
    recoverRoots ps = .ok roots ↔
      ∃ values, List.Forall₂ (fun p v => IsControlValue p.control v) ps values ∧
        roots = List.zipWith root ps values := by
  induction ps generalizing roots with
  | nil =>
    simp only [recoverRoots, Except.ok.injEq, List.forall₂_nil_left_iff, exists_eq_left,
      List.zipWith_nil_left]
    exact eq_comm
  | cons p ps ih =>
    unfold recoverRoots recoverRoot
    rw [bind_eq_ok_iff]
    constructor
    · rintro ⟨rest, hrest, h⟩
      obtain ⟨values, hvalues, rfl⟩ := (ih rest).mp hrest
      rw [bind_assoc, bind_eq_ok_iff] at h
      obtain ⟨v, hv, h⟩ := h
      exact ⟨v :: values, .cons ((controlNumber_eq_ok_iff _ v).mp hv) hvalues,
        (Except.ok.inj h).symm⟩
    · rintro ⟨values, hvalues, rfl⟩
      obtain ⟨v, values, hv, hrest, rfl⟩ := List.forall₂_cons_left_iff.mp hvalues
      refine ⟨_, (ih _).mpr ⟨values, hrest, rfl⟩, ?_⟩
      rw [(controlNumber_eq_ok_iff _ v).mpr hv]
      rfl

/-- The roots are recovered when no control item has an error. -/
theorem exists_recoverRoots_iff (ps : List RawProof) :
    (∃ roots, recoverRoots ps = .ok roots) ↔ ∀ p ∈ ps, ∀ e, ¬ IsControlError p.control e := by
  simp only [recoverRoots_eq_ok_iff, ← exists_isControlValue_iff]
  constructor
  · rintro ⟨-, values, hvalues, -⟩ p hp
    obtain ⟨i, hi, rfl⟩ := List.getElem_of_mem hp
    exact ⟨_, hvalues.get hi (by rwa [← hvalues.length_eq])⟩
  · intro h
    choose! value hvalue using h
    refine ⟨_, ps.map value, ?_, rfl⟩
    rw [List.forall₂_map_right_iff, List.forall₂_same]
    exact hvalue

/-- Where the roots are recovered, no control item has more than four bytes. -/
theorem length_control_le {ps : List RawProof} {roots : List Hash160}
    (h : recoverRoots ps = .ok roots) : ∀ p ∈ ps, p.control.length ≤ 4 := by
  intro p hp
  have hnone := (exists_recoverRoots_iff ps).mp ⟨roots, h⟩ p hp
  obtain ⟨v, hv⟩ := (exists_isControlValue_iff p.control).mpr hnone
  exact hv.length_le

/-- Where the roots are not recovered, the error is that of the last digit whose control item has
one. -/
theorem exists_of_recoverRoots_eq_error {ps : List RawProof} {e : Error}
    (h : recoverRoots ps = .error e) :
    ∃ front p back, ps = front ++ p :: back ∧ IsControlError p.control e ∧
      ∀ q ∈ back, ∀ e', ¬ IsControlError q.control e' := by
  induction ps with
  | nil => nomatch h
  | cons p ps ih =>
    unfold recoverRoots recoverRoot at h
    cases hrest : recoverRoots ps with
    | error e' =>
      -- A digit behind the head fails, so the head is not looked at.
      rw [hrest, error_bind] at h
      obtain ⟨front, q, back, rfl, hq, hback⟩ := ih (by rw [hrest, Except.error.inj h])
      exact ⟨p :: front, q, back, rfl, hq, hback⟩
    | ok roots =>
      have hback := (exists_recoverRoots_iff ps).mp ⟨roots, hrest⟩
      cases hcontrol : controlNumber p.control with
      | error e' =>
        rw [hrest, hcontrol] at h
        obtain rfl : e' = e := Except.error.inj h
        exact ⟨[], p, ps, rfl, (controlNumber_eq_error_iff _ _).mp hcontrol, hback⟩
      | ok v =>
        rw [hrest, hcontrol] at h
        nomatch h

/-! ## Reading a witness -/

/-- Reads so many digits from a witness, each of which has `depth` siblings. Items that are not
there are read as empty. -/
def read (depth : Nat) : (digits : Nat) → List Bytes → List RawProof
  | 0, _ => []
  | n + 1, witness =>
    ⟨witness.take depth, witness.getD depth [], witness.getD (depth + 1) []⟩ ::
      read depth n (witness.drop (depth + 2))

@[simp]
theorem length_read (depth digits : Nat) (witness : List Bytes) :
    (read depth digits witness).length = digits := by
  induction digits generalizing witness with
  | zero => rfl
  | succ n ih => rw [read, List.length_cons, ih]

/-- The items of a digit in a witness that is long enough. -/
theorem take_append_getD {depth : Nat} {witness : List Bytes} (h : depth + 2 ≤ witness.length) :
    witness.take depth ++ [witness.getD depth [], witness.getD (depth + 1) []] ++
      witness.drop (depth + 2) = witness := by
  have hpre : witness.getD depth [] = witness[depth] := by
    rw [List.getD_eq_getElem?_getD, List.getElem?_eq_getElem (by omega), Option.getD_some]
  have hctl : witness.getD (depth + 1) [] = witness[depth + 1] := by
    rw [List.getD_eq_getElem?_getD, List.getElem?_eq_getElem (by omega), Option.getD_some]
  conv_rhs => rw [← List.take_append_drop depth witness, List.drop_eq_getElem_cons (by omega),
    List.drop_eq_getElem_cons (by omega)]
  rw [hpre, hctl, List.append_assoc]
  rfl

/-- A witness with the right number of items is made of what is read from it. -/
theorem flatMap_items_read {depth digits : Nat} {witness : List Bytes}
    (h : witness.length = digits * (depth + 2)) :
    (read depth digits witness).flatMap items = witness ∧
      ∀ p ∈ read depth digits witness, p.siblings.length = depth := by
  induction digits generalizing witness with
  | zero =>
    rw [Nat.zero_mul, List.length_eq_zero_iff] at h
    rw [h]
    exact ⟨rfl, by simp [read]⟩
  | succ n ih =>
    rw [Nat.succ_mul] at h
    have hdrop : (witness.drop (depth + 2)).length = n * (depth + 2) := by
      rw [List.length_drop]
      omega
    obtain ⟨hitems, hlen⟩ := ih hdrop
    rw [read, List.flatMap_cons, hitems, List.forall_mem_cons]
    exact ⟨take_append_getD (by omega), by rw [List.length_take]; omega, hlen⟩

/-- Digits with the right number of siblings are read back from their items. -/
theorem read_flatMap_items {depth : Nat} {ps : List RawProof}
    (h : ∀ p ∈ ps, p.siblings.length = depth) :
    read depth ps.length (ps.flatMap items) = ps := by
  induction ps with
  | nil => rfl
  | cons p ps ih =>
    rw [List.forall_mem_cons] at h
    obtain ⟨rfl, hrest⟩ := h
    have hitems : (p :: ps).flatMap items =
        p.siblings ++ p.preimage :: p.control :: ps.flatMap items := by
      simp [items]
    rw [hitems, List.length_cons, read, List.take_left, List.cons.injEq]
    refine ⟨?_, ?_⟩
    · simp
    · rw [List.drop_length_add_append, List.drop_succ_cons, List.drop_succ_cons, List.drop_zero]
      exact ih hrest

/-- The number of items of digits that have the same number of siblings. -/
theorem length_flatMap_items {depth : Nat} {ps : List RawProof}
    (h : ∀ p ∈ ps, p.siblings.length = depth) :
    (ps.flatMap items).length = ps.length * (depth + 2) := by
  induction ps with
  | nil => simp
  | cons p ps ih =>
    rw [List.forall_mem_cons] at h
    have hitems : p.items.length = depth + 2 := by
      rw [items, List.length_append, h.1]
      rfl
    rw [List.flatMap_cons, List.length_append, ih h.2, hitems, List.length_cons, Nat.succ_mul,
      Nat.add_comm]

/-- A witness with enough items ends with those of all digits. -/
theorem exists_items_of_le {depth digits : Nat} {witness : List Bytes}
    (h : digits * (depth + 2) ≤ witness.length) :
    ∃ (below : List Bytes) (ps : List RawProof), witness = below ++ ps.flatMap items ∧
      ps.length = digits ∧ ∀ p ∈ ps, p.siblings.length = depth := by
  generalize hlast : witness.drop (witness.length - digits * (depth + 2)) = last
  have hlen : last.length = digits * (depth + 2) := by
    rw [← hlast, List.length_drop]
    omega
  obtain ⟨hitems, hsiblings⟩ := flatMap_items_read hlen
  refine ⟨witness.take (witness.length - digits * (depth + 2)), read depth digits last, ?_,
    length_read depth digits last, hsiblings⟩
  rw [hitems, ← hlast, List.take_append_drop]

end RawProof

end OneTimeSig.Script
