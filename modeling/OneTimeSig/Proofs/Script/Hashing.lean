import OneTimeSig.Proofs.Script.Acceptance

/-!
# The strings that a run hashes

`Machine.Applies` says that a run comes to an opcode outside of all blocks with a string on top of the
main stack: the instructions in front of the opcode lead to such a state. What is applied in a part of
a program is applied in the whole, wherever the part stands (`Applies.append_left`,
`Applies.append_right`), so the strings can be collected part by part: `RawProof.inputs` are those of
one digit, its leaf and its levels (`applies_rootCode`), and `applies_program` says of an accepted
witness that the run hashes these strings of all digits, and at the end the roots in a row.
-/

namespace OneTimeSig.Script

namespace Machine

variable (pk : PublicKey)

/-- Where the first instructions lead to a state and leave no block open, the run goes on from that
state. -/
theorem run_append_of_eq_ok {front : List Instruction} {blocks : List Bool} {s t : State}
    (h : run pk front blocks s = .ok t) (rest : List Instruction) :
    run pk (front ++ rest) blocks s = run pk rest [] t := by
  induction front generalizing blocks s with
  | nil =>
    unfold run at h
    split_ifs at h with hblocks
    rw [List.isEmpty_iff.mp hblocks, Except.ok.inj h, List.nil_append]
  | cons i front ih =>
    rw [List.cons_append]
    rcases eq_or_ne i (.op .opIf) with rfl | hif
    · rw [run.eq_2] at h ⊢
      split_ifs at h ⊢
      · -- The condition was there, since the run did not fail at it.
        cases hmain : s.main with
        | nil =>
          rw [hmain] at h
          cases h
        | cons c main =>
          rw [hmain] at h
          exact ih h
      · exact ih h
    rcases eq_or_ne i (.op .endIf) with rfl | hend
    · cases blocks with
      | nil => cases h
      | cons b blocks => exact ih h
    rw [run_plain pk ⟨hif, hend⟩] at h ⊢
    split_ifs at h ⊢
    · obtain ⟨next, hnext, h⟩ := bind_eq_ok_iff.mp h
      rw [hnext, ok_bind]
      exact ih h
    · exact ih h

/-- The run comes to the opcode outside of all blocks, with the string on top of the main stack. -/
def Applies (op : Opcode) (p : List Instruction) (s : State) (x : Bytes) : Prop :=
  ∃ front back main alt, p = front ++ .op op :: back ∧ run pk front [] s = .ok ⟨x :: main, alt⟩

variable {pk} {op : Opcode} {p q : List Instruction} {s t : State} {x : Bytes}

/-- What is applied in a program is applied when more instructions follow. -/
theorem Applies.append_left (h : Applies pk op p s x) (q : List Instruction) :
    Applies pk op (p ++ q) s x := by
  obtain ⟨front, back, main, alt, rfl, hrun⟩ := h
  exact ⟨front, back ++ q, main, alt, by simp, hrun⟩

/-- What is applied from the state that the first instructions lead to is applied in the whole. -/
theorem Applies.append_right (hp : run pk p [] s = .ok t) (h : Applies pk op q t x) :
    Applies pk op (p ++ q) s x := by
  obtain ⟨front, back, main, alt, rfl, hrun⟩ := h
  refine ⟨p ++ front, back, main, alt, by simp, ?_⟩
  rw [run_append_of_eq_ok pk hp, hrun]

/-- An opcode is applied to what the instructions in front of it leave on top. -/
theorem applies_of_run {main alt : List Bytes} (h : run pk p [] s = .ok ⟨x :: main, alt⟩)
    (op : Opcode) : Applies pk op (p ++ [.op op]) s x :=
  ⟨p, [], main, alt, rfl, h⟩

end Machine

/-- The strings that the run hashes for a digit whose control item stands for the number: that of the
leaf, and those on the path. -/
def RawProof.inputs (p : RawProof) (v : Nat) : List Bytes :=
  (p.control ++ p.preimage) ::
    Path.inputs (directions p.siblings.length v) p.leaf p.siblings.reverse

namespace Verifier

open Machine

variable (pk : PublicKey) {x : Bytes}

/-- The levels hash the strings on the path. -/
theorem applies_levels (bits : List Bool) (node : Hash160) (siblings : List Bytes)
    (hlen : siblings.length = bits.length) (main alt : List Bytes)
    (hx : x ∈ Path.inputs bits node siblings) :
    Applies pk .hash160 (List.replicate bits.length levelCode).flatten
      ⟨node.toList :: (siblings ++ main), bits.map Number.ofBool ++ alt⟩ x := by
  induction bits generalizing node siblings with
  | nil => nomatch hx
  | cons right bits ih =>
    obtain ⟨sibling, rest, rfl⟩ := List.exists_cons_of_length_eq_add_one hlen
    rw [List.length_cons, List.replicate_succ, List.flatten_cons]
    rcases List.mem_cons.mp hx with rfl | hx
    · -- The first level hashes the node and its sibling.
      have hinput := run_levelInputCode pk right node sibling (rest ++ main)
        (bits.map Number.ofBool ++ alt)
      exact (applies_of_run hinput .hash160).append_left _
    · -- What the other levels hash they hash from the state behind the first.
      have hlevel := run_levelCode pk right node sibling (rest ++ main)
        (bits.map Number.ofBool ++ alt)
      exact .append_right hlevel (ih _ rest (by simpa using hlen) hx)

/-- A digit hashes its leaf and its path. -/
theorem applies_rootCode {depth : Nat} (hpos : 0 < depth) (hd : depth ≤ 8) {p : RawProof}
    (hp : p.siblings.length = depth) {v : Nat} (hv : controlNumber p.control = .ok v)
    (main alt : List Bytes) (hx : x ∈ p.inputs v) :
    Applies pk .hash160 (rootCode depth) ⟨p.items.reverse ++ main, alt⟩ x := by
  have hitems : p.items.reverse ++ main =
      p.control :: p.preimage :: (p.siblings.reverse ++ main) := by
    simp [RawProof.items]
  rw [hitems, rootCode]
  rcases List.mem_cons.mp hx with rfl | hx
  · have hinput := run_leafInputCode pk hpos hd p (p.siblings.reverse ++ main) alt
    rw [hv, ok_bind] at hinput
    rw [leafCode_eq]
    exact (applies_of_run hinput .hash160).append_left _
  · have hleaf := run_leafCode pk hpos hd p (p.siblings.reverse ++ main) alt
    rw [hv, ok_bind] at hleaf
    rw [hp] at hx
    have hlevels := applies_levels pk (directions depth v) p.leaf p.siblings.reverse (by simp [hp])
      main (p.control :: alt) hx
    rw [length_directions] at hlevels
    exact .append_right hleaf hlevels

/-- All digits hash their leaves and their paths, when every control item stands for a number. -/
theorem applies_digitsCode {depth : Nat} (hpos : 0 < depth) (hd : depth ≤ 8) {ps : List RawProof}
    (hps : ∀ p ∈ ps, p.siblings.length = depth) {values : List Nat}
    (hvalues : List.Forall₂ (fun p v => IsControlValue p.control v) ps values)
    (main : List Bytes) {p : RawProof} {v : Nat} (hp : (p, v) ∈ ps.zip values)
    (hx : x ∈ p.inputs v) :
    Applies pk .hash160 (digitsCode depth ps.length)
      ⟨(ps.flatMap RawProof.items).reverse ++ main, []⟩ x := by
  -- As in the run, the digits behind the head come first.
  induction hvalues generalizing main with
  | nil => nomatch hp
  | @cons q w ps values hw hvalues ih =>
    rw [List.forall_mem_cons] at hps
    obtain ⟨hq, hps⟩ := hps
    have hnumber := (controlNumber_eq_ok_iff _ _).mpr hw
    rw [List.flatMap_cons, List.reverse_append, List.append_assoc]
    cases ps with
    | nil =>
      obtain rfl := List.forall₂_nil_left_iff.mp hvalues
      obtain ⟨rfl, rfl⟩ := Prod.mk.inj (List.mem_singleton.mp hp)
      have hcode : digitsCode depth [p].length = firstCode depth := List.append_nil _
      rw [hcode, firstCode]
      exact (applies_rootCode pk hpos hd hq hnumber main [] hx).append_left _
    | cons q' ps =>
      rw [List.length_cons, List.length_cons, digitsCode_succ]
      rcases List.mem_cons.mp hp with heq | hp
      · obtain ⟨rfl, rfl⟩ := Prod.mk.inj heq
        obtain ⟨roots, hroots⟩ : ∃ roots, RawProof.recoverRoots (q' :: ps) = .ok roots :=
          ⟨_, (RawProof.recoverRoots_eq_ok_iff _ _).mpr ⟨values, hvalues, rfl⟩⟩
        have hrest := run_digitsCode pk hpos hd (List.cons_ne_nil q' ps) hps (p.items.reverse ++ main)
        rw [hroots, ok_bind] at hrest
        refine .append_right hrest ?_
        rw [nextCode]
        exact (applies_rootCode pk hpos hd hq hnumber main _ hx).append_left _
      · exact (ih hps (q.items.reverse ++ main) hp).append_left _

/-- On a witness with the items of all digits the program hashes the leaves and the paths, and at the
end the roots in a row, when every control item stands for a number. -/
theorem applies_program {depth : Nat} (hpos : 0 < depth) (hd : depth ≤ 8) {ps : List RawProof}
    (hne : ps ≠ []) (hps : ∀ p ∈ ps, p.siblings.length = depth) {values : List Nat}
    (hvalues : List.Forall₂ (fun p v => IsControlValue p.control v) ps values) :
    (∀ p v, (p, v) ∈ ps.zip values → ∀ x ∈ p.inputs v,
      Applies pk .hash160 (program ps.length depth).instructions
        (start (ps.flatMap RawProof.items)) x) ∧
      Applies pk .hash256 (program ps.length depth).instructions
        (start (ps.flatMap RawProof.items))
        ((List.zipWith RawProof.root ps values).flatMap FixedBytes.toList) := by
  have hstart : start (ps.flatMap RawProof.items) =
      ⟨(ps.flatMap RawProof.items).reverse ++ [], []⟩ := by
    rw [start, List.append_nil]
  have hroots := (RawProof.recoverRoots_eq_ok_iff ps _).mpr ⟨values, hvalues, rfl⟩
  rw [instructions_program, hstart]
  constructor
  · intro p v hp x hx
    exact (applies_digitsCode pk hpos hd hps hvalues [] hp hx).append_left _
  · have hrun := run_digitsCode pk hpos hd hne hps []
    rw [hroots, ok_bind] at hrun
    exact .append_right hrun ⟨opCode [.fromAltStack], _, _, _, rfl, rfl⟩

end Verifier

end OneTimeSig.Script
