import Mathlib.Tactic.Ring
import OneTimeSig.Proofs.Params
import OneTimeSig.Proofs.Script.Listing

/-!
# The shape of the verifier program

Without its comments the program is a block for the digit that is processed first, the same block
for every other digit, and an end (`instructions_program`), and these blocks depend on nothing but the
depth of the trees. So the sizes of the blocks give the size of the program (`length_program`). Its
comments mention the digits, and their number is the same for each (`length_comments_program`).

The openings and closings of a program's conditionals are its brackets (`brackets`). Each conditional
of a block is closed before the next is opened, so the brackets of the program are pairs
(`brackets_program`), and no initial part of such a program opens more than one conditional that it
does not close (`count_take_of_brackets`). The public key is pushed at the end only
(`getElem?_program_eq_pushPublicKey_iff`).
-/

namespace OneTimeSig.Script

/-! ## Comments -/

namespace Program

/-- The texts of the comments of a program, without its instructions. -/
def comments (program : Program) : List String :=
  program.filterMap fun
    | .comment text => some text
    | .code _ => none

@[simp]
theorem comments_nil : comments [] = [] := rfl

@[simp]
theorem comments_comment (text : String) (p : Program) :
    comments (.comment text :: p) = text :: comments p := rfl

@[simp]
theorem comments_code (i : Instruction) (p : Program) : comments (.code i :: p) = comments p := rfl

@[simp]
theorem comments_append (p q : Program) : comments (p ++ q) = comments p ++ comments q :=
  List.filterMap_append

/-- Parts in a row with equally many comments have so many times the number of the parts. -/
theorem length_comments_flatMap {α : Type} (as : List α) (f : α → Program) (k : Nat)
    (h : ∀ a, (f a).comments.length = k) : (comments (as.flatMap f)).length = as.length * k := by
  induction as with
  | nil => rw [List.flatMap_nil, comments_nil, List.length_nil, List.length_nil, Nat.zero_mul]
  | cons a as ih =>
    rw [List.flatMap_cons, comments_append, List.length_append, h, ih, List.length_cons]
    ring

/-- A program takes one line for each of its lines when no comment contains a line feed. -/
theorem IsOneLined.lineFeed_notMem_comments {program : Program} (h : program.IsOneLined)
    {text : String} (htext : text ∈ program.comments) : '\n' ∉ text.toList := by
  obtain ⟨line, hline, hsome⟩ := List.mem_filterMap.mp htext
  have honeLined := h line hline
  cases line with
  | comment text' =>
    obtain rfl := Option.some.inj hsome
    exact honeLined
  | code i => nomatch hsome

end Program

/-! ## Brackets -/

/-- The openings and closings of the conditionals of a program in order. -/
def brackets (p : List Instruction) : List Instruction :=
  p.filter fun i => ¬ i.IsPlain

/-- So many openings, each with a closing right behind it. -/
def pairs : Nat → List Instruction
  | 0 => []
  | n + 1 => .op .opIf :: .op .endIf :: pairs n

theorem brackets_append (p q : List Instruction) : brackets (p ++ q) = brackets p ++ brackets q :=
  List.filter_append p q

theorem pairs_add (m n : Nat) : pairs (m + n) = pairs m ++ pairs n := by
  induction m with
  | zero => rw [Nat.zero_add]; rfl
  | succ m ih => rw [Nat.add_right_comm, pairs, ih]; rfl

/-- A part over and over has so many pairs for each time. -/
theorem brackets_flatten_replicate {p : List Instruction} {k : Nat} (h : brackets p = pairs k)
    (n : Nat) : brackets (List.replicate n p).flatten = pairs (n * k) := by
  induction n with
  | zero => rw [Nat.zero_mul]; rfl
  | succ n ih =>
    rw [List.replicate_succ, List.flatten_cons, brackets_append, h, ih, ← pairs_add]
    congr 1
    ring

/-- An initial part of pairs opens at most one conditional that it does not close. -/
theorem count_take_pairs (k n : Nat) :
    ((pairs k).take n).count (.op .opIf) ≤ ((pairs k).take n).count (.op .endIf) + 1 := by
  induction k generalizing n with
  | zero =>
    rw [pairs, List.take_nil]
    exact Nat.zero_le _
  | succ k ih =>
    rw [pairs]
    match n with
    | 0 => exact Nat.zero_le _
    | 1 => exact Nat.le_refl 1
    | n + 2 =>
      rw [List.take_succ_cons, List.take_succ_cons, List.count_cons_self,
        List.count_cons_of_ne (by decide), List.count_cons_of_ne (by decide), List.count_cons_self]
      exact Nat.succ_le_succ (ih n)

/-- So does an initial part of a program whose brackets are pairs. -/
theorem count_take_of_brackets {p : List Instruction} {k : Nat} (h : brackets p = pairs k) (n : Nat) :
    (p.take n).count (.op .opIf) ≤ (p.take n).count (.op .endIf) + 1 := by
  have hcount : ∀ {code : Opcode}, ¬ (Instruction.op code).IsPlain →
      (brackets (p.take n)).count (.op code) = (p.take n).count (.op code) :=
    fun hcode => List.count_filter (decide_eq_true hcode)
  have hfront : brackets (p.take n) <+: pairs k := h ▸ (List.take_prefix n p).filter _
  rw [← hcount (by decide), ← hcount (by decide), List.prefix_iff_eq_take.mp hfront]
  exact count_take_pairs k _

/-- What is neither in front nor behind stands at one place. -/
theorem getElem?_append_cons_eq_some_iff {α : Type} {front back : List α} {a : α}
    (hfront : a ∉ front) (hback : a ∉ back) {i : Nat} :
    (front ++ a :: back)[i]? = some a ↔ i = front.length := by
  constructor
  · intro h
    rcases Nat.lt_trichotomy i front.length with hlt | heq | hgt
    · rw [List.getElem?_append_left hlt] at h
      exact absurd (List.mem_of_getElem? h) hfront
    · exact heq
    · rw [List.getElem?_append_right hgt.le, List.getElem?_cons,
        if_neg (Nat.sub_ne_zero_of_lt hgt)] at h
      exact absurd (List.mem_of_getElem? h) hback
  · rintro rfl
    rw [List.getElem?_append_right (Nat.le_refl _), Nat.sub_self, List.getElem?_cons_zero]

namespace Verifier

open Program (length_comments_flatMap)

/-! ## The comments of the verifier program -/

@[simp]
theorem comments_ops (codes : List Opcode) : (ops codes).comments = [] := by
  unfold ops
  induction codes with
  | nil => rfl
  | cons code codes ih =>
    rw [List.map_cons, ← ih]
    rfl

theorem length_comments_leafLines (digit depth : Nat) :
    (leafLines digit depth).comments.length = 4 := by
  have hnormalize : normalize.comments = [] := rfl
  have hsplit : (Program.comments ((List.range depth).reverse.flatMap
      fun bit => splitBit (1 <<< bit : Nat))).length = 0 :=
    length_comments_flatMap _ _ 0 fun bit => rfl
  unfold leafLines
  simp only [Program.comments_append, Program.comments_comment, Program.comments_nil, comments_ops,
    hnormalize, List.length_append, List.length_cons, List.length_nil, hsplit]

/-- A digit has four comments in front of its leaf, one for each level, and two behind. -/
theorem length_comments_digitLines (digits depth digit : Nat) :
    (digitLines digits depth digit).comments.length = depth + 6 := by
  have hlevels : (Program.comments ((List.range depth).flatMap (levelLines digit depth))).length =
      depth := by
    rw [length_comments_flatMap _ _ 1 fun level => rfl, List.length_range, Nat.mul_one]
  have hstate : (if digit + 1 = digits then firstLines digit else nextLines digit).comments.length =
      1 := by
    split_ifs <;> rfl
  unfold digitLines
  simp only [Program.comments_append, Program.comments_comment, Program.comments_nil,
    List.length_append, List.length_cons, List.length_nil, length_comments_leafLines, hlevels, hstate]
  omega

/-- The number of comments grows with the number of digits and with the depth. -/
theorem length_comments_program (digits depth : Nat) :
    (program digits depth).comments.length = digits * (depth + 6) + 2 := by
  have hdigits : (Program.comments
      ((List.range digits).reverse.flatMap (digitLines digits depth))).length =
      digits * (depth + 6) := by
    rw [length_comments_flatMap _ _ _ (length_comments_digitLines digits depth), List.length_reverse,
      List.length_range]
  have hfinal : finalLines.comments.length = 1 := rfl
  unfold program
  rw [List.cons_append, Program.comments_comment, Program.comments_append, List.length_cons,
    List.length_append, hdigits, hfinal]

/-! ## The size of the verifier program -/

theorem length_splitCode (depth : Nat) : (splitCode depth).length = 9 * depth := by
  induction depth with
  | zero => rfl
  | succ depth ih =>
    rw [splitCode, List.length_append, ih]
    change 9 + 9 * depth = 9 * (depth + 1)
    omega

theorem length_rootCode (depth : Nat) : (rootCode depth).length = 16 * depth + 29 := by
  have hlevel : levelCode.length = 7 := rfl
  have hnormalize : normalizeCode.length = 22 := rfl
  unfold rootCode leafCode
  simp only [List.length_append, List.length_flatten, List.map_replicate, List.sum_replicate_nat,
    length_splitCode, hlevel, hnormalize, opCode, List.length_map, List.length_cons, List.length_nil]
  omega

/-- The number of instructions grows with the number of digits and with the depth. -/
theorem length_program {digits : Nat} (hpos : 0 < digits) (depth : Nat) :
    (program digits depth).instructions.length = 16 * digits * depth + 37 * digits - 2 := by
  obtain ⟨n, rfl⟩ := Nat.exists_eq_add_one.mpr hpos
  have hfirst : (firstCode depth).length = 16 * depth + 30 := by
    rw [firstCode, List.length_append, length_rootCode]
    rfl
  have hnext : (nextCode depth).length = 16 * depth + 37 := by
    rw [nextCode, List.length_append, length_rootCode]
    rfl
  have hfinal : finalCode.length = 5 := rfl
  rw [instructions_program, digitsCode, List.length_append, List.length_append, List.length_flatten,
    List.map_replicate, List.sum_replicate_nat, hfirst, hnext, hfinal]
  have hsplit : 16 * (n + 1) * depth + 37 * (n + 1) =
      16 * depth + 30 + n * (16 * depth + 37) + 5 + 2 := by ring
  omega

/-! ## The brackets of the verifier program -/

theorem brackets_splitCode (depth : Nat) : brackets (splitCode depth) = pairs depth := by
  induction depth with
  | zero => rfl
  | succ depth ih =>
    rw [splitCode, brackets_append, ih, Nat.add_comm, pairs_add]
    rfl

theorem brackets_rootCode (depth : Nat) : brackets (rootCode depth) = pairs (2 * depth + 3) := by
  have hfront : brackets (opCode [.dup, .toAltStack, .dup] ++ normalizeCode) = pairs 3 := rfl
  have hback : brackets (opCode [.drop, .swap, .cat, .hash160]) = [] := rfl
  have hlevel : brackets levelCode = pairs 1 := rfl
  rw [rootCode, leafCode, brackets_append, brackets_append, brackets_append, hfront,
    brackets_splitCode, hback, List.append_nil, brackets_flatten_replicate hlevel, ← pairs_add,
    ← pairs_add]
  congr 1
  ring

/-- In the program each conditional is closed before the next is opened. -/
theorem brackets_program (digits depth : Nat) :
    brackets (program digits depth).instructions = pairs (digits * (2 * depth + 3)) := by
  have hfirst : brackets (firstCode depth) = pairs (2 * depth + 3) := by
    rw [firstCode, brackets_append, brackets_rootCode]
    exact List.append_nil _
  have hnext : brackets (nextCode depth) = pairs (2 * depth + 3) := by
    rw [nextCode, brackets_append, brackets_rootCode]
    exact List.append_nil _
  have hfinal : brackets finalCode = [] := rfl
  rw [instructions_program, brackets_append, hfinal, List.append_nil]
  cases digits with
  | zero => rw [Nat.zero_mul]; rfl
  | succ n =>
    rw [digitsCode, brackets_append, hfirst, brackets_flatten_replicate hnext, ← pairs_add]
    congr 1
    ring

/-! ## The push of the public key -/

theorem pushPublicKey_notMem_splitCode (depth : Nat) : .pushPublicKey ∉ splitCode depth := by
  induction depth with
  | zero => exact List.not_mem_nil
  | succ depth ih => simp [splitCode, splitBitCode, ih]

/-- The public key is pushed behind the last digit only. -/
theorem pushPublicKey_notMem_digitsCode (depth digits : Nat) :
    .pushPublicKey ∉ digitsCode depth digits := by
  have hroot : .pushPublicKey ∉ rootCode depth := by
    simp [rootCode, leafCode, opCode, normalizeCode, replaceCode, signCode, levelCode,
      pushPublicKey_notMem_splitCode]
  cases digits with
  | zero => exact List.not_mem_nil
  | succ n => simp [digitsCode, firstCode, nextCode, opCode, hroot]

/-- The public key is pushed once, with two instructions behind. -/
theorem getElem?_program_eq_pushPublicKey_iff (digits depth i : Nat) :
    (program digits depth).instructions[i]? = some .pushPublicKey ↔
      i + 3 = (program digits depth).instructions.length := by
  have hfinal : (program digits depth).instructions =
      digitsCode depth digits ++ opCode [.fromAltStack, .hash256] ++
        .pushPublicKey :: opCode [.equalVerify, .fromAltStack] := by
    rw [instructions_program, List.append_assoc]
    rfl
  have hfront : .pushPublicKey ∉ digitsCode depth digits ++ opCode [.fromAltStack, .hash256] := by
    rw [List.mem_append, not_or]
    exact ⟨pushPublicKey_notMem_digitsCode depth digits, by decide⟩
  have hback : (opCode [.equalVerify, .fromAltStack]).length = 2 := rfl
  rw [hfinal, getElem?_append_cons_eq_some_iff hfront (by decide)]
  simp only [List.length_append, List.length_cons, hback]
  omega

theorem balanced_program (digits depth : Nat) : Balanced (program digits depth).instructions :=
  instructions_program digits depth ▸
    (balanced_digitsCode depth digits).append (balanced_of_plain (by decide))

/-- The shape of the program that is compiled for a scheme. Without comments it is a first block, one
more block for every other digit, and an end, each of which depends on the depth only. The number of
instructions and the number of comments are known. The conditionals are balanced, and at no point are
two of them open. The public key is pushed once, with two instructions behind. No comment contains a
line feed. -/
theorem compile_shape (s : Scheme) :
    ∃ compiled, compile s.params = .ok compiled ∧
      compiled.instructions =
        firstCode s.depth ++ (List.replicate (s.digits - 1) (nextCode s.depth)).flatten ++
          finalCode ∧
      compiled.instructions.length = 16 * s.digits * s.depth + 37 * s.digits - 2 ∧
      compiled.comments.length = s.digits * (s.depth + 6) + 2 ∧
      Balanced compiled.instructions ∧
      (∀ n, (compiled.instructions.take n).count (.op .opIf) ≤
        (compiled.instructions.take n).count (.op .endIf) + 1) ∧
      (∀ i, compiled.instructions[i]? = some .pushPublicKey ↔
        i + 3 = compiled.instructions.length) ∧
      ∀ text ∈ compiled.comments, '\n' ∉ text.toList := by
  have hcode : (program s.digits s.depth).instructions =
      firstCode s.depth ++ (List.replicate (s.digits - 1) (nextCode s.depth)).flatten ++
        finalCode := by
    obtain ⟨n, hn⟩ := Nat.exists_eq_add_one.mpr s.digits_pos
    rw [instructions_program, hn]
    rfl
  exact ⟨_, compile_params s, hcode, length_program s.digits_pos s.depth,
    length_comments_program s.digits s.depth, balanced_program s.digits s.depth,
    count_take_of_brackets (brackets_program s.digits s.depth),
    getElem?_program_eq_pushPublicKey_iff s.digits s.depth,
    fun _ => (isOneLined_program s.digits s.depth).lineFeed_notMem_comments⟩

end Verifier

end OneTimeSig.Script
