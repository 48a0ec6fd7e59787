import OneTimeSig.Proofs.Hex
import OneTimeSig.Proofs.Script.Acceptance

/-!
# Listings are read back

A listing gives each line of its program a line of text, and the instructions are the lines that are
neither empty nor begin with `//`. Their texts are of three kinds (`Written`): names of opcodes,
names of small numbers, and literals, which are written for other numbers, for bytes and for the
public key alike. A reader that knows these three kinds (`Instruction.ofText?`) cannot tell what a
literal was written for, but the instruction that it takes it for pushes the same bytes
(`Machine.perform_filled`). So what is read from a listing runs as the program does under the key of
the listing (`Program.execute_of_listing`).
-/

namespace OneTimeSig.Script

/-! ## The kinds of texts -/

/-- The numbers whose pushes have names of their own, with these names. -/
def numberNames : List (String × Int) :=
  [("OP_0", 0), ("OP_1NEGATE", -1), ("OP_1", 1), ("OP_2", 2), ("OP_3", 3), ("OP_4", 4), ("OP_5", 5),
    ("OP_6", 6), ("OP_7", 7), ("OP_8", 8), ("OP_9", 9), ("OP_10", 10), ("OP_11", 11), ("OP_12", 12),
    ("OP_13", 13), ("OP_14", 14), ("OP_15", 15), ("OP_16", 16)]

/-- The bytes of a literal, which stand as hexadecimal digits between `<0x` and `>`. -/
def literalBytes? (text : String) : Option Bytes :=
  match text.toList with
  | '<' :: '0' :: 'x' :: rest =>
    if rest.getLast? = some '>' then (Hex.decode (Text.utf8 rest.dropLast)).toOption else none
  | _ => none

namespace Instruction

/-- The instruction that a line of a listing is read as. -/
def ofText? (text : String) : Option Instruction :=
  ((Opcode.ofName? text).map .op) <|> ((numberNames.lookup text).map .pushNumber)
    <|> ((literalBytes? text).map .pushBytes)

/-- The instruction with the public key filled in, and with the bytes of a number where the number
has no name. -/
def filled (publicKey : PublicKey) : Instruction → Instruction
  | op code => op code
  | pushNumber n => if -1 ≤ n ∧ n ≤ 16 then pushNumber n else pushBytes (Number.encode n)
  | pushBytes bytes => pushBytes bytes
  | pushPublicKey => pushBytes publicKey.toList

end Instruction

/-- The instructions that can be told from their texts. -/
inductive Written : Instruction → String → Prop
  /-- An opcode is written by its name. -/
  | opcode (code : Opcode) : Written (.op code) code.name
  /-- A small number is written by its name. -/
  | number {name : String} {n : Int} (h : (name, n) ∈ numberNames) : Written (.pushNumber n) name
  /-- Bytes are written as a literal. -/
  | bytes (bytes : Bytes) : Written (.pushBytes bytes) (literal bytes)

/-- The name of a small number is what is written for it. -/
theorem numberText_mem {n : Int} (h : -1 ≤ n ∧ n ≤ 16) : (numberText n, n) ∈ numberNames := by
  obtain ⟨k, rfl⟩ : ∃ k : Nat, n = k - 1 := ⟨(n + 1).toNat, by omega⟩
  have hall : ∀ k : Nat, k < 18 → (numberText (k - 1), (k : Int) - 1) ∈ numberNames := by
    decide +kernel
  exact hall k (by omega)

/-- Any other number is written as a literal. -/
theorem numberText_of_not_named {n : Int} (h : ¬ (-1 ≤ n ∧ n ≤ 16)) :
    numberText n = literal (Number.encode n) := by
  rw [numberText, if_neg (by omega), if_neg (by omega), if_neg (by omega)]

/-- The text of an instruction is that of the instruction filled in. -/
theorem written_text (pk : PublicKey) (i : Instruction) : Written (i.filled pk) (i.text pk) := by
  cases i with
  | op code => exact .opcode code
  | pushNumber n =>
    unfold Instruction.filled Instruction.text
    dsimp only
    split_ifs with h
    · exact .number (numberText_mem h)
    · rw [numberText_of_not_named h]
      exact .bytes _
  | pushBytes bytes => exact .bytes bytes
  | pushPublicKey => exact .bytes _

/-- The characters of a literal. -/
theorem toList_literal (bytes : Bytes) :
    (literal bytes).toList = '<' :: '0' :: 'x' :: (Hex.digits bytes ++ ['>']) := by
  simp [literal, Hex.encode, String.toList_append]

/-- The bytes of a literal are read back. -/
theorem literalBytes?_literal (bytes : Bytes) : literalBytes? (literal bytes) = some bytes := by
  unfold literalBytes?
  simp only [toList_literal]
  rw [if_pos List.getLast?_concat, List.dropLast_concat, Hex.decode_digits]
  rfl

namespace Written

variable {i : Instruction} {text : String}

/-- No text of an instruction is taken for a comment, for an empty line or for more than a line: it
has a first character, which is no slash, and no line feed. -/
theorem exists_cons (h : Written i text) :
    ∃ c rest, text.toList = c :: rest ∧ c ≠ '/' ∧ '\n' ∉ text.toList := by
  cases h with
  | opcode code => cases code <;> exact ⟨_, _, rfl, by decide, by decide⟩
  | @number name n hname =>
    have hall : ∀ p ∈ numberNames, p.1.toList = 'O' :: p.1.toList.tail ∧ '\n' ∉ p.1.toList := by
      decide +kernel
    obtain ⟨hcons, hline⟩ := hall _ hname
    exact ⟨_, _, hcons, by decide, hline⟩
  | bytes bytes =>
    refine ⟨_, _, toList_literal bytes, by decide, ?_⟩
    have hdigits := Hex.lineFeed_notMem_encode bytes
    rw [Hex.encode, String.toList_ofList] at hdigits
    simp [toList_literal, hdigits]

/-- A text is read as the instruction that it was written for. -/
theorem ofText?_eq (h : Written i text) : Instruction.ofText? text = some i := by
  unfold Instruction.ofText?
  cases h with
  | opcode code =>
    have hname : Opcode.ofName? code.name = some code := by cases code <;> rfl
    rw [hname]
    rfl
  | @number name n hname =>
    have hall : ∀ p ∈ numberNames,
        Opcode.ofName? p.1 = none ∧ numberNames.lookup p.1 = some p.2 := by decide +kernel
    obtain ⟨hopcode, hnumber⟩ := hall _ hname
    rw [hopcode, hnumber]
    rfl
  | bytes bytes =>
    -- A name begins with another character than a literal.
    have hne : ∀ name : String, name.toList.head? = some 'O' → literal bytes ≠ name := by
      rintro _ hhead rfl
      rw [toList_literal] at hhead
      nomatch hhead
    have hopcode : Opcode.ofName? (literal bytes) = none := by
      unfold Opcode.ofName?
      rw [List.find?_eq_none]
      intro code _
      rw [beq_iff_eq]
      exact (hne _ (by cases code <;> rfl)).symm
    have hnumber : numberNames.lookup (literal bytes) = none := by
      have hnames : ∀ p ∈ numberNames, p.1.toList.head? = some 'O' := by decide +kernel
      rw [List.lookup_eq_none_iff]
      intro p hp
      rw [bne_iff_ne]
      exact hne _ (hnames p hp)
    rw [hopcode, hnumber, literalBytes?_literal]
    rfl

end Written

/-! ## Runs -/

namespace Machine

variable (pk other : PublicKey)

/-- An instruction that is filled in does under any key what it does under the key. -/
theorem perform_filled (i : Instruction) (s : State) :
    perform other (i.filled pk) s = perform pk i s := by
  cases i with
  | op code | pushBytes bytes | pushPublicKey => rfl
  | pushNumber n =>
    unfold Instruction.filled
    dsimp only
    split_ifs <;> rfl

/-- Filling in changes no opcode and makes none. -/
theorem filled_eq_op_iff {i : Instruction} {code : Opcode} :
    i.filled pk = .op code ↔ i = .op code := by
  cases i with
  | op code' | pushBytes bytes | pushPublicKey => simp [Instruction.filled]
  | pushNumber n =>
    unfold Instruction.filled
    dsimp only
    split_ifs <;> simp

/-- A program that is filled in runs under any key as it does under the key. -/
theorem run_filled (p : List Instruction) (blocks : List Bool) (s : State) :
    run other (p.map (Instruction.filled pk)) blocks s = run pk p blocks s := by
  induction p generalizing blocks s with
  | nil => rfl
  | cons i p ih =>
    rw [List.map_cons]
    rcases eq_or_ne i (.op .opIf) with rfl | hif
    · rw [(filled_eq_op_iff pk).mpr rfl, run.eq_2, run.eq_2]
      simp only [ih]
    rcases eq_or_ne i (.op .endIf) with rfl | hend
    · rw [(filled_eq_op_iff pk).mpr rfl, run.eq_def, run.eq_def]
      simp only [ih]
    have hplain : (i.filled pk).IsPlain :=
      ⟨fun h => hif ((filled_eq_op_iff pk).mp h), fun h => hend ((filled_eq_op_iff pk).mp h)⟩
    have hrest : run other (p.map (Instruction.filled pk)) blocks = run pk p blocks :=
      funext (ih blocks)
    rw [run_plain other hplain, run_plain pk ⟨hif, hend⟩, perform_filled, hrest]

end Machine

/-! ## Lines -/

/-- The pieces of a text between line feeds. -/
def splitLines (text : String) : List String :=
  (text.toList.splitOn '\n').map String.ofList

/-- The lines as one text, every line ended by a line feed. -/
def unlines (lines : List String) : String :=
  String.join (lines.map (· ++ "\n"))

/-- A text made of lines falls into these lines, and nothing stands behind the last line feed. -/
theorem splitLines_unlines {lines : List String} (h : ∀ line ∈ lines, '\n' ∉ line.toList) :
    splitLines (unlines lines) = lines ++ [""] := by
  unfold splitLines unlines
  induction lines with
  | nil => rfl
  | cons line lines ih =>
    rw [List.forall_mem_cons] at h
    rw [List.map_cons, String.join_cons, String.toList_append, String.toList_append,
      show "\n".toList = ['\n'] from rfl, List.append_assoc, List.singleton_append,
      List.splitOn_append_cons_self_of_not_mem h.1, List.map_cons, ih h.2, String.ofList_toList,
      List.cons_append]

/-- Whether a line of a listing is for the machine: it is neither empty nor a comment. -/
def isInstruction (line : String) : Bool :=
  !line.isEmpty && !"//".toList.isPrefixOf line.toList

/-- A line of a program that takes one line in a listing. -/
def Line.IsOneLined : Line → Prop
  | .comment text => '\n' ∉ text.toList
  | .code _ => True

namespace Program

/-- Programs without a line feed in a comment. -/
def IsOneLined (program : Program) : Prop :=
  ∀ line ∈ program, line.IsOneLined

/-- Reads the instructions of a listing. -/
def ofListing? (listing : String) : Option Program :=
  ((splitLines listing).filter isInstruction).mapM fun line => (Instruction.ofText? line).map .code

end Program

variable (pk : PublicKey)

/-- The text of an instruction is for the machine. -/
theorem isInstruction_text (i : Instruction) : isInstruction (i.text pk) = true := by
  obtain ⟨c, rest, hcons, hslash, -⟩ := (written_text pk i).exists_cons
  have hempty : (i.text pk).isEmpty = false := by
    rw [String.isEmpty_eq_false_iff]
    intro h
    rw [h] at hcons
    nomatch hcons
  have hcomment : "//".toList.isPrefixOf (i.text pk).toList = false := by
    rw [hcons]
    simp [List.isPrefixOf, hslash.symm]
  rw [isInstruction, hempty, hcomment]
  rfl

/-- The text of a comment is not for the machine. -/
theorem isInstruction_comment (text : String) :
    isInstruction ((Line.comment text).text pk) = false := by
  unfold Line.text
  dsimp only
  split_ifs
  · rfl
  · simp [isInstruction, String.toList_append, List.isPrefixOf]

/-- A line that takes one line has no line feed in its text. -/
theorem Line.IsOneLined.lineFeed_notMem {line : Line} (h : line.IsOneLined) :
    '\n' ∉ (line.text pk).toList := by
  cases line with
  | comment text =>
    have htext : '\n' ∉ text.toList := h
    unfold Line.text
    dsimp only
    split_ifs
    · decide
    · simp [String.toList_append, htext]
  | code i =>
    obtain ⟨-, -, -, -, hline⟩ := (written_text pk i).exists_cons
    exact hline

namespace Program

/-- A listing is made of the texts of the lines. -/
theorem listing_eq_unlines (program : Program) :
    program.listing pk = unlines (program.map (Line.text pk)) := by
  rw [unlines, List.map_map]
  rfl

/-- A listing falls into the texts of the lines, each of which is ended by a line feed. -/
theorem splitLines_listing {program : Program} (h : program.IsOneLined) :
    splitLines (program.listing pk) = program.map (Line.text pk) ++ [""] := by
  rw [listing_eq_unlines]
  exact splitLines_unlines (List.forall_mem_map.mpr fun line hline =>
    (h line hline).lineFeed_notMem pk)

/-- The lines that are for the machine are the texts of the instructions. -/
theorem filter_lines (program : Program) :
    (program.map (Line.text pk) ++ [""]).filter isInstruction =
      program.instructions.map (Instruction.text pk) := by
  induction program with
  | nil => rfl
  | cons line program ih =>
    rw [List.map_cons, List.cons_append]
    cases line with
    | comment text =>
      rw [List.filter_cons_of_neg (by simp [isInstruction_comment]), ih, instructions_comment]
    | code i =>
      have hcode : (Line.code i).text pk = i.text pk := rfl
      rw [hcode, List.filter_cons_of_pos (isInstruction_text pk i), ih, instructions_code,
        List.map_cons]

/-- What is read from a listing are the instructions, filled in. -/
theorem ofListing?_listing {program : Program} (h : program.IsOneLined) :
    ofListing? (program.listing pk) =
      some ((program.instructions.map (Instruction.filled pk)).map .code) := by
  have hread : ∀ i : Instruction,
      (Instruction.ofText? (i.text pk)).map Line.code = pure (.code (i.filled pk)) := by
    intro i
    rw [(written_text pk i).ofText?_eq]
    rfl
  rw [ofListing?, splitLines_listing pk h, filter_lines, List.mapM_map]
  simp only [Function.comp_def, hread, List.mapM_pure, List.map_map]
  rfl

/-- Lines of code hold their instructions. -/
theorem instructions_map_code (p : List Instruction) : instructions (p.map .code) = p := by
  induction p with
  | nil => rfl
  | cons i p ih => rw [List.map_cons, instructions_code, ih]

/-- What is read from a listing runs under any key as the program does under the key of the listing.
-/
theorem execute_filled (program : Program) (other : PublicKey) (witness : List Bytes) :
    Machine.execute ((program.instructions.map (Instruction.filled pk)).map .code) other witness =
      Machine.execute program pk witness := by
  rw [Machine.execute, Machine.execute, instructions_map_code, Machine.run_filled]

/-! ## Compiled programs -/

theorem isOneLined_nil : IsOneLined [] :=
  List.forall_mem_nil _

theorem isOneLined_append {p q : Program} :
    (p ++ q).IsOneLined ↔ p.IsOneLined ∧ q.IsOneLined :=
  List.forall_mem_append

theorem isOneLined_comment {text : String} {p : Program} :
    IsOneLined (.comment text :: p) ↔ '\n' ∉ text.toList ∧ p.IsOneLined :=
  List.forall_mem_cons

/-- Parts in a row take one line each when the parts do. -/
theorem isOneLined_flatMap {α : Type} {as : List α} {f : α → Program}
    (h : ∀ a, (f a).IsOneLined) : IsOneLined (as.flatMap f) := by
  intro line hline
  obtain ⟨a, -, ha⟩ := List.mem_flatMap.mp hline
  exact h a line ha

end Program

namespace Verifier

open Program (IsOneLined isOneLined_nil isOneLined_append isOneLined_comment isOneLined_flatMap)

/-- A number is written without a line feed. -/
theorem lineFeed_notMem_toDigits (n : Nat) : '\n' ∉ Nat.toDigits 10 n := by
  intro h
  have hdigit := Nat.isDigit_of_mem_toDigits (by decide) (by decide) h
  exact absurd hdigit (by decide)

/-- A comment made of a text, a number and a text takes one line when the texts do. -/
theorem lineFeed_notMem_numbered {front back : String} (hfront : '\n' ∉ front.toList)
    (hback : '\n' ∉ back.toList) (n : Nat) : '\n' ∉ (front ++ toString n ++ back).toList := by
  simp [String.toList_append, hfront, hback, lineFeed_notMem_toDigits]

theorem isOneLined_ops (codes : List Opcode) : (ops codes).IsOneLined := by
  intro line hline
  obtain ⟨code, -, rfl⟩ := List.mem_map.mp hline
  trivial

theorem isOneLined_normalize : normalize.IsOneLined := by
  simp [normalize, replaceByte, op, push, IsOneLined, Line.IsOneLined]

theorem isOneLined_splitBit (weight : Int) : (splitBit weight).IsOneLined := by
  simp [splitBit, op, push, IsOneLined, Line.IsOneLined]

theorem isOneLined_leafLines (digit depth : Nat) : (leafLines digit depth).IsOneLined := by
  have hsplit : IsOneLined
      ((List.range depth).reverse.flatMap fun bit => splitBit (1 <<< bit : Nat)) :=
    isOneLined_flatMap fun bit => isOneLined_splitBit _
  simp only [leafLines, isOneLined_append, isOneLined_comment, isOneLined_ops, isOneLined_normalize,
    hsplit, isOneLined_nil, and_true]
  refine ⟨⟨⟨?_, ?_⟩, ?_⟩, ?_⟩
  all_goals exact lineFeed_notMem_numbered (by decide) (by decide) digit

theorem isOneLined_levelLines (digit depth level : Nat) :
    (levelLines digit depth level).IsOneLined := by
  refine isOneLined_comment.mpr ⟨?_, isOneLined_ops _⟩
  rw [String.toList_append, List.mem_append, not_or]
  refine ⟨lineFeed_notMem_numbered (by decide) (by decide) digit, ?_⟩
  have hof : '\n' ∉ (toString " of ").toList := by decide
  simp [String.toList_append, lineFeed_notMem_toDigits, hof]

theorem isOneLined_digitLines (digits depth digit : Nat) :
    (digitLines digits depth digit).IsOneLined := by
  unfold digitLines
  simp only [isOneLined_append]
  have hlevels (levels : List Nat) : IsOneLined (levels.flatMap (levelLines digit depth)) :=
    isOneLined_flatMap (isOneLined_levelLines digit depth)
  refine ⟨⟨⟨isOneLined_leafLines digit depth, hlevels _⟩, ?_⟩,
    isOneLined_comment.mpr ⟨by decide, isOneLined_nil⟩⟩
  split_ifs
  all_goals
    refine isOneLined_comment.mpr ⟨?_, isOneLined_ops _⟩
    exact lineFeed_notMem_numbered (by decide) (by decide) digit

/-- Every comment of the verifier program takes one line. -/
theorem isOneLined_program (digits depth : Nat) : (program digits depth).IsOneLined := by
  unfold program
  refine isOneLined_append.mpr ⟨isOneLined_comment.mpr ⟨by decide, ?_⟩, ?_⟩
  · exact isOneLined_flatMap (isOneLined_digitLines digits depth)
  · simp only [finalLines, isOneLined_append, isOneLined_comment, isOneLined_ops, and_true]
    exact ⟨by decide, List.forall_mem_singleton.mpr trivial⟩

/-- Every compiled program takes one line for each of its lines. -/
theorem isOneLined_of_compile {p : Params} {compiled : Program} (h : compile p = .ok compiled) :
    compiled.IsOneLined := by
  unfold compile at h
  obtain ⟨s, -, h⟩ := bind_eq_ok_iff.mp h
  dsimp only at h
  split_ifs at h
  · nomatch h
  · obtain rfl := Except.ok.inj h
    exact isOneLined_program _ _

end Verifier

namespace Program

/-- Every compiled program is without a line feed in its comments, and of every such program,
however it was made, the listing gives back what runs. Split at the line feeds that end the lines,
it has one line for each line of the program. The lines that are neither empty nor begin with `//`
are the texts of the instructions in order. A reader of the three kinds of texts reads from them a
program that has, under any key and on every witness, the outcome that the program has under the key
of the listing. -/
theorem execute_of_listing (program : Program) (pk : PublicKey) :
    (∀ p compiled, Verifier.compile p = .ok compiled → compiled.IsOneLined) ∧
    (∀ i text, Written i text → Instruction.ofText? text = some i) ∧
    (program.IsOneLined →
      splitLines (program.listing pk) = program.map (Line.text pk) ++ [""] ∧
      (splitLines (program.listing pk)).filter isInstruction =
        program.instructions.map (Instruction.text pk) ∧
      ((splitLines (program.listing pk)).filter isInstruction).length =
        program.instructions.length ∧
      ∃ read, ofListing? (program.listing pk) = some read ∧
        ∀ other witness,
          Machine.execute read other witness = Machine.execute program pk witness) := by
  refine ⟨fun p compiled => Verifier.isOneLined_of_compile, fun i text => Written.ofText?_eq,
    fun h => ?_⟩
  have hlines := splitLines_listing pk h
  have hinstructions : (splitLines (program.listing pk)).filter isInstruction =
      program.instructions.map (Instruction.text pk) := by
    rw [hlines, filter_lines]
  refine ⟨hlines, hinstructions, ?_, _, ofListing?_listing pk h, execute_filled pk program⟩
  rw [hinstructions, List.length_map]

/-- Compares a number without a name with its bytes, and pushes the public key. -/
def seventeen : Program :=
  [.comment "seventeen", .code (.pushNumber 17), .code (.pushBytes [17]), .comment "",
    .code (.op .equalVerify), .code .pushPublicKey]

/-- A listing with an empty comment, a number without a name, a literal and the key is read back,
and returns the key of the listing under another one. -/
theorem execute_of_listing_seventeen :
    (∃ compiled, Verifier.compile Scheme.smallest.params = .ok compiled ∧ compiled.IsOneLined) ∧
      Instruction.ofText? "OP_1NEGATE" = some (.pushNumber (-1)) ∧
      splitLines (seventeen.listing (FixedBytes.ofNat 32 1)) =
        ["// seventeen", "<0x11>", "<0x11>", "", "OP_EQUALVERIFY",
          "<0x0000000000000000000000000000000000000000000000000000000000000001>", ""] ∧
      ∃ read, ofListing? (seventeen.listing (FixedBytes.ofNat 32 1)) = some read ∧
        Machine.execute read (FixedBytes.ofNat 32 2) [] = .ok (FixedBytes.ofNat 32 1).toList := by
  obtain ⟨hcompiled, htexts, hlisting⟩ := execute_of_listing seventeen (FixedBytes.ofNat 32 1)
  have honeLined : seventeen.IsOneLined := by simp [seventeen, IsOneLined, Line.IsOneLined]
  obtain ⟨hlines, -, -, read, hread, hrun⟩ := hlisting honeLined
  have hcompile := Verifier.compile_params Scheme.smallest
  have hname := htexts (.pushNumber (-1)) "OP_1NEGATE" (.number (by decide))
  refine ⟨⟨_, hcompile, hcompiled _ _ hcompile⟩, hname, ?_, read, hread, ?_⟩
  · rw [hlines]
    decide +kernel
  · rw [hrun]
    decide +kernel

end Program

end OneTimeSig.Script
