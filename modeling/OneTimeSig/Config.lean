import OneTimeSig.Params

/-!
# The configuration file

The parameters of a scheme may be given in a file, a TOML document with the two integer keys
`digits` and `leaf_count`. Both may be left out, neither may be given twice, and nothing else may
be given. Since no value of such a document spans several lines, it is read line by line: a line is
blank, or a comment, or a key and its value.
-/

namespace OneTimeSig.Config

/-! ### Lines -/

/-- A space or a tab. -/
def isSpace (c : Char) : Bool :=
  c == ' ' || c == '\t'

/-- A character that may stand in a comment: a tab, or no control character. -/
def isText (c : Char) : Bool :=
  c == '\t' || (' ' ≤ c && c ≤ '~') || '\x80' ≤ c

/-- The lines of a document: each ends before a line feed, and all but the last may have a carriage
return there. -/
def lines : List Char → List (List Char)
  | [] => [[]]
  | '\n' :: rest => [] :: lines rest
  | '\r' :: '\n' :: rest => [] :: lines rest
  | c :: rest =>
    match lines rest with
    | line :: others => (c :: line) :: others
    | [] => [[c]]

/-- What may stand behind a value: nothing but spaces and a comment. -/
def isEnd (cs : List Char) : Bool :=
  match cs.dropWhile isSpace with
  | [] => true
  | '#' :: comment => comment.all isText
  | _ => false

/-! ### Keys -/

/-- A character of a key that needs no quotes. -/
def isBare (c : Char) : Bool :=
  c.isAlphanum || c == '_' || c == '-'

/-- The value of a digit in a base up to sixteen, in either case. -/
def digit? (base : Nat) (c : Char) : Option Nat :=
  let n :=
    if '0' ≤ c ∧ c ≤ '9' then c.toNat - 48
    else if 'a' ≤ c ∧ c ≤ 'f' then c.toNat - 87
    else if 'A' ≤ c ∧ c ≤ 'F' then c.toNat - 55
    else base
  if n < base then some n else none

/-- The character of a code point in hexadecimal digits; surrogates have none. -/
def codePoint? (digits : List Char) : Option Char := do
  let n ← digits.foldlM (fun n c => (n * 16 + ·) <$> digit? 16 c) 0
  if n.isValidChar then some (Char.ofNat n) else none

/-- The character that a letter stands for behind a backslash. -/
def escape? : Char → Option Char
  | 'b' => some '\x08'
  | 't' => some '\t'
  | 'n' => some '\n'
  | 'f' => some '\x0c'
  | 'r' => some '\r'
  | '"' => some '"'
  | '\\' => some '\\'
  | _ => none

/-- Puts a character in front of what was read. -/
def cons? (c : Option Char) (read : Option (List Char × List Char)) :
    Option (List Char × List Char) := do
  let c ← c
  let (cs, rest) ← read
  return (c :: cs, rest)

/-- Reads up to the closing quotation mark, with escapes. -/
def quoted : List Char → Option (List Char × List Char)
  | '"' :: rest => some ([], rest)
  | '\\' :: 'u' :: a :: b :: c :: d :: rest => cons? (codePoint? [a, b, c, d]) (quoted rest)
  | '\\' :: 'U' :: a :: b :: c :: d :: e :: f :: g :: h :: rest =>
    cons? (codePoint? [a, b, c, d, e, f, g, h]) (quoted rest)
  | '\\' :: c :: rest => cons? (escape? c) (quoted rest)
  | c :: rest => if isText c && c != '\\' then cons? (some c) (quoted rest) else none
  | [] => none

/-- Reads up to the closing apostrophe; nothing is an escape. -/
def verbatim : List Char → Option (List Char × List Char)
  | '\x27' :: rest => some ([], rest)
  | c :: rest => if isText c then cons? (some c) (verbatim rest) else none
  | [] => none

/-- Reads a key and returns what follows it. -/
def key : List Char → Option (List Char × List Char)
  | '"' :: rest => quoted rest
  | '\x27' :: rest => verbatim rest
  | cs => some (cs.takeWhile isBare, cs.dropWhile isBare)

/-! ### Integers -/

/-- The number that digits write behind those that wrote `value`; one underscore may stand between
two digits. -/
def digitsFrom (base : Nat) : (value : Nat) → List Char → Option Nat
  | value, [] => some value
  | value, '_' :: c :: rest => do digitsFrom base (value * base + (← digit? base c)) rest
  | value, c :: rest => do digitsFrom base (value * base + (← digit? base c)) rest

/-- The number of a nonempty sequence of digits. -/
def digits (base : Nat) : List Char → Option Nat
  | [] => none
  | c :: rest => do digitsFrom base (← digit? base c) rest

/-- The number of decimal digits, where no zero may stand in front of others. -/
def decimal : List Char → Option Nat
  | ['0'] => some 0
  | '0' :: _ => none
  | cs => digits 10 cs

/-- The number that is written; a negative one other than zero is no parameter. -/
def natural : List Char → Option Nat
  | '0' :: 'x' :: cs => digits 16 cs
  | '0' :: 'o' :: cs => digits 8 cs
  | '0' :: 'b' :: cs => digits 2 cs
  | '+' :: cs => decimal cs
  | '-' :: cs => (decimal cs).filter (· == 0)
  | cs => decimal cs

/-- The parameter that is written: a signed machine word. -/
def word (cs : List Char) : Option UInt64 := do
  let n ← natural cs
  if n < UInt64.size / 2 then some (UInt64.ofNat n) else none

/-! ### Documents -/

/-- The parameters that were given so far. -/
structure Entries where
  /-- The number of digits. -/
  digits : Option UInt64 := none
  /-- The number of leaves. -/
  leafCount : Option UInt64 := none

/-- Adds a parameter that was not given before. -/
def Entries.insert (e : Entries) (key : List Char) (value : UInt64) : Option Entries :=
  match String.ofList key, e with
  | "digits", ⟨none, l⟩ => some ⟨some value, l⟩
  | "leaf_count", ⟨d, none⟩ => some ⟨d, some value⟩
  | _, _ => none

/-- Adds what a line gives. -/
def Entries.line (e : Entries) (cs : List Char) : Option Entries := do
  if isEnd cs then return e
  let (name, rest) ← key (cs.dropWhile isSpace)
  match rest.dropWhile isSpace with
  | '=' :: rest =>
    let rest := rest.dropWhile isSpace
    let isValue (c : Char) := !isSpace c && c != '#'
    let value ← word (rest.takeWhile isValue)
    if isEnd (rest.dropWhile isValue) then e.insert name value else none
  | _ => none

/-- A document may start with a byte order mark. -/
def withoutMark : List Char → List Char
  | '\ufeff' :: cs => cs
  | cs => cs

/-- What a document gives. -/
def parse (document : String) : Option Entries :=
  (lines (withoutMark document.toList)).foldlM Entries.line {}

/-- The parameters of a document, if they make a scheme. What it leaves out is canonical.
`tomlError` words what is wrong with a document that is not understood. -/
def read (tomlError : String → String) (document : String) : Except Error Params := do
  match parse document with
  | none => throw (.malformedConfig (tomlError document))
  | some e =>
    let scheme ← Scheme.ofParams
      ⟨e.digits.getD Params.canonical.digits, e.leafCount.getD Params.canonical.leafCount⟩
    return scheme.params

/-- A document that is not understood fails in the words of the TOML reader. -/
theorem read_of_parse_eq_none {tomlError : String → String} {document : String}
    (h : parse document = none) :
    read tomlError document = .error (.malformedConfig (tomlError document)) := by
  unfold read
  rw [h]
  rfl

end OneTimeSig.Config
