import Sigillum.TextCodecs

/-! # JSON texts

The members of an object, as Go's `encoding/json` reads them: in the order of the text,
their names and strings unquoted, numbers as decimals.  Arrays and objects among the
values are checked for their syntax and not looked into.

Values run on fuel, the length of the text.  That is enough: what an array or an object
needs beyond the fuel for one of its values is no more than its brackets and the commas
before that value.
-/
namespace JSONText
open Bytes Runes EncodedWords TextCodecs

/-- A number as it is written, `mantissa * 10 ^ exponent` with a sign. -/
structure Decimal where
  negative : Bool
  mantissa : Nat
  exponent : Int
  deriving DecidableEq, Repr

inductive Value where
  | null
  | bool (b : Bool)
  | number (d : Decimal)
  | string (s : Bytes)
  | array
  | object
  deriving DecidableEq, Repr

def skipWhite (s : Bytes) : Bytes := s.dropWhile fun c => c == 32 || c == 9 || c == 10 || c == 13

/-! ## Numbers -/

/-- One digit or more. -/
def digits (s : Bytes) : Option (Bytes × Bytes) :=
  let ds := s.takeWhile isDigit
  if ds = [] then none else some (ds, s.drop ds.length)

def fraction : Bytes → Option (Bytes × Bytes)
  | 46 :: s => digits s
  | s => some ([], s)

def exponent : Bytes → Option (Int × Bytes)
  | [] => some (0, [])
  | c :: s =>
    if c = 101 ∨ c = 69 then
      match s with
      | 45 :: s => (digits s).map fun p => (-(decimal p.1 : Int), p.2)
      | 43 :: s => (digits s).map fun p => ((decimal p.1 : Int), p.2)
      | s => (digits s).map fun p => ((decimal p.1 : Int), p.2)
    else some (0, c :: s)

/-- A number without its sign; only zero starts with a zero. -/
def magnitude (negative : Bool) (s : Bytes) : Option (Decimal × Bytes) := do
  let (whole, s) ← digits s
  if whole.head? = some 48 ∧ whole ≠ [48] then none
  else
    let (part, s) ← fraction s
    let (e, s) ← exponent s
    some (⟨negative, decimal (whole ++ part), e - part.length⟩, s)

def number : Bytes → Option (Decimal × Bytes)
  | 45 :: s => magnitude true s
  | s => magnitude false s

/-- A string that is nothing but a number. -/
def asNumber (s : Bytes) : Option Decimal :=
  match number s with
  | some (d, []) => some d
  | _ => none

/-! ## Strings -/

def hexUnit (a b c d : UInt8) : Option Nat := do
  let high := (← fromHex a).toNat * 16 + (← fromHex b).toNat
  let low := (← fromHex c).toNat * 16 + (← fromHex d).toNat
  some (high * 256 + low)

/-- The escapes of one letter. -/
def simpleEscape (c : UInt8) : Option UInt8 :=
  [(34, 34), (92, 92), (47, 47), (98, 8), (102, 12), (110, 10), (114, 13), (116, 9)].lookup c

/-- The code unit of a `\u` escape at the start of a text. -/
def unitEscape : Bytes → Option Nat
  | 92 :: 117 :: a :: b :: c :: d :: _ => hexUnit a b c d
  | _ => none

/-- What stands after a backslash: its bytes, and how many characters it takes.  Two halves
of a pair make one code point. -/
def readEscape : Bytes → Option (Bytes × Nat)
  | 117 :: a :: b :: c :: d :: s => do
    let r ← hexUnit a b c d
    match unitEscape s with
    | some r' =>
      if (0xD800 ≤ r ∧ r ≤ 0xDBFF) ∧ 0xDC00 ≤ r' ∧ r' ≤ 0xDFFF then
        some (encodeRune ((r - 0xD800) * 1024 + (r' - 0xDC00) + 0x10000), 11)
      else some (encodeRune r, 5)
    | none => some (encodeRune r, 5)
  | c :: _ => (simpleEscape c).map fun b => ([b], 1)
  | [] => none

/-- A string from the `skip`-th character up to its closing quote, and what follows it. -/
def stringFrom : Nat → Bytes → Option (Bytes × Bytes)
  | _, [] => none
  | 0, c :: s =>
    if c = 34 then some ([], s)
    else if c = 92 then
      (readEscape s).bind fun e => (stringFrom e.2 s).map fun p => (e.1 ++ p.1, p.2)
    else if c < 32 then none
    else (stringFrom 0 s).map fun p => (c :: p.1, p.2)
  | skip + 1, _ :: s => stringFrom skip s

/-- A string after its opening quote; bytes that are not UTF-8 are replaced. -/
def string (s : Bytes) : Option (Bytes × Bytes) :=
  (stringFrom 0 s).map fun p => ((runes p.1).flatMap encodeRune, p.2)

/-! ## Values -/

def literal (s : Bytes) : Option (Value × Bytes) :=
  if (lit "null").isPrefixOf s then some (.null, s.drop 4)
  else if (lit "true").isPrefixOf s then some (.bool true, s.drop 4)
  else if (lit "false").isPrefixOf s then some (.bool false, s.drop 5)
  else (number s).map fun p => (.number p.1, p.2)

mutual
/-- A value with white space before it. -/
def value : Nat → Bytes → Option (Value × Bytes)
  | 0, _ => none
  | fuel + 1, s =>
    match skipWhite s with
    | 34 :: s => (string s).map fun p => (.string p.1, p.2)
    | 91 :: s =>
      match skipWhite s with
      | 93 :: s => some (.array, s)
      | _ => (elements fuel s).map fun rest => (.array, rest)
    | 123 :: s => (object fuel s).map fun p => (.object, p.2)
    | s => literal s

/-- The elements of an array up to its end. -/
def elements : Nat → Bytes → Option Bytes
  | 0, _ => none
  | fuel + 1, s =>
    match value fuel s with
    | none => none
    | some (_, s) =>
      match skipWhite s with
      | 44 :: s => elements fuel s
      | 93 :: s => some s
      | _ => none

/-- An object after its opening brace. -/
def object : Nat → Bytes → Option (List (Bytes × Value) × Bytes)
  | 0, _ => none
  | fuel + 1, s =>
    match skipWhite s with
    | 125 :: s => some ([], s)
    | _ => members fuel s

/-- The members of an object up to its end. -/
def members : Nat → Bytes → Option (List (Bytes × Value) × Bytes)
  | 0, _ => none
  | fuel + 1, s =>
    match skipWhite s with
    | 34 :: s =>
      match string s with
      | none => none
      | some (name, s) =>
        match skipWhite s with
        | 58 :: s =>
          match value fuel s with
          | none => none
          | some (v, s) =>
            match skipWhite s with
            | 44 :: s => (members fuel s).map fun p => ((name, v) :: p.1, p.2)
            | 125 :: s => some ([(name, v)], s)
            | _ => none
        | _ => none
    | _ => none
end

/-- The members of a text that is an object. -/
def objectMembers (s : Bytes) : Option (List (Bytes × Value)) :=
  match skipWhite s with
  | 123 :: rest =>
    match object s.length rest with
    | some (ms, rest) => if skipWhite rest = [] then some ms else none
    | none => none
  | _ => none

/-- No more than `limit` arrays and objects are open at once, from a place of the text on at
which `depth` are, and maybe a string. -/
def nestedWithin (limit : Nat) : Nat → Bool → Bytes → Bool
  | _, _, [] => true
  | depth, true, 92 :: _ :: s => nestedWithin limit depth true s
  | depth, true, c :: s => nestedWithin limit depth (c != 34) s
  | depth, false, c :: s =>
    if c = 91 ∨ c = 123 then decide (depth < limit) && nestedWithin limit (depth + 1) false s
    else if c = 93 ∨ c = 125 then nestedWithin limit (depth - 1) false s
    else nestedWithin limit depth (c == 34) s

end JSONText
