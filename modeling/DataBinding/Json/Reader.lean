import DataBinding.Json.Basic
import DataBinding.Text.Blank

/-!
# Reading plain data

A reader takes the text that is left and gives back what it read and the text after it.  It fails
with a `Fault`, which tells apart a text that goes wrong, a text that merely ends too early, and —
for readers that expect a certain kind of data — a text that is well formed but of the wrong kind.

## What is here

* `Json.read`, which reads a whole text.  Brackets may be open 127 deep.
* The pieces it is made of — `readString`, `readNumber`, `nextItem`, `nextMember` — which a reader
  of data of a fixed shape uses in their place, so that the first fault it meets is the one it
  reports.

A number without point and exponent that fits 64 bits is a whole number; every other one is a
double.  Its digits are collected into 64 bits, further digits only counting as places, and the
result is scaled by a power of ten: **one rounding for the digits, one for the power and one for the
scaling**, so a text with many digits may land beside the nearest double.
-/

set_option autoImplicit false

namespace DataBinding.Json

/-- Why a text could not be read. -/
inductive Fault where
  /-- The text goes wrong at some point. -/
  | malformed
  /-- The text ends too early. -/
  | truncated
  /-- The text is well formed but not of the expected kind. -/
  | unsuitable
  deriving DecidableEq, Repr

/-- What a reader of `α` does with a text: it reads a start of it and leaves the rest. -/
abbrev Reads (α : Type) := List Char → Except Fault (α × List Char)

/-- The blanks allowed between the parts of a text. -/
def skipBlanks (s : List Char) : List Char :=
  s.dropWhile fun c ↦ c == ' ' || c == '\n' || c == '\t' || c == '\r'

/-- Reads a fixed word. -/
def readWord : List Char → List Char → Except Fault (List Char)
  | [], s => .ok s
  | _ :: _, [] => .error .truncated
  | w :: ws, c :: s => if w = c then readWord ws s else .error .malformed

/-! ## Strings -/

/-- The value of a hexadecimal digit. -/
def hexDigit? (c : Char) : Option Nat :=
  if '0' ≤ c ∧ c ≤ '9' then some (c.toNat - '0'.toNat)
  else if 'a' ≤ c ∧ c ≤ 'f' then some (c.toNat - 'a'.toNat + 10)
  else if 'A' ≤ c ∧ c ≤ 'F' then some (c.toNat - 'A'.toNat + 10)
  else none

/-- Reads the four hexadecimal digits of an escape.  The text is too short for them when it has
fewer than four bytes left. -/
def readHex (s : List Char) : Except Fault (Nat × List Char) :=
  if Text.byteSize s < 4 then .error .truncated
  else
    let digits := (s.take 4).filterMap hexDigit?
    if digits.length = 4 then .ok (digits.foldl (fun n d ↦ 16 * n + d) 0, s.drop 4)
    else .error .malformed

/-- Reads the second half of a surrogate pair, given the first. -/
def readLowSurrogate (high : Nat) (s : List Char) : Except Fault (Char × List Char) := do
  match s with
  | [] => throw .truncated
  | ['\\'] => throw .truncated
  | '\\' :: 'u' :: rest =>
    let (low, rest) ← readHex rest
    if low < 0xDC00 ∨ 0xDFFF < low then throw .malformed
    else return (Char.ofNat ((high - 0xD800) * 0x400 + (low - 0xDC00) + 0x10000), rest)
  | _ => throw .malformed

/-- Reads what follows a backslash. -/
def readEscape (s : List Char) : Except Fault (Char × List Char) := do
  match s with
  | [] => throw .truncated
  | '"' :: rest => return ('"', rest)
  | '\\' :: rest => return ('\\', rest)
  | '/' :: rest => return ('/', rest)
  | 'b' :: rest => return ('\x08', rest)
  | 'f' :: rest => return ('\x0c', rest)
  | 'n' :: rest => return ('\n', rest)
  | 'r' :: rest => return ('\r', rest)
  | 't' :: rest => return ('\t', rest)
  | 'u' :: rest =>
    let (code, rest) ← readHex rest
    if 0xDC00 ≤ code ∧ code ≤ 0xDFFF then throw .malformed
    else if 0xD800 ≤ code ∧ code ≤ 0xDBFF then readLowSurrogate code rest
    else return (Char.ofNat code, rest)
  | _ :: _ => throw .malformed

/-- Reads a string up to and including its closing quote; each round takes a character at least. -/
def readStringBody : Nat → List Char → Except Fault (List Char × List Char)
  | 0, _ => .error .truncated
  | fuel + 1, s => do
    match s with
    | [] => throw .truncated
    | '"' :: rest => return ([], rest)
    | '\\' :: rest =>
      let (c, rest) ← readEscape rest
      let (cs, rest) ← readStringBody fuel rest
      return (c :: cs, rest)
    | c :: rest =>
      if c.toNat < 0x20 then throw .malformed
      else
        let (cs, rest) ← readStringBody fuel rest
        return (c :: cs, rest)

/-- Reads a string whose opening quote has been read. -/
def readString (s : List Char) : Except Fault (String × List Char) := do
  let (cs, rest) ← readStringBody (s.length + 1) s
  return (String.ofList cs, rest)

/-! ## Numbers -/

/-- The greatest number of 64 bits. -/
def maxSignificand : Nat := Nat.pow 2 64 - 1

/-- Appends digits to a significand as long as it stays within 64 bits.  The result says how many
digits were appended. -/
def collectDigits (significand : Nat) : List Char → Nat × Nat
  | [] => (significand, 0)
  | d :: rest =>
    let next := significand * 10 + (d.toNat - '0'.toNat)
    if next ≤ maxSignificand then
      let (result, count) := collectDigits next rest
      (result, count + 1)
    else (significand, 0)

/-- The significand scaled by a power of ten, or a fault when that is out of range.  A power beyond
the range of doubles is taken in steps. -/
def scale : Nat → Binary64 → Int → Except Fault Binary64
  | 0, x, _ => .ok x
  | fuel + 1, x, exponent =>
    if exponent.natAbs ≤ 308 then
      let power := Binary64.ofDecimal false 1 exponent.natAbs
      if 0 ≤ exponent then
        match x.mul power with
        | .infinite _ => .error .malformed
        | y => .ok y
      else .ok (x.div power)
    else if x.toInt? = some 0 then .ok x
    else if 0 ≤ exponent then .error .malformed
    else scale fuel (x.div (Binary64.ofDecimal false 1 308)) (exponent + 308)

/-- The double with these parts. -/
def ofParts (negative : Bool) (significand : Nat) (exponent : Int) : Except Fault Json := do
  let x ← scale 4 (Binary64.ofInt significand) exponent
  return .float (if negative then x.neg else x)

/-- Reads an exponent, the letter having been read, and gives the whole number its value. -/
def readExponent (negative : Bool) (significand : Nat) (places : Int) (s : List Char) :
    Except Fault (Json × List Char) := do
  let (below, s) := match s with
    | '+' :: rest => (false, rest)
    | '-' :: rest => (true, rest)
    | _ => (false, s)
  match s with
  | [] => throw .truncated
  | c :: _ =>
    if !c.isDigit then throw .malformed
    let size := (s.takeWhile Char.isDigit).foldl (fun n d ↦ n * 10 + (d.toNat - '0'.toNat)) 0
    let rest := s.dropWhile Char.isDigit
    if Nat.pow 2 31 ≤ size then
      if significand ≠ 0 ∧ !below then throw .malformed
      return (.float (Binary64.zero negative), rest)
    let exponent : Int := if below then -(size : Int) else size
    let number ← ofParts negative significand (places + exponent)
    return (number, rest)

/-- Reads the digits after the point and what may follow them. -/
def readFraction (negative : Bool) (significand : Nat) (places : Int) (s : List Char) :
    Except Fault (Json × List Char) := do
  let digits := s.takeWhile Char.isDigit
  let rest := s.dropWhile Char.isDigit
  if digits.isEmpty then throw (if rest.isEmpty then .truncated else .malformed)
  let (significand, count) := collectDigits significand digits
  let places := places - (count : Int)
  match rest with
  | 'e' :: rest => readExponent negative significand places rest
  | 'E' :: rest => readExponent negative significand places rest
  | rest => return (← ofParts negative significand places, rest)

/-- Reads a number whose sign has been read. -/
def readNumber (negative : Bool) (s : List Char) : Except Fault (Json × List Char) := do
  let digits := s.takeWhile Char.isDigit
  let rest := s.dropWhile Char.isDigit
  if digits.isEmpty then throw (if rest.isEmpty then .truncated else .malformed)
  if digits.head? = some '0' ∧ 1 < digits.length then throw .malformed
  let (significand, count) := collectDigits 0 digits
  let places : Int := (digits.length - count : Nat)
  match rest with
  | '.' :: rest => readFraction negative significand places rest
  | 'e' :: rest => readExponent negative significand places rest
  | 'E' :: rest => readExponent negative significand places rest
  | rest =>
    if places ≠ 0 ∨ (negative ∧ (significand = 0 ∨ Nat.pow 2 63 < significand)) then
      return (← ofParts negative significand places, rest)
    else return (.int (if negative then -(significand : Int) else significand), rest)

/-! ## Arrays and objects -/

/-- Finds the next item of an array: the text it starts at, or the text after the closing
bracket. -/
def nextItem (first : Bool) (s : List Char) : Except Fault (List Char ⊕ List Char) :=
  match skipBlanks s with
  | [] => .error .truncated
  | ']' :: rest => .ok (.inr rest)
  | c :: rest =>
    if first then .ok (.inl (c :: rest))
    else if c = ',' then
      match skipBlanks rest with
      | [] => .error .truncated
      | ']' :: _ => .error .malformed
      | rest => .ok (.inl rest)
    else .error .malformed

/-- Finds the next member of an object: its name and the text after it, or the text after the
closing brace. -/
def nextMember (first : Bool) (s : List Char) :
    Except Fault ((String × List Char) ⊕ List Char) := do
  match skipBlanks s with
  | [] => throw .truncated
  | '}' :: rest => return .inr rest
  | c :: rest =>
    if first then
      if c = '"' then return .inl (← readString rest) else throw .malformed
    else if c = ',' then
      match skipBlanks rest with
      | [] => throw .truncated
      | '"' :: rest => return .inl (← readString rest)
      | _ => throw .malformed
    else throw .malformed

/-- Reads the colon between a name and its value. -/
def readColon (s : List Char) : Except Fault (List Char) :=
  match skipBlanks s with
  | [] => .error .truncated
  | ':' :: rest => .ok rest
  | _ => .error .malformed

/-- Reads the items of an array whose opening bracket has been read. -/
def readItems (item : Reads Json) : Nat → Bool → Reads (List Json)
  | 0, _, _ => .error .truncated
  | fuel + 1, first, s => do
    match ← nextItem first s with
    | .inr rest => return ([], rest)
    | .inl s =>
      let (j, rest) ← item s
      let (js, rest) ← readItems item fuel false rest
      return (j :: js, rest)

/-- Reads the members of an object whose opening brace has been read, in the order of the text. -/
def readMembers (item : Reads Json) : Nat → Bool → Reads (List (String × Json))
  | 0, _, _ => .error .truncated
  | fuel + 1, first, s => do
    match ← nextMember first s with
    | .inr rest => return ([], rest)
    | .inl (name, rest) =>
      let rest ← readColon rest
      let (j, rest) ← item rest
      let (js, rest) ← readMembers item fuel false rest
      return ((name, j) :: js, rest)

/-- Reads a piece of data; `inner` reads the parts of an array or object, and is missing when no
further bracket may be opened. -/
def readAny (inner : Option (Reads Json)) (s : List Char) : Except Fault (Json × List Char) := do
  match skipBlanks s with
  | [] => throw .truncated
  | 'n' :: rest => return (.null, ← readWord ['u', 'l', 'l'] rest)
  | 't' :: rest => return (.bool true, ← readWord ['r', 'u', 'e'] rest)
  | 'f' :: rest => return (.bool false, ← readWord ['a', 'l', 's', 'e'] rest)
  | '"' :: rest =>
    let (text, rest) ← readString rest
    return (.string text, rest)
  | '-' :: rest => readNumber true rest
  | '[' :: rest =>
    match inner with
    | none => throw .malformed
    | some inner =>
      let (items, rest) ← readItems inner (rest.length + 1) true rest
      return (.array items, rest)
  | '{' :: rest =>
    match inner with
    | none => throw .malformed
    | some inner =>
      let (members, rest) ← readMembers inner (rest.length + 1) true rest
      return (ofMembers members, rest)
  | c :: rest => if c.isDigit then readNumber false (c :: rest) else throw .malformed

/-- Reads a piece of data in which at most `depth` brackets are open at a time. -/
def readValue : Nat → Reads Json
  | 0 => readAny none
  | depth + 1 => readAny (some (readValue depth))

/-- How many brackets may be open at a time. -/
def maxDepth : Nat := 127

/-- Fails unless nothing but blanks is left. -/
def readEnd {α : Type} (result : α × List Char) : Except Fault α :=
  if (skipBlanks result.2).isEmpty then .ok result.1 else .error .malformed

/-- Reads a whole text. -/
def read (s : String) : Except Fault Json := do
  readEnd (← readValue maxDepth s.toList)

end DataBinding.Json
