import DataBinding.Text.Blank

/-!
# Character entities

In text and in attribute values `&name;` may stand for a character.  The names are `amp`, `lt`,
`gt`, `quot`, `apos` and `nbsp`, and numbers: `#` with decimal digits, `#x` or `#X` with hexadecimal
ones, a plus sign being allowed before the digits.  The semicolon must come within ten bytes of the
ampersand, and a number must be that of a character.

Anything else is kept as it is, and what has been decoded is not looked at again.
-/

set_option autoImplicit false

namespace DataBinding.Markup

/-- The value of a digit of any base up to sixteen. -/
def digitValue? (base : Nat) (c : Char) : Option Nat :=
  let value? : Option Nat :=
    if '0' ≤ c ∧ c ≤ '9' then some (c.toNat - '0'.toNat)
    else if 'a' ≤ c ∧ c ≤ 'f' then some (c.toNat - 'a'.toNat + 10)
    else if 'A' ≤ c ∧ c ≤ 'F' then some (c.toNat - 'A'.toNat + 10)
    else none
  value?.filter (· < base)

/-- The number that a non-empty row of digits writes. -/
def digitsValue? (base : Nat) (digits : List Char) : Option Nat :=
  if digits.isEmpty then none
  else digits.foldl (fun acc c ↦ acc.bind fun n ↦ (digitValue? base c).map fun d ↦ n * base + d)
    (some 0)

/-- The number of a reference: digits after an optional plus sign. -/
def numberValue? (base : Nat) : List Char → Option Nat
  | '+' :: digits => digitsValue? base digits
  | digits => digitsValue? base digits

/-- The character with a given number, if there is one. -/
def charOfNumber? (n : Nat) : Option Char :=
  if n < 0xD800 ∨ (0xDFFF < n ∧ n < 0x110000) then some (Char.ofNat n) else none

/-- The character that a name between ampersand and semicolon stands for. -/
def entityChar? (name : List Char) : Option Char :=
  if name = ['a', 'm', 'p'] then some '&'
  else if name = ['l', 't'] then some '<'
  else if name = ['g', 't'] then some '>'
  else if name = ['q', 'u', 'o', 't'] then some '"'
  else if name = ['a', 'p', 'o', 's'] then some '\''
  else if name = ['n', 'b', 's', 'p'] then some '\u00a0'
  else match name with
    | '#' :: 'x' :: digits => (numberValue? 16 digits).bind charOfNumber?
    | '#' :: 'X' :: digits => (numberValue? 16 digits).bind charOfNumber?
    | '#' :: digits => (numberValue? 10 digits).bind charOfNumber?
    | _ => none

/-- The entity at the start of a text whose ampersand has been passed: its character and the text
after the semicolon. -/
def entity? (s : List Char) : Option (Char × List Char) :=
  match s.dropWhile (· != ';') with
  | [] => none
  | _ :: after =>
    if Text.byteSize (s.takeWhile (· != ';')) ≤ 9 then
      (entityChar? (s.takeWhile (· != ';'))).map fun c ↦ (c, after)
    else none

theorem entity?_length {s after : List Char} {c : Char} (h : entity? s = some (c, after)) :
    after.length < s.length := by
  unfold entity? at h
  split at h
  · simp at h
  · rename_i head tail heq
    split at h
    · rw [Option.map_eq_some_iff] at h
      obtain ⟨c', _, hpair⟩ := h
      simp only [Prod.mk.injEq] at hpair
      have hsuffix := (List.dropWhile_suffix (l := s) (· != ';')).length_le
      rw [heq, List.length_cons, hpair.2] at hsuffix
      omega
    · simp at h

/-- A text with its entities decoded. -/
def decodeChars : List Char → List Char
  | [] => []
  | '&' :: rest =>
    match _h : entity? rest with
    | some (c, after) => c :: decodeChars after
    | none => '&' :: decodeChars rest
  | c :: rest => c :: decodeChars rest
termination_by s => s.length
decreasing_by
  all_goals simp_wf
  all_goals try have := entity?_length _h
  all_goals omega

/-- A text with its entities decoded. -/
def decode (s : String) : String := String.ofList (decodeChars s.toList)

end DataBinding.Markup
