import DataBinding.Json.Basic

/-!
# Plain data as text

The text has no blanks.  Strings escape the quote, the backslash and the control characters below
the space, and nothing else.
-/

set_option autoImplicit false

namespace DataBinding.Json

/-- A hexadecimal escape with four digits, for the characters below the space. -/
def controlEscape (c : Char) : List Char :=
  ['\\', 'u', '0', '0', (c.toNat / 16).digitChar, (c.toNat % 16).digitChar]

/-- A character as it stands inside the quotes. -/
def escapeChar (c : Char) : List Char :=
  if c = '"' then ['\\', '"']
  else if c = '\\' then ['\\', '\\']
  else if c = '\x08' then ['\\', 'b']
  else if c = '\x0c' then ['\\', 'f']
  else if c = '\n' then ['\\', 'n']
  else if c = '\r' then ['\\', 'r']
  else if c = '\t' then ['\\', 't']
  else if c.toNat < 0x20 then controlEscape c
  else [c]

/-- A string between quotes. -/
def writeString (s : String) : List Char := '"' :: (s.toList.flatMap escapeChar ++ ['"'])

mutual

/-- The text of a piece of data. -/
def chars : Json → List Char
  | .null => "null".toList
  | .bool true => "true".toList
  | .bool false => "false".toList
  | .int n => (toString n).toList
  | .float x => (Layout.json.write x).toList
  | .string s => writeString s
  | .array items => '[' :: (itemChars items ++ [']'])
  | .object members => '{' :: (memberChars members ++ ['}'])

/-- The items of an array, between commas. -/
def itemChars : List Json → List Char
  | [] => []
  | [item] => chars item
  | item :: rest => chars item ++ ',' :: itemChars rest

/-- The members of an object, between commas. -/
def memberChars : List (String × Json) → List Char
  | [] => []
  | [(name, item)] => writeString name ++ ':' :: chars item
  | (name, item) :: rest => writeString name ++ ':' :: (chars item ++ ',' :: memberChars rest)

end

/-- The text of a piece of data. -/
def text (j : Json) : String := String.ofList j.chars

end DataBinding.Json
