import DataBinding.Text.Extender
import DataBinding.Text.Unprintable

/-!
# Quoted text

Diagnostics show a text between double quotes, with everything escaped that could not be told apart
by eye: quotes and backslashes, line ends, characters that extend the one before them, and
characters without a shape of their own.
-/

set_option autoImplicit false

namespace DataBinding.Text

/-- An escape by code point, in lower case hexadecimal without leading zeros. -/
def codeEscape (c : Char) : List Char :=
  ['\\', 'u', '{'] ++ Nat.toDigits 16 c.toNat ++ ['}']

/-- A character as quoted text shows it. -/
def quoteChar (c : Char) : List Char :=
  if c = '\x00' then ['\\', '0']
  else if c = '\t' then ['\\', 't']
  else if c = '\r' then ['\\', 'r']
  else if c = '\n' then ['\\', 'n']
  else if c = '\\' then ['\\', '\\']
  else if c = '"' then ['\\', '"']
  else if isExtender c || isUnprintable c then codeEscape c
  else [c]

/-- A text between double quotes, escaped. -/
def quote (s : String) : String :=
  String.ofList ('"' :: (s.toList.flatMap quoteChar ++ ['"']))

/-- A list of quoted texts between square brackets. -/
def quoteList (texts : List String) : String :=
  "[" ++ String.intercalate ", " (texts.map quote) ++ "]"

end DataBinding.Text
