import DataBinding.Markup.Token

/-!
# The grammar of tokens

What the reader of tokens accepts is said here without saying how it is read: `Lexeme t token` holds
if the characters `t`, from the first to the last, write the token.  Wherever a reader would take as
much as it can get, the grammar says what must not follow.

* `Attribute t a s` — `t` writes an attribute if `s` comes after it.
* `TagTail t as closes` — `t` is what follows the name in an opening tag, up to and including the
  `>`.  Attributes are listed as they are written, so a name may occur more than once (`firsts`).
* `Lexeme t token` — `t` writes a text, a comment, a declaration, or a tag.
-/

set_option autoImplicit false

namespace DataBinding.Markup

/-- Nothing but blanks. -/
def Blanks (t : List Char) : Prop := ∀ c ∈ t, Text.isAsciiBlank c = true

/-- A name of an attribute. -/
def AttributeName (t : List Char) : Prop := t ≠ [] ∧ ∀ c ∈ t, isAttributeChar c = true

/-- A name of a tag: a letter, and then letters, digits and hyphens. -/
def TagName (t : List Char) : Prop := t.head?.any Char.isAlpha = true ∧ ∀ c ∈ t, isTagChar c = true

/-- Of attributes with the same name the first one. -/
def firsts : List (String × String) → List (String × String)
  | [] => []
  | a :: as => a :: (firsts as).filter (·.1 != a.1)

/-- An attribute, and what comes after it. -/
inductive Attribute : List Char → String × String → List Char → Prop
  /-- A name alone. -/
  | bare {name s : List Char} (hname : AttributeName name)
      (hend : s.head?.any isAttributeChar = false) (hvalue : (skipBlanks s).head? ≠ some '=') :
      Attribute name (String.ofList name, "") s
  /-- A name and a value in quotes. -/
  | quoted {name before after value s : List Char} {quote : Char} (hname : AttributeName name)
      (hbefore : Blanks before) (hafter : Blanks after) (hquote : quote = '"' ∨ quote = '\'')
      (hvalue : quote ∉ value) :
      Attribute (name ++ before ++ '=' :: (after ++ quote :: (value ++ [quote])))
        (String.ofList name, String.ofList (decodeChars value)) s
  /-- A name and a value without quotes. -/
  | unquoted {name before after value s : List Char} (hname : AttributeName name)
      (hbefore : Blanks before) (hafter : Blanks after)
      (hvalue : ∀ c ∈ value, isUnquotedChar c = true) (hdouble : value.head? ≠ some '"')
      (hsingle : value.head? ≠ some '\'') (hend : s.head?.any isUnquotedChar = false)
      (hempty : value = [] → s.head?.any Text.isAsciiBlank = false) :
      Attribute (name ++ before ++ '=' :: (after ++ value))
        (String.ofList name, String.ofList (decodeChars value)) s

/-- The rest of an opening tag after its name, and whether the tag closes itself. -/
inductive TagTail : List Char → List (String × String) → Bool → Prop
  | close : TagTail ['>'] [] false
  | selfClose : TagTail ['/', '>'] [] true
  | blank {c : Char} {s : List Char} {as : List (String × String)} {closes : Bool}
      (hc : Text.isAsciiBlank c = true) (h : TagTail s as closes) : TagTail (c :: s) as closes
  /-- A slash that closes nothing. -/
  | slash {s : List Char} {as : List (String × String)} {closes : Bool} (hs : s.head? ≠ some '>')
      (h : TagTail s as closes) : TagTail ('/' :: s) as closes
  | attr {t s : List Char} {a : String × String} {as : List (String × String)} {closes : Bool}
      (ha : Attribute t a s) (h : TagTail s as closes) : TagTail (t ++ s) (a :: as) closes

/-- Characters that write a token. -/
inductive Lexeme : List Char → Token → Prop
  | text {t : List Char} (hne : t ≠ []) (ht : '<' ∉ t) :
      Lexeme t (.text (String.ofList (decodeChars t)))
  /-- A comment ends where it can end first. -/
  | comment {body : List Char} (h : ¬['-', '-', '>'] <:+: body ++ ['-', '-']) :
      Lexeme (['<', '!', '-', '-'] ++ (body ++ ['-', '-', '>'])) .skipped
  | declaration {body : List Char} (h : '>' ∉ body) (hcomment : ¬['-', '-'] <+: body) :
      Lexeme (['<', '!'] ++ (body ++ ['>'])) .skipped
  | opening {name s : List Char} {as : List (String × String)} {closes : Bool}
      (hname : TagName name) (hend : s.head?.any isTagChar = false) (h : TagTail s as closes) :
      Lexeme ('<' :: (name ++ s)) (.opening (Text.lower (String.ofList name)) (firsts as) closes)
  | closing {name blanks : List Char} (hname : TagName name) (hblanks : Blanks blanks) :
      Lexeme ('<' :: '/' :: (name ++ (blanks ++ ['>'])))
        (.closing (Text.lower (String.ofList name)))

end DataBinding.Markup
