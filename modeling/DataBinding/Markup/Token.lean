import DataBinding.Markup.Entity
import DataBinding.Markup.Error

/-!
# Tokens of markup

Markup is a row of tokens: runs of text, opening and closing tags, and comments and declarations,
which are passed over.  `nextToken` reads one token from the start of what is left of the input and
gives back the rest; `nextToken_length` says that the rest is shorter, so reading token after token
comes to an end.

Readers work on characters, so they never cut one in two.  Where an offset has to be reported it is
the size of the whole input, `total`, less the size of what was left.
-/

set_option autoImplicit false

namespace DataBinding.Markup

/-- A piece of markup. -/
inductive Token where
  /-- A run of text, with its entities decoded. -/
  | text (t : String)
  /-- A comment or a declaration. -/
  | skipped
  /-- An opening tag, and whether it closes itself. -/
  | opening (tag : String) (attributes : List (String × String)) (selfClosing : Bool)
  /-- A closing tag. -/
  | closing (tag : String)
  deriving DecidableEq, Repr

/-- The offset of what is left of the input. -/
def offsetOf (total : Nat) (s : List Char) : Nat := total - Text.byteSize s

/-! ## Names and blanks -/

/-- Skips the blanks of markup. -/
def skipBlanks (s : List Char) : List Char := s.dropWhile Text.isAsciiBlank

/-- Whether a character may stand in a tag name, not at its start. -/
def isTagChar (c : Char) : Bool := c.isAlphanum || c == '-'

/-- Whether a character may stand in the name of an attribute. -/
def isAttributeChar (c : Char) : Bool :=
  !(Text.isAsciiBlank c || c == '/' || c == '>' || c == '=' || c == '"' || c == '\'')

/-- Whether a character may stand in an attribute value without quotes. -/
def isUnquotedChar (c : Char) : Bool := !(Text.isAsciiBlank c || c == '>')

/-- Reads a tag name and gives it in lower case. -/
def readTagName (total : Nat) (s : List Char) : Except MarkupError (String × List Char) :=
  if s.head?.any Char.isAlpha then
    .ok (Text.lower (String.ofList (s.takeWhile isTagChar)), s.dropWhile isTagChar)
  else .error (.invalidName (offsetOf total s))

/-! ## Attributes -/

/-- Reads the value of an attribute, after the equals sign and the blanks that follow it. -/
def readAttributeValue (total : Nat) (s : List Char) : Except MarkupError (String × List Char) :=
  let quoted (quote : Char) (rest : List Char) :=
    match rest.dropWhile (· != quote) with
    | [] => .error (.unexpectedEnd total .attributeValue)
    | _ :: after => .ok (String.ofList (decodeChars (rest.takeWhile (· != quote))), after)
  match s with
  | '"' :: rest => quoted '"' rest
  | '\'' :: rest => quoted '\'' rest
  | s => .ok (String.ofList (decodeChars (s.takeWhile isUnquotedChar)), s.dropWhile isUnquotedChar)

/-- Reads an attribute.  Without an equals sign its value is empty. -/
def readAttribute (total : Nat) (s : List Char) :
    Except MarkupError ((String × String) × List Char) :=
  let name := String.ofList (s.takeWhile isAttributeChar)
  if s.head?.any isAttributeChar then
    match skipBlanks (s.dropWhile isAttributeChar) with
    | '=' :: rest =>
      match readAttributeValue total (skipBlanks rest) with
      | .ok (value, rest) => .ok ((name, value), rest)
      | .error e => .error e
    | rest => .ok ((name, ""), rest)
  else .error (.invalidName (offsetOf total s))

theorem skipBlanks_length (s : List Char) : (skipBlanks s).length ≤ s.length :=
  (List.dropWhile_suffix _).length_le

theorem dropWhile_length_lt {p : Char → Bool} {s : List Char} (h : s.head?.any p = true) :
    (s.dropWhile p).length < s.length := by
  cases s with
  | nil => simp at h
  | cons c rest =>
    have hc : p c = true := by simpa using h
    rw [List.dropWhile_cons_of_pos hc]
    exact Nat.lt_succ_of_le (List.dropWhile_suffix _).length_le

theorem readAttributeValue_length {total : Nat} {s rest : List Char} {value : String}
    (h : readAttributeValue total s = .ok (value, rest)) : rest.length ≤ s.length := by
  have key : ∀ (quote : Char) (t : List Char) (v : String),
      (match t.dropWhile (· != quote) with
        | [] => .error (.unexpectedEnd total .attributeValue)
        | _ :: after => .ok (String.ofList (decodeChars (t.takeWhile (· != quote))), after) :
          Except MarkupError (String × List Char)) = .ok (v, rest) →
      rest.length ≤ t.length := by
    intro quote t v h
    split at h
    · simp at h
    · rename_i head after heq
      simp only [Except.ok.injEq, Prod.mk.injEq] at h
      have := (List.dropWhile_suffix (l := t) (· != quote)).length_le
      rw [heq, List.length_cons, h.2] at this
      omega
  unfold readAttributeValue at h
  split at h
  · have := key _ _ _ h; simp; omega
  · have := key _ _ _ h; simp; omega
  · simp only [Except.ok.injEq, Prod.mk.injEq] at h
    rw [← h.2]
    exact (List.dropWhile_suffix _).length_le

theorem readAttribute_length {total : Nat} {s rest : List Char} {a : String × String}
    (h : readAttribute total s = .ok (a, rest)) : rest.length < s.length := by
  unfold readAttribute at h
  split at h
  · rename_i hs
    have h₀ := dropWhile_length_lt hs
    have h₁ := skipBlanks_length (s.dropWhile isAttributeChar)
    split at h
    · rename_i after heq
      rw [heq, List.length_cons] at h₁
      split at h
      · rename_i value rest' hv
        simp only [Except.ok.injEq, Prod.mk.injEq] at h
        have h₂ := readAttributeValue_length hv
        have h₃ := skipBlanks_length after
        rw [← h.2]
        omega
      · simp at h
    · simp only [Except.ok.injEq, Prod.mk.injEq] at h
      rw [← h.2]
      omega
  · simp at h

/-- Reads the rest of an opening tag after its name: attributes, of which the first of each name is
kept, and stray slashes.  The tag closes itself when its last slash stands right before its end. -/
def readAttributes (total : Nat) (attributes : List (String × String)) (s : List Char) :
    Except MarkupError ((List (String × String) × Bool) × List Char) :=
  match _hs : skipBlanks s with
  | [] => .error (.unexpectedEnd total .tag)
  | '/' :: '>' :: rest => .ok ((attributes, true), rest)
  | '>' :: rest => .ok ((attributes, false), rest)
  | '/' :: rest => readAttributes total attributes rest
  | c :: rest =>
    match _ha : readAttribute total (c :: rest) with
    | .error e => .error e
    | .ok (a, after) =>
      let kept := if (attributes.lookup a.1).isSome then attributes else attributes ++ [a]
      readAttributes total kept after
termination_by s.length
decreasing_by
  all_goals have h := skipBlanks_length s
  all_goals rw [_hs] at h
  · simp at h; omega
  · have := readAttribute_length _ha; omega

/-! ## Tokens -/

/-- The text after the end of a comment. -/
def afterComment? : List Char → Option (List Char)
  | [] => none
  | '-' :: '-' :: '>' :: rest => some rest
  | _ :: rest => afterComment? rest

/-- The text after the end of a declaration. -/
def afterDeclaration? (s : List Char) : Option (List Char) :=
  match s.dropWhile (· != '>') with
  | [] => none
  | _ :: rest => some rest

/-- Reads a closing tag after its `</`. -/
def readClosing (total : Nat) (s : List Char) : Except MarkupError (Token × List Char) := do
  let (tag, rest) ← readTagName total s
  match skipBlanks rest with
  | [] => throw (.unexpectedEnd total .closingTag)
  | '>' :: rest => return (.closing tag, rest)
  | rest => throw (.invalidName (offsetOf total rest))

/-- Reads an opening tag after its `<`. -/
def readOpening (total : Nat) (s : List Char) : Except MarkupError (Token × List Char) := do
  let (tag, rest) ← readTagName total s
  let ((attributes, selfClosing), rest) ← readAttributes total [] rest
  return (.opening tag attributes selfClosing, rest)

/-- Reads one token.  The end of the input is no token and counts as a text of no characters. -/
def nextToken (total : Nat) (s : List Char) : Except MarkupError (Token × List Char) :=
  match s with
  | '<' :: '!' :: '-' :: '-' :: rest =>
    match afterComment? rest with
    | some rest => .ok (.skipped, rest)
    | none => .error (.unexpectedEnd total .comment)
  | '<' :: '!' :: rest =>
    match afterDeclaration? rest with
    | some rest => .ok (.skipped, rest)
    | none => .error (.unexpectedEnd total .declaration)
  | '<' :: '/' :: rest => readClosing total rest
  | '<' :: rest => readOpening total rest
  | s =>
    .ok (.text (String.ofList (decodeChars (s.takeWhile (· != '<')))), s.dropWhile (· != '<'))

theorem afterComment?_length {s rest : List Char} (h : afterComment? s = some rest) :
    rest.length ≤ s.length := by
  fun_induction afterComment? s with
  | case1 => simp at h
  | case2 rest' => simp at h; subst h; simp; omega
  | case3 c rest' _ ih => have := ih h; simp; omega

theorem afterDeclaration?_length {s rest : List Char} (h : afterDeclaration? s = some rest) :
    rest.length ≤ s.length := by
  unfold afterDeclaration? at h
  split at h
  · simp at h
  · rename_i head after heq
    simp only [Option.some.injEq] at h
    have := (List.dropWhile_suffix (l := s) (· != '>')).length_le
    rw [heq, List.length_cons, h] at this
    omega

theorem readTagName_length {total : Nat} {s rest : List Char} {tag : String}
    (h : readTagName total s = .ok (tag, rest)) : rest.length ≤ s.length := by
  unfold readTagName at h
  split at h
  · simp only [Except.ok.injEq, Prod.mk.injEq] at h
    rw [← h.2]
    exact (List.dropWhile_suffix _).length_le
  · simp at h

theorem readAttributes_length {total : Nat} {attributes : List (String × String)}
    {s rest : List Char} {result : List (String × String) × Bool}
    (h : readAttributes total attributes s = .ok (result, rest)) : rest.length < s.length := by
  fun_induction readAttributes total attributes s with
  | case1 => simp at h
  | case2 attributes s rest' hs =>
    have := skipBlanks_length s
    simp only [Except.ok.injEq, Prod.mk.injEq] at h
    rw [hs] at this; simp at this
    rw [← h.2]; omega
  | case3 attributes s rest' hs =>
    have := skipBlanks_length s
    simp only [Except.ok.injEq, Prod.mk.injEq] at h
    rw [hs] at this; simp at this
    rw [← h.2]; omega
  | case4 attributes s rest' _ hs ih =>
    have := skipBlanks_length s
    rw [hs] at this; simp at this
    have := ih h
    omega
  | case5 => simp at h
  | case6 attributes s c rest' _ _ _ hs a after ha kept ih =>
    have := skipBlanks_length s
    rw [hs] at this
    have := readAttribute_length ha
    have := ih h
    omega

theorem readClosing_length {total : Nat} {s rest : List Char} {token : Token}
    (h : readClosing total s = .ok (token, rest)) : rest.length ≤ s.length := by
  unfold readClosing at h
  cases hn : readTagName total s with
  | error e => rw [hn] at h; simp [bind, Except.bind] at h
  | ok result =>
    rw [hn] at h
    have h₀ := readTagName_length hn
    have h₁ := skipBlanks_length result.2
    simp only [bind, Except.bind] at h
    split at h
    · simp [throw, throwThe, MonadExceptOf.throw] at h
    · rename_i rest' heq
      simp only [pure, Except.pure, Except.ok.injEq, Prod.mk.injEq] at h
      rw [heq, List.length_cons, h.2] at h₁
      omega
    · simp [throw, throwThe, MonadExceptOf.throw] at h

theorem readOpening_length {total : Nat} {s rest : List Char} {token : Token}
    (h : readOpening total s = .ok (token, rest)) : rest.length ≤ s.length := by
  unfold readOpening at h
  cases hn : readTagName total s with
  | error e => rw [hn] at h; simp [bind, Except.bind] at h
  | ok result =>
    rw [hn] at h
    have h₀ := readTagName_length hn
    cases ha : readAttributes total [] result.2 with
    | error e => simp [bind, Except.bind, ha] at h
    | ok result' =>
      have h₁ := readAttributes_length ha
      simp only [bind, Except.bind, ha, pure, Except.pure, Except.ok.injEq, Prod.mk.injEq] at h
      rw [← h.2]
      omega

theorem nextToken_length {total : Nat} {s rest : List Char} {token : Token} (hs : s ≠ [])
    (h : nextToken total s = .ok (token, rest)) : rest.length < s.length := by
  unfold nextToken at h
  split at h
  · split at h
    · rename_i heq
      have := afterComment?_length heq
      simp only [Except.ok.injEq, Prod.mk.injEq] at h
      rw [← h.2]; simp; omega
    · simp at h
  · split at h
    · rename_i heq
      have := afterDeclaration?_length heq
      simp only [Except.ok.injEq, Prod.mk.injEq] at h
      rw [← h.2]; simp; omega
    · simp at h
  · have := readClosing_length h
    simp; omega
  · have := readOpening_length h
    simp; omega
  · rename_i hlt
    simp only [Except.ok.injEq, Prod.mk.injEq] at h
    rw [← h.2]
    cases s with
    | nil => exact absurd rfl hs
    | cons c rest' =>
      have hc : (c != '<') = true := by
        simp only [bne_iff_ne, ne_eq]
        rintro rfl
        exact hlt rest' rfl
      exact dropWhile_length_lt (by simpa using hc)

end DataBinding.Markup
