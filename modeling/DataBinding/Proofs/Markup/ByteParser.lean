import DataBinding.Proofs.Markup.AppendedInput
import DataBinding.Proofs.Markup.ByteCuts
import DataBinding.Proofs.Markup.Entities

/-!
# The parser by byte positions

The readers of markup work on what is left of the input.  The same can be done with the whole input
at hand and a position in it, as `Bytewise.parse` does: bytes are counted to find the next position,
and the input is cut at what has been counted.  This can go wrong in two ways.  A position need not
be one at which the input can be cut, and a loop need not advance.  Every cut is checked here, and
so is every round of a loop; whatever does not pass is a `Slip`.

Here are the readers of entities and tags.  **They do not slip**: begun where some rest of the input
begins, each ends where the rest begins that its counterpart leaves, or with the same error.
-/

set_option autoImplicit false

namespace DataBinding

open Text

namespace Markup.Bytewise

/-- A step of a scanner, which may come upon an error or slip. -/
abbrev Scan (α : Type) : Type := ExceptT MarkupError (Except Slip) α

/-- The scanner has slipped. -/
def slip {α : Type} (x : Slip) : Scan α := ExceptT.mk (.error x)

/-! ## Entities -/

/-- Reads what an ampersand at the start of a text stands for, and gives it with the text behind
it. -/
def entityAt (rest : List Char) : Except Slip (Char × List Char) := do
  match (findChar ';' rest).filter (· ≤ 10) with
  | some semi =>
    match entityChar? (← slice 1 semi rest) with
    | some c => return (c, ← sliceFrom (semi + 1) rest)
    | none => return ('&', ← sliceFrom 1 rest)
  | none => return ('&', ← sliceFrom 1 rest)

/-- Decodes one entity after the other, cutting the text at each ampersand. -/
def decode (s : List Char) : Except Slip (List Char) := do
  match findChar '&' s with
  | none => return s
  | some amp =>
    let before ← sliceTo amp s
    let (c, rest) ← entityAt (← sliceFrom amp s)
    if _h : byteSize rest < byteSize s then return before ++ c :: (← decode rest)
    else throw (.idle amp)
termination_by byteSize s

/-! ## Tags -/

section Readers

variable (src : List Char)

/-- The position behind the blanks. -/
def skipWhitespace (pos : Nat) : Scan Nat := do
  let rest ← sliceFrom pos src
  return pos + ((bytes rest).takeWhile fun b ↦ isAsciiBlank (ofByte b)).length

/-- Reads a tag name and gives it in lower case. -/
def tagName (pos : Nat) : Scan (String × Nat) := do
  let rest ← sliceFrom pos src
  if (bytes rest).head?.any fun b ↦ (ofByte b).isAlpha then
    let size := ((bytes rest).takeWhile fun b ↦ isTagChar (ofByte b)).length
    return (lower (String.ofList (← sliceTo size rest)), pos + size)
  else throw (.invalidName pos)

/-- Reads a value in quotes, of which `rest` begins with the first one. -/
def quotedValue (pos : Nat) (quote : Char) (rest : List Char) : Scan (String × Nat) := do
  match (bytes (← sliceFrom 1 rest)).findIdx? fun b ↦ ofByte b == quote with
  | some close => return (String.ofList (← decode (← slice 1 (1 + close) rest)), pos + (close + 2))
  | none => throw (.unexpectedEnd (byteSize src) .attributeValue)

/-- Reads the value of an attribute. -/
def attributeValue (pos : Nat) : Scan (String × Nat) := do
  let rest ← sliceFrom pos src
  match (bytes rest).head?.map ofByte with
  | some '"' => quotedValue src pos '"' rest
  | some '\'' => quotedValue src pos '\'' rest
  | _ =>
    let size := ((bytes rest).takeWhile fun b ↦ isUnquotedChar (ofByte b)).length
    return (String.ofList (← decode (← sliceTo size rest)), pos + size)

/-- Reads an attribute.  Without an equals sign its value is empty. -/
def nextAttribute (pos : Nat) : Scan ((String × String) × Nat) := do
  let rest ← sliceFrom pos src
  let size := ((bytes rest).takeWhile fun b ↦ isAttributeChar (ofByte b)).length
  if size = 0 then throw (.invalidName pos)
  else
    let name ← sliceTo size rest
    let pos ← skipWhitespace src (pos + size)
    if ['='].isPrefixOf (← sliceFrom pos src) then
      let (value, pos) ← attributeValue src (← skipWhitespace src (pos + 1))
      return ((String.ofList name, value), pos)
    else return ((String.ofList name, ""), pos)

/-- Reads a stray slash, or an attribute, of which the first of each name is kept. -/
def tagPiece (acc : List (String × String)) (pos : Nat) (rest : List Char) :
    Scan (List (String × String) × Nat) := do
  if ['/'].isPrefixOf rest then return (acc, pos + 1)
  else
    let (a, next) ← nextAttribute src pos
    return (if (acc.lookup a.1).isSome then acc else acc ++ [a], next)

/-- Reads the rest of an opening tag after its name. -/
def tagTail (acc : List (String × String)) (pos : Nat) :
    Scan ((List (String × String) × Bool) × Nat) := do
  let start ← skipWhitespace src pos
  let rest ← sliceFrom start src
  if rest.isEmpty then throw (.unexpectedEnd (byteSize src) .tag)
  else if ['/', '>'].isPrefixOf rest then return ((acc, true), start + 2)
  else if ['>'].isPrefixOf rest then return ((acc, false), start + 1)
  else
    let (acc, next) ← tagPiece src acc start rest
    if _h : pos < next ∧ next ≤ byteSize src then tagTail acc next
    else slip (.idle pos)
termination_by byteSize src - pos

/-- Reads a closing tag. -/
def closeTag (start : Nat) : Scan (Token × Nat) := do
  let (tag, pos) ← tagName src (start + 2)
  let pos ← skipWhitespace src pos
  if ['>'].isPrefixOf (← sliceFrom pos src) then return (.closing tag, pos + 1)
  else if pos < byteSize src then throw (.invalidName pos)
  else throw (.unexpectedEnd (byteSize src) .closingTag)

/-- Reads an opening tag. -/
def openTag (start : Nat) : Scan (Token × Nat) := do
  let (tag, pos) ← tagName src (start + 1)
  let ((attributes, selfClosing), pos) ← tagTail src [] pos
  return (.opening tag attributes selfClosing, pos)

/-! ## Tokens -/

/-- Reads what an angle bracket begins. -/
def markup (pos : Nat) : Scan (Token × Nat) := do
  let rest ← sliceFrom pos src
  if ['<', '!', '-', '-'].isPrefixOf rest then
    match findText ['-', '-', '>'] (← sliceFrom 4 rest) with
    | some i => return (.skipped, pos + (4 + i + 3))
    | none => throw (.unexpectedEnd (byteSize src) .comment)
  else if ['<', '!'].isPrefixOf rest then
    match findChar '>' rest with
    | some i => return (.skipped, pos + (i + 1))
    | none => throw (.unexpectedEnd (byteSize src) .declaration)
  else if ['<', '/'].isPrefixOf rest then closeTag src pos
  else openTag src pos

/-- Reads a text up to the next angle bracket. -/
def text (pos : Nat) : Scan (Token × Nat) := do
  let rest ← sliceFrom pos src
  let stop := ((findChar '<' rest).map (pos + ·)).getD (byteSize src)
  return (.text (String.ofList (← decode (← slice pos stop src))), stop)

/-- Reads one token. -/
def token (pos : Nat) : Scan (Token × Nat) := do
  if ['<'].isPrefixOf (← sliceFrom pos src) then markup src pos else text src pos

/-- Reads the input from a position on into a document. -/
def run (d : Document) (pending : List (NodeId × String)) (pos : Nat) : Scan Document := do
  if pos < byteSize src then
    let (token, next) ← token src pos
    match Document.place pos [] d pending token with
    | .error e => throw e
    | .ok (d, pending) =>
      if _h : pos < next ∧ next ≤ byteSize src then run d pending next else slip (.idle pos)
  else if pending.isEmpty then return d
  else throw (.unexpectedEnd (byteSize src) .element)
termination_by byteSize src - pos

end Readers

/-- The document that a text of markup writes, or an error, unless the scanner slips. -/
def parse (markup : String) : Except Slip (Except MarkupError Document) :=
  (run markup.toList .empty [] 0).run

/-! ## Steps that do not slip -/

section Steps

variable {src s t u : List Char} {α β : Type}

/-- A cut that succeeds. -/
theorem cut_bind {r : Except Slip β} {b : β} (h : r = .ok b) (f : β → Except Slip α) :
    (r >>= f) = f b := by
  subst h
  rfl

theorem lift_bind {r : Except Slip β} {b : β} (h : r = .ok b) (f : β → Scan α) :
    ((liftM r : Scan β) >>= f) = f b := by
  subst h
  rfl

/-- The position of what is left of the input. -/
def posOf (src s : List Char) : Nat := offsetOf (byteSize src) s

@[simp] theorem posOf_self (src : List Char) : posOf src src = 0 := Nat.sub_self _

@[simp] theorem posOf_nil (src : List Char) : posOf src [] = byteSize src := rfl

theorem posOf_append (t s : List Char) : posOf (t ++ s) s = byteSize t := by
  rw [posOf, offsetOf, byteSize_append, Nat.add_sub_cancel_right]

theorem sliceFrom_posOf (hs : s <:+ src) : sliceFrom (posOf src s) src = .ok s := by
  obtain ⟨t, rfl⟩ := hs
  exact sliceFrom_eq_ok_iff.2 ⟨t, rfl, (posOf_append t s).symm⟩

/-- **A step over a text leads behind it.** -/
theorem posOf_add (h : t ++ u <:+ src) : posOf src (t ++ u) + byteSize t = posOf src u := by
  obtain ⟨before, rfl⟩ := h
  rw [posOf_append, ← byteSize_append, ← List.append_assoc, posOf_append]

theorem posOf_lt (hs : s <:+ src) (hne : s ≠ []) : posOf src s < byteSize src := by
  obtain ⟨t, rfl⟩ := hs
  have hpos := byteSize_pos hne
  rw [posOf_append, byteSize_append]
  omega

theorem posOf_le (src s : List Char) : posOf src s ≤ byteSize src := Nat.sub_le ..

/-- What is left becomes less when the position advances. -/
theorem posOf_lt_posOf (hs : s <:+ src) (hu : u <:+ s) (hlt : u.length < s.length) :
    posOf src s < posOf src u := by
  obtain ⟨t, rfl⟩ := hu
  have hne : t ≠ [] := by
    rintro rfl
    exact Nat.lt_irrefl _ hlt
  rw [← posOf_add hs]
  exact Nat.lt_add_of_pos_right (byteSize_pos hne)

theorem posOf_dropWhile (hs : s <:+ src) (p : Char → Bool) :
    posOf src s + byteSize (s.takeWhile p) = posOf src (s.dropWhile p) := by
  have hsplit : s.takeWhile p ++ s.dropWhile p <:+ src := by rwa [List.takeWhile_append_dropWhile]
  have h := posOf_add hsplit
  rwa [List.takeWhile_append_dropWhile] at h

/-- What the scanner does when it ends where the reader leaves a rest, or with the same error. -/
def landing (src : List Char) (r : Except MarkupError (α × List Char)) : Scan (α × Nat) :=
  ExceptT.mk (.ok (r.map fun x ↦ (x.1, posOf src x.2)))

theorem landing_ok (a : α) (s : List Char) : landing src (.ok (a, s)) = pure (a, posOf src s) := rfl

end Steps

/-! ## Entities -/

section Entities

variable {s : List Char}

/-- The character at an ampersand and the text behind it, which is the ampersand itself if it begins
no entity. -/
def readEntity (s : List Char) : Char × List Char := (entity? s).getD ('&', s)

theorem decodeChars_ampersand (s : List Char) :
    decodeChars ('&' :: s) = (readEntity s).1 :: decodeChars (readEntity s).2 := by
  rw [decodeChars, readEntity]
  split
  · rename_i h
    rw [h]
    rfl
  · rename_i h
    rw [h]
    rfl

theorem byteSize_readEntity (s : List Char) : byteSize (readEntity s).2 < byteSize ('&' :: s) := by
  have hamp : byteSize ('&' :: s) = 1 + byteSize s := rfl
  have hle : byteSize (readEntity s).2 ≤ byteSize s := by
    rw [readEntity]
    cases h : entity? s with
    | none => exact Nat.le_refl _
    | some x =>
      obtain ⟨name, rfl, -⟩ := entity?_eq_some_iff.1 h
      rw [byteSize_append, byteSize, Option.getD_some]
      omega
  omega

/-- **An entity is read by bytes as by characters.** -/
theorem entityAt_eq (s : List Char) : entityAt ('&' :: s) = .ok (readEntity s) := by
  have hkept : sliceFrom 1 ('&' :: s) = .ok s := sliceFrom_eq_ok_iff.2 ⟨['&'], rfl, rfl⟩
  rw [entityAt, readEntity, entity?]
  by_cases hs : ';' ∈ s
  · obtain ⟨t, u, rfl, ht⟩ := List.eq_append_cons_of_mem hs
    obtain ⟨hdrop, htake⟩ := dropWhile_ne_append ht u
    have hsemi : ';' ∉ '&' :: t := by simpa using ht
    have hfind : findChar ';' ('&' :: (t ++ ';' :: u)) = some (1 + byteSize t) :=
      findChar_append hsemi u
    have hname : slice 1 (1 + byteSize t) ('&' :: (t ++ ';' :: u)) = .ok t := slice_append ['&'] t _
    have hsize : byteSize ('&' :: t ++ [';']) = 1 + byteSize t + 1 := by
      rw [byteSize_append]
      rfl
    have hbehind : sliceFrom (1 + byteSize t + 1) ('&' :: (t ++ ';' :: u)) = .ok u :=
      sliceFrom_eq_ok_iff.2 ⟨'&' :: t ++ [';'], by simp, hsize⟩
    rw [hfind, hdrop, htake, Option.filter_some]
    by_cases hshort : byteSize t ≤ 9
    · have hten : (decide (1 + byteSize t ≤ 10)) = true := decide_eq_true (by omega)
      rw [if_pos hten]
      dsimp only
      rw [cut_bind hname, if_pos hshort]
      cases entityChar? t with
      | none => exact cut_bind hkept _
      | some c => exact cut_bind hbehind _
    · have hten : ¬(decide (1 + byteSize t ≤ 10)) = true := by
        rw [decide_eq_true_iff]
        omega
      rw [if_neg hten]
      dsimp only
      rw [if_neg hshort]
      exact cut_bind hkept _
  · have hpass : ∀ c ∈ s, (c != ';') = true := fun c hc ↦ bne_iff_ne.2 fun heq ↦ hs (heq ▸ hc)
    have hfind : findChar ';' ('&' :: s) = none := findChar_eq_none (by simpa using hs)
    rw [hfind, List.dropWhile_eq_nil_iff.2 hpass, Option.filter_none]
    exact cut_bind hkept _

/-- **Decoding never slips.** -/
theorem decode_eq (s : List Char) : decode s = .ok (decodeChars s) := by
  induction hn : byteSize s using Nat.strong_induction_on generalizing s with
  | _ n ih =>
    subst hn
    rw [decode]
    by_cases hs : '&' ∈ s
    · obtain ⟨t, u, rfl, ht⟩ := List.eq_append_cons_of_mem hs
      have hbefore : sliceTo (byteSize t) (t ++ '&' :: u) = .ok t :=
        sliceTo_eq_ok_iff.2 ⟨_, rfl, rfl⟩
      have hrest : sliceFrom (byteSize t) (t ++ '&' :: u) = .ok ('&' :: u) :=
        sliceFrom_eq_ok_iff.2 ⟨t, rfl, rfl⟩
      have hsize : byteSize (readEntity u).2 < byteSize (t ++ '&' :: u) := by
        have h := byteSize_readEntity u
        rw [byteSize_append]
        omega
      rw [findChar_append ht, decodeChars_append ht, decodeChars_ampersand]
      dsimp only
      rw [cut_bind hbefore, cut_bind hrest, cut_bind (entityAt_eq u), dif_pos hsize,
        cut_bind (ih _ hsize _ rfl)]
      rfl
    · rw [findChar_eq_none hs]
      have h := decodeChars_append hs []
      rw [List.append_nil, decodeChars, List.append_nil] at h
      rw [h]
      rfl

end Entities

/-! ## Names and blanks -/

section Uniform

theorem uniform_isAsciiBlank : Uniform isAsciiBlank :=
  .of_lt fun c hc ↦ by
    simp only [isAsciiBlank, Bool.or_eq_true, beq_iff_eq] at hc
    rcases hc with (((rfl | rfl) | rfl) | rfl) | rfl <;> decide

theorem uniform_isAlpha : Uniform Char.isAlpha :=
  .of_lt fun c hc ↦ by
    unfold Char.isAlpha Char.isUpper Char.isLower at hc
    simp only [ge_iff_le, Bool.or_eq_true, Bool.and_eq_true, decide_eq_true_eq,
      UInt32.le_iff_toNat_le] at hc
    simp at hc
    omega

theorem uniform_isDigit : Uniform Char.isDigit :=
  .of_lt fun c hc ↦ by
    unfold Char.isDigit at hc
    simp only [ge_iff_le, Bool.and_eq_true, decide_eq_true_eq, UInt32.le_iff_toNat_le] at hc
    simp at hc
    omega

theorem uniform_isTagChar : Uniform isTagChar :=
  .or (.or uniform_isAlpha uniform_isDigit) (.beq (by decide))

theorem uniform_isAttributeChar : Uniform isAttributeChar :=
  .not (.or (.or (.or (.or (.or uniform_isAsciiBlank (.beq (by decide))) (.beq (by decide)))
    (.beq (by decide))) (.beq (by decide))) (.beq (by decide)))

theorem uniform_isUnquotedChar : Uniform isUnquotedChar :=
  .not (.or uniform_isAsciiBlank (.beq (by decide)))

end Uniform

section Readers

variable {src s : List Char}

theorem skipWhitespace_eq (hs : s <:+ src) :
    skipWhitespace src (posOf src s) = pure (posOf src (skipBlanks s)) := by
  rw [skipWhitespace, lift_bind (sliceFrom_posOf hs), length_takeWhile_bytes uniform_isAsciiBlank,
    posOf_dropWhile hs]
  rfl

theorem tagName_eq (hs : s <:+ src) :
    tagName src (posOf src s) = landing src (readTagName (byteSize src) s) := by
  rw [tagName, lift_bind (sliceFrom_posOf hs), head?_bytes uniform_isAlpha,
    length_takeWhile_bytes uniform_isTagChar, readTagName]
  split
  · rw [lift_bind (sliceTo_takeWhile isTagChar s), posOf_dropWhile hs]
    rfl
  · rfl

/-- **A value in quotes ends at the same quote**, and the bytes before it are characters. -/
theorem quotedValue_eq {quote : Char} (hquote : quote.toNat < 128) (hs : quote :: s <:+ src) :
    quotedValue src (posOf src (quote :: s)) quote (quote :: s) =
      landing src (match s.dropWhile (· != quote) with
        | [] => .error (.unexpectedEnd (byteSize src) .attributeValue)
        | _ :: after => .ok (String.ofList (decodeChars (s.takeWhile (· != quote))), after)) := by
  have hone : byteSize [quote] = 1 := byteSize_singleton hquote
  have hbehind : sliceFrom 1 (quote :: s) = .ok s := sliceFrom_eq_ok_iff.2 ⟨[quote], rfl, hone⟩
  rw [quotedValue, lift_bind hbehind, findIdx?_bytes hquote]
  by_cases hmem : quote ∈ s
  · obtain ⟨t, u, rfl, ht⟩ := List.eq_append_cons_of_mem hmem
    obtain ⟨hdrop, htake⟩ := dropWhile_ne_append ht u
    have hvalue : slice 1 (1 + byteSize t) (quote :: (t ++ quote :: u)) = .ok t := by
      have h := slice_append [quote] t (quote :: u)
      rwa [hone] at h
    have hnext : posOf src (quote :: (t ++ quote :: u)) + (byteSize t + 2) = posOf src u := by
      have hsplit : (quote :: t ++ [quote]) ++ u <:+ src := by simpa using hs
      have hsize : byteSize (quote :: t ++ [quote]) = byteSize t + 2 := by
        have hcons : byteSize (quote :: t) = byteSize [quote] + byteSize t :=
          byteSize_append [quote] t
        rw [byteSize_append, hcons, hone]
        omega
      have h := posOf_add hsplit
      rw [hsize] at h
      simpa using h
    rw [findChar_append ht, hdrop, htake]
    dsimp only
    rw [lift_bind hvalue, lift_bind (decode_eq t), hnext]
    rfl
  · have hpass : ∀ c ∈ s, (c != quote) = true := fun c hc ↦ bne_iff_ne.2 fun heq ↦ hmem (heq ▸ hc)
    rw [findChar_eq_none hmem, List.dropWhile_eq_nil_iff.2 hpass]
    rfl

/-- **The value of an attribute.** -/
theorem attributeValue_eq (hs : s <:+ src) :
    attributeValue src (posOf src s) = landing src (readAttributeValue (byteSize src) s) := by
  have hdouble := head?_map_bytes (k := '"') (by decide) s
  have hsingle := head?_map_bytes (k := '\'') (by decide) s
  rw [attributeValue, lift_bind (sliceFrom_posOf hs)]
  split
  · rename_i heq
    obtain ⟨u, rfl⟩ := List.head?_eq_some_iff.1 (hdouble.1 heq)
    rw [quotedValue_eq (by decide) hs]
    rfl
  · rename_i heq
    obtain ⟨u, rfl⟩ := List.head?_eq_some_iff.1 (hsingle.1 heq)
    rw [quotedValue_eq (by decide) hs]
    rfl
  · rename_i hnot hnot'
    have hread : readAttributeValue (byteSize src) s =
        .ok (String.ofList (decodeChars (s.takeWhile isUnquotedChar)),
            s.dropWhile isUnquotedChar) := by
      unfold readAttributeValue
      split
      · exact absurd (hdouble.2 rfl) hnot
      · exact absurd (hsingle.2 rfl) hnot'
      · rfl
    rw [hread, length_takeWhile_bytes uniform_isUnquotedChar,
      lift_bind (sliceTo_takeWhile isUnquotedChar s), lift_bind (decode_eq _), posOf_dropWhile hs]
    rfl

theorem isPrefixOf_iff {pattern : List Char} :
    pattern.isPrefixOf s = true ↔ ∃ u, s = pattern ++ u := by
  rw [List.isPrefixOf_iff_prefix]
  exact exists_congr fun u ↦ eq_comm

theorem isPrefixOf_singleton {k : Char} : [k].isPrefixOf s = true ↔ ∃ u, s = k :: u :=
  isPrefixOf_iff

/-- Nothing passes a test exactly if the first character does not. -/
theorem byteSize_takeWhile_eq_zero {p : Char → Bool} :
    byteSize (s.takeWhile p) = 0 ↔ s.head?.any p = false := by
  constructor
  · intro h
    by_contra hhead
    refine Nat.ne_of_gt (byteSize_pos fun hnil ↦ hhead ?_) h
    have hdrop := head?_dropWhile p s
    rwa [← List.takeWhile_append_dropWhile (p := p) (l := s), hnil]
  · intro h
    rw [takeWhile_of_head h]
    rfl

/-- A step over one ASCII character. -/
theorem posOf_cons {c : Char} (hc : c.toNat < 128) (hs : c :: s <:+ src) :
    posOf src (c :: s) + 1 = posOf src s := by
  rw [← byteSize_singleton hc]
  exact posOf_add (t := [c]) hs

/-- A step over what a closing tag begins with. -/
theorem posOf_two (hs : '<' :: '/' :: s <:+ src) : posOf src ('<' :: '/' :: s) + 2 = posOf src s :=
  posOf_add (t := ['<', '/']) hs

/-- **An attribute.** -/
theorem nextAttribute_eq (hs : s <:+ src) :
    nextAttribute src (posOf src s) = landing src (readAttribute (byteSize src) s) := by
  have hsize : byteSize (s.takeWhile isAttributeChar) = 0 ↔
      s.head?.any isAttributeChar = false := by
    rw [byteSize_takeWhile_eq_zero]
  rw [nextAttribute, lift_bind (sliceFrom_posOf hs), length_takeWhile_bytes uniform_isAttributeChar,
    readAttribute]
  cases hhead : s.head?.any isAttributeChar with
  | false =>
    rw [if_pos (hsize.2 hhead), if_neg (by simp)]
    rfl
  | true =>
    have hname : byteSize (s.takeWhile isAttributeChar) ≠ 0 := by
      rw [ne_eq, hsize, hhead]
      simp
    have hbehind : s.dropWhile isAttributeChar <:+ src := (List.dropWhile_suffix _).trans hs
    have hskipped : skipBlanks (s.dropWhile isAttributeChar) <:+ src :=
      (skipBlanks_suffix _).trans hbehind
    rw [if_pos rfl, if_neg hname, lift_bind (sliceTo_takeWhile isAttributeChar s),
      posOf_dropWhile hs, skipWhitespace_eq hbehind, pure_bind,
        lift_bind (sliceFrom_posOf hskipped)]
    generalize skipBlanks (s.dropWhile isAttributeChar) = u at hskipped
    split
    · rename_i hequals
      obtain ⟨v, rfl⟩ := isPrefixOf_singleton.1 hequals
      have hrest : v <:+ src := (List.suffix_cons _ _).trans hskipped
      rw [posOf_cons (by decide) hskipped, skipWhitespace_eq hrest, pure_bind,
        attributeValue_eq ((skipBlanks_suffix v).trans hrest)]
      cases hvalue : readAttributeValue (byteSize src) (skipBlanks v) with
      | error e =>
        simp only [hvalue]
        rfl
      | ok r =>
        simp only [hvalue]
        rfl
    · rename_i hequals
      split
      · exact absurd rfl hequals
      · rfl

/-- A round of the loop begins behind the blanks. -/
theorem tagTail_round (acc : List (String × String)) (hs : s <:+ src) {u : List Char}
    (hu : skipBlanks s = u) :
    tagTail src acc (posOf src s) =
      if u.isEmpty then throw (.unexpectedEnd (byteSize src) .tag)
      else if ['/', '>'].isPrefixOf u then return ((acc, true), posOf src u + 2)
      else if ['>'].isPrefixOf u then return ((acc, false), posOf src u + 1)
      else tagPiece src acc (posOf src u) u >>= fun x ↦
        if posOf src s < x.2 ∧ x.2 ≤ byteSize src then tagTail src x.1 x.2
        else slip (.idle (posOf src s)) := by
  subst hu
  have hskipped : skipBlanks s <:+ src := (skipBlanks_suffix s).trans hs
  rw [tagTail, skipWhitespace_eq hs, pure_bind, lift_bind (sliceFrom_posOf hskipped)]
  rfl

/-- **No round stays where it is**: whatever it reads, it ends further behind. -/
theorem tagTail_next {acc acc' : List (String × String)} {u v : List Char} (hs : s <:+ src)
    (hu : skipBlanks s = u) (hne : u ≠ []) (hself : ¬['/', '>'].isPrefixOf u = true)
    (hclose : ¬['>'].isPrefixOf u = true) (hv : v <:+ u) (hlt : v.length < u.length)
    (hpiece : tagPiece src acc (posOf src u) u = pure (acc', posOf src v)) :
    tagTail src acc (posOf src s) = tagTail src acc' (posOf src v) := by
  subst hu
  have hadvance : posOf src s < posOf src v ∧ posOf src v ≤ byteSize src :=
    ⟨posOf_lt_posOf hs (hv.trans (skipBlanks_suffix s))
      (Nat.lt_of_lt_of_le hlt (skipBlanks_length s)), posOf_le src v⟩
  rw [tagTail_round acc hs rfl, if_neg (by simpa using hne), if_neg hself, if_neg hclose, hpiece,
    pure_bind]
  exact if_pos hadvance

theorem not_isPrefixOf_cons {k c : Char} {pattern : List Char} (h : c ≠ k) (s : List Char) :
    ¬(k :: pattern).isPrefixOf (c :: s) = true := by
  rw [List.isPrefixOf_iff_prefix, List.cons_prefix_cons]
  exact fun hpre ↦ h hpre.1.symm

/-- **The rest of an opening tag.** -/
theorem tagTail_eq {acc : List (String × String)} (hs : s <:+ src) :
    tagTail src acc (posOf src s) = landing src (readAttributes (byteSize src) acc s) := by
  have hskipped : ∀ {s u : List Char}, s <:+ src → skipBlanks s = u → u <:+ src := fun hs hu ↦
    hu ▸ (skipBlanks_suffix _).trans hs
  fun_induction readAttributes (byteSize src) acc s with
  | case1 acc s hskip =>
    rw [tagTail_round acc hs hskip]
    rfl
  | case2 acc s rest hskip =>
    have htwo : posOf src ('/' :: '>' :: rest) + 2 = posOf src rest :=
      posOf_add (t := ['/', '>']) (hskipped hs hskip)
    rw [tagTail_round acc hs hskip, landing_ok, ← htwo]
    rfl
  | case3 acc s rest hskip =>
    rw [tagTail_round acc hs hskip, landing_ok, ← posOf_cons (by decide) (hskipped hs hskip)]
    rfl
  | case4 acc s rest hne hskip ih =>
    have hrest := hskipped hs hskip
    have hself : ¬['/', '>'].isPrefixOf ('/' :: rest) = true := by
      rw [List.isPrefixOf_iff_prefix, List.cons_prefix_cons]
      rintro ⟨-, u, hu⟩
      exact hne u hu.symm
    rw [← ih ((List.suffix_cons _ _).trans hrest)]
    refine tagTail_next hs hskip (by simp) hself (not_isPrefixOf_cons (by decide) rest)
      (List.suffix_cons _ _) (Nat.lt_succ_self _) ?_
    rw [tagPiece, if_pos (isPrefixOf_singleton.2 ⟨rest, rfl⟩), posOf_cons (by decide) hrest]
  | case5 acc s c rest hslash hclose hother hskip e hread =>
    rw [tagTail_round acc hs hskip, if_neg (by simp), if_neg (not_isPrefixOf_cons hother rest),
      if_neg (not_isPrefixOf_cons hclose rest), tagPiece, if_neg (not_isPrefixOf_cons hother rest),
      nextAttribute_eq (hskipped hs hskip), hread]
    rfl
  | case6 acc s c rest hslash hclose hother hskip a after hread kept ih =>
    have hafter : after <:+ c :: rest := readAttribute_suffix hread
    rw [← ih (hafter.trans (hskipped hs hskip))]
    refine tagTail_next hs hskip (by simp) (not_isPrefixOf_cons hother rest)
      (not_isPrefixOf_cons hclose rest) hafter (readAttribute_length hread) ?_
    rw [tagPiece, if_neg (not_isPrefixOf_cons hother rest), nextAttribute_eq (hskipped hs hskip),
      hread]
    rfl

/-- What a closing tag has behind its name. -/
theorem readClosing_of_tagName {total : Nat} {tag : String} {u : List Char}
    (hname : readTagName total s = .ok (tag, u)) :
    readClosing total s =
      match skipBlanks u with
      | [] => .error (.unexpectedEnd total .closingTag)
      | '>' :: rest => .ok (.closing tag, rest)
      | rest => .error (.invalidName (offsetOf total rest)) := by
  rw [readClosing, hname]
  rfl

theorem closeTag_eq (hs : '<' :: '/' :: s <:+ src) :
    closeTag src (posOf src ('<' :: '/' :: s)) = landing src (readClosing (byteSize src) s) := by
  have hrest : s <:+ src := (List.suffix_cons _ _).trans ((List.suffix_cons _ _).trans hs)
  rw [closeTag, posOf_two hs, tagName_eq hrest]
  cases hname : readTagName (byteSize src) s with
  | error e =>
    rw [readClosing, hname]
    rfl
  | ok x =>
    obtain ⟨tag, u⟩ := x
    have hu : u <:+ src := (readTagName_suffix hname).trans hrest
    have hskipped : skipBlanks u <:+ src := (skipBlanks_suffix u).trans hu
    rw [landing_ok, pure_bind]
    dsimp only
    rw [skipWhitespace_eq hu, pure_bind, lift_bind (sliceFrom_posOf hskipped)]
    rw [readClosing_of_tagName hname]
    generalize skipBlanks u = v at hskipped
    split
    · rename_i hend
      obtain ⟨rest, rfl⟩ := isPrefixOf_singleton.1 hend
      rw [posOf_cons (by decide) hskipped]
      rfl
    · rename_i hend
      split
      · rename_i hlt
        split
        · exact absurd hlt (Nat.lt_irrefl _)
        · exact absurd rfl hend
        · rfl
      · rename_i hlt
        split
        · rfl
        · exact absurd rfl hend
        · rename_i hne _
          exact absurd (posOf_lt hskipped hne) hlt

theorem openTag_eq (hs : '<' :: s <:+ src) :
    openTag src (posOf src ('<' :: s)) = landing src (readOpening (byteSize src) s) := by
  have hrest : s <:+ src := (List.suffix_cons _ _).trans hs
  rw [openTag, posOf_cons (by decide) hs, tagName_eq hrest, readOpening]
  cases hname : readTagName (byteSize src) s with
  | error e => rfl
  | ok x =>
    obtain ⟨tag, u⟩ := x
    have hu : u <:+ src := (readTagName_suffix hname).trans hrest
    rw [landing_ok, pure_bind]
    dsimp only
    rw [tagTail_eq hu]
    show _ = landing src (readAttributes (byteSize src) [] u >>= fun x ↦
      pure (Token.opening tag x.1.1 x.1.2, x.2))
    cases readAttributes (byteSize src) [] u <;> rfl

end Readers

end Markup.Bytewise

end DataBinding
