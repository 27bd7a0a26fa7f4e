import DataBinding.Proofs.Markup.ParserGrammar

/-!
# Where markup is refused

The parser refuses markup at the first thing that is wrong.  What comes before is a row of tokens,
and all that matters of it is which elements it leaves open: `Leaves s tags rest` says that `s`, up
to `rest`, is such a row.  `Refused total tags rest e` says that with those elements open nothing
can be read at `rest`, and why.

**Markup is refused exactly at such a place** (`parse_eq_error_iff`).  There is one half for each
direction: `exists_refused_of_readAll` goes along the reader, `Leaves.exists_reading` along the row.
-/

set_option autoImplicit false

namespace DataBinding

open Document

/-- Where an error was found. -/
def MarkupError.offset : MarkupError → Nat
  | .unexpectedEnd n _ | .unexpectedClose _ n | .mismatchedClose _ _ n | .invalidName n => n

namespace Markup

/-! ## What the readers refuse -/

section Readers

variable {total : Nat} {s rest : List Char} {e : MarkupError}

/-- What a reader finds wrong: the input ends, or before its end there is something that cannot
stand there. -/
inductive Misread (total : Nat) (s : List Char) : MarkupError → Prop
  | ended (inside : Construct) : Misread total s (.unexpectedEnd total inside)
  | name {u : List Char} (hu : u <:+ s) (hne : u ≠ []) :
      Misread total s (.invalidName (offsetOf total u))

theorem Misread.mono {t : List Char} (h : Misread total s e) (hst : s <:+ t) :
    Misread total t e := by
  cases h with
  | ended inside => exact .ended inside
  | name hu hne => exact .name (hu.trans hst) hne

theorem skipBlanks_suffix (s : List Char) : skipBlanks s <:+ s := List.dropWhile_suffix _

theorem readTagName_eq_error_iff : readTagName total s = .error e ↔
    s.head?.any Char.isAlpha = false ∧ e = .invalidName (offsetOf total s) := by
  rw [readTagName]
  split
  · rename_i hs
    simp [hs]
  · rename_i hs
    simp [hs, eq_comm]

theorem readTagName_suffix {tag : String} (h : readTagName total s = .ok (tag, rest)) :
    rest <:+ s := by
  obtain ⟨name, rfl, -⟩ := readTagName_eq_ok_iff.1 h
  exact List.suffix_append ..

/-- A value in quotes misses its end. -/
theorem quotedValue_eq_error {quote : Char}
    (h : (match s.dropWhile (· != quote) with
      | [] => .error (.unexpectedEnd total .attributeValue)
      | _ :: after => .ok (String.ofList (decodeChars (s.takeWhile (· != quote))), after) :
        Except MarkupError (String × List Char)) = .error e) :
    e = .unexpectedEnd total .attributeValue := by
  split at h
  · cases h
    rfl
  · cases h

theorem readAttributeValue_eq_error (h : readAttributeValue total s = .error e) :
    e = .unexpectedEnd total .attributeValue := by
  unfold readAttributeValue at h
  split at h
  · exact quotedValue_eq_error h
  · exact quotedValue_eq_error h
  · cases h

/-- An attribute cannot be read because its value does not end or because there is no name. -/
theorem readAttribute_eq_error (h : readAttribute total s = .error e) :
    e = .unexpectedEnd total .attributeValue ∨
      s.head?.any isAttributeChar = false ∧ e = .invalidName (offsetOf total s) := by
  rw [readAttribute] at h
  split at h
  · left
    split at h
    · split at h
      · cases h
      · rename_i hvalue
        cases h
        exact readAttributeValue_eq_error hvalue
    · cases h
  · rename_i hs
    cases h
    exact .inr ⟨by simpa using hs, rfl⟩

theorem readAttribute_suffix {a : String × String} (h : readAttribute total s = .ok (a, rest)) :
    rest <:+ s := by
  obtain ⟨t, blanks, rfl, -⟩ := attribute_of_readAttribute h
  exact (List.suffix_append ..).trans (List.suffix_append ..)

theorem readAttributes_eq_error {acc : List (String × String)}
    (h : readAttributes total acc s = .error e) : Misread total s e := by
  fun_induction readAttributes total acc s with
  | case1 =>
    cases h
    exact .ended .tag
  | case2 | case3 => cases h
  | case4 acc s rest _ hs ih =>
    have hrest : rest <:+ s := (List.suffix_cons '/' rest).trans (hs ▸ skipBlanks_suffix s)
    exact (ih h).mono hrest
  | case5 acc s c rest _ _ _ hs e' hread =>
    cases h
    rcases readAttribute_eq_error hread with rfl | ⟨-, rfl⟩
    · exact .ended .attributeValue
    · exact .name (hs ▸ skipBlanks_suffix s) (by simp)
  | case6 acc s c rest _ _ _ hs a after hread kept ih =>
    have hafter : after <:+ s := (readAttribute_suffix hread).trans (hs ▸ skipBlanks_suffix s)
    exact (ih h).mono hafter

/-- Nothing at all is no name. -/
theorem readTagName_eq_error (h : readTagName total s = .error e) :
    Misread total s e ∨ s = [] ∧ e = .invalidName total := by
  obtain ⟨-, rfl⟩ := readTagName_eq_error_iff.1 h
  by_cases hs : s = []
  · subst hs
    exact .inr ⟨rfl, rfl⟩
  · exact .inl (.name List.suffix_rfl hs)

theorem readOpening_eq_error (h : readOpening total s = .error e) :
    Misread total s e ∨ s = [] ∧ e = .invalidName total := by
  rw [readOpening] at h
  cases hname : readTagName total s with
  | error e' =>
    rw [hname] at h
    cases h
    exact readTagName_eq_error hname
  | ok p =>
    rw [hname] at h
    cases htail : readAttributes total [] p.2 with
    | error e' =>
      simp only [bind, Except.bind, htail] at h
      cases h
      exact .inl ((readAttributes_eq_error htail).mono (readTagName_suffix hname))
    | ok q =>
      simp only [bind, Except.bind, htail] at h
      cases h

theorem readClosing_eq_error (h : readClosing total s = .error e) :
    Misread total s e ∨ s = [] ∧ e = .invalidName total := by
  rw [readClosing] at h
  cases hname : readTagName total s with
  | error e' =>
    rw [hname] at h
    cases h
    exact readTagName_eq_error hname
  | ok p =>
    rw [hname] at h
    simp only [bind, Except.bind] at h
    split at h
    · cases h
      exact .inl (.ended .closingTag)
    · cases h
    · rename_i hnil _
      cases h
      exact .inl (.name ((skipBlanks_suffix _).trans (readTagName_suffix hname)) hnil)

/-- **A token that cannot be read.**  At the end of the input a name is missed only right behind the
characters that a tag begins with. -/
theorem nextToken_eq_error (h : nextToken total s = .error e) :
    Misread total s e ∨ (s = ['<'] ∨ s = ['<', '/']) ∧ e = .invalidName total := by
  unfold nextToken at h
  split at h
  · split at h
    · cases h
    · cases h
      exact .inl (.ended .comment)
  · split at h
    · cases h
    · cases h
      exact .inl (.ended .declaration)
  · rename_i u
    rcases readClosing_eq_error h with h | ⟨rfl, rfl⟩
    · exact .inl (h.mono ((List.suffix_cons ..).trans (List.suffix_cons ..)))
    · exact .inr ⟨.inr rfl, rfl⟩
  · rename_i u _ _ _
    rcases readOpening_eq_error h with h | ⟨rfl, rfl⟩
    · exact .inl (h.mono (List.suffix_cons ..))
    · exact .inr ⟨.inl rfl, rfl⟩
  · cases h

end Readers

/-! ## Rows of tokens -/

/-- The elements that are open after a token, innermost first, if the token may come here. -/
def openAfter? (tags : List String) : Token → Option (List String)
  | .text _ | .skipped => some tags
  | .opening tag _ closes => some (if closes || isVoid tag then tags else tag :: tags)
  | .closing tag => if tags.head? = some tag then some tags.tail else none

/-- A text up to some rest is a row of tokens that leaves elements open, innermost first. -/
inductive Leaves (s : List Char) : List String → List Char → Prop
  | start : Leaves s [] s
  | token {tags tags' : List String} {t rest : List Char} {token : Token}
      (h : Leaves s tags (t ++ rest)) (ht : Lexeme t token) (hends : token.Ends rest)
      (htags : openAfter? tags token = some tags') : Leaves s tags' rest

/-- What is wrong with what is left of the input, while elements are open. -/
inductive Refused (total : Nat) : List String → List Char → MarkupError → Prop
  | unfinished {tag : String} {tags : List String} :
      Refused total (tag :: tags) [] (.unexpectedEnd total .element)
  | token {tags : List String} {s : List Char} {e : MarkupError} (hs : s ≠ [])
      (h : nextToken total s = .error e) : Refused total tags s e
  | unexpected {t rest : List Char} {tag : String} (ht : Lexeme t (.closing tag)) :
      Refused total [] (t ++ rest) (.unexpectedClose tag (offsetOf total (t ++ rest)))
  | mismatched {t rest : List Char} {tag expected : String} {tags : List String}
      (ht : Lexeme t (.closing tag)) (htag : tag ≠ expected) :
      Refused total (expected :: tags) (t ++ rest)
        (.mismatchedClose expected tag (offsetOf total (t ++ rest)))

end Markup

open Markup

variable {total : Nat} {d : Document} {pending : List (NodeId × String)} {s t rest : List Char}
  {tags : List String} {token : Token} {e : MarkupError}

theorem Markup.Leaves.suffix (h : Leaves s tags rest) : rest <:+ s := by
  induction h with
  | start => exact List.suffix_rfl
  | token _ _ _ _ ih => exact (List.suffix_append ..).trans ih

/-! ## Placing a token -/

/-- A token is placed exactly if it may come here, and then the tags that are open are as they
should be. -/
theorem exists_place_iff {tags' : List String} :
    (∃ d' pending', place total s d pending token = .ok (d', pending') ∧
        pending'.map Prod.snd = tags') ↔
      openAfter? (pending.map Prod.snd) token = some tags' := by
  cases token with
  | text x => simp [place, openAfter?]
  | skipped => simp [place, openAfter?]
  | opening tag as closes =>
    simp only [place, openAfter?, Except.ok.injEq, Prod.mk.injEq, Option.some.injEq]
    cases closes || isVoid tag <;> simp
  | closing tag =>
    cases pending with
    | nil => simp [place, openAfter?]
    | cons innermost pending =>
      by_cases htag : tag = innermost.2
      · simp [place, openAfter?, htag]
      · simp [place, openAfter?, htag, Ne.symm htag]

/-- A token that is not placed is a closing tag. -/
theorem refused_of_place (ht : Lexeme t token)
    (h : place total (t ++ rest) d pending token = .error e) :
    Refused total (pending.map Prod.snd) (t ++ rest) e := by
  cases token with
  | text | skipped | opening => cases h
  | closing tag =>
    cases pending with
    | nil =>
      cases h
      exact .unexpected ht
    | cons innermost pending =>
      rw [place] at h
      split at h
      · cases h
      · rename_i htag
        cases h
        exact .mismatched ht htag

/-! ## Reading up to the place -/

/-- Where the parser stops, it is refused to go on. -/
theorem exists_refused_of_readAll {u : List Char} (h : readAll total d pending u = .error e)
    (hu : Leaves s (pending.map Prod.snd) u) :
    ∃ tags rest, Leaves s tags rest ∧ Refused total tags rest e := by
  induction d, pending, u using readAll.induct total with
  | case1 d pending hpending =>
    rw [readAll_nil, if_pos hpending] at h
    cases h
  | case2 d pending hpending =>
    rw [readAll_nil, if_neg hpending] at h
    cases h
    cases pending with
    | nil => exact absurd rfl hpending
    | cons innermost pending => exact ⟨_, _, hu, .unfinished⟩
  | case3 d pending u hne error hnext =>
    rw [readAll_of_error hne hnext] at h
    cases h
    exact ⟨_, _, hu, .token hne hnext⟩
  | case4 d pending u hne token rest hnext error hplace =>
    rw [readAll_of_token hne hnext, hplace] at h
    cases h
    obtain ⟨t, rfl, ht, -⟩ := (nextToken_eq_ok_iff hne).1 hnext
    exact ⟨_, _, hu, refused_of_place ht hplace⟩
  | case5 d pending u hne token rest hnext d₁ pending₁ hplace ih =>
    rw [readAll_of_token hne hnext, hplace] at h
    obtain ⟨t, rfl, ht, hends⟩ := (nextToken_eq_ok_iff hne).1 hnext
    exact ih h (.token hu ht hends (exists_place_iff.1 ⟨_, _, hplace, rfl⟩))

/-- The parser reads a row of tokens, and then has the right elements open. -/
theorem Markup.Leaves.exists_reading (h : Leaves s tags rest) :
    ∃ d pending, pending.map Prod.snd = tags ∧
      readAll total .empty [] s = readAll total d pending rest := by
  induction h with
  | start => exact ⟨.empty, [], rfl, rfl⟩
  | token _ ht hends htags ih =>
    obtain ⟨d, pending, rfl, hread⟩ := ih
    obtain ⟨d', pending', hplace, htags'⟩ := exists_place_iff.2 htags
    exact ⟨d', pending', htags', hread.trans (readAll_step ht hends hplace)⟩

theorem readAll_of_refused (h : Refused total tags s e) (hpending : pending.map Prod.snd = tags) :
    readAll total d pending s = .error e := by
  -- A closing tag is read; that it cannot be placed is what is wrong.
  have hclosing : ∀ {t rest : List Char} {tag : String}, Lexeme t (.closing tag) →
      place total (t ++ rest) d pending (.closing tag) = .error e →
        readAll total d pending (t ++ rest) = .error e := by
    intro t rest tag ht hplace
    have hne : t ++ rest ≠ [] := fun hnil ↦ ht.ne_nil (List.append_eq_nil_iff.1 hnil).1
    have hnext : nextToken total (t ++ rest) = .ok (.closing tag, rest) :=
      (nextToken_eq_ok_iff hne).2 ⟨t, rfl, ht, fun _ htext ↦ by cases htext⟩
    rw [readAll_of_token hne hnext, hplace]
  cases h with
  | unfinished =>
    rw [readAll_nil, if_neg]
    intro hnil
    rw [List.isEmpty_iff.1 hnil] at hpending
    cases hpending
  | token hs hnext => exact readAll_of_error hs hnext
  | unexpected ht =>
    refine hclosing ht ?_
    rw [List.map_eq_nil_iff.1 hpending, place]
  | mismatched ht htag =>
    refine hclosing ht ?_
    obtain ⟨innermost, pending', rfl, rfl, -⟩ := List.map_eq_cons_iff.1 hpending
    rw [place, if_neg htag]

/-- **Markup is refused** exactly where a row of tokens is followed by something that cannot be read
while the elements that the row leaves open are open. -/
theorem parse_eq_error_iff {markup : String} :
    parse markup = .error e ↔
      ∃ tags rest, Leaves markup.toList tags rest ∧
        Refused (Text.byteSize markup.toList) tags rest e := by
  constructor
  · intro h
    exact exists_refused_of_readAll h .start
  · rintro ⟨tags, rest, hleaves, hrefused⟩
    obtain ⟨d, pending, hpending, hread⟩ := hleaves.exists_reading
    rw [parse, hread]
    exact readAll_of_refused hrefused hpending

end DataBinding
