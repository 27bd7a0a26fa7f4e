import DataBinding.Proofs.Markup.ByteParser

/-!
# The parser keeps its footing

Whatever the input is, the parser by byte positions cuts it only at boundaries between characters,
and each round of its loops advances (`Bytewise.parse_eq`).  It comes to the same document as the
parser by characters, or to the same error, so what errors say of positions is settled along the
rows of tokens that lead to them (`liesIn_of_parse`).
-/

set_option autoImplicit false

namespace DataBinding

open Text

namespace Markup.Bytewise

section Readers

variable {src s : List Char}

/-! ## Tokens -/

/-- **The end of a comment is found where the reader finds it.** -/
theorem findText_commentEnd (s : List Char) :
    (findText ['-', '-', '>'] s = none ∧ afterComment? s = none) ∨
      ∃ body rest, s = body ++ ['-', '-', '>'] ++ rest ∧
        findText ['-', '-', '>'] s = some (byteSize body) ∧ afterComment? s = some rest := by
  fun_induction afterComment? s with
  | case1 => exact .inl ⟨rfl, rfl⟩
  | case2 rest =>
    have hprefix : ['-', '-', '>'].isPrefixOf ('-' :: '-' :: '>' :: rest) = true :=
      isPrefixOf_iff.2 ⟨rest, rfl⟩
    exact .inr ⟨[], rest, rfl, by rw [findText, if_pos hprefix, byteSize], rfl⟩
  | case3 c rest hne ih =>
    have hnot : ¬['-', '-', '>'].isPrefixOf (c :: rest) = true := by
      intro h
      obtain ⟨u, hu⟩ := isPrefixOf_iff.1 h
      obtain ⟨rfl, hrest⟩ := List.cons_eq_cons.1 hu
      exact hne u rfl hrest
    rw [findText, if_neg hnot]
    rcases ih with ⟨hnone, hafter⟩ | ⟨body, rest', rfl, hsome, hafter⟩
    · exact .inl ⟨by rw [hnone, Option.map_none], hafter⟩
    · exact .inr ⟨c :: body, rest', rfl, by rw [hsome, Option.map_some, byteSize], hafter⟩

/-- A declaration ends at the first closing bracket. -/
theorem findChar_declaration (hs : '<' :: '!' :: s <:+ src) :
    (findChar '>' ('<' :: '!' :: s) = none ∧ afterDeclaration? s = none) ∨
      ∃ i rest, findChar '>' ('<' :: '!' :: s) = some i ∧ afterDeclaration? s = some rest ∧
        posOf src ('<' :: '!' :: s) + (i + 1) = posOf src rest := by
  by_cases hmem : '>' ∈ s
  · obtain ⟨t, u, rfl, ht⟩ := List.eq_append_cons_of_mem hmem
    have hbehind : '>' ∉ '<' :: '!' :: t := by simpa using ht
    have hsplit : ('<' :: '!' :: t ++ ['>']) ++ u <:+ src := by simpa using hs
    have hnext := posOf_add hsplit
    rw [byteSize_append, List.append_assoc] at hnext
    refine .inr ⟨_, u, findChar_append hbehind u, ?_, hnext⟩
    rw [afterDeclaration?, (dropWhile_ne_append ht u).1]
  · have hpass : ∀ c ∈ s, (c != '>') = true := fun c hc ↦ bne_iff_ne.2 fun heq ↦ hmem (heq ▸ hc)
    refine .inl ⟨findChar_eq_none (by simpa using hmem), ?_⟩
    rw [afterDeclaration?, List.dropWhile_eq_nil_iff.2 hpass]

theorem nextToken_comment (total : Nat) (s : List Char) :
    nextToken total ('<' :: '!' :: '-' :: '-' :: s) =
      match afterComment? s with
      | some rest => .ok (.skipped, rest)
      | none => .error (.unexpectedEnd total .comment) := rfl

/-- A comment ends where its end is found. -/
theorem posOf_comment {body after : List Char}
    (hs : '<' :: '!' :: '-' :: '-' :: (body ++ ['-', '-', '>'] ++ after) <:+ src) :
    posOf src ('<' :: '!' :: '-' :: '-' :: (body ++ ['-', '-', '>'] ++ after)) +
      (4 + byteSize body + 3) = posOf src after := by
  have hsplit : (['<', '!', '-', '-'] ++ body ++ ['-', '-', '>']) ++ after <:+ src := by
    simpa using hs
  have hopen : byteSize ['<', '!', '-', '-'] = 4 := rfl
  have hclose : byteSize ['-', '-', '>'] = 3 := rfl
  have h := posOf_add hsplit
  rw [byteSize_append, byteSize_append, hopen, hclose] at h
  simpa using h

/-- **What an angle bracket begins.** -/
theorem markup_eq (hs : '<' :: s <:+ src) :
    markup src (posOf src ('<' :: s)) = landing src (nextToken (byteSize src) ('<' :: s)) := by
  rw [markup, lift_bind (sliceFrom_posOf hs)]
  split
  · rename_i hcomment
    obtain ⟨rest, hrest⟩ := isPrefixOf_iff.1 hcomment
    obtain rfl : s = '!' :: '-' :: '-' :: rest := (List.cons_eq_cons.1 hrest).2
    have hfour : sliceFrom 4 ('<' :: '!' :: '-' :: '-' :: rest) = .ok rest :=
      sliceFrom_eq_ok_iff.2 ⟨['<', '!', '-', '-'], rfl, rfl⟩
    rw [lift_bind hfour, nextToken_comment]
    rcases findText_commentEnd rest with ⟨hnone, hafter⟩ | ⟨body, after, rfl, hsome, hafter⟩
    · rw [hnone, hafter]
      rfl
    · rw [hsome, hafter]
      dsimp only
      rw [posOf_comment hs, landing_ok]
  · rename_i hcomment
    split
    · rename_i hbang
      obtain ⟨rest, hrest⟩ := isPrefixOf_iff.1 hbang
      obtain rfl : s = '!' :: rest := (List.cons_eq_cons.1 hrest).2
      have hnot : ¬['-', '-'] <+: rest := by
        rintro ⟨u, rfl⟩
        exact hcomment (isPrefixOf_iff.2 ⟨u, rfl⟩)
      rw [nextToken_declaration _ hnot]
      rcases findChar_declaration hs with ⟨hnone, hafter⟩ | ⟨i, after, hsome, hafter, hnext⟩
      · rw [hnone, hafter]
        rfl
      · rw [hsome, hafter]
        dsimp only
        rw [hnext, landing_ok]
    · rename_i hbang
      split
      · rename_i hslash
        obtain ⟨rest, hrest⟩ := isPrefixOf_iff.1 hslash
        obtain rfl : s = '/' :: rest := (List.cons_eq_cons.1 hrest).2
        exact closeTag_eq hs
      · rename_i hslash
        rw [openTag_eq hs]
        cases s with
        | nil => rfl
        | cons c s =>
          have hbang' : c ≠ '!' := by
            rintro rfl
            exact hbang (isPrefixOf_iff.2 ⟨s, rfl⟩)
          have hslash' : c ≠ '/' := by
            rintro rfl
            exact hslash (isPrefixOf_iff.2 ⟨s, rfl⟩)
          rw [nextToken_tag _ hbang' hslash']

/-- **A text ends at the next angle bracket**, or with the input. -/
theorem text_eq (hs : s <:+ src) :
    text src (posOf src s) = landing src (.ok (.text (String.ofList
      (decodeChars (s.takeWhile (· != '<')))), s.dropWhile (· != '<'))) := by
  have hend : posOf src s + byteSize s = byteSize src := by
    have hsplit : s ++ [] <:+ src := by rwa [List.append_nil]
    have h := posOf_add hsplit
    rwa [List.append_nil] at h
  have hstop : ((findChar '<' s).map (posOf src s + ·)).getD (byteSize src) =
      posOf src (s.dropWhile (· != '<')) := by
    rw [← hend, Option.getD_map, getD_findChar, posOf_dropWhile hs]
  have hslice : slice (posOf src s) (posOf src (s.dropWhile (· != '<'))) src =
      .ok (s.takeWhile (· != '<')) := by
    rw [← posOf_dropWhile hs]
    obtain ⟨before, rfl⟩ := hs
    have h := slice_append before (s.takeWhile (· != '<')) (s.dropWhile (· != '<'))
    rwa [List.append_assoc, List.takeWhile_append_dropWhile, ← posOf_append before s] at h
  rw [text, lift_bind (sliceFrom_posOf hs)]
  dsimp only
  rw [hstop, lift_bind hslice, lift_bind (decode_eq _)]
  rfl

/-- **A token.** -/
theorem token_eq (hs : s <:+ src) :
    token src (posOf src s) = landing src (nextToken (byteSize src) s) := by
  rw [token, lift_bind (sliceFrom_posOf hs)]
  split
  · rename_i hbracket
    obtain ⟨u, rfl⟩ := isPrefixOf_singleton.1 hbracket
    exact markup_eq hs
  · rename_i hbracket
    have hhead : s.head? ≠ some '<' := fun h ↦
      hbracket (isPrefixOf_singleton.2 (List.head?_eq_some_iff.1 h))
    rw [text_eq hs, nextToken_text _ hhead]

end Readers

/-! ## The whole input -/

/-- **The scanner does not slip**, and puts what it reads where the parser puts it. -/
theorem run_eq {src s : List Char} {d : Document} {pending : List (NodeId × String)}
    (hs : s <:+ src) :
    run src d pending (posOf src s) =
      ExceptT.mk (.ok (Document.readAll (byteSize src) d pending s)) := by
  -- Where a token has been read, only what it does to the document matters.
  have hplaced :
      ∀ (d : Document) (pending : List (NodeId × String)) (s : List Char) (token : Token),
        Document.place (posOf src s) [] d pending token =
        Document.place (byteSize src) s d pending token := fun _ _ _ token ↦ by
    cases token <;> rfl
  induction d, pending, s using Document.readAll.induct (byteSize src) with
  | case1 d pending hpending =>
    rw [run, posOf_nil, if_neg (Nat.lt_irrefl _), Document.readAll_nil, if_pos hpending,
      if_pos hpending]
    rfl
  | case2 d pending hpending =>
    rw [run, posOf_nil, if_neg (Nat.lt_irrefl _), Document.readAll_nil, if_neg hpending,
      if_neg hpending]
    rfl
  | case3 d pending s hne e hnext =>
    rw [run, if_pos (posOf_lt hs hne), token_eq hs, hnext, Document.readAll_of_error hne hnext]
    rfl
  | case4 d pending s hne token rest hnext e hplace =>
    rw [run, if_pos (posOf_lt hs hne), token_eq hs, hnext, Document.readAll_of_token hne
      hnext, landing_ok, pure_bind]
    dsimp only
    rw [hplaced, hplace]
    rfl
  | case5 d pending s hne token rest hnext d₁ pending₁ hplace ih =>
    obtain ⟨t, rfl, -⟩ := (nextToken_eq_ok_iff hne).1 hnext
    have hrest : rest <:+ t ++ rest := List.suffix_append ..
    have hadvance : posOf src (t ++ rest) < posOf src rest ∧ posOf src rest ≤ byteSize src :=
      ⟨posOf_lt_posOf hs hrest (nextToken_length hne hnext), posOf_le src rest⟩
    rw [run, if_pos (posOf_lt hs hne), token_eq hs, hnext, Document.readAll_of_token hne
      hnext, landing_ok, pure_bind]
    dsimp only
    rw [hplaced, hplace]
    dsimp only
    rw [dif_pos hadvance]
    exact ih (hrest.trans hs)

/-- **No input makes the scanner slip.** -/
theorem parse_eq (markup : String) : parse markup = .ok (Document.parse markup) := by
  have h : run markup.toList .empty [] (posOf markup.toList markup.toList) =
      ExceptT.mk (.ok (Document.parse markup)) := run_eq (List.suffix_refl _)
  rw [posOf_self] at h
  exact h

end Markup.Bytewise

/-! ## Where errors lie -/

/-- What the position of an error has to do with the input: the end of the input is missed at its
end, and a closing tag is refused where it begins. -/
def MarkupError.LiesIn (s : List Char) : MarkupError → Prop
  | .unexpectedEnd n _ => n = byteSize s
  | .unexpectedClose tag n => ∃ before t after, s = before ++ (t ++ after) ∧ byteSize before = n ∧
      Markup.Lexeme t (.closing tag) ∧ Markup.Leaves s [] (t ++ after)
  | .mismatchedClose expected tag n => ∃ before t after tags, s = before ++ (t ++ after) ∧
      byteSize before = n ∧ Markup.Lexeme t (.closing tag) ∧ tag ≠ expected ∧
      Markup.Leaves s (expected :: tags) (t ++ after)
  | .invalidName n => Boundary s n

namespace Markup

variable {s u : List Char} {e : MarkupError}

theorem boundary_posOf (hu : u <:+ s) : Boundary s (offsetOf (byteSize s) u) := by
  obtain ⟨t, rfl⟩ := hu
  exact ⟨t, u, rfl, (Bytewise.posOf_append t u).symm⟩

theorem boundary_byteSize (s : List Char) : Boundary s (byteSize s) := ⟨s, [], by simp, rfl⟩

theorem Misread.liesIn (h : Misread (byteSize s) u e) (hu : u <:+ s) : e.LiesIn s := by
  cases h with
  | ended inside => rfl
  | name hv hne => exact boundary_posOf (hv.trans hu)

/-- **What is refused is refused where it is.** -/
theorem Refused.liesIn {tags : List String} (h : Refused (byteSize s) tags u e)
    (hleaves : Leaves s tags u) : e.LiesIn s := by
  have hsplit : ∃ before, s = before ++ u ∧ byteSize before = offsetOf (byteSize s) u := by
    obtain ⟨before, rfl⟩ := hleaves.suffix
    exact ⟨before, rfl, (Bytewise.posOf_append before u).symm⟩
  obtain ⟨before, hs, hsize⟩ := hsplit
  cases h with
  | unfinished => rfl
  | token hne hnext =>
    rcases nextToken_eq_error hnext with hmisread | ⟨-, rfl⟩
    · exact hmisread.liesIn hleaves.suffix
    · exact boundary_byteSize s
  | unexpected ht => exact ⟨before, _, _, hs, hsize, ht, hleaves⟩
  | mismatched ht htag => exact ⟨before, _, _, _, hs, hsize, ht, htag, hleaves⟩

end Markup

/-- An error lies at a boundary of the input. -/
theorem MarkupError.LiesIn.boundary {s : List Char} {e : MarkupError} (h : e.LiesIn s) :
    Boundary s e.offset := by
  cases e with
  | unexpectedEnd n inside =>
    obtain rfl : n = byteSize s := h
    exact Markup.boundary_byteSize s
  | unexpectedClose tag n =>
    obtain ⟨before, t, after, hs, hsize, -⟩ := h
    exact ⟨before, t ++ after, hs, hsize⟩
  | mismatchedClose expected tag n =>
    obtain ⟨before, t, after, -, hs, hsize, -⟩ := h
    exact ⟨before, t ++ after, hs, hsize⟩
  | invalidName n => exact h

theorem liesIn_of_parse {markup : String} {e : MarkupError}
    (h : Document.parse markup = .error e) : e.LiesIn markup.toList := by
  obtain ⟨tags, rest, hleaves, hrefused⟩ := parse_eq_error_iff.1 h
  exact hrefused.liesIn hleaves

/-- **The parser never cuts where it must not, and always comes to an end.**  Every cut of the
input, and of a text whose entities are decoded, is at a boundary, and every round of a loop
advances, or the scanner would have slipped.  On failure the position is a boundary of the input,
too; where the input ends too early it is the end, and where a closing tag is wrong it is the start
of that tag. -/
theorem never_slips (markup : String) :
    Markup.Bytewise.parse markup = .ok (Document.parse markup) ∧
      (∀ text, Markup.Bytewise.decode text = .ok (Markup.decodeChars text)) ∧
      ∀ e, Document.parse markup = .error e →
        e.offset ≤ byteSize markup.toList ∧ Boundary markup.toList e.offset ∧
          e.LiesIn markup.toList := by
  refine ⟨Markup.Bytewise.parse_eq markup, Markup.Bytewise.decode_eq, fun e he ↦ ?_⟩
  have hlies := liesIn_of_parse he
  exact ⟨hlies.boundary.le, hlies.boundary, hlies⟩

/-- The letter before the closing tag takes two bytes, and there is no boundary in between. -/
theorem never_slips_of_accent :
    Markup.Bytewise.parse "<p>é</b>" = .ok (.error (.mismatchedClose "p" "b" 5)) ∧
      Boundary "<p>é</b>".toList 5 ∧ ¬Boundary "<p>é</b>".toList 4 := by
  have herror : Document.parse "<p>é</b>" = .error (.mismatchedClose "p" "b" 5) := by decide +kernel
  obtain ⟨hparse, -, hlies⟩ := never_slips "<p>é</b>"
  obtain ⟨-, hboundary, -⟩ := hlies _ herror
  refine ⟨hparse.trans (congrArg _ herror), hboundary, ?_⟩
  rw [boundary_iff]
  decide +kernel

end DataBinding
