import DataBinding.Proofs.Markup.RefusedMarkup

/-!
# Markup that goes on

What is wrong with markup stays wrong, whatever comes after it, if the parser has seen what is
wrong; if it only has seen the input end, more input may be the cure.  So a reader whose error lies
before the end of the input gives the same error when the input goes on, and each reader has a lemma
that says so, up to `Refused.append`.

The end of the input should therefore be reported as such wherever it is what is wrong.  It is not
in one place: behind the `<` or the `</` that a tag begins with, where a name is missing that may
yet come.  `AtOpener` are the inputs that end there, and they are the only exception
(`lasting_iff`).
-/

set_option autoImplicit false

namespace DataBinding

open Document

namespace Markup

variable {total : Nat} {s rest : List Char} {e : MarkupError}

theorem offsetOf_append (total : Nat) (s t : List Char) :
    offsetOf (total + Text.byteSize t) (s ++ t) = offsetOf total s := by
  rw [offsetOf, offsetOf, Text.byteSize_append, Nat.add_sub_add_right]

theorem byteSize_pos {s : List Char} (hs : s ≠ []) : 0 < Text.byteSize s := by
  cases s with
  | nil => exact absurd rfl hs
  | cons c s => exact Nat.lt_of_lt_of_le c.utf8Size_pos (Nat.le_add_right ..)

theorem offsetOf_lt (hs : s ≠ []) (hsize : Text.byteSize s ≤ total) : offsetOf total s < total :=
  Nat.sub_lt (Nat.lt_of_lt_of_le (byteSize_pos hs) hsize) (byteSize_pos hs)

theorem head?_append_of_ne_nil (hs : s ≠ []) (t : List Char) : (s ++ t).head? = s.head? := by
  cases s with
  | nil => exact absurd rfl hs
  | cons c s => rfl

theorem skipBlanks_append_of_ne_nil (hs : skipBlanks s ≠ []) (t : List Char) :
    skipBlanks (s ++ t) = skipBlanks s ++ t := by
  obtain ⟨blanks, hblanks, heq⟩ := exists_blanks s
  have hhead : (skipBlanks s ++ t).head?.any Text.isAsciiBlank = false := by
    rw [head?_append_of_ne_nil hs]
    exact head?_dropWhile ..
  conv_lhs => rw [heq, List.append_assoc, skipBlanks_append hblanks, skipBlanks_of_head hhead]

/-! ## Names -/

theorem readTagName_append_error (h : readTagName total s = .error e) (hs : s ≠ [])
    (t : List Char) : readTagName (total + Text.byteSize t) (s ++ t) = .error e := by
  rw [readTagName_eq_error_iff] at h ⊢
  rwa [head?_append_of_ne_nil hs, offsetOf_append]

theorem readTagName_append_ok {tag : String} (h : readTagName total s = .ok (tag, rest))
    (hrest : rest ≠ []) (t : List Char) :
    readTagName (total + Text.byteSize t) (s ++ t) = .ok (tag, rest ++ t) := by
  obtain ⟨name, rfl, hname, hend, htag⟩ := readTagName_eq_ok_iff.1 h
  refine readTagName_eq_ok_iff.2 ⟨name, List.append_assoc .., hname, ?_, htag⟩
  rwa [head?_append_of_ne_nil hrest]

/-! ## Attributes -/

theorem readAttribute_of_head (hs : s.head?.any isAttributeChar = false) :
    readAttribute total s = .error (.invalidName (offsetOf total s)) := by
  rw [readAttribute, if_neg (by simp [hs])]

theorem isAttributeChar_of_readAttribute {c : Char} {a : String × String}
    (h : readAttribute total (c :: s) = .ok (a, rest)) : isAttributeChar c = true := by
  by_contra hc
  rw [readAttribute_of_head (by simpa using hc)] at h
  cases h

/-- An attribute is read in the same way, up to blanks, if something other than blanks is left. -/
theorem readAttribute_append_ok {a : String × String} (h : readAttribute total s = .ok (a, rest))
    (hrest : skipBlanks rest ≠ []) (t : List Char) :
    ∃ rest', readAttribute (total + Text.byteSize t) (s ++ t) = .ok (a, rest') ∧
      skipBlanks rest' = skipBlanks (rest ++ t) := by
  obtain ⟨u, blanks, rfl, hblanks, ha⟩ := attribute_of_readAttribute h
  have hskip : skipBlanks (blanks ++ rest) = skipBlanks rest := skipBlanks_append hblanks rest
  have hne : blanks ++ rest ≠ [] := by
    intro hnil
    rw [hnil] at hskip
    exact hrest hskip.symm
  have ha' : Attribute u a ((blanks ++ rest) ++ t) := by
    refine ha.congr (head?_append_of_ne_nil hne t) ?_
    rw [skipBlanks_append_of_ne_nil (hskip ▸ hrest), head?_append_of_ne_nil (hskip ▸ hrest)]
  have hexists : ∃ rest', readAttribute (total + Text.byteSize t) (u ++ (blanks ++ rest ++ t)) =
      .ok (a, rest') ∧ skipBlanks rest' = skipBlanks (blanks ++ rest ++ t) :=
    readAttribute_of_attribute ha'
  obtain ⟨rest', hread, hrest'⟩ := hexists
  refine ⟨rest', by rwa [List.append_assoc], hrest'.trans ?_⟩
  rw [List.append_assoc, skipBlanks_append hblanks]

theorem readAttributes_of_skipBlanks_nil {acc : List (String × String)} (h : skipBlanks s = []) :
    readAttributes total acc s = .error (.unexpectedEnd total .tag) := by
  rw [readAttributes]
  split <;> simp_all

theorem readAttributes_of_error {acc : List (String × String)} {c : Char} {u : List Char}
    (hs : skipBlanks s = c :: u) (hslash : c ≠ '/') (hclose : c ≠ '>')
    (h : readAttribute total (c :: u) = .error e) : readAttributes total acc s = .error e := by
  rw [readAttributes]
  split <;> rename_i heq <;> rw [hs] at heq <;> cases heq
  · exact absurd rfl hslash
  · exact absurd rfl hclose
  · exact absurd rfl hslash
  · split
    · rename_i hread
      exact congrArg _ (Except.error.inj (hread.symm.trans h))
    · rename_i hread
      cases hread.symm.trans h

/-- **The rest of a tag.**  Round after round, what has been read is read again, and the error is
one of the last round. -/
theorem readAttributes_append_error {acc : List (String × String)}
    (h : readAttributes total acc s = .error e) (hend : e.offset ≠ total) (t : List Char) :
    readAttributes (total + Text.byteSize t) acc (s ++ t) = .error e := by
  -- A round that is not the last one leaves something to read.
  have hmore : ∀ {acc : List (String × String)} {s : List Char},
      readAttributes total acc s = .error e → skipBlanks s ≠ [] := by
    intro acc s h hnil
    rw [readAttributes_of_skipBlanks_nil hnil] at h
    cases h
    exact hend rfl
  have hround : ∀ {s u : List Char}, skipBlanks s = u → u ≠ [] → skipBlanks (s ++ t) = u ++ t := by
    rintro s u rfl hne
    exact skipBlanks_append_of_ne_nil hne t
  fun_induction readAttributes total acc s with
  | case1 acc s hs =>
    cases h
    exact absurd rfl hend
  | case2 | case3 => cases h
  | case4 acc s rest hne hs ih =>
    have hrest : rest ≠ [] := by
      rintro rfl
      exact hmore h rfl
    have hhead : (rest ++ t).head? ≠ some '>' := by
      rw [head?_append_of_ne_nil hrest]
      intro hclose
      obtain ⟨u, rfl⟩ := List.head?_eq_some_iff.1 hclose
      exact hne u rfl
    rw [readAttributes_slash (hround hs (by simp)) hhead]
    exact ih h
  | case5 acc s c rest hslash hclose hother hs e' hread =>
    cases h
    rcases readAttribute_eq_error hread with rfl | ⟨hc, rfl⟩
    · exact absurd rfl hend
    · refine readAttributes_of_error (hround hs (by simp)) hother hclose ?_
      rw [readAttribute_of_head (by simpa using hc)]
      exact congrArg _ (congrArg _ (offsetOf_append total (c :: rest) t))
  | case6 acc s c rest hslash hclose hother hs a after hread kept ih =>
    obtain ⟨after', hread', hafter'⟩ := readAttribute_append_ok hread (hmore h) t
    rw [readAttributes_attribute (isAttributeChar_of_readAttribute hread) (hround hs (by simp))
      hread', readAttributes_congr hafter']
    exact ih h

/-! ## Tokens -/

/-- After its name a closing tag has nothing but blanks. -/
theorem readClosing_of_name {tag : String} (hname : readTagName total s = .ok (tag, rest))
    {c : Char} {u : List Char} (hrest : skipBlanks rest = c :: u) (hc : c ≠ '>') :
    readClosing total s = .error (.invalidName (offsetOf total (c :: u))) := by
  simp only [readClosing, hname, bind, Except.bind, hrest]
  split <;> simp_all [throw, throwThe, MonadExceptOf.throw]

theorem readClosing_append_error (h : readClosing total s = .error e) (hend : e.offset ≠ total)
    (t : List Char) : readClosing (total + Text.byteSize t) (s ++ t) = .error e := by
  cases hname : readTagName total s with
  | error e' =>
    rw [readClosing, hname] at h
    cases h
    have hs : s ≠ [] := by
      rintro rfl
      cases hname
      exact hend rfl
    rw [readClosing, readTagName_append_error hname hs]
    rfl
  | ok p =>
    have hrest : skipBlanks p.2 ≠ [] := by
      intro hnil
      simp only [readClosing, hname, bind, Except.bind, hnil] at h
      cases h
      exact hend rfl
    obtain ⟨c, u, hcons⟩ := List.exists_cons_of_ne_nil hrest
    have hc : c ≠ '>' := by
      rintro rfl
      simp only [readClosing, hname, bind, Except.bind, hcons] at h
      cases h
    have hrest' : skipBlanks (p.2 ++ t) = c :: (u ++ t) := by
      rw [skipBlanks_append_of_ne_nil hrest, hcons, List.cons_append]
    have hne : p.2 ≠ [] := by
      intro hnil
      rw [hnil] at hrest
      exact hrest rfl
    rw [readClosing_of_name (readTagName_append_ok hname hne t) hrest' hc, ← h,
      readClosing_of_name hname hcons hc, ← List.cons_append, offsetOf_append]

theorem readOpening_append_error (h : readOpening total s = .error e) (hend : e.offset ≠ total)
    (t : List Char) : readOpening (total + Text.byteSize t) (s ++ t) = .error e := by
  rw [readOpening] at h ⊢
  cases hname : readTagName total s with
  | error e' =>
    rw [hname] at h
    cases h
    have hs : s ≠ [] := by
      rintro rfl
      cases hname
      exact hend rfl
    rw [readTagName_append_error hname hs]
    rfl
  | ok p =>
    obtain ⟨tag, rest⟩ := p
    rw [hname] at h
    cases htail : readAttributes total [] rest with
    | error e' =>
      simp only [bind, Except.bind, htail] at h
      cases h
      have hrest : rest ≠ [] := by
        rintro rfl
        rw [readAttributes_of_skipBlanks_nil rfl] at htail
        cases htail
        exact hend rfl
      rw [readTagName_append_ok hname hrest]
      simp only [bind, Except.bind, readAttributes_append_error htail hend]
    | ok q =>
      simp only [bind, Except.bind, htail] at h
      cases h

theorem nextToken_tag (total : Nat) {c : Char} (hbang : c ≠ '!') (hslash : c ≠ '/')
    (s : List Char) : nextToken total ('<' :: c :: s) = readOpening total (c :: s) := by
  unfold nextToken
  split <;> simp_all

/-- **A token.**  What cannot be read, and not because the input ends, cannot be read when it goes
on. -/
theorem nextToken_append_error (h : nextToken total s = .error e) (hend : e.offset ≠ total)
    (t : List Char) : nextToken (total + Text.byteSize t) (s ++ t) = .error e := by
  unfold nextToken at h
  split at h
  · split at h
    · cases h
    · cases h
      exact absurd rfl hend
  · split at h
    · cases h
    · cases h
      exact absurd rfl hend
  · exact readClosing_append_error h hend t
  · rename_i u _ hbang hslash
    cases u with
    | nil =>
      cases h
      exact absurd rfl hend
    | cons c u =>
      rw [List.cons_append, List.cons_append, nextToken_tag _ (fun hc ↦ hbang u (by rw [hc]))
        (fun hc ↦ hslash u (by rw [hc]))]
      exact readOpening_append_error h hend t
  · cases h

/-! ## The place where markup is refused -/

/-- An input ends right behind the characters that a tag begins with. -/
def AtOpener (s : List Char) : Prop := ∃ tags, Leaves s tags ['<'] ∨ Leaves s tags ['<', '/']

theorem Leaves.append {tags : List String} (h : Leaves s tags rest) (hrest : rest ≠ [])
    (t : List Char) : Leaves (s ++ t) tags (rest ++ t) := by
  induction h with
  | start => exact .start
  | @token tags tags' u rest token h hu hends htags ih =>
    have hne : u ++ rest ≠ [] := fun hnil ↦ hrest (List.append_eq_nil_iff.1 hnil).2
    have hends' : token.Ends (rest ++ t) := by
      intro x hx
      rw [head?_append_of_ne_nil hrest]
      exact hends x hx
    exact .token (List.append_assoc .. ▸ ih hne) hu hends' htags

/-- An error that is not at the end is there when the input goes on. -/
theorem Refused.append {tags : List String} (h : Refused total tags s e) (hend : e.offset ≠ total)
    (t : List Char) : Refused (total + Text.byteSize t) tags (s ++ t) e := by
  cases h with
  | unfinished => exact absurd rfl hend
  | token hs h => exact .token (by simp [hs]) (nextToken_append_error h hend t)
  | @unexpected u rest tag hu =>
    rw [List.append_assoc, ← offsetOf_append _ _ t, List.append_assoc]
    exact .unexpected hu
  | @mismatched u rest tag expected tags hu htag =>
    rw [List.append_assoc, ← offsetOf_append _ _ t, List.append_assoc]
    exact .mismatched hu htag

theorem Misread.offset_lt (h : Misread total s e) (hsize : Text.byteSize s ≤ total) :
    (∃ inside, e = .unexpectedEnd total inside) ∨ e.offset < total := by
  cases h with
  | ended inside => exact .inl ⟨inside, rfl⟩
  | name hu hne =>
    obtain ⟨before, rfl⟩ := hu
    rw [Text.byteSize_append] at hsize
    exact .inr (offsetOf_lt hne (by omega))

/-- If the error is not at the end, there is something wrong there. -/
theorem Refused.ne_nil {tags : List String} (h : Refused total tags s e) (hend : e.offset ≠ total) :
    s ≠ [] := by
  cases h with
  | unfinished => exact absurd rfl hend
  | token hs => exact hs
  | unexpected hu => exact fun hnil ↦ hu.ne_nil (List.append_eq_nil_iff.1 hnil).1
  | mismatched hu => exact fun hnil ↦ hu.ne_nil (List.append_eq_nil_iff.1 hnil).1

/-- There are three kinds of errors: the input ends, something that is there is wrong, and the input
ends where a tag has begun. -/
theorem Refused.offset_lt {tags : List String} (h : Refused total tags s e)
    (hsize : Text.byteSize s ≤ total) :
    (∃ inside, e = .unexpectedEnd total inside) ∨ e.offset < total ∨
      (s = ['<'] ∨ s = ['<', '/']) ∧ e = .invalidName total := by
  cases h with
  | unfinished => exact .inl ⟨_, rfl⟩
  | token hs h =>
    rcases nextToken_eq_error h with h | h
    · exact (h.offset_lt hsize).imp_right .inl
    · exact .inr (.inr h)
  | unexpected hu | mismatched hu =>
    exact .inr (.inl (offsetOf_lt (fun hnil ↦ hu.ne_nil (List.append_eq_nil_iff.1 hnil).1) hsize))

/-- Behind the start of a tag a name is missed, but with a letter there the input ends inside the
tag. -/
theorem AtOpener.exists_errors {markup : String} (h : AtOpener markup.toList) :
    parse markup = .error (.invalidName (Text.byteSize markup.toList)) ∧
      ∃ n inside, parse (markup ++ "a") = .error (.unexpectedEnd n inside) := by
  have hrefused : ∀ {tags : List String} {s : List Char}, s ≠ [] → Leaves markup.toList tags s →
      (∀ total, nextToken total s = .error (.invalidName total)) →
      (∃ inside, ∀ total, nextToken total (s ++ ['a']) = .error (.unexpectedEnd total inside)) →
        parse markup = .error (.invalidName (Text.byteSize markup.toList)) ∧
          ∃ n inside, parse (markup ++ "a") = .error (.unexpectedEnd n inside) := by
    rintro tags s hs hleaves hnow ⟨inside, hthen⟩
    refine ⟨parse_eq_error_iff.2 ⟨tags, s, hleaves, .token hs (hnow _)⟩, _, inside,
      parse_eq_error_iff.2 ⟨tags, s ++ ['a'], ?_, .token (by simp [hs]) (hthen _)⟩⟩
    rw [String.toList_append]
    exact hleaves.append hs _
  have hopening : ∀ total, nextToken total ['<', 'a'] = .error (.unexpectedEnd total .tag) := by
    intro total
    have hname : readTagName total ['a'] = .ok ("a", []) := rfl
    have htail : readAttributes total [] [] = .error (.unexpectedEnd total .tag) :=
      readAttributes_of_skipBlanks_nil rfl
    rw [nextToken_opening total (by decide), readOpening, hname]
    simp only [bind, Except.bind, htail]
  obtain ⟨tags, h | h⟩ := h
  · exact hrefused (by simp) h (fun _ ↦ rfl) ⟨.tag, hopening⟩
  · exact hrefused (by simp) h (fun _ ↦ rfl) ⟨.closingTag, fun _ ↦ rfl⟩

end Markup

open Markup

variable {markup : String} {e : MarkupError}

/-- Where the error lies says which kind it is. -/
theorem offset_of_parse (h : parse markup = .error e) :
    (∃ inside, e = .unexpectedEnd (Text.byteSize markup.toList) inside) ∨
      e.offset < Text.byteSize markup.toList ∨
      AtOpener markup.toList ∧ e = .invalidName (Text.byteSize markup.toList) := by
  obtain ⟨tags, rest, hleaves, hrefused⟩ := parse_eq_error_iff.1 h
  have hsize : Text.byteSize rest ≤ Text.byteSize markup.toList := by
    obtain ⟨before, hbefore⟩ := hleaves.suffix
    rw [← hbefore, Text.byteSize_append]
    omega
  rcases hrefused.offset_lt hsize with h | h | ⟨rfl | rfl, h⟩
  · exact .inl h
  · exact .inr (.inl h)
  · exact .inr (.inr ⟨⟨tags, .inl hleaves⟩, h⟩)
  · exact .inr (.inr ⟨⟨tags, .inr hleaves⟩, h⟩)

/-- An error before the end of the input is there when the input goes on. -/
theorem parse_append_error (h : parse markup = .error e)
    (hend : e.offset < Text.byteSize markup.toList) (more : String) :
    parse (markup ++ more) = .error e := by
  obtain ⟨tags, rest, hleaves, hrefused⟩ := parse_eq_error_iff.1 h
  refine parse_eq_error_iff.2 ⟨tags, rest ++ more.toList, ?_, ?_⟩
  · rw [String.toList_append]
    exact hleaves.append (hrefused.ne_nil (Nat.ne_of_lt hend)) _
  · rw [String.toList_append, Text.byteSize_append]
    exact hrefused.append (Nat.ne_of_lt hend) _

/-- **Only errors at the end of the input depend on what follows.**  An error other than that the
input ends is there whatever comes after the input, and an input that merely ends too early is
reported as that, exactly if the input does not end right behind the characters that a tag begins
with. -/
theorem lasting_iff (h : parse markup = .error e) :
    ((∀ n inside, e ≠ .unexpectedEnd n inside) →
        ((∀ more, parse (markup ++ more) = .error e) ↔ ¬AtOpener markup.toList)) ∧
      ((∃ more d, parse (markup ++ more) = .ok d) →
        ((∃ inside, e = .unexpectedEnd (Text.byteSize markup.toList) inside) ↔
          ¬AtOpener markup.toList)) := by
  have hopener : AtOpener markup.toList → e = .invalidName (Text.byteSize markup.toList) := by
    intro hopener
    cases h.symm.trans hopener.exists_errors.1
    rfl
  refine ⟨fun hend ↦ ⟨fun hlasting hat ↦ ?_, fun hnot more ↦ ?_⟩,
    fun ⟨more, d, hmore⟩ ↦ ⟨fun ⟨inside, hinside⟩ hat ↦ ?_, fun hnot ↦ ?_⟩⟩
  · obtain ⟨-, n, inside, herror⟩ := hat.exists_errors
    cases (hlasting "a").symm.trans herror
    exact hend n inside rfl
  · rcases offset_of_parse h with ⟨inside, rfl⟩ | hlt | ⟨hat, -⟩
    · exact absurd rfl (hend _ inside)
    · exact parse_append_error h hlt more
    · exact absurd hat hnot
  · cases hinside.symm.trans (hopener hat)
  · rcases offset_of_parse h with hinside | hlt | ⟨hat, -⟩
    · exact hinside
    · cases (parse_append_error h hlt more).symm.trans hmore
    · exact absurd hat hnot

/-- A closing tag that does not match is refused whatever comes, and a tag that has no end ends too
early. -/
theorem lasting_of_mismatch :
    (∀ more, parse ("<p></div>" ++ more) = .error (.mismatchedClose "p" "div" 3)) ∧
      ¬AtOpener "<p></p".toList := by
  have hclose : parse "<p></div>" = .error (.mismatchedClose "p" "div" 3) := by
    decide +kernel
  have hend : parse "<p></p" = .error (.unexpectedEnd 6 .closingTag) := by decide +kernel
  have hmore : ∃ more d, parse ("<p></p" ++ more) = .ok d :=
    ⟨">", (parse "<p></p>").toOption.getD .empty, by decide +kernel⟩
  refine ⟨((lasting_iff hclose).1 (fun _ _ h ↦ by cases h)).2 fun hat ↦ ?_,
    ((lasting_iff hend).2 hmore).1 ⟨.closingTag, rfl⟩⟩
  cases hclose.symm.trans hat.exists_errors.1

/-- **A tag that has only begun** is not reported as the end of the input, although it may be all
right when the input goes on. -/
theorem opener_is_misread : parse "<p></" = .error (.invalidName 5) ∧
    ∃ d, parse ("<p></" ++ "p>") = .ok d := by
  exact ⟨by decide +kernel, (parse "<p></p>").toOption.getD .empty, by decide +kernel⟩

end DataBinding
