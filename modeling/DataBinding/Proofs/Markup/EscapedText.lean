import DataBinding.Document.Serializer
import DataBinding.Proofs.Markup.TokenReader

/-!
# Escaped text is decoded

Texts and attribute values are written with entities for four characters, and read with entities of
many more forms, from left to right.  An ampersand that is written begins one of the four, whatever
comes after it, so **decoding gives back what was escaped** (`decodeChars_escapeText`,
`decodeChars_escapeValue`).
-/

set_option autoImplicit false

namespace DataBinding.Markup

/-! ## Entities -/

/-- An entity is decoded to its character. -/
theorem decodeChars_entity {name : List Char} {c : Char} (hname : ';' ∉ name)
    (hsize : Text.byteSize name ≤ 9) (hc : entityChar? name = some c) (rest : List Char) :
    decodeChars ('&' :: (name ++ ';' :: rest)) = c :: decodeChars rest := by
  have hentity : entity? (name ++ ';' :: rest) = some (c, rest) := by
    obtain ⟨hdrop, htake⟩ := dropWhile_ne_append hname rest
    rw [entity?, hdrop, htake]
    simp only [if_pos hsize, hc, Option.map_some]
  rw [decodeChars]
  split
  · rename_i c' after h
    cases h.symm.trans hentity
    rfl
  · rename_i h
    cases h.symm.trans hentity

theorem decodeChars_cons {c : Char} (hc : c ≠ '&') (rest : List Char) :
    decodeChars (c :: rest) = c :: decodeChars rest := by
  rw [decodeChars]
  exact hc

/-! ## Characters -/

/-- What may be written for a character: the character itself, or an entity for it. -/
inductive Escape : Char → List Char → Prop
  | plain {c : Char} (hamp : c ≠ '&') (hlt : c ≠ '<') : Escape c [c]
  | entity {c : Char} {name : List Char} (hname : ∀ x ∈ name, x.isAlpha = true)
      (hsize : Text.byteSize name ≤ 9) (hc : entityChar? name = some c) :
      Escape c ('&' :: (name ++ [';']))

namespace Escape

variable {c : Char} {e : List Char}

theorem ne_nil (h : Escape c e) : e ≠ [] := by
  cases h <;> exact List.cons_ne_nil _ _

/-- Nothing of it begins a tag, and a quote stands for itself. -/
theorem of_mem (h : Escape c e) {x : Char} (hx : x ∈ e) : x ≠ '<' ∧ (x = '"' → e = ['"']) := by
  cases h with
  | plain hamp hlt =>
    obtain rfl := List.mem_singleton.1 hx
    exact ⟨hlt, fun hx ↦ by rw [hx]⟩
  | entity hname =>
    have halpha : x = '&' ∨ x.isAlpha = true ∨ x = ';' := by
      rcases List.mem_cons.1 hx with rfl | hx
      · exact .inl rfl
      · rcases List.mem_append.1 hx with hx | hx
        · exact .inr (.inl (hname x hx))
        · exact .inr (.inr (List.mem_singleton.1 hx))
    constructor
    · rintro rfl
      rcases halpha with h | h | h <;> cases h
    · rintro rfl
      rcases halpha with h | h | h <;> cases h

theorem decodeChars_append (h : Escape c e) (rest : List Char) :
    decodeChars (e ++ rest) = c :: decodeChars rest := by
  cases h with
  | plain hamp => exact decodeChars_cons hamp rest
  | @entity name hname hsize hc =>
    have hsemicolon : ';' ∉ name := fun hmem ↦ by cases hname _ hmem
    simpa using decodeChars_entity hsemicolon hsize hc rest

end Escape

theorem escape_text (c : Char) : Escape c (escapeTextChar c) := by
  rw [escapeTextChar]
  split
  · rename_i hc
    rw [hc]
    show Escape '&' ('&' :: (['a', 'm', 'p'] ++ [';']))
    exact .entity (List.all_eq_true.1 rfl) (by decide) rfl
  · rename_i hamp
    split
    · rename_i hc
      rw [hc]
      show Escape '<' ('&' :: (['l', 't'] ++ [';']))
      exact .entity (List.all_eq_true.1 rfl) (by decide) rfl
    · rename_i hlt
      split
      · rename_i hc
        rw [hc]
        show Escape '>' ('&' :: (['g', 't'] ++ [';']))
        exact .entity (List.all_eq_true.1 rfl) (by decide) rfl
      · exact .plain hamp hlt

theorem escape_value (c : Char) : Escape c (escapeValueChar c) := by
  rw [escapeValueChar]
  split
  · rename_i hc
    rw [hc]
    show Escape '"' ('&' :: (['q', 'u', 'o', 't'] ++ [';']))
    exact .entity (List.all_eq_true.1 rfl) (by decide) rfl
  · exact escape_text c

/-! ## Texts and values -/

theorem decodeChars_flatMap {f : Char → List Char} (h : ∀ c, Escape c (f c)) (s : List Char) :
    decodeChars (s.flatMap f) = s := by
  induction s with
  | nil => rw [List.flatMap_nil, decodeChars]
  | cons c s ih => rw [List.flatMap_cons, (h c).decodeChars_append, ih]

/-- **A text that is escaped is decoded.** -/
theorem decodeChars_escapeText (s : String) : decodeChars (escapeText s) = s.toList :=
  decodeChars_flatMap escape_text _

/-- **A value that is escaped is decoded.** -/
theorem decodeChars_escapeValue (s : String) : decodeChars (escapeValue s) = s.toList :=
  decodeChars_flatMap escape_value _

theorem not_mem_escapeText (s : String) : '<' ∉ escapeText s := by
  intro h
  obtain ⟨c, -, hc⟩ := List.mem_flatMap.1 h
  exact ((escape_text c).of_mem hc).1 rfl

theorem not_mem_escapeValue (s : String) : '"' ∉ escapeValue s := by
  intro h
  obtain ⟨c, -, hc⟩ := List.mem_flatMap.1 h
  have hself := ((escape_value c).of_mem hc).2 rfl
  rw [escapeValueChar] at hself
  split at hself
  · cases hself
  · rename_i hne
    rw [escapeTextChar] at hself
    split at hself
    · cases hself
    · split at hself
      · cases hself
      · split at hself
        · cases hself
        · exact hne (List.cons.inj hself).1

theorem escapeText_eq_nil_iff (s : String) : escapeText s = [] ↔ s = "" := by
  rw [escapeText, List.flatMap_eq_nil_iff]
  constructor
  · intro h
    rw [← String.toList_eq_nil_iff, List.eq_nil_iff_forall_not_mem]
    exact fun c hc ↦ (escape_text c).ne_nil (h c hc)
  · rintro rfl
    simp

theorem escapeText_append (s t : String) : escapeText (s ++ t) = escapeText s ++ escapeText t := by
  rw [escapeText, String.toList_append, List.flatMap_append]
  rfl

end DataBinding.Markup
