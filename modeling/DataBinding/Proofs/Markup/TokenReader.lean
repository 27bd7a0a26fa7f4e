import DataBinding.Proofs.Markup.Grammar
import Mathlib.Data.List.TakeWhile

/-!
# The reader of tokens reads what the grammar says

`nextToken_eq_ok_iff`: a token is read from the start of the input exactly if some beginning of the
input writes it, a text being as long as it can be.  One lemma for each reader leads there, and each
of them is proved in both directions along the cases of the reader.
-/

set_option autoImplicit false

namespace DataBinding.Markup

/-! ## Taking as much as one can get -/

section Take

variable {p : Char → Bool} {t s : List Char}

theorem takeWhile_of_head (h : s.head?.any p = false) : s.takeWhile p = [] := by
  cases s with
  | nil => rfl
  | cons c s => exact List.takeWhile_cons_of_neg (by simpa using h)

theorem dropWhile_of_head (h : s.head?.any p = false) : s.dropWhile p = s := by
  cases s with
  | nil => rfl
  | cons c s => exact List.dropWhile_cons_of_neg (by simpa using h)

/-- Characters of a kind, followed by one that is not of it, are what is taken. -/
theorem takeWhile_append_of_head (ht : ∀ c ∈ t, p c = true) (hs : s.head?.any p = false) :
    (t ++ s).takeWhile p = t := by
  rw [List.takeWhile_append_of_pos ht, takeWhile_of_head hs, List.append_nil]

theorem dropWhile_append_of_head (ht : ∀ c ∈ t, p c = true) (hs : s.head?.any p = false) :
    (t ++ s).dropWhile p = s := by
  rw [List.dropWhile_append_of_pos ht, dropWhile_of_head hs]

theorem head?_dropWhile (p : Char → Bool) (s : List Char) :
    (s.dropWhile p).head?.any p = false := by
  induction s with
  | nil => rfl
  | cons c s ih =>
    by_cases hc : p c = true
    · rwa [List.dropWhile_cons_of_pos hc]
    · rw [List.dropWhile_cons_of_neg hc]
      simpa using hc

theorem forall_mem_takeWhile (p : Char → Bool) (s : List Char) : ∀ c ∈ s.takeWhile p, p c = true :=
  fun _ ↦ List.mem_takeWhile_imp

/-- What comes before the first occurrence of a character, if there is one. -/
theorem of_dropWhile_ne_eq_cons {c q : Char} {after : List Char}
    (h : s.dropWhile (· != q) = c :: after) :
    s = s.takeWhile (· != q) ++ q :: after ∧ q ∉ s.takeWhile (· != q) := by
  have hhead := head?_dropWhile (· != q) s
  rw [h] at hhead
  obtain rfl : c = q := by simpa using hhead
  refine ⟨by rw [← h, List.takeWhile_append_dropWhile], fun hmem ↦ ?_⟩
  simpa using forall_mem_takeWhile _ s _ hmem

theorem dropWhile_ne_append {q : Char} (ht : q ∉ t) (s : List Char) :
    (t ++ q :: s).dropWhile (· != q) = q :: s ∧ (t ++ q :: s).takeWhile (· != q) = t := by
  have hall : ∀ c ∈ t, (c != q) = true := fun c hc ↦ bne_iff_ne.2 fun heq ↦ ht (heq ▸ hc)
  exact ⟨dropWhile_append_of_head hall (by simp), takeWhile_append_of_head hall (by simp)⟩

end Take

theorem blanks_takeWhile (s : List Char) : Blanks (s.takeWhile Text.isAsciiBlank) :=
  forall_mem_takeWhile _ s

theorem skipBlanks_append {blanks : List Char} (h : Blanks blanks) (s : List Char) :
    skipBlanks (blanks ++ s) = skipBlanks s := List.dropWhile_append_of_pos h

/-- Blanks come before what is left when they have been skipped. -/
theorem exists_blanks (s : List Char) : ∃ blanks, Blanks blanks ∧ s = blanks ++ skipBlanks s :=
  ⟨_, blanks_takeWhile s, (List.takeWhile_append_dropWhile ..).symm⟩

@[simp] theorem skipBlanks_skipBlanks (s : List Char) : skipBlanks (skipBlanks s) = skipBlanks s :=
  dropWhile_of_head (head?_dropWhile ..)

theorem skipBlanks_of_head {s : List Char} (h : s.head?.any Text.isAsciiBlank = false) :
    skipBlanks s = s := dropWhile_of_head h

/-! ## Names -/

variable {total : Nat} {s rest : List Char}

theorem readTagName_eq_ok_iff {tag : String} :
    readTagName total s = .ok (tag, rest) ↔
      ∃ name, s = name ++ rest ∧ TagName name ∧ rest.head?.any isTagChar = false ∧
        tag = Text.lower (String.ofList name) := by
  have halpha : ∀ c : Char, c.isAlpha = true → isTagChar c = true := fun c hc ↦ by
    simp [isTagChar, Char.isAlphanum, hc]
  rw [readTagName]
  constructor
  · intro h
    split at h
    · rename_i hs
      cases h
      refine ⟨s.takeWhile isTagChar, (List.takeWhile_append_dropWhile ..).symm, ⟨?_,
        forall_mem_takeWhile _ s⟩, head?_dropWhile _ s, rfl⟩
      cases s with
      | nil => cases hs
      | cons c s =>
        rw [List.takeWhile_cons_of_pos (halpha c (by simpa using hs))]
        exact hs
    · cases h
  · rintro ⟨name, rfl, ⟨hhead, hname⟩, hrest, rfl⟩
    have hs : (name ++ rest).head?.any Char.isAlpha = true := by
      cases name with
      | nil => cases hhead
      | cons c name => exact hhead
    rw [if_pos hs, takeWhile_append_of_head hname hrest, dropWhile_append_of_head hname hrest]

/-! ## Attributes -/

/-- A value in quotes. -/
theorem quotedValue_eq_ok_iff {quote : Char} {value : String} :
    (match s.dropWhile (· != quote) with
      | [] => .error (.unexpectedEnd total .attributeValue)
      | _ :: after => .ok (String.ofList (decodeChars (s.takeWhile (· != quote))), after) :
        Except MarkupError (String × List Char)) = .ok (value, rest) ↔
      ∃ t, s = t ++ quote :: rest ∧ quote ∉ t ∧ value = String.ofList (decodeChars t) := by
  constructor
  · intro h
    split at h
    · cases h
    · rename_i c after heq
      cases h
      obtain ⟨hs, ht⟩ := of_dropWhile_ne_eq_cons heq
      exact ⟨_, hs, ht, rfl⟩
  · rintro ⟨t, rfl, ht, rfl⟩
    obtain ⟨hdrop, htake⟩ := dropWhile_ne_append ht rest
    rw [hdrop, htake]

theorem readAttributeValue_eq_ok_iff {value : String} :
    readAttributeValue total s = .ok (value, rest) ↔
      (∃ quote t, (quote = '"' ∨ quote = '\'') ∧ s = quote :: (t ++ quote :: rest) ∧ quote ∉ t ∧
        value = String.ofList (decodeChars t)) ∨
      ∃ t, s = t ++ rest ∧ (∀ c ∈ t, isUnquotedChar c = true) ∧ t.head? ≠ some '"' ∧
        t.head? ≠ some '\'' ∧ rest.head?.any isUnquotedChar = false ∧
        value = String.ofList (decodeChars t) := by
  -- what starts with a quote is no value without quotes
  have hquoted : ∀ {quote s}, (quote = '"' ∨ quote = '\'') →
      ((∃ t, s = t ++ quote :: rest ∧ quote ∉ t ∧ value = String.ofList (decodeChars t)) ↔
        (∃ quote' t, (quote' = '"' ∨ quote' = '\'') ∧ quote :: s = quote' :: (t ++ quote' :: rest) ∧
          quote' ∉ t ∧ value = String.ofList (decodeChars t)) ∨
        ∃ t, quote :: s = t ++ rest ∧ (∀ c ∈ t, isUnquotedChar c = true) ∧ t.head? ≠ some '"' ∧
          t.head? ≠ some '\'' ∧ rest.head?.any isUnquotedChar = false ∧
          value = String.ofList (decodeChars t)) := by
    intro quote s hquote
    constructor
    · rintro ⟨t, rfl, ht, rfl⟩
      exact .inl ⟨quote, t, hquote, rfl, ht, rfl⟩
    · rintro (⟨quote', t, -, heq, ht, rfl⟩ | ⟨t, heq, -, hdouble, hsingle, hend, -⟩)
      · cases heq
        exact ⟨t, rfl, ht, rfl⟩
      · cases t with
        | nil =>
          rw [List.nil_append] at heq
          subst heq
          rcases hquote with rfl | rfl <;> cases hend
        | cons c t =>
          obtain rfl : quote = c := (List.cons.inj heq).1
          rcases hquote with rfl | rfl
          · exact absurd rfl hdouble
          · exact absurd rfl hsingle
  unfold readAttributeValue
  split
  · exact quotedValue_eq_ok_iff.trans (hquoted (.inl rfl))
  · exact quotedValue_eq_ok_iff.trans (hquoted (.inr rfl))
  · rename_i hdouble hsingle
    constructor
    · intro h
      cases h
      refine .inr ⟨s.takeWhile isUnquotedChar, (List.takeWhile_append_dropWhile ..).symm,
        forall_mem_takeWhile _ s, fun h ↦ ?_, fun h ↦ ?_, head?_dropWhile _ s, rfl⟩ <;>
      · obtain ⟨t, ht⟩ := List.head?_eq_some_iff.1 h
        have hs := List.takeWhile_append_dropWhile (p := isUnquotedChar) (l := s)
        rw [ht] at hs
        first | exact hdouble _ hs.symm | exact hsingle _ hs.symm
    · rintro (⟨quote, t, rfl | rfl, rfl, -⟩ | ⟨t, rfl, ht, -, -, hrest, rfl⟩)
      · exact absurd rfl (hdouble _)
      · exact absurd rfl (hsingle _)
      · rw [takeWhile_append_of_head ht hrest, dropWhile_append_of_head ht hrest]

theorem isAsciiBlank_of_isAttributeChar {c : Char} (hc : isAttributeChar c = true) :
    Text.isAsciiBlank c = false := by
  rw [isAttributeChar] at hc
  simp only [Bool.not_eq_true', Bool.or_eq_false_iff] at hc
  exact hc.1.1.1.1.1

/-- What is read of an attribute after its name. -/
theorem readAttribute_append {name : List Char} (hname : AttributeName name)
    (hs : s.head?.any isAttributeChar = false) :
    readAttribute total (name ++ s) =
      match skipBlanks s with
      | '=' :: rest =>
        match readAttributeValue total (skipBlanks rest) with
        | .ok (value, rest) => .ok ((String.ofList name, value), rest)
        | .error e => .error e
      | rest => .ok ((String.ofList name, ""), rest) := by
  obtain ⟨hne, hall⟩ := hname
  have hhead : (name ++ s).head?.any isAttributeChar = true := by
    cases name with
    | nil => exact absurd rfl hne
    | cons c name => simpa using hall c (by simp)
  rewrite [readAttribute, if_pos hhead, takeWhile_append_of_head hall hs,
    dropWhile_append_of_head hall hs]
  rfl

theorem exists_attributeName {a : String × String} (h : readAttribute total s = .ok (a, rest)) :
    ∃ name s₁, s = name ++ s₁ ∧ AttributeName name ∧ s₁.head?.any isAttributeChar = false := by
  rw [readAttribute] at h
  split at h
  · rename_i hs
    refine ⟨s.takeWhile isAttributeChar, s.dropWhile isAttributeChar,
      (List.takeWhile_append_dropWhile ..).symm, ⟨fun hnil ↦ ?_, forall_mem_takeWhile _ s⟩,
      head?_dropWhile _ s⟩
    cases s with
    | nil => cases hs
    | cons c s =>
      rw [List.takeWhile_cons_of_pos (by simpa using hs)] at hnil
      cases hnil
  · cases h

/-- **An attribute that is read** is one, and after a bare one blanks are skipped as well. -/
theorem attribute_of_readAttribute {a : String × String}
    (h : readAttribute total s = .ok (a, rest)) :
    ∃ t blanks, s = t ++ (blanks ++ rest) ∧ Blanks blanks ∧ Attribute t a (blanks ++ rest) := by
  obtain ⟨name, s, rfl, hname, hs⟩ := exists_attributeName h
  obtain ⟨before, hbefore, heq⟩ := exists_blanks s
  rw [readAttribute_append hname hs] at h
  split at h
  · rename_i s₁ hs₁
    obtain ⟨after, hafter, heq'⟩ := exists_blanks s₁
    split at h
    · rename_i value rest' hvalue
      cases h
      rcases readAttributeValue_eq_ok_iff.1 hvalue with
        ⟨quote, t, hquote, hs₂, ht, rfl⟩ | ⟨t, hs₂, ht, hdouble, hsingle, hend, rfl⟩
      · refine ⟨_, [], ?_, by simp [Blanks], .quoted hname hbefore hafter hquote ht⟩
        rw [heq, hs₁, heq', hs₂]
        simp
      · refine ⟨_, [], ?_, by simp [Blanks],
          .unquoted hname hbefore hafter ht hdouble hsingle hend ?_⟩
        · rw [heq, hs₁, heq', hs₂]
          simp
        · rintro rfl
          have hhead := head?_dropWhile Text.isAsciiBlank s₁
          rwa [← skipBlanks, hs₂] at hhead
    · cases h
  · rename_i hne
    cases h
    refine ⟨name, before, by rw [← heq], hbefore, .bare hname (by rwa [← heq]) fun hhead ↦ ?_⟩
    rw [← heq] at hhead
    obtain ⟨t, ht⟩ := List.head?_eq_some_iff.1 hhead
    exact hne t ht

/-- **An attribute is read**, up to blanks after it. -/
theorem readAttribute_of_attribute {t : List Char} {a : String × String} (h : Attribute t a s) :
    ∃ rest, readAttribute total (t ++ s) = .ok (a, rest) ∧ skipBlanks rest = skipBlanks s := by
  -- neither a blank nor an equals sign belongs to a name
  have hend : ∀ {before u : List Char}, Blanks before →
      (before ++ '=' :: u).head?.any isAttributeChar = false := by
    intro before u hbefore
    cases before with
    | nil => rfl
    | cons c before =>
      have hc := hbefore c (by simp)
      simp [isAttributeChar, hc]
  have hvalue : ∀ {before u : List Char}, Blanks before →
      skipBlanks (before ++ '=' :: u) = '=' :: u := fun hbefore ↦ by
    rw [skipBlanks_append hbefore]
    rfl
  cases h with
  | bare hname hs hvalue =>
    rw [readAttribute_append hname hs]
    split
    · rename_i u hu
      rw [hu] at hvalue
      exact absurd rfl hvalue
    · exact ⟨_, rfl, skipBlanks_skipBlanks s⟩
  | @quoted name before after value _ quote hname hbefore hafter hquote hvalue' =>
    refine ⟨s, ?_, rfl⟩
    have hread : readAttributeValue total (skipBlanks (after ++ quote :: (value ++ quote :: s))) =
        .ok (String.ofList (decodeChars value), s) := by
      rw [skipBlanks_append hafter, skipBlanks_of_head (by rcases hquote with rfl | rfl <;> rfl)]
      exact readAttributeValue_eq_ok_iff.2 (.inl ⟨quote, value, hquote, rfl, hvalue', rfl⟩)
    rw [show name ++ before ++ '=' :: (after ++ quote :: (value ++ [quote])) ++ s =
        name ++ (before ++ '=' :: (after ++ quote :: (value ++ quote :: s))) by simp,
      readAttribute_append hname (hend hbefore), hvalue hbefore]
    simp only [hread]
  | @unquoted name before after value _ hname hbefore hafter hvalue' hdouble hsingle hs hempty =>
    refine ⟨s, ?_, rfl⟩
    have hread : readAttributeValue total (skipBlanks (after ++ (value ++ s))) =
        .ok (String.ofList (decodeChars value), s) := by
      rw [skipBlanks_append hafter, skipBlanks_of_head ?_]
      · exact readAttributeValue_eq_ok_iff.2
          (.inr ⟨value, rfl, hvalue', hdouble, hsingle, hs, rfl⟩)
      · cases value with
        | nil => exact hempty rfl
        | cons c value =>
          have hc := hvalue' c (by simp)
          rw [isUnquotedChar, Bool.not_eq_true', Bool.or_eq_false_iff] at hc
          simpa using hc.1
    rw [show name ++ before ++ '=' :: (after ++ value) ++ s =
        name ++ (before ++ '=' :: (after ++ (value ++ s))) by simp,
      readAttribute_append hname (hend hbefore), hvalue hbefore]
    simp only [hread]

/-! ## Tags -/

/-- Attributes that have been kept, with those that are added to them. -/
def kept (acc as : List (String × String)) : List (String × String) :=
  acc ++ (firsts as).filter fun a ↦ (acc.lookup a.1).isNone

theorem kept_nil_left (as : List (String × String)) : kept [] as = firsts as := by
  simp [kept]

theorem kept_nil_right (acc : List (String × String)) : kept acc [] = acc := by
  simp [kept, firsts]

/-- An attribute is kept if there is none of its name. -/
theorem kept_cons (acc as : List (String × String)) (a : String × String) :
    kept acc (a :: as) = kept (if (acc.lookup a.1).isSome then acc else acc ++ [a]) as := by
  rw [kept, kept, firsts, List.filter_cons, List.filter_filter]
  cases ha : acc.lookup a.1 with
  | some v =>
    rw [if_neg (by simp), if_pos (by simp)]
    congr 1
    refine List.filter_congr fun b _ ↦ ?_
    by_cases hb : b.1 = a.1
    · simp [hb, ha]
    · simp [hb]
  | none =>
    rw [if_pos (by simp), if_neg (by simp), List.append_assoc]
    congr 2
    refine List.filter_congr fun b _ ↦ ?_
    rw [List.lookup_append, List.lookup_cons]
    by_cases hb : b.1 = a.1
    · simp [hb]
    · rw [beq_false_of_ne hb]
      simp [hb]

/-- Blanks before the rest of a tag do not matter. -/
theorem readAttributes_congr {s' : List Char} (h : skipBlanks s = skipBlanks s')
    (acc : List (String × String)) : readAttributes total acc s = readAttributes total acc s' := by
  rw [readAttributes, readAttributes]
  generalize skipBlanks s = u at h
  subst h
  rfl

theorem TagTail.blanks {blanks : List Char} (hblanks : Blanks blanks) {as : List (String × String)}
    {closes : Bool} (h : TagTail s as closes) : TagTail (blanks ++ s) as closes := by
  induction blanks with
  | nil => exact h
  | cons c blanks ih =>
    exact .blank (hblanks c (by simp)) (ih fun c' hc' ↦ hblanks c' (List.mem_cons_of_mem _ hc'))

theorem Attribute.exists_cons {t : List Char} {a : String × String} (h : Attribute t a s) :
    ∃ c t', t = c :: t' ∧ isAttributeChar c = true := by
  obtain ⟨name, u, rfl, hne, hname⟩ : ∃ name u, t = name ++ u ∧ AttributeName name := by
    cases h with
    | bare hname => exact ⟨_, [], by simp, hname⟩
    | quoted hname | unquoted hname => exact ⟨_, _, List.append_assoc .., hname⟩
  cases name with
  | nil => exact absurd rfl hne
  | cons c name => exact ⟨c, _, rfl, hname c (by simp)⟩

/-- What comes after a tag does not matter to the attributes in it. -/
theorem TagTail.head?_append {as : List (String × String)} {closes : Bool}
    (h : TagTail s as closes) (rest : List Char) : (s ++ rest).head? = s.head? := by
  cases h with
  | attr ha =>
    obtain ⟨c, t, rfl, -⟩ := ha.exists_cons
    rfl
  | _ => rfl

theorem TagTail.head?_skipBlanks_append {as : List (String × String)} {closes : Bool}
    (h : TagTail s as closes) (rest : List Char) :
    (skipBlanks (s ++ rest)).head? = (skipBlanks s).head? := by
  induction h with
  | blank hc h ih =>
    rw [List.cons_append, skipBlanks, skipBlanks, List.dropWhile_cons_of_pos hc,
      List.dropWhile_cons_of_pos hc]
    exact ih
  | attr ha =>
    obtain ⟨c, t, rfl, hc⟩ := ha.exists_cons
    have hblank := isAsciiBlank_of_isAttributeChar hc
    rw [skipBlanks_of_head (by simpa using hblank), skipBlanks_of_head (by simpa using hblank)]
    rfl
  | _ => rfl

/-- All that matters is what comes next, and what comes next but for blanks. -/
theorem Attribute.congr {t s' : List Char} {a : String × String} (ha : Attribute t a s)
    (hhead : s'.head? = s.head?) (hblanks : (skipBlanks s').head? = (skipBlanks s).head?) :
    Attribute t a s' := by
  cases ha with
  | bare hname hend hvalue => exact .bare hname (hhead ▸ hend) (hblanks ▸ hvalue)
  | quoted hname hbefore hafter hquote hvalue => exact .quoted hname hbefore hafter hquote hvalue
  | unquoted hname hbefore hafter hvalue hdouble hsingle hend hempty =>
    exact .unquoted hname hbefore hafter hvalue hdouble hsingle (hhead ▸ hend) (hhead ▸ hempty)

theorem TagTail.attribute_append_iff {as : List (String × String)} {closes : Bool}
    (h : TagTail s as closes) (rest : List Char) {t : List Char} {a : String × String} :
    Attribute t a (s ++ rest) ↔ Attribute t a s :=
  ⟨fun ha ↦ ha.congr (h.head?_append rest).symm (h.head?_skipBlanks_append rest).symm,
    fun ha ↦ ha.congr (h.head?_append rest) (h.head?_skipBlanks_append rest)⟩

/-- **What is read after the name of a tag** is the rest of a tag. -/
theorem tagTail_of_readAttributes {acc out : List (String × String)} {closes : Bool}
    (h : readAttributes total acc s = .ok ((out, closes), rest)) :
    ∃ t as, s = t ++ rest ∧ TagTail t as closes ∧ out = kept acc as := by
  -- blanks that have been skipped go in front
  have hskip : ∀ {s u : List Char} {acc : List (String × String)}, skipBlanks s = u →
      (∃ t as, u = t ++ rest ∧ TagTail t as closes ∧ out = kept acc as) →
        ∃ t as, s = t ++ rest ∧ TagTail t as closes ∧ out = kept acc as := by
    rintro s u acc rfl ⟨t, as, hu, ht, hout⟩
    obtain ⟨blanks, hblanks, hs⟩ := exists_blanks s
    exact ⟨blanks ++ t, as, by rw [List.append_assoc, ← hu, ← hs], ht.blanks hblanks, hout⟩
  fun_induction readAttributes total acc s with
  | case1 | case5 => cases h
  | case2 acc s rest' hs =>
    cases h
    exact hskip hs ⟨_, [], rfl, .selfClose, (kept_nil_right _).symm⟩
  | case3 acc s rest' hs =>
    cases h
    exact hskip hs ⟨_, [], rfl, .close, (kept_nil_right _).symm⟩
  | case4 acc s rest' hne hs ih =>
    obtain ⟨t, as, rfl, ht, hout⟩ := ih h
    refine hskip hs ⟨'/' :: t, as, rfl, .slash (fun hhead ↦ ?_) ht, hout⟩
    rw [← ht.head?_append rest, List.head?_eq_some_iff] at hhead
    obtain ⟨u, hu⟩ := hhead
    exact hne u hu
  | case6 acc s c rest' _ _ _ hs a after ha kept' ih =>
    obtain ⟨t', as, rfl, ht', hout⟩ := ih h
    obtain ⟨t, blanks, heq, hblanks, hattribute⟩ := attribute_of_readAttribute ha
    rw [← List.append_assoc, (ht'.blanks hblanks).attribute_append_iff] at hattribute
    refine hskip hs ⟨t ++ (blanks ++ t'), a :: as, ?_, .attr hattribute (ht'.blanks hblanks), ?_⟩
    · rw [heq]
      simp
    · rw [hout, kept_cons]
      rfl

section ReadAttributes

variable {acc : List (String × String)}

theorem readAttributes_close (h : skipBlanks s = '>' :: rest) :
    readAttributes total acc s = .ok ((acc, false), rest) := by
  rw [readAttributes]
  split <;> simp_all

theorem readAttributes_selfClose (h : skipBlanks s = '/' :: '>' :: rest) :
    readAttributes total acc s = .ok ((acc, true), rest) := by
  rw [readAttributes]
  split <;> simp_all

theorem readAttributes_slash (h : skipBlanks s = '/' :: rest) (hrest : rest.head? ≠ some '>') :
    readAttributes total acc s = readAttributes total acc rest := by
  rw [readAttributes]
  split
  · simp_all
  · rename_i heq
    rw [h] at heq
    cases heq
    exact absurd rfl hrest
  all_goals simp_all

theorem readAttributes_attribute {c : Char} {u : List Char} (hc : isAttributeChar c = true)
    (hs : skipBlanks s = c :: u) {a : String × String}
    (ha : readAttribute total (c :: u) = .ok (a, rest)) :
    readAttributes total acc s = readAttributes total
      (if (acc.lookup a.1).isSome then acc else acc ++ [a]) rest := by
  rw [readAttributes]
  split
  · rename_i heq
    rw [hs] at heq
    cases heq
  · rename_i heq
    rw [hs] at heq
    cases heq
    cases hc
  · rename_i heq
    rw [hs] at heq
    cases heq
    cases hc
  · rename_i heq
    rw [hs] at heq
    cases heq
    cases hc
  · rename_i heq
    rw [hs] at heq
    cases heq
    split
    · rename_i e he
      cases he.symm.trans ha
    · rename_i a' after' ha'
      cases ha'.symm.trans ha
      rfl

end ReadAttributes

/-- **The rest of a tag is read.** -/
theorem readAttributes_of_tagTail {t : List Char} {as : List (String × String)} {closes : Bool}
    (h : TagTail t as closes) (acc : List (String × String)) (rest : List Char) :
    readAttributes total acc (t ++ rest) = .ok ((kept acc as, closes), rest) := by
  induction h generalizing acc with
  | close =>
    rw [kept_nil_right]
    exact readAttributes_close rfl
  | selfClose =>
    rw [kept_nil_right]
    exact readAttributes_selfClose rfl
  | @blank c s as closes hc h ih =>
    have hblanks : Blanks [c] := by simpa [Blanks] using hc
    rw [← ih acc]
    exact readAttributes_congr (skipBlanks_append hblanks _) acc
  | slash hs h ih =>
    rw [List.cons_append, readAttributes_slash (skipBlanks_of_head rfl) (h.head?_append rest ▸ hs)]
    exact ih acc
  | @attr t s a as closes ha h ih =>
    have ha' : Attribute t a (s ++ rest) := (h.attribute_append_iff rest).2 ha
    obtain ⟨c, u, rfl, hc⟩ := ha.exists_cons
    obtain ⟨after, hread, hafter⟩ := readAttribute_of_attribute ha'
    rw [kept_cons, ← ih, ← readAttributes_congr hafter, List.append_assoc]
    refine readAttributes_attribute hc (skipBlanks_of_head ?_) hread
    simpa using isAsciiBlank_of_isAttributeChar hc

theorem readOpening_eq_ok_iff {token : Token} :
    readOpening total s = .ok (token, rest) ↔
      ∃ name t as closes, s = name ++ (t ++ rest) ∧ TagName name ∧
        t.head?.any isTagChar = false ∧ TagTail t as closes ∧
        token = .opening (Text.lower (String.ofList name)) (firsts as) closes := by
  constructor
  · intro h
    rw [readOpening] at h
    cases hname : readTagName total s with
    | error e =>
      rw [hname] at h
      cases h
    | ok p =>
      rw [hname] at h
      cases htail : readAttributes total [] p.2 with
      | error e =>
        simp only [bind, Except.bind, htail] at h
        cases h
      | ok q =>
        simp only [bind, Except.bind, htail] at h
        cases h
        obtain ⟨name, rfl, hname, hend, htag⟩ := readTagName_eq_ok_iff.1 hname
        obtain ⟨t, as, hrest, ht, hout⟩ := tagTail_of_readAttributes htail
        rw [kept_nil_left] at hout
        rw [hrest, ht.head?_append] at hend
        exact ⟨name, t, as, _, by rw [hrest], hname, hend, ht, by rw [htag, hout]⟩
  · rintro ⟨name, t, as, closes, rfl, hname, hend, ht, rfl⟩
    have hread : readTagName total (name ++ (t ++ rest)) =
        .ok (Text.lower (String.ofList name), t ++ rest) :=
      readTagName_eq_ok_iff.2 ⟨name, rfl, hname, ht.head?_append rest ▸ hend, rfl⟩
    have htail : readAttributes total [] (t ++ rest) = _ := readAttributes_of_tagTail ht [] rest
    rw [kept_nil_left] at htail
    simp only [readOpening, hread, bind, Except.bind, htail]
    rfl

theorem readClosing_eq_ok_iff {token : Token} :
    readClosing total s = .ok (token, rest) ↔
      ∃ name blanks, s = name ++ (blanks ++ '>' :: rest) ∧ TagName name ∧ Blanks blanks ∧
        token = .closing (Text.lower (String.ofList name)) := by
  constructor
  · intro h
    rw [readClosing] at h
    cases hname : readTagName total s with
    | error e =>
      rw [hname] at h
      cases h
    | ok p =>
      rw [hname] at h
      simp only [bind, Except.bind] at h
      obtain ⟨name, rfl, hname, -, htag⟩ := readTagName_eq_ok_iff.1 hname
      obtain ⟨blanks, hblanks, hrest⟩ := exists_blanks p.2
      split at h
      · cases h
      · rename_i after heq
        cases h
        exact ⟨name, blanks, by rw [← heq, ← hrest], hname, hblanks, by rw [htag]⟩
      · cases h
  · rintro ⟨name, blanks, rfl, hname, hblanks, rfl⟩
    have hend : (blanks ++ '>' :: rest).head?.any isTagChar = false := by
      cases blanks with
      | nil => rfl
      | cons c blanks =>
        have hc := hblanks c (by simp)
        simp only [Text.isAsciiBlank, Bool.or_eq_true, beq_iff_eq] at hc
        rcases hc with (((rfl | rfl) | rfl) | rfl) | rfl <;> rfl
    have hread : readTagName total (name ++ (blanks ++ '>' :: rest)) =
        .ok (Text.lower (String.ofList name), blanks ++ '>' :: rest) :=
      readTagName_eq_ok_iff.2 ⟨name, rfl, hname, hend, rfl⟩
    have hskip : skipBlanks (blanks ++ '>' :: rest) = '>' :: rest := by
      rw [skipBlanks_append hblanks]
      rfl
    simp only [readClosing, hread, bind, Except.bind, hskip]
    rfl

/-! ## Comments and declarations -/

/-- The end of a comment does not begin in its last two characters. -/
theorem commentEnd_prefix_iff (c : Char) (body rest : List Char) :
    ['-', '-', '>'] <+: c :: (body ++ ['-', '-']) ↔
      ['-', '-', '>'] <+: c :: (body ++ '-' :: '-' :: '>' :: rest) := by
  cases body with
  | nil => simp
  | cons d body => cases body <;> simp

theorem afterComment?_eq_some_iff :
    afterComment? s = some rest ↔
      ∃ body, s = body ++ '-' :: '-' :: '>' :: rest ∧ ¬['-', '-', '>'] <:+: body ++ ['-', '-'] := by
  fun_induction afterComment? s with
  | case1 => simp
  | case2 s =>
    constructor
    · intro h
      cases h
      exact ⟨[], rfl, by decide⟩
    · rintro ⟨body, heq, hfirst⟩
      cases body with
      | nil =>
        cases heq
        rfl
      | cons c body =>
        refine absurd (List.infix_cons_iff.2 (.inl ((commentEnd_prefix_iff c body rest).2 ?_)))
          hfirst
        rw [← List.cons_append, ← heq]
        exact ⟨s, rfl⟩
  | case3 c s hne ih =>
    rw [ih]
    constructor
    · rintro ⟨body, rfl, hfirst⟩
      refine ⟨c :: body, rfl, fun hinfix ↦ ?_⟩
      rcases List.infix_cons_iff.1 hinfix with hprefix | hinfix
      · obtain ⟨u, hu⟩ := (commentEnd_prefix_iff c body rest).1 hprefix
        obtain ⟨hc, hbody⟩ := List.cons.inj hu
        exact hne u hc.symm hbody.symm
      · exact hfirst hinfix
    · rintro ⟨body, heq, hfirst⟩
      cases body with
      | nil =>
        obtain ⟨rfl, hs⟩ := List.cons.inj heq
        exact absurd hs (hne rest rfl)
      | cons c' body =>
        obtain ⟨rfl, rfl⟩ := List.cons.inj heq
        exact ⟨body, rfl, fun hinfix ↦ hfirst (List.infix_cons_iff.2 (.inr hinfix))⟩

theorem afterDeclaration?_eq_some_iff :
    afterDeclaration? s = some rest ↔ ∃ body, s = body ++ '>' :: rest ∧ '>' ∉ body := by
  rw [afterDeclaration?]
  constructor
  · intro h
    split at h
    · cases h
    · rename_i c after heq
      cases h
      exact ⟨_, of_dropWhile_ne_eq_cons heq⟩
  · rintro ⟨body, rfl, hbody⟩
    rw [(dropWhile_ne_append hbody rest).1]

/-! ## Tokens -/

/-- A text ends where a tag begins or the input ends. -/
def Token.Ends (token : Token) (rest : List Char) : Prop :=
  ∀ t, token = .text t → rest.head?.any (· != '<') = false

theorem nextToken_text (total : Nat) {s : List Char} (h : s.head? ≠ some '<') :
    nextToken total s =
      .ok (.text (String.ofList (decodeChars (s.takeWhile (· != '<')))),
        s.dropWhile (· != '<')) := by
  unfold nextToken
  split <;> first | exact absurd rfl h | rfl

theorem nextToken_declaration (total : Nat) {s : List Char} (h : ¬['-', '-'] <+: s) :
    nextToken total ('<' :: '!' :: s) =
      match afterDeclaration? s with
      | some rest => .ok (.skipped, rest)
      | none => .error (.unexpectedEnd total .declaration) := by
  unfold nextToken
  split
  · rename_i u heq
    cases heq
    exact absurd ⟨u, rfl⟩ h
  · rename_i heq
    cases heq
    rfl
  · rename_i heq
    cases heq
  · rename_i hbang _ heq
    cases heq
    exact (hbang s rfl).elim
  · rename_i hne
    exact (hne _ rfl).elim

theorem nextToken_opening (total : Nat) {c : Char} (hc : c.isAlpha = true) (s : List Char) :
    nextToken total ('<' :: c :: s) = readOpening total (c :: s) := by
  have hbang : c ≠ '!' := by
    rintro rfl
    cases hc
  have hslash : c ≠ '/' := by
    rintro rfl
    cases hc
  unfold nextToken
  split <;> simp_all

/-- The characters that were read for a token write it. -/
theorem exists_lexeme_of_nextToken {token : Token} (hs : s ≠ [])
    (h : nextToken total s = .ok (token, rest)) :
    ∃ t, s = t ++ rest ∧ Lexeme t token ∧ token.Ends rest := by
  unfold nextToken at h
  split at h
  · rename_i u
    split at h
    · rename_i after heq
      cases h
      obtain ⟨body, rfl, hfirst⟩ := afterComment?_eq_some_iff.1 heq
      exact ⟨_, by simp, .comment hfirst, fun _ h ↦ by cases h⟩
    · cases h
  · rename_i u hcomment
    split at h
    · rename_i after heq
      cases h
      obtain ⟨body, rfl, hbody⟩ := afterDeclaration?_eq_some_iff.1 heq
      refine ⟨_, by simp, .declaration hbody fun ⟨v, hv⟩ ↦ ?_, fun _ h ↦ by cases h⟩
      exact hcomment (v ++ '>' :: rest) (by rw [← hv]; rfl)
    · cases h
  · rename_i u
    obtain ⟨name, blanks, rfl, hname, hblanks, rfl⟩ := readClosing_eq_ok_iff.1 h
    exact ⟨_, by simp, .closing hname hblanks, fun _ h ↦ by cases h⟩
  · rename_i u _ _ _
    obtain ⟨name, t, as, closes, rfl, hname, hend, ht, rfl⟩ := readOpening_eq_ok_iff.1 h
    exact ⟨_, by simp, .opening hname hend ht, fun _ h ↦ by cases h⟩
  · rename_i hne
    cases h
    refine ⟨_, (List.takeWhile_append_dropWhile ..).symm, .text ?_ fun hmem ↦ ?_,
      fun _ _ ↦ head?_dropWhile _ s⟩
    · cases s with
      | nil => exact absurd rfl hs
      | cons c s =>
        have hc : c ≠ '<' := fun heq ↦ hne s (by rw [heq])
        simp [hc]
    · simpa using forall_mem_takeWhile _ s _ hmem

/-- What writes a token is read as this token, up to its end. -/
theorem nextToken_of_lexeme {t : List Char} {token : Token} (ht : Lexeme t token)
    (hends : token.Ends rest) : nextToken total (t ++ rest) = .ok (token, rest) := by
  cases ht with
  | @text t hne ht =>
    have hall : ∀ c ∈ t, (c != '<') = true := fun c hc ↦ bne_iff_ne.2 fun heq ↦ ht (heq ▸ hc)
    cases t with
    | nil => exact absurd rfl hne
    | cons c t =>
      have hc : c ≠ '<' := fun heq ↦ ht (by simp [heq])
      rw [nextToken_text _ (by simpa using hc), takeWhile_append_of_head hall (hends _ rfl),
        dropWhile_append_of_head hall (hends _ rfl)]
  | @comment body h =>
    have hread : afterComment? (body ++ '-' :: '-' :: '>' :: rest) = some rest :=
      afterComment?_eq_some_iff.2 ⟨body, rfl, h⟩
    simp [nextToken, hread]
  | @declaration body h hcomment =>
    have hread : afterDeclaration? (body ++ '>' :: rest) = some rest :=
      afterDeclaration?_eq_some_iff.2 ⟨body, rfl, h⟩
    have hprefix : ¬['-', '-'] <+: body ++ '>' :: rest := by
      cases body with
      | nil => simp
      | cons c body =>
        cases body with
        | nil => simp
        | cons d body => simpa using hcomment
    have hnext := nextToken_declaration total hprefix
    rw [hread] at hnext
    simpa using hnext
  | @opening name s as closes hname hend ht =>
    have hread : readOpening total (name ++ (s ++ rest)) = .ok (_, rest) :=
      readOpening_eq_ok_iff.2 ⟨name, s, as, closes, rfl, hname, hend, ht, rfl⟩
    cases name with
    | nil => cases hname.1
    | cons c name =>
      have hnext := nextToken_opening total (c := c) (by simpa using hname.1) (name ++ (s ++ rest))
      rw [List.cons_append] at hread
      rw [hread] at hnext
      simpa using hnext
  | @closing name blanks hname hblanks =>
    have hread : readClosing total (name ++ (blanks ++ '>' :: rest)) = .ok (_, rest) :=
      readClosing_eq_ok_iff.2 ⟨name, blanks, rfl, hname, hblanks, rfl⟩
    simp [nextToken, hread]

/-- **A token is read exactly if it is written** by the characters that are read. -/
theorem nextToken_eq_ok_iff {token : Token} (hs : s ≠ []) :
    nextToken total s = .ok (token, rest) ↔
      ∃ t, s = t ++ rest ∧ Lexeme t token ∧ token.Ends rest := by
  constructor
  · exact exists_lexeme_of_nextToken hs
  · rintro ⟨t, rfl, ht, hends⟩
    exact nextToken_of_lexeme ht hends

end DataBinding.Markup
