import DataBinding.Proofs.Document.TreeMarkup
import DataBinding.Proofs.Markup.EscapedText
import DataBinding.Proofs.Markup.ParserGrammar

/-!
# Writing and parsing again

A tree is *plain* when markup can say all of it: tags and names are spelled as markup spells them,
and there is nothing in it but elements and texts.  Parsing the markup of a plain tree gives the
tree back, up to what markup does not show (`Tree.tidyAll`): empty texts are gone, texts side by
side have become one, and no control holds a value.

Trees that have been parsed are plain, and tidying does not change the markup.  So **markup that was
written from a parsed document is parsed and written as it is** (`roundTrip`).
-/

set_option autoImplicit false

namespace DataBinding

open Document Markup

/-! ## Plain trees -/

/-- Markup can name the element and its attributes. -/
structure Element.IsPlain (e : Element) : Prop where
  tag : TagName e.tag.toList
  /-- Tags are in lower case. -/
  lower : Text.lower e.tag = e.tag
  names : ∀ a ∈ e.attributes, AttributeName a.1.toList
  distinct : (e.attributes.map Prod.fst).Nodup

mutual

/-- Markup can say all of the tree. -/
def Tree.IsPlain : Tree Content → Prop
  | .node (.element e) ts => e.IsPlain ∧ (isVoid e.tag = true → ts = []) ∧ Tree.ArePlain ts
  | .node (.text _) ts => ts = []
  | .node .document _ | .node .fragment _ | .node (.raw _) _ => False

/-- Markup can say all of the trees. -/
def Tree.ArePlain : List (Tree Content) → Prop
  | [] => True
  | t :: ts => t.IsPlain ∧ Tree.ArePlain ts

end

/-! ## What markup shows -/

/-- A text as a node, if it is not empty. -/
def Tree.ofText (text : String) : List (Tree Content) :=
  if text = "" then [] else [.node (.text text) []]

/-- The text that a tree is, if it is one. -/
def Tree.text? : Tree Content → Option String
  | .node (.text t) _ => some t
  | _ => none

mutual

/-- A tree as markup shows it. -/
def Tree.tidy : Tree Content → Tree Content
  | .node (.element e) ts => .node (.element { e with control := none }) (Tree.tidyAll "" ts)
  | .node c ts => .node c (Tree.tidyAll "" ts)

/-- Trees as markup shows them, after a text that has not ended. -/
def Tree.tidyAll (text : String) : List (Tree Content) → List (Tree Content)
  | [] => Tree.ofText text
  | t :: ts =>
    match t.text? with
    | some more => Tree.tidyAll (text ++ more) ts
    | none => Tree.ofText text ++ t.tidy :: Tree.tidyAll "" ts

end

theorem Tree.write_eq_escapeText {t : Tree Content} {text : String} (h : t.text? = some text) :
    t.write = escapeText text := by
  match t with
  | .node (.text x) ts =>
    cases h
    rfl
  | .node (.element _) _ | .node .document _ | .node .fragment _ | .node (.raw _) _ => cases h

theorem Tree.writeAll_append (ts us : List (Tree Content)) :
    Tree.writeAll (ts ++ us) = Tree.writeAll ts ++ Tree.writeAll us := by
  induction ts with
  | nil => rfl
  | cons t ts ih => rw [List.cons_append, Tree.writeAll, Tree.writeAll, ih, List.append_assoc]

theorem Tree.writeAll_ofText (text : String) :
    Tree.writeAll (Tree.ofText text) = escapeText text := by
  rw [Tree.ofText]
  split
  · rename_i h
    rw [h, (escapeText_eq_nil_iff "").2 rfl]
    rfl
  · rw [Tree.writeAll, Tree.write, Tree.writeAll, List.append_nil]

mutual

/-- **Tidying does not change the markup.** -/
theorem Tree.write_tidy (t : Tree Content) : t.tidy.write = t.write := by
  match t with
  | .node (.element e) ts =>
    have hts := Tree.writeAll_tidyAll "" ts
    rw [(escapeText_eq_nil_iff "").2 rfl, List.nil_append] at hts
    rw [Tree.tidy, Tree.write, Tree.write, hts]
    rfl
  | .node (.text x) ts => rfl
  | .node (.raw markup) ts => rfl
  | .node .document ts =>
    have hts := Tree.writeAll_tidyAll "" ts
    rwa [(escapeText_eq_nil_iff "").2 rfl, List.nil_append] at hts
  | .node .fragment ts =>
    have hts := Tree.writeAll_tidyAll "" ts
    rwa [(escapeText_eq_nil_iff "").2 rfl, List.nil_append] at hts

theorem Tree.writeAll_tidyAll (text : String) (ts : List (Tree Content)) :
    Tree.writeAll (Tree.tidyAll text ts) = escapeText text ++ Tree.writeAll ts := by
  match ts with
  | [] => rw [Tree.tidyAll, Tree.writeAll_ofText, Tree.writeAll, List.append_nil]
  | t :: ts =>
    rw [Tree.tidyAll]
    cases htext : t.text? with
    | some more =>
      have hmore := Tree.writeAll_tidyAll (text ++ more) ts
      show Tree.writeAll (Tree.tidyAll (text ++ more) ts) = _
      rw [hmore, escapeText_append, Tree.writeAll, Tree.write_eq_escapeText htext,
        List.append_assoc]
    | none =>
      have hts := Tree.writeAll_tidyAll "" ts
      rw [(escapeText_eq_nil_iff "").2 rfl, List.nil_append] at hts
      rw [Tree.writeAll_append, Tree.writeAll_ofText, Tree.writeAll, Tree.writeAll,
        Tree.write_tidy t, hts]

end

/-! ## Plain trees are written as items -/

namespace Markup

theorem Blanks.nil : Blanks [] := fun _ h ↦ nomatch h

section Attributes

variable {as : List (String × String)}

theorem head?_attributes (as : List (String × String)) :
    (as.flatMap writeAttribute ++ ['>']).head?.any isTagChar = false ∧
      (as.flatMap writeAttribute ++ ['>']).head?.any isAttributeChar = false := by
  cases as <;> exact ⟨rfl, rfl⟩

/-- No written name is followed by an equals sign that is not its own. -/
theorem head?_skipBlanks_attributes (h : ∀ a ∈ as, AttributeName a.1.toList) :
    (skipBlanks (as.flatMap writeAttribute ++ ['>'])).head? ≠ some '=' := by
  cases as with
  | nil => decide
  | cons a as =>
    obtain ⟨hne, hchars⟩ := h a List.mem_cons_self
    cases hname : a.1.toList with
    | nil => exact absurd hname hne
    | cons c name =>
      rw [hname] at hchars
      have hc := hchars c List.mem_cons_self
      have hblank : Text.isAsciiBlank c = false := by
        simp only [isAttributeChar, Bool.not_eq_true', Bool.or_eq_false_iff] at hc
        exact hc.1.1.1.1.1
      have hskip : ∀ s, (skipBlanks (' ' :: c :: s)).head? = some c := fun s ↦ by
        rw [skipBlanks, List.dropWhile_cons_of_pos rfl, List.dropWhile_cons_of_neg
          (by simp [hblank])]
        rfl
      rw [List.flatMap_cons, writeAttribute, hname]
      simp only [List.cons_append]
      rw [hskip]
      rintro ⟨⟩
      cases hc

/-- **Written attributes are the rest of a tag.** -/
theorem tagTail_attributes (h : ∀ a ∈ as, AttributeName a.1.toList) :
    TagTail (as.flatMap writeAttribute ++ ['>']) as false := by
  induction as with
  | nil => exact .close
  | cons a as ih =>
    have has := ih fun b hb ↦ h b (List.mem_cons_of_mem _ hb)
    have hname := h a List.mem_cons_self
    rw [List.flatMap_cons, writeAttribute, List.cons_append, List.cons_append]
    refine .blank rfl ?_
    rw [List.append_assoc]
    refine .attr ?_ has
    obtain ⟨name, value⟩ := a
    by_cases hvalue : value = ""
    · have hbare := Attribute.bare hname (head?_attributes as).2
        (head?_skipBlanks_attributes fun b hb ↦ h b (List.mem_cons_of_mem _ hb))
      rw [String.ofList_toList] at hbare
      simpa [hvalue] using hbare
    · have hquoted : Attribute _ _ (as.flatMap writeAttribute ++ ['>']) :=
        .quoted hname .nil .nil (.inl rfl) (not_mem_escapeValue value)
      rw [String.ofList_toList, decodeChars_escapeValue, String.ofList_toList] at hquoted
      simpa [hvalue] using hquoted

theorem firsts_of_nodup (h : (as.map Prod.fst).Nodup) : firsts as = as := by
  induction as with
  | nil => rfl
  | cons a as ih =>
    rw [List.map_cons, List.nodup_cons] at h
    rw [firsts, ih h.2, List.filter_eq_self.2]
    intro b hb
    exact bne_iff_ne.2 fun heq ↦ h.1 (heq ▸ List.mem_map_of_mem hb)

end Attributes

theorem lexeme_openTag {e : Element} (h : e.IsPlain) :
    Lexeme (openTag e) (.opening e.tag e.attributes false) := by
  have hlexeme :=
    Lexeme.opening h.tag (head?_attributes e.attributes).1 (tagTail_attributes h.names)
  rw [String.ofList_toList, h.lower, firsts_of_nodup h.distinct] at hlexeme
  rwa [openTag, List.append_assoc]

theorem lexeme_closeTag {e : Element} (h : e.IsPlain) :
    Lexeme (closeTag e.tag) (.closing e.tag) := by
  have hlexeme := Lexeme.closing h.tag .nil
  rw [String.ofList_toList, h.lower] at hlexeme
  rwa [closeTag, List.append_assoc]

theorem lexeme_escapeText {text : String} (h : text ≠ "") :
    Lexeme (escapeText text) (.text text) := by
  have hlexeme := Lexeme.text (mt (escapeText_eq_nil_iff text).1 h) (not_mem_escapeText text)
  rwa [decodeChars_escapeText, String.ofList_toList] at hlexeme

end Markup

variable {s : List Char} {t : Tree Content} {ts us : List (Tree Content)}

/-- A text that ends is an item. -/
theorem items_ofText (text : String) (hend : s.head?.any (· != '<') = false) (h : Items s ts) :
    Items (escapeText text ++ s) (Tree.ofText text ++ ts) := by
  rw [Tree.ofText]
  split
  · rename_i htext
    rwa [htext, (escapeText_eq_nil_iff "").2 rfl]
  · rename_i htext
    exact .text (lexeme_escapeText htext) hend h

/-- What is no text begins with a tag. -/
theorem Tree.head?_write (ht : t.IsPlain) (htext : t.text? = none) (s : List Char) :
    (t.write ++ s).head?.any (· != '<') = false := by
  match t with
  | .node (.element e) ts => rfl
  | .node (.text _) _ => cases htext

mutual

/-- What is no text is written as items, whatever comes after it. -/
theorem Tree.items_write (t : Tree Content) (ht : t.IsPlain) (htext : t.text? = none)
    {s : List Char} {us : List (Tree Content)} (h : Items s us) :
    Items (t.write ++ s) (t.tidy :: us) := by
  match t with
  | .node (.element e) kids =>
    obtain ⟨he, hvoid, hkids⟩ := ht
    rw [Tree.write, Tree.tidy]
    split
    · rename_i hv
      rw [hvoid hv, List.append_nil]
      exact .leaf (lexeme_openTag he) hv h
    · rename_i hv
      have hinner := Tree.items_writeAll "" kids hkids
      rw [(escapeText_eq_nil_iff "").2 rfl, List.nil_append] at hinner
      rw [List.append_assoc, List.append_assoc]
      exact .element (lexeme_openTag he) (Bool.eq_false_iff.2 hv) hinner (lexeme_closeTag he) h
  | .node (.text _) _ => cases htext

/-- **Plain trees are written as items.** -/
theorem Tree.items_writeAll (text : String) (ts : List (Tree Content)) (hts : Tree.ArePlain ts) :
    Items (escapeText text ++ Tree.writeAll ts) (Tree.tidyAll text ts) := by
  match ts with
  | [] =>
    rw [Tree.tidyAll, Tree.writeAll]
    simpa using items_ofText text rfl .nil
  | t :: ts =>
    obtain ⟨ht, hts⟩ := hts
    rw [Tree.tidyAll, Tree.writeAll]
    cases htext : t.text? with
    | some more =>
      have hmore := Tree.items_writeAll (text ++ more) ts hts
      rwa [escapeText_append, List.append_assoc, ← Tree.write_eq_escapeText htext] at hmore
    | none =>
      have hrest := Tree.items_writeAll "" ts hts
      rw [(escapeText_eq_nil_iff "").2 rfl, List.nil_append] at hrest
      exact items_ofText text (Tree.head?_write ht htext _)
        (Tree.items_write t ht htext hrest)

end

/-! ## What has been parsed is plain -/

namespace Text

theorem toLower_toLower (c : Char) : c.toLower.toLower = c.toLower := by
  unfold Char.toLower
  grind

theorem isAlpha_toLower (c : Char) : c.toLower.isAlpha = c.isAlpha := by
  unfold Char.toLower Char.isAlpha Char.isUpper Char.isLower
  grind

theorem isTagChar_toLower (c : Char) : isTagChar c.toLower = isTagChar c := by
  have hdigit : c.toLower.isDigit = c.isDigit := by
    unfold Char.toLower Char.isDigit
    grind
  have hhyphen : c.toLower = '-' ↔ c = '-' := by
    unfold Char.toLower
    split
    · simp only [Char.ext_iff]
      grind
    · rfl
  rw [isTagChar, isTagChar, Char.isAlphanum, Char.isAlphanum, isAlpha_toLower, hdigit,
    Bool.beq_eq_decide_eq, Bool.beq_eq_decide_eq, decide_eq_decide.2 hhyphen]

theorem lower_lower (s : String) : lower (lower s) = lower s := by
  rw [lower, lower, String.toList_ofList, List.map_map]
  congr 2
  exact funext toLower_toLower

end Text

namespace Markup

theorem TagName.lower {name : List Char} (h : TagName name) :
    TagName (Text.lower (String.ofList name)).toList := by
  obtain ⟨hhead, hchars⟩ := h
  rw [Text.lower, String.toList_ofList, String.toList_ofList]
  refine ⟨?_, fun c hc ↦ ?_⟩
  · cases name with
    | nil => exact hhead
    | cons c name => simpa [Text.isAlpha_toLower] using hhead
  · obtain ⟨x, hx, rfl⟩ := List.mem_map.1 hc
    exact (Text.isTagChar_toLower x).trans (hchars x hx)

section Attributes

variable {as : List (String × String)} {closes : Bool}

theorem firsts_sublist (as : List (String × String)) : (firsts as).Sublist as := by
  induction as with
  | nil => exact .slnil
  | cons a as ih => exact .cons_cons a (List.filter_sublist.trans ih)

theorem nodup_firsts (as : List (String × String)) : ((firsts as).map Prod.fst).Nodup := by
  induction as with
  | nil => exact List.nodup_nil
  | cons a as ih =>
    rw [firsts, List.map_cons, List.nodup_cons]
    refine ⟨fun hmem ↦ ?_, ih.sublist (List.filter_sublist.map _)⟩
    obtain ⟨b, hb, heq⟩ := List.mem_map.1 hmem
    exact bne_iff_ne.1 (List.mem_filter.1 hb).2 heq

theorem Attribute.attributeName {t : List Char} {a : String × String} (h : Attribute t a s) :
    AttributeName a.1.toList := by
  cases h <;> rwa [String.toList_ofList]

theorem TagTail.attributeName (h : TagTail s as closes) : ∀ a ∈ as, AttributeName a.1.toList := by
  induction h with
  | close | selfClose => exact fun a ha ↦ nomatch ha
  | blank _ _ ih | slash _ _ ih => exact ih
  | attr ha _ ih => exact List.forall_mem_cons.2 ⟨ha.attributeName, ih⟩

end Attributes

theorem Lexeme.isPlain {tag : String} {as : List (String × String)} {closes : Bool}
    (h : Lexeme s (.opening tag as closes)) : Element.IsPlain ⟨tag, as, none⟩ := by
  cases h with
  | @opening name t as closes hname hend htail =>
    exact {
      tag := hname.lower
      lower := Text.lower_lower _
      names := fun a ha ↦ htail.attributeName a ((firsts_sublist as).subset ha)
      distinct := nodup_firsts as }

/-- **Items are plain trees.** -/
theorem Items.arePlain (h : Items s ts) : Tree.ArePlain ts := by
  induction h with
  | nil => trivial
  | text _ _ _ ih => exact ⟨rfl, ih⟩
  | skipped _ _ ih => exact ih
  | leaf ht _ _ ih => exact ⟨⟨ht.isPlain, fun _ ↦ rfl, trivial⟩, ih⟩
  | element ht hvoid _ _ _ ihinner ih =>
    exact ⟨⟨ht.isPlain, fun h ↦ absurd h (by simp [hvoid]), ihinner⟩, ih⟩

end Markup

/-! ## Round trip -/

/-- The markup of a plain tree is parsed, to what it shows. -/
theorem exists_parse_innerMarkup {d : Document} (hd : d.IsForest)
    (h : d.Draws root (.node .document ts)) (hts : Tree.ArePlain ts) :
    ∃ e, parse (d.innerMarkup root) = .ok e ∧ e.IsForest ∧
      e.Draws root (.node .document (Tree.tidyAll "" ts)) := by
  have hitems := Tree.items_writeAll "" ts hts
  rw [(escapeText_eq_nil_iff "").2 rfl, List.nil_append] at hitems
  refine exists_parse ?_
  rwa [h.innerMarkup_eq hd, String.toList_ofList]

/-- **Writing and parsing again.**  The markup of a plain tree is parsed, and gives the tree back
but for what markup does not show.  What has been parsed is plain, and its markup is parsed and
written as it is. -/
theorem roundTrip :
    (∀ (d : Document) (ts : List (Tree Content)), d.IsForest → d.Draws root (.node .document ts) →
      Tree.ArePlain ts →
        ∃ e, parse (d.innerMarkup root) = .ok e ∧
          e.Draws root (.node .document (Tree.tidyAll "" ts))) ∧
      ∀ (markup : String) (d : Document), parse markup = .ok d →
        (d.IsForest ∧ ∃ ts, d.Draws root (.node .document ts) ∧ Tree.ArePlain ts) ∧
          ∃ e, parse (d.innerMarkup root) = .ok e ∧ e.innerMarkup root = d.innerMarkup root := by
  refine ⟨fun d ts hd hdraws hts ↦ ?_, fun markup d h ↦ ?_⟩
  · obtain ⟨e, he, -, hdraws'⟩ := exists_parse_innerMarkup hd hdraws hts
    exact ⟨e, he, hdraws'⟩
  · obtain ⟨ts, hitems, hd, hdraws⟩ := exists_items h
    refine ⟨⟨hd, ts, hdraws, hitems.arePlain⟩, ?_⟩
    obtain ⟨e, he, hforest, hdraws'⟩ := exists_parse_innerMarkup hd hdraws hitems.arePlain
    refine ⟨e, he, ?_⟩
    rw [hdraws'.innerMarkup_eq hforest, hdraws.innerMarkup_eq hd, Tree.writeAll_tidyAll,
      (escapeText_eq_nil_iff "").2 rfl, List.nil_append]

/-- A paragraph with two texts that look like an entity only when they stand side by side. -/
def splitEntity : Document :=
  let d := (Document.empty.push (.element ⟨"p", [("title", "\"")], none⟩)).2.append root 1
  let d := (d.push (.text "&")).2.append 1 2
  (d.push (.text "amp;")).2.append 1 3

theorem roundTrip_of_splitEntity :
    splitEntity.innerMarkup root = "<p title=\"&quot;\">&amp;amp;</p>" ∧
      ∃ e, parse (splitEntity.innerMarkup root) = .ok e ∧
        e.Draws root (.node .document
          [.node (.element ⟨"p", [("title", "\"")], none⟩) [.node (.text "&amp;") []]]) := by
  have hforest : splitEntity.IsForest :=
    (((((IsForest.empty.push _).append ..).push _).append ..).push _).append ..
  have hdraws : splitEntity.Draws root (.node .document
      [.node (.element ⟨"p", [("title", "\"")], none⟩)
        [.node (.text "&") [], .node (.text "amp;") []]]) := by
    have hnone : ∀ n ∈ [2, 3], splitEntity.children n = [] := by decide +kernel
    exact ⟨by decide +kernel, 1, [], by decide +kernel,
      ⟨by decide +kernel, 2, [3], by decide +kernel, ⟨by decide +kernel, hnone 2 (by simp)⟩,
        3, [], rfl, ⟨by decide +kernel, hnone 3 (by simp)⟩, rfl⟩, rfl⟩
  have hplain : Element.IsPlain ⟨"p", [("title", "\"")], none⟩ := {
    tag := ⟨by decide +kernel, List.all_eq_true.1 (by decide +kernel)⟩
    lower := by decide +kernel
    names := by
      rintro _ (_ | ⟨_, ⟨⟩⟩)
      exact ⟨by decide +kernel, List.all_eq_true.1 (by decide +kernel)⟩
    distinct := by decide +kernel }
  refine ⟨by decide +kernel, roundTrip.1 splitEntity _ hforest hdraws ⟨⟨hplain, ?_, ?_⟩, trivial⟩⟩
  · exact fun h ↦ absurd h (by decide +kernel)
  · exact ⟨rfl, rfl, trivial⟩

end DataBinding
