import DataBinding.Proofs.Document.Tree
import DataBinding.Proofs.Markup.TokenReader

/-!
# The parser accepts its grammar

`Items s ts` is the grammar of markup: `s` is a row of items that write the trees `ts`.  The parser
keeps a stack of the elements that are open, which the grammar knows nothing of, so the two
directions go different ways.

* `readAll_of_items` — items are read wherever they stand, and what is read grows below the
  innermost open element.  The proof is by induction on the items.
* `unfinished_of_readAll` — what is read with elements open is, for each of them, a row of items and
  the tag that closes it.  The proof is by induction along the reader.

`parse_iff_items` puts them together.
-/

set_option autoImplicit false

namespace DataBinding

open Document

namespace Markup

/-- A row of items, and the trees that they write.  Comments and declarations write nothing. -/
inductive Items : List Char → List (Tree Content) → Prop
  | nil : Items [] []
  | text {t s : List Char} {text : String} {ts : List (Tree Content)} (ht : Lexeme t (.text text))
      (hend : s.head?.any (· != '<') = false) (h : Items s ts) :
      Items (t ++ s) (.node (.text text) [] :: ts)
  | skipped {t s : List Char} {ts : List (Tree Content)} (ht : Lexeme t .skipped) (h : Items s ts) :
      Items (t ++ s) ts
  /-- An element without content: it is void, or its tag closes itself. -/
  | leaf {t s : List Char} {tag : String} {as : List (String × String)} {closes : Bool}
      {ts : List (Tree Content)} (ht : Lexeme t (.opening tag as closes))
      (hleaf : (closes || isVoid tag) = true)
      (h : Items s ts) : Items (t ++ s) (.node (.element ⟨tag, as, none⟩) [] :: ts)
  /-- An element with its content between two tags. -/
  | element {t inner t' s : List Char} {tag : String} {as : List (String × String)}
      {kids ts : List (Tree Content)} (ht : Lexeme t (.opening tag as false))
      (hvoid : isVoid tag = false)
      (hinner : Items inner kids) (ht' : Lexeme t' (.closing tag)) (h : Items s ts) :
      Items (t ++ (inner ++ (t' ++ s))) (.node (.element ⟨tag, as, none⟩) kids :: ts)

/-- Rows of items with the tags between them that close the elements of a stack. -/
inductive Unfinished : List String → List Char → Prop
  | items {s : List Char} {ts : List (Tree Content)} (h : Items s ts) : Unfinished [] s
  | close {s t s' : List Char} {ts : List (Tree Content)} {tag : String} {tags : List String}
      (h : Items s ts) (ht : Lexeme t (.closing tag)) (h' : Unfinished tags s') :
      Unfinished (tag :: tags) (s ++ (t ++ s'))

theorem Lexeme.ne_nil {t : List Char} {token : Token} (h : Lexeme t token) : t ≠ [] := by
  cases h with
  | text hne => exact hne
  | _ => simp

/-- What is no text begins with a tag. -/
theorem Lexeme.head? {t : List Char} {token : Token} (h : Lexeme t token)
    (htoken : ∀ text, token ≠ .text text) (s : List Char) :
    (t ++ s).head?.any (· != '<') = false := by
  cases h with
  | text => exact absurd rfl (htoken _)
  | _ => rfl

end Markup

open Markup

variable {total : Nat} {d d' : Document} {pending pending' : List (NodeId × String)}
  {s t rest : List Char} {token : Token} {ts : List (Tree Content)}

/-! ## Reading items -/

theorem readAll_step (ht : Lexeme t token) (hends : token.Ends rest)
    (hplace : place total (t ++ rest) d pending token = .ok (d', pending')) :
    readAll total d pending (t ++ rest) = readAll total d' pending' rest := by
  have hne : t ++ rest ≠ [] := fun hnil ↦ ht.ne_nil (List.append_eq_nil_iff.1 hnil).1
  have hnext : nextToken total (t ++ rest) = .ok (token, rest) :=
    (nextToken_eq_ok_iff hne).2 ⟨t, rfl, ht, hends⟩
  rw [readAll_of_token hne hnext, hplace]

theorem head?_append_any {p : Char → Bool} (hs : s.head?.any p = false)
    (hrest : rest.head?.any p = false) : (s ++ rest).head?.any p = false := by
  cases s with
  | nil => exact hrest
  | cons c s => exact hs

/-- **Items are read wherever they stand.** -/
theorem readAll_of_items (h : Items s ts) :
    ∀ (d : Document) (pending : List (NodeId × String)) (rest : List Char), d.IsForest →
      innermost pending < d.nodes.size → rest.head?.any (· != '<') = false →
        ∃ d', d'.IsForest ∧ d.Grown (innermost pending) ts d' ∧
          readAll total d pending (s ++ rest) = readAll total d' pending rest := by
  induction h with
  | nil => exact fun d pending rest hd _ _ ↦ ⟨d, hd, .refl d _, rfl⟩
  | @text t s text ts ht hend h ih =>
    intro d pending rest hd hn hrest
    have hgrown := Grown.leaf hd hn (.text text)
    obtain ⟨d', hd', hgrown', hread⟩ := ih _ pending rest ((hd.push _).append _ _)
      (Nat.lt_of_lt_of_le hn hgrown.size_le) hrest
    refine ⟨d', hd', hgrown.trans hgrown' hn, ?_⟩
    rw [List.append_assoc, readAll_step ht ?_ rfl]
    · exact hread
    · exact fun _ _ ↦ head?_append_any hend hrest
  | @skipped t s ts ht h ih =>
    intro d pending rest hd hn hrest
    obtain ⟨d', hd', hgrown, hread⟩ := ih d pending rest hd hn hrest
    refine ⟨d', hd', hgrown, ?_⟩
    rw [List.append_assoc, readAll_step ht (fun _ h ↦ by cases h) rfl]
    exact hread
  | @leaf t s tag as closes ts ht hleaf h ih =>
    intro d pending rest hd hn hrest
    have hgrown := Grown.leaf hd hn (.element ⟨tag, as, none⟩)
    obtain ⟨d', hd', hgrown', hread⟩ := ih _ pending rest ((hd.push _).append _ _)
      (Nat.lt_of_lt_of_le hn hgrown.size_le) hrest
    refine ⟨d', hd', hgrown.trans hgrown' hn, ?_⟩
    rw [List.append_assoc, readAll_step ht (fun _ h ↦ by cases h) (by rw [place, hleaf])]
    exact hread
  | @element t inner t' s tag as kids ts ht hvoid hinner ht' h ihinner ih =>
    intro d pending rest hd hn hrest
    have hleaf := Grown.leaf hd hn (.element ⟨tag, as, none⟩)
    have hnew : d.nodes.size <
        ((d.push (.element ⟨tag, as, none⟩)).2.append (innermost pending)
            d.nodes.size).nodes.size := by
      rw [(Grown.appended hd hn _).size_eq, size_push]
      exact Nat.lt_succ_self _
    obtain ⟨d₂, hd₂, hgrown, hread⟩ := ihinner _ ((d.nodes.size, tag) :: pending)
      (t' ++ (s ++ rest)) ((hd.push _).append _ _) hnew (ht'.head? (by simp) _)
    have hinside := hgrown.inside hd hn
    obtain ⟨d₃, hd₃, hgrown', hread'⟩ := ih d₂ pending rest hd₂
      (Nat.lt_of_lt_of_le hn hinside.size_le) hrest
    refine ⟨d₃, hd₃, hinside.trans hgrown' hn, ?_⟩
    rw [List.append_assoc, readAll_step ht (fun _ h ↦ by cases h) (by rw [place, hvoid])]
    simp only [List.append_assoc] at hread ⊢
    refine hread.trans ((readAll_step ht' (fun _ h ↦ by cases h) ?_).trans hread')
    rw [place, if_pos rfl]

/-! ## What has been read -/

/-- An item comes before the first row. -/
theorem Markup.Unfinished.prepend {tags : List String} (h : Unfinished tags s)
    (hmore : ∀ u ts, u <+: s → Items u ts → ∃ ts', Items (t ++ u) ts') :
    Unfinished tags (t ++ s) := by
  cases h with
  | items h =>
    obtain ⟨ts', h'⟩ := hmore s _ List.prefix_rfl h
    exact .items h'
  | @close s t' s' ts tag tags h ht' h' =>
    obtain ⟨ts', h''⟩ := hmore s ts (List.prefix_append ..) h
    rw [← List.append_assoc]
    exact .close h'' ht' h'

/-- One token. -/
theorem unfinished_of_place (ht : Lexeme t token) (hends : token.Ends rest)
    (hplace : place total s d pending token = .ok (d', pending'))
    (h : Unfinished (pending'.map Prod.snd) rest) :
    Unfinished (pending.map Prod.snd) (t ++ rest) := by
  cases token with
  | skipped =>
    cases hplace
    exact h.prepend fun u ts _ hu ↦ ⟨ts, .skipped ht hu⟩
  | text x =>
    cases hplace
    refine h.prepend fun u ts hprefix hu ↦ ⟨_, .text ht ?_ hu⟩
    obtain ⟨v, rfl⟩ := hprefix
    cases u with
    | nil => rfl
    | cons c u => exact hends x rfl
  | opening tag as closes =>
    rw [place] at hplace
    cases hleaf : closes || isVoid tag with
    | true =>
      rw [hleaf] at hplace
      cases hplace
      exact h.prepend fun u ts _ hu ↦ ⟨_, .leaf ht hleaf hu⟩
    | false =>
      rw [hleaf] at hplace
      cases hplace
      obtain ⟨rfl, hvoid⟩ := Bool.or_eq_false_iff.1 hleaf
      cases h with
      | @close inner t' s' kids _ _ hinner ht' h' =>
        have hmore := h'.prepend (t := t ++ (inner ++ t')) fun u ts _ hu ↦
          ⟨_, by simpa using Items.element ht hvoid hinner ht' hu⟩
        simpa using hmore
  | closing tag =>
    cases pending with
    | nil => cases hplace
    | cons innermost rest' =>
      rw [place] at hplace
      split at hplace
      · rename_i htag
        cases hplace
        exact .close .nil (htag ▸ ht) h
      · cases hplace

/-- **What is read** is rows of items and the tags that close the open elements. -/
theorem unfinished_of_readAll (h : readAll total d pending s = .ok d') :
    Unfinished (pending.map Prod.snd) s := by
  induction d, pending, s using readAll.induct total with
  | case1 d pending hpending =>
    rw [List.isEmpty_iff.1 hpending]
    exact .items .nil
  | case2 d pending hpending =>
    rw [readAll_nil, if_neg hpending] at h
    cases h
  | case3 d pending s hs error ht =>
    rw [readAll_of_error hs ht] at h
    cases h
  | case4 d pending s hs token rest ht error hplace =>
    rw [readAll_of_token hs ht, hplace] at h
    cases h
  | case5 d pending s hs token rest ht d₁ pending₁ hplace ih =>
    rw [readAll_of_token hs ht, hplace] at h
    obtain ⟨t, rfl, hlexeme, hends⟩ := (nextToken_eq_ok_iff hs).1 ht
    exact unfinished_of_place hlexeme hends hplace (ih h)

/-! ## The grammar -/

/-- Items are parsed. -/
theorem exists_parse {markup : String} (h : Items markup.toList ts) :
    ∃ d, parse markup = .ok d ∧ d.IsForest ∧ d.Draws root (.node .document ts) := by
  obtain ⟨d, hd, hgrown, hread⟩ : ∃ d, d.IsForest ∧ Document.empty.Grown (innermost []) ts d ∧
      readAll (Text.byteSize markup.toList) .empty [] (markup.toList ++ []) =
        readAll (Text.byteSize markup.toList) d [] [] :=
    readAll_of_items h .empty [] [] .empty (by decide) rfl
  rw [List.append_nil] at hread
  refine ⟨d, ?_, hd, ?_, ?_⟩
  · rw [parse, hread, readAll_nil]
    rfl
  · rw [hgrown.content?_eq root (by decide)]
    rfl
  · obtain ⟨ns, hns, -, hts⟩ := hgrown.exists_children
    have hnil : Document.empty.children (innermost []) = [] := rfl
    rw [hnil, List.nil_append] at hns
    exact hns ▸ hts

/-- What is parsed is items. -/
theorem exists_items {markup : String} (h : parse markup = .ok d) :
    ∃ ts, Items markup.toList ts ∧ d.IsForest ∧ d.Draws root (.node .document ts) := by
  cases unfinished_of_readAll h with
  | items hitems =>
    obtain ⟨d', hd', hforest, hdraws⟩ := exists_parse hitems
    cases h.symm.trans hd'
    exact ⟨_, hitems, hforest, hdraws⟩

/-- **The parser accepts exactly its grammar**, and the document is what the items write. -/
theorem parse_iff_items (markup : String) :
    ((∃ d, parse markup = .ok d) ↔ ∃ ts, Items markup.toList ts) ∧
      ∀ ts, Items markup.toList ts ↔
        ∃ d, parse markup = .ok d ∧ d.Draws root (.node .document ts) := by
  refine ⟨⟨?_, ?_⟩, fun ts ↦ ⟨fun h ↦ ?_, ?_⟩⟩
  · rintro ⟨d, hd⟩
    obtain ⟨ts, hts, -⟩ := exists_items hd
    exact ⟨ts, hts⟩
  · rintro ⟨ts, h⟩
    obtain ⟨d, hd, -⟩ := exists_parse h
    exact ⟨d, hd⟩
  · obtain ⟨d, hd, -, hdraws⟩ := exists_parse h
    exact ⟨d, hd, hdraws⟩
  · rintro ⟨d, hd, hts⟩
    obtain ⟨us, hus, -, hdraws⟩ := exists_items hd
    cases hts.unique hdraws
    exact hus

end DataBinding
