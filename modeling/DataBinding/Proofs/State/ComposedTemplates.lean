import DataBinding.Proofs.State.Rendering
import DataBinding.State.Observe
import Mathlib.Data.List.Infix

/-!
# Templates that are put together

A template is written by writing texts and expressions in double braces one after the other.  It is
read by looking for the first opening that belongs to an expression, and for the first closing after
that.  This file says when the two fit together: **if no text has an opening in it or ends in half
of one, and no expression has a closing or a line break in it, reading finds the parts that were
written** (`pieces_write`).  What a template lists and what it renders is then what its parts list
and render (`composition`).
-/

set_option autoImplicit false

namespace DataBinding

namespace Template

/-! ## Where an expression ends -/

/-- Two of the same character in a row. -/
theorem pair_infix_cons {q c : Char} {s : List Char} :
    [q, q] <:+: c :: s ↔ (c = q ∧ s.head? = some q) ∨ [q, q] <:+: s := by
  rw [List.infix_cons_iff, List.cons_prefix_cons]
  refine or_congr_left (and_congr eq_comm ?_)
  cases s <;> simp [eq_comm]

/-- An expression ends at the first closing, and there is no line break before. -/
theorem closing?_eq_some_iff {s inside after : List Char} :
    closing? s = some (inside, after) ↔
      s = inside ++ '}' :: '}' :: after ∧ '\n' ∉ inside ∧ ¬['}', '}'] <:+: inside ++ ['}'] := by
  induction s using closing?.induct generalizing inside with
  | case1 => simp [closing?]
  | case2 rest =>
    rw [closing?]
    constructor
    · rintro ⟨⟩
      exact ⟨rfl, by simp, by decide⟩
    · rintro ⟨hs, -, hpair⟩
      cases inside with
      | nil =>
        cases hs
        rfl
      | cons c inside =>
        obtain ⟨rfl, htail⟩ := List.cons.inj hs
        rw [List.cons_append, pair_infix_cons] at hpair
        refine absurd (.inl ⟨rfl, ?_⟩) hpair
        cases inside with
        | nil => rfl
        | cons d inside => exact congrArg some (List.cons.inj htail).1.symm
  | case3 rest hpair =>
    rw [closing?.eq_3 _ _ hpair, if_pos rfl]
    refine iff_of_false (by simp) ?_
    rintro ⟨hs, hline, -⟩
    cases inside with
    | nil => cases hs
    | cons c inside => exact hline (by rw [(List.cons.inj hs).1]; exact List.mem_cons_self)
  | case4 c rest hpair hc ih =>
    rw [closing?.eq_3 _ _ hpair, if_neg hc, Option.map_eq_some_iff]
    constructor
    · rintro ⟨⟨inside, after⟩, h, ⟨⟩⟩
      obtain ⟨rfl, hline, hinside⟩ := ih.1 h
      refine ⟨rfl, by simpa [Ne.symm hc] using hline, ?_⟩
      rw [List.cons_append, pair_infix_cons, not_or]
      refine ⟨?_, hinside⟩
      rintro ⟨hbrace, hhead⟩
      cases inside with
      | nil => exact hpair _ hbrace rfl
      | cons d inside => exact hpair _ hbrace (by rw [Option.some.inj hhead]; rfl)
    · rintro ⟨hs, hline, hinside⟩
      cases inside with
      | nil =>
        obtain ⟨hbrace, hrest⟩ := List.cons.inj hs
        exact absurd hrest (fun h ↦ hpair _ hbrace h)
      | cons d inside =>
        obtain ⟨rfl, rfl⟩ := List.cons.inj hs
        rw [List.cons_append, pair_infix_cons, not_or] at hinside
        rw [List.mem_cons, not_or] at hline
        exact ⟨(inside, after), ih.2 ⟨rfl, hline.2, hinside.2⟩, rfl⟩

/-- An expression has a character at least, with which its closing cannot begin. -/
theorem expression?_cons_eq_some_iff {c : Char} {s inside after : List Char} :
    expression? (c :: s) = some (inside, after) ↔
      ∃ body, inside = c :: body ∧ c ≠ '\n' ∧ closing? s = some (body, after) := by
  rw [expression?]
  split
  · rename_i hc
    simp [hc]
  · rename_i hc
    rw [Option.map_eq_some_iff]
    constructor
    · rintro ⟨⟨body, after⟩, h, ⟨⟩⟩
      exact ⟨body, rfl, hc, h⟩
    · rintro ⟨body, rfl, -, h⟩
      exact ⟨(body, after), h, rfl⟩

/-! ## Parts -/

/-- A part of a template as it is written. -/
inductive Part where
  | text (t : String)
  | expression (e : String)

namespace Part

/-- The part in writing. -/
def write : Part → String
  | .text t => t
  | .expression e => "\x7b\x7b" ++ e ++ "\x7d\x7d"

/-- Read where it stands, the part is what was written. -/
def Fits : Part → Prop
  | .text t => ¬"\x7b\x7b".toList <:+: t.toList ∧ t.toList.getLast? ≠ some '{'
  | .expression e => e ≠ "" ∧ '\n' ∉ e.toList ∧ ¬"\x7d\x7d".toList <:+: (e ++ "\x7d").toList

instance (p : Part) : Decidable p.Fits :=
  match p with
  | .text t => inferInstanceAs
      (Decidable (¬"\x7b\x7b".toList <:+: t.toList ∧ t.toList.getLast? ≠ some '{'))
  | .expression e => inferInstanceAs
      (Decidable (e ≠ "" ∧ '\n' ∉ e.toList ∧ ¬"\x7d\x7d".toList <:+: (e ++ "\x7d").toList))

/-- Whether the part is an expression. -/
def isExpression : Part → Bool
  | .text _ => false
  | .expression _ => true

/-- The expression that a template with the part lists, without the blanks around it. -/
def listed : Part → Option String
  | .text _ => none
  | .expression e => if Text.trim e = "" then none else some (Text.trim e)

/-- What is read where the part was written. -/
def pieces : Part → List Piece
  | .text t => t.toList.map .literal
  | .expression e => [.expression e.toList]

end Part

/-- The template that is put together from parts. -/
def write (parts : List Part) : String := String.join (parts.map Part.write)

/-- A character that begins no opening. -/
theorem pieces_cons {c : Char} {s : List Char} (h : ¬(c = '{' ∧ s.head? = some '{')) :
    Template.pieces (c :: s) = .literal c :: Template.pieces s := by
  rw [Template.pieces]
  rintro rest rfl rfl
  exact h ⟨rfl, rfl⟩

theorem pieces_text {t : List Char} (hopening : ¬['{', '{'] <:+: t) (hlast : t.getLast? ≠ some '{')
    (s : List Char) : Template.pieces (t ++ s) = t.map .literal ++ Template.pieces s := by
  induction t with
  | nil => rfl
  | cons c t ih =>
    rw [pair_infix_cons, not_or] at hopening
    rw [List.cons_append, pieces_cons, ih hopening.2, List.map_cons, List.cons_append]
    · cases t with
      | nil => simp
      | cons d t => rwa [List.getLast?_cons_cons] at hlast
    · rintro ⟨rfl, hhead⟩
      cases t with
      | nil => exact hlast rfl
      | cons d t => exact hopening.1 ⟨rfl, hhead⟩

theorem pieces_expression {e : List Char} (hne : e ≠ []) (hline : '\n' ∉ e)
    (hclosing : ¬['}', '}'] <:+: e ++ ['}']) (s : List Char) :
    Template.pieces ('{' :: '{' :: (e ++ '}' :: '}' :: s)) =
      .expression e :: Template.pieces s := by
  obtain ⟨c, body, rfl⟩ := List.exists_cons_of_ne_nil hne
  rw [List.cons_append, pair_infix_cons, not_or] at hclosing
  rw [List.mem_cons, not_or] at hline
  have hexpression : expression? (c :: (body ++ '}' :: '}' :: s)) = some (c :: body, s) :=
    expression?_cons_eq_some_iff.2 ⟨body, rfl, Ne.symm hline.1,
      closing?_eq_some_iff.2 ⟨rfl, hline.2, hclosing.2⟩⟩
  rw [Template.pieces]
  split
  · rename_i inside after h
    cases h.symm.trans hexpression
    rfl
  · rename_i h
    cases h.symm.trans hexpression

/-- **What was written is read again.** -/
theorem pieces_write {parts : List Part} (h : ∀ p ∈ parts, p.Fits) :
    Template.pieces (write parts).toList = parts.flatMap Part.pieces := by
  induction parts with
  | nil => simp [write, Template.pieces]
  | cons p parts ih =>
    rw [List.forall_mem_cons] at h
    have hwrite : (write (p :: parts)).toList = p.write.toList ++ (write parts).toList := by
      rw [write, List.map_cons, String.join_cons, String.toList_append, write]
    rw [hwrite, List.flatMap_cons, ← ih h.2]
    cases p with
    | text t => exact pieces_text h.1.1 h.1.2 _
    | expression e =>
      obtain ⟨hne, hline, hclosing⟩ := h.1
      rw [String.toList_append] at hclosing
      rw [Part.write, String.toList_append, String.toList_append, List.append_assoc,
        List.append_assoc]
      refine pieces_expression (fun hnil ↦ hne ?_) hline hclosing _
      rwa [String.toList_eq_nil_iff] at hnil

theorem hasExpression_write {parts : List Part} (h : ∀ p ∈ parts, p.Fits) :
    hasExpression (write parts) = parts.any Part.isExpression := by
  rw [hasExpression, pieces_write h, List.any_flatMap]
  congr 1
  funext p
  cases p <;> simp [Part.pieces, Part.isExpression]

theorem expressions_write {parts : List Part} (h : ∀ p ∈ parts, p.Fits) :
    expressions (write parts) = parts.filterMap Part.listed := by
  have hpieces : ∀ p : Part, p.pieces.filterMap Store.exprOf = p.listed.toList := by
    intro p
    cases p with
    | text t => simp [Part.pieces, Part.listed, Store.exprOf]
    | expression e =>
      rw [Part.pieces, List.filterMap_cons, List.filterMap_nil, Part.listed,
        Store.exprOf, Text.trim]
      by_cases hblank : Text.trimChars e.toList = []
      · simp [hblank]
      · simp [hblank]
  rw [Store.expressions_eq, pieces_write h, List.filterMap_flatMap]
  induction parts with
  | nil => rfl
  | cons p parts ih =>
    rw [List.flatMap_cons, List.filterMap_cons, ih (fun q hq ↦ h q (List.mem_cons_of_mem _ hq)),
      hpieces]
    cases p.listed <;> rfl

end Template

/-! ## What is rendered -/

namespace Store

open Template (Part)

/-- What a part shows: a text itself, and an expression its value.  A blank expression shows
nothing. -/
def partText (s : Store) (root : Value) : Part → Except StateError String
  | .text t => .ok t
  | .expression e =>
    if Text.trim e = "" then .ok "" else (s.getValue e root).1.map s.display

theorem fillPieces_append (s : Store) (root : Value) (ps qs : List Template.Piece) :
    s.fillPieces root (ps ++ qs) = do
      let before ← s.fillPieces root ps
      let after ← s.fillPieces root qs
      return before ++ after := by
  induction ps with
  | nil =>
    rw [List.nil_append, fillPieces]
    cases s.fillPieces root qs <;> rfl
  | cons p ps ih =>
    cases p with
    | literal c =>
      rw [List.cons_append, fillPieces, fillPieces, ih]
      cases s.fillPieces root ps with
      | error e => rfl
      | ok before => cases s.fillPieces root qs <;> rfl
    | expression e =>
      rw [List.cons_append, fillPieces, fillPieces, ih]
      split
      · rfl
      · cases s.resolve (String.ofList e) root with
        | error e => rfl
        | ok v =>
          cases s.fillPieces root ps with
          | error e => rfl
          | ok before =>
            cases s.fillPieces root qs with
            | error e => rfl
            | ok after =>
              show Except.ok _ = Except.ok _
              rw [List.append_assoc]

theorem fillPieces_part (s : Store) (root : Value) (p : Part) :
    s.fillPieces root p.pieces = (s.partText root p).map String.toList := by
  cases p with
  | text t =>
    show s.fillPieces root (t.toList.map .literal) = .ok t.toList
    induction t.toList with
    | nil => rfl
    | cons c t ih =>
      rw [List.map_cons, fillPieces, ih]
      rfl
  | expression e =>
    rw [Part.pieces, fillPieces, fillPieces, partText, String.ofList_toList,
      getValue_fst, Text.trim]
    by_cases hblank : Text.trimChars e.toList = []
    · rw [hblank]
      rfl
    · rw [if_neg (by simpa using hblank), if_neg (by simpa using hblank)]
      cases s.resolve e root with
      | error e => rfl
      | ok v => exact congrArg Except.ok (List.append_nil _)

/-- **What is rendered are the texts of the parts**, or the error of the first part that has
none. -/
theorem render_write {parts : List Part} (h : ∀ p ∈ parts, p.Fits) (root : Value) (s : Store) :
    (s.render (Template.write parts) root).1 = (parts.mapM (s.partText root)).map String.join := by
  have hfill : s.fillPieces root (parts.flatMap Part.pieces) =
      (parts.mapM (s.partText root)).map fun texts ↦ (String.join texts).toList := by
    clear h
    induction parts with
    | nil => rfl
    | cons p parts ih =>
      rw [List.flatMap_cons, fillPieces_append, fillPieces_part, ih, List.mapM_cons]
      cases s.partText root p with
      | error e => rfl
      | ok text =>
        cases parts.mapM (s.partText root) with
        | error e => rfl
        | ok texts =>
          show Except.ok (text.toList ++ (String.join texts).toList) =
            Except.ok (String.join (text :: texts)).toList
          rw [String.join_cons, String.toList_append]
  obtain ⟨reads, hrender⟩ := s.exists_render_eq (Template.write parts) root
  rw [hrender, filled, Template.pieces_write h, hfill]
  cases parts.mapM (s.partText root) with
  | error e => rfl
  | ok texts => exact congrArg Except.ok String.ofList_toList

end Store

/-- **Interpolation is compositional.**  A template is put together from texts, which have no
opening in them and do not end in half of one, and from expressions, which have a character at least
and neither a line break nor, with the brace that follows, a closing in them.  It has an expression
if one of the parts is one; its expressions are those of the parts, trimmed and without the blank
ones; and rendering gives what the parts show, or the error of the first part that shows nothing. -/
theorem composition {parts : List Template.Part} (h : ∀ p ∈ parts, p.Fits) (root : Value)
    (s : Store) :
    Template.hasExpression (Template.write parts) = parts.any Template.Part.isExpression ∧
      Template.expressions (Template.write parts) = parts.filterMap Template.Part.listed ∧
      (s.render (Template.write parts) root).1 =
        (parts.mapM (s.partText root)).map String.join :=
  ⟨Template.hasExpression_write h, Template.expressions_write h, s.render_write h root⟩

/-! ## Braces everywhere -/

/-- Parts with braces at their edges and in them. -/
def bracedParts : List Template.Part :=
  [.text "\x7d\x7d \x7ba\x7d ", .expression "\x7b s ", .expression "  ", .text "", .text "\n",
    .expression "\x7dn"]

/-- An object whose keys have braces, too, and with a value that looks like a template. -/
def bracedState : Store :=
  (Store.observe (.object [("\x7b s", .string "\x7b\x7bn\x7d\x7d"), ("\x7dn", .int 1)]) .empty).2

/-- The parts are found, and the value that looks like a template is not rendered in its turn. -/
theorem composition_of_bracedParts :
    (∀ p ∈ bracedParts, p.Fits) ∧
      Template.write bracedParts =
        "\x7d\x7d \x7ba\x7d \x7b\x7b\x7b s \x7d\x7d\x7b\x7b  \x7d\x7d\n\x7b\x7b\x7dn\x7d\x7d" ∧
      Template.hasExpression (Template.write bracedParts) = true ∧
      Template.expressions (Template.write bracedParts) = ["\x7b s", "\x7dn"] ∧
      ((bracedState.render (Template.write bracedParts) (.object 0)).1).toOption =
        some "\x7d\x7d \x7ba\x7d \x7b\x7bn\x7d\x7d\n1" := by
  have hfits : ∀ p ∈ bracedParts, p.Fits := by decide +kernel
  obtain ⟨hhas, hexpressions, hrender⟩ := composition hfits (.object 0) bracedState
  rw [hhas, hexpressions, hrender]
  exact ⟨hfits, by decide +kernel, by decide +kernel, by decide +kernel, by decide +kernel⟩

end DataBinding
