import DataBinding.State.Path
import DataBinding.State.Snapshot

/-!
# Interpolated text

A template is a text in which expressions stand between double braces.  An opening `{{` belongs to
an expression when a `}}` follows on the same line after one character at least; the expression ends
at the first such `}}`.  An opening that belongs to no expression is plain text, and the search goes
on at the next character.

Rendering puts the text of each expression's value in its place.  The text that was put in is never
searched again.  A blank expression renders as nothing and reads nothing.
-/

set_option autoImplicit false

namespace DataBinding

namespace Template

/-- A part of a template. -/
inductive Piece where
  | literal (c : Char)
  | expression (text : List Char)
  deriving DecidableEq

/-- What stands before the first `}}` on this line, and what stands after it. -/
def closing? : List Char → Option (List Char × List Char)
  | [] => none
  | '}' :: '}' :: rest => some ([], rest)
  | c :: rest =>
    if c = '\n' then none else (closing? rest).map fun (inside, after) ↦ (c :: inside, after)

/-- The expression that an opening, already passed, belongs to, and the text after its closing. -/
def expression? : List Char → Option (List Char × List Char)
  | [] => none
  | c :: rest =>
    if c = '\n' then none else (closing? rest).map fun (inside, after) ↦ (c :: inside, after)

theorem closing?_length {s inside after : List Char} (h : closing? s = some (inside, after)) :
    after.length < s.length := by
  induction s using closing?.induct generalizing inside with
  | case1 => simp [closing?] at h
  | case2 rest =>
    simp only [closing?, Option.some.injEq, Prod.mk.injEq] at h
    rw [← h.2]
    simp only [List.length_cons]
    omega
  | case3 rest _ => simp [closing?] at h
  | case4 c rest hpair hc ih =>
    rw [closing?.eq_3 _ _ hpair, if_neg hc, Option.map_eq_some_iff] at h
    obtain ⟨⟨inside', after'⟩, heq, hpair'⟩ := h
    simp only [Prod.mk.injEq] at hpair'
    have := ih (hpair'.2 ▸ heq)
    simp only [List.length_cons]
    omega

theorem expression?_length {s inside after : List Char}
    (h : expression? s = some (inside, after)) : after.length < s.length := by
  cases s with
  | nil => simp [expression?] at h
  | cons c rest =>
    rw [expression?] at h
    split at h
    · simp at h
    · rw [Option.map_eq_some_iff] at h
      obtain ⟨⟨inside', after'⟩, heq, hpair⟩ := h
      simp only [Prod.mk.injEq] at hpair
      have := closing?_length (hpair.2 ▸ heq)
      simp only [List.length_cons]
      omega

/-- The parts of a template, in order. -/
def pieces : List Char → List Piece
  | [] => []
  | '{' :: '{' :: rest =>
    match _h : expression? rest with
    | some (inside, after) => .expression inside :: pieces after
    | none => .literal '{' :: pieces ('{' :: rest)
  | c :: rest => .literal c :: pieces rest
termination_by s => s.length
decreasing_by
  all_goals simp_wf
  all_goals try have := expression?_length _h
  all_goals omega

/-- Whether a template has an expression in it. -/
def hasExpression (template : String) : Bool :=
  (pieces template.toList).any fun piece ↦ match piece with
    | .expression _ => true
    | .literal _ => false

/-- The expressions of a template, in order, without the blanks around them; blank ones are left
out. -/
def expressions (template : String) : List String :=
  (pieces template.toList).filterMap fun piece ↦ match piece with
    | .expression text =>
      let trimmed := Text.trimChars text
      if trimmed.isEmpty then none else some (String.ofList trimmed)
    | .literal _ => none

end Template

namespace Store

/-- Puts the text of the expressions in their places, from left to right. -/
def renderPieces (root : Value) :
    List Template.Piece → Store → Except StateError (List Char) × Store
  | [], s => (.ok [], s)
  | .literal c :: rest, s =>
    match renderPieces root rest s with
    | (.ok text, s) => (.ok (c :: text), s)
    | (.error e, s) => (.error e, s)
  | .expression expr :: rest, s =>
    if (Text.trimChars expr).isEmpty then renderPieces root rest s
    else match s.getValue (String.ofList expr) root with
      | (.error e, s) => (.error e, s)
      | (.ok v, s) =>
        let shown := s.display v
        match renderPieces root rest s with
        | (.ok text, s) => (.ok (shown.toList ++ text), s)
        | (.error e, s) => (.error e, s)

/-- The text of a template, or the error of the first expression that does not resolve. -/
def render (template : String) (root : Value) (s : Store) : Except StateError String × Store :=
  let (result, s) := s.renderPieces root (Template.pieces template.toList)
  (result.map String.ofList, s)

end Store

end DataBinding
