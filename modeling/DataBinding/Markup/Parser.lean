import DataBinding.Document.Serializer
import DataBinding.Markup.Token

/-!
# Markup as a document

The parser reads token after token and puts each where it belongs: a text or an element becomes the
last child of the innermost open element, a closing tag closes that element.  There is no recovery —
every element that is not void must be closed, and by its own name — so the first thing that is
wrong is the error.
-/

set_option autoImplicit false

namespace DataBinding.Document

/-- The innermost open element, or the document itself. -/
def innermost : List (NodeId × String) → NodeId
  | [] => root
  | (id, _) :: _ => id

/-- Puts a token where it belongs.  `s` is the input from the token on, and `pending` are the open
elements, innermost first. -/
def place (total : Nat) (s : List Char) (d : Document) (pending : List (NodeId × String)) :
    Markup.Token → Except MarkupError (Document × List (NodeId × String))
  | .skipped => .ok (d, pending)
  | .text t =>
    let (id, d) := d.push (.text t)
    .ok (d.append (innermost pending) id, pending)
  | .opening tag attributes selfClosing =>
    let (id, d) := d.push (.element ⟨tag, attributes, none⟩)
    let d := d.append (innermost pending) id
    .ok (d, if selfClosing || Markup.isVoid tag then pending else (id, tag) :: pending)
  | .closing tag =>
    match pending with
    | [] => .error (.unexpectedClose tag (Markup.offsetOf total s))
    | (_, expected) :: rest =>
      if tag = expected then .ok (d, rest)
      else .error (.mismatchedClose expected tag (Markup.offsetOf total s))

/-- Reads what is left of the input into the document. -/
def readAll (total : Nat) (d : Document) (pending : List (NodeId × String)) (s : List Char) :
    Except MarkupError Document :=
  if _hs : s = [] then
    if pending.isEmpty then .ok d else .error (.unexpectedEnd total .element)
  else
    match _ht : Markup.nextToken total s with
    | .error e => .error e
    | .ok (token, rest) =>
      match place total s d pending token with
      | .error e => .error e
      | .ok (d, pending) => readAll total d pending rest
termination_by s.length
decreasing_by exact Markup.nextToken_length _hs _ht

section Equations

variable {total : Nat} {d : Document} {pending : List (NodeId × String)} {s rest : List Char}
  {token : Markup.Token} {e : MarkupError}

theorem readAll_nil :
    readAll total d pending [] =
      if pending.isEmpty then .ok d else .error (.unexpectedEnd total .element) := by
  rw [readAll, dif_pos rfl]

theorem readAll_of_error (hs : s ≠ []) (h : Markup.nextToken total s = .error e) :
    readAll total d pending s = .error e := by
  rw [readAll, dif_neg hs]
  split
  · rename_i hread
    cases hread.symm.trans h
    rfl
  · rename_i hread
    cases hread.symm.trans h

theorem readAll_of_token (hs : s ≠ []) (h : Markup.nextToken total s = .ok (token, rest)) :
    readAll total d pending s =
      match place total s d pending token with
      | .error e => .error e
      | .ok (d, pending) => readAll total d pending rest := by
  rw [readAll, dif_neg hs]
  split
  · rename_i hread
    cases hread.symm.trans h
  · rename_i hread
    cases hread.symm.trans h
    rfl

end Equations

/-- The document that a text of markup writes. -/
def parse (markup : String) : Except MarkupError Document :=
  readAll (Text.byteSize markup.toList) empty [] markup.toList

end DataBinding.Document
