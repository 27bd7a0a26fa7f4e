import DataBinding.Markup.Token
import Mathlib.Data.List.TakeWhile

/-!
# Cutting a text at byte positions

A scanner may find its way by counting bytes, and cut the text at the positions that it has counted
out.  A text can only be cut at a boundary between two characters (`sliceFrom_eq_ok_iff`);
everything else is a `Slip`.

Bytes are looked at one by one, so the bytes that pass a test need not end at a boundary.  **They do
if the test treats all characters outside of ASCII alike** (`takeWhile_bytes`), because no byte of
such a character is an ASCII character itself.
-/

set_option autoImplicit false

namespace DataBinding

/-- What a scanner that counts bytes can do wrong. -/
inductive Slip where
  /-- A text is cut behind its end or inside of a character. -/
  | cut (position : Nat)
  /-- A round of a loop does not advance inside of the text. -/
  | idle (position : Nat)
  deriving DecidableEq, Repr

namespace Text

variable {s t u : List Char} {n : Nat}

/-! ## Cutting -/

/-- An ASCII character takes one byte. -/
theorem byteSize_singleton {c : Char} (hc : c.toNat < 128) : byteSize [c] = 1 := by
  have hsize : c.utf8Size = 1 := Char.utf8Size_eq_one_iff.2 (UInt32.le_iff_toNat_le.2 (by
    show c.toNat ≤ 127
    omega))
  rw [byteSize, hsize, byteSize]

/-- The position is one between characters of the text, or at an end of it. -/
def Boundary (s : List Char) (n : Nat) : Prop := ∃ t u, s = t ++ u ∧ byteSize t = n

theorem Boundary.le (h : Boundary s n) : n ≤ byteSize s := by
  obtain ⟨t, u, rfl, rfl⟩ := h
  rw [byteSize_append]
  exact Nat.le_add_right ..

/-- The two parts of a text at a position, if there is a boundary. -/
def cutAt (n : Nat) : List Char → Option (List Char × List Char)
  | [] => if n = 0 then some ([], []) else none
  | c :: s =>
    if n = 0 then some ([], c :: s)
    else if c.utf8Size ≤ n then (cutAt (n - c.utf8Size) s).map fun x ↦ (c :: x.1, x.2)
    else none

theorem cutAt_eq_some_iff : cutAt n s = some (t, u) ↔ s = t ++ u ∧ byteSize t = n := by
  induction s generalizing n t with
  | nil =>
    rw [cutAt]
    constructor
    · intro h
      split at h
      · rename_i hn
        cases h
        exact ⟨rfl, hn.symm⟩
      · cases h
    · rintro ⟨hs, rfl⟩
      obtain ⟨rfl, rfl⟩ := List.append_eq_nil_iff.1 hs.symm
      rfl
  | cons c s ih =>
    have hc := c.utf8Size_pos
    rw [cutAt]
    constructor
    · intro h
      split at h
      · rename_i hn
        cases h
        exact ⟨rfl, hn.symm⟩
      · split at h
        · obtain ⟨⟨t', u'⟩, hcut, heq⟩ := Option.map_eq_some_iff.1 h
          cases heq
          obtain ⟨rfl, hsize⟩ := ih.1 hcut
          refine ⟨rfl, ?_⟩
          rw [byteSize, hsize]
          omega
        · cases h
    · rintro ⟨hs, rfl⟩
      cases t with
      | nil =>
        rw [List.nil_append] at hs
        rw [byteSize, if_pos rfl, hs]
      | cons c' t =>
        obtain ⟨rfl, rfl⟩ := List.cons_eq_cons.1 hs
        rw [byteSize, if_neg (by omega), if_pos (by omega), Nat.add_sub_cancel_left,
          ih.2 ⟨rfl, rfl⟩]
        rfl

/-- There is a boundary exactly where the text can be cut. -/
theorem boundary_iff : Boundary s n ↔ (cutAt n s).isSome = true := by
  rw [Option.isSome_iff_exists]
  constructor
  · rintro ⟨t, u, hs, hn⟩
    exact ⟨(t, u), cutAt_eq_some_iff.2 ⟨hs, hn⟩⟩
  · rintro ⟨⟨t, u⟩, hcut⟩
    exact ⟨t, u, cutAt_eq_some_iff.1 hcut⟩

/-- The text from a position on. -/
def sliceFrom (n : Nat) (s : List Char) : Except Slip (List Char) :=
  match cutAt n s with
  | some x => .ok x.2
  | none => .error (.cut n)

/-- The text up to a position. -/
def sliceTo (n : Nat) (s : List Char) : Except Slip (List Char) :=
  match cutAt n s with
  | some x => .ok x.1
  | none => .error (.cut n)

/-- The text from one position to another one. -/
def slice (n m : Nat) (s : List Char) : Except Slip (List Char) :=
  if n ≤ m then sliceTo m s >>= sliceFrom n else .error (.cut m)

/-- **A text can be cut exactly at a boundary.** -/
theorem sliceFrom_eq_ok_iff : sliceFrom n s = .ok u ↔ ∃ t, s = t ++ u ∧ byteSize t = n := by
  simp only [← cutAt_eq_some_iff, sliceFrom]
  cases cutAt n s with
  | none => simp
  | some x =>
    obtain ⟨t, u'⟩ := x
    simp

theorem sliceTo_eq_ok_iff : sliceTo n s = .ok t ↔ ∃ u, s = t ++ u ∧ byteSize t = n := by
  simp only [← cutAt_eq_some_iff, sliceTo]
  cases cutAt n s with
  | none => simp
  | some x =>
    obtain ⟨t', u⟩ := x
    simp

theorem slice_append (t u v : List Char) :
    slice (byteSize t) (byteSize t + byteSize u) (t ++ u ++ v) = .ok u := by
  have hto : sliceTo (byteSize t + byteSize u) (t ++ u ++ v) = .ok (t ++ u) :=
    sliceTo_eq_ok_iff.2 ⟨v, rfl, byteSize_append t u⟩
  have hfrom : sliceFrom (byteSize t) (t ++ u) = .ok u := sliceFrom_eq_ok_iff.2 ⟨t, rfl, rfl⟩
  rw [slice, if_pos (Nat.le_add_right ..), hto]
  exact hfrom

/-- What passes a test can be cut off. -/
theorem sliceTo_takeWhile (p : Char → Bool) (s : List Char) :
    sliceTo (byteSize (s.takeWhile p)) s = .ok (s.takeWhile p) :=
  sliceTo_eq_ok_iff.2 ⟨s.dropWhile p, List.takeWhile_append_dropWhile.symm, rfl⟩

/-! ## Bytes -/

/-- The bytes of a text in UTF-8. -/
def bytes (s : List Char) : List UInt8 := s.flatMap String.utf8EncodeChar

@[simp] theorem bytes_nil : bytes [] = [] := rfl

theorem bytes_cons (c : Char) (s : List Char) :
    bytes (c :: s) = String.utf8EncodeChar c ++ bytes s := rfl

@[simp] theorem length_bytes (s : List Char) : (bytes s).length = byteSize s := by
  induction s with
  | nil => rfl
  | cons c s ih => rw [bytes_cons, List.length_append, String.length_utf8EncodeChar, ih, byteSize]

/-- The character with the number of a byte. -/
def ofByte (b : UInt8) : Char := Char.ofNat b.toNat

theorem toNat_ofByte (b : UInt8) : (ofByte b).toNat = b.toNat := by
  have hvalid : b.toNat.isValidChar := .inl (Nat.lt_trans b.toNat_lt (by decide))
  rw [ofByte, Char.ofNat, dif_pos hvalid]
  rfl

/-- An ASCII character is its own and only byte; the bytes of other characters are none of ASCII. -/
theorem ofByte_of_mem {c : Char} {b : UInt8} (hb : b ∈ String.utf8EncodeChar c) :
    ofByte b = c ∨ 128 ≤ c.toNat ∧ 128 ≤ (ofByte b).toNat := by
  have hhigh : ∀ k, 128 ≤ k → k < 256 → 128 ≤ (UInt8.ofNat k).toNat := by
    intro k hk hlt
    rwa [UInt8.toNat_ofNat', Nat.mod_eq_of_lt hlt]
  unfold String.utf8EncodeChar at hb
  simp only at hb
  split at hb
  · rename_i hc
    left
    rw [List.mem_singleton] at hb
    apply Char.toNat_inj.1
    rw [toNat_ofByte, hb, UInt8.toNat_ofNat', Nat.mod_eq_of_lt (by omega)]
    rfl
  · rename_i hc
    right
    have hsize : c.val.toNat < 0x110000 := by
      rcases c.valid with h | h <;> omega
    refine ⟨Nat.lt_of_not_le hc, ?_⟩
    rw [toNat_ofByte]
    split at hb
    · simp only [List.mem_cons, List.not_mem_nil, or_false] at hb
      rcases hb with rfl | rfl <;> exact hhigh _ (by omega) (by omega)
    · split at hb
      · simp only [List.mem_cons, List.not_mem_nil, or_false] at hb
        rcases hb with rfl | rfl | rfl <;> exact hhigh _ (by omega) (by omega)
      · simp only [List.mem_cons, List.not_mem_nil, or_false] at hb
        rcases hb with rfl | rfl | rfl | rfl <;> exact hhigh _ (by omega) (by omega)

/-- The test treats all characters outside of ASCII alike. -/
def Uniform (p : Char → Bool) : Prop := ∀ c d, 128 ≤ c.toNat → 128 ≤ d.toNat → p c = p d

namespace Uniform

variable {p q : Char → Bool}

/-- A test that only ASCII characters pass. -/
theorem of_lt (h : ∀ c, p c = true → c.toNat < 128) : Uniform p := by
  have hfalse : ∀ c : Char, 128 ≤ c.toNat → p c = false := fun c hc ↦
    Bool.eq_false_iff.2 fun hp ↦ absurd (h c hp) (Nat.not_lt.2 hc)
  intro c d hc hd
  rw [hfalse c hc, hfalse d hd]

theorem beq {k : Char} (hk : k.toNat < 128) : Uniform (· == k) :=
  of_lt fun c hc ↦ by rwa [beq_iff_eq.1 hc]

theorem not (h : Uniform p) : Uniform (!p ·) := fun c d hc hd ↦
  congrArg Bool.not (h c d hc hd)

theorem or (hp : Uniform p) (hq : Uniform q) : Uniform fun c ↦ p c || q c := fun c d hc hd ↦
  congrArg₂ Bool.or (hp c d hc hd) (hq c d hc hd)

/-- **A byte passes the test exactly if its character does.** -/
theorem apply_byte (h : Uniform p) {c : Char} {b : UInt8} (hb : b ∈ String.utf8EncodeChar c) :
    p (ofByte b) = p c := by
  rcases ofByte_of_mem hb with heq | ⟨hc, hbyte⟩
  · rw [heq]
  · exact h _ _ hbyte hc

end Uniform

section Scan

variable {p : Char → Bool}

/-- **The bytes that pass a test are those of the characters that do.** -/
theorem takeWhile_bytes (hp : Uniform p) (s : List Char) :
    (bytes s).takeWhile (fun b ↦ p (ofByte b)) = bytes (s.takeWhile p) := by
  induction s with
  | nil => rfl
  | cons c s ih =>
    have hbytes : ∀ b ∈ String.utf8EncodeChar c, p (ofByte b) = p c := fun _ ↦ hp.apply_byte
    rw [bytes_cons]
    cases hc : p c with
    | true =>
      rw [List.takeWhile_append_of_pos fun b hb ↦ (hbytes b hb).trans hc, ih,
        List.takeWhile_cons_of_pos hc, bytes_cons]
    | false =>
      rw [List.takeWhile_cons_of_neg (by simp [hc])]
      obtain ⟨b, bs, hcons⟩ := List.exists_cons_of_ne_nil (String.utf8EncodeChar_ne_nil (c := c))
      rw [hcons, List.cons_append, List.takeWhile_cons_of_neg, bytes_nil]
      rw [hbytes b (by simp [hcons]), hc]
      simp

theorem length_takeWhile_bytes (hp : Uniform p) (s : List Char) :
    ((bytes s).takeWhile fun b ↦ p (ofByte b)).length = byteSize (s.takeWhile p) := by
  rw [takeWhile_bytes hp, length_bytes]

theorem head?_bytes (hp : Uniform p) (s : List Char) :
    (bytes s).head?.any (fun b ↦ p (ofByte b)) = s.head?.any p := by
  cases s with
  | nil => rfl
  | cons c s =>
    obtain ⟨b, bs, hcons⟩ := List.exists_cons_of_ne_nil (String.utf8EncodeChar_ne_nil (c := c))
    have hb : p (ofByte b) = p c := hp.apply_byte (by simp [hcons])
    rw [bytes_cons, hcons]
    simpa using hb

/-- The first byte is an ASCII character exactly if the first character is. -/
theorem head?_map_bytes {k : Char} (hk : k.toNat < 128) (s : List Char) :
    (bytes s).head?.map ofByte = some k ↔ s.head? = some k := by
  have h := head?_bytes (.beq hk) s
  rw [Bool.eq_iff_iff] at h
  simpa [Option.any_eq_true] using h

end Scan

/-! ## Finding -/

/-- The position of the first occurrence of a character. -/
def findChar (k : Char) (s : List Char) : Option Nat :=
  if k ∈ s then some (byteSize (s.takeWhile (· != k))) else none

/-- The position of the first occurrence of a text. -/
def findText (pattern : List Char) : List Char → Option Nat
  | [] => if pattern.isEmpty then some 0 else none
  | c :: s =>
    if pattern.isPrefixOf (c :: s) then some 0
    else (findText pattern s).map (c.utf8Size + ·)

/-- A character that occurs is found behind everything before its first occurrence. -/
theorem findChar_append {k : Char} (ht : k ∉ t) (u : List Char) :
    findChar k (t ++ k :: u) = some (byteSize t) := by
  have hpass : ∀ c ∈ t, (c != k) = true := fun c hc ↦ bne_iff_ne.2 fun heq ↦ ht (heq ▸ hc)
  rw [findChar, if_pos (by simp), List.takeWhile_append_of_pos hpass,
    List.takeWhile_cons_of_neg (by simp), List.append_nil]

theorem findChar_eq_none {k : Char} (hs : k ∉ s) : findChar k s = none := if_neg hs

/-- **An ASCII character is found by bytes where it is found by characters.** -/
theorem findIdx?_bytes {k : Char} (hk : k.toNat < 128) (s : List Char) :
    (bytes s).findIdx? (fun b ↦ ofByte b == k) = findChar k s := by
  induction s with
  | nil => rfl
  | cons c s ih =>
    have hbytes : ∀ b ∈ String.utf8EncodeChar c, (ofByte b == k) = (c == k) := fun _ ↦
      (Uniform.beq hk).apply_byte
    rw [bytes_cons, List.findIdx?_append, ih, findChar, findChar]
    cases hc : c == k with
    | true =>
      obtain ⟨b, bs, hcons⟩ := List.exists_cons_of_ne_nil (String.utf8EncodeChar_ne_nil (c := c))
      have hb : (ofByte b == k) = true := (hbytes b (by simp [hcons])).trans hc
      rw [hcons, List.findIdx?_cons, if_pos hb, beq_iff_eq.1 hc]
      simp [byteSize]
    | false =>
      have hnone : (String.utf8EncodeChar c).findIdx? (fun b ↦ ofByte b == k) = none :=
        List.findIdx?_eq_none_iff.2 fun b hb ↦ (hbytes b hb).trans hc
      have hne : k ≠ c := fun heq ↦ by simp [heq] at hc
      rw [hnone]
      by_cases hmem : k ∈ s
      · simp [hmem, hne.symm, byteSize, Nat.add_comm]
      · simp [hmem, hne]

/-- Where a character is found, or where the text ends. -/
theorem getD_findChar (k : Char) (s : List Char) :
    (findChar k s).getD (byteSize s) = byteSize (s.takeWhile (· != k)) := by
  rw [findChar]
  split
  · rfl
  · rename_i hs
    have hpass : ∀ c ∈ s, (c != k) = true := fun c hc ↦ bne_iff_ne.2 fun heq ↦ hs (heq ▸ hc)
    rw [Option.getD_none, List.takeWhile_eq_self_iff.2 hpass]

end Text

end DataBinding
