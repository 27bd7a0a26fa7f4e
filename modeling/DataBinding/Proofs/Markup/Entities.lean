import DataBinding.Proofs.Markup.EscapedText
import Mathlib.Data.List.Forall2
import Mathlib.Data.Nat.Digits.Defs
import Mathlib.Tactic.IntervalCases

/-!
# What entities are decoded to

`Replaced names s t` says, without saying how it is found out, that `t` is `s` with what stands
between an ampersand and the next semicolon replaced by the character that it names.  It goes from
left to right, and what has been put in is not looked at again.  The names that markup knows are
`EntityName`.

The reader of numbers lets a plus sign stand before the digits, so that some texts are decoded that
are no entities.  These are the `SignedName`s, and there is nothing else: **decoding replaces
entities and signed numbers, and it is what replacing entities gives exactly if no signed number
occurs** (`decode_iff`).
-/

set_option autoImplicit false

namespace DataBinding.Markup

/-! ## The reference -/

/-- A character is a digit of a base.  Letters may be in either case. -/
def IsDigit (base : Nat) (c : Char) (d : Nat) : Prop := d < base ∧ c.toLower = Nat.digitChar d

/-- A row of digits, of which there is one at least, writes a number. -/
def Numeral (base : Nat) (digits : List Char) (n : Nat) : Prop :=
  digits ≠ [] ∧ ∃ ds, List.Forall₂ (IsDigit base) digits ds ∧ Nat.ofDigits base ds.reverse = n

/-- What may stand between ampersand and semicolon, and the character that it stands for. -/
inductive EntityName : List Char → Char → Prop
  | amp : EntityName ['a', 'm', 'p'] '&'
  | lt : EntityName ['l', 't'] '<'
  | gt : EntityName ['g', 't'] '>'
  | quot : EntityName ['q', 'u', 'o', 't'] '"'
  | apos : EntityName ['a', 'p', 'o', 's'] '\''
  | nbsp : EntityName ['n', 'b', 's', 'p'] '\u00a0'
  | decimal {digits : List Char} {c : Char} (h : Numeral 10 digits c.toNat) :
      EntityName ('#' :: digits) c
  | hexadecimal {x c : Char} {digits : List Char} (hx : x = 'x' ∨ x = 'X')
      (h : Numeral 16 digits c.toNat) : EntityName ('#' :: x :: digits) c

/-- A number with a plus sign, and its character. -/
inductive SignedName : List Char → Char → Prop
  | decimal {digits : List Char} {c : Char} (h : Numeral 10 digits c.toNat) :
      SignedName ('#' :: '+' :: digits) c
  | hexadecimal {x c : Char} {digits : List Char} (hx : x = 'x' ∨ x = 'X')
      (h : Numeral 16 digits c.toNat) : SignedName ('#' :: x :: '+' :: digits) c

/-- A name that is decoded. -/
def DecodedName (name : List Char) (c : Char) : Prop := EntityName name c ∨ SignedName name c

section Reference

variable (names : List Char → Char → Prop)

/-- What comes after an ampersand is a name, a semicolon that is ten bytes after the ampersand at
most, and the rest. -/
def Begins (s : List Char) (c : Char) (rest : List Char) : Prop :=
  ∃ name, s = name ++ ';' :: rest ∧ ';' ∉ name ∧ Text.byteSize ('&' :: name) ≤ 10 ∧ names name c

/-- The second text is the first one with names replaced by their characters, from left to right. -/
inductive Replaced : List Char → List Char → Prop
  | nil : Replaced [] []
  | plain {c : Char} {s t : List Char} (hc : c ≠ '&') (h : Replaced s t) :
      Replaced (c :: s) (c :: t)
  | entity {s rest t : List Char} {c : Char} (hs : Begins names s c rest) (h : Replaced rest t) :
      Replaced ('&' :: s) (c :: t)
  | ampersand {s t : List Char} (hs : ∀ c rest, ¬Begins names s c rest) (h : Replaced s t) :
      Replaced ('&' :: s) ('&' :: t)

/-- Somewhere in the text an ampersand has a name after it. -/
def Occurs (s : List Char) : Prop :=
  ∃ before after c rest, s = before ++ '&' :: after ∧ Begins names after c rest

end Reference

/-! ## Numbers -/

theorem toLower_eq_iff {c k : Char} :
    c.toLower = k ↔ (65 ≤ c.toNat ∧ c.toNat ≤ 90 ∧ c.toNat + 32 = k.toNat) ∨
      (¬(65 ≤ c.toNat ∧ c.toNat ≤ 90) ∧ c.toNat = k.toNat) := by
  unfold Char.toLower Char.toNat
  have hA : 'A'.val.toNat = 65 := rfl
  have hZ : 'Z'.val.toNat = 90 := rfl
  rw [Char.ext_iff, ← UInt32.toNat_inj]
  split
  all_goals
    rename_i h
    simp only [ge_iff_le, UInt32.le_iff_toNat_le, hA, hZ] at h
  · have : (c.val + ('a'.val - 'A'.val)).toNat = c.val.toNat + 32 := by
      rw [UInt32.toNat_add]
      show (c.val.toNat + 32) % _ = _
      omega
    grind
  · grind

theorem digitValue?_eq_some_iff {base : Nat} (hbase : base ≤ 16) {c : Char} {d : Nat} :
    digitValue? base c = some d ↔ IsDigit base c d := by
  have hchar : ∀ d < 16, (c.toLower = Nat.digitChar d ↔
      d < 10 ∧ c.toNat = d + 48 ∨ 10 ≤ d ∧ (c.toNat = d + 87 ∨ c.toNat = d + 55)) := by
    intro d hd
    have hk : (Nat.digitChar d).toNat = if d < 10 then d + 48 else d + 87 := by
      interval_cases d <;> rfl
    rw [toLower_eq_iff, hk]
    split <;> omega
  have hvalue : digitValue? base c = (if 48 ≤ c.toNat ∧ c.toNat ≤ 57 then some (c.toNat - 48)
      else if 97 ≤ c.toNat ∧ c.toNat ≤ 102 then some (c.toNat - 97 + 10)
      else if 65 ≤ c.toNat ∧ c.toNat ≤ 70 then some (c.toNat - 65 + 10)
      else none).filter (· < base) := by
    simp only [digitValue?, Char.le_def, UInt32.le_iff_toNat_le]
    rfl
  rw [hvalue, Option.filter_eq_some_iff, decide_eq_true_eq, IsDigit, and_comm]
  refine and_congr_right fun hd ↦ ?_
  rw [hchar d (by omega)]
  split_ifs
  all_goals
    simp only [Option.some.injEq, false_iff]
    omega

theorem foldl_digits_none (base : Nat) (digits : List Char) :
    digits.foldl (fun acc c ↦ acc.bind fun n ↦ (digitValue? base c).map fun d ↦ n * base + d)
      none = none := by
  induction digits with
  | nil => rfl
  | cons c digits ih => exact ih

theorem foldl_digits_eq_some_iff {base : Nat} (hbase : base ≤ 16) {digits : List Char} {m n : Nat} :
    digits.foldl (fun acc c ↦ acc.bind fun n ↦ (digitValue? base c).map fun d ↦ n * base + d)
        (some m) = some n ↔
      ∃ ds, List.Forall₂ (IsDigit base) digits ds ∧
        m * base ^ ds.length + Nat.ofDigits base ds.reverse = n := by
  induction digits generalizing m with
  | nil => simp [List.forall₂_nil_left_iff]
  | cons c digits ih =>
    rw [List.foldl_cons, Option.bind_some]
    simp only [List.forall₂_cons_left_iff]
    cases hc : digitValue? base c with
    | none =>
      rw [Option.map_none, foldl_digits_none]
      refine iff_of_false (by simp) ?_
      rintro ⟨_, ⟨d, ds, hd, -, rfl⟩, -⟩
      rw [← digitValue?_eq_some_iff hbase, hc] at hd
      cases hd
    | some d =>
      have hvalue : ∀ ds : List Nat, m * base ^ (d :: ds).length +
          Nat.ofDigits base (d :: ds).reverse =
            (m * base + d) * base ^ ds.length + Nat.ofDigits base ds.reverse := by
        intro ds
        rw [List.reverse_cons, Nat.ofDigits_append, Nat.ofDigits_singleton, List.length_reverse,
          List.length_cons]
        ring
      rw [Option.map_some, ih]
      constructor
      · rintro ⟨ds, hds, rfl⟩
        exact ⟨d :: ds, ⟨d, ds, (digitValue?_eq_some_iff hbase).1 hc, hds, rfl⟩, hvalue ds⟩
      · rintro ⟨_, ⟨d', ds, hd, hds, rfl⟩, rfl⟩
        rw [← digitValue?_eq_some_iff hbase, hc] at hd
        cases hd
        exact ⟨ds, hds, (hvalue ds).symm⟩

theorem digitsValue?_eq_some_iff {base : Nat} (hbase : base ≤ 16) {digits : List Char} {n : Nat} :
    digitsValue? base digits = some n ↔ Numeral base digits n := by
  rw [digitsValue?, Numeral]
  cases digits with
  | nil => simp
  | cons c digits =>
    simp only [List.isEmpty_cons, Bool.false_eq_true, if_false, foldl_digits_eq_some_iff hbase,
      Nat.zero_mul, Nat.zero_add, ne_eq, reduceCtorEq, not_false_eq_true, true_and]

/-- A number is written with digits. -/
theorem Numeral.isSome_of_mem {base : Nat} (hbase : base ≤ 16) {digits : List Char} {n : Nat}
    (h : Numeral base digits n) {c : Char} (hc : c ∈ digits) :
    (digitValue? base c).isSome = true := by
  obtain ⟨-, ds, hds, -⟩ := h
  induction hds with
  | nil => cases hc
  | cons hd _ ih =>
    rcases List.mem_cons.1 hc with rfl | hc
    · rw [(digitValue?_eq_some_iff hbase).2 hd, Option.isSome_some]
    · exact ih hc

theorem numberValue?_eq_some_iff {base : Nat} (hbase : base ≤ 16) {s : List Char} {n : Nat} :
    numberValue? base s = some n ↔
      Numeral base s n ∨ ∃ digits, s = '+' :: digits ∧ Numeral base digits n := by
  unfold numberValue?
  split
  · rename_i digits
    -- A plus sign is no digit.
    rw [digitsValue?_eq_some_iff hbase, or_iff_right fun h ↦
      nomatch h.isSome_of_mem hbase (List.mem_cons_self (a := '+'))]
    simp
  · rename_i hplus
    rw [digitsValue?_eq_some_iff hbase, or_iff_left]
    rintro ⟨digits, rfl, -⟩
    exact hplus digits rfl

theorem charOfNumber?_eq_some_iff {n : Nat} {c : Char} :
    charOfNumber? n = some c ↔ c.toNat = n := by
  have hvalid : n < 0xD800 ∨ (0xDFFF < n ∧ n < 0x110000) ↔ n.isValidChar := by
    rw [Nat.isValidChar]
  rw [charOfNumber?]
  split
  · rename_i h
    rw [hvalid] at h
    constructor
    · rintro ⟨⟩
      rw [Char.ofNat, dif_pos h]
      rfl
    · rintro rfl
      rw [Char.ofNat_toNat]
  · rename_i h
    rw [hvalid] at h
    refine iff_of_false (by simp) ?_
    rintro rfl
    exact h c.valid

theorem character_eq_some_iff {base : Nat} (hbase : base ≤ 16) {s : List Char} {c : Char} :
    (numberValue? base s).bind charOfNumber? = some c ↔
      Numeral base s c.toNat ∨ ∃ digits, s = '+' :: digits ∧ Numeral base digits c.toNat := by
  rw [Option.bind_eq_some_iff, ← numberValue?_eq_some_iff hbase]
  simp only [charOfNumber?_eq_some_iff]
  constructor
  · rintro ⟨n, hn, rfl⟩
    exact hn
  · exact fun h ↦ ⟨_, h, rfl⟩

/-! ## Names -/

theorem decodedName_hexadecimal_iff {x c : Char} (hx : x = 'x' ∨ x = 'X') {digits : List Char} :
    DecodedName ('#' :: x :: digits) c ↔ (numberValue? 16 digits).bind charOfNumber? = some c := by
  rw [character_eq_some_iff (Nat.le_refl 16)]
  constructor
  · rintro (h | h)
    · cases h with
      | decimal h =>
        -- An x is no decimal digit.
        have hdigit := h.isSome_of_mem (by omega) List.mem_cons_self
        rcases hx with rfl | rfl <;> cases hdigit
      | hexadecimal _ h => exact .inl h
    · cases h with
      | decimal h => rcases hx with hx | hx <;> cases hx
      | hexadecimal _ h => exact .inr ⟨_, rfl, h⟩
  · rintro (h | ⟨digits, rfl, h⟩)
    · exact .inl (.hexadecimal hx h)
    · exact .inr (.hexadecimal hx h)

theorem decodedName_decimal_iff {c : Char} {digits : List Char} (hx : ∀ rest, digits ≠ 'x' :: rest)
    (hX : ∀ rest, digits ≠ 'X' :: rest) :
    DecodedName ('#' :: digits) c ↔ (numberValue? 10 digits).bind charOfNumber? = some c := by
  rw [character_eq_some_iff (by omega)]
  constructor
  · rintro (h | h)
    · cases h with
      | decimal h => exact .inl h
      | hexadecimal hletter _ =>
        rcases hletter with rfl | rfl
        · exact absurd rfl (hx _)
        · exact absurd rfl (hX _)
    · cases h with
      | decimal h => exact .inr ⟨_, rfl, h⟩
      | hexadecimal hletter _ =>
        rcases hletter with rfl | rfl
        · exact absurd rfl (hx _)
        · exact absurd rfl (hX _)
  · rintro (h | ⟨digits, rfl, h⟩)
    · exact .inl (.decimal h)
    · exact .inr (.decimal h)

/-- **The names that are decoded** are those of entities and signed numbers. -/
theorem entityChar?_eq_some_iff {name : List Char} {c : Char} :
    entityChar? name = some c ↔ DecodedName name c := by
  unfold entityChar?
  split_ifs
  case neg =>
    split
    · exact (decodedName_hexadecimal_iff (.inl rfl)).symm
    · exact (decodedName_hexadecimal_iff (.inr rfl)).symm
    · rename_i hx hX _ _ _ _ _ _
      exact (decodedName_decimal_iff hx hX).symm
    · rename_i hnumber
      refine iff_of_false (by simp) ?_
      rintro (h | h)
      · cases h <;> first | contradiction | exact absurd rfl (hnumber _)
      · cases h <;> exact absurd rfl (hnumber _)
  all_goals
    subst name
    constructor
    · rintro ⟨⟩
      exact .inl (by constructor)
    · rintro (h | h) <;> cases h
      rfl

/-- A name is a name of one character. -/
theorem EntityName.unique (name : List Char) (c c' : Char) (h : EntityName name c)
    (h' : EntityName name c') : c = c' :=
  Option.some.inj ((entityChar?_eq_some_iff.2 (.inl h)).symm.trans
    (entityChar?_eq_some_iff.2 (.inl h')))

/-- No entity is a signed number. -/
theorem EntityName.not_signedName {name : List Char} {c c' : Char} (h : EntityName name c) :
    ¬SignedName name c' := by
  rintro (h' | ⟨hx, h'⟩)
  · cases h with
    | decimal h => cases h.isSome_of_mem (by omega) List.mem_cons_self
    | hexadecimal hx _ => rcases hx with hx | hx <;> cases hx
  · cases h with
    | decimal h =>
      have hdigit := h.isSome_of_mem (by omega) List.mem_cons_self
      rcases hx with rfl | rfl <;> cases hdigit
    | hexadecimal _ h => cases h.isSome_of_mem (Nat.le_refl 16) List.mem_cons_self

theorem DecodedName.ampersand_not_mem {name : List Char} {c : Char} (h : DecodedName name c) :
    '&' ∉ name := by
  have hnumeral : ∀ {base n digits}, base ≤ 16 → Numeral base digits n → '&' ∉ digits := by
    intro base n digits hbase h hmem
    cases h.isSome_of_mem hbase hmem
  rcases h with h | h
  · cases h with
    | decimal h => simpa using hnumeral (by omega) h
    | hexadecimal hx h => rcases hx with rfl | rfl <;> simpa using hnumeral (by omega) h
    | _ => decide
  · cases h with
    | decimal h => simpa using hnumeral (by omega) h
    | hexadecimal hx h => rcases hx with rfl | rfl <;> simpa using hnumeral (by omega) h

/-! ## What comes after an ampersand -/

section Begins

variable {names : List Char → Char → Prop} {s rest : List Char} {c : Char}

theorem Begins.mono {names' : List Char → Char → Prop} (h : Begins names s c rest)
    (hnames : ∀ name c, names name c → names' name c) : Begins names' s c rest := by
  obtain ⟨name, hs, hsemicolon, hsize, hname⟩ := h
  exact ⟨name, hs, hsemicolon, hsize, hnames name c hname⟩

theorem Begins.length_lt (h : Begins names s c rest) : rest.length < s.length := by
  obtain ⟨name, rfl, -⟩ := h
  rw [List.length_append, List.length_cons]
  omega

/-- Where the name ends is settled by the first semicolon. -/
theorem Begins.name_unique {names' : List Char → Char → Prop} {rest' : List Char} {c' : Char}
    (h : Begins names s c rest) (h' : Begins names' s c' rest') :
    rest = rest' ∧ ∃ name, names name c ∧ names' name c' := by
  obtain ⟨name, rfl, hsemicolon, -, hname⟩ := h
  obtain ⟨name', hs, hsemicolon', -, hname'⟩ := h'
  obtain ⟨hdrop, htake⟩ := dropWhile_ne_append hsemicolon rest
  obtain ⟨hdrop', htake'⟩ := dropWhile_ne_append hsemicolon' rest'
  rw [hs, hdrop'] at hdrop
  rw [hs, htake'] at htake
  subst htake
  exact ⟨(List.cons.inj hdrop).2.symm, _, hname, hname'⟩

theorem entity?_eq_some_iff : entity? s = some (c, rest) ↔ Begins DecodedName s c rest := by
  have hsize : ∀ name, Text.byteSize ('&' :: name) ≤ 10 ↔ Text.byteSize name ≤ 9 := by
    intro name
    rw [Text.byteSize, show '&'.utf8Size = 1 from rfl]
    omega
  constructor
  · intro h
    unfold entity? at h
    split at h
    · cases h
    · rename_i _ after hdrop
      obtain ⟨hs, hsemicolon⟩ := of_dropWhile_ne_eq_cons hdrop
      split at h
      · rename_i hle
        obtain ⟨c', hc', ⟨⟩⟩ := Option.map_eq_some_iff.1 h
        exact ⟨_, hs, hsemicolon, (hsize _).2 hle, entityChar?_eq_some_iff.1 hc'⟩
      · cases h
  · rintro ⟨name, rfl, hsemicolon, hle, hname⟩
    obtain ⟨hdrop, htake⟩ := dropWhile_ne_append hsemicolon rest
    rw [entity?, hdrop, htake]
    simp only [if_pos ((hsize name).1 hle), entityChar?_eq_some_iff.2 hname, Option.map_some]

theorem decodeChars_of_begins (h : Begins DecodedName s c rest) :
    decodeChars ('&' :: s) = c :: decodeChars rest := by
  obtain ⟨name, rfl, hsemicolon, hsize, hname⟩ := h
  rw [Text.byteSize, show '&'.utf8Size = 1 from rfl] at hsize
  exact decodeChars_entity hsemicolon (by omega) (entityChar?_eq_some_iff.2 hname) rest

theorem decodeChars_of_not_begins (h : ∀ c rest, ¬Begins DecodedName s c rest) :
    decodeChars ('&' :: s) = '&' :: decodeChars s := by
  rw [decodeChars]
  split
  · rename_i c after hentity
    exact absurd (entity?_eq_some_iff.1 hentity) (h c after)
  · rfl

theorem decodeChars_append {t : List Char} (ht : '&' ∉ t) (s : List Char) :
    decodeChars (t ++ s) = t ++ decodeChars s := by
  induction t with
  | nil => rfl
  | cons c t ih =>
    rw [List.mem_cons, not_or] at ht
    rw [List.cons_append, decodeChars_cons (Ne.symm ht.1), ih ht.2, List.cons_append]

end Begins

/-! ## Decoding is replacing -/

section Replaced

variable {names : List Char → Char → Prop} {s t t' : List Char}

/-- The reference has a result. -/
theorem exists_replaced (names : List Char → Char → Prop) (s : List Char) :
    ∃ t, Replaced names s t := by
  induction hn : s.length using Nat.strong_induction_on generalizing s with
  | _ n ih =>
    cases s with
    | nil => exact ⟨[], .nil⟩
    | cons c s =>
      rw [List.length_cons] at hn
      obtain ⟨t, ht⟩ := ih s.length (by omega) s rfl
      by_cases hc : c = '&'
      · subst hc
        by_cases hs : ∃ c rest, Begins names s c rest
        · obtain ⟨c, rest, hs⟩ := hs
          obtain ⟨t, ht⟩ := ih rest.length (by have := hs.length_lt; omega) rest rfl
          exact ⟨c :: t, .entity hs ht⟩
        · simp only [not_exists] at hs
          exact ⟨'&' :: t, .ampersand hs ht⟩
      · exact ⟨c :: t, .plain hc ht⟩

/-- The reference has one result only. -/
theorem Replaced.unique (hnames : ∀ name c c', names name c → names name c' → c = c')
    (h : Replaced names s t) (h' : Replaced names s t') : t = t' := by
  induction h generalizing t' with
  | nil => cases h'; rfl
  | plain hc _ ih =>
    cases h' with
    | plain _ h' => rw [ih h']
    | entity _ _ => exact absurd rfl hc
    | ampersand _ _ => exact absurd rfl hc
  | entity hs _ ih =>
    cases h' with
    | plain hc _ => exact absurd rfl hc
    | entity hs' h' =>
      obtain ⟨rfl, name, hname, hname'⟩ := hs.name_unique hs'
      rw [hnames name _ _ hname hname', ih h']
    | ampersand hs' _ => exact absurd hs (hs' _ _)
  | ampersand hs _ ih =>
    cases h' with
    | plain hc _ => exact absurd rfl hc
    | entity hs' _ => exact absurd hs' (hs _ _)
    | ampersand _ h' => rw [ih h']

/-- **Decoding replaces entities and signed numbers.** -/
theorem replaced_iff_eq_decodeChars : Replaced DecodedName s t ↔ t = decodeChars s := by
  have heq : ∀ {t}, Replaced DecodedName s t → t = decodeChars s := by
    intro t h
    induction h with
    | nil => rw [decodeChars]
    | plain hc _ ih => rw [decodeChars_cons hc, ih]
    | entity hs _ ih => rw [decodeChars_of_begins hs, ih]
    | ampersand hs _ ih => rw [decodeChars_of_not_begins hs, ih]
  refine ⟨heq, ?_⟩
  rintro rfl
  obtain ⟨t, h⟩ := exists_replaced DecodedName s
  rwa [← heq h]

/-! ## Signed numbers -/

theorem occurs_cons {c : Char} : Occurs names (c :: s) ↔
    (c = '&' ∧ ∃ c' rest, Begins names s c' rest) ∨ Occurs names s := by
  constructor
  · rintro ⟨before, after, c', rest, hs, h⟩
    cases before with
    | nil =>
      cases hs
      exact .inl ⟨rfl, c', rest, h⟩
    | cons _ before =>
      cases hs
      exact .inr ⟨before, after, c', rest, rfl, h⟩
  · rintro (⟨rfl, c', rest, h⟩ | ⟨before, after, c', rest, rfl, h⟩)
    · exact ⟨[], s, c', rest, rfl, h⟩
    · exact ⟨c :: before, after, c', rest, rfl, h⟩

theorem occurs_append {u : List Char} (hu : '&' ∉ u) : Occurs names (u ++ s) ↔ Occurs names s := by
  induction u with
  | nil => rfl
  | cons c u ih =>
    rw [List.mem_cons, not_or] at hu
    rw [List.cons_append, occurs_cons, ih hu.2]
    exact or_iff_right fun h ↦ hu.1 h.1.symm

/-- What comes after a name and its semicolon. -/
theorem Begins.rest {c : Char} {rest : List Char} (h : Begins DecodedName s c rest) :
    (Occurs SignedName s ↔ Occurs SignedName rest) ∧
      (decodeChars rest).length < (decodeChars s).length := by
  obtain ⟨name, rfl, -, -, hname⟩ := h
  have hamp : '&' ∉ name ++ [';'] := by simpa using hname.ampersand_not_mem
  rw [← List.singleton_append, ← List.append_assoc, occurs_append hamp, decodeChars_append hamp,
    List.length_append, List.length_append, List.length_singleton]
  exact ⟨Iff.rfl, by omega⟩

/-- Replacing entities gives no shorter text than decoding, and a longer one if a signed number
occurs. -/
theorem Replaced.length_le (h : Replaced EntityName s t) :
    (decodeChars s).length ≤ t.length ∧
      (Occurs SignedName s → (decodeChars s).length < t.length) := by
  induction h with
  | nil =>
    rw [decodeChars]
    refine ⟨Nat.le_refl _, ?_⟩
    rintro ⟨before, after, _, _, hs, -⟩
    cases before <;> cases hs
  | plain hc _ ih =>
    rw [decodeChars_cons hc, occurs_cons, or_iff_right fun h ↦ hc h.1]
    simpa using ih
  | @entity s rest t c hs _ ih =>
    have hdecoded : Begins DecodedName s c rest := hs.mono fun _ _ ↦ .inl
    have hnone : ¬('&' = '&' ∧ ∃ c' rest, Begins SignedName s c' rest) := by
      rintro ⟨-, c', rest', hs'⟩
      obtain ⟨-, name, hname, hname'⟩ := hs.name_unique hs'
      exact hname.not_signedName hname'
    rw [decodeChars_of_begins hdecoded, occurs_cons, or_iff_right hnone, hdecoded.rest.1]
    simpa using ih
  | @ampersand s t hs _ ih =>
    by_cases hsigned : ∃ c rest, Begins SignedName s c rest
    · obtain ⟨c, rest, hs'⟩ := hsigned
      have hdecoded : Begins DecodedName s c rest := hs'.mono fun _ _ ↦ .inr
      have hlt := hdecoded.rest.2
      rw [decodeChars_of_begins hdecoded]
      simp only [List.length_cons]
      omega
    · rw [occurs_cons, or_iff_right fun h ↦ hsigned h.2, decodeChars_of_not_begins]
      · simpa using ih
      · rintro c rest ⟨name, hs', hsemicolon, hsize, hname | hname⟩
        · exact hs c rest ⟨name, hs', hsemicolon, hsize, hname⟩
        · exact hsigned ⟨c, rest, name, hs', hsemicolon, hsize, hname⟩

/-- Where no signed number occurs, what is decoded are entities. -/
theorem Replaced.of_not_occurs (h : Replaced DecodedName s t) (hs : ¬Occurs SignedName s) :
    Replaced EntityName s t := by
  induction h with
  | nil => exact .nil
  | plain hc _ ih =>
    rw [occurs_cons, not_or] at hs
    exact .plain hc (ih hs.2)
  | entity hbegins _ ih =>
    rw [occurs_cons, not_or, hbegins.rest.1] at hs
    refine .entity ?_ (ih hs.2)
    obtain ⟨name, heq, hsemicolon, hsize, hname | hname⟩ := hbegins
    · exact ⟨name, heq, hsemicolon, hsize, hname⟩
    · exact absurd ⟨rfl, _, _, name, heq, hsemicolon, hsize, hname⟩ hs.1
  | ampersand hbegins _ ih =>
    rw [occurs_cons, not_or] at hs
    exact .ampersand (fun c rest h ↦ hbegins c rest (h.mono fun _ _ ↦ .inl)) (ih hs.2)

end Replaced

/-- **Entities.**  Replacing the entities of a text from left to right has exactly one result.
Decoding replaces entities and numbers with a plus sign, so it gives that result exactly if there is
no number with a plus sign in the text. -/
theorem decode_iff (text : String) :
    (∃! out, Replaced EntityName text.toList out) ∧
      (∀ out, Replaced DecodedName text.toList out ↔ out = (decode text).toList) ∧
      (Replaced EntityName text.toList (decode text).toList ↔ ¬Occurs SignedName text.toList) := by
  have hdecode : (decode text).toList = decodeChars text.toList := by
    rw [decode, String.toList_ofList]
  rw [hdecode]
  refine ⟨?_, fun out ↦ replaced_iff_eq_decodeChars, fun h hs ↦ ?_, fun hs ↦ ?_⟩
  · obtain ⟨out, h⟩ := exists_replaced EntityName text.toList
    exact ⟨out, h, fun out' h' ↦ h'.unique EntityName.unique h⟩
  · exact Nat.lt_irrefl _ (h.length_le.2 hs)
  · exact (replaced_iff_eq_decodeChars.2 rfl).of_not_occurs hs

/-- **A number with a plus sign is no entity, but it is decoded.** -/
theorem plus_is_decoded : decode "&#+65;" = "A" ∧
    (∀ out, Replaced EntityName "&#+65;".toList out ↔ out = "&#+65;".toList) := by
  refine ⟨by decide +kernel, fun out ↦ ?_⟩
  have hsigned : Begins SignedName ['#', '+', '6', '5', ';'] 'A' [] :=
    ⟨['#', '+', '6', '5'], rfl, by decide, by decide +kernel,
      .decimal ((digitsValue?_eq_some_iff (by omega)).1 (by decide +kernel))⟩
  have hnone : ∀ c rest, ¬Begins EntityName ['#', '+', '6', '5', ';'] c rest := by
    intro c rest h
    obtain ⟨-, name, hname, hname'⟩ := h.name_unique hsigned
    exact hname.not_signedName hname'
  have hkept : Replaced EntityName "&#+65;".toList "&#+65;".toList :=
    .ampersand hnone (.plain (by decide) (.plain (by decide) (.plain (by decide)
      (.plain (by decide) (.plain (by decide) .nil)))))
  constructor
  · exact fun h ↦ h.unique EntityName.unique hkept
  · rintro rfl
    exact hkept

end DataBinding.Markup
