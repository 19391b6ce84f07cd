/-
  File:      CoreEx/Lib/Unicode.lean
  Subject:   Strings of UTF-16 code units and their UTF-8 bytes.

  A string may hold a surrogate without its partner; it is written as the replacement character
  then, and so is every malformed sequence of bytes that is read. Nothing here names the system
  under verification.

  * `encodeUtf8`, `decodeUtf8` -- characters and bytes; **`decodeUtf8_encodeUtf8`**; `IsUtf8`,
    **`isUtf8_of_notMem`**;
  * `Text` -- a string of code units; `Text.chars`, `Text.ofChars`;
  * `Text.toUtf8`, `Text.ofUtf8` -- **`ofUtf8_toUtf8_iff`**, **`toUtf8_ofUtf8_iff`**: which strings,
    and which bytes, survive the way there and back.
-/
import CoreEx.Lib.Bytes

namespace CoreEx

/-- The character that stands for what cannot be read or written. -/
def replacementChar : Char := Char.ofNat 0xFFFD

/-! ## 1. UTF-8 -/

/-- The bytes of the characters. -/
def encodeUtf8 (cs : List Char) : Bytes := cs.flatMap String.utf8EncodeChar

/-- What a first byte announces: the length of its sequence, and the lowest and highest byte that
    may come second. -/
def announced (b : UInt8) : Nat × UInt8 × UInt8 :=
  if 0xC2 ≤ b ∧ b ≤ 0xDF then (2, 0x80, 0xBF)
  else if b = 0xE0 then (3, 0xA0, 0xBF)
  else if b = 0xED then (3, 0x80, 0x9F)
  else if 0xE1 ≤ b ∧ b ≤ 0xEF then (3, 0x80, 0xBF)
  else if b = 0xF0 then (4, 0x90, 0xBF)
  else if 0xF1 ≤ b ∧ b ≤ 0xF3 then (4, 0x80, 0xBF)
  else if b = 0xF4 then (4, 0x80, 0x8F)
  else (1, 0, 0)

/-- How many bytes one replacement character stands for: the longest beginning of a sequence that
    could have been completed, and at least one byte. -/
def maximalSubpart (b : UInt8) (bs : Bytes) : Nat :=
  match bs with
  | [] => 1
  | c :: rest =>
    let (n, low, high) := announced b
    if n = 1 ∨ c < low ∨ high < c then 1
    else 2 + ((rest.take (n - 3)).takeWhile fun d => 0x80 ≤ d ∧ d ≤ 0xBF).length

/-- The characters of the bytes after the first `skip`, which are read already. -/
def decodeFrom : Nat → Bytes → List Char
  | _, [] => []
  | skip + 1, _ :: bs => decodeFrom skip bs
  | 0, b :: bs =>
    match ByteArray.utf8DecodeChar? (b :: bs).toByteArray 0 with
    | some c => c :: decodeFrom (c.utf8Size - 1) bs
    | none => replacementChar :: decodeFrom (maximalSubpart b bs - 1) bs

/-- The characters of the bytes. -/
def decodeUtf8 (bs : Bytes) : List Char := decodeFrom 0 bs

theorem decodeFrom_append (skipped bs : Bytes) :
    decodeFrom skipped.length (skipped ++ bs) = decodeFrom 0 bs := by
  induction skipped with
  | nil => rfl
  | cons b skipped ih => exact ih

theorem decodeUtf8_cons (c : Char) (bs : Bytes) :
    decodeUtf8 (String.utf8EncodeChar c ++ bs) = c :: decodeUtf8 bs := by
  have hchar : ByteArray.utf8DecodeChar? (String.utf8EncodeChar c ++ bs).toByteArray 0 = some c := by
    rw [List.toByteArray_append]
    exact ByteArray.utf8DecodeChar?_utf8EncodeChar_append
  have hlen : (String.utf8EncodeChar c).length = c.utf8Size := String.length_utf8EncodeChar c
  cases hbytes : String.utf8EncodeChar c with
  | nil =>
    rw [hbytes] at hlen
    have hpos := c.utf8Size_pos
    rw [List.length_nil] at hlen
    omega
  | cons b rest =>
    rw [hbytes] at hchar hlen
    have hrest : c.utf8Size - 1 = rest.length := by
      rw [List.length_cons] at hlen
      omega
    unfold decodeUtf8
    show decodeFrom 0 (b :: (rest ++ bs)) = c :: decodeFrom 0 bs
    conv_lhs => unfold decodeFrom
    rw [List.cons_append] at hchar
    rw [hchar]
    show c :: decodeFrom (c.utf8Size - 1) (rest ++ bs) = c :: decodeFrom 0 bs
    rw [hrest, decodeFrom_append]

/-- **Characters that were written are read back.** -/
@[simp] theorem decodeUtf8_encodeUtf8 (cs : List Char) : decodeUtf8 (encodeUtf8 cs) = cs := by
  induction cs with
  | nil => rfl
  | cons c cs ih =>
    show decodeUtf8 (String.utf8EncodeChar c ++ encodeUtf8 cs) = c :: cs
    rw [decodeUtf8_cons, ih]

/-- The bytes of some characters. -/
def IsUtf8 (bs : Bytes) : Prop := encodeUtf8 (decodeUtf8 bs) = bs

instance (bs : Bytes) : Decidable (IsUtf8 bs) := inferInstanceAs (Decidable (_ = _))

theorem encodeUtf8_eq_nil {cs : List Char} : encodeUtf8 cs = [] ↔ cs = [] := by
  constructor
  · intro h
    have hdecode := decodeUtf8_encodeUtf8 cs
    rw [h] at hdecode
    exact hdecode.symm
  · rintro rfl
    rfl

/-- A character that is found at the front is what the bytes begin with. -/
theorem eq_append_of_utf8DecodeChar? {bs : Bytes} {c : Char}
    (h : ByteArray.utf8DecodeChar? bs.toByteArray 0 = some c) :
    ∃ rest, bs = String.utf8EncodeChar c ++ rest := by
  obtain ⟨l, hl⟩ := ByteArray.exists_of_utf8DecodeChar?_eq_some h
  have hlist : l = l.data.toList.toByteArray := by
    apply ByteArray.ext
    rw [List.data_toByteArray]
  refine ⟨l.data.toList, ?_⟩
  rw [hlist, ← List.toByteArray_append, List.toByteArray_inj] at hl
  exact hl

/-- **Bytes that are read without a replacement are UTF-8.** -/
theorem isUtf8_of_notMem {bs : Bytes} (h : replacementChar ∉ decodeUtf8 bs) : IsUtf8 bs := by
  induction hn : bs.length using Nat.strongRecOn generalizing bs with
  | ind n ih =>
    cases bs with
    | nil => rfl
    | cons b bs =>
      cases hc : ByteArray.utf8DecodeChar? (b :: bs).toByteArray 0 with
      | none =>
        refine absurd ?_ h
        unfold decodeUtf8 decodeFrom
        rw [hc]
        exact List.mem_cons_self
      | some c =>
        obtain ⟨rest, hrest⟩ := eq_append_of_utf8DecodeChar? hc
        rw [hrest] at h hn ⊢
        rw [decodeUtf8_cons] at h
        have hpos : 0 < (String.utf8EncodeChar c).length := by
          rw [String.length_utf8EncodeChar]
          exact c.utf8Size_pos
        have hshort : rest.length < n := by
          rw [List.length_append] at hn
          omega
        have hutf8 : IsUtf8 rest := ih _ hshort (fun hmem => h (List.mem_cons_of_mem _ hmem)) rfl
        unfold IsUtf8
        rw [decodeUtf8_cons]
        show String.utf8EncodeChar c ++ encodeUtf8 (decodeUtf8 rest) = _
        rw [hutf8]

/-! ## 2. UTF-16 -/

/-- The code units of a character. -/
def utf16 (c : Char) : List UInt16 :=
  if c.toNat < 0x10000 then [UInt16.ofNat c.toNat]
  else [UInt16.ofNat (0xD800 + (c.toNat - 0x10000) / 1024),
    UInt16.ofNat (0xDC00 + (c.toNat - 0x10000) % 1024)]

/-- The first half of a pair. -/
def isHighSurrogate (u : UInt16) : Bool := 0xD800 ≤ u.toNat && u.toNat ≤ 0xDBFF

/-- The second half. -/
def isLowSurrogate (u : UInt16) : Bool := 0xDC00 ≤ u.toNat && u.toNat ≤ 0xDFFF

/-- The character of a unit that is half of no pair. -/
def loneChar (u : UInt16) : Char :=
  if isHighSurrogate u || isLowSurrogate u then replacementChar else Char.ofNat u.toNat

/-- The character of a pair. -/
def pairChar (u v : UInt16) : Char :=
  Char.ofNat (0x10000 + (u.toNat - 0xD800) * 1024 + (v.toNat - 0xDC00))

/-- The characters of the units. -/
def charsOf : List UInt16 → List Char
  | [] => []
  | [u] => [loneChar u]
  | u :: v :: us =>
    if isHighSurrogate u && isLowSurrogate v then pairChar u v :: charsOf us
    else loneChar u :: charsOf (v :: us)

/-- A string as a sequence of UTF-16 code units. -/
structure Text where
  units : List UInt16
  deriving DecidableEq, Repr

namespace Text

/-- The string of the characters. -/
def ofChars (cs : List Char) : Text := ⟨cs.flatMap utf16⟩

/-- The characters of the string. -/
def chars (t : Text) : List Char := charsOf t.units

end Text

theorem charsOf_cons_of_lone {u : UInt16} (us : List UInt16)
    (h : (isHighSurrogate u || isLowSurrogate u) = false) :
    charsOf (u :: us) = Char.ofNat u.toNat :: charsOf us := by
  have hlone : loneChar u = Char.ofNat u.toNat := if_neg (by rw [h]; exact Bool.false_ne_true)
  have hhigh : isHighSurrogate u = false := (Bool.or_eq_false_iff.1 h).1
  cases us with
  | nil =>
    show [loneChar u] = [Char.ofNat u.toNat]
    rw [hlone]
  | cons v us =>
    conv_lhs => unfold charsOf
    rw [hhigh, hlone]
    rfl

theorem charsOf_cons (c : Char) (us : List UInt16) : charsOf (utf16 c ++ us) = c :: charsOf us := by
  have hvalid : c.toNat < 0xD800 ∨ 0xDFFF < c.toNat ∧ c.toNat < 0x110000 := c.valid
  by_cases hbmp : c.toNat < 0x10000
  · have hunit : (UInt16.ofNat c.toNat).toNat = c.toNat := by
      rw [UInt16.toNat_ofNat']
      omega
    have hnone : (isHighSurrogate (UInt16.ofNat c.toNat) || isLowSurrogate (UInt16.ofNat c.toNat))
        = false := by
      unfold isHighSurrogate isLowSurrogate
      rw [hunit]
      simp only [Bool.or_eq_false_iff, Bool.and_eq_false_iff, decide_eq_false_iff_not]
      omega
    unfold utf16
    rw [if_pos hbmp]
    show charsOf (UInt16.ofNat c.toNat :: us) = c :: charsOf us
    rw [charsOf_cons_of_lone us hnone, hunit, Char.ofNat_toNat]
  · have hhigh : (UInt16.ofNat (0xD800 + (c.toNat - 0x10000) / 1024)).toNat =
        0xD800 + (c.toNat - 0x10000) / 1024 := by
      rw [UInt16.toNat_ofNat']
      omega
    have hlow : (UInt16.ofNat (0xDC00 + (c.toNat - 0x10000) % 1024)).toNat =
        0xDC00 + (c.toNat - 0x10000) % 1024 := by
      rw [UInt16.toNat_ofNat']
      omega
    have hishigh : isHighSurrogate (UInt16.ofNat (0xD800 + (c.toNat - 0x10000) / 1024)) = true := by
      unfold isHighSurrogate
      rw [hhigh]
      simp only [Bool.and_eq_true, decide_eq_true_eq]
      omega
    have hislow : isLowSurrogate (UInt16.ofNat (0xDC00 + (c.toNat - 0x10000) % 1024)) = true := by
      unfold isLowSurrogate
      rw [hlow]
      simp only [Bool.and_eq_true, decide_eq_true_eq]
      omega
    have hsum : 0x10000 + (0xD800 + (c.toNat - 0x10000) / 1024 - 0xD800) * 1024 +
        (0xDC00 + (c.toNat - 0x10000) % 1024 - 0xDC00) = c.toNat := by omega
    unfold utf16
    rw [if_neg hbmp]
    show charsOf (_ :: _ :: us) = c :: charsOf us
    conv_lhs => unfold charsOf
    rw [hishigh, hislow]
    show pairChar _ _ :: charsOf us = c :: charsOf us
    unfold pairChar
    rw [hhigh, hlow, hsum, Char.ofNat_toNat]

namespace Text

@[simp] theorem chars_ofChars (cs : List Char) : (ofChars cs).chars = cs := by
  induction cs with
  | nil => rfl
  | cons c cs ih =>
    show charsOf (utf16 c ++ cs.flatMap utf16) = c :: cs
    rw [charsOf_cons]
    exact congrArg (c :: ·) ih

/-- Every surrogate has its partner. -/
def WellFormed (t : Text) : Prop := ofChars t.chars = t

instance (t : Text) : Decidable t.WellFormed := inferInstanceAs (Decidable (_ = _))

/-- `Buffer.from(text, "utf8")`. -/
def toUtf8 (t : Text) : Bytes := encodeUtf8 t.chars

/-- `buffer.toString("utf8")`. -/
def ofUtf8 (bs : Bytes) : Text := ofChars (decodeUtf8 bs)

/-- **A string is read back just when it is well formed.** -/
theorem ofUtf8_toUtf8_iff {t : Text} : ofUtf8 t.toUtf8 = t ↔ t.WellFormed := by
  unfold ofUtf8 toUtf8 WellFormed
  rw [decodeUtf8_encodeUtf8]

/-- **Bytes are written back as they were just when they are UTF-8.** -/
theorem toUtf8_ofUtf8_iff {bs : Bytes} : (ofUtf8 bs).toUtf8 = bs ↔ IsUtf8 bs := by
  unfold ofUtf8 toUtf8 IsUtf8
  rw [chars_ofChars]

theorem toUtf8_eq_nil {t : Text} : t.toUtf8 = [] ↔ t.units = [] := by
  unfold toUtf8
  rw [encodeUtf8_eq_nil]
  unfold chars
  obtain ⟨us⟩ := t
  cases us with
  | nil => exact ⟨fun _ => rfl, fun _ => rfl⟩
  | cons u us =>
    have hne : charsOf (u :: us) ≠ [] := by
      cases us with
      | nil => exact List.cons_ne_nil _ _
      | cons v us =>
        unfold charsOf
        split
        · exact List.cons_ne_nil _ _
        · exact List.cons_ne_nil _ _
    exact ⟨fun h => absurd h hne, fun h => absurd h (List.cons_ne_nil _ _)⟩

end Text

end CoreEx
