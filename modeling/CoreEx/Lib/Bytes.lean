/-
  File:      CoreEx/Lib/Bytes.lean
  Subject:   Byte strings: numbers with the low byte first, and hexadecimal text.

  Nothing here names the system under verification.

  * `Bytes`, `Bytes.zeros`;
  * `leBytes`, `leNat` -- a number as so many bytes, and back: **`leNat_leBytes`**,
    **`leBytes_leNat`**;
  * `hexDigit?`, `toHex`, `ofHex` -- two digits a byte; reading stops at what is no digit.
    **`ofHex_toHex`**; `IsHex n` -- the texts that `n` bytes are written as;
    **`isHex_of_digits`**.
-/
import Mathlib.Algebra.Ring.Int.Defs
import Mathlib.Algebra.Ring.Nat
import Mathlib.Data.Nat.Basic
import Mathlib.Tactic.Common

namespace CoreEx

/-- A byte string. -/
abbrev Bytes := List UInt8

namespace Bytes

/-- `n` zero bytes. -/
def zeros (n : Nat) : Bytes := List.replicate n 0

@[simp] theorem length_zeros (n : Nat) : (zeros n).length = n := List.length_replicate

@[simp] theorem zeros_zero : zeros 0 = [] := rfl

end Bytes

/-! ## 1. Numbers, the low byte first -/

/-- The `n` lowest bytes of `v`. -/
def leBytes : Nat → Nat → Bytes
  | 0, _ => []
  | n + 1, v => UInt8.ofNat v :: leBytes n (v / 256)

/-- The number the bytes stand for. -/
def leNat : Bytes → Nat
  | [] => 0
  | b :: bs => b.toNat + 256 * leNat bs

@[simp] theorem length_leBytes (n v : Nat) : (leBytes n v).length = n := by
  induction n generalizing v with
  | zero => rfl
  | succ n ih =>
    unfold leBytes
    rw [List.length_cons, ih]

/-- **A number that fits is read back.** -/
theorem leNat_leBytes {n v : Nat} (h : v < 256 ^ n) : leNat (leBytes n v) = v := by
  induction n generalizing v with
  | zero =>
    have hv : v = 0 := by omega
    rw [hv]
    rfl
  | succ n ih =>
    have hdiv : v / 256 < 256 ^ n := by
      rw [Nat.pow_succ] at h
      omega
    have hlow : (UInt8.ofNat v).toNat = v % 256 := UInt8.toNat_ofNat'
    unfold leBytes leNat
    rw [ih hdiv, hlow]
    omega

theorem leBytes_inj {n v w : Nat} (hv : v < 256 ^ n) (hw : w < 256 ^ n)
    (h : leBytes n v = leBytes n w) : v = w := by
  rw [← leNat_leBytes hv, h, leNat_leBytes hw]

/-- **Bytes are written back as they were.** -/
theorem leBytes_leNat (bs : Bytes) : leBytes bs.length (leNat bs) = bs := by
  induction bs with
  | nil => rfl
  | cons b bs ih =>
    have hb : b.toNat < 256 := b.toNat_lt
    have hdiv : (b.toNat + 256 * leNat bs) / 256 = leNat bs := by omega
    have hlow : UInt8.ofNat (b.toNat + 256 * leNat bs) = b := by
      apply UInt8.toNat_inj.1
      rw [UInt8.toNat_ofNat']
      omega
    show UInt8.ofNat (b.toNat + 256 * leNat bs) ::
      leBytes bs.length ((b.toNat + 256 * leNat bs) / 256) = b :: bs
    rw [hlow, hdiv, ih]

theorem leNat_lt (bs : Bytes) : leNat bs < 256 ^ bs.length := by
  induction bs with
  | nil => exact Nat.one_pos
  | cons b bs ih =>
    have hb : b.toNat < 256 := b.toNat_lt
    rw [List.length_cons, Nat.pow_succ]
    unfold leNat
    omega

/-- Which bytes are a number's. -/
theorem eq_leBytes_iff {n v : Nat} {bs : Bytes} :
    (bs = leBytes n v ∧ v < 256 ^ n) ↔ bs.length = n ∧ v = leNat bs := by
  constructor
  · rintro ⟨rfl, hv⟩
    exact ⟨length_leBytes n v, (leNat_leBytes hv).symm⟩
  · rintro ⟨rfl, rfl⟩
    exact ⟨(leBytes_leNat bs).symm, leNat_lt bs⟩

theorem natCast_lt_pow {n v : Nat} : (v : Int) < 256 ^ n ↔ v < 256 ^ n := by
  have hpow : ((256 ^ n : Nat) : Int) = 256 ^ n := Int.natCast_pow 256 n
  rw [← hpow]
  exact Int.ofNat_lt

/-! ## 2. Hexadecimal text -/

/-- The value of a hexadecimal digit. -/
def hexDigit? (c : Char) : Option Nat :=
  if '0' ≤ c ∧ c ≤ '9' then some (c.toNat - '0'.toNat)
  else if 'a' ≤ c ∧ c ≤ 'f' then some (c.toNat - 'a'.toNat + 10)
  else if 'A' ≤ c ∧ c ≤ 'F' then some (c.toNat - 'A'.toNat + 10)
  else none

/-- The digit of a value below 16, in lower case. -/
def hexDigit (n : Nat) : Char :=
  if n < 10 then Char.ofNat ('0'.toNat + n) else Char.ofNat ('a'.toNat + (n - 10))

/-- `[0-9a-f]`. -/
def isHexDigit (c : Char) : Bool := ('0' ≤ c && c ≤ '9') || ('a' ≤ c && c ≤ 'f')

/-- The two digits of a byte. -/
def hexPair (b : UInt8) : List Char := [hexDigit (b.toNat / 16), hexDigit (b.toNat % 16)]

/-- The text of a byte string. -/
def toHex (bs : Bytes) : String := String.ofList (bs.flatMap hexPair)

/-- The bytes of the digits, up to the first pair that is none. -/
def hexPairs : List Char → Bytes
  | a :: b :: cs =>
    match hexDigit? a, hexDigit? b with
    | some x, some y => UInt8.ofNat (16 * x + y) :: hexPairs cs
    | _, _ => []
  | _ => []

/-- The bytes of a text. -/
def ofHex (s : String) : Bytes := hexPairs s.toList

theorem hexDigit?_hexDigit {n : Nat} (h : n < 16) : hexDigit? (hexDigit n) = some n := by
  have hall : ∀ n < 16, hexDigit? (hexDigit n) = some n := by decide
  exact hall n h

theorem hexPairs_append (bs : Bytes) (cs : List Char) :
    hexPairs (bs.flatMap hexPair ++ cs) = bs ++ hexPairs cs := by
  induction bs with
  | nil => rfl
  | cons b bs ih =>
    have hb : b.toNat < 256 := b.toNat_lt
    have hhigh : hexDigit? (hexDigit (b.toNat / 16)) = some (b.toNat / 16) :=
      hexDigit?_hexDigit (by omega)
    have hlow : hexDigit? (hexDigit (b.toNat % 16)) = some (b.toNat % 16) :=
      hexDigit?_hexDigit (by omega)
    have hbyte : UInt8.ofNat (16 * (b.toNat / 16) + b.toNat % 16) = b := by
      rw [Nat.div_add_mod]
      exact UInt8.ofNat_toNat
    show hexPairs (hexDigit (b.toNat / 16) :: hexDigit (b.toNat % 16) ::
      (bs.flatMap hexPair ++ cs)) = b :: (bs ++ hexPairs cs)
    conv_lhs => unfold hexPairs
    rw [hhigh, hlow]
    show UInt8.ofNat (16 * (b.toNat / 16) + b.toNat % 16) ::
      hexPairs (bs.flatMap hexPair ++ cs) = b :: (bs ++ hexPairs cs)
    rw [hbyte, ih]

/-- **The text of a byte string is read back.** -/
@[simp] theorem ofHex_toHex (bs : Bytes) : ofHex (toHex bs) = bs := by
  have h := hexPairs_append bs []
  rw [List.append_nil] at h
  unfold ofHex toHex
  rw [String.toList_ofList, h]
  exact List.append_nil bs

theorem length_toHex (bs : Bytes) : (toHex bs).length = 2 * bs.length := by
  unfold toHex
  rw [String.length_ofList]
  induction bs with
  | nil => rfl
  | cons b bs ih =>
    rw [List.flatMap_cons, List.length_append, ih, List.length_cons]
    show 2 + _ = _
    omega

theorem toHex_append (as bs : Bytes) : toHex (as ++ bs) = toHex as ++ toHex bs := by
  unfold toHex
  rw [List.flatMap_append, String.ofList_append]

/-- The text is one that `n` bytes are written as. -/
def IsHex (n : Nat) (s : String) : Prop := s = toHex (ofHex s) ∧ (ofHex s).length = n

instance (n : Nat) (s : String) : Decidable (IsHex n s) := inferInstanceAs (Decidable (_ ∧ _))

theorem isHex_iff {n : Nat} {s : String} :
    IsHex n s ↔ ∃ bs : Bytes, bs.length = n ∧ s = toHex bs := by
  constructor
  · rintro ⟨hs, hn⟩
    exact ⟨ofHex s, hn, hs⟩
  · rintro ⟨bs, hn, rfl⟩
    refine ⟨?_, ?_⟩
    · rw [ofHex_toHex]
    · rw [ofHex_toHex]
      exact hn

theorem IsHex.length_text {n : Nat} {s : String} (h : IsHex n s) : s.length = 2 * n := by
  rw [h.1, length_toHex, h.2]

theorem exists_hexDigit {c : Char} (h : isHexDigit c) : ∃ n < 16, c = hexDigit n := by
  unfold isHexDigit at h
  rw [Bool.or_eq_true, Bool.and_eq_true, Bool.and_eq_true, decide_eq_true_eq, decide_eq_true_eq,
    decide_eq_true_eq, decide_eq_true_eq] at h
  rcases h with ⟨hlow, hhigh⟩ | ⟨hlow, hhigh⟩
  · have hlow' : 48 ≤ c.toNat := hlow
    have hhigh' : c.toNat ≤ 57 := hhigh
    refine ⟨c.toNat - 48, by omega, ?_⟩
    have hsum : '0'.toNat + (c.toNat - 48) = c.toNat := by
      show 48 + (c.toNat - 48) = c.toNat
      omega
    unfold hexDigit
    rw [if_pos (by omega), hsum, Char.ofNat_toNat]
  · have hlow' : 97 ≤ c.toNat := hlow
    have hhigh' : c.toNat ≤ 102 := hhigh
    refine ⟨c.toNat - 87, by omega, ?_⟩
    have hsum : 'a'.toNat + (c.toNat - 87 - 10) = c.toNat := by
      show 97 + (c.toNat - 87 - 10) = c.toNat
      omega
    unfold hexDigit
    rw [if_neg (by omega), hsum, Char.ofNat_toNat]

theorem isHexDigit_hexDigit {n : Nat} (h : n < 16) : isHexDigit (hexDigit n) := by
  have hall : ∀ n < 16, isHexDigit (hexDigit n) := by decide
  exact hall n h

/-- The text of some bytes has digits only. -/
theorem IsHex.digits {n : Nat} {s : String} (h : IsHex n s) : ∀ c ∈ s.toList, isHexDigit c := by
  intro c hc
  rw [h.1] at hc
  unfold toHex at hc
  rw [String.toList_ofList] at hc
  obtain ⟨b, -, hb⟩ := List.mem_flatMap.1 hc
  have hlt := b.toNat_lt
  rcases List.mem_cons.1 hb with rfl | hb
  · exact isHexDigit_hexDigit (by omega)
  · rw [List.mem_singleton.1 hb]
    exact isHexDigit_hexDigit (by omega)

/-- Digits in pairs are the digits of some bytes. -/
theorem exists_hexPairs : ∀ (n : Nat) (cs : List Char), cs.length = 2 * n →
    (∀ c ∈ cs, isHexDigit c) → ∃ bs : Bytes, bs.length = n ∧ cs = bs.flatMap hexPair
  | 0, cs, hlen, _ => ⟨[], rfl, List.length_eq_zero_iff.1 hlen⟩
  | n + 1, [], hlen, _ => by
    rw [List.length_nil] at hlen
    omega
  | n + 1, [_], hlen, _ => by
    rw [List.length_singleton] at hlen
    omega
  | n + 1, a :: b :: cs, hlen, h => by
    rw [List.length_cons, List.length_cons] at hlen
    obtain ⟨bs, hbs, rfl⟩ := exists_hexPairs n cs (by omega) fun c hc =>
      h c (List.mem_cons_of_mem _ (List.mem_cons_of_mem _ hc))
    obtain ⟨x, hx, rfl⟩ := exists_hexDigit (h a List.mem_cons_self)
    obtain ⟨y, hy, rfl⟩ := exists_hexDigit (h b (List.mem_cons_of_mem _ List.mem_cons_self))
    have hbyte : (UInt8.ofNat (16 * x + y)).toNat = 16 * x + y := by
      rw [UInt8.toNat_ofNat']
      omega
    refine ⟨UInt8.ofNat (16 * x + y) :: bs, congrArg Nat.succ hbs, ?_⟩
    have hdiv : (16 * x + y) / 16 = x := by omega
    have hmod : (16 * x + y) % 16 = y := by omega
    rw [List.flatMap_cons]
    unfold hexPair
    rw [hbyte, hdiv, hmod]
    rfl

/-- **A text of so many lower-case digits is the text of half as many bytes.** -/
theorem isHex_of_digits {n : Nat} {s : String} (hlen : s.length = 2 * n)
    (h : ∀ c ∈ s.toList, isHexDigit c) : IsHex n s := by
  obtain ⟨bs, hbs, hs⟩ := exists_hexPairs n s.toList hlen h
  refine isHex_iff.2 ⟨bs, hbs, ?_⟩
  unfold toHex
  rw [← hs, String.ofList_toList]

end CoreEx
