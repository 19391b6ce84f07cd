/-
  File:      CoreEx/Properties/CursorSafety.lean
  Subject:   The position of a byte buffer under any sequence of calls, and values that are written
             and read again.

  `skip` checks its argument against both ends of the buffer, `readBytes` against one only.

  * `Safe`, `AllSafe` -- what one call, and each of a sequence, is to leave;
  * `Allowed`, `AllAllowed` -- the condition;
  * `perform_iff` -- one call; `allSafe_iff` -- a sequence;
  * `Field`, `writeAll`, `readAll` -- fields, `run_write`, `run_read` -- one of them;
  * **`read_written`** -- fields that are written are read again;
  * **`byteBuffer_iff`** -- both; **`byteBuffer_not`** -- a length below zero.
-/
import CoreEx.Utils.RawByteBuffer
import Mathlib.Tactic.Linarith

namespace CoreEx

namespace RawByteBuffer

/-! ## 1. What is to hold -/

/-- The number lies between 0 and the length of the buffer. -/
def Within (b : NodeBuffer) (a : Double) : Prop := ∃ q : ℚ, a = .rat q ∧ 0 ≤ q ∧ q ≤ b.length

/-- **What a call is to leave**: an offset in the buffer, everything as it was if it throws, and the
    memory outside as it was; and what it touches is the buffer's. -/
structure Safe (s : RawByteBuffer) (o : Outcome RawByteBuffer Exception Touched) : Prop where
  offset : Within s.buffer o.state.offset
  atomic : o.isDone = false → o.state = s
  outside : s.buffer.SameOutside o.state.buffer
  touched : ∀ value access, o.value? = some (value, some access) → s.buffer.Owns access

/-- After every call of a sequence. -/
def AllSafe (s : RawByteBuffer) : List BufferOperation → Prop
  | [] => True
  | op :: ops => s.Safe ((perform op).run s) ∧ AllSafe ((perform op).run s).state ops

/-- The condition on a call. -/
def Allowed (s : RawByteBuffer) : BufferOperation → Prop
  | .readBytes length => length ≠ .nan ∧ Double.lt length (-s.offset) = false
  | .readHex length => length ≠ .nan ∧ Double.lt length (-s.offset) = false
  | .skip length => length ≠ .nan
  | _ => True

/-- Every call is allowed in the state in which it begins. -/
def AllAllowed (s : RawByteBuffer) : List BufferOperation → Prop
  | [] => True
  | op :: ops => s.Allowed op ∧ AllAllowed ((perform op).run s).state ops

/-- Offset and marker lie in the buffer. -/
structure InBuffer (s : RawByteBuffer) : Prop where
  offset : Within s.buffer s.offset
  marker : Within s.buffer s.marker

variable {s : RawByteBuffer} {e : Exception} {size : Nat} {length : Double}

theorem Within.mono {b b' : NodeBuffer} {a : Double} (h : Within b a) (hb : b.SameOutside b') :
    Within b' a := by
  obtain ⟨q, hq, hpos, hle⟩ := h
  refine ⟨q, hq, hpos, ?_⟩
  rw [hb.length]
  exact hle

/-- A call that throws and leaves everything as it was. -/
theorem safe_thrown (h : s.InBuffer) : s.Safe (.thrown e s) :=
  ⟨h.offset, fun _ => rfl, .refl _, fun _ _ hv => (nomatch hv)⟩

/-! ## 2. Numbers -/

/-- A position behind so many bytes of the buffer. -/
theorem within_add {b : NodeBuffer} {i n : Nat} (h : i + n ≤ b.length) :
    Within b (.rat i + .ofInt n) := by
  refine ⟨(i : ℚ) + ((n : Int) : ℚ), rfl, ?_, ?_⟩
  · positivity
  · exact_mod_cast h

theorem safe_writeUint (h : s.InBuffer) (value : Double) :
    s.Safe ((writeUint (size + 1) value).run s) := by
  have hget : (Prog.gets fun s => s.buffer.writeUIntLE (size + 1) value s.offset :
      BufferProg (Except Exception (NodeBuffer × Access))).run s =
      .done (s.buffer.writeUIntLE (size + 1) value s.offset) s := rfl
  unfold writeUint
  rw [Prog.run_bind_of_done hget]
  unfold NodeBuffer.writeUIntLE
  split
  · exact safe_thrown h
  · split
    · exact safe_thrown h
    · rename_i i hi
      obtain ⟨hoffset, hfits⟩ := NodeBuffer.checked_eq_some hi
      have hlen : i + (leBytes (size + 1) (NodeBuffer.toUint value)).length ≤ s.buffer.length := by
        rw [length_leBytes]
        exact hfits
      have houtside := NodeBuffer.outside_writeAt hlen
      refine ⟨?_, fun hdone => (nomatch hdone), houtside, fun v a hv => ?_⟩
      · show Within s.buffer (s.offset + .ofInt (size + 1 : Nat))
        rw [hoffset]
        exact within_add hfits
      · cases hv
        exact NodeBuffer.owns_access hfits

theorem safe_readUint (h : s.InBuffer) : s.Safe ((readUint (size + 1)).run s) := by
  have hget : (Prog.gets fun s => s.buffer.readUIntLE (size + 1) s.offset :
      BufferProg (Except Exception (Nat × Access))).run s =
      .done (s.buffer.readUIntLE (size + 1) s.offset) s := rfl
  unfold readUint
  rw [Prog.run_bind_of_done hget]
  unfold NodeBuffer.readUIntLE
  split
  · exact safe_thrown h
  · rename_i i hi
    obtain ⟨hoffset, hfits⟩ := NodeBuffer.checked_eq_some hi
    refine ⟨?_, fun hdone => (nomatch hdone), .refl _, fun v a hv => ?_⟩
    · show Within s.buffer (s.offset + .ofInt (size + 1 : Nat))
      rw [hoffset]
      exact within_add hfits
    · cases hv
      exact NodeBuffer.owns_access hfits

theorem safe_writeUint64 (h : s.InBuffer) (value : Double) :
    s.Safe ((writeUint64 value).run s) := by
  unfold writeUint64
  cases NodeBuffer.toBigInt value with
  | error e => exact safe_thrown h
  | ok value' => exact safe_writeUint h value'

/-! ## 3. Bytes -/

/-- What is left behind an offset in the buffer. -/
theorem remainder_eq {q : ℚ} (hq : s.offset = .rat q) :
    s.getRemainderLength = .rat (s.buffer.length - q) := by
  unfold getRemainderLength
  rw [hq]
  exact Double.rat_sub _ _

/-- Where `copy` begins: at the integer below the offset. -/
theorem toInteger_of_nonneg {q : ℚ} (hpos : 0 ≤ q) :
    ¬NodeBuffer.toInteger (.rat q) < 0 ∧ ((NodeBuffer.toInteger (.rat q)).toNat : ℚ) ≤ q := by
  have hfloor : 0 ≤ ⌊q⌋ := Int.floor_nonneg.2 hpos
  have hnat : ((⌊q⌋.toNat : Int) : ℚ) = ((⌊q⌋ : Int) : ℚ) := by rw [Int.toNat_of_nonneg hfloor]
  refine ⟨not_lt.2 hfloor, ?_⟩
  show ((⌊q⌋.toNat : Nat) : ℚ) ≤ q
  calc ((⌊q⌋.toNat : Nat) : ℚ) = ((⌊q⌋.toNat : Int) : ℚ) := (Int.cast_natCast _).symm
    _ = ((⌊q⌋ : Int) : ℚ) := hnat
    _ ≤ q := Int.floor_le q

theorem safe_writeBytes (h : s.InBuffer) (value : Bytes) :
    s.Safe ((writeBytes value).run s) := by
  obtain ⟨q, hq, hpos, hle⟩ := h.offset
  have hover : Double.lt s.getRemainderLength (.ofInt value.length) =
      decide ((s.buffer.length : ℚ) - q < ((value.length : Int) : ℚ)) := by
    rw [remainder_eq hq]
    rfl
  have hget : (Prog.gets fun s => Double.lt s.getRemainderLength (.ofInt value.length) :
      BufferProg Bool).run s =
      .done (decide ((s.buffer.length : ℚ) - q < ((value.length : Int) : ℚ))) s := by
    rw [Prog.run_gets, hover]
  unfold writeBytes
  rw [Prog.run_bind_of_done hget]
  by_cases hlt : (s.buffer.length : ℚ) - q < ((value.length : Int) : ℚ)
  · rw [decide_eq_true hlt]
    exact safe_thrown h
  · rw [decide_eq_false hlt]
    obtain ⟨hnot, hfloor⟩ := toInteger_of_nonneg hpos
    have hcast : ((value.length : Int) : ℚ) = (value.length : ℚ) := Int.cast_natCast _
    rw [hcast, not_lt] at hlt
    have hroom : (NodeBuffer.toInteger (.rat q)).toNat + value.length ≤ s.buffer.length := by
      have hsum : ((NodeBuffer.toInteger (.rat q)).toNat : ℚ) + value.length ≤ s.buffer.length := by
        linarith
      exact_mod_cast hsum
    have hcopied : value.take (s.buffer.length - (NodeBuffer.toInteger (.rat q)).toNat) = value :=
      List.take_of_length_le (by omega)
    have hcopy : s.buffer.copyTo value s.offset = .ok
        (s.buffer.writeAt (NodeBuffer.toInteger (.rat q)).toNat value,
          s.buffer.access (NodeBuffer.toInteger (.rat q)).toNat value.length) := by
      unfold NodeBuffer.copyTo
      rw [hq, if_neg hnot]
      dsimp only
      rw [hcopied]
    have hcopyGet : (Prog.gets fun s => s.buffer.copyTo value s.offset :
        BufferProg (Except Exception (NodeBuffer × Access))).run s = .done (.ok
          (s.buffer.writeAt (NodeBuffer.toInteger (.rat q)).toNat value,
            s.buffer.access (NodeBuffer.toInteger (.rat q)).toNat value.length)) s := by
      rw [Prog.run_gets, hcopy]
    have hpass : (Prog.throwIf (false = true) (.error "Write over buffer boundary.") :
        BufferProg Unit).run s = .done () s := rfl
    rw [Prog.run_bind_of_done hpass, Prog.run_bind_of_done hcopyGet]
    refine ⟨⟨q + ((value.length : Int) : ℚ), ?_, ?_, ?_⟩, fun hdone => (nomatch hdone),
      NodeBuffer.outside_writeAt hroom, fun v a hv => ?_⟩
    · show s.offset + .ofInt (value.length : Int) = _
      rw [hq]
      rfl
    · positivity
    · rw [hcast]
      linarith
    · cases hv
      exact NodeBuffer.owns_access hroom

/-- Bytes that `slice` gives out are the buffer's, whatever its arguments. -/
theorem owns_slice {b : NodeBuffer} (start stop : Double) : b.Owns (b.slice start stop).2 := by
  have hstart := b.adjustOffset_le start
  have hstop := b.adjustOffset_le stop
  refine NodeBuffer.owns_access ?_
  omega

/-- An argument that goes over the end is allowed: it is refused. -/
theorem allowed_of_over {q left : ℚ} (hpos : 0 ≤ q) (hleft : 0 ≤ left)
    (hover : Double.lt (.rat left) length = true) :
    length ≠ .nan ∧ Double.lt length (-.rat q) = false := by
  cases length with
  | rat r =>
    have hlt : left < r := of_decide_eq_true hover
    refine ⟨fun h => (nomatch h), decide_eq_false ?_⟩
    linarith
  | inf => exact ⟨fun h => (nomatch h), rfl⟩
  | negInf => cases hover
  | nan => cases hover

/-- One that does not lead out of the buffer unless it leads over the front. -/
theorem within_add_iff {b : NodeBuffer} {q : ℚ}
    (hover : Double.lt (.rat (b.length - q)) length = false) :
    Within b (.rat q + length) ↔ length ≠ .nan ∧ Double.lt length (-.rat q) = false := by
  cases length with
  | rat r =>
    have hle : ¬(b.length - q : ℚ) < r := of_decide_eq_false hover
    rw [not_lt] at hle
    refine ⟨fun h => ?_, fun h => ?_⟩
    · obtain ⟨p, hp, hpos, _⟩ := h
      have hsum : q + r = p := Double.rat.inj hp
      refine ⟨fun hnan => (nomatch hnan), decide_eq_false ?_⟩
      linarith
    · have hnot : ¬r < -q := of_decide_eq_false h.2
      exact ⟨q + r, rfl, by linarith, by linarith⟩
  | inf => cases hover
  | negInf =>
    refine ⟨fun h => ?_, fun h => ?_⟩
    · obtain ⟨p, hp, _⟩ := h
      cases hp
    · cases h.2
  | nan =>
    refine ⟨fun h => ?_, fun h => absurd rfl h.1⟩
    obtain ⟨p, hp, _⟩ := h
    cases hp

/-- **`readBytes`** checks its argument against the end of the buffer only. -/
theorem safe_readBytes_iff (h : s.InBuffer) (length : Double) :
    s.Safe ((readBytes length).run s) ↔
      length ≠ .nan ∧ Double.lt length (-s.offset) = false := by
  obtain ⟨q, hq, hpos, hle⟩ := h.offset
  have hget : (Prog.gets fun s => Double.lt s.getRemainderLength length : BufferProg Bool).run s =
      .done (Double.lt (.rat (s.buffer.length - q)) length) s := by
    rw [Prog.run_gets, remainder_eq hq]
  unfold readBytes
  rw [Prog.run_bind_of_done hget, hq]
  cases hover : Double.lt (.rat (s.buffer.length - q)) length with
  | true =>
    exact iff_of_true (safe_thrown h) (allowed_of_over hpos (by linarith) hover)
  | false =>
    rw [← within_add_iff hover, ← hq]
    refine ⟨fun hsafe => hsafe.offset, fun hwithin => ?_⟩
    refine ⟨hwithin, fun hdone => (nomatch hdone), .refl _, fun v a hv => ?_⟩
    cases hv
    exact owns_slice _ _

/-- **`skip`** checks it against both. -/
theorem safe_skip_iff (h : s.InBuffer) (length : Double) :
    s.Safe ((skip length).run s) ↔ length ≠ .nan := by
  obtain ⟨q, hq, hpos, hle⟩ := h.offset
  have hget : (Prog.gets fun s => Double.lt length (-s.offset) ||
      Double.lt s.getRemainderLength length : BufferProg Bool).run s =
      .done (Double.lt length (-.rat q) ||
        Double.lt (.rat (s.buffer.length - q)) length) s := by
    rw [Prog.run_gets, remainder_eq hq, hq]
  unfold skip
  rw [Prog.run_bind_of_done hget]
  cases hunder : Double.lt length (-.rat q) with
  | true =>
    refine iff_of_true (safe_thrown h) fun hnan => ?_
    rw [hnan] at hunder
    cases hunder
  | false =>
    cases hover : Double.lt (.rat (s.buffer.length - q)) length with
    | true => exact iff_of_true (safe_thrown h) (allowed_of_over hpos (by linarith) hover).1
    | false =>
      have hiff : Within s.buffer (s.offset + length) ↔ length ≠ .nan := by
        rw [hq, within_add_iff hover]
        exact ⟨And.left, fun hnan => ⟨hnan, hunder⟩⟩
      rw [← hiff]
      exact ⟨fun hsafe => hsafe.offset,
        fun hwithin => ⟨hwithin, fun hdone => (nomatch hdone), .refl _, fun v a hv => (nomatch hv)⟩⟩

/-! ## 4. Sequences -/

/-- **One call** is safe just when it is allowed. -/
theorem perform_iff (h : s.InBuffer) (op : BufferOperation) :
    s.Safe ((perform op).run s) ↔ s.Allowed op := by
  cases op with
  | readBytes length => exact safe_readBytes_iff h length
  | readHex length => exact safe_readBytes_iff h length
  | skip length => exact safe_skip_iff h length
  | writeUint8 value => exact iff_of_true (safe_writeUint h value) trivial
  | writeUint16 value => exact iff_of_true (safe_writeUint h value) trivial
  | writeUint32 value => exact iff_of_true (safe_writeUint h value) trivial
  | writeUint64 value => exact iff_of_true (safe_writeUint64 h value) trivial
  | writeBytes value => exact iff_of_true (safe_writeBytes h value) trivial
  | mark =>
    exact iff_of_true ⟨h.offset, fun hdone => (nomatch hdone), .refl _, fun v a hv => (nomatch hv)⟩
      trivial
  | reset =>
    exact iff_of_true ⟨h.marker, fun hdone => (nomatch hdone), .refl _, fun v a hv => (nomatch hv)⟩
      trivial
  | _ => exact iff_of_true (safe_readUint h) trivial

/-- The marker is where it was. -/
def SameMarker (s s' : RawByteBuffer) : Prop := s'.marker = s.marker

theorem sameMarker_refl (s : RawByteBuffer) : SameMarker s s := rfl

theorem sameMarker_trans (s t u : RawByteBuffer) (h : SameMarker s t) (h' : SameMarker t u) :
    SameMarker s u := h'.trans h

theorem sameMarker_writeUint (size : Nat) (value : Double) :
    Prog.Keeps SameMarker (writeUint size value) := by
  refine Prog.Keeps.bind sameMarker_trans (.gets sameMarker_refl _) fun written => ?_
  refine Prog.Keeps.bind sameMarker_trans (.ofExcept sameMarker_refl _) fun p => ?_
  exact Prog.Keeps.bind sameMarker_trans (fun _ => rfl) fun _ => .pure sameMarker_refl _

theorem sameMarker_readUint (size : Nat) : Prog.Keeps SameMarker (readUint size) := by
  refine Prog.Keeps.bind sameMarker_trans (.gets sameMarker_refl _) fun read => ?_
  refine Prog.Keeps.bind sameMarker_trans (.ofExcept sameMarker_refl _) fun p => ?_
  exact Prog.Keeps.bind sameMarker_trans (fun _ => rfl) fun _ => .pure sameMarker_refl _

theorem sameMarker_writeBytes (value : Bytes) : Prog.Keeps SameMarker (writeBytes value) := by
  refine Prog.Keeps.bind sameMarker_trans (.gets sameMarker_refl _) fun beyond => ?_
  refine Prog.Keeps.bind sameMarker_trans (.throwIf sameMarker_refl _ _) fun _ => ?_
  refine Prog.Keeps.bind sameMarker_trans (.gets sameMarker_refl _) fun copied => ?_
  refine Prog.Keeps.bind sameMarker_trans (.ofExcept sameMarker_refl _) fun p => ?_
  exact Prog.Keeps.bind sameMarker_trans (fun _ => rfl) fun _ => .pure sameMarker_refl _

theorem sameMarker_readBytes (length : Double) : Prog.Keeps SameMarker (readBytes length) := by
  refine Prog.Keeps.bind sameMarker_trans (.gets sameMarker_refl _) fun beyond => ?_
  refine Prog.Keeps.bind sameMarker_trans (.throwIf sameMarker_refl _ _) fun _ => ?_
  refine Prog.Keeps.bind sameMarker_trans (.gets sameMarker_refl _) fun p => ?_
  exact Prog.Keeps.bind sameMarker_trans (fun _ => rfl) fun _ => .pure sameMarker_refl _

theorem sameMarker_skip (length : Double) : Prog.Keeps SameMarker (skip length) := by
  refine Prog.Keeps.bind sameMarker_trans (.gets sameMarker_refl _) fun beyond => ?_
  refine Prog.Keeps.bind sameMarker_trans (.throwIf sameMarker_refl _ _) fun _ => ?_
  exact Prog.Keeps.bind sameMarker_trans (fun _ => rfl) fun _ => .pure sameMarker_refl _

/-- Only `mark` moves the marker, to the offset. -/
theorem marker_perform (s : RawByteBuffer) (op : BufferOperation) :
    ((perform op).run s).state.marker = s.marker ∨
      ((perform op).run s).state.marker = s.offset := by
  cases op with
  | mark => exact .inr rfl
  | reset => exact .inl rfl
  | writeUint8 value => exact .inl (sameMarker_writeUint 1 value s)
  | writeUint16 value => exact .inl (sameMarker_writeUint 2 value s)
  | writeUint32 value => exact .inl (sameMarker_writeUint 4 value s)
  | writeUint64 value =>
    refine .inl (Prog.Keeps.bind sameMarker_trans (.ofExcept sameMarker_refl _) (fun value => ?_) s)
    exact sameMarker_writeUint 8 value
  | readUint8 => exact .inl (sameMarker_readUint 1 s)
  | readUint16 => exact .inl (sameMarker_readUint 2 s)
  | readUint32 => exact .inl (sameMarker_readUint 4 s)
  | readUint64 => exact .inl (sameMarker_readUint 8 s)
  | writeBytes value => exact .inl (sameMarker_writeBytes value s)
  | readBytes length => exact .inl (sameMarker_readBytes length s)
  | readHex length => exact .inl (sameMarker_readBytes length s)
  | skip length => exact .inl (sameMarker_skip length s)

theorem InBuffer.perform {op : BufferOperation} (h : s.InBuffer)
    (hsafe : s.Safe ((perform op).run s)) : ((perform op).run s).state.InBuffer := by
  refine ⟨hsafe.offset.mono hsafe.outside, ?_⟩
  rcases marker_perform s op with hmarker | hmarker
  · rw [hmarker]
    exact h.marker.mono hsafe.outside
  · rw [hmarker]
    exact h.offset.mono hsafe.outside

theorem allSafe_iff (h : s.InBuffer) (ops : List BufferOperation) :
    AllSafe s ops ↔ AllAllowed s ops := by
  induction ops generalizing s with
  | nil => exact Iff.rfl
  | cons op ops ih =>
    have hop := perform_iff h op
    refine ⟨fun hsafe => ?_, fun hallowed => ?_⟩
    · exact ⟨hop.1 hsafe.1, (ih (h.perform hsafe.1)).1 hsafe.2⟩
    · have hsafe := hop.2 hallowed.1
      exact ⟨hsafe, (ih (h.perform hsafe)).2 hallowed.2⟩

theorem inBuffer_fromBuffer (buffer : NodeBuffer) : (fromBuffer buffer).InBuffer := by
  have hzero : Within buffer (.ofInt 0) := ⟨0, rfl, le_refl _, Nat.cast_nonneg _⟩
  exact ⟨hzero, hzero⟩

/-! ## 5. Written and read -/

/-- A value of a width, or bytes. -/
inductive Field
  | uint8 (n : Nat)
  | uint16 (n : Nat)
  | uint32 (n : Nat)
  | uint64 (n : Nat)
  | bytes (bs : Bytes)

namespace Field

/-- The value is one of its width. -/
def InRange : Field → Prop
  | uint8 n => n < 256 ^ 1
  | uint16 n => n < 256 ^ 2
  | uint32 n => n < 256 ^ 4
  | uint64 n => n < 256 ^ 8
  | bytes _ => True

/-- The bytes it takes. -/
def encode : Field → Bytes
  | uint8 n => leBytes 1 n
  | uint16 n => leBytes 2 n
  | uint32 n => leBytes 4 n
  | uint64 n => leBytes 8 n
  | bytes bs => bs

/-- Write it. -/
def write : Field → BufferProg Touched
  | uint8 n => writeUint8 (.ofInt n)
  | uint16 n => writeUint16 (.ofInt n)
  | uint32 n => writeUint32 (.ofInt n)
  | uint64 n => writeUint64 (.ofInt n)
  | bytes bs => writeBytes bs

/-- Read one of its width. -/
def read : Field → BufferProg Touched
  | uint8 _ => readUint8
  | uint16 _ => readUint16
  | uint32 _ => readUint32
  | uint64 _ => readUint64
  | bytes bs => readBytes (.ofInt bs.length)

/-- What is to be read. -/
def value : Field → BufferValue
  | uint8 n => .number n
  | uint16 n => .number n
  | uint32 n => .number n
  | uint64 n => .number n
  | bytes bs => .bytes bs

end Field

/-- The writes, one after the other. -/
def writeAll (fields : List Field) : BufferProg Unit :=
  Prog.forEach (fun field => do
    let _ ← field.write
    pure ()) fields

/-- The reads, and the values. -/
def readAll : List Field → BufferProg (List BufferValue)
  | [] => pure []
  | field :: fields => do
    let (value, _) ← field.read
    let values ← readAll fields
    pure (value :: values)

/-- All bytes of some fields. -/
def encodeAll (fields : List Field) : Bytes := fields.flatMap Field.encode

theorem writeUIntLE_natCast {b : NodeBuffer} {n i : Nat} (hn : n < 256 ^ (size + 1))
    (hroom : i + (size + 1) ≤ b.length) : b.writeUIntLE (size + 1) (.ofInt n) (.rat i) =
      .ok (b.writeAt i (leBytes (size + 1) n), b.access i (size + 1)) := by
  have hmax : Double.lt (.ofInt (256 ^ (size + 1) - 1)) (.ofInt n) = false := by
    have hle : (n : Int) ≤ 256 ^ (size + 1) - 1 := by
      have hcast : ((n : Nat) : Int) < ((256 ^ (size + 1) : Nat) : Int) := Int.ofNat_lt.2 hn
      push_cast at hcast
      omega
    exact decide_eq_false (not_lt.2 (Int.cast_le.2 hle))
  have hmin : Double.lt (.ofInt n) (.ofInt 0) = false :=
    decide_eq_false (not_lt.2 (Int.cast_le.2 (Int.natCast_nonneg n)))
  have huint : NodeBuffer.toUint (.ofInt n) = n := by
    have htrunc : Double.trunc ((n : Int) : ℚ) = n := by
      rw [Int.cast_natCast]
      exact Double.trunc_natCast n
    show (Double.trunc ((n : Int) : ℚ)).toNat = n
    rw [htrunc, Int.toNat_natCast]
  unfold NodeBuffer.writeUIntLE
  rw [hmax, hmin, if_neg (by decide), NodeBuffer.checked_natCast hroom, huint]

theorem natCast_add_ofInt (i n : Nat) :
    Double.rat i + .ofInt (n : Int) = .rat ((i + n : Nat) : ℚ) := by
  show Double.rat ((i : ℚ) + ((n : Int) : ℚ)) = _
  push_cast
  rfl

/-- What a write does: the bytes are put at the offset, and the offset behind them. -/
def written (s : RawByteBuffer) (i : Nat) (bs : Bytes) : RawByteBuffer :=
  { s with buffer := s.buffer.writeAt i bs, offset := .rat ((i + bs.length : Nat) : ℚ) }

theorem run_writeUint {n i : Nat} (hoffset : s.offset = .rat i) (hn : n < 256 ^ (size + 1))
    (hroom : i + (size + 1) ≤ s.buffer.length) :
    ∃ v, (writeUint (size + 1) (.ofInt n)).run s =
      .done v (s.written i (leBytes (size + 1) n)) := by
  have hget : (Prog.gets fun s => s.buffer.writeUIntLE (size + 1) (.ofInt n) s.offset :
      BufferProg (Except Exception (NodeBuffer × Access))).run s = .done
      (.ok (s.buffer.writeAt i (leBytes (size + 1) n), s.buffer.access i (size + 1))) s := by
    rw [Prog.run_gets, hoffset, writeUIntLE_natCast hn hroom]
  have hlast : s.offset + .ofInt (size + 1 : Nat) =
      .rat ((i + (leBytes (size + 1) n).length : Nat) : ℚ) := by
    rw [hoffset, length_leBytes, natCast_add_ofInt]
  refine ⟨(.nothing, some (s.buffer.access i (size + 1))), ?_⟩
  unfold writeUint written
  rw [Prog.run_bind_of_done hget, ← hlast]
  rfl

theorem run_readUint {i : Nat} (hoffset : s.offset = .rat i)
    (hroom : i + (size + 1) ≤ s.buffer.length) :
    ∃ a, (readUint (size + 1)).run s =
      .done (.number (leNat ((s.buffer.bytes.drop i).take (size + 1))), some a)
        { s with offset := .rat ((i + (size + 1) : Nat) : ℚ) } := by
  have hread : s.buffer.readUIntLE (size + 1) s.offset = .ok
      (leNat ((s.buffer.bytes.drop i).take (size + 1)), s.buffer.access i (size + 1)) := by
    unfold NodeBuffer.readUIntLE
    rw [hoffset, NodeBuffer.checked_natCast hroom, ← NodeBuffer.readAt_eq hroom]
  have hget : (Prog.gets fun s => s.buffer.readUIntLE (size + 1) s.offset :
      BufferProg (Except Exception (Nat × Access))).run s = .done (.ok
      (leNat ((s.buffer.bytes.drop i).take (size + 1)), s.buffer.access i (size + 1))) s := by
    rw [Prog.run_gets, hread]
  refine ⟨s.buffer.access i (size + 1), ?_⟩
  unfold readUint
  rw [Prog.run_bind_of_done hget, ← natCast_add_ofInt, ← hoffset]
  rfl

theorem run_writeBytes {i : Nat} {bs : Bytes} (hoffset : s.offset = .rat i)
    (hroom : i + bs.length ≤ s.buffer.length) :
    ∃ v, (writeBytes bs).run s = .done v (s.written i bs) := by
  have hover : Double.lt s.getRemainderLength (.ofInt bs.length) = false := by
    rw [remainder_eq hoffset]
    refine decide_eq_false (not_lt.2 ?_)
    have hcast : ((i : ℚ) + (bs.length : ℚ)) ≤ s.buffer.length := by exact_mod_cast hroom
    rw [Int.cast_natCast]
    linarith
  have hget : (Prog.gets fun s => Double.lt s.getRemainderLength (.ofInt bs.length) :
      BufferProg Bool).run s = .done false s := by
    rw [Prog.run_gets, hover]
  have hpass : (Prog.throwIf (false = true) (.error "Write over buffer boundary.") :
      BufferProg Unit).run s = .done () s := rfl
  have hinteger : NodeBuffer.toInteger (.rat i) = i := by
    have hfloor : ⌊(i : ℚ)⌋ = (i : Int) := Int.floor_natCast i
    exact hfloor
  have hcopied : bs.take (s.buffer.length - i) = bs := List.take_of_length_le (by omega)
  have hcopy : s.buffer.copyTo bs s.offset =
      .ok (s.buffer.writeAt i bs, s.buffer.access i bs.length) := by
    unfold NodeBuffer.copyTo
    rw [hoffset, hinteger, if_neg (by omega), Int.toNat_natCast]
    dsimp only
    rw [hcopied]
  have hcopyGet : (Prog.gets fun s => s.buffer.copyTo bs s.offset :
      BufferProg (Except Exception (NodeBuffer × Access))).run s =
      .done (.ok (s.buffer.writeAt i bs, s.buffer.access i bs.length)) s := by
    rw [Prog.run_gets, hcopy]
  refine ⟨(.nothing, some (s.buffer.access i bs.length)), ?_⟩
  unfold writeBytes written
  rw [Prog.run_bind_of_done hget, Prog.run_bind_of_done hpass, Prog.run_bind_of_done hcopyGet,
    ← natCast_add_ofInt, ← hoffset]
  rfl

theorem run_readBytes {i n : Nat} (hoffset : s.offset = .rat i)
    (hroom : i + n ≤ s.buffer.length) :
    ∃ a, (readBytes (.ofInt n)).run s = .done (.bytes ((s.buffer.bytes.drop i).take n), some a)
      { s with offset := .rat ((i + n : Nat) : ℚ) } := by
  have hover : Double.lt s.getRemainderLength (.ofInt n) = false := by
    rw [remainder_eq hoffset]
    refine decide_eq_false (not_lt.2 ?_)
    have hcast : ((i : ℚ) + (n : ℚ)) ≤ s.buffer.length := by exact_mod_cast hroom
    rw [Int.cast_natCast]
    linarith
  have hget : (Prog.gets fun s => Double.lt s.getRemainderLength (.ofInt n) :
      BufferProg Bool).run s = .done false s := by
    rw [Prog.run_gets, hover]
  have hpass : (Prog.throwIf (false = true) (.error "Read over buffer boundary.") :
      BufferProg Unit).run s = .done () s := rfl
  have hadjust : ∀ k : Nat, k ≤ s.buffer.length → s.buffer.adjustOffset (.rat k) = k := by
    intro k hk
    unfold NodeBuffer.adjustOffset
    dsimp only
    rw [Double.trunc_natCast, if_pos (Int.natCast_nonneg k), Int.toNat_natCast,
      Nat.min_eq_left hk]
  have hslice : s.buffer.slice s.offset (s.offset + .ofInt n) =
      ((s.buffer.bytes.drop i).take n, s.buffer.access i n) := by
    unfold NodeBuffer.slice
    rw [hoffset, natCast_add_ofInt, hadjust i (by omega), hadjust (i + n) hroom]
    dsimp only
    rw [Nat.add_sub_cancel_left, NodeBuffer.readAt_eq hroom]
  have hsliceGet : (Prog.gets fun s => s.buffer.slice s.offset (s.offset + .ofInt n) :
      BufferProg (Bytes × Access)).run s =
      .done ((s.buffer.bytes.drop i).take n, s.buffer.access i n) s := by
    rw [Prog.run_gets, hslice]
  refine ⟨s.buffer.access i n, ?_⟩
  unfold readBytes
  rw [Prog.run_bind_of_done hget, Prog.run_bind_of_done hpass, Prog.run_bind_of_done hsliceGet,
    ← natCast_add_ofInt, ← hoffset]
  rfl

theorem room_of_leBytes {b : NodeBuffer} {i n v : Nat}
    (h : i + (leBytes n v).length ≤ b.length) : i + n ≤ b.length := by
  rwa [length_leBytes] at h

/-- A number that is read where its bytes are. -/
theorem run_readUint_leBytes {n i : Nat} (hoffset : s.offset = .rat i)
    (hn : n < 256 ^ (size + 1))
    (hroom : i + (leBytes (size + 1) n).length ≤ s.buffer.length)
    (hbytes : (s.buffer.bytes.drop i).take (leBytes (size + 1) n).length =
      leBytes (size + 1) n) :
    ∃ a, (readUint (size + 1)).run s = .done (.number n, some a)
      { s with offset := .rat ((i + (leBytes (size + 1) n).length : Nat) : ℚ) } := by
  obtain ⟨a, hrun⟩ := run_readUint hoffset (room_of_leBytes hroom)
  rw [length_leBytes] at hbytes
  refine ⟨a, ?_⟩
  rw [hrun, hbytes, leNat_leBytes hn, length_leBytes]

theorem toBigInt_natCast (n : Nat) : NodeBuffer.toBigInt (.ofInt n) = .ok (.ofInt n) := by
  show (if ((n : Int) : ℚ).den = 1 then Except.ok (Double.ofInt n)
    else Except.error Exception.rangeError) = _
  rw [if_pos (Rat.den_intCast n)]

/-- **A field that is written** where there is room. -/
theorem run_write {i : Nat} (field : Field) (hoffset : s.offset = .rat i) (hrange : field.InRange)
    (hroom : i + field.encode.length ≤ s.buffer.length) :
    ∃ v, field.write.run s = .done v (s.written i field.encode) := by
  cases field with
  | uint8 n => exact run_writeUint hoffset hrange (room_of_leBytes hroom)
  | uint16 n => exact run_writeUint hoffset hrange (room_of_leBytes hroom)
  | uint32 n => exact run_writeUint hoffset hrange (room_of_leBytes hroom)
  | uint64 n =>
    obtain ⟨v, hrun⟩ := run_writeUint hoffset hrange (room_of_leBytes hroom)
    refine ⟨v, ?_⟩
    show (writeUint64 (.ofInt n)).run s = _
    unfold writeUint64
    rw [toBigInt_natCast]
    exact hrun
  | bytes bs => exact run_writeBytes hoffset hroom

/-- **A field that is read** where its bytes are. -/
theorem run_read {i : Nat} (field : Field) (hoffset : s.offset = .rat i) (hrange : field.InRange)
    (hroom : i + field.encode.length ≤ s.buffer.length)
    (hbytes : (s.buffer.bytes.drop i).take field.encode.length = field.encode) :
    ∃ a, field.read.run s = .done (field.value, some a)
      { s with offset := .rat ((i + field.encode.length : Nat) : ℚ) } := by
  cases field with
  | uint8 n => exact run_readUint_leBytes hoffset hrange hroom hbytes
  | uint16 n => exact run_readUint_leBytes hoffset hrange hroom hbytes
  | uint32 n => exact run_readUint_leBytes hoffset hrange hroom hbytes
  | uint64 n => exact run_readUint_leBytes hoffset hrange hroom hbytes
  | bytes bs =>
    obtain ⟨a, hrun⟩ := run_readBytes hoffset hroom
    have hread : (s.buffer.bytes.drop i).take bs.length = bs := hbytes
    rw [show (Field.bytes bs).encode.length = bs.length from rfl, hread] at hrun
    exact ⟨a, hrun⟩

theorem length_encodeAll_cons (field : Field) (fields : List Field) :
    (encodeAll (field :: fields)).length = field.encode.length + (encodeAll fields).length := by
  unfold encodeAll
  rw [List.flatMap_cons, List.length_append]

/-- **Fields that are written** one after the other: their bytes are there, and the offset is behind
    them. -/
theorem run_writeAll {i : Nat} (fields : List Field) (hoffset : s.offset = .rat i)
    (hrange : ∀ field ∈ fields, field.InRange)
    (hroom : i + (encodeAll fields).length ≤ s.buffer.length) :
    ∃ s', (writeAll fields).run s = .done () s' ∧
      s'.offset = .rat ((i + (encodeAll fields).length : Nat) : ℚ) ∧
      s'.marker = s.marker ∧ s'.buffer.length = s.buffer.length ∧
      s'.buffer.bytes.take i = s.buffer.bytes.take i ∧
      (s'.buffer.bytes.drop i).take (encodeAll fields).length = encodeAll fields := by
  induction fields generalizing s i with
  | nil => exact ⟨s, rfl, hoffset, rfl, rfl, rfl, rfl⟩
  | cons field fields ih =>
    rw [length_encodeAll_cons] at hroom
    have hfits : i + field.encode.length ≤ s.buffer.length := by omega
    have hrest : i + field.encode.length + (encodeAll fields).length ≤
        (s.written i field.encode).buffer.length := by
      show _ ≤ s.buffer.length
      omega
    obtain ⟨v, hwrite⟩ := run_write field hoffset (hrange field List.mem_cons_self) hfits
    obtain ⟨s', hrun, hlast, hmarker, hlength, hfront, hbytes⟩ :=
      ih (show (s.written i field.encode).offset = _ from rfl)
        (fun f hf => hrange f (List.mem_cons_of_mem _ hf)) hrest
    -- what the later writes leave is the bytes before, and the field's own
    have hput : (s.written i field.encode).buffer.bytes.take (i + field.encode.length) =
        s.buffer.bytes.take i ++ field.encode := by
      have hlen : (s.buffer.bytes.take i ++ field.encode).length = i + field.encode.length := by
        rw [List.length_append, List.length_take, NodeBuffer.length_bytes]
        omega
      show (s.buffer.writeAt i field.encode).bytes.take _ = _
      rw [NodeBuffer.bytes_writeAt hfits, ← hlen, List.take_left]
    have hbefore : (s.buffer.bytes.take i).length = i := by
      rw [List.length_take, NodeBuffer.length_bytes]
      omega
    rw [hput] at hfront
    have hstep : (do
        let _ ← field.write
        pure () : BufferProg Unit).run s = .done () (s.written i field.encode) := by
      rw [Prog.run_bind_of_done hwrite]
      rfl
    refine ⟨s', ?_, ?_, hmarker, hlength, ?_, ?_⟩
    · show ((do
        let _ ← field.write
        pure () : BufferProg Unit) >>= fun _ => writeAll fields).run s = _
      rw [Prog.run_bind_of_done hstep]
      exact hrun
    · rw [hlast, length_encodeAll_cons, Nat.add_assoc]
    · calc s'.buffer.bytes.take i
          = (s'.buffer.bytes.take (i + field.encode.length)).take i := by
            rw [List.take_take, Nat.min_eq_left (Nat.le_add_right _ _)]
        _ = s.buffer.bytes.take i := by
            rw [hfront, List.take_append_of_le_length (Nat.le_of_eq hbefore.symm),
              List.take_take, Nat.min_self]
    · have hsplit : encodeAll (field :: fields) = field.encode ++ encodeAll fields :=
        List.flatMap_cons
      have hown : (s'.buffer.bytes.drop i).take field.encode.length = field.encode := by
        have htake : (s'.buffer.bytes.drop i).take field.encode.length =
            (s'.buffer.bytes.take (i + field.encode.length)).drop i := by
          rw [List.drop_take, Nat.add_sub_cancel_left]
        rw [htake, hfront]
        calc (s.buffer.bytes.take i ++ field.encode).drop i
            = (s.buffer.bytes.take i ++ field.encode).drop (s.buffer.bytes.take i).length := by
              rw [hbefore]
          _ = field.encode := List.drop_left
      rw [length_encodeAll_cons, List.take_add, hown, List.drop_drop, hbytes, hsplit]

/-- **Fields that are read** one after the other. -/
theorem run_readAll {i : Nat} (fields : List Field) (hoffset : s.offset = .rat i)
    (hrange : ∀ field ∈ fields, field.InRange)
    (hroom : i + (encodeAll fields).length ≤ s.buffer.length)
    (hbytes : (s.buffer.bytes.drop i).take (encodeAll fields).length = encodeAll fields) :
    (readAll fields).run s = .done (fields.map Field.value)
      { s with offset := .rat ((i + (encodeAll fields).length : Nat) : ℚ) } := by
  induction fields generalizing s i with
  | nil =>
    show Outcome.done [] s = .done [] { s with offset := .rat ((i + 0 : Nat) : ℚ) }
    rw [Nat.add_zero, ← hoffset]
  | cons field fields ih =>
    rw [length_encodeAll_cons] at hroom hbytes
    have hsplit : encodeAll (field :: fields) = field.encode ++ encodeAll fields :=
      List.flatMap_cons
    rw [hsplit, List.take_add] at hbytes
    have hlen : ((s.buffer.bytes.drop i).take field.encode.length).length =
        field.encode.length := by
      rw [List.length_take, List.length_drop, NodeBuffer.length_bytes]
      omega
    obtain ⟨hfirst, hrest⟩ := List.append_inj hbytes hlen
    rw [List.drop_drop] at hrest
    obtain ⟨a, hrun⟩ := run_read field hoffset (hrange field List.mem_cons_self) (by omega) hfirst
    have hroom' : i + field.encode.length + (encodeAll fields).length ≤ s.buffer.length := by
      omega
    have hnext := ih (s := { s with offset := .rat ((i + field.encode.length : Nat) : ℚ) })
      (i := i + field.encode.length) rfl (fun f hf => hrange f (List.mem_cons_of_mem _ hf))
      hroom' hrest
    unfold readAll
    rw [Prog.run_bind_of_done hrun]
    dsimp only
    rw [Prog.run_bind_of_done hnext, length_encodeAll_cons, Nat.add_assoc]
    rfl

/-- A number that has been written had room. -/
theorem room_of_writeUint {n i : Nat} {v : Touched} {s' : RawByteBuffer}
    (hoffset : s.offset = .rat i) (hrun : (writeUint (size + 1) (.ofInt n)).run s = .done v s') :
    i + (size + 1) ≤ s.buffer.length := by
  have hget : (Prog.gets fun s => s.buffer.writeUIntLE (size + 1) (.ofInt n) s.offset :
      BufferProg (Except Exception (NodeBuffer × Access))).run s =
      .done (s.buffer.writeUIntLE (size + 1) (.ofInt n) s.offset) s := rfl
  unfold writeUint at hrun
  rw [Prog.run_bind_of_done hget] at hrun
  unfold NodeBuffer.writeUIntLE at hrun
  split at hrun
  · cases hrun
  · split at hrun
    · cases hrun
    · rename_i j hj
      obtain ⟨hj, hfits⟩ := NodeBuffer.checked_eq_some hj
      have hcast : (i : ℚ) = (j : ℚ) := Double.rat.inj (hoffset.symm.trans hj)
      have hij : i = j := by exact_mod_cast hcast
      rw [hij]
      exact hfits

theorem room_of_writeBytes {bs : Bytes} {i : Nat} {v : Touched} {s' : RawByteBuffer}
    (hoffset : s.offset = .rat i) (hrun : (writeBytes bs).run s = .done v s') :
    i + bs.length ≤ s.buffer.length := by
  by_contra hroom
  have hover : Double.lt s.getRemainderLength (.ofInt bs.length) = true := by
    rw [remainder_eq hoffset]
    refine decide_eq_true ?_
    have hcast : (s.buffer.length : ℚ) < (i : ℚ) + (bs.length : ℚ) := by
      exact_mod_cast Nat.lt_of_not_le hroom
    rw [Int.cast_natCast]
    linarith
  have hget : (Prog.gets fun s => Double.lt s.getRemainderLength (.ofInt bs.length) :
      BufferProg Bool).run s = .done true s := by
    rw [Prog.run_gets, hover]
  unfold writeBytes at hrun
  rw [Prog.run_bind_of_done hget] at hrun
  cases hrun

/-- **A field that has been written** had room. -/
theorem room_of_write {i : Nat} {field : Field} {v : Touched} {s' : RawByteBuffer}
    (hoffset : s.offset = .rat i) (hrun : field.write.run s = .done v s') :
    i + field.encode.length ≤ s.buffer.length := by
  have hnumber : ∀ size n, i + size ≤ s.buffer.length →
      i + (leBytes size n).length ≤ s.buffer.length := by
    intro size n h
    rwa [length_leBytes]
  cases field with
  | uint8 n => exact hnumber 1 n (room_of_writeUint hoffset hrun)
  | uint16 n => exact hnumber 2 n (room_of_writeUint hoffset hrun)
  | uint32 n => exact hnumber 4 n (room_of_writeUint hoffset hrun)
  | uint64 n =>
    have hwrite : (writeUint64 (.ofInt n)).run s = .done v s' := hrun
    unfold writeUint64 at hwrite
    rw [toBigInt_natCast] at hwrite
    exact hnumber 8 n (room_of_writeUint hoffset hwrite)
  | bytes bs => exact room_of_writeBytes hoffset hrun

/-- **Fields that have been written** had room. -/
theorem room_of_writeAll {i : Nat} {fields : List Field} {s' : RawByteBuffer}
    (hoffset : s.offset = .rat i) (hi : i ≤ s.buffer.length)
    (hrange : ∀ field ∈ fields, field.InRange)
    (hrun : (writeAll fields).run s = .done () s') :
    i + (encodeAll fields).length ≤ s.buffer.length := by
  induction fields generalizing s i with
  | nil => exact hi
  | cons field fields ih =>
    have hbind : (field.write >>= fun _ => writeAll fields).run s = .done () s' := by
      have hall : (writeAll (field :: fields)).run s =
          ((field.write >>= fun _ => pure ()) >>= fun _ => writeAll fields).run s := rfl
      rw [← hrun, hall, Prog.run_bind, Prog.run_bind, Prog.run_bind]
      cases field.write.run s <;> rfl
    obtain ⟨v, s₁, hwrite, hrest⟩ := Prog.run_bind_done.1 hbind
    have hroom := room_of_write hoffset hwrite
    obtain ⟨v', hwrite'⟩ := run_write field hoffset (hrange field List.mem_cons_self) hroom
    have hs : s₁ = s.written i field.encode := by
      have hboth := hwrite.symm.trans hwrite'
      cases hboth
      rfl
    rw [hs] at hrest
    have hnext := ih (show (s.written i field.encode).offset = _ from rfl) hroom
      (fun f hf => hrange f (List.mem_cons_of_mem _ hf)) hrest
    rw [length_encodeAll_cons, ← Nat.add_assoc]
    exact hnext

/-- **What has been written is read again** from the start, and the buffer is as it was after the
    writes. -/
theorem read_written {buffer : NodeBuffer} {fields : List Field} {s' : RawByteBuffer}
    (hrange : ∀ field ∈ fields, field.InRange)
    (hrun : (writeAll fields).run (fromBuffer buffer) = .done () s') :
    (reset >>= fun _ => readAll fields).run s' = .done (fields.map Field.value) s' := by
  have hstart : (fromBuffer buffer).offset = .rat (0 : Nat) := rfl
  have hroom := room_of_writeAll hstart (Nat.zero_le _) hrange hrun
  obtain ⟨s₁, hrun₁, hlast, hmarker, hlength, -, hbytes⟩ :=
    run_writeAll fields hstart hrange hroom
  obtain rfl : s₁ = s' := by
    have hboth := hrun₁.symm.trans hrun
    cases hboth
    rfl
  have hreset : reset.run s₁ = .done (.nothing, none) { s₁ with offset := .rat (0 : Nat) } := by
    show Outcome.done (BufferValue.nothing, none) { s₁ with offset := s₁.marker } = _
    rw [hmarker]
    rfl
  have hroom₁ : 0 + (encodeAll fields).length ≤ s₁.buffer.length := by
    rw [hlength]
    exact hroom
  have hread := run_readAll (s := { s₁ with offset := .rat (0 : Nat) }) fields rfl hrange hroom₁
    hbytes
  rw [Prog.run_bind_of_done hreset, hread, ← hlast]

/-! ## 6. The calls, and the values -/

/-- **The buffer is safe** exactly while every call is allowed; and what is written is read. -/
theorem byteBuffer_iff (buffer : NodeBuffer) (ops : List BufferOperation) (fields : List Field) :
    ((fromBuffer buffer).AllSafe ops ↔ (fromBuffer buffer).AllAllowed ops) ∧
    ∀ s' : RawByteBuffer, (∀ field ∈ fields, field.InRange) →
      (writeAll fields).run (fromBuffer buffer) = .done () s' →
      (reset >>= fun _ => readAll fields).run s' = .done (fields.map Field.value) s' :=
  ⟨allSafe_iff (inBuffer_fromBuffer buffer) ops, fun _ hrange hrun => read_written hrange hrun⟩

/-- Four bytes. -/
def fourBytes : NodeBuffer := ⟨[0, 0, 0, 0], 0, 4, by decide⟩

/-- A value out of range and a jump in front of the buffer, which throw; and three bytes that are
    written and read. -/
theorem byteBuffer_iff_sample :
    (fromBuffer fourBytes).AllSafe [.writeUint8 (.ofInt 300), .mark, .skip (.ofInt (-2))] ∧
    ∃ s' : RawByteBuffer, (writeAll [.uint16 513, .bytes [7]]).run (fromBuffer fourBytes) =
        .done () s' ∧
      (reset >>= fun _ => readAll [.uint16 513, .bytes [7]]).run s' =
        .done [.number 513, .bytes [7]] s' := by
  obtain ⟨hsafe, hread⟩ := byteBuffer_iff fourBytes
    [.writeUint8 (.ofInt 300), .mark, .skip (.ofInt (-2))] [.uint16 513, .bytes [7]]
  have hrange : ∀ field ∈ [Field.uint16 513, Field.bytes [7]], field.InRange := by
    intro field hfield
    rcases List.mem_cons.1 hfield with rfl | hfield
    · show 513 < 256 ^ 2
      omega
    · obtain rfl := List.mem_singleton.1 hfield
      trivial
  obtain ⟨s', hrun, _⟩ := run_writeAll (s := fromBuffer fourBytes) (i := 0)
    [.uint16 513, .bytes [7]] rfl hrange (by decide)
  refine ⟨hsafe.2 ⟨trivial, trivial, ?_, trivial⟩, s', hrun, hread s' hrange hrun⟩
  exact Double.noConfusion

/-- **`readBytes(-1)`** moves the offset in front of the buffer. -/
theorem byteBuffer_not :
    ¬∀ (buffer : NodeBuffer) (ops : List BufferOperation), (fromBuffer buffer).AllSafe ops := by
  intro h
  obtain ⟨⟨hwithin, _, _, _⟩, _⟩ := h fourBytes [.readBytes (.ofInt (-1))]
  have hover : (fromBuffer fourBytes).getRemainderLength.lt (.ofInt (-1)) = false := by
    refine decide_eq_false ?_
    show ¬((4 : Int) : ℚ) + -((0 : Int) : ℚ) < ((-1 : Int) : ℚ)
    norm_num
  have hget : (Prog.gets fun s => Double.lt s.getRemainderLength (.ofInt (-1)) :
      BufferProg Bool).run (fromBuffer fourBytes) = .done false (fromBuffer fourBytes) := by
    rw [Prog.run_gets, hover]
  have hoffset : ((perform (.readBytes (.ofInt (-1)))).run (fromBuffer fourBytes)).state.offset =
      .ofInt 0 + .ofInt (-1) := by
    show ((readBytes (.ofInt (-1))).run (fromBuffer fourBytes)).state.offset = _
    unfold readBytes
    rw [Prog.run_bind_of_done hget]
    rfl
  obtain ⟨q, hq, hpos, _⟩ := hwithin
  rw [hoffset] at hq
  obtain rfl : ((0 : Int) : ℚ) + ((-1 : Int) : ℚ) = q := Double.rat.inj hq
  norm_num at hpos

end RawByteBuffer

end CoreEx
