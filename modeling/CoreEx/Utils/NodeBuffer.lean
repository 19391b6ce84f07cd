/-
  File:      CoreEx/Utils/NodeBuffer.lean
  Subject:   Node's `Buffer`: a part of the memory that several buffers may share.

  A position outside the buffer is no error to JavaScript: there is `undefined`. The methods check
  their arguments by looking for it, or clip them. Positions are numbers, and may be fractions.

  * `NodeBuffer` -- the memory, and which part of it belongs to the buffer;
  * `readAt`, `writeAt` -- the bytes at a position, with no check;
  * `readUIntLE`, `writeUIntLE`, `writeBigUInt64LE`, `copyTo`, `slice` -- the methods;
  * `bytes_writeAt`, **`outside_writeAt`** -- what a write changes, and what it leaves.
-/
import CoreEx.Contracts.Exceptions
import CoreEx.Lib.Bytes
import CoreEx.Lib.Double

namespace CoreEx

/-- A buffer: so many bytes of a memory, from an offset on. -/
structure NodeBuffer where
  memory : Bytes
  byteOffset : Nat
  length : Nat
  fits : byteOffset + length ≤ memory.length

/-- A part of the memory that is read or written. -/
structure Access where
  start : Nat
  size : Nat
  deriving DecidableEq

namespace NodeBuffer

/-! ## 1. Bytes at a position -/

/-- The bytes of the buffer. -/
def bytes (b : NodeBuffer) : Bytes := (b.memory.drop b.byteOffset).take b.length

/-- The part of the memory from a position of the buffer on. -/
def access (b : NodeBuffer) (i size : Nat) : Access := ⟨b.byteOffset + i, size⟩

/-- It belongs to the buffer. -/
def Owns (b : NodeBuffer) (a : Access) : Prop :=
  b.byteOffset ≤ a.start ∧ a.start + a.size ≤ b.byteOffset + b.length

def readAt (b : NodeBuffer) (i size : Nat) : Bytes :=
  (b.memory.drop (b.byteOffset + i)).take size

/-- The memory does not grow. -/
def writeMemory (memory : Bytes) (p : Nat) (bs : Bytes) : Bytes :=
  (memory.take p ++ bs ++ memory.drop (p + bs.length)).take memory.length

theorem length_writeMemory (memory : Bytes) (p : Nat) (bs : Bytes) :
    (writeMemory memory p bs).length = memory.length := by
  unfold writeMemory
  rw [List.length_take, List.length_append, List.length_append, List.length_take, List.length_drop]
  omega

def writeAt (b : NodeBuffer) (i : Nat) (bs : Bytes) : NodeBuffer where
  memory := writeMemory b.memory (b.byteOffset + i) bs
  byteOffset := b.byteOffset
  length := b.length
  fits := by
    rw [length_writeMemory]
    exact b.fits

/-! ## 2. The methods -/

/-- `buffer[offset]` and `buffer[offset + size - 1]` are both there: the first of them. -/
def checked (b : NodeBuffer) (offset : Double) (size : Nat) : Option Nat :=
  match offset.index? b.length, (offset + .ofInt (size - 1)).index? b.length with
  | some i, some _ => some i
  | _, _ => none

/-- `readUInt8` and the others; the bytes that are read. -/
def readUIntLE (b : NodeBuffer) (size : Nat) (offset : Double) : Except Exception (Nat × Access) :=
  match b.checked offset size with
  | none => .error .rangeError
  | some i => .ok (leNat (b.readAt i size), b.access i size)

/-- What an element of a typed array makes of a number in its range. -/
def toUint : Double → Nat
  | .rat q => (Double.trunc q).toNat
  | _ => 0

/-- `writeUInt8` and the others: the buffer, and the bytes that are written. -/
def writeUIntLE (b : NodeBuffer) (size : Nat) (value offset : Double) :
    Except Exception (NodeBuffer × Access) :=
  if Double.lt (.ofInt (256 ^ size - 1)) value ∨ Double.lt value (.ofInt 0) then
    .error .rangeError
  else
    match b.checked offset size with
    | none => .error .rangeError
    | some i => .ok (b.writeAt i (leBytes size (toUint value)), b.access i size)

/-- `BigInt(value)`. -/
def toBigInt : Double → Except Exception Double
  | .rat q => if q.den = 1 then .ok (.rat q) else .error .rangeError
  | _ => .error .rangeError

/-- `Math.floor` of a number that is one and is finite, else 0. -/
def toInteger : Double → Int
  | .rat q => q.floor
  | _ => 0

/-- `value.copy(buffer, offset)`: the buffer, and the bytes that are written. -/
def copyTo (b : NodeBuffer) (value : Bytes) (offset : Double) :
    Except Exception (NodeBuffer × Access) :=
  if toInteger offset < 0 then .error .rangeError
  else
    let start := (toInteger offset).toNat
    let copied := value.take (b.length - start)
    .ok (b.writeAt start copied, b.access start copied.length)

/-- An argument of `slice`: a position from the front, or from the end if it is negative. -/
def adjustOffset (b : NodeBuffer) : Double → Nat
  | .rat q => if 0 ≤ Double.trunc q then min (Double.trunc q).toNat b.length
    else (Double.trunc q + b.length).toNat
  | .inf => b.length
  | .negInf => 0
  | .nan => 0

/-- `slice(from, to)`: a buffer on the same memory. -/
def slice (b : NodeBuffer) (start stop : Double) : Bytes × Access :=
  let i := b.adjustOffset start
  let size := b.adjustOffset stop - i
  (b.readAt i size, b.access i size)

/-! ## 3. What a write changes -/

/-- The same memory outside the buffer. -/
structure SameOutside (b b' : NodeBuffer) : Prop where
  byteOffset : b'.byteOffset = b.byteOffset
  length : b'.length = b.length
  size : b'.memory.length = b.memory.length
  before : b'.memory.take b.byteOffset = b.memory.take b.byteOffset
  behind : b'.memory.drop (b.byteOffset + b.length) = b.memory.drop (b.byteOffset + b.length)

variable {b : NodeBuffer} {i size : Nat} {bs : Bytes} {offset : Double}

theorem SameOutside.refl (b : NodeBuffer) : b.SameOutside b := ⟨rfl, rfl, rfl, rfl, rfl⟩

/-- What is written, where it fits. -/
theorem writeMemory_eq {memory : Bytes} {p : Nat} (h : p + bs.length ≤ memory.length) :
    writeMemory memory p bs = memory.take p ++ bs ++ memory.drop (p + bs.length) := by
  unfold writeMemory
  refine List.take_of_length_le ?_
  rw [List.length_append, List.length_append, List.length_take, List.length_drop]
  omega

/-- **A write in the buffer** leaves the memory outside. -/
theorem outside_writeAt (h : i + bs.length ≤ b.length) : b.SameOutside (b.writeAt i bs) := by
  have hfits := b.fits
  have hwrite : (b.writeAt i bs).memory = b.memory.take (b.byteOffset + i) ++ bs ++
      b.memory.drop (b.byteOffset + i + bs.length) := writeMemory_eq (by omega)
  have htake : (b.memory.take (b.byteOffset + i)).length = b.byteOffset + i := by
    rw [List.length_take]
    omega
  refine ⟨rfl, rfl, length_writeMemory _ _ _, ?_, ?_⟩
  · rw [hwrite, List.append_assoc, List.take_append_of_le_length (by omega), List.take_take,
      Nat.min_eq_left (by omega)]
  · have hsplit : b.byteOffset + b.length =
        (b.memory.take (b.byteOffset + i) ++ bs).length + (b.length - (i + bs.length)) := by
      rw [List.length_append, htake]
      omega
    rw [hwrite, hsplit, List.drop_length_add_append, List.drop_drop, ← hsplit]
    congr 1
    omega

/-- **The bytes of the buffer** after a write in it. -/
theorem bytes_writeAt (h : i + bs.length ≤ b.length) :
    (b.writeAt i bs).bytes = b.bytes.take i ++ bs ++ b.bytes.drop (i + bs.length) := by
  have hfits := b.fits
  have hwrite : (b.writeAt i bs).memory = b.memory.take (b.byteOffset + i) ++ (bs ++
      b.memory.drop (b.byteOffset + i + bs.length)) := by
    rw [← List.append_assoc]
    exact writeMemory_eq (by omega)
  have hfront : (b.memory.take (b.byteOffset + i)).drop b.byteOffset =
      (b.memory.drop b.byteOffset).take i := by
    rw [List.drop_take, Nat.add_sub_cancel_left]
  have hlength : ((b.memory.drop b.byteOffset).take i).length = i := by
    rw [List.length_take, List.length_drop]
    omega
  have hbehind : b.memory.drop (b.byteOffset + i + bs.length) =
      (b.memory.drop b.byteOffset).drop (i + bs.length) := by
    rw [List.drop_drop, Nat.add_assoc]
  have hall : ((b.memory.drop b.byteOffset).take i).take b.length =
      (b.memory.drop b.byteOffset).take i := List.take_of_length_le (by omega)
  have hbs : bs.take (b.length - i) = bs := List.take_of_length_le (by omega)
  show (((b.writeAt i bs).memory).drop b.byteOffset).take b.length = _
  unfold bytes
  rw [hwrite, List.drop_append_of_le_length (by rw [List.length_take]; omega), hfront, hbehind,
    List.take_append, hlength, hall, List.take_append, hbs, List.take_take,
    Nat.min_eq_left (by omega : i ≤ b.length), List.drop_take, Nat.sub_sub, List.append_assoc]

/-- A read in the buffer sees the buffer's bytes. -/
theorem readAt_eq (h : i + size ≤ b.length) : b.readAt i size = (b.bytes.drop i).take size := by
  unfold readAt bytes
  rw [List.drop_take, List.take_take, List.drop_drop, Nat.min_eq_left (by omega)]

theorem length_bytes (b : NodeBuffer) : b.bytes.length = b.length := by
  have hfits := b.fits
  unfold bytes
  rw [List.length_take, List.length_drop]
  omega

theorem owns_access (h : i + size ≤ b.length) : b.Owns (b.access i size) := by
  unfold Owns access
  dsimp only
  omega

/-! ## 4. Positions -/

/-- **Positions that are checked** are in the buffer. -/
theorem checked_eq_some (h : b.checked offset (size + 1) = some i) :
    offset = .rat i ∧ i + (size + 1) ≤ b.length := by
  unfold checked at h
  split at h
  · rename_i i' j hi hj
    obtain rfl : i' = i := Option.some.inj h
    obtain ⟨rfl, hlt⟩ := Double.index?_eq_some hi
    obtain ⟨hadd, hj⟩ := Double.index?_eq_some hj
    refine ⟨rfl, ?_⟩
    have hsum : ((i' : ℚ) + ((size : Int) : ℚ)) = (j : ℚ) := by
      have hcast : ((size + 1 : Nat) : Int) - 1 = (size : Int) := by omega
      have hrat : Double.rat ((i' : ℚ) + (((size + 1 : Nat) : Int) - 1 : Int)) = .rat j := hadd
      rw [hcast] at hrat
      exact Double.rat.inj hrat
    have hnat : i' + size = j := by exact_mod_cast hsum
    omega
  · cases h

theorem checked_natCast (h : i + (size + 1) ≤ b.length) :
    b.checked (.rat i) (size + 1) = some i := by
  have hsum : Double.rat i + .ofInt (((size + 1 : Nat) : Int) - 1) = .rat ((i + size : Nat) : ℚ) := by
    have hcast : ((size + 1 : Nat) : Int) - 1 = (size : Int) := by omega
    rw [hcast]
    show Double.rat ((i : ℚ) + ((size : Int) : ℚ)) = _
    push_cast
    rfl
  unfold checked
  rw [Double.index?_natCast (by omega), hsum, Double.index?_natCast (by omega)]

theorem adjustOffset_le (b : NodeBuffer) (a : Double) : b.adjustOffset a ≤ b.length := by
  cases a with
  | rat q =>
    unfold adjustOffset
    dsimp only
    split
    · exact Nat.min_le_right _ _
    · omega
  | inf => exact Nat.le_refl _
  | negInf => exact Nat.zero_le _
  | nan => exact Nat.zero_le _

end NodeBuffer

end CoreEx
