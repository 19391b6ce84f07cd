/-
  File:      CoreEx/Codec/ByteBuffer.lean
  Subject:   `utils/source/byte-buffer.ts`: a buffer with a position.

  * `fromSize`, `fromBuffer`, `getResult`, `toBuffer`;
  * `writeLE`, `readLE` -- the numbers, of one, two, four and eight bytes;
  * `writeBytes`, `readBytes`, `skip`, `getRemainderLength`;
  * `runOn` -- a part that is built in a buffer of its own;
  * **`writes_writeLE`**, **`reads_readLE`** and their companions -- what each puts down or takes.
-/
import CoreEx.Lib.Bytes
import CoreEx.Lib.Cursor
import CoreEx.Contracts.Exceptions

namespace CoreEx

/-- `ByteBuffer`. -/
abbrev ByteBuffer := Cursor UInt8

namespace ByteBuffer

/-- `ByteBuffer.fromSize(size)`. -/
def fromSize (size : Nat) : ByteBuffer := ⟨Bytes.zeros size, 0⟩

/-- `ByteBuffer.fromBuffer(buffer)`. -/
def fromBuffer (buffer : Bytes) : ByteBuffer := ⟨buffer, 0⟩

/-- `getResult()`: what stands before the position. -/
def getResult (b : ByteBuffer) : Bytes := b.buffer.take b.offset

/-- `toBuffer()`: all of it, the blanks included. -/
def toBuffer (b : ByteBuffer) : Bytes := b.buffer

/-- `getRemainderLength()`. -/
def getRemainderLength : Prog ByteBuffer Exception Nat := Cursor.remainder

/-- `writeUint8` to `writeUint64`: a number in `n` bytes. -/
def writeLE (n : Nat) (value : Int) : Prog ByteBuffer Exception Unit := do
  Prog.throwIf (¬(0 ≤ value ∧ value < 256 ^ n)) .rangeError
  Cursor.put (leBytes n value.toNat) .rangeError

def writeUint8 (value : Int) : Prog ByteBuffer Exception Unit := writeLE 1 value
def writeUint16 (value : Int) : Prog ByteBuffer Exception Unit := writeLE 2 value
def writeUint32 (value : Int) : Prog ByteBuffer Exception Unit := writeLE 4 value
def writeUint64 (value : Int) : Prog ByteBuffer Exception Unit := writeLE 8 value

/-- `readUint8` to `readUint64`. -/
def readLE (n : Nat) : Prog ByteBuffer Exception Nat := do
  let bs ← Cursor.take n .rangeError
  pure (leNat bs)

def readUint8 : Prog ByteBuffer Exception Nat := readLE 1
def readUint16 : Prog ByteBuffer Exception Nat := readLE 2
def readUint32 : Prog ByteBuffer Exception Nat := readLE 4
def readUint64 : Prog ByteBuffer Exception Nat := readLE 8

def writeBytes (value : Bytes) : Prog ByteBuffer Exception Unit :=
  Cursor.put value (.error "Write over buffer boundary.")

def readBytes (length : Nat) : Prog ByteBuffer Exception Bytes :=
  Cursor.take length (.error "Read over buffer boundary.")

def skip (length : Nat) : Prog ByteBuffer Exception Unit :=
  Cursor.seek length (.error "Jump over buffer boundary.")

/-- A part of an encoding, built in a buffer of its own. -/
def runOn (buffer : ByteBuffer) (part : Prog ByteBuffer Exception Unit) :
    Except Exception ByteBuffer :=
  match part.run buffer with
  | .done _ b => .ok b
  | .thrown e _ => .error e

/-! ## What each puts down or takes -/

/-- The program puts down `bs`, provided `C` holds and there is room. -/
def Puts (p : Prog ByteBuffer Exception Unit) (C : Prop) (bs : Bytes) : Prop :=
  Cursor.Writes 0 p fun bs' _ => C ∧ bs' = bs

theorem writes_writeLE (n : Nat) (value : Int) :
    Puts (writeLE n value) (0 ≤ value ∧ value < 256 ^ n) (leBytes n value.toNat) := by
  have hput : Cursor.Writes 0 (Cursor.put (leBytes n value.toNat) Exception.rangeError)
      fun bs (_ : Unit) => True ∧ bs = leBytes n value.toNat :=
    (Cursor.Writes.put _ _).congr fun bs _ => ⟨fun h => ⟨trivial, h⟩, And.right⟩
  refine ((Cursor.Writes.throwIf _ _).seq hput).congr fun bs _ => ?_
  rw [not_not, and_true, List.nil_append]

theorem writes_writeBytes (value : Bytes) : Puts (writeBytes value) True value :=
  (Cursor.Writes.put _ _).congr fun _ _ => ⟨fun h => ⟨trivial, h⟩, And.right⟩

theorem reads_readLE (n : Nat) :
    Cursor.Reads (readLE n) fun consumed _ v => consumed = leBytes n v ∧ v < 256 ^ n := by
  refine ((Cursor.Reads.take n _).bind fun bs => Cursor.Reads.pure (leNat bs)).congr
    fun consumed rest v => ?_
  rw [eq_leBytes_iff]
  constructor
  · rintro ⟨_, _, bs, rfl, ⟨rfl, hn⟩, rfl, rfl⟩
    rw [List.append_nil]
    exact ⟨hn, rfl⟩
  · rintro ⟨hn, rfl⟩
    exact ⟨consumed, [], consumed, (List.append_nil _).symm, ⟨rfl, hn⟩, rfl, rfl⟩

theorem reads_readBytes (n : Nat) :
    Cursor.Reads (readBytes n) fun consumed _ bs => consumed = bs ∧ bs.length = n :=
  Cursor.Reads.take n _

theorem reads_skip (n : Nat) :
    Cursor.Reads (skip n) fun consumed _ _ => consumed.length = n :=
  Cursor.Reads.seek n _

theorem reads_getRemainderLength :
    Cursor.Reads getRemainderLength fun consumed rest n => consumed = [] ∧ n = rest.length :=
  Cursor.Reads.remainder

@[simp] theorem getResult_filled (size : Nat) (bs : Bytes) :
    getResult (Cursor.filled 0 size bs) = bs := List.take_left

@[simp] theorem toBuffer_filled (size : Nat) (bs : Bytes) :
    toBuffer (Cursor.filled 0 size bs) = bs ++ Bytes.zeros (size - bs.length) := rfl

/-- What a part built in a buffer of its own comes to. -/
theorem runOn_eq_ok {p : Prog ByteBuffer Exception Unit} {W : Bytes → Unit → Prop}
    (hp : Cursor.Writes 0 p W) {size : Nat} {b : ByteBuffer} :
    runOn (fromSize size) p = .ok b ↔
      ∃ bs, W bs () ∧ bs.length ≤ size ∧ b = Cursor.filled 0 size bs := by
  have hrun : runOn (fromSize size) p = .ok b ↔
      p.run ⟨List.replicate size 0, 0⟩ = .done () b := by
    unfold runOn fromSize Bytes.zeros
    cases p.run ⟨List.replicate size 0, 0⟩ with
    | done u b' =>
      exact ⟨fun h => congrArg _ (Except.ok.inj h), fun h => by cases h; rfl⟩
    | thrown e b' => exact ⟨fun h => (nomatch h), fun h => (nomatch h)⟩
  rw [hrun, Cursor.Writes.from_blank hp]

/-- The bytes of such a part. -/
theorem getResult_runOn {p : Prog ByteBuffer Exception Unit} {W : Bytes → Unit → Prop}
    (hp : Cursor.Writes 0 p W) {size : Nat} {bs : Bytes} :
    (∃ b, runOn (fromSize size) p = .ok b ∧ b.getResult = bs) ↔ W bs () ∧ bs.length ≤ size := by
  constructor
  · rintro ⟨b, hb, rfl⟩
    obtain ⟨bs, hW, hfit, rfl⟩ := (runOn_eq_ok hp).1 hb
    rw [getResult_filled]
    exact ⟨hW, hfit⟩
  · rintro ⟨hW, hfit⟩
    exact ⟨_, (runOn_eq_ok hp).2 ⟨bs, hW, hfit, rfl⟩, getResult_filled size bs⟩

end ByteBuffer

/-- `map` returns what it makes of a value that is there. -/
theorem Except.map_eq_ok {ε α β : Type} {f : α → β} {x : Except ε α} {b : β} :
    x.map f = .ok b ↔ ∃ a, x = .ok a ∧ f a = b := by
  cases x with
  | error e => exact ⟨fun h => (nomatch h), fun ⟨_, h, _⟩ => (nomatch h)⟩
  | ok a =>
    constructor
    · intro h
      exact ⟨a, rfl, Except.ok.inj h⟩
    · rintro ⟨_, h, rfl⟩
      cases h
      rfl

end CoreEx
