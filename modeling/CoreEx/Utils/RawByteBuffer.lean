/-
  File:      CoreEx/Utils/RawByteBuffer.lean
  Subject:   `utils/source/byte-buffer.ts` on a buffer of Node's, with any arguments.

  The codecs are modelled on a buffer of their own with a position that is a natural number
  (`ByteBuffer`). Here the position is what JavaScript makes of it, and so is every argument.

  * `RawByteBuffer` -- buffer, offset and marker; `fromBuffer`;
  * `readUint8` to `skip` -- the methods;
  * `BufferOperation`, `perform` -- one of them, with what it returns and the bytes it touches.
-/
import CoreEx.Lib.Prog
import CoreEx.Utils.NodeBuffer

namespace CoreEx

/-- `ByteBuffer`: its three fields. -/
structure RawByteBuffer where
  buffer : NodeBuffer
  offset : Double
  marker : Double

/-- Code that works on it and may throw. -/
abbrev BufferProg : Type → Type := Prog RawByteBuffer Exception

/-- What a method returns. -/
inductive BufferValue
  | nothing
  | number (n : Nat)
  | bytes (bs : Bytes)
  deriving DecidableEq

/-- A value, and the part of the memory that has been read or written. -/
abbrev Touched := BufferValue × Option Access

namespace RawByteBuffer

/-! ## 1. The code -/

/-- `ByteBuffer.fromBuffer(buffer)`; `fromSize(size)` is that of a buffer of zeros. -/
def fromBuffer (buffer : NodeBuffer) : RawByteBuffer := ⟨buffer, .ofInt 0, .ofInt 0⟩

/-- `getRemainderLength()`. -/
def getRemainderLength (s : RawByteBuffer) : Double := .ofInt s.buffer.length - s.offset

/-- `this.#offset = this.#buffer.writeUInt8(value, this.#offset)` and the like: the methods of the
    buffer return the offset behind what they have written. -/
def writeUint (size : Nat) (value : Double) : BufferProg Touched := do
  let written ← Prog.gets fun s => s.buffer.writeUIntLE size value s.offset
  let (buffer, access) ← Prog.ofExcept written
  Prog.modify fun s => { s with buffer := buffer, offset := s.offset + .ofInt size }
  pure (.nothing, some access)

/-- `this.#buffer.readUInt8(this.#offset)` and the like, and the offset behind what is read. -/
def readUint (size : Nat) : BufferProg Touched := do
  let read ← Prog.gets fun s => s.buffer.readUIntLE size s.offset
  let (n, access) ← Prog.ofExcept read
  Prog.modify fun s => { s with offset := s.offset + .ofInt size }
  pure (.number n, some access)

def writeUint8 (value : Double) : BufferProg Touched := writeUint 1 value
def readUint8 : BufferProg Touched := readUint 1
def writeUint16 (value : Double) : BufferProg Touched := writeUint 2 value
def readUint16 : BufferProg Touched := readUint 2
def writeUint32 (value : Double) : BufferProg Touched := writeUint 4 value
def readUint32 : BufferProg Touched := readUint 4

/-- A value that is no `bigint` is made one. -/
def writeUint64 (value : Double) : BufferProg Touched := do
  let value ← Prog.ofExcept (NodeBuffer.toBigInt value)
  writeUint 8 value

def readUint64 : BufferProg Touched := readUint 8

def writeBytes (value : Bytes) : BufferProg Touched := do
  let beyond ← Prog.gets fun s => Double.lt s.getRemainderLength (.ofInt value.length)
  Prog.throwIf (beyond = true) (.error "Write over buffer boundary.")
  let copied ← Prog.gets fun s => s.buffer.copyTo value s.offset
  let (buffer, access) ← Prog.ofExcept copied
  Prog.modify fun s => { s with buffer := buffer, offset := s.offset + .ofInt access.size }
  pure (.nothing, some access)

def readBytes (length : Double) : BufferProg Touched := do
  let beyond ← Prog.gets fun s => Double.lt s.getRemainderLength length
  Prog.throwIf (beyond = true) (.error "Read over buffer boundary.")
  let (value, access) ← Prog.gets fun s => s.buffer.slice s.offset (s.offset + length)
  Prog.modify fun s => { s with offset := s.offset + length }
  pure (.bytes value, some access)

def readHex (length : Double) : BufferProg Touched := readBytes length

/-- `mark()`. -/
def mark : BufferProg Touched := do
  Prog.modify fun s => { s with marker := s.offset }
  pure (.nothing, none)

/-- `reset()`; the marker is never undefined. -/
def reset : BufferProg Touched := do
  Prog.modify fun s => { s with offset := s.marker }
  pure (.nothing, none)

def skip (length : Double) : BufferProg Touched := do
  let beyond ← Prog.gets fun s =>
    Double.lt length (-s.offset) || Double.lt s.getRemainderLength length
  Prog.throwIf (beyond = true) (.error "Jump over buffer boundary.")
  Prog.modify fun s => { s with offset := s.offset + length }
  pure (.nothing, none)

/-- A call of a method. -/
inductive BufferOperation
  | writeUint8 (value : Double)
  | readUint8
  | writeUint16 (value : Double)
  | readUint16
  | writeUint32 (value : Double)
  | readUint32
  | writeUint64 (value : Double)
  | readUint64
  | writeBytes (value : Bytes)
  | readBytes (length : Double)
  | readHex (length : Double)
  | mark
  | reset
  | skip (length : Double)

/-- The call. -/
def perform : BufferOperation → BufferProg Touched
  | .writeUint8 value => writeUint8 value
  | .readUint8 => readUint8
  | .writeUint16 value => writeUint16 value
  | .readUint16 => readUint16
  | .writeUint32 value => writeUint32 value
  | .readUint32 => readUint32
  | .writeUint64 value => writeUint64 value
  | .readUint64 => readUint64
  | .writeBytes value => writeBytes value
  | .readBytes length => readBytes length
  | .readHex length => readHex length
  | .mark => mark
  | .reset => reset
  | .skip length => skip length

end RawByteBuffer

end CoreEx
