import Spineless.PrimOp.Boxed

/-!
# Byte arrays

Frozen and mutable byte arrays share one space, so freezing and thawing change nothing. Elements of
several bytes are little-endian and indexed in units of their own width.
-/

namespace Spineless.PrimOp

/-- What follows a beginning of a name. -/
def after? (beginning name : String) : Option String :=
  (beginning.toList.isPrefixOf? name.toList).map String.ofList

/-- How bytes are read as elements. -/
inductive Element where
  | int | word | word8 | char
deriving DecidableEq

namespace Element

/-- The element that a name gives access to. The access comes first in the name. -/
def ofName? (name : String) : Option Element :=
  match after? "index" name <|> after? "read" name <|> after? "write" name with
  | some "IntArray#" => some .int
  | some "WordArray#" => some .word
  | some "Word8Array#" => some .word8
  | some "CharArray#" => some .char
  | _ => none

/-- The bytes of one element. -/
def width : Element → Nat
  | .int | .word => 8
  | .word8 | .char => 1

/-- The number that bytes denote, the least significant byte first. -/
def ofLittleEndian : List UInt8 → Nat
  | [] => 0
  | b :: rest => b.toNat + 256 * ofLittleEndian rest

/-- The low bytes of a number, the least significant byte first. -/
def toLittleEndian : Nat → Nat → List UInt8
  | 0, _ => []
  | width + 1, n => UInt8.ofNat n :: toLittleEndian width (n / 256)

/-- The atom of an element. -/
def decode (e : Element) (bytes : List UInt8) : Atom :=
  let n := ofLittleEndian bytes
  match e with
  | .int => .int (UInt64.ofNat n).toInt64
  | .word | .word8 => .word (UInt64.ofNat n)
  | .char => .char (Char.ofNat n)

/-- The bytes of an atom of the element's sort; what does not fit is cut off. -/
def encode? (e : Element) (a : Atom) : Option (List UInt8) :=
  match e, a with
  | .int, .int n => some (toLittleEndian 8 n.toUInt64.toNat)
  | .word, .word n => some (toLittleEndian 8 n.toNat)
  | .word8, .word n => some (toLittleEndian 1 n.toNat)
  | .char, .char c => some (toLittleEndian 1 c.toNat)
  | _, _ => none

end Element

/-- The operations on byte arrays. -/
inductive ByteOp where
  | new (pinned : Bool) | newAligned
  | size | getSize | shrink | isPinned | identity | copy
  | index (e : Element) | read (e : Element) | write (e : Element)

namespace ByteOp

/-- The names that the family lists. -/
def names : List String := [
  "newByteArray#", "newPinnedByteArray#", "newAlignedPinnedByteArray#", "sizeofByteArray#",
  "sizeofMutableByteArray#", "getSizeofMutableByteArray#", "shrinkMutableByteArray#",
  "isByteArrayPinned#", "isMutableByteArrayPinned#", "unsafeFreezeByteArray#",
  "unsafeThawByteArray#", "copyByteArray#", "copyMutableByteArray#",
  "indexIntArray#", "readIntArray#", "writeIntArray#",
  "indexWordArray#", "readWordArray#", "writeWordArray#",
  "indexWord8Array#", "readWord8Array#", "writeWord8Array#",
  "indexCharArray#", "readCharArray#", "writeCharArray#"]

/-- The operation that a name is matched with: by its beginning if it gives access to elements, and
else as a whole. -/
def ofName? (name : String) : Option ByteOp :=
  match Element.ofName? name with
  | some e =>
    if (after? "write" name).isSome then some (write e)
    else if (after? "read" name).isSome then some (read e)
    else some (index e)
  | none =>
    match name with
    | "newByteArray#" => some (new false)
    | "newPinnedByteArray#" => some (new true)
    | "newAlignedPinnedByteArray#" => some newAligned
    | "sizeofByteArray#" | "sizeofMutableByteArray#" => some size
    | "getSizeofMutableByteArray#" => some getSize
    | "shrinkMutableByteArray#" => some shrink
    | "isByteArrayPinned#" | "isMutableByteArrayPinned#" => some isPinned
    | "unsafeFreezeByteArray#" | "unsafeThawByteArray#" => some identity
    | "copyByteArray#" | "copyMutableByteArray#" => some copy
    | _ => none

/-- The range of `count` bytes from `offset`, checked against a size. -/
def range (call : Call) (size : Nat) (offset count : Int64) : Exec (Nat × Nat) := do
  let start ← call.index offset
  let count ← call.index count
  if start + count ≤ size then pure (start, count)
  else call.refuse (.bytesOutside start count size)

/-- The position of the first byte of an element, checked against a size. -/
def elementStart (call : Call) (size : Nat) (i : Int64) (width : Nat) : Exec Nat := do
  let index ← call.index i
  if index * width + width ≤ size then pure (index * width)
  else call.refuse (.elementOutside index size)

/-- A fresh array of zeros. -/
def create (host : Host) (call : Call) (size : Int64) (pinned : Bool) : Exec Answer := do
  let bytes ← call.filled host.bytes 0 (← call.index size)
  .answer (.byteArray (← Exec.newBytes bytes pinned))

/-- The size of an array. -/
def sizeOf (h : Handle) : Exec Answer := do
  .answer (.int (Int64.ofNat (← Exec.readBytes h).bytes.size))

/-- The element at an index. -/
def fetch (e : Element) (call : Call) (h : Handle) (i : Int64) : Exec Answer := do
  let bytes := (← Exec.readBytes h).bytes
  let start ← elementStart call bytes.size i e.width
  .answer (e.decode (slice bytes start e.width).toList)

/-- Changes the element at an index; a value of another sort is declined once the index is
checked. -/
def put (e : Element) (call : Call) (h : Handle) (i : Int64) (value : Atom) : Exec Answer := do
  let start ← elementStart call (← Exec.readBytes h).bytes.size i e.width
  match e.encode? value with
  | none => .declined
  | some encoded =>
    Exec.modifyBytes h fun old => splice old start encoded.toArray
    .noValues

/-- Copies a range of one array over a range of another. -/
def copyInto (call : Call) (src : Handle) (srcOffset : Int64) (dst : Handle)
    (dstOffset count : Int64) : Exec Answer := do
  let bytes := (← Exec.readBytes src).bytes
  let (start, n) ← range call bytes.size srcOffset count
  let copied := slice bytes start n
  let (start, _) ← range call (← Exec.readBytes dst).bytes.size dstOffset count
  Exec.modifyBytes dst fun old => splice old start copied
  .noValues

/-- Answers a call. -/
def run (host : Host) (op : ByteOp) (call : Call) : Exec Answer :=
  match op, call.args with
  | new pinned, [.int count, .void] => create host call count pinned
  | newAligned, [.int count, _, .void] => create host call count true
  | size, [.byteArray h] | getSize, [.byteArray h, .void] => sizeOf h
  | shrink, [.byteArray h, .int count, .void] => do
    let wanted ← call.index count
    let present := (← Exec.readBytes h).bytes.size
    if present < wanted then call.refuse (.cannotGrow present wanted)
    else
      Exec.modifyBytes h fun old => slice old 0 wanted
      .noValues
  | isPinned, [.byteArray h] => do .answer (.ofBool (← Exec.readBytes h).pinned)
  | identity, [.byteArray h, .void] => do
    let _ ← Exec.readBytes h
    .answer (.byteArray h)
  | copy, [.byteArray src, .int srcOffset, .byteArray dst, .int dstOffset, .int count, .void] =>
    copyInto call src srcOffset dst dstOffset count
  | index e, [.byteArray h, .int i] => fetch e call h i
  | read e, [.byteArray h, .int i, .void] => fetch e call h i
  | write e, [.byteArray h, .int i, value, .void] => put e call h i value
  | _, _ => .declined

end ByteOp

/-- The family of operations on byte arrays. -/
def byteArrayHandler (host : Host) : Handler :=
  .ofNames "ByteArray" ByteOp.names ByteOp.ofName? (ByteOp.run host)

end Spineless.PrimOp
