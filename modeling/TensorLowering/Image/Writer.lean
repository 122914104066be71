import TensorLowering.Attempt

namespace TensorLowering.Image

structure Writer where
  bytes : Array UInt8
  deriving DecidableEq, Inhabited

/-- Every image starts with these four bytes. -/
def magic : List UInt8 := [0x53, 0x47, 0x42, 0x31]

def version : UInt32 := 1

/-- Where the header holds the number of records. -/
def recordCountOffset : Nat := 8

/-- The four bytes of a word, the lowest first. -/
def wordBytes (word : UInt32) : List UInt8 :=
  [word.toUInt8, (word >>> 8).toUInt8, (word >>> 16).toUInt8, (word >>> 24).toUInt8]

namespace Writer

def empty : Writer := ⟨#[]⟩

def length (writer : Writer) : Nat := writer.bytes.size

def append (writer : Writer) (bytes : List UInt8) : Writer := ⟨writer.bytes ++ bytes.toArray⟩

/-- Drops what lies behind a length. -/
def truncate (writer : Writer) (length : Nat) : Writer := ⟨writer.bytes.take length⟩

/-- Replaces the bytes from an offset on, as many as are given. -/
def overwrite (writer : Writer) (offset : Nat) (bytes : List UInt8) : Writer :=
  ⟨writer.bytes.take offset ++ bytes.toArray ++ writer.bytes.drop (offset + bytes.length)⟩

@[simp] theorem length_append (writer : Writer) (bytes : List UInt8) :
    (writer.append bytes).length = writer.length + bytes.length := by
  simp [append, length]

theorem truncate_append (writer : Writer) (bytes : List UInt8) :
    (writer.append bytes).truncate writer.length = writer := by
  obtain ⟨written⟩ := writer
  simp [append, truncate, length]

theorem length_overwrite (writer : Writer) {offset : Nat} {bytes : List UInt8}
    (inside : offset + bytes.length ≤ writer.length) :
    (writer.overwrite offset bytes).length = writer.length := by
  simp only [overwrite, length, Array.size_append, Array.take_eq_extract, Array.drop_eq_extract,
    Array.size_extract, List.size_toArray] at inside ⊢
  omega

/-- The header, with room for the number of records. -/
def withHeader : Writer :=
  ((empty.append magic).append (wordBytes version)).append (wordBytes 0)

end Writer

def bytes (bytes : List UInt8) : Attempt Writer Unit := modify fun writer => writer.append bytes

def word (word : UInt32) : Attempt Writer Unit := bytes (wordBytes word)

def signed (value : Int32) : Attempt Writer Unit := word value.toUInt32

def float (value : Float32) : Attempt Writer Unit := word value.toBits

/-- Writes a number that has to fit in a word; `field` names it if it does not. -/
def count (field : String) (value : Nat) : Attempt Writer Unit :=
  if value < UInt32.size then word (UInt32.ofNat value)
  else throw (.image (.overflow field value))

/-- Replaces four bytes that are already written. -/
def patch (offset : Nat) (word : UInt32) : Attempt Writer Unit := do
  let length := (← get).length
  if offset + 4 ≤ length then
    modify fun writer => writer.overwrite offset (wordBytes word)
  else
    throw (.image (.outOfBounds offset length))

/-- Writes one record: if that fails, nothing it appended is left. -/
def record {α : Type} (write : Attempt Writer α) : Attempt Writer α := fun writer =>
  match write writer with
  | .ok result written => .ok result written
  | .error error written => .error error (written.truncate writer.length)

/-- Enters the number of records into the header and hands the image over. -/
def Writer.finish (writer : Writer) (records : Nat) : Except LoweringError (Array UInt8) :=
  if records < UInt32.size then
    match patch recordCountOffset (UInt32.ofNat records) writer with
    | .ok _ patched => .ok patched.bytes
    | .error error _ => .error error
  else
    throw (.image (.overflow "stage count" records))

end TensorLowering.Image
