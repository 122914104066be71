import TensorLowering.Image.Record
import TensorLowering.Proofs.Attempt

namespace TensorLowering.Image

abbrev Reader (α : Type) := StateT (List UInt8) Option α

namespace Reader

/-- Four bytes, the lowest first. -/
def word : Reader UInt32
  | a :: b :: c :: d :: rest =>
    some (.ofNat (a.toNat + 0x100 * b.toNat + 0x10000 * c.toNat + 0x1000000 * d.toNat), rest)
  | _ => none

def byte : Reader UInt8
  | first :: rest => some (first, rest)
  | [] => none

/-- Reads as many values as given, one after another. -/
def times {α : Type} (read : Reader α) : Nat → Reader (List α)
  | 0 => pure []
  | n + 1 => do
    let first ← read
    let later ← times read n
    return first :: later

end Reader

/-- What the image says about a tensor. -/
structure Descriptor where
  index : UInt32
  type : UInt32
  order : UInt32
  axisCount : UInt32
  extents : List UInt32
  strides : List UInt32
  deriving DecidableEq, Repr

inductive RecordParams where
  | copy (mode byteCount : UInt32)
  | power (scale shift power : UInt32)
  deriving DecidableEq, Repr

structure StageRecord where
  kind : UInt32
  category : UInt32
  inputCount : UInt32
  outputCount : UInt32
  params : RecordParams
  inputs : List Descriptor
  outputs : List Descriptor
  deriving DecidableEq, Repr

structure Contents where
  magic : List UInt8
  version : UInt32
  recordCount : UInt32
  records : List StageRecord
  deriving DecidableEq, Repr

namespace Reader

def descriptor : Reader Descriptor := do
  let index ← word
  let type ← word
  let order ← word
  let axisCount ← word
  let extents ← times word axisCount.toNat
  let strides ← times word axisCount.toNat
  return ⟨index, type, order, axisCount, extents, strides⟩

/-- The parameters of a stage, by the code of its kind. Stages without parameters have no record. -/
def params (kind : UInt32) : Reader RecordParams :=
  if kind = Kind.copy.code then do
    let mode ← word
    let byteCount ← word
    return .copy mode byteCount
  else if kind = Kind.power.code then do
    let scale ← word
    let shift ← word
    let power ← word
    return .power scale shift power
  else
    failure

def record : Reader StageRecord := do
  let kind ← word
  let category ← word
  let inputCount ← word
  let outputCount ← word
  let params ← params kind
  let inputs ← times descriptor inputCount.toNat
  let outputs ← times descriptor outputCount.toNat
  return ⟨kind, category, inputCount, outputCount, params, inputs, outputs⟩

def contents : Reader Contents := do
  let magic ← times byte 4
  let version ← word
  let recordCount ← word
  let records ← times record recordCount.toNat
  return ⟨magic, version, recordCount, records⟩

end Reader

/-- Reads an image, which has to end where its last record does. -/
def decode (image : List UInt8) : Option Contents :=
  match Reader.contents image with
  | some (contents, []) => some contents
  | _ => none

/-- The reader takes exactly these bytes and makes this value of them. -/
def Reads {α : Type} (read : Reader α) (bytes : List UInt8) (value : α) : Prop :=
  ∀ rest, read (bytes ++ rest) = some (value, rest)

section

variable {α β : Type}

theorem Reads.pure (value : α) : Reads (Pure.pure value) [] value := fun _ => rfl

theorem Reads.bind {read : Reader α} {next : α → Reader β} {first later : List UInt8} {middle : α}
    {value : β} (here : Reads read first middle) (there : Reads (next middle) later value) :
    Reads (read >>= next) (first ++ later) value := by
  intro rest
  simp only [Bind.bind, StateT.bind, List.append_assoc, here (later ++ rest), Option.bind_some]
  exact there rest

theorem reads_word (word : UInt32) : Reads Reader.word (wordBytes word) word := by
  intro rest
  have bound := word.toNat_lt
  simp only [wordBytes, List.cons_append, List.nil_append, Reader.word, Option.some.injEq,
    Prod.mk.injEq, and_true]
  have shifted (places : UInt32) (small : places.toNat < 32) :
      (word >>> places).toUInt8.toNat = word.toNat / 2 ^ places.toNat % 2 ^ 8 := by
    rw [UInt32.toNat_toUInt8, UInt32.toNat_shiftRight, Nat.shiftRight_eq_div_pow,
      Nat.mod_eq_of_lt small]
  rw [← UInt32.toNat_inj, UInt32.toNat_ofNat', UInt32.toNat_toUInt8, shifted 8 (by decide),
    shifted 16 (by decide), shifted 24 (by decide)]
  simp only [show (8 : UInt32).toNat = 8 from rfl, show (16 : UInt32).toNat = 16 from rfl,
    show (24 : UInt32).toNat = 24 from rfl]
  omega

theorem Reads.cons {read : Reader α} {n : Nat} {first later : List UInt8} {value : α}
    {values : List α} (here : Reads read first value)
    (there : Reads (Reader.times read n) later values) :
    Reads (Reader.times read (n + 1)) (first ++ later) (value :: values) := by
  intro rest
  simp only [Reader.times, Bind.bind, StateT.bind, List.append_assoc, here (later ++ rest),
    there rest, Option.bind_some]
  rfl

theorem reads_bytes (bytes : List UInt8) :
    Reads (Reader.times Reader.byte bytes.length) bytes bytes := by
  induction bytes with
  | nil => exact .pure []
  | cons first rest ih =>
    have here : Reads Reader.byte [first] first := fun _ => rfl
    exact here.cons ih

/-- What is written is read back as a value with a property. Writing may fail, but not for a reason
that another model of the network would cure. -/
def Encodes (write : Attempt Writer α) (read : Reader β) (holds : β → Prop) : Prop :=
  ∀ writer, write.Ensures writer
    (fun _ after => ∃ bytes value, after = writer.append bytes ∧ Reads read bytes value ∧ holds value)
    fun error _ => ∀ failure, error ≠ .negotiation failure

namespace Encodes

variable {γ δ : Type} {holds : γ → Prop}

theorem pure {result : α} {value : γ} (held : holds value) :
    Encodes (Pure.pure result) (Pure.pure value) holds := fun writer =>
  ⟨[], value, by simp [Writer.append], .pure value, held⟩

theorem throw {error : LoweringError} (fatal : ∀ failure, error ≠ .negotiation failure)
    (read : Reader γ) : Encodes (MonadExcept.throw error : Attempt Writer α) read holds :=
  fun _ => fatal

theorem bind {write : Attempt Writer α} {next : α → Attempt Writer β} {read : Reader γ}
    {next' : γ → Reader δ} {holds' : δ → Prop} (here : Encodes write read holds)
    (there : ∀ result value, holds value → Encodes (next result) (next' value) holds') :
    Encodes (write >>= next) (read >>= next') holds' := by
  intro writer
  rw [Attempt.ensures_bind]
  refine (here writer).mono ?_ fun _ _ => id
  intro result after reached
  obtain ⟨first, middle, rfl, reads, held⟩ := reached
  refine (there result middle held _).mono ?_ fun _ _ => id
  intro result' after' reached
  obtain ⟨later, value, rfl, reads', held'⟩ := reached
  exact ⟨first ++ later, value, by simp [Writer.append], reads.bind reads', held'⟩

theorem ask {question : Except LoweringError α} {answer : α} {next : α → Attempt Writer β}
    {read : Reader γ} (answered : question = .ok answer) (there : Encodes (next answer) read holds) :
    Encodes (TensorLowering.ask (fun _ => question) >>= next) read holds :=
  fun writer => .ask_bind answered (there writer)

theorem record {write : Attempt Writer α} {read : Reader γ} (here : Encodes write read holds) :
    Encodes (Image.record write) read holds := by
  intro writer
  have wrote := here writer
  unfold Attempt.Ensures Image.record at *
  cases outcome : write writer <;> simpa only [outcome] using wrote

theorem mono {write : Attempt Writer α} {read : Reader γ} {holds' : γ → Prop}
    (here : Encodes write read holds) (implies : ∀ value, holds value → holds' value) :
    Encodes write read holds' := by
  intro writer
  refine (here writer).mono ?_ fun _ _ => id
  intro result after reached
  obtain ⟨bytes, value, appended, reads, held⟩ := reached
  exact ⟨bytes, value, appended, reads, implies value held⟩

theorem map {write : Attempt Writer α} {read : Reader γ} {make : γ → δ} {holds' : δ → Prop}
    (here : Encodes write read holds) (implies : ∀ value, holds value → holds' (make value)) :
    Encodes write (read >>= fun value => Pure.pure (make value)) holds' := by
  intro writer
  refine (here writer).mono ?_ fun _ _ => id
  intro result after reached
  obtain ⟨bytes, value, appended, reads, held⟩ := reached
  have made : Reads (read >>= fun value => Pure.pure (make value)) (bytes ++ []) (make value) :=
    reads.bind (.pure (make value))
  exact ⟨bytes, make value, appended, by simpa using made, implies value held⟩

theorem single {write : Attempt Writer α} {read : Reader γ} (here : Encodes write read holds) :
    Encodes write (Reader.times read 1) fun values => ∃ value, values = [value] ∧ holds value := by
  intro writer
  refine (here writer).mono ?_ fun _ _ => id
  intro result after reached
  obtain ⟨bytes, value, appended, reads, held⟩ := reached
  have one : Reads (Reader.times read 1) (bytes ++ []) [value] := reads.cons (.pure [])
  exact ⟨bytes, [value], appended, by simpa using one, value, rfl, held⟩

end Encodes

theorem encodes_word (w : UInt32) : Encodes (word w) Reader.word (· = w) :=
  fun _ => ⟨_, w, rfl, reads_word w, rfl⟩

theorem encodes_float (value : Float32) : Encodes (float value) Reader.word (· = value.toBits) :=
  encodes_word _

/-- A number that is written is read back in full. -/
theorem encodes_count (field : String) (value : Nat) :
    Encodes (count field value) Reader.word (·.toNat = value) := by
  unfold count
  split
  · rename_i small
    refine (encodes_word _).mono ?_
    rintro _ rfl
    exact UInt32.toNat_ofNat_of_lt' small
  · exact .throw (by simp) _

end

end TensorLowering.Image
