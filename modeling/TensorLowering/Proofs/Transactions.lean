import TensorLowering.Image.Program
import TensorLowering.Proofs.Writing

/-!
A record is written as a whole or not at all. Only patches reach back behind its start, and they stay.
-/

namespace TensorLowering.Image

open Attempt

/-- A word that is written over four bytes. -/
structure Patch where
  offset : Nat
  word : UInt32

/-- What a place holds after a patch, if it held the byte before. -/
def Patch.over (patch : Patch) (place : Nat) (byte : UInt8) : UInt8 :=
  if patch.offset ≤ place then (wordBytes patch.word).getD (place - patch.offset) byte else byte

/-- What a place holds after some patches: each replaces what the ones before it have left. -/
def patched (patches : List Patch) (place : Nat) (byte : UInt8) : UInt8 :=
  patches.foldl (fun byte patch => patch.over place byte) byte

mutual

/-- The patches that a step makes, up to its failure if it fails. -/
def WriteStep.patches (g : Graph) : WriteStep → Writer → List Patch
  | .patch offset word, writer => if offset + 4 ≤ writer.length then [⟨offset, word⟩] else []
  | .record steps, writer => patchesOf g steps writer
  | _, _ => []

/-- The patches that some steps make, up to the first failure. -/
def patchesOf (g : Graph) : List WriteStep → Writer → List Patch
  | [], _ => []
  | step :: rest, writer =>
    step.patches g writer ++
      match step.run g writer with
      | .ok _ after => patchesOf g rest after
      | .error _ _ => []

end

mutual

/-- The operations that a step comes to, without the records around them. -/
def WriteStep.flat : WriteStep → List WriteStep
  | .record steps => flatten steps
  | step => [step]

def flatten : List WriteStep → List WriteStep
  | [] => []
  | step :: rest => step.flat ++ flatten rest

end

/-! ### What becomes of the bytes that were there -/

/-- Bytes are appended, and those that were there before hold what some patches made of them. -/
structure Extends (patches : List Patch) (start after : Writer) : Prop where
  length_le : start.length ≤ after.length
  getElem? : ∀ place < start.length,
    after.bytes[place]? = (start.bytes[place]?).map (patched patches place)

variable {start middle after : Writer} {patches later : List Patch}

theorem patched_append (place : Nat) (byte : UInt8) :
    patched (patches ++ later) place byte = patched later place (patched patches place byte) :=
  List.foldl_append

theorem Patch.over_of_lt {patch : Patch} {place : Nat} {byte : UInt8} (before : place < patch.offset) :
    patch.over place byte = byte :=
  if_neg (Nat.not_le.mpr before)

theorem patched_of_lt {place : Nat} {byte : UInt8}
    (before : ∀ patch ∈ patches, place < patch.offset) : patched patches place byte = byte := by
  induction patches with
  | nil => rfl
  | cons patch rest ih =>
    obtain ⟨here, later⟩ := List.forall_mem_cons.mp before
    rw [patched, List.foldl_cons, Patch.over_of_lt here]
    exact ih later

theorem Writer.getElem?_overwrite {writer : Writer} {offset : Nat} {bytes : List UInt8}
    (inside : offset + bytes.length ≤ writer.length) (place : Nat) :
    (writer.overwrite offset bytes).bytes[place]? =
      if offset ≤ place ∧ place < offset + bytes.length then bytes[place - offset]?
      else writer.bytes[place]? := by
  have long : offset + bytes.length ≤ writer.bytes.size := inside
  have size : (writer.bytes.extract 0 offset).size = offset := by
    rw [Array.size_extract]
    omega
  have size' : bytes.toArray.size = bytes.length := List.size_toArray ..
  simp only [overwrite, Array.take_eq_extract, Array.drop_eq_extract]
  rw [Array.append_assoc]
  by_cases before : place < offset
  · rw [Array.getElem?_append_left (by omega), Array.getElem?_extract, Nat.zero_add,
      if_pos (by omega), if_neg (by omega)]
  · rw [Array.getElem?_append_right (by omega), size]
    by_cases within : place < offset + bytes.length
    · rw [Array.getElem?_append_left (by omega), List.getElem?_toArray,
        if_pos (by omega)]
    · rw [Array.getElem?_append_right (by omega), size',
        Array.getElem?_extract, if_neg (by omega : ¬(offset ≤ place ∧ _))]
      have there : offset + bytes.length + (place - offset - bytes.length) = place := by omega
      rw [there]
      split
      · rfl
      · exact (Array.getElem?_eq_none (by omega)).symm

namespace Extends

theorem refl (start : Writer) : Extends [] start start :=
  ⟨Nat.le_refl _, fun place _ => by cases start.bytes[place]? <;> rfl⟩

theorem trans (first : Extends patches start middle) (second : Extends later middle after) :
    Extends (patches ++ later) start after := by
  refine ⟨Nat.le_trans first.length_le second.length_le, fun place inside => ?_⟩
  rw [second.getElem? place (Nat.lt_of_lt_of_le inside first.length_le),
    first.getElem? place inside, Option.map_map]
  congr 1
  funext byte
  exact (patched_append place byte).symm

theorem append (start : Writer) (bytes : List UInt8) : Extends [] start (start.append bytes) := by
  refine ⟨by simp, fun place inside => ?_⟩
  have same : (start.append bytes).bytes[place]? = start.bytes[place]? :=
    Array.getElem?_append_left inside
  rw [same]
  exact (refl start).getElem? place inside

theorem length_truncate (extended : Extends patches start after) :
    (after.truncate start.length).length = start.length := by
  have long : start.bytes.size ≤ after.bytes.size := extended.length_le
  simp [Writer.truncate, Writer.length, Nat.min_eq_left long]

theorem truncate (extended : Extends patches start after) :
    Extends patches start (after.truncate start.length) := by
  refine ⟨Nat.le_of_eq extended.length_truncate.symm, fun place inside => ?_⟩
  have kept : (after.truncate start.length).bytes[place]? = after.bytes[place]? := by
    have long : place < after.bytes.size := Nat.lt_of_lt_of_le inside extended.length_le
    simp [Writer.truncate, Nat.lt_min.mpr ⟨inside, long⟩]
  rw [kept]
  exact extended.getElem? place inside

theorem overwrite {patch : Patch} (inside : patch.offset + 4 ≤ start.length) :
    Extends [patch] start (start.overwrite patch.offset (wordBytes patch.word)) := by
  have four : (wordBytes patch.word).length = 4 := rfl
  have length : (start.overwrite patch.offset (wordBytes patch.word)).length = start.length :=
    Writer.length_overwrite start inside
  refine ⟨Nat.le_of_eq length.symm, fun place within => ?_⟩
  have found : start.bytes[place]? = some start.bytes[place] := Array.getElem?_eq_getElem within
  have once (byte : UInt8) : patched [patch] place byte = patch.over place byte := rfl
  rw [Writer.getElem?_overwrite inside, found, Option.map_some, once, Patch.over,
    List.getD_eq_getElem?_getD]
  by_cases covered : patch.offset ≤ place ∧ place < patch.offset + (wordBytes patch.word).length
  · rw [if_pos covered, if_pos covered.1, List.getElem?_eq_getElem (by omega), Option.getD_some]
  · rw [if_neg covered]
    split
    · rw [List.getElem?_eq_none (by omega), Option.getD_none]
    · rfl

/-- What fails and is taken back leaves its start behind, unless a patch reached into that. -/
theorem eq_truncate (extended : Extends patches start after)
    (behind : ∀ patch ∈ patches, start.length ≤ patch.offset) :
    after.truncate start.length = start := by
  have same : (after.truncate start.length).bytes = start.bytes := by
    refine Array.ext_getElem? fun place => ?_
    by_cases inside : place < start.length
    · rw [extended.truncate.getElem? place inside]
      have unpatched (byte : UInt8) : patched patches place byte = byte :=
        patched_of_lt fun patch member => Nat.lt_of_lt_of_le inside (behind patch member)
      cases start.bytes[place]? <;> simp [unpatched]
    · have past := Nat.le_of_not_lt inside
      rw [Array.getElem?_eq_none past,
        Array.getElem?_eq_none (Nat.le_trans (Nat.le_of_eq extended.length_truncate) past)]
  exact congrArg Writer.mk same

end Extends

/-! ### What a program leaves -/

theorem Emits.extends {α : Type} {write : Attempt Writer α} (emits : Emits write)
    (writer : Writer) : Extends [] writer (Attempt.state write writer) := by
  obtain ⟨bytes, outcome, rfl⟩ := emits
  cases outcome <;> exact .append writer bytes

theorem state_bind_pure {α β : Type} (write : Attempt Writer α) (make : α → β) (writer : Writer) :
    Attempt.state (do return make (← write)) writer = Attempt.state write writer := by
  rw [state_bind, Attempt.state]
  cases write writer <;> rfl

theorem state_reached (write : Attempt Writer Unit) (writer : Writer) :
    Attempt.state (reached write) writer = Attempt.state write writer := by
  unfold reached
  rw [state_bind, Attempt.state]
  cases write writer <;> rfl

theorem extends_patch (offset : Nat) (word : UInt32) (writer : Writer) :
    Extends (if offset + 4 ≤ writer.length then [⟨offset, word⟩] else []) writer
      (Attempt.state (patch offset word) writer) := by
  unfold patch
  rw [state_get_bind]
  by_cases inside : offset + 4 ≤ writer.length
  · simp only [if_pos inside]
    exact .overwrite inside
  · simp only [if_neg inside]
    exact .refl writer

/-- A record takes back what it appended, and no patch. -/
theorem Extends.record {α : Type} {write : Attempt Writer α} {writer : Writer}
    (extended : Extends patches writer (Attempt.state write writer)) :
    Extends patches writer (Attempt.state (record write) writer) := by
  unfold Attempt.state Image.record at *
  cases outcome : write writer with
  | ok result after => simpa only [outcome] using extended
  | error error after =>
    simp only [outcome] at extended ⊢
    exact extended.truncate

theorem extends_reached {write : Attempt Writer Unit} (emits : Emits write) (writer : Writer) :
    Extends [] writer (Attempt.state (reached write) writer) := by
  rw [state_reached]
  exact emits.extends writer

mutual

/-- Only the patches of a step change bytes that were there before it. -/
theorem WriteStep.extends (g : Graph) (step : WriteStep) (writer : Writer) :
    Extends (step.patches g writer) writer (Attempt.state (step.run g) writer) := by
  cases step with
  | record steps =>
    rw [WriteStep.run, state_bind_pure, WriteStep.patches]
    exact (extends_steps g steps writer).record
  | patch offset w =>
    rw [WriteStep.run, state_reached, WriteStep.patches]
    exact extends_patch offset w writer
  | fail error => exact .refl writer
  | bytes bs => exact extends_reached ⟨bs, .ok (), rfl⟩ writer
  | word w => exact extends_reached (.word w) writer
  | signed value => exact extends_reached (.word value.toUInt32) writer
  | float value => exact extends_reached (.word value.toBits) writer
  | count field value => exact extends_reached (.count field value) writer
  | tensor id =>
    exact extends_reached ((Emits.ask _).bind fun tensor => emits_descriptor id tensor) writer
  | stageParams id => exact extends_reached (emits_writeParams g id) writer
  | stageTensors id => exact extends_reached (emits_writeTensors g id) writer

theorem extends_steps (g : Graph) (steps : List WriteStep) (writer : Writer) :
    Extends (patchesOf g steps writer) writer (Attempt.state (runSteps g steps) writer) := by
  cases steps with
  | nil => exact .refl writer
  | cons step rest =>
    have here := step.extends g writer
    rw [patchesOf, runSteps, state_bind]
    unfold Attempt.state at here
    cases outcome : step.run g writer with
    | ok progress after =>
      rw [outcome] at here
      simp only [state_bind_pure]
      exact here.trans (extends_steps g rest after)
    | error error after =>
      rw [outcome] at here
      simpa only [List.append_nil] using here

end

/-! ### Without the records -/

/-- Writing succeeds and leaves the writer there. -/
def Lands {α : Type} (write : Attempt Writer α) (start after : Writer) : Prop :=
  ∃ result, write start = .ok result after

section

variable {g : Graph} {step : WriteStep} {steps rest : List WriteStep}

theorem lands_bind_iff {α β : Type} {write : Attempt Writer α} {next : α → Attempt Writer β} :
    Lands (write >>= next) start after ↔
      ∃ result middle, write start = .ok result middle ∧ Lands (next result) middle after := by
  unfold Lands
  simp only [bind, EStateM.bind]
  cases write start with
  | ok result middle =>
    refine ⟨fun found => ⟨result, middle, rfl, found⟩, ?_⟩
    rintro ⟨_, _, wrote, found⟩
    cases wrote
    exact found
  | error error middle => simp

theorem lands_bind_pure_iff {α β : Type} {write : Attempt Writer α} {make : α → β} :
    Lands (do return make (← write)) start after ↔ Lands write start after := by
  rw [lands_bind_iff]
  constructor
  · rintro ⟨result, middle, wrote, _, made⟩
    cases made
    exact ⟨result, wrote⟩
  · rintro ⟨result, wrote⟩
    exact ⟨result, after, wrote, _, rfl⟩

theorem lands_record_iff {α : Type} {write : Attempt Writer α} :
    Lands (record write) start after ↔ Lands write start after := by
  unfold Lands Image.record
  cases write start <;> simp

theorem lands_cons_iff :
    Lands (runSteps g (step :: rest)) start after ↔
      ∃ middle, Lands (step.run g) start middle ∧ Lands (runSteps g rest) middle after := by
  rw [runSteps, lands_bind_iff]
  constructor
  · rintro ⟨progress, middle, wrote, later⟩
    exact ⟨middle, ⟨progress, wrote⟩, lands_bind_pure_iff.mp later⟩
  · rintro ⟨middle, ⟨progress, wrote⟩, later⟩
    exact ⟨progress, middle, wrote, lands_bind_pure_iff.mpr later⟩

theorem lands_nil_iff : Lands (runSteps g []) start after ↔ start = after := by
  constructor
  · rintro ⟨_, wrote⟩
    cases wrote
    rfl
  · rintro rfl
    exact ⟨[], rfl⟩

theorem lands_append_iff :
    Lands (runSteps g (steps ++ rest)) start after ↔
      ∃ middle, Lands (runSteps g steps) start middle ∧ Lands (runSteps g rest) middle after := by
  induction steps generalizing start with
  | nil => simp [lands_nil_iff]
  | cons step steps ih =>
    rw [List.cons_append, lands_cons_iff]
    simp only [ih, lands_cons_iff]
    constructor
    · rintro ⟨first, here, second, there, later⟩
      exact ⟨second, ⟨first, here, there⟩, later⟩
    · rintro ⟨second, ⟨first, here, there⟩, later⟩
      exact ⟨first, here, second, there, later⟩

theorem lands_singleton_iff :
    Lands (runSteps g [step]) start after ↔ Lands (step.run g) start after := by
  simp [lands_cons_iff, lands_nil_iff]

end

mutual

theorem WriteStep.lands_flat_iff (g : Graph) (step : WriteStep) (start after : Writer) :
    Lands (runSteps g step.flat) start after ↔ Lands (step.run g) start after := by
  cases step with
  | record steps =>
    rw [WriteStep.flat, WriteStep.run, lands_bind_pure_iff, lands_record_iff]
    exact lands_flatten_iff g steps start after
  | _ => exact lands_singleton_iff

/-- Where they succeed, records make no difference. -/
theorem lands_flatten_iff (g : Graph) (steps : List WriteStep) (start after : Writer) :
    Lands (runSteps g (flatten steps)) start after ↔ Lands (runSteps g steps) start after := by
  cases steps with
  | nil => exact Iff.rfl
  | cons step rest =>
    rw [flatten, lands_append_iff, lands_cons_iff]
    exact exists_congr fun middle =>
      and_congr (step.lands_flat_iff g start middle) (lands_flatten_iff g rest middle after)

end

/-- A record that succeeds leaves what the same operations leave without any record. One that fails
leaves no byte that it appended: its bytes are those that it started with, but for what the patches
before its failure wrote over them, the later ones counting. -/
theorem record_transactional (g : Graph) (steps : List WriteStep) (start : Writer) :
    (∀ progress after, record (runSteps g steps) start = .ok progress after ↔
      runSteps g steps start = .ok progress after) ∧
    (∀ after, (∃ progress, record (runSteps g steps) start = .ok progress after) ↔
      ∃ progress, runSteps g (flatten steps) start = .ok progress after) ∧
    ∀ error after, record (runSteps g steps) start = .error error after →
      (∃ reached, runSteps g steps start = .error error reached) ∧
      after.length = start.length ∧
      (∀ place < start.length, after.bytes[place]? =
        (start.bytes[place]?).map (patched (patchesOf g steps start) place)) ∧
      ((∀ patch ∈ patchesOf g steps start, start.length ≤ patch.offset) → after = start) := by
  refine ⟨fun progress after => ?_, fun after => ?_, fun error after failed => ?_⟩
  · unfold record
    cases runSteps g steps start <;> simp
  · exact lands_record_iff.trans (lands_flatten_iff g steps start after).symm
  · have extended := extends_steps g steps start
    unfold Attempt.state at extended
    unfold record at failed
    cases outcome : runSteps g steps start with
    | ok progress reached => simp [outcome] at failed
    | error error' reached =>
      rw [outcome] at extended failed
      simp only [EStateM.Result.error.injEq] at failed
      obtain ⟨rfl, rfl⟩ := failed
      exact ⟨⟨reached, rfl⟩, extended.length_truncate, extended.truncate.getElem?,
        extended.eq_truncate⟩

/-- A patch across the start of a record that fails, from inside another one that fails with it. -/
example : Attempt.state (record (runSteps (.empty "row")
      [.word 0, .record [.patch 0 0xDDCCBBAA, .count "large" UInt32.size]])) ⟨#[1, 2]⟩ =
    ⟨#[0xAA, 0xBB]⟩ := by
  rfl

end TensorLowering.Image
