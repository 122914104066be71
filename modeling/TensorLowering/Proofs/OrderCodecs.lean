import Mathlib.Algebra.Ring.Nat
import Mathlib.Data.List.Perm.Subperm
import Mathlib.Data.List.TakeWhile
import TensorLowering.AxisOrder.Code
import TensorLowering.AxisOrder.Text
import TensorLowering.Proofs.Attempt

/-!
An order is written as a word and as a text. What is read is exactly what some order is written as,
and what is not read is refused for the first thing found wrong with it, from the innermost axis on.
-/

namespace TensorLowering

theorem Axis.ofCode?_eq_some_iff {code : Nat} {axis : Axis} :
    ofCode? code = some axis ↔ code = axis.code := by
  constructor
  · intro found
    have each : ∀ place : Fin all.length, place.val = all[place].code := by decide
    obtain ⟨bound, rfl⟩ := List.getElem?_eq_some_iff.mp found
    exact each ⟨code, bound⟩
  · rintro rfl
    exact ofCode?_code axis

theorem Axis.ofLetter?_eq_some_iff {letter : Char} {axis : Axis} :
    ofLetter? letter = some axis ↔ letter.toUpper = axis.letter := by
  unfold ofLetter?
  split <;> cases axis <;> simp_all [Axis.letter]

theorem Axis.ofLetter?_eq_none_iff {letter : Char} :
    ofLetter? letter = none ↔ ∀ axis : Axis, letter.toUpper ≠ axis.letter := by
  simp only [Option.eq_none_iff_forall_ne_some, ne_eq, ofLetter?_eq_some_iff]

namespace Text

/-- The text without the blanks at its ends: what is left neither begins nor ends with one. -/
def Strips (text core : List Char) : Prop :=
  ∃ lead trail, text = lead ++ core ++ trail ∧ (∀ c ∈ lead ++ trail, isBlank c) ∧
    (∀ c, core.head? = some c → ¬isBlank c) ∧ ∀ c, core.getLast? = some c → ¬isBlank c

theorem strips_trim (text : List Char) : Strips text (trim text) := by
  have first (rest : List Char) {c : Char} (starts : (rest.dropWhile isBlank).head? = some c) :
      ¬isBlank c := by
    have bare := List.head?_dropWhile_not isBlank rest
    rw [starts] at bare
    simpa using bare
  have front := (List.takeWhile_append_dropWhile (p := isBlank) (l := text)).symm
  have back := congrArg List.reverse
    (List.takeWhile_append_dropWhile (p := isBlank) (l := (text.dropWhile isBlank).reverse)).symm
  simp only [List.reverse_reverse, List.reverse_append] at back
  refine ⟨text.takeWhile isBlank, ((text.dropWhile isBlank).reverse.takeWhile isBlank).reverse,
    ?_, ?_, ?_, ?_⟩
  · rw [List.append_assoc, trim, ← back]
    exact front
  · intro c member
    simp only [List.mem_append, List.mem_reverse] at member
    exact member.elim List.mem_takeWhile_imp List.mem_takeWhile_imp
  · intro c starts
    refine first text ?_
    rw [back, List.head?_append, ← trim, starts]
    rfl
  · intro c ends
    rw [trim, List.getLast?_reverse] at ends
    exact first _ ends

theorem trim_eq_self {text : List Char} (bare : ∀ c ∈ text, ¬isBlank c) : trim text = text := by
  obtain ⟨lead, trail, split, blank, -⟩ := strips_trim text
  have none : lead ++ trail = [] := List.eq_nil_iff_forall_not_mem.mpr fun c member =>
    bare c (by rw [split]; simp only [List.mem_append] at member ⊢; tauto) (blank c member)
  obtain ⟨rfl, rfl⟩ := List.append_eq_nil_iff.mp none
  simpa using split.symm

end Text

namespace AxisOrder

variable {order : AxisOrder} {axes : List Axis} {letters : List Char} {error : Error}

/-- The order names an axis, and none twice. -/
structure Proper (order : AxisOrder) : Prop where
  nonempty : order.axes ≠ []
  nodup : order.axes.Nodup

/-- Why axes, listed innermost first, are not taken as an order. -/
def Misnamed (axes : List Axis) : Error → Prop
  | .empty => axes = []
  | .tooManyAxes => maxAxes < axes.length
  | .duplicateAxis axis => axes.length ≤ maxAxes ∧
      ∃ inner outer, axes = inner ++ axis :: outer ∧ inner.Nodup ∧ axis ∈ inner
  | _ => False

/-- The letters, in either case, of some axes. -/
def Names (letters : List Char) (axes : List Axis) : Prop :=
  letters.map Char.toUpper = axes.map Axis.letter

/-- Why letters, outermost first, are not taken as an order: the last of those that stand for no axis
is reported, and only if there is none, what is wrong with the axes. -/
def Misspelt (letters : List Char) : Error → Prop
  | .unknownAxis letter => ∃ outer inner axes, letters = outer ++ letter :: inner ∧
      (∀ axis : Axis, letter.toUpper ≠ axis.letter) ∧ Names inner axes
  | error => ∃ axes : List Axis, Names letters axes.reverse ∧ Misnamed axes error

/-! ### Orders from axes -/

theorem length_le_of_nodup (nodup : axes.Nodup) : axes.length ≤ maxAxes :=
  (nodup.subperm fun axis _ => Axis.mem_all axis).length_le

theorem ofAxes_eq_ok_iff_proper : ofAxes axes = .ok order ↔ order.axes = axes ∧ order.Proper := by
  rw [ofAxes_eq_ok_iff]
  constructor
  · rintro ⟨rfl, nonempty, -, nodup⟩
    exact ⟨rfl, nonempty, nodup⟩
  · rintro ⟨rfl, proper⟩
    exact ⟨rfl, proper.nonempty, length_le_of_nodup proper.nodup, proper.nodup⟩

theorem Proper.ofAxes (proper : order.Proper) : ofAxes order.axes = .ok order :=
  ofAxes_eq_ok_iff_proper.mpr ⟨rfl, proper⟩

theorem firstRepeated?_eq_some_iff {seen : List Axis} {axis : Axis} :
    firstRepeated? seen axes = some axis ↔ ∃ inner outer, axes = inner ++ axis :: outer ∧
      inner.Nodup ∧ (∀ earlier ∈ inner, earlier ∉ seen) ∧ (axis ∈ seen ∨ axis ∈ inner) := by
  induction axes generalizing seen with
  | nil => simp [firstRepeated?]
  | cons next rest ih =>
    by_cases met : next ∈ seen
    · simp only [firstRepeated?, met, if_true, Option.some.injEq]
      constructor
      · rintro rfl
        exact ⟨[], rest, rfl, .nil, by simp, .inl met⟩
      · rintro ⟨inner, outer, split, -, fresh, -⟩
        cases inner with
        | nil => exact (List.cons.inj split).1
        | cons first inner =>
          obtain ⟨rfl, -⟩ := List.cons.inj split
          exact absurd met (fresh next (by simp))
    · simp only [firstRepeated?, met, if_false, ih]
      constructor
      · rintro ⟨inner, outer, rfl, nodup, fresh, again⟩
        exact ⟨next :: inner, outer, rfl, by grind, by grind, by grind⟩
      · rintro ⟨inner, outer, split, nodup, fresh, again⟩
        cases inner with
        | nil => grind
        | cons first inner =>
          obtain ⟨rfl, rfl⟩ := List.cons.inj split
          exact ⟨inner, outer, rfl, by grind, by grind, by grind⟩

theorem ofAxes_eq_error_iff : ofAxes axes = .error error ↔ Misnamed axes error := by
  have repeats (axis : Axis) : Misnamed axes (.duplicateAxis axis) ↔
      axes.length ≤ maxAxes ∧ firstRepeated? [] axes = some axis := by
    simp [Misnamed, firstRepeated?_eq_some_iff]
  unfold ofAxes
  cases error with
  | duplicateAxis axis =>
    rw [repeats]
    grind [firstRepeated?]
  | _ =>
    unfold Misnamed
    grind

/-! ### The word -/

theorem axisOfDigit?_eq_some_iff {digit : Nat} {axis : Axis} :
    axisOfDigit? digit = some axis ↔ digit = axis.code + 1 := by
  cases digit with
  | zero => simp [axisOfDigit?]
  | succ code => simp [axisOfDigit?, Axis.ofCode?_eq_some_iff]

theorem unpack?_pack (axes : List Axis) : unpack? (pack axes) = some axes := by
  induction axes with
  | nil => simp [pack, unpack?]
  | cons axis rest ih =>
    have small : axis.code < 15 := by cases axis <;> decide
    have digit : pack (axis :: rest) % 16 = axis.code + 1 := by
      rw [pack]
      omega
    have later : pack (axis :: rest) / 16 = pack rest := by
      rw [pack]
      omega
    have nonzero : pack (axis :: rest) ≠ 0 := by
      rw [pack]
      omega
    rw [unpack?, if_neg nonzero, digit, later, ih]
    simp [axisOfDigit?_eq_some_iff.mpr rfl]

theorem unpack?_eq_some_iff {code : Nat} : unpack? code = some axes ↔ pack axes = code := by
  constructor
  · intro read
    fun_induction unpack? code generalizing axes with
    | case1 => simp_all [pack]
    | case2 => simp at read
    | case3 code nonzero axis digit ih =>
      obtain ⟨rest, found, rfl⟩ := Option.map_eq_some_iff.mp read
      rw [pack, ih found]
      have := axisOfDigit?_eq_some_iff.mp digit
      omega
  · rintro rfl
    exact unpack?_pack axes

theorem pack_lt (axes : List Axis) : pack axes < 16 ^ axes.length := by
  induction axes with
  | nil => simp [pack]
  | cons axis rest ih =>
    have small : axis.code < 15 := by cases axis <;> decide
    rw [pack, List.length_cons, Nat.pow_succ]
    omega

/-- An order has few axes, so nothing of its word is lost. -/
theorem Proper.toNat_code (proper : order.Proper) : order.code.toNat = pack order.axes := by
  have few := length_le_of_nodup proper.nodup
  refine UInt32.toNat_ofNat_of_lt' ?_
  calc pack order.axes
      < 16 ^ order.axes.length := pack_lt order.axes
    _ ≤ 16 ^ maxAxes := Nat.pow_le_pow_right (by decide) few
    _ ≤ UInt32.size := by decide

theorem ofCode_eq_ok_iff {code : UInt32} :
    ofCode code = .ok order ↔ order.Proper ∧ order.code = code := by
  constructor
  · intro read
    unfold ofCode at read
    split at read
    · cases read
    · rename_i axes unpacked
      split at read
      · rename_i found taken
        cases read
        obtain ⟨rfl, proper⟩ := ofAxes_eq_ok_iff_proper.mp taken
        exact ⟨proper, by rw [AxisOrder.code, unpack?_eq_some_iff.mp unpacked, UInt32.ofNat_toNat]⟩
      · cases read
  · rintro ⟨proper, rfl⟩
    simp only [ofCode, proper.toNat_code, unpack?_pack, proper.ofAxes]

theorem Proper.ofCode_code (proper : order.Proper) : ofCode order.code = .ok order :=
  ofCode_eq_ok_iff.mpr ⟨proper, rfl⟩

theorem ofCode_error {code : UInt32} (refused : ofCode code = .error error) :
    error = .invalidCode code := by
  unfold ofCode at refused
  grind

/-! ### The text -/

/-- Letters of axes are read off whatever comes after them. -/
theorem Names.readAxes_append (names : Names letters axes) (rest : List Char) :
    readAxes (letters ++ rest) = (readAxes rest).map (axes ++ ·) := by
  induction letters generalizing axes with
  | nil =>
    obtain rfl : axes = [] := by simpa [Names] using names
    rw [List.nil_append]
    cases readAxes rest <;> rfl
  | cons letter letters ih =>
    cases axes with
    | nil => simp [Names] at names
    | cons axis axes =>
      obtain ⟨here, later⟩ := List.cons.inj names
      rw [List.cons_append, readAxes, Axis.ofLetter?_eq_some_iff.mpr here, ih later]
      cases readAxes rest <;> rfl

/-- Reading goes on as long as the letters are those of axes. -/
theorem readAxes_spec (letters : List Char) :
    match readAxes letters with
    | .ok axes => Names letters axes
    | .error error => ∃ before letter after axes, letters = before ++ letter :: after ∧
        Names before axes ∧ (∀ axis : Axis, letter.toUpper ≠ axis.letter) ∧
          error = .unknownAxis letter := by
  induction letters with
  | nil => rfl
  | cons letter rest ih =>
    rw [readAxes]
    cases stands : Axis.ofLetter? letter with
    | none => exact ⟨[], letter, rest, [], rfl, rfl, Axis.ofLetter?_eq_none_iff.mp stands, rfl⟩
    | some axis =>
      have here := Axis.ofLetter?_eq_some_iff.mp stands
      cases outcome : readAxes rest with
      | ok axes =>
        rw [outcome] at ih
        exact congrArg₂ List.cons here ih
      | error error =>
        rw [outcome] at ih
        obtain ⟨before, unknown, after, axes, rfl, names, stray, rfl⟩ := ih
        exact ⟨letter :: before, unknown, after, axis :: axes, rfl, congrArg₂ List.cons here names,
          stray, rfl⟩

theorem readAxes_eq_ok_iff : readAxes letters = .ok axes ↔ Names letters axes := by
  constructor
  · intro read
    have spec := readAxes_spec letters
    rwa [read] at spec
  · intro names
    simpa [readAxes, Except.map] using names.readAxes_append []

theorem readAxes_eq_error_iff :
    readAxes letters = .error error ↔ ∃ before letter after axes,
      letters = before ++ letter :: after ∧ Names before axes ∧
        (∀ axis : Axis, letter.toUpper ≠ axis.letter) ∧ error = .unknownAxis letter := by
  constructor
  · intro refused
    have spec := readAxes_spec letters
    rwa [refused] at spec
  · rintro ⟨before, letter, after, axes, rfl, names, stray, rfl⟩
    rw [names.readAxes_append, readAxes, Axis.ofLetter?_eq_none_iff.mpr stray]
    rfl

theorem names_reverse_iff : Names letters.reverse axes ↔ Names letters axes.reverse := by
  simp only [Names, List.map_reverse, List.reverse_eq_iff]

/-- The text of an order holds the letters of its axes, outermost first. -/
theorem text_eq_iff : order.text = String.ofList (letters.map Char.toUpper) ↔
    Names letters order.axes.reverse := by
  rw [AxisOrder.text, String.ofList_inj, Names, eq_comm]

theorem ofText_eq_ok_iff {text : String} :
    ofText text = .ok order ↔
      order.Proper ∧ order.text = String.ofList ((Text.trim text.toList).map Char.toUpper) := by
  simp only [ofText, bind_eq_ok, readAxes_eq_ok_iff, names_reverse_iff, ofAxes_eq_ok_iff_proper,
    text_eq_iff]
  constructor
  · rintro ⟨axes, names, rfl, proper⟩
    exact ⟨proper, names⟩
  · rintro ⟨proper, names⟩
    exact ⟨order.axes, names, rfl, proper⟩

/-- The letters of axes are upper case and not blank, so nothing is lost of the text of an order. -/
theorem Proper.ofText_text (proper : order.Proper) : ofText order.text = .ok order := by
  have letters : order.text.toList = order.axes.reverse.map Axis.letter := String.toList_ofList
  have bare : ∀ c ∈ order.text.toList, ¬Text.isBlank c := by
    rw [letters]
    intro c member
    obtain ⟨axis, -, rfl⟩ := List.mem_map.mp member
    cases axis <;> decide
  have upper : Char.toUpper ∘ Axis.letter = Axis.letter := by
    funext axis
    cases axis <;> decide
  rw [ofText_eq_ok_iff, Text.trim_eq_self bare, letters, List.map_map, upper]
  exact ⟨proper, rfl⟩

theorem ofText_eq_error_iff {text : String} :
    ofText text = .error error ↔ Misspelt (Text.trim text.toList) error := by
  have letters : ofText text = .error error ↔
      (∃ before letter after axes, (Text.trim text.toList).reverse = before ++ letter :: after ∧
        Names before axes ∧ (∀ axis : Axis, letter.toUpper ≠ axis.letter) ∧
          error = .unknownAxis letter) ∨
      ∃ axes : List Axis, Names (Text.trim text.toList) axes.reverse ∧ Misnamed axes error := by
    simp only [ofText, bind_eq_error, readAxes_eq_ok_iff, readAxes_eq_error_iff,
      names_reverse_iff, ofAxes_eq_error_iff]
  rw [letters]
  cases error with
  | unknownAxis letter =>
    simp only [Misspelt, Misnamed, and_false, exists_false, or_false, Error.unknownAxis.injEq]
    constructor
    · rintro ⟨before, _, after, axes, split, names, stray, rfl⟩
      refine ⟨after.reverse, before.reverse, axes.reverse, ?_, stray, ?_⟩
      · simpa using List.reverse_eq_iff.mp split
      · rwa [names_reverse_iff, List.reverse_reverse]
    · rintro ⟨outer, inner, axes, split, stray, names⟩
      refine ⟨inner.reverse, letter, outer.reverse, axes.reverse, by simp [split], ?_, stray, rfl⟩
      rwa [names_reverse_iff, List.reverse_reverse]
  | _ => simp [Misspelt]

/-- What is read is what some order is written as, and nothing else; what is not read is refused for
a reason that can be seen in it. -/
theorem read_iff_written :
    (∀ code order, ofCode code = .ok order ↔ order.Proper ∧ order.code = code) ∧
    (∀ code error, ofCode code = .error error ↔
      error = .invalidCode code ∧ ¬∃ order : AxisOrder, order.Proper ∧ order.code = code) ∧
    (∀ text : String, Text.Strips text.toList (Text.trim text.toList)) ∧
    (∀ text order, ofText text = .ok order ↔
      order.Proper ∧ order.text = String.ofList ((Text.trim text.toList).map Char.toUpper)) ∧
    (∀ text error, ofText text = .error error ↔ Misspelt (Text.trim text.toList) error) := by
  refine ⟨fun code order => ofCode_eq_ok_iff, fun code error => ⟨fun refused => ?_, ?_⟩,
    fun text => Text.strips_trim text.toList, fun text order => ofText_eq_ok_iff,
    fun text error => ofText_eq_error_iff⟩
  · refine ⟨ofCode_error refused, fun ⟨order, written⟩ => ?_⟩
    rw [ofCode_eq_ok_iff.mpr written] at refused
    cases refused
  · rintro ⟨rfl, unwritten⟩
    cases outcome : ofCode code with
    | ok order => exact absurd ⟨order, ofCode_eq_ok_iff.mp outcome⟩ unwritten
    | error error => rw [ofCode_error outcome]

/-- There are more than five letters, two of them stand for no axis, and the others repeat. -/
example : ofText " wXhHwhx " = .error (.unknownAxis 'x') := by decide +kernel

end AxisOrder

end TensorLowering
