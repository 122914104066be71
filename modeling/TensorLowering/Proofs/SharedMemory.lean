import TensorLowering.Proofs.Compilation
import TensorLowering.Proofs.Strides

namespace TensorLowering.Graph

namespace Site

/-- Both tensors have the same byte stride along the axis at a position. -/
def SharesAt (site : Site) (position : Nat) : Prop :=
  ∃ axis stride, site.output.order.axisAt? position = some axis ∧
    site.input.strides.bind (·.get? axis) = some stride ∧
    site.output.strides.bind (·.get? axis) = some stride

/-- Where the output is left free and the input is not, what is asked of the input happens to be
what the output gets. -/
def FreeAgrees (site : Site) (position : Nat) : Prop :=
  ∀ bytes, site.output.requirement.get position = .any →
    site.input.requirement.get position = .fixed bytes →
    site.output.strideAt? position = some bytes.toNat

/-- A stage between resolved tensors in one order, of which the input is asked what the output is
asked for, up to a position. -/
structure ViewUpTo (site : Site) (last : Nat) : Prop where
  order : site.output.order = site.input.order
  nodup : site.output.order.axes.Nodup
  type : site.input.type = site.output.type
  inside : last < site.output.order.rank
  input : site.input.Resolved
  output : site.output.Resolved
  asks : ∀ position ≤ last,
    site.output.requirement.get position ≤ site.input.requirement.get position
  extents : ∀ position < last, ∀ axis, site.output.order.axisAt? position = some axis →
    site.output.extent axis = site.input.extent axis

variable {site : Site} {last position : Nat}

namespace ViewUpTo

theorem sharesAt_iff (view : site.ViewUpTo last) (within : position ≤ last) :
    site.SharesAt position ↔ site.input.strideAt? position = site.output.strideAt? position := by
  have inside : position < site.output.order.rank := within.trans_lt view.inside
  obtain ⟨stride, found, -⟩ := view.output.choose_spanBelow view.nodup inside
  have atPosition : site.output.order.axisAt? position = some site.output.order.axes[position] :=
    List.getElem?_eq_getElem inside
  have atPosition' : site.input.order.axisAt? position = some site.output.order.axes[position] :=
    view.order ▸ atPosition
  simp only [SharesAt, Tensor.strideAt?, atPosition, atPosition', Option.bind_eq_bind,
    Option.bind_some, Option.some.injEq, exists_and_left, exists_eq_left'] at found ⊢
  constructor
  · intro found
    obtain ⟨stride', input, output⟩ := found
    rw [input, output]
  · intro same
    exact ⟨stride, same.trans found, found⟩

/-- If the strides agree inside a position, the same bytes are held inside it. -/
theorem spanBelow_eq (view : site.ViewUpTo last) (within : position ≤ last)
    (inner : ∀ place < position, site.SharesAt place) :
    site.input.spanBelow position = site.output.spanBelow position := by
  cases position with
  | zero => exact congrArg ElementType.size view.type
  | succ place =>
    have strides := (view.sharesAt_iff (by omega)).mp (inner place (by omega))
    have inside : place < site.output.order.rank := lt_trans within view.inside
    have atPlace : site.output.order.axisAt? place = some site.output.order.axes[place] :=
      List.getElem?_eq_getElem inside
    have extents := view.extents place within _ atPlace
    rw [Tensor.spanBelow, Tensor.spanBelow, strides, ← view.order, atPlace, Option.elim_some,
      Option.elim_some, extents]

/-- Going outwards, the strides part only where the input is asked for a stride of which the output
knows nothing. -/
theorem sharesAt_of_freeAgrees (view : site.ViewUpTo last)
    (agrees : ∀ place ≤ last, site.FreeAgrees place) (within : position ≤ last) :
    site.SharesAt position := by
  induction position using Nat.strong_induction_on with
  | _ position ih =>
    have span := view.spanBelow_eq within fun place before => ih place before (by omega)
    have inside : position < site.output.order.rank := within.trans_lt view.inside
    obtain ⟨wide, atWide, choseWide⟩ := view.output.choose_spanBelow view.nodup inside
    obtain ⟨narrow, atNarrow, choseNarrow⟩ :=
      view.input.choose_spanBelow (view.order ▸ view.nodup) (view.order ▸ inside)
    rw [view.sharesAt_iff within, atWide, atNarrow]
    rw [span] at choseNarrow
    rcases view.asks position within with free | same
    · cases slot : site.input.requirement.get position with
      | fixed bytes =>
        have narrow_eq := Slot.eq_of_choose_fixed (slot ▸ choseNarrow)
        have wide_eq := agrees position within bytes free slot
        rw [← atWide, wide_eq, narrow_eq]
      | any | compact =>
        rw [free] at choseWide
        rw [slot] at choseNarrow
        exact congrArg some (Except.ok.inj (choseNarrow.symm.trans choseWide))
    · rw [same, choseNarrow] at choseWide
      exact congrArg some (Except.ok.inj choseWide)

theorem freeAgrees_of_sharesAt (view : site.ViewUpTo last) (within : position ≤ last)
    (shares : site.SharesAt position) : site.FreeAgrees position := by
  intro bytes _ slot
  have inside : position < site.output.order.rank := within.trans_lt view.inside
  obtain ⟨narrow, atNarrow, choseNarrow⟩ :=
    view.input.choose_spanBelow (view.order ▸ view.nodup) (view.order ▸ inside)
  rw [slot] at choseNarrow
  rw [← (view.sharesAt_iff within).mp shares, atNarrow, Slot.eq_of_choose_fixed choseNarrow]

end ViewUpTo

end Site

variable {g ordered after : Graph} {r : TensorId → Requirement} {compiled : Compiled} {site : Site}

/-- The two sides of an expand stage, up to the innermost position at which they differ. -/
theorem Lowered.viewUpTo (lowered : Lowered g ordered r compiled after) (hosts : after.Hosts site)
    {offset : AxisMap} (expands : site.stage.operation = .expand offset)
    (type : site.input.type = site.output.type) {widened : Nat}
    (innermost : IsLeast {position | site.WidensAt position} widened) : site.ViewUpTo widened where
  order := lowered.aligned_after site hosts
  nodup := (lowered.formed.shaped hosts.output).nodup
  type := type
  inside := by
    obtain ⟨axis, atWidened, -⟩ := innermost.1
    exact (List.getElem?_eq_some_iff.mp atWidened).1
  input := lowered.resolved hosts.input
  output := lowered.resolved hosts.output
  asks := by
    have met := lowered.solves.met site hosts
    simp only [Site.MetBy, expands, requirement_of_getElem? hosts.input,
      requirement_of_getElem? hosts.output] at met
    exact met widened innermost
  extents := by
    intro position before axis atPosition
    have same : site.output.extents.get? axis = site.input.extents.get? axis := by
      by_contra differ
      exact Nat.not_le_of_lt before (innermost.2 ⟨axis, atPosition, differ⟩)
    rw [Tensor.extent, Tensor.extent, same]

/-- The stage that widens the row, in the lowered graph. -/
def wideningSite (requirement : Requirement) (strides : AxisMap) : Site where
  id := ⟨1⟩
  stage := ⟨"widen", none, [⟨1⟩], [⟨2⟩], .expand {}⟩
  inputId := ⟨1⟩
  input := { Tensor.fresh "copied" .u8 { w := some 4 } .intermediate with
    requirement := requirement, strides := some strides, producer := some ⟨0⟩, consumers := [⟨1⟩] }
  outputId := ⟨2⟩
  output := { Tensor.fresh "wide" .u8 { w := some 6 } .intermediate with
    strides := some { w := some 1 }, producer := some ⟨1⟩ }

theorem wideningSite_innermost (requirement : Requirement) (strides : AxisMap) :
    IsLeast {position | (wideningSite requirement strides).WidensAt position} 0 :=
  ⟨⟨.w, rfl, fun same => by cases same⟩, fun _ _ => Nat.zero_le _⟩

/-- The graph can be lowered, and then the stage is in it. -/
def lowersTo (g : Graph) (site : Site) : Bool :=
  match compile {} g with
  | .ok _ after => decide (after.Hosts site)
  | .error _ _ => false

theorem exists_compile_of_lowersTo {g : Graph} {site : Site} (hosts : g.lowersTo site) :
    ∃ compiled after, compile {} g = .ok compiled after ∧ after.Hosts site := by
  unfold lowersTo at hosts
  cases outcome : compile {} g with
  | error error after =>
    rw [outcome] at hosts
    cases hosts
  | ok compiled after =>
    rw [outcome] at hosts
    exact ⟨compiled, after, rfl, of_decide_eq_true hosts⟩

/-- The input of an expand stage is a view of its output, up to the innermost position at which
they differ, exactly if no stride that only the input is asked for departs from what the output
gets. -/
theorem Reachable.sharesAt_iff_freeAgrees (reachable : g.Reachable) {settings : Settings}
    (succeeded : compile settings g = .ok compiled after) (hosts : after.Hosts site)
    {offset : AxisMap} (expands : site.stage.operation = .expand offset)
    (type : site.input.type = site.output.type) {widened : Nat}
    (innermost : IsLeast {position | site.WidensAt position} widened) :
    (∀ position ≤ widened, site.SharesAt position) ↔
      ∀ position ≤ widened, site.FreeAgrees position := by
  obtain ⟨_, _, lowered⟩ := (compile_ensures reachable.wellFormed settings).of_ok succeeded
  have view := lowered.viewUpTo hosts expands type innermost
  constructor
  · intro shares position within
    exact view.freeAgrees_of_sharesAt within (shares position within)
  · intro agrees position within
    exact view.sharesAt_of_freeAgrees agrees within

theorem sharesAt_widenedRow :
    ∃ compiled after site, compile {} (widenedRow {}) = .ok compiled after ∧ after.Hosts site ∧
      ∀ position ≤ 0, site.SharesAt position := by
  have lowered : (widenedRow {}).lowersTo (wideningSite .empty { w := some 1 }) := by
    decide +kernel
  obtain ⟨compiled, after, succeeded, hosts⟩ := exists_compile_of_lowersTo lowered
  refine ⟨compiled, after, _, succeeded, hosts, ?_⟩
  refine (Reachable.sharesAt_iff_freeAgrees (reachable_widenedRow {}) succeeded hosts rfl rfl
    (wideningSite_innermost ..)).mpr ?_
  intro position _ bytes _ fixed
  simp [wideningSite] at fixed

/-- A copy that spreads the narrow row keeps it from lying in the wide one. -/
theorem not_sharesAt_spreadRow :
    ∃ compiled after site offset, spreadRow.Reachable ∧ compile {} spreadRow = .ok compiled after ∧
      after.Hosts site ∧ site.stage.operation = .expand offset ∧
      site.input.type = site.output.type ∧ IsLeast {position | site.WidensAt position} 0 ∧
      ¬site.SharesAt 0 := by
  have lowered : spreadRow.lowersTo
      (wideningSite (Requirement.empty.set 0 (.fixed 8)) { w := some 8 }) := by
    decide +kernel
  obtain ⟨compiled, after, succeeded, hosts⟩ := exists_compile_of_lowersTo lowered
  refine ⟨compiled, after, _, _, reachable_widenedRow _, succeeded, hosts, rfl, rfl,
    wideningSite_innermost .., ?_⟩
  intro found
  obtain ⟨axis, stride, atZero, narrow, wide⟩ := found
  obtain rfl : Axis.w = axis := Option.some.inj atZero
  exact absurd (narrow.trans wide.symm) (by decide)

end TensorLowering.Graph
