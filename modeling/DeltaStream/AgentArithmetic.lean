import DeltaStream.BinaryExact

/-!
# Arithmetic of applied agent deltas

`apply_u64_delta` and `apply_u8_delta` of `src/binary.rs` evaluate `base as i128 + delta` and then
narrow the sum.  `AgentDelta.apply` adds as a build without overflow checks does, by wrapping
around; `AgentDelta.applyChecked` is the same evaluation where an addition that leaves `i128`
panics.

* `applyNumberDeltaChecked_eq` — one field, by its exact sum;
* `AgentDelta.apply_agrees` — where one build panics the other one returns an error, and otherwise
  they return the same;
* `agent_apply_exact_iff` — no addition panics exactly when no sum above `i128::MAX` stands behind
  sums that all fit their types.
-/

set_option autoImplicit false

namespace DeltaStream

/-! ## A build with overflow checks -/

/-- `base as i128 + delta`: nothing where the addition panics. -/
def checkedSum (base : Nat) (delta : I128) : Option I128 :=
  if (BitVec.ofNat 128 base).saddOverflow delta then none
  else some (BitVec.ofNat 128 base + delta)

/-- `apply_u64_delta` and `apply_u8_delta`; no outcome where the addition panics. -/
def applyNumberDeltaChecked (bits base : Nat) (delta : Option I128) (overflow : String) :
    ExceptT DeltaError Option Nat :=
  match delta with
  | none => pure base
  | some delta =>
    match checkedSum base delta with
    | none => ExceptT.mk none
    | some sum =>
      if 0 ≤ sum.toInt ∧ sum.toInt < 2 ^ bits then pure sum.toInt.toNat
      else throw (.invalidPacket overflow)

def AgentDelta.applyChecked (d : AgentDelta) (base : AgentState) :
    ExceptT DeltaError Option AgentState := do
  let progress ←
    applyNumberDeltaChecked 8 base.progress.toNat d.progressDelta "u8 delta overflow"
  let tokens ← applyNumberDeltaChecked 64 base.tokens.toNat d.tokensDelta "u64 delta overflow"
  let memoryMb ←
    applyNumberDeltaChecked 64 base.memoryMb.toNat d.memoryMbDelta "u64 delta overflow"
  let filesProcessed ←
    applyNumberDeltaChecked 64 base.filesProcessed.toNat d.filesProcessedDelta
      "u64 delta overflow"
  pure ⟨d.agentId.getD base.agentId, d.model.getD base.model, d.status.getD base.status,
    d.task.getD base.task, UInt8.ofNat progress, UInt64.ofNat tokens, UInt64.ofNat memoryMb,
    d.cpuPercent.getD base.cpuPercent, UInt64.ofNat filesProcessed,
    d.currentFile.getD base.currentFile⟩

/-! ## Exact sums -/

def I128_MAX : Int := 2 ^ 127 - 1

/-- A numeric field: the width of its type, its old value and the difference, if there is one. -/
structure NumberField where
  bits : Nat
  base : Nat
  delta : Option I128
  bits_le : bits ≤ 64
  base_lt : base < 2 ^ bits

namespace NumberField

/-- The sum as an unbounded integer. -/
def sum (f : NumberField) : Int :=
  match f.delta with
  | none => f.base
  | some delta => f.base + delta.toInt

def Fits (f : NumberField) : Prop := 0 ≤ f.sum ∧ f.sum < 2 ^ f.bits

instance decidableFits (f : NumberField) : Decidable f.Fits := inferInstanceAs (Decidable (_ ∧ _))

def ofUInt8 (base : UInt8) (delta : Option I128) : NumberField :=
  ⟨8, base.toNat, delta, by decide, base.toNat_lt⟩

def ofUInt64 (base : UInt64) (delta : Option I128) : NumberField :=
  ⟨64, base.toNat, delta, by decide, base.toNat_lt⟩

end NumberField

/-- The numeric fields in the order in which they are applied. -/
def AgentDelta.numberFields (d : AgentDelta) (base : AgentState) : List NumberField :=
  [.ofUInt8 base.progress d.progressDelta, .ofUInt64 base.tokens d.tokensDelta,
    .ofUInt64 base.memoryMb d.memoryMbDelta, .ofUInt64 base.filesProcessed d.filesProcessedDelta]

/-- The numeric fields of a state, in the same order. -/
def AgentState.numbers (s : AgentState) : List Int :=
  [s.progress.toNat, s.tokens.toNat, s.memoryMb.toNat, s.filesProcessed.toNat]

/-- A sum lies above `i128::MAX` and all sums before it fit their types. -/
def Overflowing : List NumberField → Prop
  | [] => False
  | f :: fs => I128_MAX < f.sum ∨ (f.Fits ∧ Overflowing fs)

/-- Every numeric field gets its exact sum, or the call returns an error because some sum does not
    fit its type; no addition panics. -/
def AgentDelta.ExactOn (d : AgentDelta) (base : AgentState) : Prop :=
  (∃ s, d.applyChecked base = ExceptT.mk (some (.ok s)) ∧
      s.numbers = (d.numberFields base).map NumberField.sum) ∨
    ∃ e, d.applyChecked base = ExceptT.mk (some (.error e)) ∧
      ∃ f ∈ d.numberFields base, ¬f.Fits

/-! ## One field -/

namespace NumberField

variable (f : NumberField)

theorem toInt_base : (BitVec.ofNat 128 f.base).toInt = f.base := by
  have hword : 2 ^ f.bits ≤ 2 ^ 64 := Nat.pow_le_pow_right (by decide) f.bits_le
  have hbase := f.base_lt
  have hnat : (BitVec.ofNat 128 f.base).toNat = f.base := by
    rw [BitVec.toNat_ofNat]
    omega
  rw [BitVec.toInt_eq_toNat_of_lt (by omega), hnat]

theorem fits_of_none (h : f.delta = none) : f.Fits := by
  have hbase := f.base_lt
  simp only [Fits, sum, h]
  exact ⟨Int.natCast_nonneg _, by exact_mod_cast hbase⟩

/-- A sum above `i128::MAX` fits no field. -/
theorem not_fits_of_overflow (h : I128_MAX < f.sum) : ¬f.Fits := by
  have hword : (2 : Int) ^ f.bits ≤ 2 ^ 64 := by
    exact_mod_cast Nat.pow_le_pow_right (by decide) f.bits_le
  rintro ⟨-, hlt⟩
  unfold I128_MAX at h
  omega

/-- The sum of a base, which is never negative, and a difference leaves `i128` only upwards. -/
theorem saddOverflow_iff {delta : I128} (h : f.delta = some delta) :
    (BitVec.ofNat 128 f.base).saddOverflow delta = true ↔ I128_MAX < f.sum := by
  have hlow := BitVec.le_toInt delta
  simp only [BitVec.saddOverflow, toInt_base, sum, h, I128_MAX, Bool.or_eq_true,
    decide_eq_true_eq]
  omega

/-- Within `i128` the wrapping addition gives the sum. -/
theorem toInt_add {delta : I128} (h : f.delta = some delta) (hmax : ¬I128_MAX < f.sum) :
    (BitVec.ofNat 128 f.base + delta).toInt = f.sum := by
  have hover : ¬(BitVec.ofNat 128 f.base).saddOverflow delta = true :=
    fun hb => hmax ((f.saddOverflow_iff h).mp hb)
  rw [BitVec.toInt_add_of_not_saddOverflow hover, toInt_base]
  simp [sum, h]

/-- Above `i128` it wraps to a negative number. -/
theorem toInt_add_neg {delta : I128} (h : f.delta = some delta) (hmax : I128_MAX < f.sum) :
    (BitVec.ofNat 128 f.base + delta).toInt < 0 := by
  have hword : 2 ^ f.bits ≤ 2 ^ 64 := Nat.pow_le_pow_right (by decide) f.bits_le
  have hbase := f.base_lt
  have hhigh : delta.toInt < 2 ^ 127 := BitVec.toInt_lt
  have hsum : f.sum = f.base + delta.toInt := by simp [sum, h]
  unfold I128_MAX at hmax
  have hmod : ((f.base : Int) + delta.toInt) % (2 ^ 128 : Nat) = f.base + delta.toInt :=
    Int.emod_eq_of_lt (by omega) (by omega)
  rw [BitVec.toInt_add, toInt_base, Int.bmod, hmod]
  split <;> omega

/-- **One field**: the addition panics where the sum lies above `i128::MAX`, and otherwise the
    sum is returned if it fits the type. -/
theorem applyNumberDeltaChecked_eq (overflow : String) :
    applyNumberDeltaChecked f.bits f.base f.delta overflow =
      if f.Fits then pure f.sum.toNat
      else if I128_MAX < f.sum then ExceptT.mk none
      else throw (.invalidPacket overflow) := by
  cases h : f.delta with
  | none =>
    rw [if_pos (f.fits_of_none h)]
    simp [applyNumberDeltaChecked, sum, h]
  | some delta =>
    have hover := f.saddOverflow_iff h
    by_cases hmax : I128_MAX < f.sum
    · rw [if_neg (f.not_fits_of_overflow hmax), if_pos hmax]
      simp [applyNumberDeltaChecked, checkedSum, hover.mpr hmax]
    · have hchecked : checkedSum f.base delta = some (BitVec.ofNat 128 f.base + delta) :=
        if_neg fun hb => hmax (hover.mp hb)
      simp only [applyNumberDeltaChecked, hchecked, f.toInt_add h hmax]
      rw [if_neg hmax]
      rfl

/-- A wrapped sum is negative: the build without overflow checks refuses it. -/
theorem applyNumberDelta_eq (overflow : String) :
    applyNumberDelta f.bits f.base f.delta overflow =
      if f.Fits then .ok f.sum.toNat else .error (.invalidPacket overflow) := by
  cases h : f.delta with
  | none =>
    rw [if_pos (f.fits_of_none h)]
    simp [applyNumberDelta, sum, h]
  | some delta =>
    by_cases hmax : I128_MAX < f.sum
    · have hneg := f.toInt_add_neg h hmax
      rw [if_neg (f.not_fits_of_overflow hmax)]
      exact if_neg fun hin => absurd hin.1 (Int.not_le.mpr hneg)
    · simp only [applyNumberDelta, f.toInt_add h hmax]
      rfl

end NumberField

/-! ## All fields -/

/-- How the fields can go, with `whole` where all of them fit. -/
inductive Outcome {α : Type} (fs : List NumberField) (whole : ExceptT DeltaError Option α) :
    ExceptT DeltaError Option α → Prop where
  | panicked (h : Overflowing fs) : Outcome fs whole (ExceptT.mk none)
  | refused (e : DeltaError) (h : ¬Overflowing fs) (hmisfit : ∃ f ∈ fs, ¬f.Fits) :
      Outcome fs whole (throw e)
  | whole (h : ¬Overflowing fs) (hfit : ∀ f ∈ fs, f.Fits) : Outcome fs whole whole

theorem Outcome.start {α : Type} (whole : ExceptT DeltaError Option α) : Outcome [] whole whole :=
  .whole id (by simp)

/-- The next field in front: `rest` is what is evaluated once it has its sum. -/
theorem Outcome.field {α : Type} {f : NumberField} {fs : List NumberField} (overflow : String)
    {whole : ExceptT DeltaError Option α} {rest : Nat → ExceptT DeltaError Option α}
    (h : Outcome fs whole (rest f.sum.toNat)) :
    Outcome (f :: fs) whole
      (applyNumberDeltaChecked f.bits f.base f.delta overflow >>= rest) := by
  rw [f.applyNumberDeltaChecked_eq]
  by_cases hfit : f.Fits
  · have hno : ¬I128_MAX < f.sum := fun hmax => f.not_fits_of_overflow hmax hfit
    rw [if_pos hfit, pure_bind]
    generalize rest f.sum.toNat = result at h
    cases h with
    | panicked hover => exact .panicked (.inr ⟨hfit, hover⟩)
    | refused e hover hmisfit =>
      refine .refused e (fun hf => ?_) ?_
      · exact hf.elim hno fun hlater => hover hlater.2
      · obtain ⟨g, hg, hmis⟩ := hmisfit
        exact ⟨g, List.mem_cons_of_mem _ hg, hmis⟩
    | whole hover hall =>
      refine .whole (fun hf => ?_) ?_
      · exact hf.elim hno fun hlater => hover hlater.2
      · exact List.forall_mem_cons.mpr ⟨hfit, hall⟩
  · rw [if_neg hfit]
    by_cases hmax : I128_MAX < f.sum
    · rw [if_pos hmax]
      exact .panicked (.inl hmax)
    · rw [if_neg hmax]
      refine .refused _ (fun hf => ?_) ⟨f, List.mem_cons_self, hfit⟩
      exact hf.elim hmax fun hlater => hfit hlater.1

namespace AgentDelta

variable (d : AgentDelta) (base : AgentState)

/-- The new state, where all sums fit. -/
def applied : AgentState :=
  let value (f : NumberField) := f.sum.toNat
  ⟨d.agentId.getD base.agentId, d.model.getD base.model, d.status.getD base.status,
    d.task.getD base.task, UInt8.ofNat (value (.ofUInt8 base.progress d.progressDelta)),
    UInt64.ofNat (value (.ofUInt64 base.tokens d.tokensDelta)),
    UInt64.ofNat (value (.ofUInt64 base.memoryMb d.memoryMbDelta)),
    d.cpuPercent.getD base.cpuPercent,
    UInt64.ofNat (value (.ofUInt64 base.filesProcessed d.filesProcessedDelta)),
    d.currentFile.getD base.currentFile⟩

theorem applyChecked_outcome :
    Outcome (d.numberFields base) (pure (d.applied base)) (d.applyChecked base) := by
  unfold applyChecked numberFields
  refine Outcome.field (f := .ofUInt8 base.progress d.progressDelta) _ ?_
  refine Outcome.field (f := .ofUInt64 base.tokens d.tokensDelta) _ ?_
  refine Outcome.field (f := .ofUInt64 base.memoryMb d.memoryMbDelta) _ ?_
  refine Outcome.field (f := .ofUInt64 base.filesProcessed d.filesProcessedDelta) _ ?_
  exact .start _

end AgentDelta

/-! ## The two builds -/

/-- Where the checked evaluation panics the other one fails; otherwise they return the same. -/
def Agrees {α : Type} (checked : ExceptT DeltaError Option α) (plain : Except DeltaError α) :
    Prop :=
  match checked.run with
  | none => ∃ e, plain = .error e
  | some r => plain = r

theorem Agrees.field {α : Type} (f : NumberField) (overflow : String)
    {checked : Nat → ExceptT DeltaError Option α} {plain : Nat → Except DeltaError α}
    (h : Agrees (checked f.sum.toNat) (plain f.sum.toNat)) :
    Agrees (applyNumberDeltaChecked f.bits f.base f.delta overflow >>= checked)
      (applyNumberDelta f.bits f.base f.delta overflow >>= plain) := by
  rw [f.applyNumberDeltaChecked_eq, f.applyNumberDelta_eq]
  by_cases hfit : f.Fits
  · rw [if_pos hfit, if_pos hfit, pure_bind]
    exact h
  · rw [if_neg hfit, if_neg hfit]
    by_cases hmax : I128_MAX < f.sum
    · rw [if_pos hmax]
      exact ⟨_, rfl⟩
    · rw [if_neg hmax]
      exact rfl

/-- **Two builds, one result** but for the panics. -/
theorem AgentDelta.apply_agrees (d : AgentDelta) (base : AgentState) :
    Agrees (d.applyChecked base) (d.apply base) := by
  unfold applyChecked apply
  refine Agrees.field (.ofUInt8 base.progress d.progressDelta) _ ?_
  refine Agrees.field (.ofUInt64 base.tokens d.tokensDelta) _ ?_
  refine Agrees.field (.ofUInt64 base.memoryMb d.memoryMbDelta) _ ?_
  exact Agrees.field (.ofUInt64 base.filesProcessed d.filesProcessedDelta) _ rfl

/-! ## Exact application -/

theorem NumberField.Fits.toNat {f : NumberField} (h : f.Fits) : (f.sum.toNat : Int) = f.sum :=
  Int.toNat_of_nonneg h.1

theorem NumberField.Fits.ofUInt8 {base : UInt8} {delta : Option I128}
    (h : (NumberField.ofUInt8 base delta).Fits) :
    ((UInt8.ofNat (NumberField.ofUInt8 base delta).sum.toNat).toNat : Int) =
      (NumberField.ofUInt8 base delta).sum := by
  have hnat := h.toNat
  have hlt : (NumberField.ofUInt8 base delta).sum < 2 ^ 8 := h.2
  rw [UInt8.toNat_ofNat']
  omega

theorem NumberField.Fits.ofUInt64 {base : UInt64} {delta : Option I128}
    (h : (NumberField.ofUInt64 base delta).Fits) :
    ((UInt64.ofNat (NumberField.ofUInt64 base delta).sum.toNat).toNat : Int) =
      (NumberField.ofUInt64 base delta).sum := by
  have hnat := h.toNat
  have hlt : (NumberField.ofUInt64 base delta).sum < 2 ^ 64 := h.2
  rw [UInt64.toNat_ofNat']
  omega

theorem AgentDelta.applied_numbers {d : AgentDelta} {base : AgentState}
    (h : ∀ f ∈ d.numberFields base, f.Fits) :
    (d.applied base).numbers = (d.numberFields base).map NumberField.sum := by
  simp only [numberFields, List.forall_mem_cons] at h
  obtain ⟨hprogress, htokens, hmemory, hfiles, -⟩ := h
  simp only [AgentState.numbers, applied, numberFields, List.map_cons, List.map_nil,
    hprogress.ofUInt8, htokens.ofUInt64, hmemory.ofUInt64, hfiles.ofUInt64]

theorem AgentDelta.exactOn_iff (d : AgentDelta) (base : AgentState) :
    d.ExactOn base ↔ ¬Overflowing (d.numberFields base) := by
  have houtcome := d.applyChecked_outcome base
  unfold ExactOn
  generalize d.applyChecked base = result at houtcome
  cases houtcome with
  | panicked hover =>
    refine ⟨?_, fun hno => absurd hover hno⟩
    rintro (⟨s, hs, -⟩ | ⟨e, he, -⟩)
    · cases hs
    · cases he
  | refused e hno hmisfit => exact ⟨fun _ => hno, fun _ => .inr ⟨e, rfl, hmisfit⟩⟩
  | whole hno hfit => exact ⟨fun _ => hno, fun _ => .inl ⟨_, rfl, applied_numbers hfit⟩⟩

/-- **When applying a received delta is exact**: every numeric field gets its exact sum or the
    call returns an error, with no addition that overflows, unless a sum lies above `i128::MAX`
    behind sums that all fit their types. -/
theorem agent_apply_exact_iff (bytes : Bytes) (base : AgentState) :
    (∀ d, decodeAgentDelta bytes = .ok d → d.ExactOn base) ↔
      ∀ d, decodeAgentDelta bytes = .ok d → ¬Overflowing (d.numberFields base) := by
  constructor
  · intro h d hd
    exact (d.exactOn_iff base).mp (h d hd)
  · intro h d hd
    exact (d.exactOn_iff base).mpr (h d hd)

/-- The progress grows by `i128::MAX`. -/
def steepProgress : Bytes := [16, 0, 0xFE] ++ List.replicate 17 0xFF ++ [0x03]

def steepDelta : AgentDelta :=
  ⟨FIELD_PROGRESS, none, none, none, none, some (BitVec.intMax 128), none, none, none, none, none⟩

def startedState : AgentState :=
  ⟨.empty, .empty, .empty, .empty, 1, 0, 0, 0, 0, .empty⟩

/-- A delta of `i128::MAX` on a progress of 1: the addition overflows. -/
theorem agent_apply_overflows :
    ¬∀ d, decodeAgentDelta steepProgress = .ok d → d.ExactOn startedState := by
  have hconsistent : steepDelta.Consistent := by
    constructor <;>
      · unfold Fits
        decide
  have hbytes : deltaBytes steepDelta = steepProgress := by decide +kernel
  obtain ⟨bytes, hencode, hdecode⟩ := decodeAgentDelta_encode hconsistent
  rw [encodeAgentDelta_consistent hconsistent, hbytes] at hencode
  cases hencode
  intro h
  have hpanic : steepDelta.applyChecked startedState = ExceptT.mk none := rfl
  rcases h steepDelta hdecode with ⟨s, hs, -⟩ | ⟨e, he, -⟩
  · rw [hpanic] at hs
    cases hs
  · rw [hpanic] at he
    cases he

end DeltaStream
