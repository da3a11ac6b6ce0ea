import DeltaStream.BinaryExact

/-!
# The agent codecs invert

* `encodeAgentState_prefix`, `encodeAgentDelta_prefix` — within either codec no encoding begins
  another one;
* `encodeAgentDelta_fails_iff` — a delta is refused exactly when a known mask bit has no value;
* `agent_codecs_invert` — decoding undoes encoding, for every state and every delta that fits its
  mask.
-/

set_option autoImplicit false

namespace DeltaStream

open ByteReader

/-! ## Prefixes -/

theorem encodeAgentState_prefix {s t : AgentState}
    (h : encodeAgentState s <+: encodeAgentState t) : s = t :=
  ((readAgentFields_reads s).prefix_free (readAgentFields_reads t) h).2

theorem encodeAgentDelta_prefix {d e : AgentDelta} (hd : d.Consistent) (he : e.Consistent)
    {bytes bytes' : Bytes} (hbytes : encodeAgentDelta d = .ok bytes)
    (hbytes' : encodeAgentDelta e = .ok bytes') (h : bytes <+: bytes') : d = e := by
  rw [encodeAgentDelta_consistent hd] at hbytes
  rw [encodeAgentDelta_consistent he] at hbytes'
  cases hbytes
  cases hbytes'
  exact ((readDeltaFields_reads hd).prefix_free (readDeltaFields_reads he) h).2

/-! ## Refused deltas -/

def Fails {α : Type} (x : Except DeltaError α) : Prop := ∃ e, x = .error e

theorem fails_pure {α : Type} (a : α) : Fails (pure a : Except DeltaError α) ↔ False := by
  constructor
  · rintro ⟨e, he⟩
    cases he
  · exact False.elim

/-- Where the second step fails whatever the first one gives, or never. -/
theorem fails_bind {α β : Type} {x : Except DeltaError α} {f : α → Except DeltaError β}
    {P : Prop} (hf : ∀ a, Fails (f a) ↔ P) : Fails (x >>= f) ↔ Fails x ∨ P := by
  cases x with
  | error e =>
    have hx : Fails (.error e : Except DeltaError α) := ⟨e, rfl⟩
    exact ⟨fun _ => .inl hx, fun _ => ⟨e, rfl⟩⟩
  | ok a =>
    have hx : ¬Fails (.ok a : Except DeltaError α) := by
      rintro ⟨e, he⟩
      cases he
    constructor
    · intro h
      exact .inr ((hf a).mp h)
    · rintro (h | h)
      · exact absurd h hx
      · exact (hf a).mpr h

/-- The mask bit is set and the value is not. -/
def Lacks {α : Type} (mask bit : UInt16) (value : Option α) : Prop :=
  mask &&& bit ≠ 0 ∧ value = none

theorem putField_fails {α : Type} {mask bit : UInt16} {value : Option α} (put : α → Bytes) :
    Fails (putField mask bit value put) ↔ Lacks mask bit value := by
  unfold putField
  split
  · rename_i hbit
    cases value with
    | none => exact ⟨fun _ => ⟨hbit, rfl⟩, fun _ => ⟨_, rfl⟩⟩
    | some v =>
      constructor
      · rintro ⟨e, he⟩
        cases he
      · rintro ⟨-, hnone⟩
        cases hnone
  · rename_i hclear
    constructor
    · rintro ⟨e, he⟩
      cases he
    · rintro ⟨hbit, -⟩
      exact absurd hbit hclear

/-- Some known mask bit is set without its value. -/
def AgentDelta.LacksValue (d : AgentDelta) : Prop :=
  Lacks d.mask FIELD_AGENT_ID d.agentId ∨ Lacks d.mask FIELD_MODEL d.model ∨
    Lacks d.mask FIELD_STATUS d.status ∨ Lacks d.mask FIELD_TASK d.task ∨
    Lacks d.mask FIELD_PROGRESS d.progressDelta ∨ Lacks d.mask FIELD_TOKENS d.tokensDelta ∨
    Lacks d.mask FIELD_MEMORY_MB d.memoryMbDelta ∨ Lacks d.mask FIELD_CPU_PERCENT d.cpuPercent ∨
    Lacks d.mask FIELD_FILES_PROCESSED d.filesProcessedDelta ∨
    Lacks d.mask FIELD_CURRENT_FILE d.currentFile

theorem encodeAgentDelta_fails_iff (d : AgentDelta) :
    Fails (encodeAgentDelta d) ↔ d.LacksValue := by
  unfold encodeAgentDelta AgentDelta.LacksValue
  simp only [← putField_fails putString, ← putField_fails putVarI128, ← putField_fails putF32]
  refine fails_bind fun agentId => fails_bind fun model => fails_bind fun status =>
    fails_bind fun task => fails_bind fun progress => fails_bind fun tokens =>
      fails_bind fun memoryMb => fails_bind fun cpuPercent => fails_bind fun filesProcessed => ?_
  rw [fails_bind fun currentFile => fails_pure _, or_false]

/-- **The agent codecs invert.**  Every state and every delta that fits its mask is read back bit
    for bit; so different ones have different encodings, none of which begins another one; and
    encoding a delta fails exactly when a known mask bit is set without its value. -/
theorem agent_codecs_invert :
    (∀ s : AgentState, decodeAgentState (encodeAgentState s) = .ok s) ∧
    (∀ d : AgentDelta, d.Consistent →
      ∃ bytes, encodeAgentDelta d = .ok bytes ∧ decodeAgentDelta bytes = .ok d) ∧
    (∀ s t : AgentState, encodeAgentState s <+: encodeAgentState t → s = t) ∧
    (∀ (d e : AgentDelta) (bytes bytes' : Bytes), d.Consistent → e.Consistent →
      encodeAgentDelta d = .ok bytes → encodeAgentDelta e = .ok bytes' → bytes <+: bytes' →
        d = e) ∧
    ∀ d : AgentDelta, (∃ e, encodeAgentDelta d = .error e) ↔ d.LacksValue :=
  ⟨decodeAgentState_encode, fun _ hd => decodeAgentDelta_encode hd,
    fun _ _ h => encodeAgentState_prefix h,
    fun _ _ _ _ hd he hbytes hbytes' h => encodeAgentDelta_prefix hd he hbytes hbytes' h,
    encodeAgentDelta_fails_iff⟩

/-- A delta with nothing but the lowest difference of tokens. -/
def lowestTokens : AgentDelta :=
  ⟨FIELD_TOKENS, none, none, none, none, none, some (BitVec.intMin 128), none, none, none, none⟩

theorem agent_codecs_invert_lowest : ∃ bytes, encodeAgentDelta lowestTokens = .ok bytes ∧
    decodeAgentDelta bytes = .ok lowestTokens := by
  refine agent_codecs_invert.2.1 lowestTokens ?_
  constructor <;>
    · unfold Fits
      decide

end DeltaStream
