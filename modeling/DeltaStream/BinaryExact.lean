import DeltaStream.Binary

/-!
# Exactness of the binary agent codec

* `decodeAgentState_encode`, `encodeAgentState_injective` — states are read back, so equal bytes
  are equal states;
* `decodeAgentDelta_encode`, `between_consistent` — the delta between two states is read back;
* `between_apply` — and applied to the old state it gives the new one, except that
  `cpu_percent` keeps its old pattern when the two patterns compare equal;
* `agent_delta_exact_iff` — so the law holds exactly when the two are not zeros of opposite
  sign.
-/

set_option autoImplicit false

namespace DeltaStream

open ByteReader

/-! ## Numbers -/

/-- The check for bits beyond the word never fires: the loop stops before. -/
theorem varU128From_eq {shift : Nat} (h : shift < 128) (value : Nat) :
    Reader.varU128From value shift =
      Leb128.decodeFrom 128 truncatedPayload varintOverflow value shift := by
  induction hk : 128 - shift using Nat.strongRecOn generalizing shift value with
  | ind k ih =>
    funext bytes pos
    rw [Reader.varU128From, Leb128.decodeFrom]
    cases bytes[pos]? with
    | none => rfl
    | some b =>
    simp only
    rw [if_neg (by omega)]
    split
    · rfl
    by_cases hend : 127 < shift + 7
    · rw [if_pos hend, if_pos (by omega)]
    · rw [if_neg hend, if_neg (by omega)]
      rw [ih (128 - (shift + 7)) (by omega) (by omega) _ rfl]

theorem varU128_reads {n : Nat} (h : n < 2 ^ 128) : Reads Reader.varU128 (putVarU128 n) n := by
  unfold Reader.varU128
  rw [varU128From_eq (by decide)]
  exact Leb128.decode_reads (by decide) h

/-- All ones or all zeros, by the lowest bit. -/
theorem neg_low_bit (w : BitVec 128) (i : Nat) (hi : i < 128) :
    (-(w &&& 1)).getLsbD i = w.getLsbD 0 := by
  have hones : -(1#128) = BitVec.allOnes 128 := by decide
  have hw : w &&& 1 = BitVec.setWidth 128 (BitVec.ofBool (w.getLsbD 0)) :=
    BitVec.and_one_eq_setWidth_ofBool_getLsbD
  rw [hw]
  cases w.getLsbD 0 with
  | false =>
    have hzero : -(BitVec.setWidth 128 (BitVec.ofBool false)) = 0#128 := by decide
    rw [hzero, BitVec.getLsbD_zero]
  | true =>
    have hone : BitVec.setWidth 128 (BitVec.ofBool true) = 1#128 := by decide
    rw [hone, hones, BitVec.getLsbD_allOnes, decide_eq_true hi]

theorem zigzag_getLsbD (v : I128) (i : Nat) (hi : i < 128) :
    (zigzag v).getLsbD i = ((decide (0 < i) && v.getLsbD (i - 1)) ^^ v.getLsbD 127) := by
  unfold zigzag
  rw [BitVec.getLsbD_xor, BitVec.getLsbD_shiftLeft, BitVec.getLsbD_sshiftRight]
  have hsign : (if 127 + i < 128 then v.getLsbD (127 + i) else v.msb) = v.getLsbD 127 := by
    split
    · congr 1
      omega
    · rw [BitVec.msb_eq_getLsbD_last]
  have hpos : decide (0 < i) = !decide (i < 1) := by
    cases i <;> simp
  rw [hsign, hpos, decide_eq_true hi, decide_eq_false (show ¬128 ≤ i by omega)]
  simp

/-- Zigzag words are read back. -/
theorem unzigzag_zigzag (v : I128) : Reader.unzigzag (zigzag v) = v := by
  apply BitVec.eq_of_getLsbD_eq
  intro i hi
  unfold Reader.unzigzag
  rw [BitVec.getLsbD_xor, neg_low_bit _ i hi, zigzag_getLsbD v 0 (by decide),
    BitVec.getLsbD_ushiftRight]
  by_cases hlast : i = 127
  · subst hlast
    rw [BitVec.getLsbD_of_ge _ _ (by decide)]
    simp
  · rw [zigzag_getLsbD v (1 + i) (by omega), Nat.add_sub_cancel_left,
      decide_eq_true (show 0 < 1 + i by omega)]
    simp

theorem varI128_reads (v : I128) : Reads Reader.varI128 (putVarI128 v) v := by
  have h := (varU128_reads (zigzag v).isLt).map fun n => Reader.unzigzag (BitVec.ofNat 128 n)
  rwa [BitVec.ofNat_toNat, BitVec.setWidth_eq, unzigzag_zigzag] at h

theorem takeBytes_reads {n : Nat} (enc : Bytes) (h : enc.length = n) :
    Reads (Reader.takeBytes n) enc enc :=
  Reads.take enc h

theorem u16_reads (m : UInt16) : Reads Reader.u16 (leBytes 2 m.toNat) m := by
  have hm := m.toNat_lt
  have hval : UInt16.ofNat (leValue (leBytes 2 m.toNat)) = m := by
    apply UInt16.toNat_inj.mp
    rw [leValue_leBytes, UInt16.toNat_ofNat']
    omega
  have h := (takeBytes_reads (leBytes 2 m.toNat) (leBytes_length 2 _)).map
    fun b => UInt16.ofNat (leValue b)
  rwa [hval] at h

theorem f32_reads (bits : UInt32) : Reads Reader.f32 (putF32 bits) bits := by
  have hb := bits.toNat_lt
  have hval : UInt32.ofNat (leValue (leBytes 4 bits.toNat)) = bits := by
    apply UInt32.toNat_inj.mp
    rw [leValue_leBytes, UInt32.toNat_ofNat']
    omega
  have h := (takeBytes_reads (leBytes 4 bits.toNat) (leBytes_length 4 _)).map
    fun b => UInt32.ofNat (leValue b)
  rwa [hval] at h

theorem narrow_reads {bits n : Nat} (overflow : String) (hbits : bits ≤ 128) (h : n < 2 ^ bits) :
    Reads (Reader.narrow bits overflow) (putVarU128 n) n := by
  have hword : n < 2 ^ 128 := Nat.lt_of_lt_of_le h (Nat.pow_le_pow_right (by decide) hbits)
  have hcheck : Reads (do
      require (n < 2 ^ bits) (.invalidPacket overflow)
      pure n : ByteReader DeltaError Nat) [] n :=
    (Reads.require (decide_eq_true h)).bind_nil (Reads.pure n)
  have hbind := (varU128_reads hword).bind (f := fun value => do
    require (value < 2 ^ bits) (.invalidPacket overflow)
    pure value) hcheck
  rwa [List.append_nil] at hbind

/-! ## Strings -/

theorem fromUtf8_utf8 (t : Text) : Reader.fromUtf8 (utf8 t.value) = pure t := by
  have hdec : String.fromUTF8? ⟨(utf8 t.value).toArray⟩ = some t.value := by
    have hbytes : (⟨(utf8 t.value).toArray⟩ : ByteArray) = t.value.toByteArray := by
      unfold utf8
      rw [Array.toArray_toList]
    rw [hbytes]
    unfold String.fromUTF8?
    rw [dif_pos t.value.isValidUTF8]
    rfl
  unfold Reader.fromUtf8
  rw [hdec]
  exact dif_pos t.length_le

theorem string_reads (t : Text) : Reads Reader.string (putString t) t := by
  have hle := t.length_le
  have hmax : ISIZE_MAX < 2 ^ 128 ∧ ISIZE_MAX ≤ USIZE_MAX := by decide
  have hlen : (utf8 t.value).length < 2 ^ 128 := Nat.lt_of_le_of_lt hle hmax.1
  have hrest := (takeBytes_reads (utf8 t.value) rfl).bind (f := Reader.fromUtf8)
    (by rw [fromUtf8_utf8]; exact Reads.pure t)
  rw [List.append_nil] at hrest
  exact (varU128_reads hlen).bind
    ((Reads.require (decide_eq_true (Nat.le_trans hle hmax.2))).bind_nil hrest)

/-! ## States -/

/-- The fields of a state, before the check that nothing follows. -/
def readAgentFields : ByteReader DeltaError AgentState := do
  let agentId ← Reader.string
  let model ← Reader.string
  let status ← Reader.string
  let task ← Reader.string
  let progress ← Reader.narrow 8 "progress overflow"
  let tokens ← Reader.narrow 64 "tokens overflow"
  let memoryMb ← Reader.narrow 64 "memory overflow"
  let cpuPercent ← Reader.f32
  let filesProcessed ← Reader.narrow 64 "files overflow"
  let currentFile ← Reader.string
  pure ⟨agentId, model, status, task, UInt8.ofNat progress, UInt64.ofNat tokens,
    UInt64.ofNat memoryMb, cpuPercent, UInt64.ofNat filesProcessed, currentFile⟩

theorem readAgentState_eq :
    readAgentState = readAgentFields >>= fun s => Reader.finish >>= fun _ => pure s := by
  simp only [readAgentState, readAgentFields, bind_assoc, pure_bind]

theorem readAgentFields_reads (s : AgentState) :
    Reads readAgentFields (encodeAgentState s) s := by
  have hprogress := s.progress.toNat_lt
  have htokens := s.tokens.toNat_lt
  have hmemory := s.memoryMb.toNat_lt
  have hfiles := s.filesProcessed.toNat_lt
  refine (string_reads s.agentId).bind ((string_reads s.model).bind
    ((string_reads s.status).bind ((string_reads s.task).bind ?_)))
  refine (narrow_reads _ (by decide) hprogress).bind
    ((narrow_reads _ (by decide) htokens).bind
      ((narrow_reads _ (by decide) hmemory).bind ?_))
  refine (f32_reads s.cpuPercent).bind ((narrow_reads _ (by decide) hfiles).bind ?_)
  have hlast := (string_reads s.currentFile).map fun currentFile =>
    AgentState.mk s.agentId s.model s.status s.task (UInt8.ofNat s.progress.toNat)
      (UInt64.ofNat s.tokens.toNat) (UInt64.ofNat s.memoryMb.toNat) s.cpuPercent
      (UInt64.ofNat s.filesProcessed.toNat) currentFile
  rw [UInt8.ofNat_toNat, UInt64.ofNat_toNat, UInt64.ofNat_toNat, UInt64.ofNat_toNat] at hlast ⊢
  exact hlast

theorem readAgentState_reads (s : AgentState) :
    ReadsAll readAgentState (encodeAgentState s) s := by
  rw [readAgentState_eq]
  exact (readAgentFields_reads s).finished _

/-- **States are read back.** -/
theorem decodeAgentState_encode (s : AgentState) :
    decodeAgentState (encodeAgentState s) = .ok s :=
  (readAgentState_reads s).run

/-- Equal bytes are equal states, bit for bit. -/
theorem encodeAgentState_injective {s t : AgentState}
    (h : encodeAgentState s = encodeAgentState t) : s = t := by
  have hs := decodeAgentState_encode s
  rw [h, decodeAgentState_encode t] at hs
  exact (Except.ok.inj hs).symm

/-! ## Deltas -/

/-- A field is set exactly when its mask bit is. -/
def Fits {α : Type} (mask bit : UInt16) (value : Option α) : Prop :=
  mask &&& bit ≠ 0 ↔ value.isSome = true

/-- Every field agrees with the mask. -/
structure AgentDelta.Consistent (d : AgentDelta) : Prop where
  agentId : Fits d.mask FIELD_AGENT_ID d.agentId
  model : Fits d.mask FIELD_MODEL d.model
  status : Fits d.mask FIELD_STATUS d.status
  task : Fits d.mask FIELD_TASK d.task
  progress : Fits d.mask FIELD_PROGRESS d.progressDelta
  tokens : Fits d.mask FIELD_TOKENS d.tokensDelta
  memoryMb : Fits d.mask FIELD_MEMORY_MB d.memoryMbDelta
  cpuPercent : Fits d.mask FIELD_CPU_PERCENT d.cpuPercent
  filesProcessed : Fits d.mask FIELD_FILES_PROCESSED d.filesProcessedDelta
  currentFile : Fits d.mask FIELD_CURRENT_FILE d.currentFile

/-- The bytes of a field: those of its value, or none. -/
def fieldBytes {α : Type} (put : α → Bytes) : Option α → Bytes
  | none => []
  | some v => put v

theorem putField_fits {α : Type} {mask bit : UInt16} {value : Option α} (put : α → Bytes)
    (h : Fits mask bit value) : putField mask bit value put = .ok (fieldBytes put value) := by
  unfold putField
  cases value with
  | none =>
    rw [if_neg (fun hm => by simpa using h.mp hm)]
    rfl
  | some v =>
    rw [if_pos (h.mpr rfl)]
    rfl

theorem readField_reads {α : Type} {mask bit : UInt16} {value : Option α} {put : α → Bytes}
    {r : ByteReader DeltaError α} (h : Fits mask bit value) (hr : ∀ v, Reads r (put v) v) :
    Reads (readField mask bit r) (fieldBytes put value) value := by
  unfold readField
  cases value with
  | none =>
    rw [if_neg (fun hm => by simpa using h.mp hm)]
    exact Reads.pure none
  | some v =>
    rw [if_pos (h.mpr rfl)]
    exact (hr v).map some

/-- The encoding of a consistent delta. -/
def deltaBytes (d : AgentDelta) : Bytes :=
  leBytes 2 d.mask.toNat ++ (fieldBytes putString d.agentId ++ (fieldBytes putString d.model ++
    (fieldBytes putString d.status ++ (fieldBytes putString d.task ++
      (fieldBytes putVarI128 d.progressDelta ++ (fieldBytes putVarI128 d.tokensDelta ++
        (fieldBytes putVarI128 d.memoryMbDelta ++ (fieldBytes putF32 d.cpuPercent ++
          (fieldBytes putVarI128 d.filesProcessedDelta ++
            fieldBytes putString d.currentFile)))))))))

theorem encodeAgentDelta_consistent {d : AgentDelta} (h : d.Consistent) :
    encodeAgentDelta d = .ok (deltaBytes d) := by
  unfold encodeAgentDelta
  rw [putField_fits _ h.agentId, putField_fits _ h.model, putField_fits _ h.status,
    putField_fits _ h.task, putField_fits _ h.progress, putField_fits _ h.tokens,
    putField_fits _ h.memoryMb, putField_fits _ h.cpuPercent, putField_fits _ h.filesProcessed,
    putField_fits _ h.currentFile]
  rfl

/-- The fields of a delta, before the check that nothing follows. -/
def readDeltaFields : ByteReader DeltaError AgentDelta := do
  let mask ← Reader.u16
  let agentId ← readField mask FIELD_AGENT_ID Reader.string
  let model ← readField mask FIELD_MODEL Reader.string
  let status ← readField mask FIELD_STATUS Reader.string
  let task ← readField mask FIELD_TASK Reader.string
  let progress ← readField mask FIELD_PROGRESS Reader.varI128
  let tokens ← readField mask FIELD_TOKENS Reader.varI128
  let memoryMb ← readField mask FIELD_MEMORY_MB Reader.varI128
  let cpuPercent ← readField mask FIELD_CPU_PERCENT Reader.f32
  let filesProcessed ← readField mask FIELD_FILES_PROCESSED Reader.varI128
  let currentFile ← readField mask FIELD_CURRENT_FILE Reader.string
  pure ⟨mask, agentId, model, status, task, progress, tokens, memoryMb, cpuPercent,
    filesProcessed, currentFile⟩

theorem readAgentDelta_eq :
    readAgentDelta = readDeltaFields >>= fun d => Reader.finish >>= fun _ => pure d := by
  simp only [readAgentDelta, readDeltaFields, bind_assoc, pure_bind]

theorem readDeltaFields_reads {d : AgentDelta} (h : d.Consistent) :
    Reads readDeltaFields (deltaBytes d) d := by
  refine (u16_reads d.mask).bind ?_
  refine (readField_reads h.agentId string_reads).bind
    ((readField_reads h.model string_reads).bind
      ((readField_reads h.status string_reads).bind
        ((readField_reads h.task string_reads).bind ?_)))
  refine (readField_reads h.progress varI128_reads).bind
    ((readField_reads h.tokens varI128_reads).bind
      ((readField_reads h.memoryMb varI128_reads).bind ?_))
  refine (readField_reads h.cpuPercent f32_reads).bind
    ((readField_reads h.filesProcessed varI128_reads).bind ?_)
  exact (readField_reads h.currentFile string_reads).map fun currentFile =>
    AgentDelta.mk d.mask d.agentId d.model d.status d.task d.progressDelta d.tokensDelta
      d.memoryMbDelta d.cpuPercent d.filesProcessedDelta currentFile

/-- **Consistent deltas are read back.** -/
theorem decodeAgentDelta_encode {d : AgentDelta} (h : d.Consistent) :
    ∃ bytes, encodeAgentDelta d = .ok bytes ∧ decodeAgentDelta bytes = .ok d := by
  refine ⟨deltaBytes d, encodeAgentDelta_consistent h, ReadsAll.run ?_⟩
  rw [readAgentDelta_eq]
  exact (readDeltaFields_reads h).finished _

/-! ## The delta between two states -/

theorem or_and_ne_zero (a b c : UInt16) :
    (a ||| b) &&& c ≠ 0 ↔ a &&& c ≠ 0 ∨ b &&& c ≠ 0 := by
  have hdistrib : (a ||| b) &&& c = (a &&& c) ||| (b &&& c) := by
    apply UInt16.toBitVec_inj.mp
    ext i
    simp [Bool.and_or_distrib_right]
  rw [hdistrib, ne_eq, UInt16.or_eq_zero_iff, Decidable.not_and_iff_or_not]

theorem changed_bit {α : Type} (differs : Bool) (bit other : UInt16) (value : α) :
    (changed differs bit value).1 &&& other ≠ 0 ↔ differs = true ∧ bit &&& other ≠ 0 := by
  unfold changed
  cases differs <;> simp

theorem changed_isSome {α : Type} (differs : Bool) (bit : UInt16) (value : α) :
    (changed differs bit value).2.isSome = differs := by
  unfold changed
  cases differs <;> rfl

theorem between_consistent (old new : AgentState) :
    (AgentDelta.between old new).Consistent := by
  constructor <;>
    · simp only [Fits, AgentDelta.between, or_and_ne_zero, changed_bit, changed_isSome]
      simp +decide

theorem changed_getD {α : Type} (differs : Bool) (bit : UInt16) (old new : α) :
    (changed differs bit new).2.getD old = if differs then new else old := by
  unfold changed
  cases differs <;> rfl

/-- Adding the difference gives the new number. -/
theorem applyNumberDelta_changed {bits old new : Nat} {differs : Bool} (bit : UInt16)
    (overflow : String) (hbits : bits ≤ 64) (hnew : new < 2 ^ bits)
    (hsame : differs = false → old = new) :
    applyNumberDelta bits old (changed differs bit (difference new old)).2 overflow =
      .ok new := by
  cases differs with
  | false =>
    rw [hsame rfl]
    rfl
  | true =>
    have hword : new < 2 ^ 64 := Nat.lt_of_lt_of_le hnew (Nat.pow_le_pow_right (by decide) hbits)
    have hmod : new % 2 ^ 128 = new := Nat.mod_eq_of_lt (by omega)
    have hint : (BitVec.ofNat 128 old + difference new old).toInt = new := by
      unfold difference
      rw [BitVec.add_comm, BitVec.sub_add_cancel,
        BitVec.toInt_eq_toNat_of_lt (by rw [BitVec.toNat_ofNat]; omega), BitVec.toNat_ofNat, hmod]
    unfold changed applyNumberDelta
    simp only [if_true, hint]
    rw [if_pos ⟨Int.natCast_nonneg _, by exact_mod_cast hnew⟩, Int.toNat_natCast]

/-- **The new state**, up to `cpu_percent`, which is kept where it compares equal, also on a state
    with another one. -/
theorem between_apply_cpu (old new : AgentState) (cpu : UInt32) :
    (AgentDelta.between old new).apply { old with cpuPercent := cpu } = .ok { new with
      cpuPercent := if AgentDelta.cpuDiffers old new then new.cpuPercent else cpu } := by
  have hprogress : applyNumberDelta 8 old.progress.toNat
      (AgentDelta.between old new).progressDelta "u8 delta overflow" =
      .ok new.progress.toNat :=
    applyNumberDelta_changed _ _ (by decide) new.progress.toNat_lt
      fun h => congrArg _ (by simpa using h)
  have htokens : applyNumberDelta 64 old.tokens.toNat
      (AgentDelta.between old new).tokensDelta "u64 delta overflow" = .ok new.tokens.toNat :=
    applyNumberDelta_changed _ _ (by decide) new.tokens.toNat_lt
      fun h => congrArg _ (by simpa using h)
  have hmemory : applyNumberDelta 64 old.memoryMb.toNat
      (AgentDelta.between old new).memoryMbDelta "u64 delta overflow" = .ok new.memoryMb.toNat :=
    applyNumberDelta_changed _ _ (by decide) new.memoryMb.toNat_lt
      fun h => congrArg _ (by simpa using h)
  have hfiles : applyNumberDelta 64 old.filesProcessed.toNat
      (AgentDelta.between old new).filesProcessedDelta "u64 delta overflow" =
      .ok new.filesProcessed.toNat :=
    applyNumberDelta_changed _ _ (by decide) new.filesProcessed.toNat_lt
      fun h => congrArg _ (by simpa using h)
  -- an unchanged text field is the same text
  have htext : ∀ (bit : UInt16) (a b : Text),
      (changed (decide (a ≠ b)) bit b).2.getD a = b := by
    intro bit a b
    rw [changed_getD]
    by_cases hab : a = b
    · simp [hab]
    · simp [hab]
  unfold AgentDelta.apply
  rw [hprogress, htokens, hmemory, hfiles]
  simp only [bind, Except.bind, pure, Except.pure, UInt8.ofNat_toNat, UInt64.ofNat_toNat,
    AgentDelta.between, htext, changed_getD]

theorem between_apply (old new : AgentState) :
    (AgentDelta.between old new).apply old = .ok { new with
      cpuPercent := if AgentDelta.cpuDiffers old new then new.cpuPercent else old.cpuPercent } :=
  between_apply_cpu old new old.cpuPercent

/-! ## Exactness -/

/-- The delta between two states survives its encoding and rebuilds the new state, byte for
    byte, so the next base hash matches. -/
def AgentDeltaExact (old new : AgentState) : Prop :=
  ∃ bytes d s, encodeAgentDelta (AgentDelta.between old new) = .ok bytes ∧
    decodeAgentDelta bytes = .ok d ∧ d.apply old = .ok s ∧
    encodeAgentState s = encodeAgentState new ∧ stateHash s = stateHash new

/-- The only field a delta can miss is `cpu_percent`. -/
theorem agentDeltaExact_iff_cpu (old new : AgentState) :
    AgentDeltaExact old new ↔
      (AgentDelta.cpuDiffers old new = true ∨ old.cpuPercent = new.cpuPercent) := by
  obtain ⟨bytes, henc, hdec⟩ := decodeAgentDelta_encode (between_consistent old new)
  constructor
  · rintro ⟨bytes', d, s, henc', hdec', happ, hbytes, -⟩
    rw [henc] at henc'
    cases henc'
    rw [hdec] at hdec'
    cases hdec'
    rw [between_apply] at happ
    cases happ
    have hcpu := congrArg AgentState.cpuPercent (encodeAgentState_injective hbytes)
    simp only at hcpu
    split at hcpu
    · rename_i hdiff
      exact .inl hdiff
    · exact .inr hcpu
  · intro hcpu
    have hsame : (if AgentDelta.cpuDiffers old new then new.cpuPercent else old.cpuPercent) =
        new.cpuPercent := by
      rcases hcpu with hdiff | hsame
      · rw [if_pos hdiff]
      · rw [hsame, ite_self]
    have happ := between_apply old new
    rw [hsame] at happ
    exact ⟨bytes, _, _, henc, hdec, happ, rfl, rfl⟩

/-- The two zeros: equal as numbers, different as patterns. -/
def OppositeZeros (a b : UInt32) : Prop :=
  a = 0 ∧ b = 0x80000000 ∨ a = 0x80000000 ∧ b = 0

instance (a b : UInt32) : Decidable (OppositeZeros a b) :=
  inferInstanceAs (Decidable (a = 0 ∧ b = 0x80000000 ∨ a = 0x80000000 ∧ b = 0))

/-- A change of `cpu_percent` is only missed between the two zeros. -/
theorem cpu_kept_iff (old new : AgentState) :
    (AgentDelta.cpuDiffers old new = true ∨ old.cpuPercent = new.cpuPercent) ↔
      ¬OppositeZeros old.cpuPercent new.cpuPercent := by
  have hzeros := Ieee.binary32.eq_and_ne_iff old.cpuPercent.toNat_lt new.cpuPercent.toNat_lt
  have hpattern : ∀ (a : UInt32) (n : Nat), n < 2 ^ 32 → (a.toNat = n ↔ a = UInt32.ofNat n) := by
    intro a n hn
    rw [← UInt32.toNat_inj, UInt32.toNat_ofNat', Nat.mod_eq_of_lt hn]
  have hweight : Ieee.binary32.signWeight = 2147483648 := by decide
  rw [hweight, hpattern _ 0 (by decide), hpattern _ 0 (by decide), hpattern _ _ (by decide),
    hpattern _ _ (by decide), ne_eq, UInt32.toNat_inj] at hzeros
  unfold OppositeZeros AgentDelta.cpuDiffers
  cases heq : Ieee.binary32.eq old.cpuPercent.toNat new.cpuPercent.toNat with
  | false =>
    rw [heq] at hzeros
    refine ⟨fun _ hz => ?_, fun _ => .inl rfl⟩
    exact absurd (hzeros.mpr hz).1 (by decide)
  | true =>
    rw [heq] at hzeros
    constructor
    · rintro (h | hsame) hz
      · cases h
      · exact (hzeros.mpr hz).2 hsame
    · intro hz
      right
      exact Decidable.not_not.mp fun hne => hz (hzeros.mp ⟨rfl, hne⟩)

/-- The same state, the two zeros taken for one. -/
structure SameUpToZeros (a b : AgentState) : Prop where
  fields : a = { b with cpuPercent := a.cpuPercent }
  cpu : a.cpuPercent = b.cpuPercent ∨ OppositeZeros a.cpuPercent b.cpuPercent

theorem SameUpToZeros.refl (a : AgentState) : SameUpToZeros a a := ⟨rfl, .inl rfl⟩

/-- A delta on a state that stands for its base makes one that stands for the new state. -/
theorem SameUpToZeros.apply {held old new next : AgentState} (h : SameUpToZeros held old)
    (hnext : (AgentDelta.between old new).apply held = .ok next) : SameUpToZeros next new := by
  rw [h.fields, between_apply_cpu] at hnext
  cases hnext
  refine ⟨rfl, ?_⟩
  by_cases hdiff : AgentDelta.cpuDiffers old new = true
  · left
    exact if_pos hdiff
  have hkept : old.cpuPercent = new.cpuPercent ∨ OppositeZeros old.cpuPercent new.cpuPercent := by
    by_contra hcon
    rw [not_or] at hcon
    rcases (cpu_kept_iff old new).mpr hcon.2 with hd | he
    · exact hdiff hd
    · exact hcon.1 he
  simp only [if_neg hdiff]
  rcases h.cpu with heq | hzeros
  · rw [heq]
    exact hkept
  · rcases hkept with heq' | hzeros'
    · rw [← heq']
      exact .inr hzeros
    · -- two changes of sign
      left
      rcases hzeros with ⟨ha, hb⟩ | ⟨ha, hb⟩ <;> rcases hzeros' with ⟨hc, hd⟩ | ⟨hc, hd⟩
      · rw [hc] at hb
        exact absurd hb (by decide)
      · rw [ha, hd]
      · rw [ha, hd]
      · rw [hc] at hb
        exact absurd hb (by decide)

/-- **Agent deltas are exact** if and only if `cpu_percent` does not go from one zero to the
    other. -/
theorem agent_delta_exact_iff (old new : AgentState) :
    AgentDeltaExact old new ↔ ¬OppositeZeros old.cpuPercent new.cpuPercent :=
  (agentDeltaExact_iff_cpu old new).trans (cpu_kept_iff old new)

/-- An agent whose idle processor is measured as zero. -/
def idleAgent (cpuPercent : UInt32) : AgentState :=
  ⟨.empty, .empty, .empty, .empty, 0, 0, 0, cpuPercent, 0, .empty⟩

/-- From `+0.0` to `-0.0` the delta is empty and the receiver keeps `+0.0`. -/
theorem agent_delta_opposite_zeros : ¬AgentDeltaExact (idleAgent 0) (idleAgent 0x80000000) := by
  rw [agentDeltaExact_iff_cpu]
  decide

end DeltaStream
