import DeltaStream.ByteConvergence
import DeltaStream.SmartDeltaBound

/-!
# How long a delta payload can be

* `encodeCandidates_length_le` — no strategy writes more than nine bytes for a byte of the state and
  nineteen on top;
* `in_order_converges_small` — so up to seven mebibytes the deltas of consecutive states fit, and
  whatever is encoded is applied.
-/

set_option autoImplicit false

namespace DeltaStream

open ByteReader Overlay Replica FirstMin BytePublisher

/-! ## Variable-length numbers -/

theorem putVarU64_length_le {n places : Nat} (hplaces : 0 < places) (h : n < 2 ^ (7 * places)) :
    (putVarU64 n).length ≤ places := by
  have hlen := @Leb128.encode_places n (7 * places) (by omega) h
  unfold putVarU64
  omega

/-- The numbers of a state below 2²⁸ bytes. -/
theorem putVarU64_small {n len : Nat} (hn : n ≤ len) (hlen : len < 2 ^ 28) :
    (putVarU64 n).length ≤ 4 :=
  putVarU64_length_le (by omega) (show n < 2 ^ 28 by omega)

/-! ## One strategy after the other -/

theorem putSparse_length_le {len : Nat} (hlen : len < 2 ^ 28) :
    ∀ (changes : List (Nat × UInt8)) (n previousIndex : Nat), (∀ c ∈ changes, c.1 ≤ len) →
      (putSparse n previousIndex changes).length ≤ 5 * changes.length
  | [], _, _, _ => by simp [putSparse]
  | (index, value) :: rest, n, previousIndex, h => by
    have hindex : index ≤ len := h _ List.mem_cons_self
    have hfirst := putVarU64_small ((indexDelta_le n previousIndex index).trans hindex) hlen
    have hrest := putSparse_length_le hlen rest (n + 1) index
      fun c hc => h c (List.mem_cons_of_mem _ hc)
    simp only [putSparse, List.length_append, List.length_cons]
    omega

theorem encodeSparse_length_le (previous : Bytes) {current : Bytes} (h : current.length < 2 ^ 28) :
    (encodeSparse previous current).length ≤ 9 + 5 * current.length := by
  have hcount := sparseChanges_length_le previous current 0
  have hlen := putVarU64_small (Nat.le_refl _) h
  have hchanges := putVarU64_small hcount h
  have hall := putSparse_length_le h (sparseChanges previous current 0) 0 0 fun c hc => by
    have := (sparseChanges_mem hc).2.1
    omega
  simp only [encodeSparse, List.length_cons, List.length_append]
  omega

theorem putRanges_length_le {current : Bytes} (h : current.length < 2 ^ 28) :
    ∀ (ranges : List (Nat × Nat)) (previousEnd : Nat),
      (∀ r ∈ ranges, r.1 ≤ r.2 ∧ r.2 ≤ current.length) →
      (putRanges current previousEnd ranges).length ≤
        8 * ranges.length + (ranges.map fun r => r.2 - r.1).sum
  | [], _, _ => by simp [putRanges]
  | (start, stop) :: rest, previousEnd, hall => by
    obtain ⟨hle, hstop⟩ : start ≤ stop ∧ stop ≤ current.length := hall _ List.mem_cons_self
    have hrest := putRanges_length_le h rest stop fun r hr => hall r (List.mem_cons_of_mem _ hr)
    have hskip : (putVarU64 (start - previousEnd)).length ≤ 4 := putVarU64_small (by omega) h
    have hsize : (putVarU64 (stop - start)).length ≤ 4 := putVarU64_small (by omega) h
    simp only [putRanges, List.length_append, List.length_cons, List.map_cons, List.sum_cons,
      slice_length_of_le hstop]
    omega

theorem changedRanges_total (previous current : Bytes) (maxGap i : Nat) :
    ((changedRanges previous current maxGap i).map fun r => r.2 - r.1).sum ≤
      current.length - i := by
  fun_induction changedRanges previous current maxGap i with
  | case1 i hlt heq ih => omega
  | case2 i hlt hne ih =>
    have hscan := rangeScan_bounds previous current maxGap (i + 1) i (by omega) hlt
    simp only [List.map_cons, List.sum_cons]
    omega
  | case3 i hge => simp

theorem encodeRanges_length_le (previous : Bytes) {current : Bytes} (maxGap : Nat)
    (h : current.length < 2 ^ 28) :
    (encodeRanges previous current maxGap).length ≤ 9 + 9 * current.length := by
  have hcount : (changedRanges previous current maxGap 0).length ≤ current.length :=
    changedRanges_length_le previous current maxGap 0
  have hlen := putVarU64_small (Nat.le_refl _) h
  have hranges := putVarU64_small hcount h
  have hall := putRanges_length_le h (changedRanges previous current maxGap 0) 0 fun r hr => by
    have := changedRanges_mem hr
    omega
  have htotal : _ ≤ current.length := changedRanges_total previous current maxGap 0
  simp only [encodeRanges, List.length_cons, List.length_append]
  omega

theorem encodeXor_length_le {previous current : Bytes} (hsame : previous.length = current.length)
    (h : current.length < 2 ^ 28) : (encodeXor previous current).length ≤ 5 + current.length := by
  have hlen := putVarU64_small (Nat.le_refl _) h
  simp only [encodeXor, List.length_cons, List.length_append, xorBytes_length hsame]
  omega

theorem encodeSplice_length_le (previous : Bytes) {current : Bytes} (h : current.length < 2 ^ 28) :
    (encodeSplice previous current).length ≤ 17 + current.length := by
  obtain ⟨-, hfit⟩ := splice_bounds previous current
  have hmiddle : (slice current (splicePrefix previous current)
      (current.length - spliceSuffix previous current)).length ≤ current.length := by
    rw [slice_length_of_le (Nat.sub_le _ _)]
    omega
  have hlen := putVarU64_small (Nat.le_refl _) h
  have hpre : (putVarU64 (splicePrefix previous current)).length ≤ 4 :=
    putVarU64_small (by omega) h
  have hsuf : (putVarU64 (spliceSuffix previous current)).length ≤ 4 :=
    putVarU64_small (by omega) h
  have hsize := putVarU64_small hmiddle h
  simp only [encodeSplice, List.length_cons, List.length_append]
  omega

theorem putChunks_length_le {len : Nat} (hlen : len < 2 ^ 28) :
    ∀ (changed : List (Nat × Bytes)) (n previousChunk : Nat),
      (∀ c ∈ changed, c.1 ≤ len ∧ c.2.length ≤ len) →
      (putChunks n previousChunk changed).length ≤
        8 * changed.length + (changed.map fun c => c.2.length).sum
  | [], _, _, _ => by simp [putChunks]
  | (chunk, data) :: rest, n, previousChunk, h => by
    obtain ⟨hchunk, hdata⟩ : chunk ≤ len ∧ data.length ≤ len := h _ List.mem_cons_self
    have hfirst := putVarU64_small ((indexDelta_le n previousChunk chunk).trans hchunk) hlen
    have hsize := putVarU64_small hdata hlen
    have hrest := putChunks_length_le hlen rest (n + 1) chunk
      fun c hc => h c (List.mem_cons_of_mem _ hc)
    simp only [putChunks, List.length_append, List.length_cons, List.map_cons, List.sum_cons]
    omega

/-- The listed chunks do not overlap. -/
theorem changedChunks_total (previous current : Bytes) (chunkSize k : Nat) :
    (((List.range k).filterMap (changedChunk previous current chunkSize)).map
      fun c => c.2.length).sum ≤ min (k * chunkSize) current.length := by
  induction k with
  | zero => simp
  | succ k ih =>
    rw [List.range_succ, List.filterMap_append, List.map_append, List.sum_append, Nat.succ_mul]
    rcases changedChunk_cases previous current chunkSize k with hlisted | ⟨hnone, -⟩
    · rw [List.filterMap_cons_some hlisted]
      simp only [List.filterMap_nil, List.map_cons, List.map_nil, List.sum_cons, List.sum_nil,
        chunkOf_length]
      omega
    · rw [List.filterMap_cons_none hnone]
      simp only [List.filterMap_nil, List.map_nil, List.sum_nil]
      omega

theorem encodeChunks_length_le (previous : Bytes) {current : Bytes} {chunkSize : Nat}
    (hpos : 0 < chunkSize) (hsize : chunkSize < 2 ^ 64) (h : current.length < 2 ^ 28) :
    (encodeChunks previous current chunkSize).length ≤ 19 + 9 * current.length := by
  have hcount := changedChunks_length_le previous current hpos
  have hlen := putVarU64_small (Nat.le_refl _) h
  have hchunk : (putVarU64 chunkSize).length ≤ 10 :=
    putVarU64_length_le (by omega) (hsize.trans (by decide))
  have hchanged := putVarU64_small hcount h
  have hall := putChunks_length_le h (changedChunks previous current chunkSize) 0 0 fun c hc => by
    obtain ⟨hinside, hdata⟩ := changedChunks_mem hpos hc
    rw [hdata, chunkOf_length]
    have := Nat.le_mul_of_pos_right c.1 hpos
    omega
  have htotal : ((changedChunks previous current chunkSize).map fun c => c.2.length).sum ≤ _ :=
    changedChunks_total previous current chunkSize (chunkCount current.length chunkSize)
  simp only [encodeChunks, List.length_cons, List.length_append]
  omega

/-! ## All of them -/

/-- **No candidate is long**: nine bytes for each byte of the state, and nineteen. -/
theorem encodeCandidates_length_le {previous current : Bytes} {policy : SmartDeltaPolicy}
    {c : SmartDeltaCandidate} (hc : c ∈ encodeCandidates previous current policy)
    (h : current.length < 2 ^ 28) : c.payload.length ≤ 19 + 9 * current.length := by
  obtain ⟨hsame, hpayload⟩ := encodeCandidates_mem.mp hc
  have hchunk := policy.chunkSize.toNat_lt
  rw [hpayload]
  cases hkind : c.kind with
  | sparse => exact (encodeSparse_length_le previous h).trans (by omega)
  | ranges => exact (encodeRanges_length_le previous _ h).trans (by omega)
  | xor => exact (encodeXor_length_le (hsame (by rw [hkind]; rfl)) h).trans (by omega)
  | splice => exact (encodeSplice_length_le previous h).trans (by omega)
  | chunks => exact encodeChunks_length_le previous (by omega) (by omega) h

/-- A state whose deltas are all within the limits of a receiver. -/
def Small (state : Slice) : Prop := 19 + 9 * state.bytes.length ≤ MAX_LOGICAL_PAYLOAD

theorem Small.lt {state : Slice} (h : Small state) : state.bytes.length < 2 ^ 28 := by
  have hmax : MAX_LOGICAL_PAYLOAD < 2 ^ 28 := by decide
  unfold Small at h
  omega

theorem Small.le {state : Slice} (h : Small state) :
    state.bytes.length ≤ MAX_LOGICAL_PAYLOAD := by
  unfold Small at h
  omega

theorem Small.deltasFit {current : Slice} (h : Small current) (X : Crates)
    (policy : SmartDeltaPolicy) (previous : Slice) : DeltasFit X policy previous current := by
  intro candidate hcandidate hover
  have hlen := encodeCandidates_length_le hcandidate h.lt
  unfold Small at h
  omega

/-- **In-order convergence of small states.**  Up to seven mebibytes, whatever either encoder is
    given is applied as it was encoded, whatever its policy and whatever it has learned. -/
theorem in_order_converges_small {X : Crates} (hc : X.CompressTotal) (hX : X.ZstdExact)
    {schemaName : String} {pub : BytePublisher} (hfresh : pub.Fresh schemaName)
    {states : List Slice}
    (hsmall : ∀ state ∈ states, 19 + 9 * state.bytes.length ≤ MAX_LOGICAL_PAYLOAD)
    (hnum : states.length < 2 ^ 64 - 1) :
    deliverInOrder X pub (ByteStateDecoder.new schemaName) states = allApplied 0 states := by
  have hle : ∀ state ∈ states, state.bytes.length ≤ MAX_LOGICAL_PAYLOAD :=
    fun state hs => Small.le (hsmall state hs)
  have hfit : states.IsChain (DeltasFit X pub.smartDelta) :=
    (List.pairwise_of_forall_mem_list fun previous _ state hs =>
      Small.deltasFit (hsmall state hs) X pub.smartDelta previous).isChain
  have hnever : NeverOversized X pub states := hfresh.neverOversized hc hle hnum hfit
  exact (hfresh.deliverInOrder_iff hc hX hle hnum).mpr hnever

/-- Two small states, stored uncompressed, by the fast encoder. -/
theorem in_order_converges_small_fast :
    deliverInOrder Crates.stored (.fast (.withPolicy "doc" .default)) (.new "doc")
        [⟨[7, 9], by decide⟩, ⟨[7, 8], by decide⟩] =
      allApplied 0 [⟨[7, 9], by decide⟩, ⟨[7, 8], by decide⟩] :=
  in_order_converges_small Crates.stored_total Crates.stored_exact (.fast _)
    (by simp [MAX_LOGICAL_PAYLOAD]) (by simp)

end DeltaStream
