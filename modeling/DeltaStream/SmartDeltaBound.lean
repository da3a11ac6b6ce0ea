import DeltaStream.ByteReplica

/-!
# How large a reconstructed state can be

What `smart_delta::apply` makes of an untrusted payload.  Sparse, range and xor deltas keep the
length of the base and a splice is cut out of base and payload; a chunks delta declares the
length of its state, and `apply_chunks` resizes the base to it before any entry is read.

* `applySparse_length`, `applyRanges_length`, `applyXor_length`, `applySplice_length` — the four
  formats whose result is bounded by base and payload;
* `applyChunks_ok`, `applyChunks_of_entries` — the chunks format accepts exactly the payloads
  whose entries fit the declared length, and the state then has that length;
* `encodeCandidates_bounded` — what the encoder writes is bounded;
* `reconstruction_bounded_iff` — reconstruction is bounded exactly when no oversized length is
  declared.
-/

set_option autoImplicit false

namespace DeltaStream

open ByteReader Overlay

/-! ## Formats bounded by base and payload -/

theorem applySparseLoop_length :
    ∀ {remaining n previousIndex pos last : Nat} {out result bytes : Bytes},
      applySparseLoop remaining n previousIndex out bytes pos = .ok (result, last) →
        result.length = out.length
  | 0, n, previousIndex, pos, last, out, result, bytes, h => by
    obtain ⟨rfl, -⟩ := pure_eq_ok.mp h
    rfl
  | remaining + 1, n, previousIndex, pos, last, out, result, bytes, h => by
    obtain ⟨delta, _, -, h⟩ := bind_eq_ok.mp h
    obtain ⟨index, _, -, h⟩ := bind_eq_ok.mp h
    obtain ⟨value, _, -, h⟩ := bind_eq_ok.mp h
    obtain ⟨_, _, -, h⟩ := bind_eq_ok.mp h
    rw [applySparseLoop_length h, List.length_set]

theorem applySparse_length {base bytes out : Bytes} (h : applySparse base bytes = .ok out) :
    out.length = base.length := by
  obtain ⟨_, h⟩ := run_eq_ok.mp h
  obtain ⟨newLen, _, -, h⟩ := bind_eq_ok.mp h
  obtain ⟨_, _, -, h⟩ := bind_eq_ok.mp h
  obtain ⟨count, _, -, h⟩ := bind_eq_ok.mp h
  obtain ⟨result, _, hloop, h⟩ := bind_eq_ok.mp h
  obtain ⟨_, _, -, h⟩ := bind_eq_ok.mp h
  obtain ⟨rfl, -⟩ := pure_eq_ok.mp h
  exact applySparseLoop_length hloop

theorem applyRangesLoop_length :
    ∀ {remaining previousEnd pos last : Nat} {out result bytes : Bytes},
      applyRangesLoop remaining previousEnd out bytes pos = .ok (result, last) →
        result.length = out.length
  | 0, previousEnd, pos, last, out, result, bytes, h => by
    obtain ⟨rfl, -⟩ := pure_eq_ok.mp h
    rfl
  | remaining + 1, previousEnd, pos, last, out, result, bytes, h => by
    obtain ⟨gap, _, -, h⟩ := bind_eq_ok.mp h
    obtain ⟨len, _, -, h⟩ := bind_eq_ok.mp h
    obtain ⟨_, _, -, h⟩ := bind_eq_ok.mp h
    obtain ⟨_, _, -, h⟩ := bind_eq_ok.mp h
    obtain ⟨src, _, htake, h⟩ := bind_eq_ok.mp h
    obtain ⟨_, _, hfits, h⟩ := bind_eq_ok.mp h
    have hsrc := (take_eq_ok htake).2.1
    have hfits := of_decide_eq_true (require_eq_ok.mp hfits).1
    rw [applyRangesLoop_length h, overlay_length (by omega)]

theorem applyRanges_length {base bytes out : Bytes} (h : applyRanges base bytes = .ok out) :
    out.length = base.length := by
  obtain ⟨_, h⟩ := run_eq_ok.mp h
  obtain ⟨newLen, _, -, h⟩ := bind_eq_ok.mp h
  obtain ⟨_, _, -, h⟩ := bind_eq_ok.mp h
  obtain ⟨count, _, -, h⟩ := bind_eq_ok.mp h
  obtain ⟨result, _, hloop, h⟩ := bind_eq_ok.mp h
  obtain ⟨_, _, -, h⟩ := bind_eq_ok.mp h
  obtain ⟨rfl, -⟩ := pure_eq_ok.mp h
  exact applyRangesLoop_length hloop

theorem applyXor_length {base bytes out : Bytes} (h : applyXor base bytes = .ok out) :
    out.length ≤ base.length := by
  obtain ⟨_, h⟩ := run_eq_ok.mp h
  obtain ⟨len, _, -, h⟩ := bind_eq_ok.mp h
  obtain ⟨left, _, -, h⟩ := bind_eq_ok.mp h
  obtain ⟨_, _, -, h⟩ := bind_eq_ok.mp h
  obtain ⟨src, _, -, h⟩ := bind_eq_ok.mp h
  obtain ⟨rfl, -⟩ := pure_eq_ok.mp h
  unfold xorBytes
  rw [List.length_zipWith]
  exact Nat.min_le_left _ _

theorem applySplice_length {base bytes out : Bytes} (h : applySplice base bytes = .ok out) :
    out.length ≤ base.length + bytes.length := by
  obtain ⟨_, h⟩ := run_eq_ok.mp h
  obtain ⟨newLen, _, -, h⟩ := bind_eq_ok.mp h
  obtain ⟨pre, _, -, h⟩ := bind_eq_ok.mp h
  obtain ⟨suf, _, -, h⟩ := bind_eq_ok.mp h
  obtain ⟨middleLen, _, -, h⟩ := bind_eq_ok.mp h
  obtain ⟨_, _, hbounds, h⟩ := bind_eq_ok.mp h
  obtain ⟨middle, _, hmiddle, h⟩ := bind_eq_ok.mp h
  obtain ⟨_, _, -, h⟩ := bind_eq_ok.mp h
  obtain ⟨_, _, -, h⟩ := bind_eq_ok.mp h
  obtain ⟨_, _, -, h⟩ := bind_eq_ok.mp h
  obtain ⟨rfl, -⟩ := pure_eq_ok.mp h
  have hbounds := of_decide_eq_true (require_eq_ok.mp hbounds).1
  obtain ⟨hend, hmid, -⟩ := take_eq_ok hmiddle
  simp only [List.length_append, List.length_take, List.length_drop]
  omega

/-! ## The chunks format without the bytes it writes -/

structure ChunksHeader where
  newLen : Nat
  chunkSize : Nat
  count : Nat
  deriving DecidableEq

/-- What `apply_chunks` reads before it resizes the base. -/
def readChunksHeader : ByteReader DeltaError ChunksHeader := do
  let newLen ← readVarU64
  let chunkSize ← readVarU64
  require (chunkSize ≠ 0) (.invalidPacket "zero chunk size")
  let count ← readVarU64
  pure ⟨newLen, chunkSize, count⟩

/-- One round of its loop: a chunk number and the bytes to write there. -/
def readChunkEntry (chunkSize newLen n previousChunk : Nat) :
    ByteReader DeltaError (Nat × Bytes) := do
  let delta ← readVarU64
  let chunk ← addIndexDelta n previousChunk delta "chunk index overflow"
  let len ← readVarU64
  require (chunk * chunkSize ≤ USIZE_MAX) (.invalidPacket "chunk offset overflow")
  require (chunk * chunkSize + len ≤ USIZE_MAX) (.invalidPacket "chunk length overflow")
  let src ← take USIZE_MAX len (.invalidPacket "chunk payload overflow")
    (.invalidPacket "truncated chunk payload")
  require (chunk * chunkSize + len ≤ newLen) (.invalidPacket "chunk out of bounds")
  pure (chunk, src)

/-- All rounds, without writing. -/
def chunkEntries (chunkSize newLen : Nat) :
    (remaining n previousChunk : Nat) → ByteReader DeltaError Unit
  | 0, _, _ => pure ()
  | remaining + 1, n, previousChunk => do
    let entry ← readChunkEntry chunkSize newLen n previousChunk
    chunkEntries chunkSize newLen remaining (n + 1) entry.1

theorem applyChunksLoop_succ (chunkSize remaining n previousChunk : Nat) (out : Bytes) :
    applyChunksLoop chunkSize (remaining + 1) n previousChunk out =
      (readChunkEntry chunkSize out.length n previousChunk >>= fun entry =>
        applyChunksLoop chunkSize remaining (n + 1) entry.1
          (overlay out (entry.1 * chunkSize) entry.2)) := by
  simp only [applyChunksLoop, readChunkEntry, bind_assoc, pure_bind]

/-- An entry that is read fits the state. -/
theorem readChunkEntry_fits {chunkSize newLen n previousChunk pos last : Nat} {bytes : Bytes}
    {entry : Nat × Bytes}
    (h : readChunkEntry chunkSize newLen n previousChunk bytes pos = .ok (entry, last)) :
    entry.1 * chunkSize + entry.2.length ≤ newLen := by
  obtain ⟨delta, _, -, h⟩ := bind_eq_ok.mp h
  obtain ⟨chunk, _, -, h⟩ := bind_eq_ok.mp h
  obtain ⟨len, _, -, h⟩ := bind_eq_ok.mp h
  obtain ⟨_, _, -, h⟩ := bind_eq_ok.mp h
  obtain ⟨_, _, -, h⟩ := bind_eq_ok.mp h
  obtain ⟨src, _, hsrc, h⟩ := bind_eq_ok.mp h
  obtain ⟨_, _, hfits, h⟩ := bind_eq_ok.mp h
  obtain ⟨rfl, -⟩ := pure_eq_ok.mp h
  have hfits := of_decide_eq_true (require_eq_ok.mp hfits).1
  rw [(take_eq_ok hsrc).2.1]
  exact hfits

theorem applyChunksLoop_ok {chunkSize : Nat} :
    ∀ {remaining n previousChunk pos last : Nat} {out result bytes : Bytes},
      applyChunksLoop chunkSize remaining n previousChunk out bytes pos = .ok (result, last) →
        result.length = out.length ∧
          chunkEntries chunkSize out.length remaining n previousChunk bytes pos = .ok ((), last)
  | 0, n, previousChunk, pos, last, out, result, bytes, h => by
    obtain ⟨rfl, rfl⟩ := pure_eq_ok.mp h
    exact ⟨rfl, rfl⟩
  | remaining + 1, n, previousChunk, pos, last, out, result, bytes, h => by
    rw [applyChunksLoop_succ] at h
    obtain ⟨entry, next, hentry, h⟩ := bind_eq_ok.mp h
    obtain ⟨hlen, hrest⟩ := applyChunksLoop_ok h
    rw [overlay_length (readChunkEntry_fits hentry)] at hlen hrest
    exact ⟨hlen, bind_eq_ok.mpr ⟨entry, next, hentry, hrest⟩⟩

theorem applyChunksLoop_of_entries {chunkSize : Nat} :
    ∀ {remaining n previousChunk pos last : Nat} (out : Bytes) {bytes : Bytes},
      chunkEntries chunkSize out.length remaining n previousChunk bytes pos = .ok ((), last) →
        ∃ result,
          applyChunksLoop chunkSize remaining n previousChunk out bytes pos = .ok (result, last)
  | 0, n, previousChunk, pos, last, out, bytes, h => by
    obtain ⟨-, rfl⟩ := pure_eq_ok.mp h
    exact ⟨out, rfl⟩
  | remaining + 1, n, previousChunk, pos, last, out, bytes, h => by
    obtain ⟨entry, next, hentry, h⟩ := bind_eq_ok.mp h
    have hlen : (overlay out (entry.1 * chunkSize) entry.2).length = out.length :=
      overlay_length (readChunkEntry_fits hentry)
    rw [← hlen] at h
    obtain ⟨result, hresult⟩ := applyChunksLoop_of_entries _ h
    rw [applyChunksLoop_succ]
    exact ⟨result, bind_eq_ok.mpr ⟨entry, next, hentry, hresult⟩⟩

/-- The entries fit the declared length and end the payload. -/
def chunksBody (header : ChunksHeader) : ByteReader DeltaError Unit := do
  chunkEntries header.chunkSize header.newLen header.count 0 0
  ensureConsumed

theorem applyChunks_eq (base bytes : Bytes) :
    applyChunks base bytes = ByteReader.run (readChunksHeader >>= fun header => do
      let out ← applyChunksLoop header.chunkSize header.count 0 0
        (resizeZero base header.newLen)
      ensureConsumed
      pure out) bytes := by
  simp only [applyChunks, readChunksHeader, bind_assoc, pure_bind]

/-- **An accepted chunks delta** has entries that fit, and gives a state of the declared
    length. -/
theorem applyChunks_ok {base bytes out : Bytes} (h : applyChunks base bytes = .ok out) :
    ∃ header pos last, readChunksHeader bytes 0 = .ok (header, pos) ∧
      chunksBody header bytes pos = .ok ((), last) ∧ out.length = header.newLen := by
  rw [applyChunks_eq] at h
  obtain ⟨_, h⟩ := run_eq_ok.mp h
  obtain ⟨header, pos, hheader, h⟩ := bind_eq_ok.mp h
  obtain ⟨result, next, hloop, h⟩ := bind_eq_ok.mp h
  obtain ⟨_, last, hend, h⟩ := bind_eq_ok.mp h
  obtain ⟨rfl, -⟩ := pure_eq_ok.mp h
  obtain ⟨hlen, hentries⟩ := applyChunksLoop_ok hloop
  rw [resizeZero_length] at hlen hentries
  exact ⟨header, pos, last, hheader, bind_eq_ok.mpr ⟨(), next, hentries, hend⟩, hlen⟩

/-- And a payload with such entries is accepted, whatever the base. -/
theorem applyChunks_of_entries (base : Bytes) {bytes : Bytes} {header : ChunksHeader}
    {pos last : Nat} (hheader : readChunksHeader bytes 0 = .ok (header, pos))
    (hbody : chunksBody header bytes pos = .ok ((), last)) :
    ∃ out, applyChunks base bytes = .ok out := by
  obtain ⟨_, next, hentries, hend⟩ := bind_eq_ok.mp hbody
  rw [← resizeZero_length base header.newLen] at hentries
  obtain ⟨out, hout⟩ := applyChunksLoop_of_entries _ hentries
  rw [applyChunks_eq]
  refine ⟨out, run_eq_ok.mpr ⟨last, bind_eq_ok.mpr ⟨header, pos, hheader, ?_⟩⟩⟩
  exact bind_eq_ok.mpr ⟨out, next, hout, bind_eq_ok.mpr ⟨(), last, hend, rfl⟩⟩

/-! ## Bounded reconstruction -/

/-- The length `out.resize(new_len, 0)` is called with, when `apply` gets there. -/
def resizedTo (payload : Bytes) : Option Nat :=
  match payload with
  | [] => none
  | tag :: bytes =>
    if tag = TAG_CHUNKS then
      match readChunksHeader bytes 0 with
      | .error _ => none
      | .ok (header, _) => some header.newLen
    else none

/-- The resize panics with a capacity overflow: a vector holds at most `isize::MAX` bytes. -/
def resizeOverflows (payload : Bytes) : Prop := ∃ n, resizedTo payload = some n ∧ ISIZE_MAX < n

/-- The call returns, with an error or with a state no longer than base and payload. -/
structure Bounded (base payload : Bytes) : Prop where
  allocates : ¬resizeOverflows payload
  length : ∀ out, applyDelta base payload = .ok out → out.length ≤ base.length + payload.length

/-- The length the state of a chunks delta gets, unless its entries are refused. -/
def chunksLength (payload : Bytes) : Option Nat :=
  match payload with
  | [] => none
  | tag :: bytes =>
    if tag = TAG_CHUNKS then
      match readChunksHeader bytes 0 with
      | .error _ => none
      | .ok (header, pos) =>
        -- the resize comes first: behind a panic nothing is refused any more
        if ISIZE_MAX < header.newLen then some header.newLen
        else
          match chunksBody header bytes pos with
          | .error _ => none
          | .ok _ => some header.newLen
    else none

theorem chunksLength_of_body {bytes : Bytes} {header : ChunksHeader} {pos last : Nat}
    (hheader : readChunksHeader bytes 0 = .ok (header, pos))
    (hbody : chunksBody header bytes pos = .ok ((), last)) :
    chunksLength (TAG_CHUNKS :: bytes) = some header.newLen := by
  simp [chunksLength, hheader, hbody]

theorem chunksLength_of_overflow {payload : Bytes} {n : Nat} (h : resizedTo payload = some n)
    (hn : ISIZE_MAX < n) : chunksLength payload = some n := by
  cases payload with
  | nil => cases h
  | cons tag bytes =>
    by_cases htag : tag = TAG_CHUNKS
    · subst htag
      cases hheader : readChunksHeader bytes 0 with
      | error e => simp [resizedTo, hheader] at h
      | ok read =>
        simp only [resizedTo, hheader, if_true, Option.some.injEq] at h
        simp only [chunksLength, hheader, if_true, h, hn]
    · simp [resizedTo, htag] at h

/-- What the declared length means: the resize overflows, or the state has that length. -/
theorem chunksLength_some {payload : Bytes} {n : Nat} (h : chunksLength payload = some n) :
    resizedTo payload = some n ∧
      (n ≤ ISIZE_MAX → ∀ base, ∃ out, applyDelta base payload = .ok out ∧ out.length = n) := by
  unfold chunksLength at h
  split at h
  · cases h
  rename_i tag bytes
  split at h
  · rename_i htag
    subst htag
    cases hheader : readChunksHeader bytes 0 with
    | error e =>
      rw [hheader] at h
      cases h
    | ok read =>
      obtain ⟨header, pos⟩ := read
      rw [hheader] at h
      simp only at h
      split at h
      · rename_i hover
        cases h
        exact ⟨by simp [resizedTo, hheader], fun hle => absurd hle (by omega)⟩
      · cases hbody : chunksBody header bytes pos with
        | error e =>
          rw [hbody] at h
          cases h
        | ok read =>
          obtain ⟨_, last⟩ := read
          rw [hbody] at h
          cases h
          refine ⟨by simp [resizedTo, hheader], fun _ base => ?_⟩
          obtain ⟨out, hout⟩ := applyChunks_of_entries base hheader hbody
          obtain ⟨header', pos', last', hheader', -, hlen⟩ := applyChunks_ok hout
          rw [hheader] at hheader'
          cases hheader'
          exact ⟨out, hout, hlen⟩
  · cases h

/-- An accepted payload either is a chunks delta, with its declared length, or is bounded. -/
theorem applyDelta_length {base payload out : Bytes} (h : applyDelta base payload = .ok out) :
    chunksLength payload = some out.length ∨ out.length ≤ base.length + payload.length := by
  unfold applyDelta at h
  split at h
  · cases h
  rename_i tag bytes
  rw [List.length_cons]
  split at h
  · have := applySparse_length h
    omega
  split at h
  · have := applyRanges_length h
    omega
  split at h
  · have := applyXor_length h
    omega
  split at h
  · have := applySplice_length h
    omega
  split at h
  · rename_i htag
    subst htag
    obtain ⟨header, pos, last, hheader, hbody, hlen⟩ := applyChunks_ok h
    left
    rw [hlen]
    exact chunksLength_of_body hheader hbody
  · cases h

/-- The payload is not a chunks delta that is accepted with more than `limit` bytes. -/
def DeclaresAtMost (payload : Bytes) (limit : Nat) : Prop :=
  ∀ n, chunksLength payload = some n → n ≤ ISIZE_MAX ∧ n ≤ limit

theorem bounded_iff (base payload : Bytes) :
    Bounded base payload ↔ DeclaresAtMost payload (base.length + payload.length) := by
  constructor
  · intro h n hn
    obtain ⟨hresized, hstate⟩ := chunksLength_some hn
    have hle : n ≤ ISIZE_MAX := Nat.le_of_not_lt fun hlt => h.allocates ⟨n, hresized, hlt⟩
    obtain ⟨out, hout, hlen⟩ := hstate hle base
    have := h.length out hout
    exact ⟨hle, by omega⟩
  · intro h
    refine ⟨?_, fun out hout => ?_⟩
    · rintro ⟨n, hn, hlt⟩
      have := (h n (chunksLength_of_overflow hn hlt)).1
      omega
    · rcases applyDelta_length hout with hlen | hlen
      · exact (h _ hlen).2
      · exact hlen

/-! ## What the encoder writes -/

theorem putChunks_length :
    ∀ (changed : List (Nat × Bytes)) (n previousChunk : Nat),
      (changed.map fun c => c.2.length).sum ≤ (putChunks n previousChunk changed).length
  | [], _, _ => Nat.zero_le _
  | (chunk, data) :: rest, n, previousChunk => by
    have ih := putChunks_length rest (n + 1) chunk
    simp only [putChunks, List.map_cons, List.sum_cons, List.length_append]
    omega

/-- What `encode_chunks` lists for one chunk. -/
def changedChunk (previous current : Bytes) (chunkSize chunk : Nat) : Option (Nat × Bytes) :=
  if getRange previous (chunk * chunkSize)
      (min (chunk * chunkSize + chunkSize) current.length) ≠
      some (chunkOf current chunkSize chunk) then
    some (chunk, chunkOf current chunkSize chunk)
  else none

/-- A chunk is listed with its bytes, or lies inside the previous state. -/
theorem changedChunk_cases (previous current : Bytes) (chunkSize chunk : Nat) :
    changedChunk previous current chunkSize chunk =
        some (chunk, chunkOf current chunkSize chunk) ∨
      changedChunk previous current chunkSize chunk = none ∧
        min (chunk * chunkSize + chunkSize) current.length ≤ previous.length := by
  unfold changedChunk
  split
  · exact .inl rfl
  · rename_i hsame
    have hsame := Decidable.not_not.mp hsame
    unfold getRange at hsame
    split at hsame
    · rename_i hinside
      exact .inr ⟨rfl, hinside.2⟩
    · cases hsame

/-- The first `k` chunks: what is not listed was there before. -/
theorem changedChunk_supply (previous current : Bytes) (chunkSize k : Nat) :
    min (k * chunkSize) current.length ≤ previous.length +
      (((List.range k).filterMap (changedChunk previous current chunkSize)).map
        fun c => c.2.length).sum := by
  induction k with
  | zero => omega
  | succ k ih =>
    rw [List.range_succ, List.filterMap_append, List.map_append, List.sum_append, Nat.succ_mul]
    rcases changedChunk_cases previous current chunkSize k with hlisted | ⟨-, hinside⟩
    · rw [List.filterMap_cons_some hlisted]
      simp only [List.filterMap_nil, List.map_cons, List.map_nil, List.sum_cons, List.sum_nil,
        chunkOf_length]
      omega
    · omega

/-- The listed chunks make up for what the previous state lacks. -/
theorem changedChunks_supply (previous current : Bytes) {chunkSize : Nat}
    (hpos : 0 < chunkSize) :
    current.length ≤ previous.length +
      ((changedChunks previous current chunkSize).map fun c => c.2.length).sum := by
  have hall := changedChunk_supply previous current chunkSize
    (chunkCount current.length chunkSize)
  have hend : ¬chunkCount current.length chunkSize * chunkSize < current.length :=
    fun hlt => absurd ((lt_chunkCount_iff hpos).mpr hlt) (Nat.lt_irrefl _)
  rw [Nat.min_eq_right (Nat.le_of_not_lt hend)] at hall
  exact hall

theorem resizedTo_encodeChunks (previous current : Bytes) {chunkSize : Nat}
    (hpos : 0 < chunkSize) (hsize : chunkSize < 2 ^ 64) (hmax : current.length < 2 ^ 64) :
    resizedTo (encodeChunks previous current chunkSize) = some current.length := by
  have hcount := Nat.lt_of_le_of_lt (changedChunks_length_le previous current hpos) hmax
  have hreads : Reads readChunksHeader
      (putVarU64 current.length ++ (putVarU64 chunkSize ++
        putVarU64 (changedChunks previous current chunkSize).length))
      ⟨current.length, chunkSize, (changedChunks previous current chunkSize).length⟩ := by
    refine (readVarU64_reads hmax).bind ((readVarU64_reads hsize).bind ?_)
    refine (Reads.require (decide_eq_true (by omega))).bind_nil ?_
    exact (readVarU64_reads hcount).map _
  have hread := hreads [] (putChunks 0 0 (changedChunks previous current chunkSize))
  simp only [List.nil_append, List.append_assoc, List.length_nil] at hread
  simp only [resizedTo, encodeChunks, if_true, hread]

/-- **What the encoder writes is bounded.** -/
theorem encodeCandidates_bounded {previous current : Slice} {policy : SmartDeltaPolicy}
    {c : SmartDeltaCandidate} (hc : c ∈ encodeCandidates previous.bytes current.bytes policy) :
    Bounded previous.bytes c.payload := by
  have hexact := encodeCandidates_exact current.length_lt hc
  have hsize := policy.chunkSize.toNat_lt
  have hlen := current.length_le
  obtain ⟨hsame, hpay⟩ := encodeCandidates_mem.mp hc
  have hresized : resizedTo c.payload = none ∨ resizedTo c.payload = some current.bytes.length := by
    rw [hpay]
    cases c.kind with
    | sparse => exact .inl rfl
    | ranges => exact .inl rfl
    | xor => exact .inl rfl
    | splice => exact .inl rfl
    | chunks =>
      exact .inr (resizedTo_encodeChunks _ _ (by omega) (by omega) current.length_lt)
  refine ⟨?_, fun out hout => ?_⟩
  · rintro ⟨n, hn, hlt⟩
    rcases hresized with h | h
    · rw [h] at hn
      cases hn
    · rw [h] at hn
      cases hn
      omega
  · rw [hexact] at hout
    cases hout
    rcases applyDelta_length hexact with hchunks | hle
    · -- only the chunks format declares a length
      have hkind : c.kind = .chunks := by
        rw [hpay] at hchunks
        revert hchunks
        cases c.kind <;> intro hchunks <;> first | rfl | cases hchunks
      rw [hpay, hkind]
      have hpos : 0 < max policy.chunkSize.toNat 1 := by omega
      have hsupply := changedChunks_supply previous.bytes current.bytes hpos
      have hput := putChunks_length (changedChunks previous.bytes current.bytes
        (max policy.chunkSize.toNat 1)) 0 0
      simp only [encodePayload, encodeChunks, List.length_cons, List.length_append]
      omega
    · exact hle

/-! ## The byte decoder -/

/-- A delta makes of the held state what `smart_delta::apply` makes of it. -/
theorem ByteStateDecoder.apply_delta {X : Crates} {d : ByteStateDecoder} {p : Packet}
    {base payload next : Bytes} {n : UInt64} (hkind : p.kind = .delta)
    (hbase : d.state = some base) (hpayload : p.logicalPayload X = .ok payload)
    (h : (d.apply X p).1 = .ok (.applied n next)) : applyDelta base payload = .ok next := by
  unfold ByteStateDecoder.apply at h
  split at h
  · cases h
  split at h
  · cases h
  simp only [hpayload, nextState, hkind, hbase] at h
  by_cases hsequence : d.sequence = some p.baseSequence
  · by_cases hhash : fnv1a64 base = p.baseHash
    · cases happly : applyDelta base payload with
      | error e => simp [hsequence, hhash, happly] at h
      | ok out =>
        simp only [hsequence, hhash, happly, ne_eq, not_true_eq_false, if_false] at h
        cases h
        rfl
    · simp [hsequence, hhash] at h
  · simp [hsequence] at h

/-- **Reconstruction from an untrusted delta is bounded exactly when it declares no oversized
    length**: then `apply` returns, and its state is no longer than base and payload.  What the
    encoder writes is bounded, and so is what the byte decoder builds from a delta. -/
theorem reconstruction_bounded_iff (base payload : Bytes) :
    (Bounded base payload ↔ DeclaresAtMost payload (base.length + payload.length)) ∧
      (∀ (previous current : Slice) (policy : SmartDeltaPolicy),
        ∀ c ∈ encodeCandidates previous.bytes current.bytes policy,
          Bounded previous.bytes c.payload) ∧
      (∀ (X : Crates) (d : ByteStateDecoder) (p : Packet) (n : UInt64) (next : Bytes),
        p.kind = .delta → d.state = some base → p.logicalPayload X = .ok payload →
          DeclaresAtMost payload (base.length + payload.length) →
            (d.apply X p).1 = .ok (.applied n next) →
              next.length ≤ base.length + payload.length) := by
  refine ⟨bounded_iff base payload, fun _ _ _ _ hc => encodeCandidates_bounded hc, ?_⟩
  intro X d p n next hkind hbase hpayload hdeclares hnext
  exact ((bounded_iff base payload).mpr hdeclares).length next
    (ByteStateDecoder.apply_delta hkind hbase hpayload hnext)

/-- The second state of a stream, a chunks delta for one changed byte. -/
theorem reconstruction_bounded_one_chunk :
    Bounded [1, 2] [5, 2, 1, 1, 1, 1, 3] ∧
      (∃ c ∈ encodeCandidates [1, 2] [1, 3] ⟨1, 0⟩, Bounded [1, 2] c.payload) ∧
      ([1, 3] : Bytes).length ≤ ([1, 2] : Bytes).length +
        ([5, 2, 1, 1, 1, 1, 3] : Bytes).length := by
  have hlength : chunksLength [5, 2, 1, 1, 1, 1, 3] = some 2 := by decide +kernel
  have hdeclares : DeclaresAtMost [5, 2, 1, 1, 1, 1, 3]
      (([1, 2] : Bytes).length + ([5, 2, 1, 1, 1, 1, 3] : Bytes).length) := by
    intro n hn
    rw [hlength] at hn
    cases hn
    decide
  have happly : ((⟨some 1, some [1, 2], 7⟩ : ByteStateDecoder).apply .stored
      (byteDelta 2 7 [1, 2] [5, 2, 1, 1, 1, 1, 3])).1 = .ok (.applied 2 [1, 3]) := by
    decide +kernel
  refine ⟨(reconstruction_bounded_iff [1, 2] [5, 2, 1, 1, 1, 1, 3]).1.mpr hdeclares, ?_, ?_⟩
  · exact ⟨⟨.splice, encodeSplice [1, 2] [1, 3]⟩, by simp [encodeCandidates],
      (reconstruction_bounded_iff [] []).2.1 ⟨[1, 2], by decide⟩ ⟨[1, 3], by decide⟩ ⟨1, 0⟩ _
        (by simp [encodeCandidates])⟩
  · exact (reconstruction_bounded_iff [1, 2] [5, 2, 1, 1, 1, 1, 3]).2.2 .stored
      ⟨some 1, some [1, 2], 7⟩ (byteDelta 2 7 [1, 2] [5, 2, 1, 1, 1, 1, 3]) 2 [1, 3]
      rfl rfl rfl hdeclares happly

/-- Eight bytes on an empty state: 4 GiB of zeros; and twelve bytes that make the resize
    overflow. -/
theorem reconstruction_unbounded :
    (∃ next, (((ByteStateDecoder.new "").apply .stored
          (byteSnapshot 1 (fnv1a64 (utf8 "")) [])).2.apply .stored
        (byteDelta 2 (fnv1a64 (utf8 "")) [] [5, 128, 128, 128, 128, 16, 1, 0])).1 =
          .ok (.applied 2 next) ∧ next.length = 2 ^ 32) ∧
      ¬Bounded [] [5, 128, 128, 128, 128, 16, 1, 0] ∧
      resizeOverflows [5, 128, 128, 128, 128, 128, 128, 128, 128, 128, 1, 1, 0] := by
  have hlength : chunksLength [5, 128, 128, 128, 128, 16, 1, 0] = some (2 ^ 32) := by
    decide +kernel
  have hresized : resizedTo [5, 128, 128, 128, 128, 128, 128, 128, 128, 128, 1, 1, 0] =
      some (2 ^ 63) := by decide +kernel
  obtain ⟨next, hnext, hlen⟩ := (chunksLength_some hlength).2 (by decide) []
  refine ⟨⟨next, ?_, hlen⟩, ?_, ⟨2 ^ 63, hresized, by decide⟩⟩
  · have hfirst : ((ByteStateDecoder.new "").apply .stored
        (byteSnapshot 1 (fnv1a64 (utf8 "")) [])).2 = ⟨some 1, some [], fnv1a64 (utf8 "")⟩ := by
      decide +kernel
    rw [hfirst]
    simp [ByteStateDecoder.apply, ByteStateDecoder.nextState, ByteStateDecoder.stale, byteDelta,
      Packet.delta, Packet.logicalPayload, Packet.logicalPayloadWithConfig, Packet.isCompressed,
      DecodeConfig.default, MAX_LOGICAL_PAYLOAD, hnext]
  · intro hbounded
    have := hbounded.length next hnext
    rw [hlen] at this
    exact absurd this (by decide)

end DeltaStream
