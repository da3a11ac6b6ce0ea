import DeltaStream.SmartDeltaExact

/-!
# Partial repair

Model of `src/partial_repair.rs`: two states are compared chunk by chunk through the hashes of
their chunks, and a repair carries the authoritative chunks that differ.

* `PartialRepair.build_patches` — a repair's patches are the authoritative chunks of the indices
  where the manifests differ;
* `PartialRepair.apply_build` — it restores the authoritative state from every base that has the
  other chunks already;
* `partial_repair_exact` — so from the receiver's state, when no hash collides, and from the
  authoritative state; and no repair yields anything but a state with its length and hash.
-/

set_option autoImplicit false

namespace DeltaStream

open Overlay

structure ChunkManifest where
  stateLen : Nat
  chunkSize : Nat
  hashes : List UInt64
  deriving DecidableEq

namespace ChunkManifest

/-- `state.chunks(chunk_size)`. -/
def chunks (state : Bytes) (chunkSize : Nat) : List Bytes :=
  (List.range (chunkCount state.length chunkSize)).map (chunkOf state chunkSize)

def build (state : Slice) (chunkSize : Nat) : ChunkManifest :=
  let chunkSize := max chunkSize 1
  ⟨state.bytes.length, chunkSize, (chunks state.bytes chunkSize).map fnv1a64⟩

def differingChunks (m other : ChunkManifest) : List Nat :=
  (List.range (max m.hashes.length other.hashes.length)).filter fun i =>
    decide (m.hashes[i]? ≠ other.hashes[i]?)

end ChunkManifest

structure ChunkPatch where
  index : Nat
  bytes : Bytes
  deriving DecidableEq

structure PartialRepair where
  targetLen : Nat
  chunkSize : Nat
  targetHash : UInt64
  patches : List ChunkPatch
  deriving DecidableEq

namespace PartialRepair

/-- One differing chunk, unless its start overflows. -/
def patchOf (authoritative : Slice) (chunkSize index : Nat) : Option ChunkPatch :=
  let start := index * chunkSize
  if start > USIZE_MAX then none
  else if start ≥ authoritative.bytes.length then some ⟨index, []⟩
  else some ⟨index,
    slice authoritative.bytes start (min (start + chunkSize) authoritative.bytes.length)⟩

def build (receiverState authoritative : Slice) (chunkSize : Nat) : PartialRepair :=
  let chunkSize := max chunkSize 1
  let receiver := ChunkManifest.build receiverState chunkSize
  let target := ChunkManifest.build authoritative chunkSize
  { targetLen := authoritative.bytes.length
    chunkSize := chunkSize
    targetHash := fnv1a64 authoritative.bytes
    patches := (receiver.differingChunks target).filterMap (patchOf authoritative chunkSize) }

/-- The body of the loop of `apply`. -/
def writePatch (chunkSize : Nat) (out : Bytes) (patch : ChunkPatch) : Except DeltaError Bytes :=
  let start := patch.index * chunkSize
  if start > USIZE_MAX then .error (.invalidState "chunk index overflow")
  else if patch.bytes = [] ∧ start ≥ out.length then .ok out
  else if start + patch.bytes.length > USIZE_MAX then
    .error (.invalidState "chunk length overflow")
  else if start + patch.bytes.length > out.length then
    .error (.invalidPacket "partial repair chunk out of bounds")
  else .ok (overlay out start patch.bytes)

def writePatches (chunkSize : Nat) (out : Bytes) : List ChunkPatch → Except DeltaError Bytes
  | [] => .ok out
  | patch :: rest =>
    match writePatch chunkSize out patch with
    | .error e => .error e
    | .ok out => writePatches chunkSize out rest

def apply (r : PartialRepair) (base : Bytes) : Except DeltaError Bytes :=
  match writePatches r.chunkSize (resizeZero base r.targetLen) r.patches with
  | .error e => .error e
  | .ok out =>
    if fnv1a64 out ≠ r.targetHash then .error (.invalidState "partial repair hash mismatch")
    else .ok out

def payloadBytes (r : PartialRepair) : Nat := (r.patches.map fun p => p.bytes.length).sum

/-! ## Manifests -/

theorem chunkOf_eq_nil {state : Bytes} {chunkSize index : Nat}
    (h : state.length ≤ index * chunkSize) : chunkOf state chunkSize index = [] := by
  refine List.eq_nil_of_length_eq_zero ?_
  rw [chunkOf_length]
  omega

theorem hashes_get (state : Slice) {chunkSize : Nat} (hpos : 0 < chunkSize) (index : Nat) :
    (ChunkManifest.build state chunkSize).hashes[index]? =
      if index * chunkSize < state.bytes.length then
        some (fnv1a64 (chunkOf state.bytes chunkSize index))
      else none := by
  have hsize : max chunkSize 1 = chunkSize := by omega
  unfold ChunkManifest.build ChunkManifest.chunks
  rw [hsize, List.getElem?_map, List.getElem?_map]
  split
  · rename_i hlt
    rw [List.getElem?_range ((lt_chunkCount_iff hpos).mpr hlt)]
    rfl
  · rename_i hge
    have hcount : chunkCount state.bytes.length chunkSize ≤ index :=
      Nat.le_of_not_lt fun hlt => hge ((lt_chunkCount_iff hpos).mp hlt)
    rw [List.getElem?_eq_none (by rw [List.length_range]; exact hcount)]
    rfl

theorem hashes_length (state : Slice) {chunkSize : Nat} (hpos : 0 < chunkSize) :
    (ChunkManifest.build state chunkSize).hashes.length =
      chunkCount state.bytes.length chunkSize := by
  have hsize : max chunkSize 1 = chunkSize := by omega
  unfold ChunkManifest.build ChunkManifest.chunks
  rw [hsize, List.length_map, List.length_map, List.length_range]

/-- A differing chunk starts inside one of the states. -/
theorem differing_lt {a b : Slice} {chunkSize index : Nat} (hpos : 0 < chunkSize)
    (h : index ∈ (ChunkManifest.build a chunkSize).differingChunks
      (ChunkManifest.build b chunkSize)) :
    index * chunkSize < max a.bytes.length b.bytes.length := by
  have hmem := List.mem_range.mp (List.mem_filter.mp h).1
  rw [hashes_length a hpos, hashes_length b hpos] at hmem
  rcases lt_max_iff.mp hmem with hlt | hlt
  · exact Nat.lt_of_lt_of_le ((lt_chunkCount_iff hpos).mp hlt) (Nat.le_max_left _ _)
  · exact Nat.lt_of_lt_of_le ((lt_chunkCount_iff hpos).mp hlt) (Nat.le_max_right _ _)

/-- A chunk of `b` that is not listed has the same hash in `a`, which has that chunk too. -/
theorem same_hash {a b : Slice} {chunkSize index : Nat} (hpos : 0 < chunkSize)
    (hlt : index * chunkSize < b.bytes.length)
    (h : index ∉ (ChunkManifest.build a chunkSize).differingChunks
      (ChunkManifest.build b chunkSize)) :
    index * chunkSize < a.bytes.length ∧
      fnv1a64 (chunkOf a.bytes chunkSize index) = fnv1a64 (chunkOf b.bytes chunkSize index) := by
  have hsame : (ChunkManifest.build a chunkSize).hashes[index]? =
      (ChunkManifest.build b chunkSize).hashes[index]? := by
    refine Classical.byContradiction fun hne => h (List.mem_filter.mpr ⟨?_, decide_eq_true hne⟩)
    rw [List.mem_range, hashes_length a hpos, hashes_length b hpos]
    exact Nat.lt_of_lt_of_le ((lt_chunkCount_iff hpos).mpr hlt) (Nat.le_max_right _ _)
  rw [hashes_get a hpos, hashes_get b hpos, if_pos hlt] at hsame
  split at hsame
  · rename_i ha
    exact ⟨ha, Option.some.inj hsame⟩
  · cases hsame

/-! ## Repairs -/

theorem patchOf_eq {authoritative : Slice} {chunkSize index : Nat}
    (h : index * chunkSize ≤ USIZE_MAX) :
    patchOf authoritative chunkSize index =
      some ⟨index, chunkOf authoritative.bytes chunkSize index⟩ := by
  unfold patchOf
  simp only
  rw [if_neg (by omega)]
  split
  · rename_i hge
    rw [chunkOf_eq_nil hge]
  · rfl

/-- The end of a chunk is computed without overflow. -/
theorem chunk_end_fits {state : Slice} {chunkSize index : Nat} (hsize : chunkSize ≤ USIZE_MAX)
    (h : index * chunkSize < state.bytes.length) : index * chunkSize + chunkSize ≤ USIZE_MAX := by
  have hlen := state.length_le
  have hmax : ISIZE_MAX + ISIZE_MAX ≤ USIZE_MAX := by decide
  cases index with
  | zero => omega
  | succ index =>
    rw [Nat.succ_mul] at h ⊢
    omega

theorem filterMap_eq_map_of {α β : Type} {f : α → Option β} {g : α → β} : ∀ {l : List α},
    (∀ a ∈ l, f a = some (g a)) → l.filterMap f = l.map g
  | [], _ => rfl
  | a :: l, h => by
    obtain ⟨ha, hrest⟩ := List.forall_mem_cons.mp h
    rw [List.filterMap_cons_some ha, List.map_cons, filterMap_eq_map_of hrest]

/-- **The patches** are the authoritative chunks of the differing indices. -/
theorem build_patches (receiver authoritative : Slice) (chunkSize : Nat) :
    (build receiver authoritative chunkSize).patches =
      ((ChunkManifest.build receiver (max chunkSize 1)).differingChunks
        (ChunkManifest.build authoritative (max chunkSize 1))).map fun index =>
          ⟨index, chunkOf authoritative.bytes (max chunkSize 1) index⟩ := by
  have hpos : 0 < max chunkSize 1 := by omega
  have hmax : ISIZE_MAX ≤ USIZE_MAX := by decide
  have hr := receiver.length_le
  have ha := authoritative.length_le
  refine filterMap_eq_map_of fun index hindex => ?_
  have hlt := differing_lt hpos hindex
  exact patchOf_eq (by omega)

/-- The patches that write something. -/
def written (authoritative : Bytes) (chunkSize : Nat) (indices : List Nat) : List (Nat × Bytes) :=
  (indices.filter fun index => decide (index * chunkSize < authoritative.length)).map fun index =>
    chunkPatch chunkSize (index, chunkOf authoritative chunkSize index)

theorem writePatches_chunks {authoritative : Slice} {chunkSize : Nat} : ∀ {indices : List Nat},
    (∀ index ∈ indices, index * chunkSize ≤ USIZE_MAX) → ∀ {out : Bytes},
    out.length = authoritative.bytes.length →
    writePatches chunkSize out
        (indices.map fun index => ⟨index, chunkOf authoritative.bytes chunkSize index⟩) =
      .ok (overlayAll out (written authoritative.bytes chunkSize indices))
  | [], _, _, _ => rfl
  | index :: indices, hfits, out, hlen => by
    obtain ⟨hindex, hrest⟩ := List.forall_mem_cons.mp hfits
    have hmax : ISIZE_MAX ≤ USIZE_MAX := by decide
    have hslice := authoritative.length_le
    have hchunk := chunkOf_length authoritative.bytes chunkSize index
    rw [List.map_cons]
    unfold writePatches writePatch
    simp only
    rw [if_neg (by omega)]
    by_cases hin : index * chunkSize < authoritative.bytes.length
    · have hwritten : written authoritative.bytes chunkSize (index :: indices) =
          chunkPatch chunkSize (index, chunkOf authoritative.bytes chunkSize index) ::
            written authoritative.bytes chunkSize indices := by
        simp [written, hin]
      have hfit : index * chunkSize + (chunkOf authoritative.bytes chunkSize index).length ≤
          out.length := by omega
      rw [if_neg (by omega), if_neg (by omega), if_neg (by omega), hwritten]
      exact writePatches_chunks hrest (by rw [overlay_length hfit, hlen])
    · -- a chunk behind the end is empty and skipped
      have hwritten : written authoritative.bytes chunkSize (index :: indices) =
          written authoritative.bytes chunkSize indices := by
        simp [written, hin]
      have hnil := chunkOf_eq_nil (Nat.le_of_not_lt hin)
      rw [if_pos ⟨hnil, by omega⟩, hwritten]
      exact writePatches_chunks hrest hlen

/-- What `apply` returns has the target's hash. -/
theorem apply_eq_ok {r : PartialRepair} {base out : Bytes} :
    r.apply base = .ok out ↔
      writePatches r.chunkSize (resizeZero base r.targetLen) r.patches = .ok out ∧
        fnv1a64 out = r.targetHash := by
  unfold apply
  cases writePatches r.chunkSize (resizeZero base r.targetLen) r.patches with
  | error e => simp
  | ok written =>
    simp only
    split
    · rename_i hne
      constructor
      · intro h
        cases h
      · rintro ⟨h, hhash⟩
        cases h
        exact absurd hhash hne
    · rename_i heq
      constructor
      · intro h
        cases h
        exact ⟨rfl, not_not.mp heq⟩
      · rintro ⟨h, -⟩
        exact h

/-- **A repair restores** the authoritative state from a base that has its other chunks. -/
theorem apply_build {receiver authoritative : Slice} {chunkSize : Nat} {base : Bytes}
    (hbase : ∀ i, i < authoritative.bytes.length →
      i / max chunkSize 1 ∉ (ChunkManifest.build receiver (max chunkSize 1)).differingChunks
        (ChunkManifest.build authoritative (max chunkSize 1)) →
      base[i]? = authoritative.bytes[i]?) :
    (build receiver authoritative chunkSize).apply base = .ok authoritative.bytes := by
  have hpos : 0 < max chunkSize 1 := by omega
  have hmax : ISIZE_MAX ≤ USIZE_MAX := by decide
  have hr := receiver.length_le
  have ha := authoritative.length_le
  refine apply_eq_ok.mpr ⟨?_, rfl⟩
  rw [build_patches]
  have hfits : ∀ index ∈ (ChunkManifest.build receiver (max chunkSize 1)).differingChunks
      (ChunkManifest.build authoritative (max chunkSize 1)),
      index * max chunkSize 1 ≤ USIZE_MAX := by
    intro index hindex
    have hlt := differing_lt hpos hindex
    omega
  have hlen := resizeZero_length base authoritative.bytes.length
  refine (writePatches_chunks hfits hlen).trans (congrArg Except.ok ?_)
  refine foldl_overlay_eq (fun p hp => ?_) hlen fun i hi => ?_
  · obtain ⟨index, hindex, rfl⟩ := List.mem_map.mp hp
    have hlt : index * max chunkSize 1 < authoritative.bytes.length :=
      of_decide_eq_true (List.mem_filter.mp hindex).2
    simp only [chunkPatch, chunkOf]
    exact quotes_slice (by omega) (Nat.min_le_right _ _)
  · have hilt : i < authoritative.bytes.length := by
      refine Classical.byContradiction fun hge => hi ?_
      rw [List.getElem?_eq_none (by omega), List.getElem?_eq_none (by omega)]
    have hdiv := Nat.div_mul_le_self i (max chunkSize 1)
    have hmod := Nat.div_add_mod i (max chunkSize 1)
    have hrem := Nat.mod_lt i hpos
    rw [Nat.mul_comm] at hmod
    -- a position where the base is wrong lies in a chunk that differs
    have hdiffers : i / max chunkSize 1 ∈
        (ChunkManifest.build receiver (max chunkSize 1)).differingChunks
          (ChunkManifest.build authoritative (max chunkSize 1)) := by
      refine Classical.byContradiction fun hnot => hi ?_
      have hget := hbase i hilt hnot
      have hin : i < base.length := by
        refine Classical.byContradiction fun hge => ?_
        rw [List.getElem?_eq_none (Nat.le_of_not_lt hge), List.getElem?_eq_getElem hilt] at hget
        cases hget
      rw [resizeZero_getElem? hin hilt, hget]
    refine ⟨_, List.mem_map_of_mem (List.mem_filter.mpr ⟨hdiffers, decide_eq_true ?_⟩), ?_⟩
    · omega
    · simp only [Covers, chunkPatch, chunkOf_length]
      omega

/-- No two different chunks of one index have the same hash. -/
def NoCollision (a b : Bytes) (chunkSize : Nat) : Prop :=
  ∀ index, index * chunkSize < a.length → index * chunkSize < b.length →
    fnv1a64 (chunkOf a chunkSize index) = fnv1a64 (chunkOf b chunkSize index) →
      chunkOf a chunkSize index = chunkOf b chunkSize index

/-- Where the chunks are the same, the bytes are. -/
theorem getElem?_of_chunkOf {a b : Bytes} {chunkSize i : Nat} (hpos : 0 < chunkSize)
    (hi : i < b.length)
    (h : chunkOf a chunkSize (i / chunkSize) = chunkOf b chunkSize (i / chunkSize)) :
    a[i]? = b[i]? := by
  have hdiv := Nat.div_mul_le_self i chunkSize
  have hmod := Nat.div_add_mod i chunkSize
  have hrem := Nat.mod_lt i hpos
  rw [Nat.mul_comm] at hmod
  have hlen := congrArg List.length h
  rw [chunkOf_length, chunkOf_length] at hlen
  generalize hstart : i / chunkSize * chunkSize = start at hdiv hmod hlen
  have hget : (chunkOf a chunkSize (i / chunkSize))[i - start]? =
      (chunkOf b chunkSize (i / chunkSize))[i - start]? := by rw [h]
  unfold chunkOf at hget
  rw [hstart] at hget
  have hback : start + (i - start) = i := by omega
  rw [slice_getElem? _ _ _ _ (by omega), slice_getElem? _ _ _ _ (by omega), hback] at hget
  exact hget

/-- When no hash collides, the repair takes the receiver's state to the authoritative one. -/
theorem apply_receiver {receiver authoritative : Slice} {chunkSize : Nat}
    (hclean : NoCollision receiver.bytes authoritative.bytes (max chunkSize 1)) :
    (build receiver authoritative chunkSize).apply receiver.bytes = .ok authoritative.bytes := by
  have hpos : 0 < max chunkSize 1 := by omega
  refine apply_build fun i hi hnot => ?_
  have hstart : i / max chunkSize 1 * max chunkSize 1 < authoritative.bytes.length :=
    Nat.lt_of_le_of_lt (Nat.div_mul_le_self _ _) hi
  obtain ⟨hin, hhash⟩ := same_hash hpos hstart hnot
  exact getElem?_of_chunkOf hpos hi (hclean _ hin hstart hhash)

/-! ## Payload -/

/-- The first chunks together are no longer than the state. -/
theorem chunks_length (state : Bytes) (chunkSize : Nat) : ∀ count : Nat,
    (((List.range count).map fun index => (chunkOf state chunkSize index).length)).sum =
      min (count * chunkSize) state.length
  | 0 => by simp
  | count + 1 => by
    rw [List.range_succ, List.map_append, List.sum_append, chunks_length state chunkSize count,
      Nat.succ_mul]
    simp only [List.map_cons, List.map_nil, List.sum_cons, List.sum_nil, chunkOf_length]
    omega

theorem sum_map_filter_le {α : Type} (f : α → Nat) (keep : α → Bool) : ∀ l : List α,
    ((l.filter keep).map f).sum ≤ (l.map f).sum
  | [] => Nat.le_refl _
  | a :: l => by
    have ih := sum_map_filter_le f keep l
    rw [List.filter_cons]
    split
    · simp only [List.map_cons, List.sum_cons]
      omega
    · simp only [List.map_cons, List.sum_cons]
      omega

theorem payloadBytes_le (receiver authoritative : Slice) (chunkSize : Nat) :
    (build receiver authoritative chunkSize).payloadBytes ≤ authoritative.bytes.length := by
  unfold payloadBytes
  rw [build_patches, List.map_map]
  unfold ChunkManifest.differingChunks
  refine Nat.le_trans (sum_map_filter_le _ _ _) ?_
  exact Nat.le_trans (Nat.le_of_eq (chunks_length authoritative.bytes (max chunkSize 1) _))
    (Nat.min_le_right _ _)

/-! ## Length -/

theorem writePatch_length {chunkSize : Nat} {out next : Bytes} {patch : ChunkPatch}
    (h : writePatch chunkSize out patch = .ok next) : next.length = out.length := by
  unfold writePatch at h
  simp only at h
  split at h
  · cases h
  split at h
  · cases h
    rfl
  split at h
  · cases h
  split at h
  · cases h
  · rename_i hin
    cases h
    exact overlay_length (Nat.le_of_not_lt hin)

theorem writePatches_length {chunkSize : Nat} : ∀ {patches : List ChunkPatch} {out next : Bytes},
    writePatches chunkSize out patches = .ok next → next.length = out.length
  | [], out, next, h => by
    cases h
    rfl
  | patch :: rest, out, next, h => by
    unfold writePatches at h
    cases hw : writePatch chunkSize out patch with
    | error e =>
      rw [hw] at h
      cases h
    | ok mid =>
      rw [hw] at h
      exact (writePatches_length h).trans (writePatch_length hw)

/-- **Whatever a repair yields** has the target's length and hash. -/
theorem apply_sound {r : PartialRepair} {base out : Bytes} (h : r.apply base = .ok out) :
    out.length = r.targetLen ∧ fnv1a64 out = r.targetHash := by
  obtain ⟨hwritten, hhash⟩ := apply_eq_ok.mp h
  rw [writePatches_length hwritten, resizeZero_length]
  exact ⟨rfl, hhash⟩

/-- **Partial repair is exact.**  When no hash collides, the repair takes the receiver's state to
    the authoritative one; it takes the authoritative one to itself, and carries no more payload
    than that; and whatever any repair makes of any base has the target's length and hash. -/
theorem partial_repair_exact (receiver authoritative : Slice) (chunkSize : Usize) :
    (NoCollision receiver.bytes authoritative.bytes (max chunkSize.toNat 1) →
      (build receiver authoritative chunkSize.toNat).apply receiver.bytes =
        .ok authoritative.bytes) ∧
    (build receiver authoritative chunkSize.toNat).apply authoritative.bytes =
      .ok authoritative.bytes ∧
    (build receiver authoritative chunkSize.toNat).payloadBytes ≤ authoritative.bytes.length ∧
    ∀ (r : PartialRepair) (base out : Bytes), r.apply base = .ok out →
      out.length = r.targetLen ∧ fnv1a64 out = r.targetHash := by
  have hpos : 0 < max chunkSize.toNat 1 := by omega
  refine ⟨fun hclean => apply_build fun i hi hnot => ?_, apply_build fun i _ _ => rfl,
    payloadBytes_le _ _ _, fun r base out h => apply_sound h⟩
  have hstart : i / max chunkSize.toNat 1 * max chunkSize.toNat 1 < authoritative.bytes.length :=
    Nat.lt_of_le_of_lt (Nat.div_mul_le_self _ _) hi
  obtain ⟨hin, hhash⟩ := same_hash hpos hstart hnot
  exact getElem?_of_chunkOf hpos hi (hclean _ hin hstart hhash)

/-- Growing behind a partial chunk. -/
theorem partial_repair_exact_growth :
    (build ⟨[1, 2, 3], by decide⟩ ⟨[1, 2, 4, 5, 6], by decide⟩ 2).apply [1, 2, 3] =
      .ok [1, 2, 4, 5, 6] := by
  refine (partial_repair_exact ⟨[1, 2, 3], by decide⟩ ⟨[1, 2, 4, 5, 6], by decide⟩ 2).1 ?_
  have hchunks : ∀ index < 2, fnv1a64 (chunkOf [1, 2, 3] 2 index) =
      fnv1a64 (chunkOf [1, 2, 4, 5, 6] 2 index) →
        chunkOf [1, 2, 3] 2 index = chunkOf [1, 2, 4, 5, 6] 2 index := by
    decide
  intro index hlt _
  have hlt : index * 2 < 3 := hlt
  exact hchunks index (by omega)

end PartialRepair

end DeltaStream
