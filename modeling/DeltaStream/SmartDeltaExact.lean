import DeltaStream.SmartDelta

/-!
# Every smart delta strategy is exact

For each strategy, applying the encoded delta to the previous state gives the current state.
The readers of the three patch formats (sparse, ranges, chunks) are shown to write exactly
the patches the encoder listed (`applySparseLoop_reads`, `applyRangesLoop_reads`,
`applyChunksLoop_reads`); the patches quote the current state and cover every difference, so
`Overlay.foldl_overlay_eq` rebuilds it.

* `encodeCandidates_exact` — every candidate rebuilds the current state;
* `smart_delta_exact` — the same for all states and policies, with the kinds offered.
-/

set_option autoImplicit false

namespace DeltaStream

open ByteReader Overlay

theorem le_usizeMax {n : Nat} (h : n < 2 ^ 64) : n ≤ USIZE_MAX := Nat.le_sub_one_of_lt h

theorem readVarU64_reads {n : Nat} (h : n < 2 ^ 64) : Reads readVarU64 (putVarU64 n) n :=
  Leb128.decode_reads (by decide) h

theorem indexDelta_le (n previous index : Nat) : indexDelta n previous index ≤ index := by
  unfold indexDelta
  split <;> omega

theorem addIndexDelta_reads {n previous index : Nat} (overflow : String)
    (hge : previous ≤ index) (hmax : index < 2 ^ 64) :
    Reads (addIndexDelta n previous (indexDelta n previous index) overflow) [] index := by
  unfold addIndexDelta indexDelta
  by_cases hn : n = 0
  · simp only [hn, if_true]
    exact Reads.pure index
  · have hsum : previous + (index - previous) = index := by omega
    simp only [hn, if_false, hsum]
    rw [if_neg (by unfold USIZE_MAX; omega)]
    exact Reads.pure index

/-! ## Sparse -/

@[simp] theorem sparseChanges_nil_left (current : Bytes) (i : Nat) :
    sparseChanges [] current i = [] := by
  simp [sparseChanges]

@[simp] theorem sparseChanges_nil_right (previous : Bytes) (i : Nat) :
    sparseChanges previous [] i = [] := by
  simp [sparseChanges]

theorem sparseChanges_cons (a b : UInt8) (previous current : Bytes) (i : Nat) :
    sparseChanges (a :: previous) (b :: current) i =
      (if a ≠ b then [(i, b)] else []) ++ sparseChanges previous current (i + 1) := by
  unfold sparseChanges
  rw [List.zip_cons_cons, List.zipIdx_cons, List.filterMap_cons]
  by_cases h : a = b
  · simp [h]
  · simp [h]

theorem sparseChanges_mem {previous current : Bytes} {i : Nat} {c : Nat × UInt8}
    (h : c ∈ sparseChanges previous current i) :
    i ≤ c.1 ∧ c.1 - i < current.length ∧ current[c.1 - i]? = some c.2 := by
  induction previous generalizing current i with
  | nil => simp at h
  | cons a previous ih =>
    cases current with
    | nil => simp at h
    | cons b current =>
      rw [sparseChanges_cons, List.mem_append] at h
      rcases h with h | h
      · by_cases hab : a = b
        · simp [hab] at h
        · simp only [ne_eq, hab, not_false_eq_true, if_true, List.mem_singleton] at h
          subst h
          simp
      · obtain ⟨h1, h2, h3⟩ := ih h
        have hsub : c.1 - i = c.1 - (i + 1) + 1 := by omega
        refine ⟨by omega, ?_, ?_⟩
        · simp only [List.length_cons]
          omega
        · rw [hsub, List.getElem?_cons_succ]
          exact h3

theorem sparseChanges_sorted (previous current : Bytes) (i : Nat) :
    (sparseChanges previous current i).Pairwise (fun c d => c.1 < d.1) := by
  induction previous generalizing current i with
  | nil => simp
  | cons a previous ih =>
    cases current with
    | nil => simp
    | cons b current =>
      rw [sparseChanges_cons]
      by_cases hab : a = b
      · simpa [hab] using ih current (i + 1)
      · simp only [ne_eq, hab, not_false_eq_true, if_true, List.singleton_append,
          List.pairwise_cons]
        refine ⟨fun d hd => ?_, ih current (i + 1)⟩
        have := (sparseChanges_mem hd).1
        omega

theorem sparseChanges_covers {previous current : Bytes} {i j : Nat}
    (hlen : previous.length = current.length) (hne : previous[j]? ≠ current[j]?) :
    ∃ c ∈ sparseChanges previous current i, c.1 = i + j := by
  induction previous generalizing current i j with
  | nil =>
    cases current with
    | nil => simp at hne
    | cons b current => simp at hlen
  | cons a previous ih =>
    cases current with
    | nil => simp at hlen
    | cons b current =>
      rw [sparseChanges_cons]
      cases j with
      | zero =>
        have hab : a ≠ b := by simpa using hne
        exact ⟨(i, b), by simp [hab], rfl⟩
      | succ j =>
        obtain ⟨c, hc, hcj⟩ := ih (i := i + 1) (j := j) (by simpa using hlen) (by simpa using hne)
        exact ⟨c, List.mem_append_right _ hc, by omega⟩

theorem sparseChanges_length_le (previous current : Bytes) (i : Nat) :
    (sparseChanges previous current i).length ≤ current.length := by
  unfold sparseChanges
  refine Nat.le_trans (List.length_filterMap_le _ _) ?_
  rw [List.length_zipIdx, List.length_zip]
  omega

/-- A changed byte as a patch. -/
def bytePatch (c : Nat × UInt8) : Nat × Bytes := (c.1, [c.2])

theorem applySparseLoop_reads :
    ∀ (changes : List (Nat × UInt8)) (n previousIndex : Nat) (out : Bytes),
      changes.Pairwise (fun c d => c.1 < d.1) →
      (∀ c ∈ changes, previousIndex ≤ c.1 ∧ c.1 < out.length) → out.length < 2 ^ 64 →
      Reads (applySparseLoop changes.length n previousIndex out)
        (putSparse n previousIndex changes) (overlayAll out (changes.map bytePatch)) := by
  intro changes
  induction changes with
  | nil => intro n previousIndex out _ _ _; exact Reads.pure out
  | cons c rest ih =>
    obtain ⟨index, value⟩ := c
    intro n previousIndex out hsorted hin hlen
    obtain ⟨hhead, htail⟩ := List.pairwise_cons.mp hsorted
    obtain ⟨hge, hlt⟩ := hin (index, value) List.mem_cons_self
    simp only at hge hlt
    have hrest := ih (n + 1) index (out.set index value) htail
      (fun d hd => ⟨Nat.le_of_lt (hhead d hd), by
        rw [List.length_set]; exact (hin d (List.mem_cons_of_mem _ hd)).2⟩)
      (by rw [List.length_set]; exact hlen)
    rw [set_eq_overlay hlt] at hrest
    have hdelta := indexDelta_le n previousIndex index
    refine (readVarU64_reads (by omega)).bind ?_
    refine (addIndexDelta_reads _ hge (by omega)).bind_nil ?_
    refine (Reads.byte value _).bind ((Reads.require (by simpa using hlt)).bind_nil ?_)
    rw [set_eq_overlay hlt]
    exact hrest

theorem applySparse_encodeSparse {previous current : Bytes}
    (hlen : previous.length = current.length) (hmax : current.length < 2 ^ 64) :
    applyDelta previous (encodeSparse previous current) = .ok current := by
  have hmem := fun c (hc : c ∈ sparseChanges previous current 0) => sparseChanges_mem hc
  have hpatch : overlayAll previous ((sparseChanges previous current 0).map bytePatch) =
      current := by
    refine foldl_overlay_eq ?_ hlen ?_
    · intro p hp
      obtain ⟨c, hc, rfl⟩ := List.mem_map.mp hp
      obtain ⟨_, h2, h3⟩ := hmem c hc
      refine ⟨by simp only [bytePatch, List.length_singleton]; omega, fun i h4 h5 => ?_⟩
      simp only [bytePatch, List.length_singleton] at h4 h5 ⊢
      have hi : i = c.1 := by omega
      subst hi
      simpa using h3.symm
    · intro i hi
      obtain ⟨c, hc, hci⟩ := sparseChanges_covers (i := 0) hlen hi
      refine ⟨bytePatch c, List.mem_map_of_mem hc, ?_⟩
      simp only [Covers, bytePatch, List.length_singleton]
      omega
  have hloop := applySparseLoop_reads (sparseChanges previous current 0) 0 0 previous
    (sparseChanges_sorted previous current 0)
    (fun c hc => ⟨Nat.zero_le _, by have := (hmem c hc).2.1; omega⟩) (by omega)
  rw [hpatch] at hloop
  have hcount := Nat.lt_of_le_of_lt (sparseChanges_length_le previous current 0) hmax
  show applySparse previous _ = .ok current
  refine ReadsAll.run ((readVarU64_reads hmax).bindAll ?_)
  refine (Reads.require (by simp [hlen])).bindAll_nil ((readVarU64_reads hcount).bindAll ?_)
  refine ReadsAll.bind_nil hloop.all ?_
  exact ReadsAll.bind_nil (ReadsAll.finish _) (ReadsAll.pure current)

/-! ## Ranges -/

theorem changedRanges_mem {previous current : Bytes} {maxGap i : Nat} {r : Nat × Nat}
    (h : r ∈ changedRanges previous current maxGap i) :
    i ≤ r.1 ∧ r.1 < r.2 ∧ r.2 ≤ current.length := by
  fun_induction changedRanges previous current maxGap i with
  | case1 i hlt heq ih =>
    have := ih h
    omega
  | case2 i hlt hne ih =>
    have hscan := rangeScan_bounds previous current maxGap (i + 1) i (by omega) hlt
    rcases List.mem_cons.mp h with rfl | h
    · dsimp only
      omega
    · have := ih h
      omega
  | case3 i hge => cases h

theorem changedRanges_sorted (previous current : Bytes) (maxGap i : Nat) :
    (changedRanges previous current maxGap i).Pairwise (fun r q => r.2 ≤ q.1) := by
  fun_induction changedRanges previous current maxGap i with
  | case1 i hlt heq ih => exact ih
  | case2 i hlt hne ih =>
    exact List.pairwise_cons.mpr ⟨fun q hq => (changedRanges_mem hq).1, ih⟩
  | case3 i hge => exact List.Pairwise.nil

theorem changedRanges_covers {previous current : Bytes} {maxGap i j : Nat} (hij : i ≤ j)
    (hj : j < current.length) (hne : previous[j]? ≠ current[j]?) :
    ∃ r ∈ changedRanges previous current maxGap i, r.1 ≤ j ∧ j < r.2 := by
  fun_induction changedRanges previous current maxGap i with
  | case1 i hlt heq ih =>
    have hij' : i ≠ j := fun h => hne (h ▸ heq)
    exact ih (by omega)
  | case2 i hlt hne' ih =>
    by_cases hin : j < rangeScan previous current maxGap (i + 1) i + 1
    · exact ⟨_, List.mem_cons_self, hij, hin⟩
    · obtain ⟨r, hr, hcov⟩ := ih (by omega)
      exact ⟨r, List.mem_cons_of_mem _ hr, hcov⟩
  | case3 i hge => omega

theorem changedRanges_length_le (previous current : Bytes) (maxGap i : Nat) :
    (changedRanges previous current maxGap i).length ≤ current.length - i := by
  fun_induction changedRanges previous current maxGap i with
  | case1 i hlt heq ih => omega
  | case2 i hlt hne ih =>
    have hscan := rangeScan_bounds previous current maxGap (i + 1) i (by omega) hlt
    rw [List.length_cons]
    omega
  | case3 i hge => simp

/-- A changed range as a patch. -/
def rangePatch (current : Bytes) (r : Nat × Nat) : Nat × Bytes := (r.1, slice current r.1 r.2)

theorem applyRangesLoop_reads {current : Bytes} (hmax : current.length < 2 ^ 64) :
    ∀ (ranges : List (Nat × Nat)) (previousEnd : Nat) (out : Bytes),
      ranges.Pairwise (fun r q => r.2 ≤ q.1) →
      (∀ r ∈ ranges, previousEnd ≤ r.1 ∧ r.1 < r.2 ∧ r.2 ≤ current.length) →
      out.length = current.length →
      Reads (applyRangesLoop ranges.length previousEnd out)
        (putRanges current previousEnd ranges)
        (overlayAll out (ranges.map (rangePatch current))) := by
  intro ranges
  induction ranges with
  | nil => intro previousEnd out _ _ _; exact Reads.pure out
  | cons r rest ih =>
    obtain ⟨start, stop⟩ := r
    intro previousEnd out hsorted hin hlen
    obtain ⟨hhead, htail⟩ := List.pairwise_cons.mp hsorted
    obtain ⟨hge, hlt, hle⟩ := hin (start, stop) List.mem_cons_self
    simp only at hge hlt hle
    have hstart : previousEnd + (start - previousEnd) = start := by omega
    have hstop : start + (stop - start) = stop := by omega
    have hsrc : (slice current start stop).length = stop - start := slice_length_of_le hle
    have hrest := ih stop (overlay out start (slice current start stop)) htail
      (fun q hq => ⟨hhead q hq, (hin q (List.mem_cons_of_mem _ hq)).2⟩)
      (by rw [overlay_length (by rw [hsrc]; omega), hlen])
    refine (readVarU64_reads (by omega)).bind ((readVarU64_reads (by omega)).bind ?_)
    rw [hstart, hstop]
    refine (Reads.require (decide_eq_true (le_usizeMax (by omega)))).bind_nil ?_
    refine (Reads.require (decide_eq_true (le_usizeMax (by omega)))).bind_nil ?_
    refine (Reads.take _ hsrc).bind ?_
    exact (Reads.require (decide_eq_true (by omega))).bind_nil hrest

theorem applyRanges_encodeRanges {previous current : Bytes} (maxGap : Nat)
    (hlen : previous.length = current.length) (hmax : current.length < 2 ^ 64) :
    applyDelta previous (encodeRanges previous current maxGap) = .ok current := by
  have hmem := fun r (hr : r ∈ changedRanges previous current maxGap 0) => changedRanges_mem hr
  have hpatch : overlayAll previous
      ((changedRanges previous current maxGap 0).map (rangePatch current)) = current := by
    refine foldl_overlay_eq ?_ hlen ?_
    · intro p hp
      obtain ⟨r, hr, rfl⟩ := List.mem_map.mp hp
      obtain ⟨_, h2, h3⟩ := hmem r hr
      exact quotes_slice (Nat.le_of_lt h2) h3
    · intro i hi
      have hilt : i < current.length := by
        refine Classical.byContradiction fun hge => hi ?_
        rw [List.getElem?_eq_none (by omega), List.getElem?_eq_none (by omega)]
      obtain ⟨r, hr, h1, h2⟩ := changedRanges_covers (Nat.zero_le i) hilt hi
      refine ⟨rangePatch current r, List.mem_map_of_mem hr, h1, ?_⟩
      have := hmem r hr
      simp only [rangePatch, slice_length_of_le this.2.2]
      omega
  have hloop := applyRangesLoop_reads hmax (changedRanges previous current maxGap 0) 0 previous
    (changedRanges_sorted previous current maxGap 0)
    (fun r hr => ⟨Nat.zero_le _, (hmem r hr).2⟩) hlen
  rw [hpatch] at hloop
  have hcount := changedRanges_length_le previous current maxGap 0
  show applyRanges previous _ = .ok current
  refine ReadsAll.run ((readVarU64_reads hmax).bindAll ?_)
  refine (Reads.require (by simp [hlen])).bindAll_nil
    ((readVarU64_reads (by omega)).bindAll ?_)
  refine ReadsAll.bind_nil hloop.all ?_
  exact ReadsAll.bind_nil (ReadsAll.finish _) (ReadsAll.pure current)

/-! ## Xor -/

theorem xorBytes_length {a b : Bytes} (h : a.length = b.length) :
    (xorBytes a b).length = b.length := by
  simp [xorBytes, h]

/-- Xoring the difference onto the base gives the other side. -/
theorem xorBytes_xorBytes : ∀ {a b : Bytes}, a.length = b.length →
    xorBytes a (xorBytes a b) = b
  | [], [], _ => rfl
  | x :: a, y :: b, h => by
    have ih := xorBytes_xorBytes (a := a) (b := b) (by simpa using h)
    simp only [xorBytes, List.zipWith_cons_cons] at ih ⊢
    rw [ih, ← UInt8.xor_assoc, UInt8.xor_self, UInt8.zero_xor]

theorem readRest_reads (enc : Bytes) : ReadsAll readRest enc enc := by
  intro before
  simp [readRest]

theorem applyXor_encodeXor {previous current : Bytes}
    (hlen : previous.length = current.length) (hmax : current.length < 2 ^ 64) :
    applyDelta previous (encodeXor previous current) = .ok current := by
  have hx := xorBytes_length hlen
  show applyXor previous _ = .ok current
  refine ReadsAll.run ((readVarU64_reads hmax).bindAll (ReadsAll.remaining_bind ?_))
  rw [hx]
  refine (Reads.require (decide_eq_true ⟨hlen.symm, rfl⟩)).bindAll_nil ?_
  refine ReadsAll.bind_nil (readRest_reads _) ?_
  rw [xorBytes_xorBytes hlen]
  exact ReadsAll.pure current

/-! ## Splice -/

theorem prefixLoop_spec (previous current : Bytes) (maxPrefix k : Nat) (hk : k ≤ maxPrefix) :
    prefixLoop previous current maxPrefix k ≤ maxPrefix ∧
      ∀ j, k ≤ j → j < prefixLoop previous current maxPrefix k → previous[j]? = current[j]? := by
  fun_induction prefixLoop previous current maxPrefix k with
  | case1 k hcond ih =>
    obtain ⟨h1, h2⟩ := ih (by omega)
    refine ⟨h1, fun j hkj hj => ?_⟩
    rcases Nat.eq_or_lt_of_le hkj with rfl | hlt
    · exact hcond.2
    · exact h2 j hlt hj
  | case2 k hcond => exact ⟨hk, fun j hkj hj => by omega⟩

theorem suffixLoop_spec (previous current : Bytes) (maxSuffix k : Nat) (hk : k ≤ maxSuffix) :
    suffixLoop previous current maxSuffix k ≤ maxSuffix ∧
      ∀ j, k ≤ j → j < suffixLoop previous current maxSuffix k →
        previous[previous.length - 1 - j]? = current[current.length - 1 - j]? := by
  fun_induction suffixLoop previous current maxSuffix k with
  | case1 k hcond ih =>
    obtain ⟨h1, h2⟩ := ih (by omega)
    refine ⟨h1, fun j hkj hj => ?_⟩
    rcases Nat.eq_or_lt_of_le hkj with rfl | hlt
    · exact hcond.2
    · exact h2 j hlt hj
  | case2 k hcond => exact ⟨hk, fun j hkj hj => by omega⟩

theorem splice_bounds (previous current : Bytes) :
    splicePrefix previous current + spliceSuffix previous current ≤ previous.length ∧
      splicePrefix previous current + spliceSuffix previous current ≤ current.length := by
  have h1 := (prefixLoop_spec previous current (min previous.length current.length) 0
    (Nat.zero_le _)).1
  have h2 := (suffixLoop_spec previous current
    (min (previous.length - splicePrefix previous current)
      (current.length - splicePrefix previous current)) 0 (Nat.zero_le _)).1
  change splicePrefix previous current ≤ _ at h1
  change spliceSuffix previous current ≤ _ at h2
  omega

theorem splice_take (previous current : Bytes) :
    previous.take (splicePrefix previous current) =
      current.take (splicePrefix previous current) := by
  have hspec := (prefixLoop_spec previous current (min previous.length current.length) 0
    (Nat.zero_le _)).2
  apply List.ext_getElem?
  intro i
  by_cases hi : i < splicePrefix previous current
  · rw [List.getElem?_take_of_lt hi, List.getElem?_take_of_lt hi]
    exact hspec i (Nat.zero_le _) hi
  · have hb := splice_bounds previous current
    rw [List.getElem?_eq_none (by rw [List.length_take]; omega),
      List.getElem?_eq_none (by rw [List.length_take]; omega)]

theorem splice_drop (previous current : Bytes) :
    previous.drop (previous.length - spliceSuffix previous current) =
      current.drop (current.length - spliceSuffix previous current) := by
  have hspec := (suffixLoop_spec previous current
    (min (previous.length - splicePrefix previous current)
      (current.length - splicePrefix previous current)) 0 (Nat.zero_le _)).2
  have hb := splice_bounds previous current
  apply List.ext_getElem?
  intro i
  rw [List.getElem?_drop, List.getElem?_drop]
  by_cases hi : i < spliceSuffix previous current
  · have := hspec (spliceSuffix previous current - 1 - i) (Nat.zero_le _) (by
      show _ < spliceSuffix previous current
      omega)
    rw [show previous.length - 1 - (spliceSuffix previous current - 1 - i) =
        previous.length - spliceSuffix previous current + i by omega,
      show current.length - 1 - (spliceSuffix previous current - 1 - i) =
        current.length - spliceSuffix previous current + i by omega] at this
    exact this
  · rw [List.getElem?_eq_none (by omega), List.getElem?_eq_none (by omega)]

theorem applySplice_encodeSplice {previous current : Bytes} (hmax : current.length < 2 ^ 64) :
    applyDelta previous (encodeSplice previous current) = .ok current := by
  obtain ⟨hbp, hbc⟩ := splice_bounds previous current
  have htake := splice_take previous current
  have hdrop := splice_drop previous current
  generalize hp : splicePrefix previous current = pre at hbp hbc htake
  generalize hs : spliceSuffix previous current = suf at hbp hbc hdrop
  have hmid : (slice current pre (current.length - suf)).length = current.length - suf - pre :=
    slice_length_of_le (by omega)
  have hjoin : current.take pre ++ (slice current pre (current.length - suf) ++
      current.drop (current.length - suf)) = current := take_slice_drop current (by omega)
  show applySplice previous _ = .ok current
  simp only [hp, hs]
  refine ReadsAll.run ((readVarU64_reads hmax).bindAll ((readVarU64_reads (by omega)).bindAll
    ((readVarU64_reads (by omega)).bindAll ((readVarU64_reads (by omega)).bindAll ?_))))
  refine (Reads.require (decide_eq_true (by omega))).bindAll_nil ?_
  refine ReadsAll.bind_nil (Reads.take _ rfl).all ?_
  refine ReadsAll.bind_nil (ReadsAll.finish _) ?_
  refine (Reads.require (decide_eq_true ⟨le_usizeMax (by omega),
    le_usizeMax (by omega)⟩)).bindAll_nil ?_
  refine (Reads.require (decide_eq_true (by omega))).bindAll_nil ?_
  rw [htake, hdrop, hjoin]
  exact ReadsAll.pure current

/-! ## Chunks -/

theorem lt_chunkCount_iff {len chunkSize chunk : Nat} (hpos : 0 < chunkSize) :
    chunk < chunkCount len chunkSize ↔ chunk * chunkSize < len := by
  unfold chunkCount
  rw [← Nat.succ_le_iff, Nat.le_div_iff_mul_le hpos, Nat.succ_mul]
  omega

theorem chunkCount_le {len chunkSize : Nat} (hpos : 0 < chunkSize) :
    chunkCount len chunkSize ≤ len := by
  refine Nat.le_of_not_lt fun hlt => ?_
  have h1 := (lt_chunkCount_iff hpos).mp hlt
  have h2 : len * 1 ≤ len * chunkSize := Nat.mul_le_mul_left _ hpos
  omega

theorem changedChunks_mem {previous current : Bytes} {chunkSize : Nat} {c : Nat × Bytes}
    (hpos : 0 < chunkSize) (h : c ∈ changedChunks previous current chunkSize) :
    c.1 * chunkSize < current.length ∧ c.2 = chunkOf current chunkSize c.1 := by
  obtain ⟨chunk, hm, hc⟩ := List.mem_filterMap.mp h
  split at hc
  · cases hc
    exact ⟨(lt_chunkCount_iff hpos).mp (List.mem_range.mp hm), rfl⟩
  · cases hc

theorem changedChunks_sorted (previous current : Bytes) (chunkSize : Nat) :
    (changedChunks previous current chunkSize).Pairwise (fun c d => c.1 < d.1) := by
  refine List.Pairwise.filterMap _ ?_ List.pairwise_lt_range
  intro a b hab c hc d hd
  split at hc <;> cases hc
  split at hd <;> cases hd
  exact hab

theorem changedChunks_length_le (previous current : Bytes) {chunkSize : Nat}
    (hpos : 0 < chunkSize) :
    (changedChunks previous current chunkSize).length ≤ current.length := by
  refine Nat.le_trans (List.length_filterMap_le _ _) ?_
  rw [List.length_range]
  exact chunkCount_le hpos

theorem resizeZero_length (bytes : Bytes) (newLen : Nat) :
    (resizeZero bytes newLen).length = newLen := by
  simp only [resizeZero, List.length_append, List.length_take, List.length_replicate]
  omega

theorem resizeZero_getElem? {bytes : Bytes} {newLen i : Nat} (hi : i < bytes.length)
    (hn : i < newLen) : (resizeZero bytes newLen)[i]? = bytes[i]? := by
  rw [resizeZero, List.getElem?_append_left (by rw [List.length_take]; omega),
    List.getElem?_take_of_lt hn]

/-- A position whose chunk is not listed as changed is the same in both states. -/
theorem changedChunks_covers {previous current : Bytes} {chunkSize i : Nat}
    (hpos : 0 < chunkSize) (hi : i < current.length)
    (hne : (resizeZero previous current.length)[i]? ≠ current[i]?) :
    (i / chunkSize, chunkOf current chunkSize (i / chunkSize)) ∈
      changedChunks previous current chunkSize := by
  have hdiv := Nat.div_mul_le_self i chunkSize
  have hmod := Nat.div_add_mod i chunkSize
  have hrem := Nat.mod_lt i hpos
  rw [Nat.mul_comm] at hmod
  have hchunk : i / chunkSize < chunkCount current.length chunkSize :=
    (lt_chunkCount_iff hpos).mpr (by omega)
  refine List.mem_filterMap.mpr ⟨i / chunkSize, List.mem_range.mpr hchunk, ?_⟩
  generalize hstart : i / chunkSize * chunkSize = start at hdiv hmod
  rw [if_pos]
  intro hsame
  apply hne
  unfold getRange at hsame
  split at hsame
  · rename_i hbounds
    have hstop : i < min (start + chunkSize) current.length := by omega
    have hslice := Option.some.inj hsame
    unfold chunkOf at hslice
    rw [hstart] at hslice
    have hget : (slice previous start (min (start + chunkSize) current.length))[i - start]? =
        (slice current start (min (start + chunkSize) current.length))[i - start]? := by
      rw [hslice]
    rw [slice_getElem? _ _ _ _ (by omega), slice_getElem? _ _ _ _ (by omega),
      Nat.add_sub_cancel' hdiv] at hget
    rw [resizeZero_getElem? (by omega) hi, hget]
  · cases hsame

/-- A changed chunk as a patch. -/
def chunkPatch (chunkSize : Nat) (c : Nat × Bytes) : Nat × Bytes := (c.1 * chunkSize, c.2)

theorem chunkOf_length (current : Bytes) (chunkSize chunk : Nat) :
    (chunkOf current chunkSize chunk).length =
      min (chunk * chunkSize + chunkSize) current.length - chunk * chunkSize :=
  slice_length_of_le (Nat.min_le_right _ _)

theorem applyChunksLoop_reads {current : Bytes} {chunkSize : Nat} (hpos : 0 < chunkSize)
    (hmax : current.length < 2 ^ 64) :
    ∀ (changed : List (Nat × Bytes)) (n previousChunk : Nat) (out : Bytes),
      changed.Pairwise (fun c d => c.1 < d.1) →
      (∀ c ∈ changed, previousChunk ≤ c.1 ∧ c.1 * chunkSize < current.length ∧
        c.2 = chunkOf current chunkSize c.1) →
      out.length = current.length →
      Reads (applyChunksLoop chunkSize changed.length n previousChunk out)
        (putChunks n previousChunk changed)
        (overlayAll out (changed.map (chunkPatch chunkSize))) := by
  intro changed
  induction changed with
  | nil => intro n previousChunk out _ _ _; exact Reads.pure out
  | cons c rest ih =>
    obtain ⟨chunk, data⟩ := c
    intro n previousChunk out hsorted hin hlen
    obtain ⟨hhead, htail⟩ := List.pairwise_cons.mp hsorted
    obtain ⟨hge, hlt, hdata⟩ := hin (chunk, data) List.mem_cons_self
    simp only at hge hlt hdata
    have hdlen : data.length =
        min (chunk * chunkSize + chunkSize) current.length - chunk * chunkSize := by
      rw [hdata]
      exact chunkOf_length current chunkSize chunk
    have hchunk : chunk * 1 ≤ chunk * chunkSize := Nat.mul_le_mul_left _ hpos
    have hrest := ih (n + 1) chunk (overlay out (chunk * chunkSize) data) htail
      (fun d hd => ⟨Nat.le_of_lt (hhead d hd), (hin d (List.mem_cons_of_mem _ hd)).2⟩)
      (by rw [overlay_length (by omega), hlen])
    have hdelta := indexDelta_le n previousChunk chunk
    refine (readVarU64_reads (by omega)).bind ?_
    refine (addIndexDelta_reads _ hge (by omega)).bind_nil ?_
    refine (readVarU64_reads (by omega)).bind ?_
    refine (Reads.require (decide_eq_true (le_usizeMax (by omega)))).bind_nil ?_
    refine (Reads.require (decide_eq_true (le_usizeMax (by omega)))).bind_nil ?_
    refine (Reads.take _ rfl).bind ?_
    exact (Reads.require (decide_eq_true (by omega))).bind_nil hrest

theorem applyChunks_encodeChunks {previous current : Bytes} {chunkSize : Nat}
    (hpos : 0 < chunkSize) (hsize : chunkSize < 2 ^ 64) (hmax : current.length < 2 ^ 64) :
    applyDelta previous (encodeChunks previous current chunkSize) = .ok current := by
  have hmem := fun c (hc : c ∈ changedChunks previous current chunkSize) =>
    changedChunks_mem hpos hc
  have hpatch : overlayAll (resizeZero previous current.length)
      ((changedChunks previous current chunkSize).map (chunkPatch chunkSize)) = current := by
    refine foldl_overlay_eq ?_ (resizeZero_length _ _) ?_
    · intro p hp
      obtain ⟨c, hc, rfl⟩ := List.mem_map.mp hp
      obtain ⟨h1, h2⟩ := hmem c hc
      simp only [chunkPatch, h2]
      exact quotes_slice (by omega) (Nat.min_le_right _ _)
    · intro i hi
      have hilt : i < current.length := by
        refine Classical.byContradiction fun hge => hi ?_
        rw [List.getElem?_eq_none (by rw [resizeZero_length]; omega),
          List.getElem?_eq_none (by omega)]
      refine ⟨_, List.mem_map_of_mem (changedChunks_covers hpos hilt hi), ?_⟩
      have hdiv := Nat.div_mul_le_self i chunkSize
      have hmod := Nat.div_add_mod i chunkSize
      have hrem := Nat.mod_lt i hpos
      rw [Nat.mul_comm] at hmod
      simp only [Covers, chunkPatch, chunkOf_length]
      omega
  have hloop := applyChunksLoop_reads hpos hmax (changedChunks previous current chunkSize) 0 0
    (resizeZero previous current.length) (changedChunks_sorted previous current chunkSize)
    (fun c hc => ⟨Nat.zero_le _, hmem c hc⟩) (resizeZero_length _ _)
  rw [hpatch] at hloop
  have hcount := Nat.lt_of_le_of_lt (changedChunks_length_le previous current hpos) hmax
  show applyChunks previous _ = .ok current
  refine ReadsAll.run ((readVarU64_reads hmax).bindAll ((readVarU64_reads hsize).bindAll ?_))
  refine (Reads.require (decide_eq_true (by omega))).bindAll_nil
    ((readVarU64_reads hcount).bindAll ?_)
  refine ReadsAll.bind_nil hloop.all ?_
  exact ReadsAll.bind_nil (ReadsAll.finish _) (ReadsAll.pure current)

/-! ## All candidates -/

/-- The strategy a candidate of this kind is encoded with. -/
def encodePayload (kind : SmartDeltaKind) (previous current : Bytes)
    (policy : SmartDeltaPolicy) : Bytes :=
  match kind with
  | .sparse => encodeSparse previous current
  | .ranges => encodeRanges previous current policy.maxRangeGap.toNat
  | .xor => encodeXor previous current
  | .splice => encodeSplice previous current
  | .chunks => encodeChunks previous current (max policy.chunkSize.toNat 1)

/-- The kinds that need states of equal length. -/
def SmartDeltaKind.sameLength : SmartDeltaKind → Bool
  | .sparse | .ranges | .xor => true
  | .splice | .chunks => false

theorem encodeCandidates_mem {previous current : Bytes} {policy : SmartDeltaPolicy}
    {c : SmartDeltaCandidate} :
    c ∈ encodeCandidates previous current policy ↔
      (c.kind.sameLength = true → previous.length = current.length) ∧
        c.payload = encodePayload c.kind previous current policy := by
  obtain ⟨kind, payload⟩ := c
  unfold encodeCandidates
  by_cases hlen : previous.length = current.length <;>
    cases kind <;> simp [hlen, SmartDeltaKind.sameLength, encodePayload]

theorem encodeCandidate_ok {kind : SmartDeltaKind} {previous current : Bytes}
    {policy : SmartDeltaPolicy} {c : SmartDeltaCandidate} :
    encodeCandidate kind previous current policy = .ok c ↔
      c.kind = kind ∧ c ∈ encodeCandidates previous current policy := by
  obtain ⟨k, payload⟩ := c
  rw [encodeCandidates_mem]
  by_cases hlen : previous.length = current.length <;>
    cases kind <;> cases k <;>
    simp [encodeCandidate, hlen, SmartDeltaKind.sameLength, encodePayload, eq_comm]

/-- **Every candidate is exact**: applied to the previous state it gives the current one. -/
theorem encodeCandidates_exact {previous current : Bytes} {policy : SmartDeltaPolicy}
    (hmax : current.length < 2 ^ 64) {c : SmartDeltaCandidate}
    (hc : c ∈ encodeCandidates previous current policy) :
    applyDelta previous c.payload = .ok current := by
  obtain ⟨hlen, hpay⟩ := encodeCandidates_mem.mp hc
  rw [hpay]
  have hsize := policy.chunkSize.toNat_lt
  cases hk : c.kind with
  | sparse => exact applySparse_encodeSparse (hlen (by rw [hk]; rfl)) hmax
  | ranges => exact applyRanges_encodeRanges _ (hlen (by rw [hk]; rfl)) hmax
  | xor => exact applyXor_encodeXor (hlen (by rw [hk]; rfl)) hmax
  | splice => exact applySplice_encodeSplice hmax
  | chunks => exact applyChunks_encodeChunks (by omega) (by omega) hmax

/-- The tag byte says which strategy wrote the payload. -/
theorem deltaKind_encodePayload (kind : SmartDeltaKind) (previous current : Bytes)
    (policy : SmartDeltaPolicy) :
    deltaKind (encodePayload kind previous current policy) = .ok kind := by
  cases kind <;> rfl

theorem encodeCandidates_kind {previous current : Bytes} {policy : SmartDeltaPolicy}
    {c : SmartDeltaCandidate} (hc : c ∈ encodeCandidates previous current policy) :
    deltaKind c.payload = .ok c.kind := by
  rw [(encodeCandidates_mem.mp hc).2]
  exact deltaKind_encodePayload c.kind previous current policy

/-- A kind is offered exactly when it needs no equal lengths or the lengths are equal. -/
theorem encodeCandidates_offers {previous current : Bytes} (policy : SmartDeltaPolicy)
    {kind : SmartDeltaKind} :
    (∃ c ∈ encodeCandidates previous current policy, c.kind = kind) ↔
      (kind.sameLength = true → previous.length = current.length) := by
  constructor
  · rintro ⟨c, hc, rfl⟩
    exact (encodeCandidates_mem.mp hc).1
  · intro h
    exact ⟨⟨kind, encodePayload kind previous current policy⟩,
      encodeCandidates_mem.mpr ⟨h, rfl⟩, rfl⟩

/-- `encode_candidate` returns what `encode_candidates` lists for the kind. -/
theorem encodeCandidate_offers {previous current : Bytes} {policy : SmartDeltaPolicy}
    {kind : SmartDeltaKind} :
    (∃ c, encodeCandidate kind previous current policy = .ok c) ↔
      (kind.sameLength = true → previous.length = current.length) := by
  rw [← encodeCandidates_offers policy]
  constructor
  · rintro ⟨c, hc⟩
    obtain ⟨hkind, hmem⟩ := encodeCandidate_ok.mp hc
    exact ⟨c, hmem, hkind⟩
  · rintro ⟨c, hmem, hkind⟩
    exact ⟨c, encodeCandidate_ok.mpr ⟨hkind, hmem⟩⟩

/-- **Every smart delta strategy is exact**, whatever the states and the policy: candidates
    rebuild the current state and carry their kind, and the strategies for states of equal length
    are offered exactly for those. -/
theorem smart_delta_exact (previous current : Slice) (policy : SmartDeltaPolicy) :
    (∀ c ∈ encodeCandidates previous.bytes current.bytes policy,
        applyDelta previous.bytes c.payload = .ok current.bytes ∧
          deltaKind c.payload = .ok c.kind) ∧
      (∀ kind c, encodeCandidate kind previous.bytes current.bytes policy = .ok c →
        c.kind = kind ∧ applyDelta previous.bytes c.payload = .ok current.bytes ∧
          deltaKind c.payload = .ok kind) ∧
      (∀ kind : SmartDeltaKind, (kind = .sparse ∨ kind = .ranges ∨ kind = .xor) →
        ((∃ c ∈ encodeCandidates previous.bytes current.bytes policy, c.kind = kind) ↔
            previous.bytes.length = current.bytes.length) ∧
          ((∃ c, encodeCandidate kind previous.bytes current.bytes policy = .ok c) ↔
            previous.bytes.length = current.bytes.length)) ∧
      (∀ kind : SmartDeltaKind, (kind = .splice ∨ kind = .chunks) →
        ∃ c ∈ encodeCandidates previous.bytes current.bytes policy, c.kind = kind) := by
  refine ⟨?_, ?_, ?_, ?_⟩
  · intro c hc
    exact ⟨encodeCandidates_exact current.length_lt hc, encodeCandidates_kind hc⟩
  · intro kind c hc
    obtain ⟨rfl, hmem⟩ := encodeCandidate_ok.mp hc
    exact ⟨rfl, encodeCandidates_exact current.length_lt hmem, encodeCandidates_kind hmem⟩
  · intro kind hkind
    have hsame : kind.sameLength = true := by
      rcases hkind with rfl | rfl | rfl <;> rfl
    rw [encodeCandidates_offers, encodeCandidate_offers]
    simp [hsame]
  · intro kind hkind
    have hany : kind.sameLength ≠ true := by
      rcases hkind with rfl | rfl <;> decide
    exact (encodeCandidates_offers policy).mpr fun h => absurd h hany

/-- A state that grows by a byte: the splice rebuilds it, and nothing for equal lengths is
    offered. -/
theorem smart_delta_exact_growth :
    (∃ c ∈ encodeCandidates [1, 2] [1, 2, 3] ⟨1, 0⟩, c.kind = .splice ∧
        applyDelta [1, 2] c.payload = .ok [1, 2, 3] ∧ deltaKind c.payload = .ok .splice) ∧
      ¬∃ c ∈ encodeCandidates [1, 2] [1, 2, 3] ⟨1, 0⟩, c.kind = .xor := by
  obtain ⟨hexact, -, hsame, hany⟩ :=
    smart_delta_exact ⟨[1, 2], by decide⟩ ⟨[1, 2, 3], by decide⟩ ⟨1, 0⟩
  constructor
  · obtain ⟨c, hc, hkind⟩ := hany .splice (.inl rfl)
    obtain ⟨happly, htag⟩ := hexact c hc
    rw [hkind] at htag
    exact ⟨c, hc, hkind, happly, htag⟩
  · rw [(hsame .xor (.inr (.inr rfl))).1]
    decide

end DeltaStream
