import DeltaStream.ByteSync
import DeltaStream.Lib.Replica
import DeltaStream.SmartDeltaExact

/-!
# What byte encoders emit

`BytePublisher` is either byte encoder behind one interface.  What a packet can be is said
once for both:

* `BytePublisher.encode_cases` — the ways in which a call can go;
* `BytePublisher.encode_ok` — a successful call advances the sequence by one, keeps the
  encoded state for the next diff and returns the first cheapest of the packets it compares;
* `BytePublisher.offers_mem` — those are the snapshot of the state and deltas that rebuild it
  from the previous one, raw or compressed;
* `BytePublisher.encode_error` — a failed call is out of numbers or could not compress.
-/

set_option autoImplicit false

namespace DeltaStream

open FirstMin

/-! ## The exhaustive search -/

namespace ByteStateEncoder

/-- The packets compared for the next state, in order. -/
def offers (X : Crates) (e : ByteStateEncoder) (sequence : UInt64) (current : Bytes) :
    List Packet :=
  DeltaStream.offers X (searchPolicy e.policy)
    (byteSnapshot sequence e.schemaHash current :: (e.deltas sequence current).map (·.1)) e.tuner

theorem search_ok {X : Crates} {e : ByteStateEncoder} {sequence : UInt64} {current : Bytes}
    {s : Search AdaptiveTuner} (h : search X e sequence current = .ok s) :
    IsFirstMin (searchPolicy e.policy).cost (e.offers X sequence current) s.best := by
  unfold search at h
  simp only at h
  split at h
  · cases h
  · rename_i s1 h1
    obtain ⟨hbest, hlearned⟩ := Search.tryZstd_ok h1
    have hrest := Search.tryDeltas_ok h
    rw [hbest, hlearned] at hrest
    unfold offers
    rw [DeltaStream.offers, ← eq_pick_iff, hrest, pick_append]

theorem search_total {X : Crates} (hX : X.CompressTotal) (e : ByteStateEncoder)
    (sequence : UInt64) (current : Bytes) : ∃ s, search X e sequence current = .ok s := by
  unfold search
  obtain ⟨s1, h1⟩ := @Search.tryZstd_total _ X (searchPolicy e.policy) hX
    (byteSnapshot sequence e.schemaHash current) .snapshotZstd
    ⟨byteSnapshot sequence e.schemaHash current, .snapshot, 1, e.tuner⟩
  simp only [h1]
  exact Search.tryDeltas_total hX _ _

end ByteStateEncoder

/-! ## The fast search -/

namespace FastByteStateEncoder

/-- The delta packets offered for the next state, one per shortlisted strategy. -/
def deltas (e : FastByteStateEncoder) (sequence : UInt64) (previous current : Bytes) :
    List (Packet × SmartDeltaKind) :=
  (e.advisor.shortlist (ChangeProfile.analyze previous current)).map fun kind =>
    (byteDelta sequence e.schemaHash previous
      (encodePayload kind previous current e.policy.smartDelta), kind)

/-- The packets compared for the next state, in order. -/
def offers (X : Crates) (e : FastByteStateEncoder) (sequence : UInt64) (current : Bytes) :
    List Packet :=
  let snapshot := byteSnapshot sequence e.schemaHash current
  match e.previous with
  | some previous =>
    snapshot :: DeltaStream.offers X (searchPolicy e.policy)
      ((e.deltas sequence previous.bytes current).map (·.1)) e.advisor
  | none => DeltaStream.offers X (initialPolicy e.policy) [snapshot] e.advisor

/-- While every strategy accepts the states, the loop over strategies is the search over
    their delta packets. -/
theorem foldlM_tryKind {X : Crates} {e : FastByteStateEncoder} {sequence : UInt64}
    {previous current : Bytes} : ∀ {kinds : List SmartDeltaKind} (s : Search StrategyAdvisor),
    (∀ k ∈ kinds, ∃ c, encodeCandidate k previous current e.policy.smartDelta = .ok c) →
      kinds.foldlM (tryKind X e sequence previous current) s =
        Search.tryDeltas X (searchPolicy e.policy) (kinds.map fun kind =>
          (byteDelta sequence e.schemaHash previous
            (encodePayload kind previous current e.policy.smartDelta), kind)) s
  | [], _, _ => rfl
  | kind :: kinds, s, hk => by
    obtain ⟨c, hc⟩ := hk kind List.mem_cons_self
    obtain ⟨hkind, hmem⟩ := encodeCandidate_ok.mp hc
    have hpay := (encodeCandidates_mem.mp hmem).2
    rw [hkind] at hpay
    have hone : tryKind X e sequence previous current s kind =
        Search.tryDelta X (searchPolicy e.policy) (byteDelta sequence e.schemaHash previous
          (encodePayload kind previous current e.policy.smartDelta)) kind s := by
      unfold tryKind
      simp only [hc, hpay]
    rw [List.foldlM_cons, hone, List.map_cons, Search.tryDeltas, List.foldlM_cons]
    cases Search.tryDelta X (searchPolicy e.policy) (byteDelta sequence e.schemaHash previous
      (encodePayload kind previous current e.policy.smartDelta)) kind s with
    | error err => rfl
    | ok s1 => exact foldlM_tryKind s1 fun k hm => hk k (List.mem_cons_of_mem _ hm)

/-- After the first state the loop over strategies is a search over their packets, which then
    learns from the mode found. -/
theorem search_some {X : Crates} {e : FastByteStateEncoder} {sequence : UInt64} {current : Bytes}
    {previous : Slice} (hprev : e.previous = some previous) :
    search X e sequence current =
      (Search.tryDeltas X (searchPolicy e.policy) (e.deltas sequence previous.bytes current)
        ⟨byteSnapshot sequence e.schemaHash current, .snapshot, 1, e.advisor⟩).map
        fun s => { s with learned := learnMode s.mode s.learned } := by
  unfold search
  simp only [hprev]
  rw [foldlM_tryKind _ fun k hk => StrategyAdvisor.shortlist_accepts _ _ _ _ hk]
  unfold deltas
  cases Search.tryDeltas X (searchPolicy e.policy) _ _ <;> rfl

theorem search_some_ok {X : Crates} {e : FastByteStateEncoder} {sequence : UInt64}
    {current : Bytes} {previous : Slice} {s : Search StrategyAdvisor}
    (hprev : e.previous = some previous) (h : search X e sequence current = .ok s) :
    ∃ s1, Search.tryDeltas X (searchPolicy e.policy) (e.deltas sequence previous.bytes current)
        ⟨byteSnapshot sequence e.schemaHash current, .snapshot, 1, e.advisor⟩ = .ok s1 ∧
      s = { s1 with learned := learnMode s1.mode s1.learned } := by
  rw [search_some hprev] at h
  cases h1 : Search.tryDeltas X (searchPolicy e.policy)
      (e.deltas sequence previous.bytes current)
      ⟨byteSnapshot sequence e.schemaHash current, .snapshot, 1, e.advisor⟩ with
  | error err =>
    rw [h1] at h
    cases h
  | ok s1 =>
    rw [h1] at h
    cases h
    exact ⟨s1, rfl, rfl⟩

theorem search_none {X : Crates} {e : FastByteStateEncoder} {sequence : UInt64} {current : Bytes}
    (hprev : e.previous = none) :
    search X e sequence current =
      Search.tryZstd X (initialPolicy e.policy) (byteSnapshot sequence e.schemaHash current)
        .snapshotZstd ⟨byteSnapshot sequence e.schemaHash current, .snapshot, 1, e.advisor⟩ := by
  unfold search
  simp only [hprev]

theorem search_ok {X : Crates} {e : FastByteStateEncoder} {sequence : UInt64} {current : Bytes}
    {s : Search StrategyAdvisor} (h : search X e sequence current = .ok s) :
    IsFirstMin (searchPolicy e.policy).cost (e.offers X sequence current) s.best := by
  unfold offers
  cases hprev : e.previous with
  | none =>
    rw [search_none hprev] at h
    have hbest := (Search.tryZstd_ok h).1
    simp only
    rw [DeltaStream.offers, DeltaStream.offers, List.append_nil, ← eq_pick_iff]
    exact hbest
  | some previous =>
    obtain ⟨s1, h1, rfl⟩ := search_some_ok hprev h
    exact eq_pick_iff.mp (Search.tryDeltas_ok h1)

theorem search_total {X : Crates} (hX : X.CompressTotal) (e : FastByteStateEncoder)
    (sequence : UInt64) (current : Bytes) : ∃ s, search X e sequence current = .ok s := by
  cases hprev : e.previous with
  | none =>
    rw [search_none hprev]
    exact Search.tryZstd_total hX _ _ _
  | some previous =>
    rw [search_some hprev]
    obtain ⟨s, hs⟩ := @Search.tryDeltas_total _ X (searchPolicy e.policy) hX
      (e.deltas sequence previous.bytes current)
      ⟨byteSnapshot sequence e.schemaHash current, .snapshot, 1, e.advisor⟩
    rw [hs]
    exact ⟨_, rfl⟩

end FastByteStateEncoder

/-! ## Either encoder -/

inductive BytePublisher where
  | standard (e : ByteStateEncoder)
  | fast (e : FastByteStateEncoder)

namespace BytePublisher

def sequence : BytePublisher → UInt64
  | .standard e => e.sequence
  | .fast e => e.sequence

def previous : BytePublisher → Option Slice
  | .standard e => e.previous
  | .fast e => e.previous

def schemaHash : BytePublisher → UInt64
  | .standard e => e.schemaHash
  | .fast e => e.schemaHash

def smartDelta : BytePublisher → SmartDeltaPolicy
  | .standard e => e.policy.smartDelta
  | .fast e => e.policy.smartDelta

def encode (X : Crates) (current : Slice) :
    BytePublisher → Except DeltaError Packet × BytePublisher
  | .standard e => ((e.encode X current).1, .standard (e.encode X current).2)
  | .fast e => ((e.encode X current).1, .fast (e.encode X current).2)

def recoverySnapshot (X : Crates) (current : Slice) : BytePublisher → Except DeltaError Packet
  | .standard e => e.recoverySnapshot X current
  | .fast e => e.recoverySnapshot current

/-- A publisher before its first call. -/
inductive Fresh (schemaName : String) : BytePublisher → Prop where
  | standard (policy : V25Policy) :
      Fresh schemaName (.standard (ByteStateEncoder.withPolicy schemaName policy))
  | fast (policy : V30Policy) :
      Fresh schemaName (.fast (FastByteStateEncoder.withPolicy schemaName policy))

/-- The packets `encode` compares for the next state, in order. -/
def offers (X : Crates) (current : Bytes) : BytePublisher → List Packet
  | .standard e => e.offers X (e.sequence + 1) current
  | .fast e => e.offers X (e.sequence + 1) current

/-- What it compares them by. -/
def cost : BytePublisher → Packet → Nat
  | .standard e => (ByteStateEncoder.searchPolicy e.policy).cost
  | .fast e => (FastByteStateEncoder.searchPolicy e.policy).cost

/-- The raw packets for one state: its snapshot, and a delta for every candidate. -/
inductive RawOffer (pub : BytePublisher) (sequence : UInt64) (current : Bytes) : Packet → Prop
    where
  | snapshot : RawOffer pub sequence current (byteSnapshot sequence pub.schemaHash current)
  | delta {previous : Slice} {candidate : SmartDeltaCandidate}
      (hprev : pub.previous = some previous)
      (hc : candidate ∈ encodeCandidates previous.bytes current pub.smartDelta) :
      RawOffer pub sequence current
        (byteDelta sequence pub.schemaHash previous.bytes candidate.payload)

theorem Fresh.spec {schemaName : String} {pub : BytePublisher} (h : Fresh schemaName pub) :
    pub.sequence = 0 ∧ pub.previous = none ∧ pub.schemaHash = fnv1a64 (utf8 schemaName) := by
  cases h with
  | standard policy => exact ⟨rfl, rfl, rfl⟩
  | fast policy => exact ⟨rfl, rfl, rfl⟩

/-- Every packet compared is a copy of a raw offer. -/
theorem offers_mem {X : Crates} {pub : BytePublisher} {current : Bytes} {p : Packet}
    (h : p ∈ pub.offers X current) :
    ∃ raw, RawOffer pub (pub.sequence + 1) current raw ∧ Packet.CopyOf X raw p := by
  cases pub with
  | standard e =>
    obtain ⟨raw, hraw, hp⟩ := DeltaStream.offers_mem h
    refine ⟨raw, ?_, hp.imp_right fun hc => ⟨_, hc⟩⟩
    rcases List.mem_cons.mp hraw with rfl | hraw
    · exact .snapshot
    · unfold ByteStateEncoder.deltas at hraw
      split at hraw
      · cases hraw
      · rename_i previous hprev
        simp only [List.map_map, List.mem_map, Function.comp_apply] at hraw
        obtain ⟨c, hc, rfl⟩ := hraw
        exact .delta hprev hc
  | fast e =>
    change p ∈ e.offers X (e.sequence + 1) current at h
    unfold FastByteStateEncoder.offers at h
    cases hprev : e.previous with
    | none =>
      simp only [hprev] at h
      obtain ⟨raw, hraw, hp⟩ := DeltaStream.offers_mem h
      refine ⟨raw, ?_, hp.imp_right fun hc => ⟨_, hc⟩⟩
      rw [List.mem_singleton.mp hraw]
      exact .snapshot
    | some previous =>
      simp only [hprev] at h
      rcases List.mem_cons.mp h with rfl | h
      · exact ⟨_, .snapshot, .inl rfl⟩
      obtain ⟨raw, hraw, hp⟩ := DeltaStream.offers_mem h
      refine ⟨raw, ?_, hp.imp_right fun hc => ⟨_, hc⟩⟩
      unfold FastByteStateEncoder.deltas at hraw
      simp only [List.map_map, List.mem_map, Function.comp_apply] at hraw
      obtain ⟨kind, hkind, rfl⟩ := hraw
      obtain ⟨c, hc⟩ := StrategyAdvisor.shortlist_accepts _ _ _ e.policy.smartDelta hkind
      obtain ⟨hk, hmem⟩ := encodeCandidate_ok.mp hc
      have hpay := (encodeCandidates_mem.mp hmem).2
      rw [hk] at hpay
      rw [← hpay]
      exact .delta hprev hmem

/-- A successful call. -/
structure Encodes (X : Crates) (pub : BytePublisher) (current : Slice) (p : Packet)
    (pub' : BytePublisher) : Prop where
  notExhausted : pub.sequence.toNat < U64_MAX
  sequence : pub'.sequence = pub.sequence + 1
  previous : pub'.previous = some current
  schemaHash : pub'.schemaHash = pub.schemaHash
  best : IsFirstMin pub.cost (pub.offers X current.bytes) p

/-- The ways in which a call can go. -/
inductive EncodeCase (X : Crates) (pub : BytePublisher) (current : Slice) :
    Except DeltaError Packet × BytePublisher → Prop where
  | encoded {p : Packet} {pub' : BytePublisher} (h : Encodes X pub current p pub') :
      EncodeCase X pub current (.ok p, pub')
  | exhausted {err : DeltaError} (hmax : pub.sequence.toNat = U64_MAX) :
      EncodeCase X pub current (.error err, pub)
  /-- compression fails, and the number is spent -/
  | failed {err : DeltaError} {pub' : BytePublisher} (room : pub.sequence.toNat < U64_MAX)
      (sequence : pub'.sequence = pub.sequence + 1) (previous : pub'.previous = pub.previous)
      (schemaHash : pub'.schemaHash = pub.schemaHash) (hX : ¬X.CompressTotal) :
      EncodeCase X pub current (.error err, pub')

theorem encode_cases (X : Crates) (pub : BytePublisher) (current : Slice) :
    EncodeCase X pub current (pub.encode X current) := by
  cases pub with
  | standard e =>
    have hmax := toNat_le_max e.sequence
    show EncodeCase X _ current ((e.encode X current).1, .standard (e.encode X current).2)
    unfold ByteStateEncoder.encode
    by_cases hex : e.sequence.toNat = U64_MAX
    · rw [if_pos hex]
      exact .exhausted hex
    have room := Nat.lt_of_le_of_ne hmax hex
    rw [if_neg hex]
    cases hs : ByteStateEncoder.search X e (e.sequence + 1) current.bytes with
    | ok s =>
      simp only [hs]
      exact .encoded ⟨room, rfl, rfl, rfl, ByteStateEncoder.search_ok hs⟩
    | error err =>
      simp only [hs]
      refine .failed room rfl rfl rfl fun hX => ?_
      obtain ⟨s, hs'⟩ := ByteStateEncoder.search_total hX e (e.sequence + 1) current.bytes
      cases hs.symm.trans hs'
  | fast e =>
    have hmax := toNat_le_max e.sequence
    show EncodeCase X _ current ((e.encode X current).1, .fast (e.encode X current).2)
    unfold FastByteStateEncoder.encode
    by_cases hex : e.sequence.toNat = U64_MAX
    · rw [if_pos hex]
      exact .exhausted hex
    have room := Nat.lt_of_le_of_ne hmax hex
    rw [if_neg hex]
    cases hs : FastByteStateEncoder.search X e (e.sequence + 1) current.bytes with
    | ok s =>
      simp only [hs]
      exact .encoded ⟨room, rfl, rfl, rfl, FastByteStateEncoder.search_ok hs⟩
    | error err =>
      simp only [hs]
      refine .failed room rfl rfl rfl fun hX => ?_
      obtain ⟨s, hs'⟩ := FastByteStateEncoder.search_total hX e (e.sequence + 1) current.bytes
      cases hs.symm.trans hs'

theorem encode_ok {X : Crates} {pub pub' : BytePublisher} {current : Slice} {p : Packet}
    (h : pub.encode X current = (.ok p, pub')) : Encodes X pub current p pub' := by
  have hcase := encode_cases X pub current
  rw [h] at hcase
  cases hcase with
  | encoded hencodes => exact hencodes

/-- A failed call leaves an exhausted publisher alone; otherwise compression failed and the
    number is spent. -/
theorem encode_error {X : Crates} {pub pub' : BytePublisher} {current : Slice} {err : DeltaError}
    (h : pub.encode X current = (.error err, pub')) :
    pub'.previous = pub.previous ∧ pub'.schemaHash = pub.schemaHash ∧
      (pub.sequence.toNat = U64_MAX ∧ pub' = pub ∨
        pub.sequence.toNat < U64_MAX ∧ pub'.sequence = pub.sequence + 1 ∧ ¬X.CompressTotal) := by
  have hcase := encode_cases X pub current
  rw [h] at hcase
  cases hcase with
  | exhausted hmax => exact ⟨rfl, rfl, .inl ⟨hmax, rfl⟩⟩
  | failed room sequence previous schemaHash hX =>
    exact ⟨previous, schemaHash, .inr ⟨room, sequence, hX⟩⟩

/-- While numbers are left, a call succeeds. -/
theorem encode_total {X : Crates} (hX : X.CompressTotal) {pub : BytePublisher}
    (hseq : pub.sequence.toNat < U64_MAX) (current : Slice) :
    ∃ p pub', pub.encode X current = (.ok p, pub') := by
  cases h : pub.encode X current with
  | mk result pub' =>
    cases result with
    | ok p => exact ⟨p, pub', rfl⟩
    | error err =>
      obtain ⟨-, -, ⟨hmax, -⟩ | ⟨-, -, hfail⟩⟩ := encode_error h
      · omega
      · exact absurd hX hfail

/-- A recovery snapshot is the snapshot of the given state at the current sequence, raw or
    compressed. -/
theorem recoverySnapshot_ok {X : Crates} {pub : BytePublisher} {current : Slice} {p : Packet}
    (h : pub.recoverySnapshot X current = .ok p) :
    Packet.CopyOf X (byteSnapshot pub.sequence pub.schemaHash current.bytes) p := by
  cases pub with
  | standard e =>
    change e.recoverySnapshot X current = .ok p at h
    unfold ByteStateEncoder.recoverySnapshot at h
    simp only at h
    split at h
    · rcases Packet.zstdCandidate_cases h with rfl | hc
      · exact .inl rfl
      · exact .inr ⟨_, hc⟩
    · cases h
      exact .inl rfl
  | fast e =>
    cases h
    exact .inl rfl

/-- While compression works, a recovery snapshot can be taken. -/
theorem recoverySnapshot_total {X : Crates} (hX : X.CompressTotal) (pub : BytePublisher)
    (current : Slice) : ∃ p, pub.recoverySnapshot X current = .ok p := by
  cases pub with
  | standard e =>
    show ∃ p, e.recoverySnapshot X current = .ok p
    unfold ByteStateEncoder.recoverySnapshot
    simp only
    split
    · exact Packet.zstdCandidate_total hX _ _ _
    · exact ⟨_, rfl⟩
  | fast e => exact ⟨_, rfl⟩

/-- A recovery snapshot is no longer than the raw snapshot. -/
theorem recoverySnapshot_length {X : Crates} {pub : BytePublisher} {current : Slice} {p : Packet}
    (h : pub.recoverySnapshot X current = .ok p) :
    p.encodedLen ≤ HEADER_LEN + current.bytes.length := by
  have hlen := current.length_le
  have hmax : ISIZE_MAX ≤ U64_MAX := by decide
  cases pub with
  | standard e =>
    change e.recoverySnapshot X current = .ok p at h
    unfold ByteStateEncoder.recoverySnapshot at h
    simp only at h
    split at h
    · exact Packet.zstdCandidate_length (Nat.le_trans hlen hmax) h
    · cases h
      exact Nat.le_refl _
  | fast e =>
    cases h
    exact Nat.le_refl _

end BytePublisher

end DeltaStream
