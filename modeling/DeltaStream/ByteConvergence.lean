import DeltaStream.ByteReplica
import Mathlib.Data.List.Chain

/-!
# In-order convergence of the byte stream

Every packet is serialised, decoded with the default `DecodeConfig` and applied, in order.

* `deliverInOrder_iff` — for states within `MAX_LOGICAL_PAYLOAD`, every packet is applied with
  exactly the encoded state if and only if no call selects the compressed copy of a delta
  whose payload exceeds `MAX_LOGICAL_PAYLOAD`;
* `in_order_converges` — no call does, **when** no delta payload between two consecutive states
  both exceeds the limit and compresses below the length of the state;
* `in_order_oversized_delta` — such a selection happens: the XOR delta of a full-size state is
  five bytes longer than the state, and compresses best.
-/

set_option autoImplicit false

namespace DeltaStream

open Replica FirstMin BytePublisher

/-- Serialise, decode under the default limits, apply. -/
def ByteStateDecoder.applyWire (X : Crates) (d : ByteStateDecoder) (p : Packet) :
    Except DeltaError ByteApplyResult × ByteStateDecoder :=
  match p.encode X with
  | .error e => (.error e, d)
  | .ok bytes =>
    match Packet.decode X bytes with
    | .error e => (.error e, d)
    | .ok q => d.apply X q

/-- The results of encoding and delivering states in order. -/
def deliverInOrder (X : Crates) (pub : BytePublisher) (d : ByteStateDecoder) :
    List Slice → List (Except DeltaError ByteApplyResult)
  | [] => []
  | state :: states =>
    match pub.encode X state with
    | (.error e, pub') => .error e :: deliverInOrder X pub' d states
    | (.ok p, pub') =>
      (d.applyWire X p).1 :: deliverInOrder X pub' (d.applyWire X p).2 states

/-- Every state applied under the next number. -/
def allApplied (sequence : UInt64) : List Slice → List (Except DeltaError ByteApplyResult)
  | [] => []
  | state :: states =>
    .ok (.applied (sequence + 1) state.bytes) :: allApplied (sequence + 1) states

/-- The branch that goes wrong: a delta payload beyond the receiver's limit, compressed, is the
    first cheapest of the packets compared. -/
def SelectsOversized (X : Crates) (pub : BytePublisher) (state : Slice) : Prop :=
  ∃ raw p level, RawOffer pub (pub.sequence + 1) state.bytes raw ∧ raw.kind = .delta ∧
    MAX_LOGICAL_PAYLOAD < raw.payload.length ∧ Packet.Compresses X level raw p ∧
    IsFirstMin pub.cost (pub.offers X state.bytes) p

/-- No call of the run takes that branch. -/
def NeverOversized (X : Crates) : BytePublisher → List Slice → Prop
  | _, [] => True
  | pub, state :: states =>
    ¬SelectsOversized X pub state ∧ NeverOversized X (pub.encode X state).2 states

/-- The delta payloads from one state to the next: a payload beyond the receiver's limit does
    not compress below the length of the state itself. -/
def DeltasFit (X : Crates) (policy : SmartDeltaPolicy) (previous current : Slice) : Prop :=
  ∀ candidate ∈ encodeCandidates previous.bytes current.bytes policy,
    MAX_LOGICAL_PAYLOAD < candidate.payload.length → ∀ level compressed,
      X.compress candidate.payload level = .ok compressed →
        current.bytes.length ≤ compressed.length

/-! ## The selected packet on the wire -/

namespace BytePublisher

theorem offers_head (X : Crates) (pub : BytePublisher) (current : Bytes) :
    ∃ rest, pub.offers X current =
      byteSnapshot (pub.sequence + 1) pub.schemaHash current :: rest := by
  cases pub with
  | standard e => exact ⟨_, rfl⟩
  | fast e =>
    show ∃ rest, e.offers X (e.sequence + 1) current = _ :: rest
    unfold FastByteStateEncoder.offers
    cases e.previous with
    | none => exact ⟨_, rfl⟩
    | some previous => exact ⟨_, rfl⟩

theorem snapshot_mem_offers (X : Crates) (pub : BytePublisher) (current : Bytes) :
    byteSnapshot (pub.sequence + 1) pub.schemaHash current ∈ pub.offers X current := by
  obtain ⟨rest, hoffers⟩ := offers_head X pub current
  rw [hoffers]
  exact List.mem_cons_self

theorem cost_raw (pub : BytePublisher) {p : Packet} (h : p.isCompressed = false) :
    pub.cost p = p.encodedLen := by
  cases pub with
  | standard e => exact if_neg (by simp [h])
  | fast e => exact if_neg (by simp [h])

/-- A cost below the saturation point bounds the encoded length. -/
theorem encodedLen_le_of_cost (pub : BytePublisher) {p : Packet} {limit : Nat}
    (h : pub.cost p ≤ limit) (hlimit : limit < U64_MAX) : p.encodedLen ≤ limit := by
  cases pub with
  | standard e =>
    change (ByteStateEncoder.searchPolicy e.policy).cost p ≤ limit at h
    unfold SearchPolicy.cost ByteStateEncoder.searchPolicy at h
    simp only at h
    split at h
    · unfold saturatingAdd at h
      omega
    · exact h
  | fast e =>
    change (FastByteStateEncoder.searchPolicy e.policy).cost p ≤ limit at h
    unfold SearchPolicy.cost FastByteStateEncoder.searchPolicy at h
    simp only at h
    split at h
    · exact h
    · exact h

theorem RawOffer.flags {pub : BytePublisher} {sequence : UInt64} {current : Bytes} {raw : Packet}
    (h : RawOffer pub sequence current raw) : raw.flags = 0 := by
  cases h with
  | snapshot => rfl
  | delta hprev hc => rfl

variable {X : Crates} {pub pub' : BytePublisher} {current : Slice} {p : Packet}

/-- The chosen packet is no longer than the raw snapshot. -/
theorem Encodes.encodedLen_le (h : Encodes X pub current p pub')
    (hmax : current.bytes.length ≤ MAX_LOGICAL_PAYLOAD) :
    p.encodedLen ≤ HEADER_LEN + current.bytes.length := by
  have hle := h.best.le (snapshot_mem_offers X pub current.bytes)
  have hraw : (byteSnapshot (pub.sequence + 1) pub.schemaHash current.bytes).isCompressed = false :=
    Packet.snapshot_isCompressed _ _ _ _
  rw [cost_raw pub hraw] at hle
  have hlimit : HEADER_LEN + MAX_LOGICAL_PAYLOAD < U64_MAX := by decide
  have hlen : (byteSnapshot (pub.sequence + 1) pub.schemaHash current.bytes).encodedLen =
      HEADER_LEN + current.bytes.length := rfl
  rw [hlen] at hle
  exact encodedLen_le_of_cost pub hle (by omega)

/-- It survives the wire. -/
theorem Encodes.applyWire (h : Encodes X pub current p pub')
    (hmax : current.bytes.length ≤ MAX_LOGICAL_PAYLOAD) (d : ByteStateDecoder) :
    d.applyWire X p = d.apply X p := by
  have hlen := h.encodedLen_le hmax
  have hlimits : MAX_LOGICAL_PAYLOAD = MAX_WIRE_PAYLOAD := rfl
  have hdef : p.encodedLen = HEADER_LEN + p.payload.length := rfl
  have hflags : p.flags &&& ~~~KNOWN_FLAGS = 0 := by
    obtain ⟨raw, hraw, rfl | ⟨level, hc⟩⟩ := h.raw
    · rw [hraw.flags]
      decide
    · rw [hc.eq]
      simp only [hraw.flags]
      decide
  have henc := Packet.encode_of_fits (X := X) hflags (by omega)
  have hdec : Packet.decode X (p.header X ++ p.payload) = .ok p := by
    refine Packet.decodeWithConfig_encode henc ?_
    have hcfg : DecodeConfig.default.maxPacketBytes = HEADER_LEN + MAX_WIRE_PAYLOAD := rfl
    omega
  unfold ByteStateDecoder.applyWire
  simp only [henc, hdec]

/-- Unless it is an oversized delta, its logical payload is within the receiver's limit. -/
theorem Encodes.logicalPayload (hX : X.ZstdExact) (h : Encodes X pub current p pub')
    (hmax : current.bytes.length ≤ MAX_LOGICAL_PAYLOAD) (hfit : ¬SelectsOversized X pub current) :
    ∃ raw, RawOffer pub (pub.sequence + 1) current.bytes raw ∧ Packet.CopyOf X raw p ∧
      p.logicalPayload X = .ok raw.payload := by
  obtain ⟨raw, hraw, hcopy⟩ := h.raw
  refine ⟨raw, hraw, hcopy, hcopy.payload_fits hX hraw.isCompressed ?_⟩
  refine Nat.not_lt.mp fun hover => ?_
  have hover : MAX_LOGICAL_PAYLOAD < raw.payload.length := hover
  have hlen := h.encodedLen_le hmax
  have hkind : raw.kind = .delta := by
    cases hraw with
    | snapshot =>
      have : current.bytes.length > MAX_LOGICAL_PAYLOAD := hover
      omega
    | delta hprev hc => rfl
  rcases hcopy with rfl | ⟨level, hc⟩
  · have hdef : p.encodedLen = HEADER_LEN + p.payload.length := rfl
    omega
  · exact hfit ⟨raw, p, level, hraw, hkind, hover, hc, h.best⟩

/-- An oversized delta is refused. -/
theorem Encodes.refused (hX : X.ZstdExact) (h : Encodes X pub current p pub')
    (hover : SelectsOversized X pub current) : ∃ err, p.logicalPayload X = .error err := by
  obtain ⟨raw, q, level, -, -, hlen, hc, hbest⟩ := hover
  rw [h.best.unique hbest]
  exact Packet.logicalPayload_refused hX hc hlen

end BytePublisher

/-! ## One step, and all of them -/

variable {X : Crates}

/-- **Step**: unless an oversized delta is selected, the packet is applied and the decoder is
    level with the publisher again. -/
theorem applyWire_applied (hX : X.ZstdExact) {schemaHash : UInt64} {pub pub' : BytePublisher}
    {log : List Slice} {state : Slice} {p : Packet} {d : ByteStateDecoder}
    (ht : ByteRun.Tracks schemaHash ⟨pub, log⟩) (he : Encodes X pub state p pub')
    (hmax : state.bytes.length ≤ MAX_LOGICAL_PAYLOAD) (hfit : ¬SelectsOversized X pub state)
    (hpaired : d.Paired) (hschema : d.schemaHash = schemaHash)
    (hready : Ready (log.map Slice.bytes) log.length d.view) :
    (d.applyWire X p).1 = .ok (.applied (pub.sequence + 1) state.bytes) ∧
      (d.applyWire X p).2.Paired ∧ (d.applyWire X p).2.schemaHash = schemaHash ∧
      Ready ((log ++ [state]).map Slice.bytes) (log ++ [state]).length
        (d.applyWire X p).2.view := by
  rw [he.applyWire hmax]
  obtain ⟨raw, hraw, hcopy, hlp⟩ := he.logicalPayload hX hmax hfit
  have hdel := ht.delivers he hraw hcopy hlp
  obtain ⟨t, hnth, hrec⟩ := receive_delivers hdel hready.mono
  have hlen : log.length = (log.map Slice.bytes).length := (List.length_map _).symm
  have hnew : nth (ByteRun.states ⟨pub, log⟩ ++ [state.bytes]) (log.length + 1) =
      some state.bytes := by
    rw [hlen]
    exact nth_length_append _ _
  rw [hnth] at hnew
  cases hnew
  rw [← hschema, ByteStateDecoder.apply_receive X hpaired p] at hrec
  obtain ⟨hverdict, hview⟩ := Prod.mk.inj hrec
  obtain ⟨m, hres, hm⟩ := ByteStateDecoder.verdict_applied hverdict
  have hseq : m = pub.sequence + 1 := by
    apply UInt64.toNat_inj.mp
    rw [hm, he.toNat_sequence, ht.sequence]
  refine ⟨by rw [hres, hseq], ByteStateDecoder.apply_paired X hpaired p,
    (ByteStateDecoder.apply_schemaHash X d p).trans hschema, ?_⟩
  rw [hview, List.map_append, List.length_append]
  exact .inr ⟨_, rfl, .inr hnth⟩

theorem deliverInOrder_iff (hc : X.CompressTotal) (hX : X.ZstdExact) {schemaHash : UInt64} :
    ∀ {states : List Slice} {pub : BytePublisher} {log : List Slice} {d : ByteStateDecoder},
      ByteRun.Tracks schemaHash ⟨pub, log⟩ → d.Paired → d.schemaHash = schemaHash →
      Ready (log.map Slice.bytes) log.length d.view →
      (∀ state ∈ states, state.bytes.length ≤ MAX_LOGICAL_PAYLOAD) →
      log.length + states.length ≤ U64_MAX →
      (deliverInOrder X pub d states = allApplied pub.sequence states ↔
        NeverOversized X pub states)
  | [], _, _, _, _, _, _, _, _, _ => by simp [deliverInOrder, allApplied, NeverOversized]
  | state :: states, pub, log, d, ht, hpaired, hschema, hready, hmax, hnum => by
    have hlen : state.bytes.length ≤ MAX_LOGICAL_PAYLOAD := hmax state List.mem_cons_self
    have hleft : pub.sequence.toNat < U64_MAX := by
      have hseq : pub.sequence.toNat = log.length := ht.sequence
      rw [List.length_cons] at hnum
      omega
    obtain ⟨p, pub', hres⟩ := encode_total hc hleft state
    have he := encode_ok hres
    unfold deliverInOrder allApplied NeverOversized
    rw [hres]
    by_cases hfit : SelectsOversized X pub state
    · obtain ⟨err, herr⟩ := he.refused hX hfit
      have hrefused : (d.applyWire X p).1 ≠ .ok (.applied (pub.sequence + 1) state.bytes) := by
        intro happ
        rw [he.applyWire hlen] at happ
        have hverdict := congrArg Prod.fst (ByteStateDecoder.apply_receive X hpaired p)
        obtain ⟨raw, hraw, hcopy⟩ := he.raw
        have hs := hcopy.header.schemaHash.trans (hraw.schemaHash.trans ht.schemaHash)
        rw [ByteStateDecoder.read_broken (hs.trans hschema.symm) herr, happ] at hverdict
        unfold receive at hverdict
        simp only [Update.number?] at hverdict
        split at hverdict
        · cases hverdict
        · cases hverdict
      constructor
      · intro heq
        exact absurd (List.cons.inj heq).1 hrefused
      · rintro ⟨hnot, -⟩
        exact absurd hfit hnot
    · obtain ⟨happ, hpaired', hschema', hready'⟩ :=
        applyWire_applied hX ht he hlen hfit hpaired hschema hready
      have ht' : ByteRun.Tracks schemaHash ⟨pub', log ++ [state]⟩ := ht.step he
      have hnum' : (log ++ [state]).length + states.length ≤ U64_MAX := by
        rw [List.length_append, List.length_singleton]
        rw [List.length_cons] at hnum
        omega
      have hrest := deliverInOrder_iff hc hX ht' hpaired' hschema' hready'
        (fun s hs => hmax s (List.mem_cons_of_mem _ hs)) hnum'
      rw [he.sequence] at hrest
      simp only [happ, List.cons.injEq, true_and, hrest, hfit, not_false_eq_true]

/-! ## Consecutive states -/

theorem BytePublisher.Fresh.tracks {schemaName : String} {pub : BytePublisher}
    (h : pub.Fresh schemaName) : ByteRun.Tracks (fnv1a64 (utf8 schemaName)) ⟨pub, []⟩ := by
  obtain ⟨hseq, hprev, hschema⟩ := h.spec
  refine ⟨?_, hprev, hschema⟩
  rw [hseq]
  rfl

namespace BytePublisher

theorem encode_smartDelta (X : Crates) (pub : BytePublisher) (current : Slice) :
    (pub.encode X current).2.smartDelta = pub.smartDelta := by
  cases pub with
  | standard e =>
    show (e.encode X current).2.policy.smartDelta = e.policy.smartDelta
    unfold ByteStateEncoder.encode
    split
    · rfl
    · simp only
      split <;> rfl
  | fast e =>
    show (e.encode X current).2.policy.smartDelta = e.policy.smartDelta
    unfold FastByteStateEncoder.encode
    split
    · rfl
    · simp only
      split <;> rfl

/-- A compressed copy is selected only where it is shorter than the state. -/
theorem compressed_shorter {pub : BytePublisher} {current : Bytes} {raw p : Packet} {level : Int}
    (hc : Packet.Compresses X level raw p) (hbest : IsFirstMin pub.cost (pub.offers X current) p)
    (hmax : current.length ≤ MAX_LOGICAL_PAYLOAD) : p.payload.length < current.length := by
  have hraw : (byteSnapshot (pub.sequence + 1) pub.schemaHash current).isCompressed = false :=
    Packet.snapshot_isCompressed _ _ _ _
  obtain ⟨rest, hoffers⟩ := offers_head X pub current
  rw [hoffers] at hbest
  rcases hbest.eq_or_lt_head with rfl | hlt
  · rw [hc.isCompressed] at hraw
    cases hraw
  · rw [cost_raw pub hraw] at hlt
    have hsnapshot : (byteSnapshot (pub.sequence + 1) pub.schemaHash current).encodedLen =
        HEADER_LEN + current.length := rfl
    have hlimit : HEADER_LEN + MAX_LOGICAL_PAYLOAD < U64_MAX := by decide
    have hlen : p.encodedLen ≤ HEADER_LEN + current.length - 1 :=
      encodedLen_le_of_cost pub (by omega) (by omega)
    have hdef : p.encodedLen = HEADER_LEN + p.payload.length := rfl
    have hheader : HEADER_LEN = 46 := rfl
    omega

end BytePublisher

/-- No call selects an oversized delta where the deltas from the previous state fit. -/
theorem DeltasFit.not_selectsOversized {pub : BytePublisher} {state : Slice}
    (hmax : state.bytes.length ≤ MAX_LOGICAL_PAYLOAD)
    (hfit : ∀ previous, pub.previous = some previous →
      DeltasFit X pub.smartDelta previous state) : ¬SelectsOversized X pub state := by
  rintro ⟨raw, p, level, hraw, hkind, hover, hc, hbest⟩
  cases hraw with
  | snapshot => cases hkind
  | delta hprev hcandidate =>
    have hlong := hfit _ hprev _ hcandidate hover level p.payload hc.compressed
    have hshort := compressed_shorter hc hbest hmax
    omega

/-- **Run**: where the deltas between consecutive states fit, no call of the run does. -/
theorem NeverOversized.of_isChain (hc : X.CompressTotal) :
    ∀ {states : List Slice} {pub : BytePublisher},
      pub.sequence.toNat + states.length ≤ U64_MAX →
      (∀ state ∈ states, state.bytes.length ≤ MAX_LOGICAL_PAYLOAD) →
      (pub.previous.toList ++ states).IsChain (DeltasFit X pub.smartDelta) →
      NeverOversized X pub states
  | [], _, _, _, _ => trivial
  | state :: states, pub, hnum, hmax, hchain => by
    rw [List.length_cons] at hnum
    have hmax' := List.forall_mem_cons.mp hmax
    have hleft : pub.sequence.toNat < U64_MAX := by omega
    obtain ⟨p, pub', hres⟩ := encode_total hc hleft state
    have he := encode_ok hres
    have hpolicy := encode_smartDelta X pub state
    refine ⟨DeltasFit.not_selectsOversized hmax'.1 ?_, ?_⟩
    · intro previous hprev
      rw [hprev] at hchain
      exact (List.isChain_cons_cons.mp hchain).1
    · rw [hres] at hpolicy ⊢
      refine NeverOversized.of_isChain hc ?_ hmax'.2 ?_
      · rw [he.sequence, he.toNat_sequence]
        omega
      · rw [he.previous, hpolicy]
        exact hchain.right_of_append

namespace BytePublisher.Fresh

variable {schemaName : String} {pub : BytePublisher} {states : List Slice}

/-- From the start: every packet is applied if and only if no call selects an oversized delta. -/
theorem deliverInOrder_iff (hc : X.CompressTotal) (hX : X.ZstdExact)
    (hfresh : pub.Fresh schemaName)
    (hmax : ∀ state ∈ states, state.bytes.length ≤ MAX_LOGICAL_PAYLOAD)
    (hnum : states.length < 2 ^ 64 - 1) :
    deliverInOrder X pub (ByteStateDecoder.new schemaName) states = allApplied 0 states ↔
      NeverOversized X pub states := by
  have hnum' : ([] : List Slice).length + states.length ≤ U64_MAX := by
    have hmax64 : U64_MAX = 2 ^ 64 - 1 := rfl
    rw [List.length_nil]
    omega
  have hiff := DeltaStream.deliverInOrder_iff hc hX hfresh.tracks
    (ByteStateDecoder.new_paired schemaName) rfl (.inl ⟨rfl, rfl⟩) hmax hnum'
  rwa [hfresh.spec.1] at hiff

theorem neverOversized (hc : X.CompressTotal) (hfresh : pub.Fresh schemaName)
    (hmax : ∀ state ∈ states, state.bytes.length ≤ MAX_LOGICAL_PAYLOAD)
    (hnum : states.length < 2 ^ 64 - 1) (hfit : states.IsChain (DeltasFit X pub.smartDelta)) :
    NeverOversized X pub states := by
  obtain ⟨hseq, hprev, -⟩ := hfresh.spec
  refine NeverOversized.of_isChain hc ?_ hmax ?_
  · have hmax64 : U64_MAX = 2 ^ 64 - 1 := rfl
    have hzero : (0 : UInt64).toNat = 0 := rfl
    rw [hseq, hzero]
    omega
  · rw [hprev]
    exact hfit

end BytePublisher.Fresh

/-- **In-order convergence.**  From a fresh publisher and decoder of one schema, every state of
    a run within the limits is encoded, and applied as it was encoded, where no delta payload
    between two consecutive states both exceeds the limit and compresses below the length of
    the state. -/
theorem in_order_converges (hc : X.CompressTotal) (hX : X.ZstdExact) {schemaName : String}
    {pub : BytePublisher} (hfresh : pub.Fresh schemaName) {states : List Slice}
    (hmax : ∀ state ∈ states, state.bytes.length ≤ MAX_LOGICAL_PAYLOAD)
    (hnum : states.length < 2 ^ 64 - 1) (hfit : states.IsChain (DeltasFit X pub.smartDelta)) :
    deliverInOrder X pub (ByteStateDecoder.new schemaName) states = allApplied 0 states := by
  have hnever : NeverOversized X pub states := hfresh.neverOversized hc hmax hnum hfit
  exact (hfresh.deliverInOrder_iff hc hX hmax hnum).mpr hnever

/-- Three small states, stored uncompressed. -/
theorem in_order_converges_stored :
    deliverInOrder Crates.stored (.standard (.withPolicy "doc" .default)) (.new "doc")
        [⟨[7, 9], by decide⟩, ⟨[7, 8], by decide⟩, ⟨[7], by decide⟩] =
      [.ok (.applied 1 [7, 9]), .ok (.applied 2 [7, 8]), .ok (.applied 3 [7])] := by
  refine in_order_converges Crates.stored_total Crates.stored_exact (.standard .default)
    (by simp [MAX_LOGICAL_PAYLOAD]) (by simp) ?_
  have hfit : ∀ previous current : Slice, (∀ candidate ∈ encodeCandidates previous.bytes
      current.bytes .default, candidate.payload.length ≤ MAX_LOGICAL_PAYLOAD) →
      DeltasFit Crates.stored .default previous current := by
    intro previous current hsmall candidate hcandidate hover
    have := hsmall candidate hcandidate
    omega
  exact .cons_cons (hfit _ _ (by decide +kernel))
    (.cons_cons (hfit _ _ (by decide +kernel)) (.singleton _))

/-! ## A full-size state whose XOR delta is oversized -/

/-- A compressor that finds one input compressible and stores all others. -/
def Crates.knowing (known : Bytes) : Crates where
  crc32 _ := 0
  compress data _ := .ok (if data = known then [0] else 1 :: data)
  decompress data capacity :=
    match data with
    | [] => .error "Unknown frame descriptor"
    | flag :: stored =>
      let out := if flag = 0 then known else stored
      if out.length ≤ capacity then .ok out else .error "Destination buffer is too small"

theorem Crates.knowing_total (known : Bytes) : (Crates.knowing known).CompressTotal :=
  fun _ _ => ⟨_, rfl⟩

theorem Crates.knowing_exact (known : Bytes) : (Crates.knowing known).ZstdExact := by
  have hround : ∀ data level c, (Crates.knowing known).compress data level = .ok c →
      ∀ capacity, (Crates.knowing known).decompress c capacity =
        if data.length ≤ capacity then .ok data
        else .error "Destination buffer is too small" := by
    intro data level c hc capacity
    cases hc
    by_cases hknown : data = known
    · rw [if_pos hknown, hknown]
      rfl
    · rw [if_neg hknown]
      rfl
  constructor
  · intro data level c hc capacity hlen
    rw [hround data level c hc, if_pos hlen]
  · intro data level c hc capacity hlen
    rw [hround data level c hc, if_neg (by omega)]
    exact ⟨_, rfl⟩

/-- Enough attempts are left before the tuner reconsiders its threshold. -/
def AdaptiveTuner.Young (k : Nat) (t : AdaptiveTuner) : Prop :=
  t.minZstdPayload = 256 ∧ t.compressionAttempts + k < 32

theorem AdaptiveTuner.Young.observe {k : Nat} {t : AdaptiveTuner} (h : t.Young (k + 1))
    (before after : Nat) : (t.observeCompression before after).Young k := by
  obtain ⟨hmin, hleft⟩ := h
  have hmax : U64_MAX = 2 ^ 64 - 1 := rfl
  have hnext : saturatingAdd t.compressionAttempts 1 = t.compressionAttempts + 1 := by
    unfold saturatingAdd
    omega
  unfold observeCompression
  simp only [hnext]
  rw [if_neg (by omega)]
  exact ⟨hmin, by simp only; omega⟩

theorem AdaptiveTuner.Young.weaken {k : Nat} {t : AdaptiveTuner} (h : t.Young (k + 1)) :
    t.Young k :=
  ⟨h.1, by have := h.2; omega⟩

/-- The tuner after a first update has made at most one attempt. -/
theorem ByteStateEncoder.first_encode {X : Crates} {e : ByteStateEncoder} {state : Slice}
    {p : Packet} {k : Nat} (hprev : e.previous = none) (hyoung : e.tuner.Young (k + 1))
    (h : (e.encode X state).1 = .ok p) :
    (e.encode X state).2.policy = e.policy ∧ (e.encode X state).2.tuner.Young k := by
  unfold encode at h ⊢
  split at h
  · cases h
  rename_i hex
  rw [if_neg hex]
  simp only at h ⊢
  split at h
  · cases h
  rename_i s hs
  refine ⟨rfl, ?_⟩
  simp only
  unfold search deltas at hs
  simp only [hprev] at hs
  split at hs
  · cases hs
  rename_i s1 h1
  cases hs
  rw [(Search.tryZstd_ok h1).2]
  unfold zstdOffers
  split
  · split
    · exact hyoung.weaken
    · exact hyoung.observe _ _
  · exact hyoung.weaken

theorem putVarU64_length_pos (n : Nat) : 0 < (putVarU64 n).length := Leb128.encode_length_pos n

theorem encodeXor_length {previous current : Bytes} (h : previous.length = current.length) :
    current.length + 2 ≤ (encodeXor previous current).length := by
  have hpos := putVarU64_length_pos current.length
  unfold encodeXor
  rw [List.length_cons, List.length_append, xorBytes_length h]
  omega

theorem encodePayload_length (kind : SmartDeltaKind) (previous current : Bytes)
    (policy : SmartDeltaPolicy) : 2 ≤ (encodePayload kind previous current policy).length := by
  have hpos := putVarU64_length_pos current.length
  cases kind <;>
    simp only [encodePayload, encodeSparse, encodeRanges, encodeXor, encodeSplice, encodeChunks,
      List.length_cons, List.length_append] <;> omega

section Oversized

variable {previous current : Slice}

/-- The compressed copy of the XOR delta. -/
def compressedXor (sequence schemaHash : UInt64) (previous : Bytes) : Packet :=
  { byteDelta sequence schemaHash previous [0] with flags := 0 ||| FLAG_COMPRESSED_ZSTD }

theorem compressedXor_isCompressed (sequence schemaHash : UInt64) (previous : Bytes) :
    (compressedXor sequence schemaHash previous).isCompressed = true :=
  decide_eq_true (show (0 ||| FLAG_COMPRESSED_ZSTD) &&& FLAG_COMPRESSED_ZSTD ≠ 0 by decide)

/-- The packets compared when only the XOR delta compresses: the compressed XOR delta is
    strictly the cheapest. -/
theorem compressedXor_cheapest {e : ByteStateEncoder} (hpolicy : e.policy = V25Policy.default)
    (hprev : e.previous = some previous) (hlen : previous.bytes.length = current.bytes.length)
    (hpos : 62 ≤ current.bytes.length) {q : Packet}
    (hq : q ∈ (BytePublisher.standard e).offers
      (Crates.knowing (encodeXor previous.bytes current.bytes)) current.bytes) :
    q = compressedXor (e.sequence + 1) e.schemaHash previous.bytes ∨
      (BytePublisher.standard e).cost
          (compressedXor (e.sequence + 1) e.schemaHash previous.bytes) <
        (BytePublisher.standard e).cost q := by
  have hcost : (BytePublisher.standard e).cost
      (compressedXor (e.sequence + 1) e.schemaHash previous.bytes) = 47 := by
    show (ByteStateEncoder.searchPolicy e.policy).cost _ = 47
    unfold SearchPolicy.cost
    rw [compressedXor_isCompressed, hpolicy]
    rfl
  have hxor := encodeXor_length hlen
  have hmax : 47 < U64_MAX := by decide
  obtain ⟨raw, hraw, hcopy⟩ := BytePublisher.offers_mem hq
  have hraw2 : 2 ≤ raw.payload.length := by
    cases hraw with
    | snapshot => exact Nat.le_trans (by decide) hpos
    | delta _ hc =>
      rw [(encodeCandidates_mem.mp hc).2]
      exact encodePayload_length _ _ _ _
  have hexpensive : 2 ≤ q.payload.length → 47 < (BytePublisher.standard e).cost q := by
    intro h2
    refine Nat.not_le.mp fun hle => ?_
    have hlen' := encodedLen_le_of_cost _ hle hmax
    have hdef : q.encodedLen = HEADER_LEN + q.payload.length := rfl
    have h46 : HEADER_LEN = 46 := rfl
    omega
  rw [hcost]
  rcases hcopy with rfl | ⟨level, hc⟩
  · exact .inr (hexpensive hraw2)
  have hpay : (if raw.payload = encodeXor previous.bytes current.bytes then [0]
      else 1 :: raw.payload) = q.payload := Except.ok.inj hc.compressed
  by_cases hknown : raw.payload = encodeXor previous.bytes current.bytes
  · rw [if_pos hknown] at hpay
    left
    cases hraw with
    | snapshot =>
      have hsame : current.bytes = encodeXor previous.bytes current.bytes := hknown
      have := congrArg List.length hsame
      omega
    | @delta previous' c hprev' _ =>
      have heq : some previous = some previous' := hprev.symm.trans hprev'
      cases heq
      rw [hc.eq, ← hpay]
      rfl
  · rw [if_neg hknown] at hpay
    refine .inr (hexpensive ?_)
    rw [← hpay, List.length_cons]
    omega

/-- It is compared, as long as the tuner still tries every candidate. -/
theorem compressedXor_mem {e : ByteStateEncoder} (hpolicy : e.policy = V25Policy.default)
    (hprev : e.previous = some previous) (hlen : previous.bytes.length = current.bytes.length)
    (hpos : 256 ≤ current.bytes.length) (hyoung : e.tuner.Young 6) :
    compressedXor (e.sequence + 1) e.schemaHash previous.bytes ∈
      (BytePublisher.standard e).offers
        (Crates.knowing (encodeXor previous.bytes current.bytes)) current.bytes := by
  have hxor := encodeXor_length hlen
  have hraws : ((byteSnapshot (e.sequence + 1) e.schemaHash current.bytes ::
      (e.deltas (e.sequence + 1) current.bytes).map (·.1))).length = 6 := by
    unfold ByteStateEncoder.deltas encodeCandidates
    simp [hprev, hlen]
  have hcompressed : Packet.zstdCandidate (Crates.knowing (encodeXor previous.bytes current.bytes))
      (byteDelta (e.sequence + 1) e.schemaHash previous.bytes
        (encodeXor previous.bytes current.bytes)) 1 8 =
      .ok (compressedXor (e.sequence + 1) e.schemaHash previous.bytes) := by
    have hsmall : saturatingAdd 1 8 = 9 := by decide
    have hraw : (byteDelta (e.sequence + 1) e.schemaHash previous.bytes
        (encodeXor previous.bytes current.bytes)).isCompressed = false :=
      Packet.delta_isCompressed _ _ _ _ _
    have hpay : (byteDelta (e.sequence + 1) e.schemaHash previous.bytes
        (encodeXor previous.bytes current.bytes)).payload =
        encodeXor previous.bytes current.bytes := rfl
    unfold Packet.zstdCandidate
    rw [hraw, hpay, if_neg (by simp; omega)]
    simp only [Crates.knowing, if_true, List.length_singleton, hsmall]
    rw [if_neg (by omega)]
    rfl
  refine @compressed_mem_offers _ _ _ AdaptiveTuner.Young _ _ ?_ ?_ ?_ ?_
    (by rw [hpolicy]; exact hcompressed) (compressedXor_isCompressed _ _ _) _ _ ?_ ?_
  · exact fun k l r c hl => hl.observe _ _
  · exact fun k l hl => hl.weaken
  · rw [hpolicy]
    rfl
  · intro k l hl
    refine decide_eq_true ?_
    rw [hl.1]
    show 256 ≤ (encodeXor previous.bytes current.bytes).length
    omega
  · rw [hraws]
    exact hyoung
  · refine List.mem_cons_of_mem _ ?_
    unfold ByteStateEncoder.deltas encodeCandidates
    simp [hprev, hlen]

theorem selectsOversized_xor {e : ByteStateEncoder} (hpolicy : e.policy = V25Policy.default)
    (hprev : e.previous = some previous) (hlen : previous.bytes.length = current.bytes.length)
    (hmax : current.bytes.length = MAX_LOGICAL_PAYLOAD) (hyoung : e.tuner.Young 6) :
    SelectsOversized (Crates.knowing (encodeXor previous.bytes current.bytes)) (.standard e)
      current := by
  have hsize : MAX_LOGICAL_PAYLOAD = 67108864 := rfl
  have hxor := encodeXor_length hlen
  have hmem : ⟨.xor, encodeXor previous.bytes current.bytes⟩ ∈
      encodeCandidates previous.bytes current.bytes e.policy.smartDelta :=
    encodeCandidates_mem.mpr ⟨fun _ => hlen, rfl⟩
  have hover : MAX_LOGICAL_PAYLOAD < (encodeXor previous.bytes current.bytes).length := by
    omega
  have hcompress : Packet.Compresses (Crates.knowing (encodeXor previous.bytes current.bytes)) 1
      (byteDelta (e.sequence + 1) e.schemaHash previous.bytes
        (encodeXor previous.bytes current.bytes))
      (compressedXor (e.sequence + 1) e.schemaHash previous.bytes) :=
    ⟨congrArg Except.ok (if_pos rfl), rfl⟩
  refine ⟨_, _, 1, @RawOffer.delta (.standard e) (e.sequence + 1) _ previous ⟨.xor, _⟩ hprev hmem,
    rfl, hover, hcompress, ?_⟩
  exact isFirstMin_of_lt (compressedXor_mem hpolicy hprev hlen (by omega) hyoung)
    fun q hq => compressedXor_cheapest hpolicy hprev hlen (by omega) hq

/-- When only the XOR delta of two full-size states compresses, the second call selects it. -/
theorem second_call_oversized (schemaName : String)
    (hlen : previous.bytes.length = current.bytes.length)
    (hmax : current.bytes.length = MAX_LOGICAL_PAYLOAD) :
    ¬NeverOversized (Crates.knowing (encodeXor previous.bytes current.bytes))
      (.standard (.withPolicy schemaName .default)) [previous, current] := by
  have hseq : (BytePublisher.standard
      (.withPolicy schemaName .default)).sequence.toNat < U64_MAX :=
    Nat.zero_lt_of_ne_zero (by decide)
  obtain ⟨p, pub', hres⟩ := BytePublisher.encode_total
    (Crates.knowing_total (encodeXor previous.bytes current.bytes)) hseq previous
  obtain ⟨hok, rfl⟩ := Prod.mk.inj hres
  have henc := BytePublisher.encode_ok hres
  have hyoung : (ByteStateEncoder.withPolicy schemaName .default).tuner.Young (6 + 1) :=
    ⟨rfl, show 0 + (6 + 1) < 32 by decide⟩
  obtain ⟨hpolicy, hyoung'⟩ := ByteStateEncoder.first_encode rfl hyoung hok
  rintro ⟨-, hsecond, -⟩
  exact hsecond (selectsOversized_xor hpolicy henc.previous hlen hmax hyoung')

/-- The default receiver does not apply it. -/
theorem second_call_not_applied (schemaName : String)
    (hlen : previous.bytes.length = current.bytes.length)
    (hmax : current.bytes.length = MAX_LOGICAL_PAYLOAD) :
    (∀ state ∈ [previous, current], state.bytes.length ≤ MAX_LOGICAL_PAYLOAD) ∧
    deliverInOrder (Crates.knowing (encodeXor previous.bytes current.bytes))
        (.standard (.withPolicy schemaName .default)) (.new schemaName) [previous, current] ≠
      allApplied 0 [previous, current] := by
  have hstates : ∀ state ∈ [previous, current],
      state.bytes.length ≤ MAX_LOGICAL_PAYLOAD := by
    intro state hs
    rcases List.mem_cons.mp hs with rfl | hs
    · omega
    · rw [List.mem_singleton.mp hs]
      omega
  have hnum : [previous, current].length < 2 ^ 64 - 1 := by
    rw [List.length_cons, List.length_singleton]
    decide
  have ht : ByteRun.Tracks (fnv1a64 (utf8 schemaName))
      ⟨.standard (.withPolicy schemaName .default), []⟩ := ⟨rfl, rfl, rfl⟩
  refine ⟨hstates, fun heq => second_call_oversized schemaName hlen hmax ?_⟩
  have hnum' : ([] : List Slice).length + [previous, current].length ≤ U64_MAX := by
    have hmax64 : U64_MAX = 2 ^ 64 - 1 := rfl
    rw [List.length_nil]
    omega
  exact (deliverInOrder_iff (Crates.knowing_total _) (Crates.knowing_exact _) ht
    (ByteStateDecoder.new_paired schemaName) rfl (.inl ⟨rfl, rfl⟩) hstates hnum').mp heq

end Oversized

/-- Bytes without short repetitions. -/
def noise (n : Nat) : Bytes :=
  (List.range n).map fun i => UInt8.ofNat ((i * i * 40503 + i * 2654435761) / 65536)

theorem noise_length (n : Nat) : (noise n).length = n := by
  unfold noise
  rw [List.length_map, List.length_range]

/-- A state of exactly `MAX_LOGICAL_PAYLOAD` noise bytes. -/
def noiseState : Slice :=
  ⟨noise MAX_LOGICAL_PAYLOAD, by rw [noise_length]; decide⟩

/-- The same with the lowest bit of every byte flipped. -/
def flippedState : Slice :=
  ⟨(noise MAX_LOGICAL_PAYLOAD).map (· ^^^ 1), by rw [List.length_map, noise_length]; decide⟩

/-- Two states within the limits whose second packet the default receiver refuses. -/
theorem in_order_oversized_delta :
    (Crates.knowing (encodeXor noiseState.bytes flippedState.bytes)).CompressTotal ∧
    (Crates.knowing (encodeXor noiseState.bytes flippedState.bytes)).ZstdExact ∧
    (∀ state ∈ [noiseState, flippedState], state.bytes.length ≤ MAX_LOGICAL_PAYLOAD) ∧
    deliverInOrder (Crates.knowing (encodeXor noiseState.bytes flippedState.bytes))
        (.standard (.withPolicy "doc" .default)) (.new "doc") [noiseState, flippedState] ≠
      allApplied 0 [noiseState, flippedState] := by
  have hnoise : noiseState.bytes.length = MAX_LOGICAL_PAYLOAD := by
    unfold noiseState
    rw [noise_length]
  have hflipped : flippedState.bytes.length = MAX_LOGICAL_PAYLOAD := by
    unfold flippedState
    rw [List.length_map, noise_length]
  exact ⟨Crates.knowing_total _, Crates.knowing_exact _,
    second_call_not_applied "doc" (hnoise.trans hflipped.symm) hflipped⟩

end DeltaStream
