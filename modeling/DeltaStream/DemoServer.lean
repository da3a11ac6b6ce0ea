import DeltaStream.AgentFeed
import DeltaStream.Lib.Run

/-!
# The dashboard

Model of `src/demo_server.rs`: an encoder, a decoder and the metrics behind one lock, driven by
requests in any order.  The lock makes every interleaving of connections a sequence of requests.

* `DemoServer.Serving` — what holds between requests;
* `DemoServer.tick_ticks` — one tick: the decoder ends in the new state unless the packet was to
  be dropped, and a desync is reported, and repaired, exactly when a delta follows a lost update;
* `demo_server_serves` — so it is after any requests, none of which fails.
-/

set_option autoImplicit false

namespace DeltaStream

open Fallible Replica Runs

namespace DemoServer

/-- `Metrics` of `src/metrics.rs`. -/
structure Metrics where
  updates : Nat
  fullJsonBytes : Nat
  wireBytes : Nat
  deltaPackets : Nat
  snapshotPackets : Nat
  compressedPackets : Nat
  resyncs : Nat
  duplicates : Nat
  checksumFailures : Nat
  bytesAvoided : Nat
  deriving DecidableEq

def Metrics.default : Metrics := ⟨0, 0, 0, 0, 0, 0, 0, 0, 0, 0⟩

structure DemoState where
  current : AgentState
  encoder : Encoder
  decoder : Decoder
  metrics : Metrics
  dropNext : Bool
  deriving DecidableEq

structure TickResponse where
  state : AgentState
  metrics : Metrics
  fullBytes : Nat
  deltaBytes : Nat
  dropped : Bool
  desyncDetected : Bool
  resynced : Bool
  sequence : UInt64
  deriving DecidableEq

def freshDemo : DemoState := ⟨.demo, .default, .default, .default, false⟩

inductive Request where
  | page
  | tick
  | drop
  | reset
  | unknown
  deriving DecidableEq

/-- `match (method, path)`. -/
def route (method path : String) : Request :=
  if method = "GET" ∧ path = "/" then .page
  else if method = "GET" ∧ path = "/api/tick" then .tick
  else if method = "POST" ∧ path = "/api/drop" then .drop
  else if method = "POST" ∧ path = "/api/reset" then .reset
  else .unknown

inductive Response where
  | dashboard
  | json (response : TickResponse)
  | noContent
  | notFound
  deriving DecidableEq

/-- What becomes of a packet that is not dropped. -/
structure Delivery where
  wireBytes : Nat
  sequence : UInt64
  desyncDetected : Bool
  resynced : Bool

def resyncFailed : DeltaError := .invalidState "snapshot failed to resync decoder"

section Definitions

-- `json` stands for `serde_json::to_vec`
variable (X : Crates) (json : AgentState → Bytes)

/-- The `NeedSnapshot` branch.  A failed call leaves behind what it has done so far. -/
def resync (next : AgentState) (packetBytes : Nat) (s : DemoState) :
    Except DeltaError Delivery × DemoState :=
  let s := { s with metrics := { s.metrics with resyncs := s.metrics.resyncs + 1 } }
  match Encoder.recoverySnapshot X s.encoder next with
  | .error e => (.error e, s)
  | .ok snapshot =>
    match snapshot.encode X with
    | .error e => (.error e, s)
    | .ok bytes =>
      let s := { s with metrics :=
        { s.metrics with wireBytes := s.metrics.wireBytes + bytes.length } }
      match Decoder.applyPacket X s.decoder snapshot with
      | (.error e, decoder) => (.error e, { s with decoder })
      | (.ok (.needSnapshot _ _), decoder) => (.error resyncFailed, { s with decoder })
      | (.ok _, decoder) =>
        (.ok ⟨packetBytes + bytes.length, snapshot.sequence, true, true⟩, { s with decoder })

def deliver (packet : Packet) (next : AgentState) (packetBytes : Nat) (s : DemoState) :
    Except DeltaError Delivery × DemoState :=
  match Decoder.applyPacket X s.decoder packet with
  | (.error e, decoder) => (.error e, { s with decoder })
  | (.ok (.applied _ _), decoder) =>
    (.ok ⟨packetBytes, packet.sequence, false, false⟩, { s with decoder })
  | (.ok (.duplicate _), decoder) =>
    (.ok ⟨packetBytes, packet.sequence, false, false⟩, { s with
      decoder, metrics := { s.metrics with duplicates := s.metrics.duplicates + 1 } })
  | (.ok (.needSnapshot _ _), decoder) => resync X next packetBytes { s with decoder }

/-- What every packet published adds to the metrics. -/
def count (packet : Packet) (fullBytes packetBytes : Nat) (m : Metrics) : Metrics :=
  { m with
    updates := m.updates + 1
    fullJsonBytes := m.fullJsonBytes + fullBytes
    wireBytes := m.wireBytes + packetBytes
    deltaPackets := if packet.kind = .delta then m.deltaPackets + 1 else m.deltaPackets
    snapshotPackets := if packet.kind = .delta then m.snapshotPackets else m.snapshotPackets + 1
    compressedPackets :=
      if packet.isCompressed then m.compressedPackets + 1 else m.compressedPackets }

/-- The packet is dropped or delivered. -/
def send (packet : Packet) (next : AgentState) (packetBytes : Nat) (dropped : Bool)
    (s : DemoState) : Except DeltaError Delivery × DemoState :=
  if dropped then (.ok ⟨packetBytes, packet.sequence, false, false⟩, s)
  else deliver X packet next packetBytes s

/-- The tick of the dashboard. -/
def tick (s : DemoState) : Except DeltaError TickResponse × DemoState :=
  let next := s.current.advance
  let fullBytes := (json next).length
  match Encoder.encode X s.encoder next with
  | (.error e, encoder) => (.error e, { s with encoder })
  | (.ok packet, encoder) =>
    match packet.encode X with
    | .error e => (.error e, { s with encoder })
    | .ok bytes =>
      let sent := send X packet next bytes.length s.dropNext { s with
        encoder, dropNext := false, metrics := count packet fullBytes bytes.length s.metrics }
      match sent with
      | (.error e, s) => (.error e, s)
      | (.ok d, s') =>
        (.ok ⟨next, s'.metrics, fullBytes, d.wireBytes, s.dropNext, d.desyncDetected,
          d.resynced, d.sequence⟩, { s' with current := next })

def handle (s : DemoState) : Request → Except DeltaError Response × DemoState
  | .page => (.ok .dashboard, s)
  | .tick => ((tick X json s).1.map .json, (tick X json s).2)
  | .drop => (.ok .noContent, { s with dropNext := true })
  | .reset => (.ok .noContent, freshDemo)
  | .unknown => (.ok .notFound, s)

end Definitions

/-! ## The decoder's answers -/

section Answers

variable {X : Crates} {d : Decoder} {p : Packet} {n : Nat} {t : AgentState}

theorem applied_of_receive (hvalid : d.Valid)
    (h : receive d.view (TypedDecoder.read X agentCodec .default p) =
      (.applied n t, some (n, t))) :
    ∃ m d', Decoder.applyPacket X d p = (.ok (.applied m t), d') ∧ d'.Valid ∧
      d'.view = some (n, t) := by
  have hreceive : receive d.view (TypedDecoder.read X agentCodec .default p) = _ :=
    TypedDecoder.apply_receive hvalid p
  rw [h] at hreceive
  obtain ⟨hverdict, hview⟩ := Prod.mk.inj hreceive
  obtain ⟨m, hresult, -⟩ := TypedDecoder.verdict_applied hverdict.symm
  exact ⟨m, _, Prod.ext hresult rfl, TypedDecoder.apply_valid hvalid p, hview.symm⟩

theorem need_of_receive (hvalid : d.Valid)
    (h : receive d.view (TypedDecoder.read X agentCodec .default p) = (.need, d.view)) :
    ∃ l m, Decoder.applyPacket X d p = (.ok (.needSnapshot l m), d) := by
  have hreceive : receive d.view (TypedDecoder.read X agentCodec .default p) = _ :=
    TypedDecoder.apply_receive hvalid p
  rw [h] at hreceive
  obtain ⟨l, m, hresult⟩ := TypedDecoder.verdict_need (Prod.mk.inj hreceive).1.symm
  refine ⟨l, m, Prod.ext hresult ?_⟩
  exact TypedDecoder.apply_refused (Prod.ext hresult rfl) nofun

end Answers

/-! ## Between requests -/

/-- What holds between requests. -/
structure Serving (states : List AgentState) (s : DemoState) : Prop where
  tracks : TypedRun.Tracks ⟨s.encoder, states⟩
  last : ∀ t, states.getLast? = some t → t = s.current
  current : s.current.OfDemo
  valid : s.decoder.Valid
  position : Ready states states.length s.decoder.view ∨ Behind s.decoder.view states.length
  updates : s.metrics.updates = states.length
  kinds : s.metrics.deltaPackets + s.metrics.snapshotPackets = s.metrics.updates
  resyncs : s.metrics.resyncs ≤ s.metrics.deltaPackets
  duplicates : s.metrics.duplicates = 0

theorem serving_freshDemo : Serving [] freshDemo where
  tracks := ⟨rfl, rfl⟩
  last _ ht := nomatch ht
  current := AgentState.ofDemo_demo
  valid := TypedDecoder.default_valid
  position := .inl (.inl ⟨rfl, rfl⟩)
  updates := rfl
  kinds := rfl
  resyncs := Nat.le_refl _
  duplicates := rfl

/-! ## One tick -/

/-- What one tick does. -/
structure Ticked (json : AgentState → Bytes) (s : DemoState) (r : TickResponse)
    (s' : DemoState) : Prop where
  state : r.state = s.current.advance
  current : s'.current = r.state
  sequence : r.sequence = s'.encoder.sequence
  numbered : s'.encoder.sequence.toNat = s.encoder.sequence.toNat + 1
  metrics : r.metrics = s'.metrics
  fullBytes : r.fullBytes = (json r.state).length ∧
    s'.metrics.fullJsonBytes = s.metrics.fullJsonBytes + r.fullBytes
  wireBytes : s'.metrics.wireBytes = s.metrics.wireBytes + r.deltaBytes
  dropped : r.dropped = s.dropNext ∧ s'.dropNext = false
  /-- a packet to be dropped does not reach the decoder -/
  lost : r.dropped = true → s'.decoder = s.decoder
  /-- any other brings it up to date -/
  received : r.dropped = false →
    s'.decoder.state = some r.state ∧ s'.decoder.sequence = some r.sequence
  /-- a desync is a delta on top of a lost update -/
  desync : r.desyncDetected = true ↔
    r.dropped = false ∧ s'.metrics.deltaPackets = s.metrics.deltaPackets + 1 ∧
      s.decoder.sequence ≠ some s.encoder.sequence
  resynced : r.resynced = r.desyncDetected

section Tick

variable {X : Crates} {states : List AgentState} {s : DemoState} {packet : Packet}
  {next : AgentState}

/-- **A resync** brings a decoder that is behind to the new state. -/
theorem resync_restores (hd : X.ZstdExact) (hc : X.CompressTotal)
    (htracks : TypedRun.Tracks ⟨s.encoder, states⟩) (hnext : next.OfDemo) (hvalid : s.decoder.Valid)
    (hbehind : Behind s.decoder.view states.length) (packetBytes : Nat) :
    ∃ extra decoder,
      resync X next packetBytes s =
        (.ok ⟨packetBytes + extra, s.encoder.sequence, true, true⟩, { s with
          decoder
          metrics := { s.metrics with
            resyncs := s.metrics.resyncs + 1, wireBytes := s.metrics.wireBytes + extra } }) ∧
      decoder.Valid ∧ decoder.view = some (states.length, next) := by
  obtain ⟨snapshot, hsnapshot⟩ : ∃ p, Encoder.recoverySnapshot X s.encoder next = .ok p :=
    TypedEncoder.recoverySnapshot_total agentCodec_lawful hc s.encoder next
  have hof : SnapshotOf X agentCodec s.encoder.sequence next snapshot :=
    TypedEncoder.recoverySnapshot_ok hsnapshot
  have hsequence : s.encoder.sequence.toNat = states.length := htracks.sequence
  have hread : TypedDecoder.read X agentCodec .default snapshot = .full states.length next := by
    rw [hof.read_fits agentCodec_lawful hd (by rintro _ ⟨⟩; exact hnext.within), hsequence]
  have hlen := TypedEncoder.recoverySnapshot_length hsnapshot rfl
    (Nat.lt_of_le_of_lt (Nat.add_le_add_left hnext.within HEADER_LEN) (by decide))
  obtain ⟨raw, -, hcopy⟩ := id hof
  obtain ⟨bytes, hencode, -⟩ :=
    hcopy.wire rfl (hlen.trans (Nat.add_le_add_left hnext.within HEADER_LEN))
  obtain ⟨m, decoder, happly, hvalid', hview⟩ := applied_of_receive hvalid
    (by rw [hread]; exact receive_full_behind hbehind next)
  refine ⟨bytes.length, decoder, ?_, hvalid', hview⟩
  unfold resync
  simp only [hsnapshot, hencode, happly, hof.sequence_eq]

/-- A decoder that lost nothing is at the position a delta starts from. -/
theorem in_step {encoder : Encoder} (htracks : TypedRun.Tracks ⟨encoder, states⟩)
    {d : Decoder} (hready : Ready states states.length d.view)
    (hemits : TypedEncoder.Emits X agentCodec encoder next packet)
    (hkind : packet.kind = .delta) : d.sequence = some encoder.sequence := by
  have hsequence : encoder.sequence.toNat = states.length := htracks.sequence
  cases hemits with
  | snapshot hsnap =>
    rw [hsnap.kind_eq] at hkind
    cases hkind
  | @delta previous hprev hdelta hsmall =>
    rcases hready with ⟨-, hempty⟩ | ⟨t, hview, -⟩
    · have hlast : encoder.lastState = states.getLast? := htracks.lastState
      rw [List.length_eq_zero_iff.mp hempty, hprev] at hlast
      cases hlast
    · rw [← hsequence] at hview
      exact (TypedDecoder.sequence_of_view hview).1

/-- **One delivery** brings the decoder to the new state; it takes a resync exactly where a delta
    follows a lost update. -/
theorem deliver_delivers (hd : X.ZstdExact) (hc : X.CompressTotal) {encoder : Encoder}
    (htracks : TypedRun.Tracks ⟨encoder, states⟩) (room : states.length < U64_MAX)
    (hexact : ∀ previous ∈ encoder.lastState, agentCodec.Exact previous next)
    (hp : TypedEncoder.Published X agentCodec encoder next packet s.encoder)
    (hnext : next.OfDemo) (hvalid : s.decoder.Valid)
    (hposition : Ready states states.length s.decoder.view ∨ Behind s.decoder.view states.length)
    (packetBytes : Nat) :
    ∃ extra decoder desync,
      deliver X packet next packetBytes s =
        (.ok ⟨packetBytes + extra, s.encoder.sequence, desync, desync⟩, { s with
          decoder
          metrics := { s.metrics with
            resyncs := s.metrics.resyncs + if desync then 1 else 0
            wireBytes := s.metrics.wireBytes + extra } }) ∧
      decoder.Valid ∧ decoder.view = some (states.length + 1, next) ∧
      (desync = true ↔ packet.kind = .delta ∧ s.decoder.sequence ≠ some encoder.sequence) := by
  have hfits : ∀ bytes, agentCodec.encodeState next = .ok bytes →
      bytes.length ≤ DecodeConfig.default.maxDecompressedBytes ∧
        HEADER_LEN + bytes.length < U64_MAX := by
    rintro _ ⟨⟩
    exact ⟨hnext.within,
      Nat.lt_of_le_of_lt (Nat.add_le_add_left hnext.within HEADER_LEN) (by decide)⟩
  have hnumber : packet.sequence = s.encoder.sequence := hp.emits.sequence.trans hp.sequence.symm
  have hdelivers : Delivers (states ++ [next]) (states.length + 1)
      (TypedDecoder.read X agentCodec .default packet) :=
    htracks.delivers agentCodec_lawful hd hexact room hp.emits hfits
  -- a packet that is applied leaves no trace but the decoder
  have happlied : ∀ m decoder,
      Decoder.applyPacket X s.decoder packet = (.ok (.applied m next), decoder) →
      deliver X packet next packetBytes s =
        (.ok ⟨packetBytes + 0, s.encoder.sequence, false, false⟩, { s with
          decoder
          metrics := { s.metrics with
            resyncs := s.metrics.resyncs + 0, wireBytes := s.metrics.wireBytes + 0 } }) := by
    intro m decoder hcall
    unfold deliver
    simp only [hcall, hnumber, Nat.add_zero]
  rcases hposition with hready | hbehind
  · obtain ⟨t, hnth, hreceive⟩ := receive_delivers hdelivers hready.mono
    rw [nth_length_append] at hnth
    cases hnth
    obtain ⟨m, decoder, hcall, hvalid', hview⟩ := applied_of_receive hvalid hreceive
    refine ⟨0, decoder, false, happlied m decoder hcall, hvalid', hview, ?_⟩
    simp only [Bool.false_eq_true, false_iff, not_and, ne_eq, not_not]
    exact fun hkind => in_step htracks hready hp.emits hkind
  cases hp.emits with
  | snapshot hsnap =>
    have hread : TypedDecoder.read X agentCodec .default packet =
        .full (nextSequence encoder.sequence).toNat next :=
      hsnap.read_fits agentCodec_lawful hd fun bytes hbytes => (hfits bytes hbytes).1
    rw [htracks.next room] at hread
    obtain ⟨m, decoder, hcall, hvalid', hview⟩ := applied_of_receive hvalid
      (by rw [hread]; exact receive_full_behind (hbehind.mono (Nat.le_succ _)) next)
    refine ⟨0, decoder, false, happlied m decoder hcall, hvalid', hview, ?_⟩
    simp [hsnap.kind_eq]
  | @delta previous hprev hdelta hsmall =>
    have hread : TypedDecoder.read X agentCodec .default packet = _ := hdelta.read
    rw [htracks.next room, htracks.base room] at hread
    obtain ⟨l, m, hcall⟩ := need_of_receive hvalid
      (by rw [hread]; exact receive_patch_behind (Nat.lt_succ_self _) hbehind)
    obtain ⟨extra, decoder, hresync, hvalid', hview⟩ := resync_restores (X := X) (s := s) hd hc
      (htracks.step room hp) hnext hvalid (by simpa using hbehind.mono (Nat.le_succ _)) packetBytes
    refine ⟨extra, decoder, true, ?_, hvalid', by simpa using hview, ?_⟩
    · unfold deliver
      simp only [hcall]
      exact hresync
    · have hsequence : encoder.sequence.toNat = states.length := htracks.sequence
      refine ⟨fun _ => ⟨hdelta.kind_eq, fun hheld => ?_⟩, fun _ => rfl⟩
      obtain ⟨t, -, hview⟩ := hvalid.view_of_sequence hheld
      have := hbehind _ _ hview
      omega

/-- The packet of a tick: dropped, or delivered. -/
theorem send_sends (hd : X.ZstdExact) (hc : X.CompressTotal) {encoder : Encoder}
    (htracks : TypedRun.Tracks ⟨encoder, states⟩) (room : states.length < U64_MAX)
    (hexact : ∀ previous ∈ encoder.lastState, agentCodec.Exact previous next)
    (hp : TypedEncoder.Published X agentCodec encoder next packet s.encoder)
    (hnext : next.OfDemo) (hvalid : s.decoder.Valid)
    (hposition : Ready states states.length s.decoder.view ∨ Behind s.decoder.view states.length)
    (packetBytes : Nat) (dropped : Bool) :
    ∃ extra decoder desync,
      send X packet next packetBytes dropped s =
        (.ok ⟨packetBytes + extra, s.encoder.sequence, desync, desync⟩, { s with
          decoder
          metrics := { s.metrics with
            resyncs := s.metrics.resyncs + if desync then 1 else 0
            wireBytes := s.metrics.wireBytes + extra } }) ∧
      decoder.Valid ∧ (dropped = true → decoder = s.decoder) ∧
      (dropped = false → decoder.view = some (states.length + 1, next)) ∧
      (desync = true ↔ dropped = false ∧ packet.kind = .delta ∧
        s.decoder.sequence ≠ some encoder.sequence) := by
  have hnumber : packet.sequence = s.encoder.sequence := hp.emits.sequence.trans hp.sequence.symm
  cases dropped with
  | true =>
    refine ⟨0, s.decoder, false, ?_, hvalid, fun _ => rfl, nofun, by simp⟩
    simp [send, hnumber]
  | false =>
    obtain ⟨extra, decoder, desync, hdeliver, hvalid', hview, hdesync⟩ :=
      deliver_delivers hd hc htracks room hexact hp hnext hvalid hposition packetBytes
    exact ⟨extra, decoder, desync, hdeliver, hvalid', nofun, fun _ => hview, by simpa using hdesync⟩

/-- **One tick** succeeds and does what it reports. -/
theorem tick_ticks (hd : X.ZstdExact) (hc : X.CompressTotal) (json : AgentState → Bytes)
    (h : Serving states s) (room : states.length < U64_MAX) :
    ∃ r s', tick X json s = (.ok r, s') ∧ Ticked json s r s' ∧
      Serving (states ++ [s.current.advance]) s' := by
  have hnext : s.current.advance.OfDemo := h.current.advance
  have hsequence : s.encoder.sequence.toNat = states.length := h.tracks.sequence
  obtain ⟨⟨packet, encoder⟩, hcall, htracks, -, -, bytes, hwire⟩ :=
    (Encoder.encode_ends hd h.tracks room hnext.within).total fun e he => he.not_total hc
  have hcall := threaded_eq_ok hcall
  have hp := TypedEncoder.encode_ok hcall
  have hexact : ∀ previous ∈ s.encoder.lastState, agentCodec.Exact previous s.current.advance := by
    intro previous hprevious
    have hlast : states.getLast? = some previous := h.tracks.lastState.symm.trans hprevious
    have hprevious : previous.OfDemo := (h.last previous hlast) ▸ h.current
    exact agentCodec_exact ((cpu_kept_iff _ _).mpr (hprevious.not_oppositeZeros hnext))
  obtain ⟨extra, decoder, desync, hsend, hvalid, hlost, hreceived, hdesync⟩ :=
    send_sends (s := { s with
        encoder, dropNext := false
        metrics := count packet (json s.current.advance).length bytes.length s.metrics })
      hd hc h.tracks room hexact hp hnext h.valid h.position bytes.length s.dropNext
  have hsequence' : encoder.sequence.toNat = states.length + 1 := by
    have := htracks.sequence
    simpa using this
  refine ⟨_, _, by simp only [tick, hcall, hwire, hsend]; rfl, ?_, ?_⟩
  · refine ⟨rfl, rfl, rfl, ?_, rfl, ⟨rfl, rfl⟩, ?_, ⟨rfl, rfl⟩, hlost, ?_, ?_, rfl⟩
    · rw [hsequence]
      exact hsequence'
    · simp [count, Nat.add_assoc]
    · intro hdropped
      have hview := hreceived hdropped
      rw [← hsequence'] at hview
      exact (TypedDecoder.sequence_of_view hview).symm
    · refine hdesync.trans (and_congr_right fun _ => and_congr_left fun _ => ?_)
      show packet.kind = .delta ↔
        (if packet.kind = .delta then s.metrics.deltaPackets + 1 else s.metrics.deltaPackets) = _
      split <;> simp_all
  · refine ⟨htracks, last_only (by simp), hnext, hvalid, ?_, ?_, ?_, ?_, h.duplicates⟩
    · rw [List.length_append, List.length_singleton]
      cases hdropped : s.dropNext with
      | false =>
        refine .inl (.inr ⟨_, hreceived hdropped, .inr (nth_length_append _ _)⟩)
      | true =>
        -- what was not up to date before, or has not been sent the update, is behind now
        rw [hlost hdropped]
        refine .inr ?_
        rcases h.position with (⟨hnone, -⟩ | ⟨t, hheld, -⟩) | hbehind
        · intro n t hview
          rw [hnone] at hview
          cases hview
        · intro n t' hview
          rw [hheld] at hview
          cases hview
          exact Nat.lt_succ_self _
        · exact hbehind.mono (Nat.le_succ _)
    · rw [List.length_append]
      exact congrArg (· + 1) h.updates
    · have hkinds := h.kinds
      simp only [count]
      split <;> omega
    · have hresyncs := h.resyncs
      simp only [count]
      cases desync with
      | false =>
        simp only [Bool.false_eq_true, if_false]
        split <;> omega
      | true =>
        rw [if_pos (hdesync.mp rfl).2.1]
        simpa using hresyncs

end Tick

/-! ## All requests -/

/-- One request, by its method and path, with its answer. -/
def Call (X : Crates) (json : AgentState → Bytes) (s : DemoState)
    (o : (String × String) × Except DeltaError Response) (s' : DemoState) : Prop :=
  handle X json s (route o.1.1 o.1.2) = (o.2, s')

variable {X : Crates} {json : AgentState → Bytes}

/-- **One request** is answered, and at most one state is published. -/
theorem handle_serves (hd : X.ZstdExact) (hc : X.CompressTotal) {states : List AgentState}
    {s : DemoState} (h : Serving states s) (room : states.length < U64_MAX) (request : Request) :
    ∃ response s', handle X json s request = (.ok response, s') ∧
      ∃ states', Serving states' s' ∧ states'.length ≤ states.length + 1 := by
  cases request with
  | page => exact ⟨_, _, rfl, states, h, Nat.le_succ _⟩
  | unknown => exact ⟨_, _, rfl, states, h, Nat.le_succ _⟩
  | reset => exact ⟨_, _, rfl, [], serving_freshDemo, Nat.zero_le _⟩
  | drop =>
    exact ⟨_, _, rfl, states, ⟨h.tracks, h.last, h.current, h.valid, h.position, h.updates,
      h.kinds, h.resyncs, h.duplicates⟩, Nat.le_succ _⟩
  | tick =>
    obtain ⟨r, s', htick, -, hserving⟩ := tick_ticks hd hc json h room
    refine ⟨.json r, s', ?_, _, hserving, by simp⟩
    show ((tick X json s).1.map Response.json, (tick X json s).2) = _
    rw [htick]
    rfl

theorem run_serves (hd : X.ZstdExact) (hc : X.CompressTotal)
    {os : List ((String × String) × Except DeltaError Response)} {s : DemoState}
    (h : Run (Call X json) freshDemo os s) (hroom : os.length ≤ U64_MAX) :
    (∃ states, Serving states s ∧ states.length ≤ os.length) ∧
      ∀ o ∈ os, ∃ response, o.2 = .ok response := by
  induction h with
  | start => exact ⟨⟨[], serving_freshDemo, Nat.le_refl _⟩, nofun⟩
  | @step os s s' o _ hcall ih =>
    rw [List.length_append, List.length_singleton] at hroom ⊢
    obtain ⟨⟨states, hserving, hlength⟩, hanswered⟩ := ih (by omega)
    obtain ⟨response, s'', hanswer, states', hserving', hlength'⟩ :=
      @handle_serves X json hd hc _ _ hserving (by omega) (route o.1.1 o.1.2)
    unfold Call at hcall
    rw [hanswer] at hcall
    obtain ⟨hresponse, rfl⟩ := Prod.mk.inj hcall
    refine ⟨⟨states', hserving', by omega⟩, ?_⟩
    intro o' ho'
    rcases List.mem_append.mp ho' with ho' | ho'
    · exact hanswered o' ho'
    · rw [List.mem_singleton.mp ho']
      exact ⟨response, hresponse.symm⟩

end DemoServer

open DemoServer in
/-- **The dashboard serves** any requests in any order: none fails, the metrics account for every
    update since the last reset, and the next tick succeeds, leaves the decoder with the new state
    unless its packet was to be dropped, and reports and repairs a desync exactly where a delta
    follows a lost update. -/
theorem demo_server_serves {X : Crates} (hd : X.ZstdExact) (hc : X.CompressTotal)
    (json : AgentState → Bytes) {os : List ((String × String) × Except DeltaError Response)}
    {s : DemoState} (h : Run (Call X json) freshDemo os s) (hroom : os.length < U64_MAX) :
    (∀ o ∈ os, ∃ response, o.2 = .ok response) ∧
      s.metrics.updates = s.encoder.sequence.toNat ∧
      s.metrics.deltaPackets + s.metrics.snapshotPackets = s.metrics.updates ∧
      s.metrics.resyncs ≤ s.metrics.deltaPackets ∧ s.metrics.duplicates = 0 ∧
      ∃ r s', tick X json s = (.ok r, s') ∧ Ticked json s r s' := by
  obtain ⟨⟨states, hserving, hlength⟩, hanswered⟩ := run_serves hd hc h (Nat.le_of_lt hroom)
  obtain ⟨r, s', htick, hticked, -⟩ := tick_ticks hd hc json hserving (by omega)
  have hsequence : s.encoder.sequence.toNat = states.length := hserving.tracks.sequence
  exact ⟨hanswered, by rw [hserving.updates, hsequence], hserving.kinds, hserving.resyncs,
    hserving.duplicates, r, s', htick, hticked⟩

open DemoServer in
/-- A tick, a request to drop the next packet and the tick that loses it; the tick after that
    resynchronises the decoder. -/
theorem demo_server_serves_lost_update :
    ∃ os s r s', Run (Call .stored fun _ => []) freshDemo os s ∧
      os.map Prod.fst = [("GET", "/api/tick"), ("POST", "/api/drop"), ("GET", "/api/tick")] ∧
      tick .stored (fun _ => []) s = (.ok r, s') ∧ r.resynced = true ∧
      s'.decoder.state = some r.state ∧ s'.decoder.sequence = some r.sequence := by
  have h1 : Run (Call .stored fun _ => []) freshDemo [(("GET", "/api/tick"), _)]
      (tick .stored (fun _ => []) freshDemo).2 := .step .start rfl
  have h2 := h1.step (o := (("POST", "/api/drop"), _)) rfl
  have h3 := h2.step (o := (("GET", "/api/tick"), _)) rfl
  obtain ⟨-, -, -, -, -, r, s', htick, hticked⟩ := demo_server_serves Crates.stored_exact
    Crates.stored_total (fun _ => []) h3 (by decide)
  have hfree : r.dropped = false := hticked.dropped.1.trans (by decide +kernel)
  have hdelta := congrArg (fun call => call.2.metrics.deltaPackets) htick
  have hdesync : r.desyncDetected = true :=
    hticked.desync.mpr ⟨hfree, hdelta.symm.trans (by decide +kernel), by decide +kernel⟩
  exact ⟨_, _, r, s', h3, rfl, htick, hticked.resynced.trans hdesync, hticked.received hfree⟩

end DeltaStream
