import DeltaStream.Relay
import DeltaStream.TypedStream

/-!
# The typed stream over the relay

A publisher whose bytes go to a subscriber through the WebSocket relay.  The relay is one of the
channels of `Lib/Soup`: what it hands to a subscription was published before.

* `Relay.Accounted.inFlight` — what a subscription receives are bytes of the publisher's packets;
* `relay_stream` — so the subscriber holds the state published under its number, and the latest
  one once the publisher's current recovery snapshot has come through.
-/

set_option autoImplicit false

namespace DeltaStream

open Replica Soup

variable {T : Type} {X : Crates} {S : Serde T} {config : DecodeConfig} {J : FrameText}

/-- Every payload of the stream goes to `receive`. -/
def Subscriber.receiveAll (X : Crates) (S : Serde T) (s : Subscriber T) (ms : List WireMessage) :
    Subscriber T :=
  ms.foldl (fun s m => (s.receive X S m.payload).2) s

theorem Subscriber.receiveAll_eq (config : DecodeConfig) (s : Subscriber T)
    (ms : List WireMessage) :
    s.receiveAll X S ms =
      (ms.map fun m => .wire m.payload).foldl (typedChannel X S config).receive s := by
  unfold receiveAll
  rw [List.foldl_map]
  rfl

/-- Whoever publishes on the topics of the subscription publishes bytes of the publisher. -/
def OnlyFrom (J : FrameText) (sent : List Message) (r : Relay) (s : Subscription) : Prop :=
  ∀ m ∈ publishes J r.sent, s.wants m = true →
    ∃ bytes, Message.wire bytes ∈ sent ∧ m.2 = hexEncode bytes

theorem Relay.Accounted.inFlight {r : Relay} (h : r.Accounted J) {s : Subscription}
    (hs : s ∈ r.subscriptions) {sent : List Message} (honly : OnlyFrom J sent r s) :
    ∀ m ∈ s.messages.map fun m => Message.wire m.payload, m ∈ sent := by
  intro m hm
  obtain ⟨w, hw, rfl⟩ := List.mem_map.mp hm
  obtain ⟨⟨topic, hex⟩, hm, hwants, hdelivered⟩ := h.source hs hw
  obtain ⟨bytes, hbytes, hhex⟩ := honly _ hm hwants
  have hhex : hex = hexEncode bytes := hhex
  rw [hhex, delivered_hexEncode] at hdelivered
  cases hdelivered
  exact hbytes

/-- **The typed stream over the relay.**  Whatever the relay loses, reorders or cuts off: if only
    the publisher's bytes are published on the topics of a subscription, the subscriber fed from it
    holds the state published under its number.  The publisher's current recovery snapshot can be
    taken, and if its bytes are among what a subscriber within whose limits it is was fed, that
    subscriber holds the publisher's latest state under the publisher's number. -/
theorem relay_stream (hJ : J.Lawful) (hS : S.Lawful) (hsame : ∀ a b, S.SameWhereEqual a b)
    (hX : X.CompressTotal) (hd : X.ZstdExact) {c : Config (TypedRun T) Message (Subscriber T)}
    (hc : Reachable (typedChannel X S config) c) {r : Relay} (hr : Relay.Reachable J r)
    {s : Subscription} (hs : s ∈ r.subscriptions) (honly : OnlyFrom J c.sent r s) :
    (∀ k, (c.rcv.receiveAll X S s.messages).sequence = some k →
      ∃ state, nth c.pub.log k.toNat = some state ∧
        (c.rcv.receiveAll X S s.messages).state = some state) ∧
    ∀ last text, c.pub.log.getLast? = some last → S.toVec last = .ok text →
      text.length ≤ config.maxDecompressedBytes →
      ∃ p, c.pub.encoder.recoverySnapshot X (serdeCodec S) last = .ok p ∧
        (text.length ≤ MAX_WIRE_PAYLOAD → ∃ bytes, p.encode X = .ok bytes) ∧
        ∀ bytes, p.encode X = .ok bytes → p.encodedLen ≤ config.maxPacketBytes →
          (∃ m ∈ s.messages, m.payload = bytes) →
          (c.rcv.receiveAll X S s.messages).sequence = some c.pub.encoder.sequence ∧
            (c.rcv.receiveAll X S s.messages).state = some last := by
  have hrefines := typedChannel_refines hS hsame hd.inverts config
  have hinFlight := (hr.accounted hJ).inFlight hs honly
  rw [Subscriber.receiveAll_eq config]
  have hfed := hc.deliverAll hinFlight
  refine ⟨?_, ?_⟩
  · intro k hk
    have hvalid := (hrefines.invariant.reachable hfed).rcv.1
    obtain ⟨state, hstate, hview⟩ := hvalid.stream.view_of_sequence hk
    exact ⟨state, hrefines.consistent hfed _ _ hview, hstate⟩
  · intro last text hlast htext hfits
    have hstate : (serdeCodec S).encodeState last = .ok text := htext
    obtain ⟨p, hp⟩ := TypedEncoder.recoverySnapshot_of_encodes hX c.pub.encoder hstate
    refine ⟨p, hp, fun hwire => TypedEncoder.recoverySnapshot_wire hp hstate hwire, ?_⟩
    rintro _ hbytes hmax ⟨m, hm, rfl⟩
    have htracks := (hrefines.invariant.reachable hc).pub
    have hread : Message.read X (serdeCodec S) config (.wire m.payload) =
        .full c.pub.log.length last := by
      unfold Message.read
      simp only [Packet.decodeWithConfig_encode hbytes hmax]
      rw [← htracks.sequence]
      exact (TypedEncoder.recoverySnapshot_ok hp).read_fits (serdeCodec_lawful hS) hd
        (StateCodec.encodes_within hstate hfits)
    obtain ⟨t, hview, ht⟩ := hrefines.current hc hinFlight
      (List.mem_map.mpr ⟨m, hm, rfl⟩) hread
    rw [hlast] at ht
    cases ht
    rw [← htracks.sequence] at hview
    exact TypedDecoder.sequence_of_view hview

open Relay in
/-- A switch that is turned on, published once, and received through the relay. -/
theorem relay_stream_switch : ∃ c r s,
    Reachable (typedChannel Crates.stored Switch.serde .default) c ∧
      Relay.Reachable (threeFrames (hexEncode onWire)) r ∧ s ∈ r.subscriptions ∧
      (c.rcv.receiveAll .stored Switch.serde s.messages).sequence = some 1 ∧
      (c.rcv.receiveAll .stored Switch.serde s.messages).state = some ⟨true⟩ := by
  have henc : TypedEncoder.encode Crates.stored (serdeCodec Switch.serde) (.withPolicy .default)
      ⟨true⟩ = (.ok onPacket, _) := rfl
  have hforms : Message.forms Crates.stored [onPacket] = [.packet onPacket, .wire onWire] := by
    decide +kernel
  have h0 : Reachable (typedChannel Crates.stored Switch.serde .default)
      ⟨⟨.withPolicy .default, []⟩, [], .withDecodeConfig .default⟩ :=
    .initial ⟨⟨_, rfl⟩, rfl, rfl⟩
  have hc := h0.step (.publish ⟨_, .encoded (by decide) henc, rfl⟩)
  have hdistinct : Distinct (hexEncode onWire) := by decide +kernel
  have hr := oneMessage_reachable hdistinct (hexDecode_hexEncode _ _ onWire)
  have honly : ∀ s, OnlyFrom (threeFrames (hexEncode onWire))
      (Message.forms Crates.stored [onPacket] ++ [])
      (oneMessage (hexEncode onWire) onWire) s := by
    intro s m hm _
    rw [oneMessage_publishes hdistinct] at hm
    rw [List.mem_singleton.mp hm, hforms]
    refine ⟨onWire, List.mem_cons_of_mem _ List.mem_cons_self, ?_⟩
    dsimp only
  have hall := relay_stream (threeFrames_lawful hdistinct) Switch.serde_lawful Switch.serde_same
    Crates.stored_total Crates.stored_exact hc hr List.mem_cons_self (honly _)
  have hencode : onPacket.encode .stored = .ok onWire := by decide +kernel
  have hrecovery : TypedEncoder.recoverySnapshot Crates.stored (serdeCodec Switch.serde)
      ⟨1, some ⟨true⟩, .default, none⟩ ⟨true⟩ = .ok onPacket := by decide +kernel
  have htext : Switch.serde.toVec ⟨true⟩ = .ok (Switch.text ⟨true⟩) := rfl
  obtain ⟨p, hp, -, hcurrent⟩ := hall.2 ⟨true⟩ _ rfl htext (by decide +kernel)
  cases hp.symm.trans hrecovery
  have hcurrent := hcurrent onWire hencode (by decide +kernel)
    ⟨⟨"agent", onWire⟩, List.mem_cons_self, rfl⟩
  exact ⟨_, _, _, hc, hr, List.mem_cons_self, hcurrent⟩

end DeltaStream
