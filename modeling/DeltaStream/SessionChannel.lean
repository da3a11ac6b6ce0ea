import DeltaStream.Agreement
import DeltaStream.Lib.Run
import DeltaStream.Recovery
import DeltaStream.SubscriberRun

/-!
# The sessions over any transport

A publisher session whose messages may be lost, repeated, delayed and reordered, and a subscriber
session that anybody may send other messages to, that may drop a packet intentionally and that may
end and be started again.  Requests reach `control_loop` from any number of subscribers, in any
order and whether or not one sent them.

* `Delivering` — the invariant of the publisher: whatever the history and `control_loop` hold
  brings the state encoded under its number;
* `Delivering.plan_restores` — so a plan for a subscriber of the stream takes it to the latest
  state, whichever way it goes;
* `SubscriberRun.run_takes` — and the subscriber's loop takes the messages of the plan;
* `session_channel` — and no subscriber ever holds anything but the state of its number.
-/

set_option autoImplicit false

namespace DeltaStream

open Replica Runs Soup

/-! ## What the publisher holds -/

/-- The packets `control_loop` has yet to publish. -/
def ControlPhase.packets : ControlPhase → List Packet
  | .built _ snapshot => [snapshot]
  | .replying _ packets => packets
  | _ => []

theorem packets_afterReplies (request : ResyncRequest) (ps : List Packet) :
    (ControlPhase.afterReplies request ps).packets = ps := by
  cases ps <;> rfl

def Published.bytes : Published → Bytes
  | .data _ bytes => bytes
  | .reply _ _ bytes => bytes

namespace PublisherSession

/-- The packets that are kept to be published again. -/
def Holds (t : PublisherSession) (p : Packet) : Prop :=
  p ∈ t.history.packets ∨ t.recording = some p ∨ p ∈ t.control.packets

/-- Recovery snapshots are built in order, and the states passed are sendable. -/
def Careful (t : PublisherSession) : PublisherAction → Prop
  | .encode call _ => ∀ state ∈ t.calls[call]?, SessionConfig.Sendable t state
  | .build => t.copiedLast = true
  | _ => True

instance (t : PublisherSession) : (a : PublisherAction) → Decidable (t.Careful a)
  | .encode call _ =>
    inferInstanceAs (Decidable (∀ state ∈ t.calls[call]?, SessionConfig.Sendable t state))
  | .build => inferInstanceAs (Decidable (t.copiedLast = true))
  | .write _ | .record | .copy _ | .plan | .reply _ => .isTrue trivial

end PublisherSession

/-- The packet brings the state encoded under its number. -/
def Brings (X : Crates) (t : PublisherSession) (p : Packet) : Prop :=
  Delivers t.run.log p.sequence.toNat (readAgent X p)

structure Delivering (X : Crates) (t : PublisherSession) : Prop where
  tracked : t.Tracked X
  run : t.run.Tracks
  room : t.run.log.length < U64_MAX
  small : ∀ s, t.encoder.lastState = some s → (encodeAgentState s).length ≤ MAX_LOGICAL_PAYLOAD
  holds : ∀ p, t.Holds p → Brings X t p

namespace Delivering

variable {X : Crates} {t t' : PublisherSession}

theorem new (X : Crates) (topics : SessionTopics) (initial : AgentState) :
    Delivering X (.new topics initial) where
  tracked := PublisherSession.new_tracked X topics initial
  run := ⟨rfl, rfl⟩
  room := Nat.pos_of_ne_zero (by decide)
  small s hs := by cases hs
  holds p hp := by
    rcases hp with hp | hp | hp
    · cases hp
    · cases hp
    · cases hp

/-- An action that encodes nothing. -/
theorem silent (h : Delivering X t) (htracked : t'.Tracked X) (hrun : t'.run = t.run)
    (hholds : ∀ p, t'.Holds p → t.Holds p ∨ Brings X t p) : Delivering X t' := by
  have hencoder : t'.encoder = t.encoder := congrArg TypedRun.encoder hrun
  refine ⟨htracked, hrun ▸ h.run, hrun ▸ h.room, hencoder ▸ h.small, fun p hp => ?_⟩
  unfold Brings
  rw [hrun]
  exact (hholds p hp).elim (h.holds p) id

theorem run_snoc (t : PublisherSession) (encoder : Encoder) (n : UInt64) (state : AgentState) :
    TypedRun.mk encoder ((t.updates ++ [(n, state)]).map Prod.snd) =
      ⟨encoder, t.run.log ++ [state]⟩ := by
  simp [PublisherSession.run]

/-- A call that encodes a sendable state, whether or not its packet gets out. -/
theorem encoded (h : Delivering X t) (hd : X.ZstdExact) {state : AgentState} {p : Packet}
    {encoder' : Encoder} (hsend : SessionConfig.Sendable t state)
    (hp : TypedEncoder.Published X agentCodec t.encoder state p encoder') (htracked : t'.Tracked X)
    (hrun : t'.run = ⟨encoder', t.run.log ++ [state]⟩)
    (hholds : ∀ q, t'.Holds q → t.Holds q ∨ q = p) : Delivering X t' ∧ Brings X t' p := by
  have hroom := hsend.room
  have hlength : t.encoder.sequence.toNat = t.run.log.length := h.run.sequence
  have hnumber : p.sequence.toNat = t.run.log.length + 1 := by
    rw [hp.emits.sequence]
    exact h.run.next h.room
  have hnew : Brings X t' p := by
    obtain ⟨-, hdelivers⟩ := hsend.published hd h.run hp
    unfold Brings
    rw [hrun, hnumber]
    exact hdelivers
  refine ⟨⟨htracked, ?_, ?_, ?_, fun q hq => ?_⟩, hnew⟩
  · rw [hrun]
    exact h.run.step h.room hp
  · rw [hrun, List.length_append, List.length_singleton]
    omega
  · intro s hs
    have hencoder : t'.encoder = encoder' := congrArg TypedRun.encoder hrun
    rw [hencoder, hp.lastState] at hs
    cases hs
    exact hsend.fits
  · rcases hholds q hq with hq | rfl
    · unfold Brings
      rw [hrun]
      exact (h.holds q hq).mono
    · exact hnew

/-- A recovery snapshot built in order. -/
theorem built (h : Delivering X t) (hd : X.ZstdExact) {request : ResyncRequest}
    {state : AgentState} {writer : Option Nat} {snapshot : Packet}
    (hcontrol : t.control = .copied request state writer)
    (hsnap : Encoder.recoverySnapshot X t.encoder state = .ok snapshot)
    (horder : t.copiedLast = true) : Brings X t snapshot := by
  obtain ⟨r, s, i, hcopied, hlast⟩ := PublisherSession.copiedLast_iff.mp horder
  rw [hcontrol] at hcopied
  cases hcopied
  obtain ⟨s, hcall, hs, -⟩ := h.tracked.encoded i hlast
  rw [h.tracked.copied _ _ i hcontrol] at hcall
  cases hcall
  have hof := TypedEncoder.recoverySnapshot_ok hsnap
  have hread : readAgent X snapshot = .full t.encoder.sequence.toNat state := by
    refine hof.read_fits agentCodec_lawful hd ?_
    intro bytes hbytes
    cases hbytes
    exact h.small state hs
  unfold Brings
  rw [hread, hof.sequence_eq]
  exact ⟨rfl, h.run.nth_last (h.run.lastState.symm.trans hs)⟩

/-- **Every careful action** keeps the invariant, and what it publishes brings the state of its
    number. -/
theorem step (hX : X.CompressTotal) (hd : X.ZstdExact) (h : Delivering X t) {a : PublisherAction}
    {out : List Published} (hcareful : t.Careful a) (hs : PublisherSession.Stepped X t a t' out) :
    Delivering X t' ∧ (∃ more, t'.run.log = t.run.log ++ more) ∧
      ∀ o ∈ out, ∃ p, p.encode X = .ok o.bytes ∧ Brings X t' p := by
  have horder : PublisherSession.InOrder t a := by
    rintro rfl
    exact hcareful
  have htracked := (h.tracked.step horder hs).1
  have hsame : ∃ more, t.run.log = t.run.log ++ more := ⟨[], (List.append_nil _).symm⟩
  have hnothing : ∀ o ∈ ([] : List Published), ∃ p, p.encode X = .ok o.bytes ∧ Brings X t' p :=
    fun o ho => absurd ho List.not_mem_nil
  cases hs with
  | write state =>
    exact ⟨h.silent htracked rfl fun p hp => .inl hp, hsame, hnothing⟩
  | encodeFailed free waits hcall he =>
    exact absurd hX ((TypedEncoder.encode_error he).2 agentCodec_lawful)
  | @unsent call delivered state p encoder free waits hcall he hlost =>
    have hrun := run_snoc t encoder p.sequence state
    obtain ⟨hdelivering, -⟩ := h.encoded hd (hcareful state hcall) (TypedEncoder.encode_ok he)
      htracked hrun fun q hq => .inl hq
    exact ⟨hdelivering, ⟨[state], congrArg TypedRun.log hrun⟩, hnothing⟩
  | @sent call state p encoder bytes free waits hcall he hbytes =>
    have hrun := run_snoc t encoder p.sequence state
    obtain ⟨hdelivering, hbrings⟩ := h.encoded hd (hcareful state hcall)
      (TypedEncoder.encode_ok he) htracked hrun (by
        rintro q (hq | hq | hq)
        · exact .inl (.inl hq)
        · cases hq
          exact .inr rfl
        · exact .inl (.inr (.inr hq)))
    refine ⟨hdelivering, ⟨[state], congrArg TypedRun.log hrun⟩, fun o ho => ?_⟩
    rw [List.mem_singleton.mp ho]
    exact ⟨p, hbytes, hbrings⟩
  | @record p held =>
    refine ⟨h.silent htracked rfl ?_, hsame, hnothing⟩
    rintro q (hq | hq | hq)
    · rcases RecoveryHistory.record_mem hq with hq | rfl
      · exact .inl (.inl hq)
      · exact .inl (.inr (.inl held))
    · cases hq
    · exact .inl (.inr (.inr hq))
  | copy hcontrol =>
    refine ⟨h.silent htracked rfl ?_, hsame, hnothing⟩
    rintro q (hq | hq | hq)
    · exact .inl (.inl hq)
    · exact .inl (.inr (.inl hq))
    · cases hq
  | @build request state writer snapshot free hcontrol hsnap =>
    refine ⟨h.silent htracked rfl ?_, hsame, hnothing⟩
    rintro q (hq | hq | hq)
    · exact .inl (.inl hq)
    · exact .inl (.inr (.inl hq))
    · rw [List.mem_singleton.mp hq]
      exact .inr (h.built hd hcontrol hsnap hcareful)
  | @plan request snapshot plan hcontrol hplan =>
    refine ⟨h.silent htracked rfl ?_, hsame, hnothing⟩
    rintro q (hq | hq | hq)
    · exact .inl (.inl hq)
    · exact .inl (.inr (.inl hq))
    · rw [packets_afterReplies] at hq
      rcases RecoveryHistory.plan_mem hplan q hq with rfl | hq
      · exact .inl (.inr (.inr (by rw [hcontrol]; exact List.mem_cons_self)))
      · exact .inl (.inl hq)
  | @reply request p ps bytes hcontrol hbytes =>
    have hheld : ∀ q ∈ p :: ps, t.Holds q := by
      intro q hq
      refine .inr (.inr ?_)
      rw [hcontrol]
      exact hq
    refine ⟨h.silent htracked rfl ?_, hsame, fun o ho => ?_⟩
    · rintro q (hq | hq | hq)
      · exact .inl (.inl hq)
      · exact .inl (.inr (.inl hq))
      · rw [packets_afterReplies] at hq
        exact .inl (hheld q (List.mem_cons_of_mem _ hq))
    · rw [List.mem_singleton.mp ho]
      exact ⟨p, hbytes, h.holds p (hheld p List.mem_cons_self)⟩
  | buildFailed | planFailed | replyFailed =>
    refine ⟨h.silent htracked rfl ?_, hsame, hnothing⟩
    rintro q (hq | hq | hq)
    · exact .inl (.inl hq)
    · exact .inl (.inr (.inl hq))
    · cases hq

end Delivering

/-! ## What a plan does -/

/-- Replicas that take all the updates, rejecting none, end with the latest state. -/
structure CatchesUp (log : List AgentState) (r : Option (Nat × AgentState))
    (us : List (Update AgentState)) : Prop where
  taken : ∀ v ∈ (receiveAll r us).1, v ≠ .rejected
  latest : ∃ last, log.getLast? = some last ∧ (receiveAll r us).2 = some (log.length, last)

/-- A snapshot of the latest state. -/
theorem catchesUp_full {log : List AgentState} {r : Option (Nat × AgentState)}
    (hcons : Consistent log r) {last : AgentState} (hlast : nth log log.length = some last) :
    CatchesUp log r [.full log.length last] where
  taken v hv := by
    have hnumber : (Update.full log.length last).number? = some log.length := rfl
    rw [List.mem_singleton.mp hv, receive_of_number hnumber]
    split <;> exact nofun
  latest := by
    have hgenuine : Genuine log (.full log.length last) := hlast
    obtain ⟨s, hheld, hs⟩ := (receive_consistent hgenuine hcons).last (stale_receive_full _ _ _)
    exact ⟨s, hs, hheld⟩

namespace Delivering

variable {X : Crates} {t : PublisherSession} {r : Option (Nat × AgentState)}
  {request : ResyncRequest} {snapshot : Packet} {last : AgentState}

/-- The snapshot `control_loop` has built brings a whole state. -/
theorem built_read (h : Delivering X t) (hd : X.ZstdExact)
    (hcontrol : t.control = .built request snapshot) : ∃ s,
      readAgent X snapshot = .full snapshot.sequence.toNat s ∧
      nth t.run.log snapshot.sequence.toNat = some s := by
  have hbrings := h.holds snapshot (.inr (.inr (by rw [hcontrol]; exact List.mem_cons_self)))
  obtain ⟨s, -, hof⟩ := h.tracked.built request snapshot hcontrol
  unfold Brings at hbrings
  rcases hof.read agentCodec_lawful hd.inverts with hread | hread
  · have hread : readAgent X snapshot = .full snapshot.sequence.toNat s := hread
    rw [hread] at hbrings
    exact ⟨s, hread, hbrings.2⟩
  · have hread : readAgent X snapshot = .broken snapshot.sequence.toNat := hread
    rw [hread] at hbrings
    exact hbrings.elim

/-- A full chain of retained packets up to the latest state. -/
theorem catchesUp_replay (h : Delivering X t) (hcons : Consistent t.run.log r)
    {localSeq : UInt64} {held : AgentState} (hlocal : r = some (localSeq.toNat, held))
    (hlast : nth t.run.log t.run.log.length = some last)
    (hlength : snapshot.sequence.toNat = t.run.log.length)
    (hfull : t.history.FullChain localSeq snapshot) :
    CatchesUp t.run.log r
      ((t.history.retained (localSeq + 1) snapshot.sequence).map (readAgent X)) := by
  obtain ⟨hchain, htotal⟩ := hfull
  have hready : Ready t.run.log localSeq.toNat r := .inr ⟨held, hlocal, .inr (hcons _ _ hlocal)⟩
  have hdelivers : ∀ i u,
      ((t.history.retained (localSeq + 1) snapshot.sequence).map (readAgent X))[i]? = some u →
        Delivers t.run.log (localSeq.toNat + i + 1) u := by
    intro i u hu
    rw [List.getElem?_map] at hu
    obtain ⟨p, hp, rfl⟩ := Option.map_eq_some_iff.mp hu
    have hmem := (RecoveryHistory.retained_mem (List.mem_of_getElem? hp)).1
    have hbrings := h.holds p (.inl hmem)
    unfold Brings at hbrings
    rw [(hchain.get hp).1, Nat.add_right_comm] at hbrings
    exact hbrings
  obtain ⟨happlied, hended⟩ := replay_delivers hready hdelivers
  rw [List.length_map, htotal, hlength] at hended
  obtain ⟨hpos, -⟩ := nth_lt hlast
  constructor
  · intro v hv
    obtain ⟨i, hi⟩ := List.mem_iff_getElem?.mp hv
    obtain ⟨s, rfl, -⟩ := happlied i v hi
    exact nofun
  · rcases hended with ⟨-, hzero⟩ | ⟨s, hs, hzero | hnth⟩
    · omega
    · omega
    · rw [nth_length] at hnth
      exact ⟨s, hnth, hs⟩

/-- **A plan restores** a replica of the stream that is where the request says, whichever way the
    plan goes, if nothing was encoded since the snapshot was built. -/
theorem plan_restores (h : Delivering X t) (hd : X.ZstdExact) (hcons : Consistent t.run.log r)
    (hcontrol : t.control = .built request snapshot)
    (hcurrent : snapshot.sequence = t.encoder.sequence)
    (hlocal : ∀ k, request.localSequence = some k → ∃ s, r = some (k.toNat, s))
    {plan : RecoveryPlan} (hplan : t.history.plan request.localSequence snapshot = .ok plan) :
    CatchesUp t.run.log r (plan.packets.map (readAgent X)) := by
  obtain ⟨last, hread, hlast⟩ := h.built_read hd hcontrol
  have hsequence : t.encoder.sequence.toNat = t.run.log.length := h.run.sequence
  have hlength : snapshot.sequence.toNat = t.run.log.length := by rw [hcurrent, hsequence]
  rw [hlength] at hread hlast
  have hsnapshot : CatchesUp t.run.log r ([snapshot].map (readAgent X)) := by
    rw [List.map_singleton, hread]
    exact catchesUp_full hcons hlast
  cases hseq : request.localSequence with
  | none =>
    rw [hseq] at hplan
    cases hplan
    exact hsnapshot
  | some localSeq =>
    rw [hseq] at hplan
    obtain ⟨held, hheld⟩ := hlocal localSeq hseq
    rcases t.history.plan_cases localSeq snapshot with hcase | ⟨hcase, -, -, hfull, -⟩
    · rw [hcase] at hplan
      cases hplan
      exact hsnapshot
    · rw [hcase] at hplan
      cases hplan
      exact h.catchesUp_replay hcons hheld hlast hlength hfull

end Delivering

/-! ## The channel -/

def Published.wire (topics : SessionTopics) : Published → WireMessage
  | .data _ bytes => ⟨topics.data, bytes⟩
  | .reply channel _ bytes => ⟨channel, bytes⟩

theorem Published.wire_payload (topics : SessionTopics) (o : Published) :
    (o.wire topics).payload = o.bytes := by
  cases o <;> rfl

/-- Between the publisher and one of its subscribers. -/
def sessionChannel (X : Crates) (parse : Bytes → Option ControlMessage)
    (dropOnce : Option UInt64) : System PublisherSession WireMessage SubscriberRun where
  initial t r :=
    (∃ topics initial, t = .new topics initial) ∧ ∃ topics clientId, r = .start topics clientId
  publish t ms t' :=
    (∃ a out, t.Careful a ∧ t.step X a = some (t', out) ∧ ms = out.map (Published.wire t.topics)) ∨
      -- anybody may publish what is not a packet
      (t' = t ∧ ∃ m err, ms = [m] ∧ Packet.decode X m.payload = .error err)
  receive r m := if r.session.stopped then r else r.step X parse dropOnce m
  internal _ r' := ∃ topics clientId, r' = .start topics clientId

/-- The update a message brings. -/
def WireMessage.read (X : Crates) (m : WireMessage) : Update AgentState :=
  (Message.wire m.payload).read X agentCodec .default

section Channel

variable {X : Crates} {parse : Bytes → Option ControlMessage} {dropOnce : Option UInt64}

theorem WireMessage.read_ok {m : WireMessage} {p : Packet}
    (h : Packet.decode X m.payload = .ok p) : m.read X = readAgent X p := by
  have h : Packet.decodeWithConfig X m.payload .default = .ok p := h
  unfold WireMessage.read Message.read
  simp only [h]
  rfl

theorem WireMessage.read_error {m : WireMessage} {err : DeltaError}
    (h : Packet.decode X m.payload = .error err) : m.read X = .foreign := by
  have h : Packet.decodeWithConfig X m.payload .default = .error err := h
  unfold WireMessage.read Message.read
  simp only [h]

theorem Brings.genuine {t : PublisherSession} {p : Packet} (h : Brings X t p) {m : WireMessage}
    (hbytes : p.encode X = .ok m.payload) : Genuine t.run.log (m.read X) := by
  have hform : Message.wire m.payload ∈ Message.forms X [p] := by
    simp [Message.forms, hbytes]
  obtain ⟨q, hq, hread⟩ : ∃ q ∈ [p],
      (Message.wire m.payload).read X agentCodec .default = readAgent X q ∨
        (Message.wire m.payload).read X agentCodec .default = .foreign :=
    Message.read_forms hform
  rw [List.mem_singleton.mp hq] at hread
  unfold WireMessage.read
  rcases hread with hread | hread
  · rw [hread]
    exact Delivers.genuine h
  · rw [hread]
    trivial

theorem Delivering.publish (hX : X.CompressTotal) (hd : X.ZstdExact) {t t' : PublisherSession}
    {ms : List WireMessage} (h : Delivering X t)
    (hp : (sessionChannel X parse dropOnce).publish t ms t') :
    Delivering X t' ∧ (∃ more, t'.run.log = t.run.log ++ more) ∧
      ∀ m ∈ ms, Genuine t'.run.log (m.read X) := by
  rcases hp with ⟨a, out, hcareful, hs, rfl⟩ | ⟨rfl, m, err, rfl, herr⟩
  · obtain ⟨h', hgrows, hout⟩ := h.step hX hd hcareful (PublisherSession.step_sound hs)
    refine ⟨h', hgrows, fun m hm => ?_⟩
    obtain ⟨o, ho, rfl⟩ := List.mem_map.mp hm
    obtain ⟨p, hbytes, hbrings⟩ := hout o ho
    rw [← o.wire_payload t.topics] at hbytes
    exact hbrings.genuine hbytes
  · refine ⟨h, ⟨[], (List.append_nil _).symm⟩, fun m' hm => ?_⟩
    rw [List.mem_singleton.mp hm, WireMessage.read_error herr]
    trivial

/-- What is known of a subscriber. -/
structure Streams (h : List AgentState) (s : SubscriberSession) : Prop where
  valid : s.decoder.Valid
  consistent : Consistent h s.decoder.view

theorem SubscriberRun.receive_packet {r : SubscriberRun} {m : WireMessage} {p : Packet}
    (h : r.receive X parse dropOnce m = .packet p) : Packet.decode X m.payload = .ok p := by
  unfold SubscriberRun.receive at h
  split at h
  · cases h
  split at h
  · cases h
  · rename_i packet hdecode
    split at h
    · cases h
    · cases h
      exact hdecode

theorem Streams.start (log : List AgentState) (topics : SessionTopics) (clientId : String) :
    Streams log (SubscriberRun.start topics clientId).session where
  valid := TypedDecoder.default_valid
  consistent := consistent_none log

theorem Streams.step {log : List AgentState} {r : SubscriberRun} (h : Streams log r.session)
    {m : WireMessage} (hm : Genuine log (m.read X)) :
    Streams log (r.step X parse dropOnce m).session := by
  unfold SubscriberRun.step
  split
  · exact h
  · exact h
  · rename_i p hreceive
    rw [WireMessage.read_ok (SubscriberRun.receive_packet hreceive)] at hm
    have hdecoder := (r.session.accept_effect X (decide (m.topic = r.session.topics.data)) p).1
    have happly : receive r.session.decoder.view (readAgent X p) =
        (TypedDecoder.verdict (r.session.decoder.applyPacket X p).1,
          (r.session.decoder.applyPacket X p).2.view) := TypedDecoder.apply_receive h.valid p
    have hconsistent := receive_consistent hm h.consistent
    rw [happly, ← hdecoder] at hconsistent
    refine ⟨?_, hconsistent⟩
    show TypedDecoder.Valid (r.session.accept X _ p).decoder
    rw [hdecoder]
    exact TypedDecoder.apply_valid h.valid p

/-- No packet is the text of a control message: a packet starts with the magic bytes. -/
def PlainPackets (X : Crates) (parse : Bytes → Option ControlMessage) : Prop :=
  ∀ bytes p, Packet.decode X bytes = .ok p → parse bytes = none

/-- The messages that carry packets. -/
def CarriedBy (X : Crates) (ps : List Packet) (ms : List WireMessage) : Prop :=
  List.Forall₂ (fun p m => p.encode X = .ok m.payload) ps ms

theorem decode_of_encode {p : Packet} {bytes : Bytes} (h : p.encode X = .ok bytes) :
    Packet.decode X bytes = .ok p := by
  refine Packet.decodeWithConfig_encode h ?_
  exact Nat.add_le_add_left (Packet.encode_ok h).2.1 _

namespace SubscriberRun

variable {r : SubscriberRun} {m : WireMessage} {p : Packet}

/-- A packet that is neither a greeting nor to be dropped reaches the decoder. -/
theorem receive_encoded (hparse : PlainPackets X parse) (hbytes : p.encode X = .ok m.payload)
    (hdrop : r.dropped = true ∨ dropOnce = none) : r.receive X parse dropOnce m = .packet p := by
  have hdecode := decode_of_encode hbytes
  have hplain : negotiated parse r.session m = false := by
    unfold negotiated
    rw [hparse _ _ hdecode]
    split <;> rfl
  unfold receive
  rw [hplain]
  simp only [Bool.false_eq_true, if_false, hdecode]
  rw [if_neg]
  rintro ⟨hpending, hwanted, -⟩
  rcases hdrop with hdropped | hnone
  · rw [hdropped] at hpending
    cases hpending
  · rw [hnone] at hwanted
    cases hwanted

/-- A packet the replica does not reject goes through the loop as through the replica. -/
theorem step_takes (hparse : PlainPackets X parse) (hvalid : r.session.decoder.Valid)
    (hrunning : r.session.stopped = false) (hdrop : r.dropped = true ∨ dropOnce = none)
    (hbytes : p.encode X = .ok m.payload)
    (htaken : (Replica.receive r.session.decoder.view (readAgent X p)).1 ≠ .rejected) :
    (r.step X parse dropOnce m).session.stopped = false ∧
      (r.step X parse dropOnce m).session.decoder.Valid ∧
      (r.step X parse dropOnce m).session.decoder.view =
        (Replica.receive r.session.decoder.view (readAgent X p)).2 ∧
      (r.step X parse dropOnce m).dropped = r.dropped := by
  have happly : Replica.receive r.session.decoder.view (readAgent X p) =
      (TypedDecoder.verdict (r.session.decoder.applyPacket X p).1,
        (r.session.decoder.applyPacket X p).2.view) := TypedDecoder.apply_receive hvalid p
  obtain ⟨hdecoder, hstopped⟩ :=
    r.session.accept_effect X (decide (m.topic = r.session.topics.data)) p
  have hrejects : r.session.decoder.rejects X p = false := by
    rw [happly] at htaken
    unfold Decoder.rejects
    cases hcall : (r.session.decoder.applyPacket X p).1 with
    | ok result => rfl
    | error err =>
      rw [hcall] at htaken
      exact absurd rfl htaken
  rw [hrunning, hrejects] at hstopped
  unfold step
  rw [receive_encoded hparse hbytes hdrop, happly]
  refine ⟨hstopped, ?_, congrArg TypedDecoder.view hdecoder, rfl⟩
  show TypedDecoder.Valid (r.session.accept X _ p).decoder
  rw [hdecoder]
  exact TypedDecoder.apply_valid hvalid p

/-- **Packets the replica rejects none of** go through the loop as through the replica. -/
theorem run_takes (hparse : PlainPackets X parse) (hdrop : r.dropped = true ∨ dropOnce = none)
    {ps : List Packet} {ms : List WireMessage} (hcarried : CarriedBy X ps ms)
    (hvalid : r.session.decoder.Valid) (hrunning : r.session.stopped = false)
    (htaken : ∀ v ∈ (receiveAll r.session.decoder.view (ps.map (readAgent X))).1, v ≠ .rejected) :
    (r.run X parse dropOnce ms).session.stopped = false ∧
      (r.run X parse dropOnce ms).session.decoder.view =
        (receiveAll r.session.decoder.view (ps.map (readAgent X))).2 := by
  induction hcarried generalizing r with
  | nil => exact ⟨hrunning, rfl⟩
  | @cons p m ps ms hbytes _ ih =>
    obtain ⟨hkept, hvalid', hview, hdropped⟩ :=
      step_takes hparse hvalid hrunning hdrop hbytes (htaken _ List.mem_cons_self)
    rw [run_running hrunning]
    have hlater := ih (hdropped ▸ hdrop) hvalid' hkept (by
      rw [hview]
      exact fun v hv => htaken v (List.mem_cons_of_mem _ hv))
    rw [hview] at hlater
    exact hlater

end SubscriberRun

theorem sessionChannel_invariant (hX : X.CompressTotal) (hd : X.ZstdExact) :
    Invariant (sessionChannel X parse dropOnce) (Delivering X)
      (fun t m => Genuine t.run.log (m.read X)) (fun t r => Streams t.run.log r.session) where
  initial := by
    rintro t r ⟨⟨topics, initial, rfl⟩, topics', clientId, rfl⟩
    exact ⟨.new X topics initial, .start _ topics' clientId⟩
  publish hI hp := ⟨(hI.publish hX hd hp).1, (hI.publish hX hd hp).2.2⟩
  message := by
    intro t ms t' m hI hp hm
    obtain ⟨-, ⟨more, hmore⟩, -⟩ := hI.publish hX hd hp
    rw [hmore]
    exact hm.mono
  receiver := by
    intro t ms t' r hI hp hr
    obtain ⟨-, ⟨more, hmore⟩, -⟩ := hI.publish hX hd hp
    rw [hmore]
    exact ⟨hr.valid, hr.consistent.mono⟩
  receive := by
    intro t m r _ hm hr
    show Streams t.run.log (if r.session.stopped then r else r.step X parse dropOnce m).session
    split
    · exact hr
    · exact hr.step hm
  internal := by
    rintro t r r' - ⟨topics, clientId, rfl⟩
    exact .start _ topics clientId

/-- **The sessions over any transport**, in every run whose snapshots are built in order and whose
    states are sendable: whatever the transport loses, repeats, delays and reorders, whoever sends
    requests and whatever else is published on the topics, a subscriber holds the state encoded
    under its number, or nothing; and if the messages of the plan for its request arrive, with
    nothing encoded since the snapshot was built and no packet still to be dropped, its loop goes
    on and it holds the publisher's latest state. -/
theorem session_channel (hX : X.CompressTotal) (hd : X.ZstdExact) (hparse : PlainPackets X parse)
    {c : Config PublisherSession WireMessage SubscriberRun}
    (hc : Reachable (sessionChannel X parse dropOnce) c) :
    (∀ k, c.rcv.session.decoder.sequence = some k → ∃ state,
      nth c.pub.run.log k.toNat = some state ∧ c.rcv.session.decoder.state = some state) ∧
    ∀ request snapshot plan ms, c.pub.control = .built request snapshot →
      snapshot.sequence = c.pub.encoder.sequence →
      request.localSequence = c.rcv.session.decoder.sequence →
      c.pub.history.plan request.localSequence snapshot = .ok plan →
      CarriedBy X plan.packets ms → c.rcv.session.stopped = false →
      (c.rcv.dropped = true ∨ dropOnce = none) →
      (c.rcv.run X parse dropOnce ms).session.stopped = false ∧
        (c.rcv.run X parse dropOnce ms).session.decoder.sequence = some c.pub.encoder.sequence ∧
        ∃ last, (c.rcv.run X parse dropOnce ms).session.decoder.state = some last ∧
          c.pub.encoder.lastState = some last := by
  obtain ⟨hpub, -, hrcv⟩ := (sessionChannel_invariant hX hd).reachable hc
  constructor
  · intro k hk
    obtain ⟨state, hstate, hview⟩ := hrcv.valid.view_of_sequence hk
    exact ⟨state, hrcv.consistent _ _ hview, hstate⟩
  · intro request snapshot plan ms hcontrol hcurrent hlocal hplan hcarried hrunning hdrop
    have hheld : ∀ k, request.localSequence = some k →
        ∃ s, c.rcv.session.decoder.view = some (k.toNat, s) := by
      intro k hk
      rw [hlocal] at hk
      obtain ⟨s, -, hview⟩ := hrcv.valid.view_of_sequence hk
      exact ⟨s, hview⟩
    obtain ⟨htaken, last, hlast, hlatest⟩ :=
      hpub.plan_restores hd hrcv.consistent hcontrol hcurrent hheld hplan
    obtain ⟨hended, hview⟩ :=
      SubscriberRun.run_takes hparse hdrop hcarried hrcv.valid hrunning htaken
    have hlength : c.pub.encoder.sequence.toNat = c.pub.run.log.length := hpub.run.sequence
    rw [hlatest, ← hlength] at hview
    obtain ⟨hseq, hstate⟩ := TypedDecoder.sequence_of_view hview
    exact ⟨hended, hseq, last, hstate, hpub.run.lastState.trans hlast⟩

end Channel

/-! ## A replay -/

/-- An action of the publisher, or a message of those published delivered. -/
def channelStep (X : Crates) (c : Config PublisherSession WireMessage SubscriberRun) :
    PublisherAction ⊕ Nat → Option (Config PublisherSession WireMessage SubscriberRun)
  | .inl a =>
    match c.pub.step X a with
    | none => none
    | some (t, out) => some ⟨t, out.map (Published.wire c.pub.topics) ++ c.sent, c.rcv⟩
  | .inr n =>
    match c.sent[n]? with
    | none => none
    | some m =>
      some ⟨c.pub, c.sent,
        if c.rcv.session.stopped then c.rcv else c.rcv.step X (fun _ => none) none m⟩

def channelAllowed (c : Config PublisherSession WireMessage SubscriberRun) :
    PublisherAction ⊕ Nat → Bool
  | .inl a => decide (c.pub.Careful a)
  | .inr _ => true

theorem channelStep_reachable {X : Crates}
    {c c' : Config PublisherSession WireMessage SubscriberRun} {a : PublisherAction ⊕ Nat}
    (hc : Reachable (sessionChannel X (fun _ => none) none) c) (ha : channelAllowed c a = true)
    (hs : channelStep X c a = some c') :
    Reachable (sessionChannel X (fun _ => none) none) c' := by
  cases a with
  | inl a =>
    unfold channelStep at hs
    cases hstep : c.pub.step X a with
    | none =>
      simp [hstep] at hs
    | some next =>
      simp only [hstep, Option.some.injEq] at hs
      rw [← hs]
      exact hc.step (.publish (.inl ⟨a, next.2, of_decide_eq_true ha, hstep, rfl⟩))
  | inr n =>
    unfold channelStep at hs
    cases hm : c.sent[n]? with
    | none =>
      simp [hm] at hs
    | some m =>
      simp only [hm, Option.some.injEq] at hs
      rw [← hs]
      exact hc.step (.deliver (List.mem_of_getElem? hm))

/-- The subscriber has lost the second update and asks for it. -/
def secondLost : List (PublisherAction ⊕ Nat) :=
  [.inl (.write (idleAgent 0)), .inl (.encode 0 true), .inl .record, .inr 0,
    .inl (.write busyAgent), .inl (.encode 1 true), .inl .record,
    .inl (.copy ⟨"client", some 1, 1, "agent.reply.client"⟩), .inl .build]

def busyWire : Bytes := busyPacket.header .stored ++ busyPacket.payload

/-- It is replayed. -/
theorem session_channel_replayed : ∃ c,
    Reachable (sessionChannel .stored (fun _ => none) none) c ∧
      c.rcv.session.decoder.sequence = some 1 ∧
      (c.rcv.run .stored (fun _ => none) none
        [⟨"agent.reply.client", busyWire⟩]).session.decoder.sequence = some 2 := by
  have hdone : (perform (channelStep .stored) channelAllowed secondLost
      ⟨.new (.new "agent") (idleAgent 0), [], .start (.new "agent") "client"⟩).map (fun c =>
        ((c.pub.control, c.pub.history.plan (some 1) busySnapshot),
          c.pub.encoder.sequence, c.rcv.session.decoder.sequence, c.rcv.session.stopped)) =
      some ((.built ⟨"client", some 1, 1, "agent.reply.client"⟩ busySnapshot,
        .ok (.replay [busyPacket])), 2, some 1, false) := by
    decide +kernel
  obtain ⟨c, hp, hview⟩ := Option.map_eq_some_iff.mp hdone
  have hc : Reachable (sessionChannel .stored (fun _ => none) none) c :=
    perform_keeps (fun _ _ _ hc ha hs => channelStep_reachable hc ha hs) hp
      (.initial ⟨⟨_, _, rfl⟩, _, _, rfl⟩)
  obtain ⟨hplanned, hview⟩ := Prod.mk.inj hview
  obtain ⟨hcontrol, hplan⟩ := Prod.mk.inj hplanned
  obtain ⟨hnumber, hview⟩ := Prod.mk.inj hview
  obtain ⟨hheld, hrunning⟩ := Prod.mk.inj hview
  have hparse : PlainPackets .stored fun _ => none := fun _ _ _ => rfl
  have hbytes : busyPacket.encode .stored = .ok busyWire := by decide +kernel
  have hcarried : CarriedBy .stored [busyPacket] [⟨"agent.reply.client", busyWire⟩] :=
    .cons hbytes .nil
  obtain ⟨-, hall⟩ := session_channel Crates.stored_total Crates.stored_exact hparse hc
  have hreplayed := hall _ _ _ _ hcontrol hnumber.symm hheld.symm hplan hcarried hrunning (.inr rfl)
  exact ⟨c, hc, hheld, hreplayed.2.1.trans (congrArg some hnumber)⟩

end DeltaStream
