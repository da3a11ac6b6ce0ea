import DeltaStream.SessionStream

/-!
# Agreement of the two sessions

The updates of a session reach its subscriber in order as long as the packets of
`publish_state` do not overtake a recovery snapshot between its building and its publishing.

* `Agreeing.publisherStep`, `Subscribed.receive`, `Agreeing.step` — every orderly action keeps
  the invariant;
* `session_agreement` — at quiescence the subscriber has the publisher's sequence and state;
* `session_agreement_crossed` — not so when an update crosses a recovery snapshot.
-/

set_option autoImplicit false

namespace DeltaStream

open Replica Runs

/-! ## Steps of the publisher -/

section Publisher

variable {X : Crates} {c : SessionConfig}

/-- The publisher moves on without encoding or publishing. -/
theorem Agreeing.silent (h : Agreeing X c) {t : PublisherSession} (htracked : t.Tracked X)
    (hrun : t.run = c.publisher.run) (htopics : t.topics = c.publisher.topics)
    (hanswering : t.control.Answering X t.encoder)
    (hrequest : t.control.request? = c.publisher.control.request?)
    (hwaiting : t.control = .waiting ↔ c.publisher.control = .waiting) :
    Agreeing X { c with publisher := t } where
  tracked := htracked
  run := hrun ▸ h.run
  room := by
    have hroom := h.room
    rw [← hrun] at hroom
    exact hroom
  small := by
    have hencoder : t.encoder = c.publisher.encoder := congrArg TypedRun.encoder hrun
    have hsmall := h.small
    rw [← hencoder] at hsmall
    exact hsmall
  answering := hanswering
  absent hnone := ⟨hwaiting.mpr (h.absent hnone).1, (h.absent hnone).2⟩
  subscribed s hs := by
    have hsub := h.subscribed s hs
    refine ⟨hsub.topics.trans htopics.symm, hsub.replyTopic, hsub.valid, hsub.running,
      hsub.outgoing, hsub.inbox, ?_, ?_⟩
    · intro r hr
      exact hsub.request r (hrequest ▸ hr)
    · refine hsub.position.frame hrun rfl rfl rfl rfl fun hpending => ?_
      exact hpending.mono rfl (fun m hm _ _ => hm) hwaiting.mp (fun u hu => hu)

/-- While no recovery snapshot is held, `control_loop` is at home whatever is encoded. -/
theorem answering_any {e : Encoder} (h : c.publisher.control.Answering X e)
    (hheld : c.holdsSnapshot = false) (e' : Encoder) : c.publisher.control.Answering X e' := by
  unfold SessionConfig.holdsSnapshot at hheld
  cases hcontrol : c.publisher.control with
  | waiting => trivial
  | copied r s i => trivial
  | built r p =>
    rw [hcontrol] at hheld
    cases hheld
  | replying r ps =>
    rw [hcontrol] at hheld
    cases hheld
  | stopped =>
    rw [hcontrol] at h
    exact h.elim

/-- An update published on the data topic is the next of the stream. -/
theorem Positioned.next {s : SubscriberSession} (h : Positioned X c s) (hs : c.subscriber = some s)
    {t : PublisherSession} {state : AgentState} {p : Packet} {bytes : Bytes} {topic : String}
    (htopic : topic = s.topics.data) (hlog : t.run.log = c.publisher.run.log ++ [state])
    (hcontrol : t.control = c.publisher.control) (hdecode : Packet.decode X bytes = .ok p)
    (hdelivers : Delivers (c.publisher.run.log ++ [state]) (c.publisher.run.log.length + 1)
      (readAgent X p)) :
    Positioned X (SessionConfig.publish { c with publisher := t } ⟨topic, .packet bytes⟩) s := by
  obtain ⟨n, hfollows, hsync⟩ := h
  have hitems : items X s.topics.data
      (SessionConfig.publish { c with publisher := t } ⟨topic, .packet bytes⟩).stream =
      items X s.topics.data c.stream ++ [.next (readAgent X p)] := by
    rw [SessionConfig.publish_packet_items (c := { c with publisher := t }) hs (.inl htopic)
      hdecode, if_pos htopic]
  refine ⟨n, ?_, ?_⟩
  · rw [hitems]
    show Follows t.run.log n _
    rw [hlog]
    exact hfollows.next hdelivers
  · show Synced t.run.log n _ ∨ _
    rw [hlog]
    rcases hsync with hsync | ⟨hnone, hrec, hwait⟩
    · exact .inl hsync.mono
    · refine .inr ⟨hnone, hrec, fun haw => ?_⟩
      refine (hwait haw).mono rfl (fun m hm _ _ => SessionConfig.subset_publish_inbox hm)
        (fun hidle => hcontrol ▸ hidle) fun u hu => ?_
      rw [hitems]
      exact List.mem_append_left _ hu

/-- A current snapshot published on the reply topic repeats the position at the end. -/
theorem Positioned.again {s : SubscriberSession} (h : Positioned X c s)
    (hs : c.subscriber = some s) {t : PublisherSession} {p : Packet} {bytes : Bytes}
    {topic : String} {last : AgentState} (htopic : topic = s.replyTopic)
    (hne : topic ≠ s.topics.data) (hrun : t.run = c.publisher.run)
    (hdecode : Packet.decode X bytes = .ok p)
    (hread : readAgent X p = .full c.publisher.run.log.length last)
    (hlast : nth c.publisher.run.log c.publisher.run.log.length = some last) :
    Positioned X (SessionConfig.publish { c with publisher := t } ⟨topic, .packet bytes⟩) s := by
  obtain ⟨n, hfollows, hsync⟩ := h
  have hitems : items X s.topics.data
      (SessionConfig.publish { c with publisher := t } ⟨topic, .packet bytes⟩).stream =
      items X s.topics.data c.stream ++ [.again (.full c.publisher.run.log.length last)] := by
    rw [SessionConfig.publish_packet_items (c := { c with publisher := t }) hs (.inr htopic)
      hdecode, if_neg hne, hread]
  refine ⟨n, ?_, ?_⟩
  · rw [hitems]
    show Follows t.run.log n _
    rw [hrun]
    exact hfollows.again hlast
  · show Synced t.run.log n _ ∨ _
    rw [hrun]
    rcases hsync with hsync | ⟨hnone, hrec, -⟩
    · exact .inl hsync
    · refine .inr ⟨hnone, hrec, fun _ => ?_⟩
      refine .published (u := .full c.publisher.run.log.length last) ?_
      rw [hitems]
      exact List.mem_append_right _ (List.mem_singleton_self _)

/-- A call encodes its state and publishes the packet. -/
theorem Agreeing.sent (h : Agreeing X c) (hd : X.ZstdExact) (hheld : c.holdsSnapshot = false)
    {call : Nat} {state : AgentState} {p : Packet} {encoder' : Encoder} {bytes : Bytes}
    {t : PublisherSession} (hsend : SessionConfig.Sendable c.publisher state)
    (hp : TypedEncoder.Published X agentCodec c.publisher.encoder state p encoder')
    (hbytes : p.encode X = .ok bytes)
    (ht : t = { c.publisher with
      waiting := c.publisher.waiting.erase call
      encoder := encoder'
      encodedLast := some call
      updates := c.publisher.updates ++ [(p.sequence, state)]
      recording := some p })
    (htracked : t.Tracked X) :
    Agreeing X (SessionConfig.publish { c with publisher := t }
      ⟨c.publisher.topics.data, .packet bytes⟩) := by
  have hlog : t.run = ⟨encoder', c.publisher.run.log ++ [state]⟩ := by
    simp [ht, PublisherSession.run]
  have hcontrol : t.control = c.publisher.control := by rw [ht]
  obtain ⟨⟨bytes', hbytes', hdecode⟩, hdelivers⟩ := hsend.published hd h.run hp
  rw [hbytes] at hbytes'
  cases hbytes'
  have hroom := hsend.room
  have hseq : c.publisher.encoder.sequence.toNat = c.publisher.run.log.length := h.run.sequence
  have hinbox : ∀ m ∈ (SessionConfig.publish { c with publisher := t }
      ⟨c.publisher.topics.data, .packet bytes⟩).inbox, ∀ r,
      m.payload = .control (.resyncRequest r) → m ∈ c.inbox := by
    intro m hm r hr
    rcases SessionConfig.mem_publish_inbox hm with hm | rfl
    · exact hm
    · cases hr
  refine ⟨htracked, ?_, ?_, ?_, ?_, ?_, ?_⟩
  · show t.run.Tracks
    rw [hlog]
    exact h.run.step h.room hp
  · show t.run.log.length < U64_MAX
    rw [hlog, List.length_append, List.length_singleton]
    omega
  · intro s hs
    have hs : t.encoder.lastState = some s := hs
    rw [ht] at hs
    simp only at hs
    rw [hp.lastState] at hs
    cases hs
    exact hsend.fits
  · show t.control.Answering X t.encoder
    rw [hcontrol]
    exact answering_any h.answering hheld _
  · intro hnone
    obtain ⟨hidle, hempty⟩ := h.absent hnone
    refine ⟨hcontrol.trans hidle, fun m hm r hr => ?_⟩
    exact hempty m (hinbox m hm r hr) r hr
  · intro s hs
    have hsub := h.subscribed s hs
    have htopics : t.topics = c.publisher.topics := by rw [ht]
    refine ⟨hsub.topics.trans htopics.symm, hsub.replyTopic, hsub.valid, hsub.running,
      hsub.outgoing, ?_, ?_, ?_⟩
    · intro m hm r hr
      exact hsub.inbox m (hinbox m hm r hr) r hr
    · intro r hr
      exact hsub.request r (hcontrol ▸ hr)
    · exact hsub.position.next hs (congrArg SessionTopics.data hsub.topics.symm)
        (congrArg TypedRun.log hlog) hcontrol hdecode hdelivers

/-- `control_loop` publishes the snapshot it holds. -/
theorem Agreeing.replied (h : Agreeing X c) (hd : X.ZstdExact) {request : ResyncRequest}
    {p : Packet} {ps : List Packet} {bytes : Bytes} {t : PublisherSession}
    (hcontrol : c.publisher.control = .replying request (p :: ps))
    (hbytes : p.encode X = .ok bytes)
    (ht : t = { c.publisher with control := .afterReplies request ps }) (htracked : t.Tracked X) :
    Agreeing X (SessionConfig.publish { c with publisher := t }
      ⟨request.replyChannel, .packet bytes⟩) := by
  obtain ⟨rfl, hcurrent⟩ := h.replying_current hcontrol
  obtain ⟨last, bytes', hlast, hbytes', hdecode, hread⟩ := hcurrent.wire hd h.small
  rw [hbytes] at hbytes'
  cases hbytes'
  have hseq : c.publisher.encoder.sequence.toNat = c.publisher.run.log.length := h.run.sequence
  rw [hseq] at hread
  subst ht
  refine ⟨htracked, h.run, h.room, h.small, trivial, ?_, ?_⟩
  · intro hnone
    have hidle := (h.absent hnone).1
    rw [hcontrol] at hidle
    cases hidle
  · intro s hs
    have hsub := h.subscribed s hs
    have hrequest : c.publisher.control.request? = some request := by
      rw [hcontrol]
      rfl
    obtain ⟨-, hchannel⟩ := hsub.request request hrequest
    have hne : request.replyChannel ≠ s.topics.data := by
      rw [hchannel, hsub.replyTopic]
      exact SessionTopics.replyFor_ne _ _
    refine ⟨hsub.topics, hsub.replyTopic, hsub.valid, hsub.running, hsub.outgoing, ?_, ?_, ?_⟩
    · intro m hm r hr
      rcases SessionConfig.mem_publish_inbox hm with hm | rfl
      · exact hsub.inbox m hm r hr
      · cases hr
    · intro r hr
      cases hr
    · have hnth : nth c.publisher.run.log c.publisher.run.log.length = some last := by
        rw [nth_length, ← h.run.lastState]
        exact hlast
      exact hsub.position.again hs hchannel hne rfl hdecode hread hnth

end Publisher

/-! ## Steps of the subscriber -/

section Subscriber

variable {X : Crates} {c : SessionConfig} {s : SubscriberSession}

/-- A message that is no update is passed over. -/
theorem SubscriberSession.handle_other {m : TransportMessage} {data : String}
    (h : m.item X data = none) : s.handle X m = s := by
  unfold TransportMessage.item at h
  unfold handle
  cases hm : m.payload with
  | control message => rfl
  | packet bytes =>
    simp only [hm] at h
    cases hp : Packet.decode X bytes with
    | error e => simp only [hp]
    | ok p =>
      simp only [hp] at h
      cases h

/-- An update is a packet on the data topic, or on another one. -/
theorem SubscriberSession.handle_item {m : TransportMessage} {u : Item AgentState}
    (h : m.item X s.topics.data = some u) : ∃ p onData, s.handle X m = s.accept X onData p ∧
      u = if onData = true then .next (readAgent X p) else .again (readAgent X p) := by
  unfold TransportMessage.item at h
  unfold handle
  cases hm : m.payload with
  | control message =>
    simp only [hm] at h
    cases h
  | packet bytes =>
    simp only [hm] at h
    cases hp : Packet.decode X bytes with
    | error e =>
      simp only [hp] at h
      cases h
    | ok p =>
      simp only [hp] at h
      cases h
      exact ⟨p, decide (m.topic = s.topics.data), by simp only [hp],
        by simp only [decide_eq_true_eq]⟩

/-- What a subscriber is and who it is does not change. -/
theorem Subscribed.keep {stream : List TransportMessage} {s' : SubscriberSession}
    (h : Subscribed X c s) (htopics : s'.topics = s.topics) (hreply : s'.replyTopic = s.replyTopic)
    (hclient : s'.clientId = s.clientId) (hrunning : s'.stopped = s.stopped)
    (hvalid : s'.decoder.Valid) (hout : ∀ r, s'.outgoing = some (.resyncRequest r) → r.Ours s')
    (hposition : Positioned X { c with subscriber := some s', stream := stream } s') :
    Subscribed X { c with subscriber := some s', stream := stream } s' where
  topics := htopics.trans h.topics
  replyTopic := by rw [hreply, htopics, hclient, h.replyTopic]
  valid := hvalid
  running := hrunning.trans h.running
  outgoing := hout
  inbox m hm r hr := by
    obtain ⟨hlocal, hchannel⟩ := h.inbox m hm r hr
    exact ⟨hlocal, hchannel.trans hreply.symm⟩
  request r hr := by
    obtain ⟨hlocal, hchannel⟩ := h.request r hr
    exact ⟨hlocal, hchannel.trans hreply.symm⟩
  position := hposition

/-- An update applied puts the subscriber in sync. -/
theorem Subscribed.applied {stream : List TransportMessage} {p : Packet} {onData : Bool} {n : Nat}
    {t : AgentState} (h : Subscribed X c s)
    (hrec : receive s.decoder.view (readAgent X p) = (.applied n t, some (n, t)))
    (hnth : nth c.publisher.run.log n = some t)
    (hfollows : Follows c.publisher.run.log n (items X s.topics.data stream)) :
    Subscribed X { c with subscriber := some (s.accept X onData p), stream := stream }
      (s.accept X onData p) := by
  obtain ⟨d, k, hs', hvalid, hview⟩ := SubscriberSession.accept_applied onData h.valid hrec
  rw [hs']
  refine h.keep rfl rfl rfl rfl hvalid ?_ ⟨n, hfollows, .inl ⟨t, hview, hnth⟩⟩
  intro r hr
  cases hr

/-- An update that is not newer leaves it in sync. -/
theorem Subscribed.repeated {stream : List TransportMessage} {p : Packet} {onData : Bool} {n : Nat}
    (h : Subscribed X c s) (hidle : s.outgoing = none)
    (hrec : receive s.decoder.view (readAgent X p) = (.duplicate, s.decoder.view))
    (hsync : Synced c.publisher.run.log n s.decoder.view)
    (hfollows : Follows c.publisher.run.log n (items X s.topics.data stream)) :
    Subscribed X { c with subscriber := some (s.accept X onData p), stream := stream }
      (s.accept X onData p) := by
  obtain ⟨d, hs', hvalid, hview⟩ := SubscriberSession.accept_duplicate onData h.valid hrec
  rw [hs']
  refine h.keep rfl rfl rfl rfl hvalid ?_ ⟨n, hfollows, .inl (hview ▸ hsync)⟩
  intro r hr
  have hr : s.outgoing = _ := hr
  rw [hidle] at hr
  cases hr

/-- An update a subscriber without state cannot use leaves it waiting for a snapshot. -/
theorem Subscribed.missed {m : TransportMessage} {stream : List TransportMessage} {p : Packet}
    {onData : Bool} {n : Nat} (h : Subscribed X c s) (hidle : s.outgoing = none)
    (hstream : c.stream = m :: stream)
    (hitem : m.item X s.topics.data = some (.next (readAgent X p)))
    (hrec : receive s.decoder.view (readAgent X p) = (.need, none)) (hnone : s.decoder.view = none)
    (hwait : s.awaitingSnapshot = true → Pending X c s)
    (hfollows : Follows c.publisher.run.log n (items X s.topics.data stream)) :
    Subscribed X { c with subscriber := some (s.accept X onData p), stream := stream }
      (s.accept X onData p) := by
  rw [SubscriberSession.accept_need onData h.valid hrec]
  split
  · rename_i hawaiting
    refine h.keep rfl rfl rfl rfl h.valid ?_ ⟨n, hfollows, .inr ⟨hnone, fun _ => hawaiting, ?_⟩⟩
    · intro r hr
      have hr : s.outgoing = _ := hr
      rw [hidle] at hr
      cases hr
    · intro _
      refine (hwait hawaiting).mono rfl (fun m hm _ _ => hm) id fun u hu => ?_
      -- the update missed is not the snapshot awaited
      unfold items at hu
      rw [hstream, List.filterMap_cons_some hitem] at hu
      rcases List.mem_cons.mp hu with hu | hu
      · cases hu
      · exact hu
  · have hlocal : s.decoder.sequence = none := by
      rcases h.valid.cases with ⟨hseq, -, -⟩ | ⟨k, t, -, -, hview⟩
      · exact hseq
      · rw [hnone] at hview
        cases hview
    refine h.keep rfl rfl rfl rfl h.valid ?_
      ⟨n, hfollows, .inr ⟨hnone, fun _ => rfl, fun _ => .unsent rfl⟩⟩
    intro r hr
    cases hr
    exact ⟨hlocal, rfl⟩

/-- **The subscriber handles a message** and stays on the stream. -/
theorem Subscribed.receive {m : TransportMessage} {stream : List TransportMessage}
    (h : Subscribed X c s) (hstream : c.stream = m :: stream) (hidle : s.outgoing = none) :
    Subscribed X { c with subscriber := some (s.handle X m), stream := stream }
      (s.handle X m) := by
  obtain ⟨n, hfollows, hsync⟩ := h.position
  unfold items at hfollows
  rw [hstream] at hfollows
  cases hitem : m.item X s.topics.data with
  | none =>
    rw [SubscriberSession.handle_other hitem]
    rw [List.filterMap_cons_none hitem] at hfollows
    refine h.keep rfl rfl rfl rfl h.valid h.outgoing ?_
    have hitems : items X s.topics.data stream = items X s.topics.data c.stream := by
      unfold items
      rw [hstream, List.filterMap_cons_none hitem]
    refine h.position.frame rfl hitems rfl rfl rfl fun hpending => ?_
    exact hpending.mono rfl (fun m hm _ _ => hm) id fun u hu => hitems.symm ▸ hu
  | some u =>
    obtain ⟨p, onData, hhandle, rfl⟩ := SubscriberSession.handle_item hitem
    rw [hhandle]
    rw [List.filterMap_cons_some hitem] at hfollows
    cases onData with
    | true =>
      obtain ⟨hdelivers, hrest⟩ := hfollows
      rcases hsync with hsync | ⟨hnone, -, hwait⟩
      · obtain ⟨t, hrec, hnth⟩ := hsync.next hdelivers
        exact h.applied hrec hnth hrest
      · rcases lost_next hdelivers with ⟨t, hrec, hnth⟩ | hrec
        · exact h.applied (hnone ▸ hrec) hnth hrest
        · exact h.missed hidle hstream hitem (hnone ▸ hrec) hnone hwait hrest
    | false =>
      obtain ⟨⟨t, hnth, hu⟩, hrest⟩ := hfollows
      rcases hsync with hsync | ⟨hnone, -, -⟩
      · refine h.repeated hidle ?_ hsync hrest
        rw [hu]
        exact hsync.again t
      · refine h.applied (n := n) (t := t) ?_ hnth hrest
        rw [hnone, hu]
        exact lost_again n t

end Subscriber

/-! ## Steps of the control channel -/

section Control

variable {X : Crates} {c : SessionConfig}

/-- Messages other than requests come and go. -/
theorem Agreeing.inbox (h : Agreeing X c) {c' : SessionConfig}
    (hpublisher : c'.publisher = c.publisher) (hsubscriber : c'.subscriber = c.subscriber)
    (hitems : ∀ data, items X data c'.stream = items X data c.stream)
    (hrequests : ∀ m r, m.payload = .control (.resyncRequest r) → (m ∈ c'.inbox ↔ m ∈ c.inbox)) :
    Agreeing X c' where
  tracked := hpublisher ▸ h.tracked
  run := hpublisher ▸ h.run
  room := by
    rw [hpublisher]
    exact h.room
  small := by
    rw [hpublisher]
    exact h.small
  answering := by
    rw [hpublisher]
    exact h.answering
  absent hnone := by
    rw [hsubscriber] at hnone
    obtain ⟨hidle, hempty⟩ := h.absent hnone
    refine ⟨hpublisher ▸ hidle, fun m hm r hr => ?_⟩
    exact hempty m ((hrequests m r hr).mp hm) r hr
  subscribed s hs := by
    rw [hsubscriber] at hs
    have hsub := h.subscribed s hs
    refine ⟨?_, hsub.replyTopic, hsub.valid, hsub.running, hsub.outgoing, ?_, ?_, ?_⟩
    · rw [hpublisher]
      exact hsub.topics
    · intro m hm r hr
      exact hsub.inbox m ((hrequests m r hr).mp hm) r hr
    · rw [hpublisher]
      exact hsub.request
    · refine hsub.position.frame (by rw [hpublisher]) (hitems _) rfl rfl rfl fun hpending => ?_
      exact hpending.mono rfl (fun m hm r hr => (hrequests m r hr).mpr hm)
        (fun hidle => hpublisher ▸ hidle) fun u hu => hitems _ ▸ hu

/-- `control_loop` takes up a request. -/
theorem Agreeing.requested (h : Agreeing X c) {m : TransportMessage}
    {inbox : List TransportMessage} {request : ResyncRequest}
    (hwaiting : c.publisher.control = .waiting) (hinbox : c.inbox = m :: inbox)
    (hm : m.payload = .control (.resyncRequest request)) :
    Agreeing X { c with
      publisher := { c.publisher with
        control := .copied request c.publisher.state c.publisher.writer }
      inbox := inbox } := by
  have hfirst : m ∈ c.inbox := hinbox ▸ List.mem_cons_self
  have hstep : PublisherSession.Stepped X c.publisher (.copy request) _ _ := .copy hwaiting
  have htracked := (h.tracked.step (fun hb => by cases hb) hstep).1
  refine ⟨htracked, h.run, h.room, h.small, trivial, ?_, ?_⟩
  · intro hnone
    exact absurd hm ((h.absent hnone).2 m hfirst request)
  · intro s hs
    have hsub := h.subscribed s hs
    refine ⟨hsub.topics, hsub.replyTopic, hsub.valid, hsub.running, hsub.outgoing, ?_, ?_, ?_⟩
    · intro m' hm' r hr
      exact hsub.inbox m' (hinbox ▸ List.mem_cons_of_mem _ hm') r hr
    · intro r hr
      cases hr
      exact hsub.inbox m hfirst request hm
    · exact hsub.position.frame rfl rfl rfl rfl rfl fun _ =>
        .answering fun hidle => by cases hidle

/-- The subscriber publishes its control message. -/
theorem Agreeing.send (h : Agreeing X c) {s : SubscriberSession} {message : ControlMessage}
    (hs : c.subscriber = some s) (hout : s.outgoing = some message) :
    Agreeing X (SessionConfig.publish
      { c with subscriber := some { s with outgoing := none } }
      ⟨s.topics.control, .control message⟩) := by
  have hsub := h.subscribed s hs
  refine ⟨h.tracked, h.run, h.room, h.small, h.answering, (fun hnone => by cases hnone), ?_⟩
  intro s' hs'
  cases hs'
  refine ⟨hsub.topics, hsub.replyTopic, hsub.valid, hsub.running, ?_, ?_, hsub.request, ?_⟩
  · intro r hr
    cases hr
  · intro m hm r hr
    rcases SessionConfig.mem_publish_inbox hm with hm | rfl
    · exact hsub.inbox m hm r hr
    · cases hr
      exact hsub.outgoing r hout
  · refine hsub.position.frame rfl SessionConfig.publish_control_items rfl rfl rfl
      fun hpending => ?_
    cases hpending with
    | @unsent r hreq =>
      rw [hout] at hreq
      cases hreq
      refine .sent (r := r) (m := ⟨s.topics.control, .control (.resyncRequest r)⟩) ?_ rfl
      unfold SessionConfig.publish
      simp only
      rw [if_pos (congrArg SessionTopics.control hsub.topics)]
      exact List.mem_append_right _ (List.mem_singleton_self _)
    | sent hm hreq => exact .sent (SessionConfig.subset_publish_inbox hm) hreq
    | answering hbusy => exact .answering hbusy
    | published hu => exact .published (by rw [SessionConfig.publish_control_items]; exact hu)

/-- A subscriber joins, without state. -/
theorem Agreeing.subscribe (h : Agreeing X c) (clientId : String) (habsent : c.subscriber = none) :
    Agreeing X { c with
      subscriber := some (.start c.publisher.topics clientId)
      stream := [] } := by
  obtain ⟨hidle, hempty⟩ := h.absent habsent
  refine ⟨h.tracked, h.run, h.room, h.small, h.answering, (fun hnone => by cases hnone), ?_⟩
  intro s hs
  cases hs
  refine ⟨rfl, rfl, TypedDecoder.default_valid, rfl, ?_, ?_, ?_, ?_⟩
  · intro r hr
    cases hr
  · intro m hm r hr
    exact absurd hr (hempty m hm r)
  · intro r hr
    rw [hidle] at hr
    cases hr
  · exact ⟨_, rfl, .inr ⟨rfl, (fun hrec => by cases hrec), (fun hwait => by cases hwait)⟩⟩

end Control

/-! ## Runs -/

section Runs

variable {X : Crates} {c c' : SessionConfig}

/-- A snapshot built in order carries what was encoded last. -/
theorem Agreeing.built (h : Agreeing X c) {request : ResyncRequest} {state : AgentState}
    {writer : Option Nat} {snapshot : Packet}
    (hcontrol : c.publisher.control = .copied request state writer)
    (hsnap : Encoder.recoverySnapshot X c.publisher.encoder state = .ok snapshot)
    (horder : c.publisher.copiedLast = true) : Current X c.publisher.encoder snapshot := by
  obtain ⟨r, s, i, hcopied, hlast⟩ := PublisherSession.copiedLast_iff.mp horder
  rw [hcontrol] at hcopied
  cases hcopied
  obtain ⟨s, hcall, hs, -⟩ := h.tracked.encoded i hlast
  rw [h.tracked.copied _ _ i hcontrol] at hcall
  cases hcall
  have hfits := h.small state hs
  have hlimit := wire_limit
  exact ⟨state, hs, TypedEncoder.recoverySnapshot_ok hsnap,
    TypedEncoder.recoverySnapshot_length hsnap rfl (by omega)⟩

/-- The publisher's part of `Agreeing.step`. -/
theorem Agreeing.publisherStep (hX : X.CompressTotal) (hd : X.ZstdExact) (h : Agreeing X c)
    {a : PublisherAction} {t : PublisherSession} {out : List Published}
    (hlocal : a.onLocal = true) (hallowed : c.Orderly (.publisher a))
    (hs : PublisherSession.Stepped X c.publisher a t out) :
    Agreeing X (SessionConfig.publishAll { c with publisher := t } out) := by
  have horder : PublisherSession.InOrder c.publisher a := by
    rintro rfl
    exact hallowed
  have htracked := (h.tracked.step horder hs).1
  cases hs with
  | write state => exact h.silent htracked rfl rfl h.answering rfl Iff.rfl
  | encodeFailed free waits hcall he =>
    exact absurd hX ((TypedEncoder.encode_error he).2 agentCodec_lawful)
  | unsent free waits hcall he hlost =>
    obtain ⟨-, hsend⟩ := hallowed
    obtain ⟨⟨bytes, hbytes, -⟩, -⟩ :=
      (hsend _ hcall).published hd h.run (TypedEncoder.encode_ok he)
    rcases hlost with hlost | ⟨err, herr⟩
    · rw [hlost] at hlocal
      cases hlocal
    · rw [hbytes] at herr
      cases herr
  | sent free waits hcall he hbytes =>
    obtain ⟨hheld, hsend⟩ := hallowed
    exact h.sent hd hheld (hsend _ hcall) (TypedEncoder.encode_ok he) hbytes rfl htracked
  | record held => exact h.silent htracked rfl rfl h.answering rfl Iff.rfl
  | copy hcontrol => cases hlocal
  | build free hcontrol hsnap =>
    refine h.silent htracked rfl rfl (h.built hcontrol hsnap hallowed) ?_ ?_
    · rw [hcontrol]
      rfl
    · rw [hcontrol]
      exact ⟨(fun hidle => by cases hidle), (fun hidle => by cases hidle)⟩
  | @plan request snapshot plan hcontrol hplan =>
    have hcurrent := h.answering
    rw [hcontrol] at hcurrent
    rw [h.plan_eq hcontrol] at hplan
    cases hplan
    refine h.silent htracked rfl rfl ⟨snapshot, rfl, hcurrent⟩ ?_ ?_
    · rw [hcontrol]
      rfl
    · rw [hcontrol]
      exact ⟨(fun hidle => by cases hidle), (fun hidle => by cases hidle)⟩
  | reply hcontrol hbytes => exact h.replied hd hcontrol hbytes rfl htracked
  | buildFailed hcontrol hsnap =>
    obtain ⟨p, hp⟩ := TypedEncoder.recoverySnapshot_total agentCodec_lawful hX
      c.publisher.encoder _
    have hp : Encoder.recoverySnapshot X c.publisher.encoder _ = .ok p := hp
    rw [hp] at hsnap
    cases hsnap
  | planFailed hcontrol hplan =>
    rw [h.plan_eq hcontrol] at hplan
    cases hplan
  | replyFailed hcontrol hlost =>
    obtain ⟨-, hcurrent⟩ := h.replying_current hcontrol
    obtain ⟨-, bytes, -, hbytes, -⟩ := hcurrent.wire hd h.small
    rcases hlost with hlost | ⟨err, herr⟩
    · rw [hlost] at hlocal
      cases hlocal
    · rw [hbytes] at herr
      cases herr

/-- **Every orderly action** keeps the invariant. -/
theorem Agreeing.step (hX : X.CompressTotal) (hd : X.ZstdExact) (h : Agreeing X c)
    {a : SessionAction} (hallowed : c.Orderly a) (hs : SessionConfig.Stepped X c a c') :
    Agreeing X c' := by
  cases hs with
  | publisher hlocal hs => exact h.publisherStep hX hd hlocal hallowed hs
  | @ignored m inbox hinbox hm =>
    refine h.inbox rfl rfl (fun _ => rfl) fun m' r hr => ?_
    rw [hinbox, List.mem_cons]
    exact ⟨.inr, fun hmem => hmem.resolve_left fun heq => hm r (heq ▸ hr)⟩
  | @greeted m inbox channel clientId version hinbox hm =>
    refine h.inbox rfl rfl (fun _ => SessionConfig.publish_control_items) fun m' r hr => ?_
    rw [hinbox, List.mem_cons]
    constructor
    · intro hmem
      rcases SessionConfig.mem_publish_inbox hmem with hmem | rfl
      · exact .inr hmem
      · cases hr
    · intro hmem
      exact SessionConfig.subset_publish_inbox (hmem.resolve_left fun heq => hm r (heq ▸ hr))
  | requested hwaiting hinbox hm => exact h.requested hwaiting hinbox hm
  | subscribe clientId habsent => exact h.subscribe clientId habsent
  | @receive s m stream hs hstream hidle hrunning =>
    refine ⟨h.tracked, h.run, h.room, h.small, h.answering, (fun hnone => by cases hnone), ?_⟩
    intro s' hs'
    cases hs'
    exact (h.subscribed s hs).receive hstream hidle
  | send hs hout => exact h.send hs hout

theorem Agreeing.new (topics : SessionTopics) (initial : AgentState) :
    Agreeing X (SessionConfig.new topics initial) where
  tracked := PublisherSession.new_tracked X topics initial
  run := ⟨rfl, rfl⟩
  room := Nat.pos_of_ne_zero (by decide)
  small s hs := by cases hs
  answering := trivial
  absent _ := ⟨rfl, fun m hm => absurd hm List.not_mem_nil⟩
  subscribed s hs := by cases hs

theorem SessionConfig.Run.agreeing (hX : X.CompressTotal) (hd : X.ZstdExact)
    (h : SessionConfig.Run X SessionConfig.Orderly c) : Agreeing X c := by
  induction h with
  | start base initial => exact .new _ initial
  | step _ ha hs ih => exact ih.step hX hd ha (SessionConfig.step_sound hs)

/-- A subscriber that has received data has the publisher's sequence and its latest published
    state. -/
def SessionConfig.Agreed (c : SessionConfig) : Prop :=
  ∀ s, c.subscriber = some s → s.received = true →
    s.decoder.sequence = some c.publisher.encoder.sequence ∧
      ∃ state, s.decoder.state = some state ∧ c.publisher.encoder.lastState = some state

/-- **Agreement at quiescence** in every run whose actions are all orderly, however publisher,
    control loop and subscriber interleave. -/
theorem session_agreement (hX : X.CompressTotal) (hd : X.ZstdExact)
    (h : SessionConfig.Run X SessionConfig.Orderly c) (hq : c.Quiescent) : c.Agreed := by
  intro s hs hreceived
  have hagree := h.agreeing hX hd
  have hsub := hagree.subscribed s hs
  obtain ⟨n, hfollows, hsync⟩ := hsub.position
  rw [hq.stream] at hfollows
  have hn : n = c.publisher.run.log.length := hfollows
  subst hn
  rcases hsync with ⟨state, hview, hnth⟩ | ⟨-, hrec, hwait⟩
  · rw [← hagree.run.sequence] at hview
    obtain ⟨hseq, hstate⟩ := TypedDecoder.sequence_of_view hview
    rw [nth_length, ← hagree.run.lastState] at hnth
    exact ⟨hseq, state, hstate, hnth⟩
  · -- nothing is pending any more
    cases hwait (hrec hreceived) with
    | unsent hout =>
      rw [hq.outgoing s hs] at hout
      cases hout
    | sent hm _ =>
      rw [hq.inbox] at hm
      cases hm
    | answering hbusy =>
      rcases hq.control with hidle | hstopped
      · exact (hbusy hidle).elim
      · have hanswering := hagree.answering
        rw [hstopped] at hanswering
        exact hanswering.elim
    | published hu =>
      rw [hq.stream] at hu
      cases hu

end Runs

/-- A subscriber joins after the first update, receives the second and asks for a snapshot. -/
def joined : List SessionAction :=
  [.publisher (.write (idleAgent 0)), .publisher (.encode 0 true), .publisher .record,
    .subscribe "client", .send, .control, .receive,
    .publisher (.write busyAgent), .publisher (.encode 1 true), .publisher .record,
    .receive, .send, .control, .publisher .build]

/-- It gets the snapshot. -/
def answered : List SessionAction :=
  [.publisher .plan, .publisher (.reply true), .receive, .send, .control]

/-- A third update is published while `control_loop` holds the snapshot of the second. -/
def crossed : List SessionAction :=
  [.publisher (.write (idleAgent 0)), .publisher (.encode 2 true), .publisher .record, .receive]

/-- What is seen of a configuration at the end of a run. -/
def outcome (c : SessionConfig) : Bool × Option (Bool × Option UInt64) × UInt64 :=
  (decide c.Quiescent, c.subscriber.map (fun s => (s.received, s.decoder.sequence)),
    c.publisher.encoder.sequence)

/-- A late subscriber agrees. -/
theorem session_agreement_joined : ∃ c s,
    SessionConfig.Run .stored SessionConfig.Orderly c ∧ c.Quiescent ∧ c.subscriber = some s ∧
      s.received = true ∧ c.Agreed := by
  have hdone : (perform (SessionConfig.step .stored) (fun c a => decide (c.Orderly a))
      (joined ++ answered) (.new (.new "agent") (idleAgent 0))).map outcome =
      some (true, some (true, some 2), 2) := by decide +kernel
  obtain ⟨c, hp, hc⟩ := Option.map_eq_some_iff.mp hdone
  have hrun : SessionConfig.Run .stored SessionConfig.Orderly c :=
    perform_keeps (fun _ _ _ hrun ha hs => hrun.step (of_decide_eq_true ha) hs) hp
      (.start "agent" (idleAgent 0))
  obtain ⟨hq, hrest⟩ := Prod.mk.inj hc
  have hq := of_decide_eq_true hq
  obtain ⟨s, hs, hview⟩ := Option.map_eq_some_iff.mp (Prod.mk.inj hrest).1
  exact ⟨c, s, hrun, hq, hs, (Prod.mk.inj hview).1,
    session_agreement Crates.stored_total Crates.stored_exact hrun hq⟩

/-- The snapshot of the second update arrives after the third, which the subscriber has
    discarded, and nothing is sent any more. -/
theorem session_agreement_crossed : ∃ c,
    SessionConfig.Run .stored (fun _ _ => True) c ∧ c.Quiescent ∧ ¬c.Agreed := by
  have hdone : (perform (SessionConfig.step .stored) (fun _ _ => true)
      (joined ++ crossed ++ answered) (.new (.new "agent") (idleAgent 0))).map outcome =
      some (true, some (true, some 2), 3) := by decide +kernel
  obtain ⟨c, hp, hc⟩ := Option.map_eq_some_iff.mp hdone
  have hrun : SessionConfig.Run .stored (fun _ _ => True) c :=
    perform_keeps (fun _ _ _ hrun _ hs => hrun.step trivial hs) hp (.start "agent" (idleAgent 0))
  obtain ⟨hq, hrest⟩ := Prod.mk.inj hc
  obtain ⟨hsub, hseq⟩ := Prod.mk.inj hrest
  obtain ⟨s, hs, hview⟩ := Option.map_eq_some_iff.mp hsub
  obtain ⟨hreceived, hlocal⟩ := Prod.mk.inj hview
  refine ⟨c, hrun, of_decide_eq_true hq, fun hagreed => ?_⟩
  have hagree := (hagreed s hs hreceived).1
  rw [hlocal, hseq] at hagree
  exact absurd hagree (by decide)

end DeltaStream
