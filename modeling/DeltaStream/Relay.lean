import DeltaStream.HexText
import DeltaStream.SubscriberRun
import DeltaStream.Lib.Broadcast

/-!
# The WebSocket relay

Model of `src/ws_broker.rs` and of `src/transport/websocket.rs`.  Every connection to the relay
starts with one frame: a message to publish, after which it is closed, or a list of topics to
subscribe to.  Connections are read by tasks of their own, in any order; a subscription has a
receiver on the relay's broadcast bus, and its client reads what the relay writes for it.

* `Subscription.Accounted` — the invariant of a subscription: what it has received, and is on the
  way to it, is a part of what the bus carried on its topics since it subscribed, and all of it
  unless it lagged or was disconnected;
* `Relay.Accounted` — and what the bus carried is a part of what was published;
* `relay_delivers` — so a subscription gets nothing that was not published, nothing twice, nothing
  changed and nothing out of the order of the bus.
-/

set_option autoImplicit false

namespace DeltaStream

open Broadcast

/-! ## Frames -/

inductive RelayFrame where
  | publish (topic payloadHex : String)
  | subscribe (topics : List String)
  | message (topic payloadHex : String)
  deriving DecidableEq

/-- `serde_json` for `RelayFrame`, which both sides declare alike. -/
structure FrameText where
  /-- `serde_json::to_string` -/
  print : RelayFrame → Except DeltaError String
  /-- `serde_json::from_str` -/
  parse : String → Except DeltaError RelayFrame

/-- Frames are read back from what they are printed as. -/
def FrameText.Lawful (J : FrameText) : Prop :=
  ∀ frame text, J.print frame = .ok text → J.parse text = .ok frame

variable (J : FrameText)

/-- What the client makes of a text of the relay. -/
def item (text : String) : Except DeltaError WireMessage :=
  match J.parse text with
  | .error e => .error e
  | .ok (.message topic payloadHex) =>
    match WebSocket.hexDecode payloadHex with
    | .error e => .error (.transport e)
    | .ok payload => .ok ⟨topic, payload⟩
  | .ok _ => .error (.transport "unexpected websocket relay frame")

/-! ## Subscriptions -/

/-- The task of the relay, the connection and the task of the client. -/
structure Subscription where
  topics : List String
  /-- of the receiver on the bus -/
  position : Nat
  /-- texts written by the relay and not yet read by the client, oldest first -/
  arriving : List String
  /-- what the client's stream has yielded, oldest first -/
  received : List (Except DeltaError WireMessage)
  connected : Bool
  /-- for the observer: the length of the bus when it subscribed -/
  start : Nat
  /-- for the observer: its receiver has been moved -/
  lagged : Bool
  deriving DecidableEq

/-- The capacity of the broadcast channel. -/
def BUS_CAPACITY : Nat := 2048

namespace Subscription

def new (topics : List String) (length : Nat) : Subscription :=
  ⟨topics, length, [], [], true, length, false⟩

def wants (s : Subscription) (m : String × String) : Bool := s.topics.contains m.1

/-- One round of the relay's loop over `rx.recv`. -/
def forward (bus : List (String × String)) (s : Subscription) : Subscription :=
  match poll BUS_CAPACITY bus s.position with
  | .pending => s
  | .lagged position => { s with position, lagged := true }
  | .message m =>
    if s.wants m then
      match J.print (.message m.1 m.2) with
      | .error _ => { s with position := s.position + 1, connected := false }
      | .ok text => { s with position := s.position + 1, arriving := s.arriving ++ [text] }
    else { s with position := s.position + 1 }

inductive Step (bus : List (String × String)) : Subscription → Subscription → Prop where
  | forward {s : Subscription} (h : s.connected = true) : Step bus s (s.forward J bus)
  | read {s : Subscription} {text : String} {rest : List String}
      (h : s.arriving = text :: rest) :
      Step bus s { s with arriving := rest, received := s.received ++ [item J text] }
  /-- either side goes away, or the connection breaks: some texts may still arrive -/
  | disconnect (s : Subscription) (n : Nat) :
      Step bus s { s with connected := false, arriving := s.arriving.take n }
  /-- the client notices -/
  | fail (s : Subscription) (e : String) :
      Step bus s { s with
        connected := false, arriving := [], received := s.received ++ [.error (.transport e)] }

end Subscription

/-! ## The relay -/

structure Relay where
  /-- the first texts of connections the relay has not read yet -/
  connecting : List String
  /-- everything ever sent on the bus -/
  bus : List (String × String)
  subscriptions : List Subscription
  /-- for the observer: the first texts of all connections -/
  sent : List String
  deriving DecidableEq

namespace Relay

def start : Relay := ⟨[], [], [], []⟩

/-- What the relay does with the first text of a connection. -/
def accept (r : Relay) (text : String) : Relay :=
  match J.parse text with
  | .error _ => r
  | .ok (.publish topic payloadHex) => { r with bus := r.bus ++ [(topic, payloadHex)] }
  | .ok (.subscribe topics) =>
    { r with subscriptions := r.subscriptions ++ [.new topics r.bus.length] }
  | .ok (.message _ _) => r

/-- Anybody may connect and send any text first. -/
inductive Step : Relay → Relay → Prop where
  | connect (r : Relay) (text : String) :
      Step r { r with connecting := text :: r.connecting, sent := text :: r.sent }
  | accept {r : Relay} {before after : List String} {text : String}
      (h : r.connecting = before ++ text :: after) :
      Step r (accept J { r with connecting := before ++ after } text)
  /-- the connection fails before its first text is read -/
  | refuse {r : Relay} {before after : List String} {text : String}
      (h : r.connecting = before ++ text :: after) :
      Step r { r with connecting := before ++ after }
  | subscription {r : Relay} {before after : List Subscription} {s s' : Subscription}
      (h : r.subscriptions = before ++ s :: after) (hs : Subscription.Step J r.bus s s') :
      Step r { r with subscriptions := before ++ s' :: after }

inductive Reachable : Relay → Prop where
  | start : Reachable start
  | step {r r' : Relay} (h : Reachable r) (hs : Step J r r') : Reachable r'

end Relay

/-! ## What a subscription is owed -/

/-- The message a payload on the bus is delivered as. -/
def delivered (m : String × String) : Option WireMessage :=
  match WebSocket.hexDecode m.2 with
  | .error _ => none
  | .ok payload => some ⟨m.1, payload⟩

theorem delivered_hexEncode (topic : String) (payload : Bytes) :
    delivered (topic, hexEncode payload) = some ⟨topic, payload⟩ := by
  have hdecode : WebSocket.hexDecode (hexEncode payload) = .ok payload :=
    hexDecode_hexEncode _ _ payload
  unfold delivered
  simp only [hdecode]

variable {J}

theorem item_message (hJ : J.Lawful) {m : String × String} {text : String}
    (h : J.print (.message m.1 m.2) = .ok text) : (item J text).toOption = delivered m := by
  unfold item delivered
  rw [hJ _ _ h]
  simp only
  cases WebSocket.hexDecode m.2 with
  | error e => rfl
  | ok payload => rfl

namespace Subscription

/-- The messages the client's stream has yielded. -/
def messages (s : Subscription) : List WireMessage := s.received.filterMap Except.toOption

/-- With those on the way to it. -/
def carried (J : FrameText) (s : Subscription) : List WireMessage :=
  s.messages ++ s.arriving.filterMap fun text => (item J text).toOption

/-- What the bus carried for it between two positions. -/
def due (s : Subscription) (ms : List (String × String)) : List WireMessage :=
  (ms.filter s.wants).filterMap delivered

theorem due_append (s : Subscription) (ms more : List (String × String)) :
    s.due (ms ++ more) = s.due ms ++ s.due more := by
  unfold due
  rw [List.filter_append, List.filterMap_append]

theorem due_wanted {s : Subscription} {m : String × String} (h : s.wants m = true)
    (ms : List (String × String)) : s.due (ms ++ [m]) = s.due ms ++ (delivered m).toList := by
  rw [due_append]
  unfold due
  rw [List.filter_cons_of_pos h, List.filter_nil]
  cases hm : delivered m with
  | none => rw [List.filterMap_cons_none hm]; rfl
  | some w => rw [List.filterMap_cons_some hm]; rfl

theorem due_other {s : Subscription} {m : String × String} (h : ¬s.wants m = true)
    (ms : List (String × String)) : s.due (ms ++ [m]) = s.due ms := by
  rw [due_append]
  unfold due
  rw [List.filter_cons_of_neg h]
  exact List.append_nil _

theorem due_sublist (s : Subscription) {ms more : List (String × String)} (h : ms.Sublist more) :
    (s.due ms).Sublist (s.due more) :=
  (h.filter s.wants).filterMap delivered

/-- What it has received, and is on the way to it, is a part of what the bus carried for it; it is
    all of it unless it lagged or was disconnected. -/
structure Accounted (J : FrameText) (bus : List (String × String)) (s : Subscription) : Prop where
  start_le : s.start ≤ s.position
  position_le : s.position ≤ bus.length
  part : (s.carried J).Sublist (s.due (between bus s.start s.position))
  whole : s.connected = true → s.lagged = false →
    s.carried J = s.due (between bus s.start s.position)

variable {bus : List (String × String)} {s s' : Subscription}

theorem new_accounted (topics : List String) (bus : List (String × String)) :
    Accounted J bus (.new topics bus.length) where
  start_le := Nat.le_refl _
  position_le := Nat.le_refl _
  part := List.nil_sublist _
  whole _ _ := by
    show [] = due _ (between bus bus.length bus.length)
    rw [between_self]
    rfl

theorem Accounted.mono (h : s.Accounted J bus) (more : List (String × String)) :
    s.Accounted J (bus ++ more) where
  start_le := h.start_le
  position_le := by
    rw [List.length_append]
    exact Nat.le_trans h.position_le (Nat.le_add_right _ _)
  part := by
    rw [between_append h.position_le]
    exact h.part
  whole hconnected hlagged := by
    rw [between_append h.position_le]
    exact h.whole hconnected hlagged

theorem Accounted.forward (hJ : J.Lawful) (h : s.Accounted J bus) :
    (s.forward J bus).Accounted J bus := by
  unfold Subscription.forward
  split
  · exact h
  · rename_i position hpoll
    obtain ⟨hle, hlen⟩ := between_lagged hpoll
    exact ⟨Nat.le_trans h.start_le hle, hlen,
      h.part.trans (s.due_sublist (between_sublist bus hle)), fun _ hlagged => by cases hlagged⟩
  rename_i m hpoll
  obtain ⟨hlen, hnext⟩ := between_message hpoll h.start_le
  have hstart : s.start ≤ s.position + 1 := Nat.le_succ_of_le h.start_le
  split
  · rename_i hwants
    have hdue := due_wanted hwants (between bus s.start s.position)
    rw [← hnext] at hdue
    cases hprint : J.print (.message m.1 m.2) with
    | error e =>
      refine ⟨hstart, hlen, ?_, fun hconnected => by cases hconnected⟩
      show List.Sublist (s.carried J) (s.due (between bus s.start (s.position + 1)))
      rw [hdue]
      exact h.part.trans (List.sublist_append_left _ _)
    | ok text =>
      have hcarried : carried J { s with
          position := s.position + 1, arriving := s.arriving ++ [text] } =
            s.carried J ++ (delivered m).toList := by
        rw [← item_message hJ hprint]
        unfold carried messages
        rw [List.filterMap_append, List.append_assoc]
        cases hitem : (item J text).toOption <;> simp [hitem]
      refine ⟨hstart, hlen, ?_, fun hconnected hlagged => ?_⟩
      · show List.Sublist _ (s.due (between bus s.start (s.position + 1)))
        rw [hcarried, hdue]
        exact h.part.append_right _
      · show _ = s.due (between bus s.start (s.position + 1))
        rw [hcarried, hdue, h.whole hconnected hlagged]
  · rename_i hother
    have hdue := due_other hother (between bus s.start s.position)
    rw [← hnext] at hdue
    refine ⟨hstart, hlen, ?_, fun hconnected hlagged => ?_⟩
    · show List.Sublist (s.carried J) (s.due (between bus s.start (s.position + 1)))
      rw [hdue]
      exact h.part
    · show s.carried J = s.due (between bus s.start (s.position + 1))
      rw [hdue]
      exact h.whole hconnected hlagged

/-- **One step of a subscription**: what it is owed grows, and nothing else comes. -/
theorem Accounted.step (hJ : J.Lawful) (h : s.Accounted J bus) (hs : Step J bus s s') :
    s'.Accounted J bus := by
  cases hs with
  | forward _ => exact h.forward hJ
  | @read text rest harriving =>
    have hcarried : carried J { s with
        arriving := rest, received := s.received ++ [item J text] } = s.carried J := by
      unfold carried messages
      rw [harriving, List.filterMap_append, List.append_assoc]
      cases hitem : (item J text).toOption <;> simp [hitem]
    refine ⟨h.start_le, h.position_le, ?_, fun hconnected hlagged => ?_⟩
    · rw [hcarried]
      exact h.part
    · rw [hcarried]
      exact h.whole hconnected hlagged
  | disconnect n =>
    refine ⟨h.start_le, h.position_le, ?_, fun hconnected => by cases hconnected⟩
    have hless : (carried J { s with connected := false, arriving := s.arriving.take n }).Sublist
        (s.carried J) :=
      ((List.take_sublist n s.arriving).filterMap _).append_left _
    exact hless.trans h.part
  | fail e =>
    refine ⟨h.start_le, h.position_le, ?_, fun hconnected => by cases hconnected⟩
    have hless : (carried J { s with
        connected := false, arriving := [],
        received := s.received ++ [.error (.transport e)] }).Sublist (s.carried J) := by
      unfold carried messages
      rw [List.filterMap_append]
      simp [Except.toOption]
    exact hless.trans h.part

end Subscription

/-! ## What is published -/

/-- The message a first text publishes. -/
def publishOf (J : FrameText) (text : String) : Option (String × String) :=
  match J.parse text with
  | .ok (.publish topic payloadHex) => some (topic, payloadHex)
  | _ => none

def publishes (J : FrameText) (texts : List String) : List (String × String) :=
  texts.filterMap (publishOf J)

theorem count_publishes (m : String × String) (before after : List String) (text : String) :
    (publishes J (before ++ text :: after)).count m =
      (publishes J (before ++ after)).count m + (publishOf J text).toList.count m := by
  unfold publishes
  rw [List.filterMap_append, List.filterMap_append, List.count_append, List.count_append]
  cases h : publishOf J text with
  | none =>
    rw [List.filterMap_cons_none h]
    rfl
  | some w =>
    rw [List.filterMap_cons_some h, List.count_cons, Option.toList_some, List.count_singleton]
    omega

/-- What `publish` sends. -/
theorem publishOf_publish (hJ : J.Lawful) {topic : String} {payload : Bytes} {text : String}
    (h : J.print (.publish topic (hexEncode payload)) = .ok text) :
    publishOf J text = some (topic, hexEncode payload) := by
  unfold publishOf
  rw [hJ _ _ h]

namespace Relay

/-- What the relay makes of a first text. -/
theorem accept_cases (r : Relay) (text : String) :
    (accept J r text = { r with bus := r.bus ++ (publishOf J text).toList }) ∨
      ∃ topics, publishOf J text = none ∧
        accept J r text =
          { r with subscriptions := r.subscriptions ++ [.new topics r.bus.length] } := by
  unfold accept publishOf
  cases J.parse text with
  | error e => exact .inl (by simp)
  | ok frame =>
    cases frame with
    | publish topic payloadHex => exact .inl rfl
    | subscribe topics => exact .inr ⟨topics, rfl, rfl⟩
    | message topic payloadHex => exact .inl (by simp)

/-- What was published went over the bus, is still on the way to it, or is lost, each once; what
    went over the bus is accounted for by every subscription. -/
structure Accounted (J : FrameText) (r : Relay) : Prop where
  subscriptions : ∀ s ∈ r.subscriptions, s.Accounted J r.bus
  published : ∃ lost, (r.bus ++ publishes J r.connecting ++ lost).Perm (publishes J r.sent)

theorem Accounted.step {r r' : Relay} (hJ : J.Lawful) (h : r.Accounted J) (hs : Step J r r') :
    r'.Accounted J := by
  obtain ⟨lost, hperm⟩ := h.published
  rw [List.perm_iff_count] at hperm
  cases hs with
  | connect text =>
    refine ⟨h.subscriptions, lost, List.perm_iff_count.mpr fun m => ?_⟩
    have hcount := hperm m
    have hconnecting := count_publishes (J := J) m [] r.connecting text
    have hsent := count_publishes (J := J) m [] r.sent text
    simp only [List.nil_append, List.count_append] at hcount hconnecting hsent ⊢
    omega
  | @accept before after text hconnecting =>
    rcases accept_cases (J := J) { r with connecting := before ++ after } text with
      heq | ⟨topics, hnone, heq⟩
    · rw [heq]
      refine ⟨fun s hs => (h.subscriptions s hs).mono _, lost,
        List.perm_iff_count.mpr fun m => ?_⟩
      have hcount := hperm m
      rw [hconnecting] at hcount
      have hread := count_publishes (J := J) m before after text
      simp only [List.count_append] at hcount hread ⊢
      omega
    · rw [heq]
      refine ⟨fun s hs => ?_, lost, List.perm_iff_count.mpr fun m => ?_⟩
      · rcases List.mem_append.mp hs with hs | hs
        · exact h.subscriptions s hs
        · rw [List.mem_singleton.mp hs]
          exact Subscription.new_accounted topics r.bus
      · have hcount := hperm m
        rw [hconnecting] at hcount
        have hread := count_publishes (J := J) m before after text
        rw [hnone] at hread
        simp only [List.count_append, Option.toList_none, List.count_nil] at hcount hread ⊢
        omega
  | @refuse before after text hconnecting =>
    refine ⟨h.subscriptions, lost ++ (publishOf J text).toList,
      List.perm_iff_count.mpr fun m => ?_⟩
    have hcount := hperm m
    rw [hconnecting] at hcount
    have hread := count_publishes (J := J) m before after text
    simp only [List.count_append] at hcount hread ⊢
    omega
  | @subscription before after s s' hsubs hstep =>
    refine ⟨fun t ht => ?_, lost, List.perm_iff_count.mpr hperm⟩
    rcases List.mem_append.mp ht with ht | ht
    · exact h.subscriptions t (hsubs ▸ List.mem_append_left _ ht)
    rcases List.mem_cons.mp ht with rfl | ht
    · exact (h.subscriptions s (hsubs ▸ List.mem_append_right _ List.mem_cons_self)).step hJ hstep
    · exact h.subscriptions t (hsubs ▸ List.mem_append_right _ (List.mem_cons_of_mem _ ht))

theorem Reachable.accounted {r : Relay} (hJ : J.Lawful) (h : Reachable J r) : r.Accounted J := by
  induction h with
  | start => exact ⟨fun s hs => absurd hs List.not_mem_nil, [], List.Perm.refl _⟩
  | step _ hs ih => exact ih.step hJ hs

end Relay

theorem Relay.Accounted.received {r : Relay} (h : r.Accounted J) {s : Subscription}
    (hs : s ∈ r.subscriptions) : s.messages.Sublist (s.due (r.bus.drop s.start)) := by
  have hsub := h.subscriptions s hs
  have hall : (between r.bus s.start s.position).Sublist (r.bus.drop s.start) := by
    rw [← between_length]
    exact between_sublist r.bus hsub.position_le
  have hmessages : s.messages.Sublist (s.carried J) := List.sublist_append_left _ _
  exact hmessages.trans (hsub.part.trans (s.due_sublist hall))

/-- A message received was published on a topic of the subscription. -/
theorem Relay.Accounted.source {r : Relay} (h : r.Accounted J) {s : Subscription}
    (hs : s ∈ r.subscriptions) {w : WireMessage} (hw : w ∈ s.messages) :
    ∃ m ∈ publishes J r.sent, s.wants m = true ∧ delivered m = some w := by
  obtain ⟨m, hm, hdelivered⟩ := List.mem_filterMap.mp ((h.received hs).subset hw)
  obtain ⟨hbus, hwants⟩ := List.mem_filter.mp hm
  obtain ⟨lost, hperm⟩ := h.published
  have hsent : m ∈ r.bus ++ publishes J r.connecting ++ lost :=
    List.mem_append_left _ (List.mem_append_left _ (List.mem_of_mem_drop hbus))
  exact ⟨m, hperm.mem_iff.mp hsent, hwants, hdelivered⟩

/-- **What the relay delivers.**  In every run, whoever connects and whatever breaks: the messages
    a subscription has received are, in the order of the bus and each at most once, messages of
    its topics that went over the bus after it subscribed, with the payloads they were published
    with; what went over the bus was published, each message at most once.  A subscription that
    is connected, has not lagged and has nothing on the way to it has received all of them. -/
theorem relay_delivers {r : Relay} (hJ : J.Lawful) (h : Relay.Reachable J r) {s : Subscription}
    (hs : s ∈ r.subscriptions) :
    s.messages.Sublist (s.due (r.bus.drop s.start)) ∧
    (∃ lost, (r.bus ++ lost).Perm (publishes J r.sent)) ∧
    (s.connected = true → s.lagged = false → s.position = r.bus.length → s.arriving = [] →
      s.messages = s.due (r.bus.drop s.start)) ∧
    ∀ topic payload text, J.print (.publish topic (hexEncode payload)) = .ok text →
      publishOf J text = some (topic, hexEncode payload) ∧
        s.due [(topic, hexEncode payload)] =
          if topic ∈ s.topics then [⟨topic, payload⟩] else [] := by
  have haccounted := h.accounted hJ
  have hsub := haccounted.subscriptions s hs
  refine ⟨haccounted.received hs, ?_, ?_, ?_⟩
  · obtain ⟨lost, hperm⟩ := haccounted.published
    exact ⟨publishes J r.connecting ++ lost, by rw [← List.append_assoc]; exact hperm⟩
  · intro hconnected hlagged hposition harriving
    have hwhole := hsub.whole hconnected hlagged
    rw [hposition, between_length] at hwhole
    rw [← hwhole]
    unfold Subscription.carried
    rw [harriving]
    exact (List.append_nil _).symm
  · intro topic payload text htext
    refine ⟨publishOf_publish hJ htext, ?_⟩
    unfold Subscription.due Subscription.wants
    by_cases htopic : topic ∈ s.topics
    · simp [htopic, delivered_hexEncode]
    · simp [htopic]

/-! ## One message -/

namespace Relay

def subscribeText : String := "\x7b\"op\":\"subscribe\",\"topics\":[\"agent\"]\x7d"

def publishText (hex : String) : String :=
  "\x7b\"op\":\"publish\",\"topic\":\"agent\",\"payload_hex\":\"" ++ hex ++ "\"\x7d"

def messageText (hex : String) : String :=
  "\x7b\"op\":\"message\",\"topic\":\"agent\",\"payload_hex\":\"" ++ hex ++ "\"\x7d"

/-- The texts of the frames of one message on one topic. -/
def threeFrames (hex : String) : FrameText where
  print frame :=
    if frame = .subscribe ["agent"] then .ok subscribeText
    else if frame = .publish "agent" hex then .ok (publishText hex)
    else if frame = .message "agent" hex then .ok (messageText hex)
    else .error (.json "unknown frame")
  parse text :=
    if text = subscribeText then .ok (.subscribe ["agent"])
    else if text = publishText hex then .ok (.publish "agent" hex)
    else if text = messageText hex then .ok (.message "agent" hex)
    else .error (.json "unknown frame")

/-- Three texts, as they are for any hexadecimal text. -/
def Distinct (hex : String) : Prop :=
  publishText hex ≠ subscribeText ∧ messageText hex ≠ subscribeText ∧
    messageText hex ≠ publishText hex

instance (hex : String) : Decidable (Distinct hex) := inferInstanceAs (Decidable (_ ∧ _ ∧ _))

variable {hex : String}

theorem parse_subscribe : (threeFrames hex).parse subscribeText = .ok (.subscribe ["agent"]) := by
  simp [threeFrames]

theorem parse_publish (h : Distinct hex) :
    (threeFrames hex).parse (publishText hex) = .ok (.publish "agent" hex) := by
  simp [threeFrames, h.1]

theorem parse_message (h : Distinct hex) :
    (threeFrames hex).parse (messageText hex) = .ok (.message "agent" hex) := by
  simp [threeFrames, h.2.1, h.2.2]

theorem threeFrames_lawful (hdistinct : Distinct hex) : (threeFrames hex).Lawful := by
  intro frame text h
  unfold threeFrames at h
  simp only at h
  split at h
  · rename_i hframe
    cases h
    exact hframe ▸ parse_subscribe
  split at h
  · rename_i hframe
    cases h
    exact hframe ▸ parse_publish hdistinct
  split at h
  · rename_i hframe
    cases h
    exact hframe ▸ parse_message hdistinct
  · cases h

variable {bus : List (String × String)} {subs : List Subscription} {sent : List String}

/-- A connection that is read at once. -/
theorem Reachable.subscribed (h : Reachable J ⟨[], bus, subs, sent⟩) {text : String}
    {topics : List String} (hparse : J.parse text = .ok (.subscribe topics)) :
    Reachable J ⟨[], bus, subs ++ [.new topics bus.length], text :: sent⟩ := by
  have hread := (h.step (.connect _ text)).step (.accept (show [text] = [] ++ text :: [] from rfl))
  unfold accept at hread
  rw [hparse] at hread
  exact hread

theorem Reachable.published (h : Reachable J ⟨[], bus, subs, sent⟩) {text topic payloadHex : String}
    (hparse : J.parse text = .ok (.publish topic payloadHex)) :
    Reachable J ⟨[], bus ++ [(topic, payloadHex)], subs, text :: sent⟩ := by
  have hread := (h.step (.connect _ text)).step (.accept (show [text] = [] ++ text :: [] from rfl))
  unfold accept at hread
  rw [hparse] at hread
  exact hread

theorem Reachable.stepOnly {s s' : Subscription} (h : Reachable J ⟨[], bus, [s], sent⟩)
    (hs : Subscription.Step J bus s s') : Reachable J ⟨[], bus, [s'], sent⟩ := by
  have hsplit : (Relay.mk [] bus [s] sent).subscriptions = [] ++ s :: [] := rfl
  exact h.step (.subscription hsplit hs)

/-- A subscription that has received one message. -/
def onTopic (payload : Bytes) : Subscription :=
  ⟨["agent"], 1, [], [.ok ⟨"agent", payload⟩], true, 0, false⟩

/-- A client has subscribed, another has published, and the message has been read. -/
def oneMessage (hex : String) (payload : Bytes) : Relay :=
  ⟨[], [("agent", hex)], [onTopic payload], [publishText hex, subscribeText]⟩

theorem oneMessage_reachable {payload : Bytes} (hdistinct : Distinct hex)
    (hhex : WebSocket.hexDecode hex = .ok payload) :
    Reachable (threeFrames hex) (oneMessage hex payload) := by
  have hforward : (Subscription.new ["agent"] 0).forward (threeFrames hex) [("agent", hex)] =
      ⟨["agent"], 1, [messageText hex], [], true, 0, false⟩ := by
    have hpoll : poll BUS_CAPACITY [("agent", hex)] (Subscription.new ["agent"] 0).position =
        .message ("agent", hex) := by
      simp [poll, BUS_CAPACITY, Subscription.new]
    unfold Subscription.forward
    rw [hpoll]
    simp [Subscription.new, Subscription.wants, threeFrames]
  have hitem : item (threeFrames hex) (messageText hex) = .ok ⟨"agent", payload⟩ := by
    unfold item
    simp only [parse_message hdistinct, hhex]
  have hstart : Reachable (threeFrames hex) ⟨[], [], [], []⟩ := .start
  have hbus : Reachable (threeFrames hex)
      ⟨[], [("agent", hex)], [.new ["agent"] 0], [publishText hex, subscribeText]⟩ :=
    (hstart.subscribed parse_subscribe).published (parse_publish hdistinct)
  have hsent := hbus.stepOnly (.forward rfl)
  rw [hforward] at hsent
  have hread := hsent.stepOnly (.read rfl)
  rw [hitem] at hread
  exact hread

theorem oneMessage_publishes (hdistinct : Distinct hex) (payload : Bytes) :
    publishes (threeFrames hex) (oneMessage hex payload).sent = [("agent", hex)] := by
  simp [publishes, publishOf, oneMessage, parse_publish hdistinct, parse_subscribe]

end Relay

open Relay in
/-- The client has received all that was published. -/
theorem relay_delivers_one : ∃ r s, Reachable (threeFrames "07") r ∧ s ∈ r.subscriptions ∧
    s.messages = [⟨"agent", [7]⟩] ∧ s.messages = s.due (r.bus.drop s.start) ∧
    publishOf (threeFrames "07") (publishText "07") = some ("agent", hexEncode [7]) := by
  have hdistinct : Distinct "07" := by decide +kernel
  have hhex : WebSocket.hexDecode "07" = .ok [7] := by decide +kernel
  have hprint : (threeFrames "07").print (.publish "agent" (hexEncode [7])) =
      .ok (publishText "07") := by
    decide +kernel
  have hreachable := oneMessage_reachable hdistinct hhex
  have hall := relay_delivers (threeFrames_lawful hdistinct) hreachable List.mem_cons_self
  exact ⟨_, _, hreachable, List.mem_cons_self, rfl, hall.2.2.1 rfl rfl rfl rfl,
    (hall.2.2.2 "agent" [7] (publishText "07") hprint).1⟩

end DeltaStream
