import DeltaStream.AgentFeed
import DeltaStream.Lib.Feed

/-!
# The documented recovery loop

The high-level API (`src/api.rs`) used as the documentation says: the publisher encodes a state
into bytes, or forces a snapshot; the subscriber receives the bytes, and where it answers
`NeedSnapshot` a recovery snapshot of the current state is applied.  Bytes may be lost, or arrive
again at any later time, and the subscriber may be reset.

* `Publisher.send_ends`, `Publisher.recoverySnapshot_ends` — the publisher's calls only fail
  where compression does;
* `Looping` — what holds after any events;
* `recovery_loop` — the subscriber holds what was published under its number, and the state last
  published if that was delivered since.
-/

set_option autoImplicit false

namespace DeltaStream

open Fallible Replica

/-! ## The loop -/

namespace Publisher

variable {T : Type} (X : Crates) (S : Serde T)

/-- `encode`, or `force_snapshot` and then `to_bytes`. -/
def send (p : Publisher T) (state : T) (forced : Bool) : Except DeltaError Bytes × Publisher T :=
  if forced then
    match p.forceSnapshot X S state with
    | (.error err, p) => (.error err, p)
    | (.ok packet, p) => (packet.encode X, p)
  else p.encode X S state

end Publisher

inductive LoopEvent (T : Type) where
  | publish (state : T) (forced delivered : Bool)
  /-- bytes sent before arrive, or arrive again -/
  | redeliver (n : Nat)
  /-- the subscriber is reset -/
  | reset

structure RecoveryLoop (T : Type) where
  publisher : Publisher T
  current : Option T
  sent : List Bytes
  subscriber : Subscriber T

namespace RecoveryLoop

variable {T : Type}

def start (policy : AdaptivePolicy) : RecoveryLoop T := ⟨.withPolicy policy, none, [], .new⟩

section Definitions

variable (X : Crates) (S : Serde T)

/-- `subscriber.apply(publisher.recovery_snapshot(&current)?)?`. -/
def recover (l : RecoveryLoop T) : Except DeltaError (RecoveryLoop T) :=
  match l.current with
  | none => .ok l
  | some current => do
    let packet ← l.publisher.recoverySnapshot X S current
    let r ← threaded (l.subscriber.apply X S packet)
    .ok { l with subscriber := r.2 }

/-- `match subscriber.receive(&bytes)?`. -/
def receive (l : RecoveryLoop T) (bytes : Bytes) : Except DeltaError (RecoveryLoop T) := do
  let r ← threaded (l.subscriber.receive X S bytes)
  match r.1 with
  | .needSnapshot _ _ => recover X S { l with subscriber := r.2 }
  | .applied _ _ => .ok { l with subscriber := r.2 }
  | .duplicate _ => .ok { l with subscriber := r.2 }

def publish (l : RecoveryLoop T) (state : T) (forced delivered : Bool) :
    Except DeltaError (RecoveryLoop T) := do
  let r ← threaded (l.publisher.send X S state forced)
  let l := { l with publisher := r.2, current := some state, sent := l.sent ++ [r.1] }
  if delivered then receive X S l r.1 else .ok l

def step (l : RecoveryLoop T) : LoopEvent T → Except DeltaError (RecoveryLoop T)
  | .publish state forced delivered => publish X S l state forced delivered
  | .redeliver n =>
    match l.sent[n]? with
    | none => .ok l
    | some bytes => receive X S l bytes
  | .reset => .ok { l with subscriber := l.subscriber.reset }

def run (policy : AdaptivePolicy) (events : List (LoopEvent T)) :
    Except DeltaError (RecoveryLoop T) :=
  events.foldlM (step X S) (start policy)

end Definitions

end RecoveryLoop

/-! ## Publishing -/

section Publishing

variable {T : Type} {X : Crates} {S : Serde T} {states : List T} {state : T}

/-- The text of the state is within the receiver's limit. -/
def Serde.Within (S : Serde T) (state : T) : Prop :=
  ∀ bytes, encodeGenericSnapshot S state = .ok bytes → bytes.length ≤ MAX_LOGICAL_PAYLOAD

/-- What bytes carry to a subscriber with the default limits. -/
abbrev carried (X : Crates) (S : Serde T) (bytes : Bytes) : Update T :=
  (Message.wire bytes).read X (serdeCodec S) .default

theorem TypedEncoder.forceSnapshot_failed {C : StateCodec T} {e e' : TypedEncoder T}
    {err : DeltaError} (hC : C.Lawful) (h : e.forceSnapshot X C state = (.error err, e')) :
    X.CompressionFailed err := by
  obtain ⟨snapshot, hsnap⟩ := rawSnapshot_total hC (nextSequence e.sequence) state
  unfold forceSnapshot at h
  simp only [hsnap] at h
  split at h
  · rename_i hselect
    cases h
    exact AdaptivePolicy.selectInitial_failed hselect
  · cases h

/-- A packet emitted for a state within the limit is carried by its bytes, and brings the state to
    whoever holds the one before. -/
theorem TypedEncoder.Published.sends {e e' : GenericEncoder T} {p : Packet} (hS : S.Lawful)
    (hsame : ∀ old ∈ states, S.SameWhereEqual old state) (hd : X.ZstdExact)
    (h : TypedRun.Tracks ⟨e, states⟩) (room : states.length < U64_MAX) (hfits : S.Within state)
    (hp : Published X (serdeCodec S) e state p e') :
    TypedRun.Tracks ⟨e', states ++ [state]⟩ ∧ ∃ bytes, p.encode X = .ok bytes ∧
      Delivers (states ++ [state]) (states.length + 1) (carried X S bytes) := by
  obtain ⟨text, htext⟩ := (serdeCodec_lawful hS).encodes state
  have hlen : text.length ≤ MAX_LOGICAL_PAYLOAD := hfits text htext
  have hword : ∀ n, n ≤ MAX_LOGICAL_PAYLOAD → HEADER_LEN + n < U64_MAX := fun n hn =>
    Nat.lt_of_le_of_lt (Nat.add_le_add_left hn _) (by decide)
  refine ⟨h.step room hp, ?_⟩
  obtain ⟨bytes, hbytes, hdecode⟩ := hp.emits.wire
    ((hp.length text htext (hword _ hlen)).trans (Nat.add_le_add_left hlen _))
  refine ⟨bytes, hbytes, ?_⟩
  have hread : carried X S bytes = TypedDecoder.read X (serdeCodec S) .default p := by
    have hdecode : Packet.decodeWithConfig X bytes .default = .ok p := hdecode
    simp only [carried, Message.read, hdecode]
  rw [hread]
  have hexact : ∀ previous ∈ e.lastState, (serdeCodec S).Exact previous state := by
    intro previous hprevious
    have hlast : states.getLast? = some previous := h.lastState.symm.trans hprevious
    exact serdeCodec_exact hS (hsame previous (List.mem_of_getLast? hlast))
  refine h.delivers (serdeCodec_lawful hS) hd hexact room hp.emits ?_
  intro bytes' hbytes'
  have hle := hfits bytes' hbytes'
  exact ⟨hle, hword _ hle⟩

/-- **Sending a state** within the limit only fails where compression does. -/
theorem Publisher.send_ends {p : Publisher T} (hS : S.Lawful)
    (hsame : ∀ old ∈ states, S.SameWhereEqual old state) (hd : X.ZstdExact)
    (h : TypedRun.Tracks ⟨p.encoder, states⟩) (room : states.length < U64_MAX)
    (hfits : S.Within state) (forced : Bool) :
    Ends (fun r => TypedRun.Tracks ⟨r.2.encoder, states ++ [state]⟩ ∧
        Delivers (states ++ [state]) (states.length + 1) (carried X S r.1))
      X.CompressionFailed (threaded (p.send X S state forced)) := by
  have hsends := fun (e' : GenericEncoder T) (packet : Packet)
      (hp : TypedEncoder.Published X (serdeCodec S) p.encoder state packet e') =>
    hp.sends hS hsame hd h room hfits
  cases forced with
  | true =>
    unfold send
    simp only [if_true]
    unfold forceSnapshot GenericEncoder.forceSnapshot
    generalize hcall : TypedEncoder.forceSnapshot X (serdeCodec S) p.encoder state = call
    obtain ⟨result, e'⟩ := call
    cases result with
    | error err => exact TypedEncoder.forceSnapshot_failed (serdeCodec_lawful hS) hcall
    | ok packet =>
      obtain ⟨htracks, bytes, hbytes, hdelivers⟩ :=
        hsends e' packet (TypedEncoder.forceSnapshot_ok hcall).1
      simp only [hbytes]
      exact ⟨htracks, hdelivers⟩
  | false =>
    unfold send encode update GenericEncoder.encode
    simp only [Bool.false_eq_true, if_false]
    generalize hcall : TypedEncoder.encode X (serdeCodec S) p.encoder state = call
    obtain ⟨result, e'⟩ := call
    cases result with
    | error err => exact TypedEncoder.encode_failed (serdeCodec_lawful hS) hcall
    | ok packet =>
      obtain ⟨htracks, bytes, hbytes, hdelivers⟩ :=
        hsends e' packet (TypedEncoder.encode_ok hcall)
      simp only [hbytes]
      exact ⟨htracks, hdelivers⟩

/-- **A recovery snapshot** brings the state at the publisher's position. -/
theorem Publisher.recoverySnapshot_ends {p : Publisher T} (hS : S.Lawful) (hd : X.ZstdExact)
    (h : TypedRun.Tracks ⟨p.encoder, states⟩) (hfits : S.Within state) :
    Ends (fun packet => TypedDecoder.read X (serdeCodec S) .default packet =
        .full states.length state)
      X.CompressionFailed (p.recoverySnapshot X S state) := by
  show Ends _ _ (TypedEncoder.recoverySnapshot X (serdeCodec S) p.encoder state)
  cases hcall : TypedEncoder.recoverySnapshot X (serdeCodec S) p.encoder state with
  | error err => exact TypedEncoder.recoverySnapshot_failed (serdeCodec_lawful hS) hcall
  | ok packet =>
    have hsequence : p.encoder.sequence.toNat = states.length := h.sequence
    rw [← hsequence]
    exact (TypedEncoder.recoverySnapshot_ok hcall).read_fits (serdeCodec_lawful hS) hd hfits

end Publishing

/-! ## Receiving -/

section Receiving

variable {T : Type} {X : Crates} {S : Serde T} {states : List T} {E : DeltaError → Prop}

namespace Subscriber

/-- What the subscriber holds. -/
abbrev held (s : Subscriber T) : Option (Nat × T) := s.decoder.stream.view

/-- The subscriber holds one of the states, under its number. -/
structure Follows (states : List T) (s : Subscriber T) : Prop where
  valid : s.Valid .default
  consistent : ConsistentUpTo Eq states s.held

theorem follows_new (states : List T) : Follows states .new :=
  ⟨⟨TypedDecoder.default_valid, rfl, rfl⟩, consistentUpTo_none _ _⟩

theorem Follows.reset {s : Subscriber T} (h : s.Follows states) : s.reset.Follows states :=
  ⟨⟨TypedDecoder.default_valid, h.valid.outer, h.valid.outer⟩, consistentUpTo_none _ _⟩

theorem Follows.mono {more : List T} {s : Subscriber T} (h : s.Follows states) :
    s.Follows (states ++ more) :=
  ⟨h.valid, h.consistent.mono⟩

/-- What the replica does, the subscriber does. -/
theorem handle_ends {Q : ApplyResult T × Subscriber T → Prop} {s : Subscriber T} {m : Message}
    (hvalid : s.Valid .default)
    (hok : (Replica.receive s.held (m.read X (serdeCodec S) .default)).1 ≠ .rejected)
    (hQ : ∀ result s', s'.Valid .default →
      Replica.receive s.held (m.read X (serdeCodec S) .default) =
        (TypedDecoder.verdict (.ok result), s'.held) → Q (result, s')) :
    Ends Q E (threaded (s.handle X S m)) := by
  have hreceive := handle_receive (X := X) (S := S) hvalid m
  have hvalid' := handle_valid (X := X) (S := S) hvalid m
  generalize s.handle X S m = call at hreceive hvalid'
  obtain ⟨result, s'⟩ := call
  cases result with
  | error err =>
    rw [hreceive] at hok
    exact absurd rfl hok
  | ok result => exact hQ result s' hvalid' hreceive

/-- **The state at the publisher's position** brings the subscriber up to date. -/
theorem apply_restores {s : Subscriber T} {state : T} {packet : Packet} (h : s.Follows states)
    (hlast : states.getLast? = some state)
    (hread : TypedDecoder.read X (serdeCodec S) .default packet = .full states.length state) :
    Ends (fun r => r.2.Follows states ∧ AtPosition Eq states.length state r.2.held) E
      (threaded (s.apply X S packet)) := by
  have hmessage : (Message.packet packet).read X (serdeCodec S) .default =
      .full states.length state := hread
  obtain ⟨hat, hverdict⟩ := receive_whole (R := Eq) (s := state) rfl h.consistent (last_only hlast)
  show Ends _ E (threaded (s.handle X S (.packet packet)))
  refine handle_ends h.valid ?_ fun result s' hvalid hreceive => ?_
  · rw [hmessage]
    rcases hverdict with h | h <;> rw [h] <;> exact nofun
  · rw [hmessage] at hreceive
    rw [hreceive] at hat
    exact ⟨⟨hvalid, hat.consistent ((nth_length states).trans hlast)⟩, hat⟩

end Subscriber

namespace RecoveryLoop

/-- The subscriber of `l`, replaced by one at the publisher's position. -/
def Restored (states : List T) (state : T) (l l' : RecoveryLoop T) : Prop :=
  ∃ s, l' = { l with subscriber := s } ∧ s.Follows states ∧
    AtPosition Eq states.length state s.held

theorem recover_ends {l : RecoveryLoop T} {state : T} (hS : S.Lawful) (hd : X.ZstdExact)
    (htracks : TypedRun.Tracks ⟨l.publisher.encoder, states⟩) (hcurrent : l.current = some state)
    (hlast : states.getLast? = some state) (hfits : S.Within state)
    (hfollows : l.subscriber.Follows states) :
    Ends (Restored states state l) X.CompressionFailed (recover X S l) := by
  unfold recover
  rw [hcurrent]
  refine (Publisher.recoverySnapshot_ends hS hd htracks hfits).bind fun packet hread => ?_
  refine (Subscriber.apply_restores hfollows hlast hread).bind fun r hr => ?_
  exact ⟨r.2, by rw [← hcurrent], hr⟩

/-- **Bytes received**: the subscriber follows the publisher still; it stays up to date, and is so
    after the newest bytes. -/
theorem receive_ends {l : RecoveryLoop T} {state : T} {bytes : Bytes} (hS : S.Lawful)
    (hd : X.ZstdExact) (htracks : TypedRun.Tracks ⟨l.publisher.encoder, states⟩)
    (hcurrent : l.current = some state) (hlast : states.getLast? = some state)
    (hfits : S.Within state) (hfollows : l.subscriber.Follows states)
    (hu : Usable Eq states (carried X S bytes)) :
    Ends (fun l' => ∃ s, l' = { l with subscriber := s } ∧ s.Follows states ∧
        (AtPosition Eq states.length state l.subscriber.held ∨
            (carried X S bytes).number? = some states.length →
          AtPosition Eq states.length state s.held))
      X.CompressionFailed (receive X S l bytes) := by
  obtain ⟨hnext, hok, -⟩ := receive_usable hu hfollows.consistent
  have hhandle := Subscriber.handle_ends (E := X.CompressionFailed) (m := .wire bytes)
    (Q := fun r => r.2.Follows states ∧
      (AtPosition Eq states.length state l.subscriber.held ∨
          (carried X S bytes).number? = some states.length →
        AtPosition Eq states.length state r.2.held ∨ ∃ n m, r.1 = .needSnapshot n m))
    hfollows.valid hok fun result s' hvalid hreceive => by
      rw [hreceive] at hnext
      refine ⟨⟨hvalid, hnext⟩, ?_⟩
      rintro (hup | hnewest)
      · have hsame := hup.receive hu
        rw [hreceive] at hsame
        exact .inl ((Prod.mk.inj hsame).2 ▸ hup)
      · rcases receive_current hfollows.consistent hu hnewest hlast with hat | hneed
        · rw [hreceive] at hat
          exact .inl hat
        · rw [hreceive] at hneed
          obtain ⟨n, m, hres⟩ := TypedDecoder.verdict_need hneed
          cases hres
          exact .inr ⟨n, m, rfl⟩
  unfold receive
  refine Ends.bind hhandle ?_
  rintro ⟨result, s'⟩ ⟨hfollows', hup⟩
  cases result with
  | applied n t =>
    refine ⟨s', rfl, hfollows', fun h => ?_⟩
    rcases hup h with hat | ⟨n, m, hneed⟩
    · exact hat
    · cases hneed
  | duplicate n =>
    refine ⟨s', rfl, hfollows', fun h => ?_⟩
    rcases hup h with hat | ⟨n, m, hneed⟩
    · exact hat
    · cases hneed
  | needSnapshot n m =>
    refine (recover_ends (l := { l with subscriber := s' }) hS hd htracks hcurrent hlast hfits
      hfollows').value ?_
    rintro l' ⟨s, rfl, hs, hat⟩
    exact ⟨s, rfl, hs, fun _ => hat⟩

end RecoveryLoop

end Receiving

/-! ## Any events -/

section Events

variable {T : Type} {X : Crates} {S : Serde T}

/-- Publisher, bytes in flight and subscriber once `states` are published; `owed` is the last of
    them where it was delivered and the subscriber has not been reset since. -/
structure Looping (X : Crates) (S : Serde T) (states : List T) (owed : Option T)
    (l : RecoveryLoop T) : Prop where
  tracks : TypedRun.Tracks ⟨l.publisher.encoder, states⟩
  current : l.current = states.getLast?
  within : ∀ state ∈ states, S.Within state
  sent : ∀ bytes ∈ l.sent, Usable Eq states (carried X S bytes)
  follows : l.subscriber.Follows states
  last : ∀ state, owed = some state → states.getLast? = some state
  holds : ∀ state, owed = some state → AtPosition Eq states.length state l.subscriber.held

namespace Looping

variable {l : RecoveryLoop T} {states : List T} {owed : Option T}

theorem start (X : Crates) (S : Serde T) (policy : AdaptivePolicy) :
    Looping X S [] none (.start policy) where
  tracks := ⟨rfl, rfl⟩
  current := rfl
  within := fun _ h => absurd h List.not_mem_nil
  sent := fun _ h => absurd h List.not_mem_nil
  follows := Subscriber.follows_new _
  last := nofun
  holds := nofun

/-- A state published, and delivered or not. -/
theorem publish (hS : S.Lawful) (hd : X.ZstdExact) (h : Looping X S states owed l) {state : T}
    (hsame : ∀ old ∈ states, S.SameWhereEqual old state) (hfits : S.Within state)
    (room : states.length < U64_MAX) (forced delivered : Bool) :
    Ends (Looping X S (states ++ [state]) (if delivered then some state else none))
      X.CompressionFailed (RecoveryLoop.publish X S l state forced delivered) := by
  unfold RecoveryLoop.publish
  refine (Publisher.send_ends hS hsame hd h.tracks room hfits forced).bind ?_
  rintro ⟨bytes, publisher⟩ ⟨htracks, hdelivers⟩
  have hnew : Usable Eq (states ++ [state]) (carried X S bytes) := hdelivers.usable
  have hlast : (states ++ [state]).getLast? = some state := List.getLast?_concat
  have hwithin : ∀ s ∈ states ++ [state], S.Within s := by
    intro s hs
    rcases List.mem_append.mp hs with hs | hs
    · exact h.within s hs
    · exact List.mem_singleton.mp hs ▸ hfits
  have hsent : ∀ b ∈ l.sent ++ [bytes], Usable Eq (states ++ [state]) (carried X S b) := by
    intro b hb
    rcases List.mem_append.mp hb with hb | hb
    · exact (h.sent b hb).mono
    · exact List.mem_singleton.mp hb ▸ hnew
  cases delivered with
  | false => exact ⟨htracks, hlast.symm, hwithin, hsent, h.follows.mono, nofun, nofun⟩
  | true =>
    have hnumber : (carried X S bytes).number? = some (states ++ [state]).length := by
      rw [List.length_append, List.length_singleton]
      exact Delivers.number hdelivers
    refine (RecoveryLoop.receive_ends
      (l := ⟨publisher, some state, l.sent ++ [bytes], l.subscriber⟩)
      hS hd htracks rfl hlast hfits h.follows.mono hnew).value ?_
    rintro l' ⟨s, rfl, hfollows, hup⟩
    refine ⟨htracks, hlast.symm, hwithin, hsent, hfollows, ?_, ?_⟩
    · rintro next ⟨⟩
      exact hlast
    · rintro next ⟨⟩
      exact hup (.inr hnumber)

/-- Bytes sent before arrive. -/
theorem redeliver (hS : S.Lawful) (hd : X.ZstdExact) (h : Looping X S states owed l)
    {bytes : Bytes} (hmem : bytes ∈ l.sent) :
    Ends (Looping X S states owed) X.CompressionFailed (RecoveryLoop.receive X S l bytes) := by
  have hu := h.sent bytes hmem
  obtain ⟨k, t, -, hk⟩ := hu.number
  obtain ⟨state, hlast⟩ : ∃ state, states.getLast? = some state :=
    ⟨_, List.getLast?_eq_some_getLast (List.ne_nil_of_mem (nth_mem hk))⟩
  refine (RecoveryLoop.receive_ends hS hd h.tracks (h.current.trans hlast) hlast
    (h.within state (List.mem_of_getLast? hlast)) h.follows hu).value ?_
  rintro l' ⟨s, rfl, hfollows, hup⟩
  refine ⟨h.tracks, h.current, h.within, h.sent, hfollows, h.last, fun next hnext => ?_⟩
  have hsame := h.last next hnext
  rw [hlast] at hsame
  cases hsame
  exact hup (.inl (h.holds _ hnext))

theorem reset (h : Looping X S states owed l) :
    Looping X S states none { l with subscriber := l.subscriber.reset } :=
  ⟨h.tracks, h.current, h.within, h.sent, h.follows.reset, nofun, nofun⟩

end Looping

def LoopEvent.state? : LoopEvent T → Option T
  | .publish state _ _ => some state
  | .redeliver _ => none
  | .reset => none

/-- The states published, in order. -/
def published (events : List (LoopEvent T)) : List T := events.filterMap LoopEvent.state?

def LoopEvent.owe (owed : Option T) : LoopEvent T → Option T
  | .publish state _ delivered => if delivered then some state else none
  | .redeliver _ => owed
  | .reset => none

/-- The state the subscriber must hold: the one published last, where it was delivered and the
    subscriber has not been reset since. -/
def owed (events : List (LoopEvent T)) : Option T := events.foldl LoopEvent.owe none

theorem published_snoc (events : List (LoopEvent T)) (event : LoopEvent T) :
    published (events ++ [event]) = published events ++ event.state?.toList := by
  unfold published
  rw [List.filterMap_append]
  cases event <;> rfl

/-- **One event.** -/
theorem Looping.step {l : RecoveryLoop T} {states : List T} {owed : Option T} (hS : S.Lawful)
    (hd : X.ZstdExact) (h : Looping X S states owed l) (event : LoopEvent T)
    (hsame : ∀ old ∈ states, ∀ state ∈ event.state?, S.SameWhereEqual old state)
    (hfits : ∀ state ∈ event.state?, S.Within state)
    (room : (states ++ event.state?.toList).length < U64_MAX) :
    Ends (Looping X S (states ++ event.state?.toList) (event.owe owed)) X.CompressionFailed
      (RecoveryLoop.step X S l event) := by
  rw [List.length_append] at room
  cases event with
  | publish state forced delivered =>
    exact h.publish hS hd (fun old hold => hsame old hold state rfl) (hfits state rfl) (by omega)
      forced delivered
  | redeliver n =>
    have hnone : states ++ (LoopEvent.redeliver n : LoopEvent T).state?.toList = states :=
      List.append_nil _
    rw [hnone]
    cases hbytes : l.sent[n]? with
    | none =>
      simp only [RecoveryLoop.step, hbytes]
      exact h
    | some bytes =>
      simp only [RecoveryLoop.step, hbytes]
      exact h.redeliver hS hd (List.mem_of_getElem? hbytes)
  | reset =>
    have hnone : states ++ (LoopEvent.reset : LoopEvent T).state?.toList = states :=
      List.append_nil _
    rw [hnone]
    exact h.reset

/-- **The documented loop works.**  Whatever is lost, arrives again or late, and wherever the
    subscriber is reset, no call fails unless compression does; the subscriber holds the state
    published under its number; and from the delivery of an update until the next one is published
    it holds exactly that state, under the publisher's number. -/
theorem recovery_loop (hS : S.Lawful) (hd : X.ZstdExact) (policy : AdaptivePolicy)
    (events : List (LoopEvent T))
    (hsame : ∀ old ∈ published events, ∀ new ∈ published events, S.SameWhereEqual old new)
    (hfits : ∀ state ∈ published events, S.Within state)
    (room : (published events).length < U64_MAX) :
    Ends (fun l => l.publisher.sequence.toNat = (published events).length ∧
        (∀ k, l.subscriber.sequence = some k → ∃ state,
          nth (published events) k.toNat = some state ∧ l.subscriber.state = some state) ∧
        ∀ state, owed events = some state →
          l.subscriber.state = some state ∧ l.subscriber.sequence = some l.publisher.sequence)
      X.CompressionFailed (RecoveryLoop.run X S policy events) := by
  have hloop : Ends (Looping X S (published events) (owed events)) X.CompressionFailed
      (RecoveryLoop.run X S policy events) := by
    induction events using List.reverseRecOn with
    | nil => exact Looping.start X S policy
    | append_singleton events event ih =>
      rw [published_snoc] at hsame hfits room ⊢
      have howed : owed (events ++ [event]) = event.owe (owed events) := by simp [owed]
      have hroom : (published events).length < U64_MAX := by
        rw [List.length_append] at room
        omega
      rw [howed]
      unfold RecoveryLoop.run at ih ⊢
      rw [List.foldlM_append]
      have hold : ∀ s ∈ published events, s ∈ published events ++ event.state?.toList :=
        fun s hs => List.mem_append_left _ hs
      have hnew : ∀ s ∈ event.state?, s ∈ published events ++ event.state?.toList :=
        fun s hs => List.mem_append_right _ (Option.mem_toList.mpr hs)
      refine (ih (fun s hs t ht => hsame s (hold s hs) t (hold t ht))
        (fun s hs => hfits s (hold s hs)) hroom).bind fun l hl => ?_
      rw [List.foldlM_cons]
      exact (hl.step hS hd event (fun s hs t ht => hsame s (hold s hs) t (hnew t ht))
        (fun s hs => hfits s (hnew s hs)) room).bind fun l' hl' => hl'
  refine hloop.value fun l hl => ?_
  have hvalid := hl.follows.valid.stream
  have hposition : l.publisher.sequence.toNat = (published events).length := hl.tracks.sequence
  refine ⟨hposition, ?_, ?_⟩
  · intro k hk
    obtain ⟨state, hstate, hview⟩ := hvalid.view_of_sequence hk
    obtain ⟨t, ht, hsame⟩ := hl.follows.consistent _ _ hview
    exact ⟨state, hsame ▸ ht, hstate⟩
  · intro state howed
    obtain ⟨held, hview, hsame⟩ := hl.holds state howed
    subst hsame
    rw [← hposition] at hview
    exact (TypedDecoder.sequence_of_view hview).symm

/-- A switch is turned on, off and on again; the second update is lost and arrives at the end. -/
theorem recovery_loop_switch :
    let events : List (LoopEvent Switch) :=
      [.publish ⟨true⟩ false true, .publish ⟨false⟩ false false, .publish ⟨true⟩ false true,
        .redeliver 1]
    Ends (fun l => l.publisher.sequence.toNat = (published events).length ∧
        (∀ k, l.subscriber.sequence = some k → ∃ state,
          nth (published events) k.toNat = some state ∧ l.subscriber.state = some state) ∧
        ∀ state, owed events = some state →
          l.subscriber.state = some state ∧ l.subscriber.sequence = some l.publisher.sequence)
      Crates.stored.CompressionFailed (RecoveryLoop.run .stored Switch.serde .default events) := by
  intro events
  have hfits : ∀ state ∈ published events, Switch.serde.Within state := by
    rintro ⟨on⟩ - bytes hbytes
    cases hbytes
    cases on <;> decide
  have hroom : (published events).length < U64_MAX := by decide
  clear_value events
  exact recovery_loop Switch.serde_lawful Crates.stored_exact .default events
    (fun old _ new _ => Switch.serde_same old new) hfits hroom

end Events

end DeltaStream
