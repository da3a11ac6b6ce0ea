import DeltaStream.Lib.Run
import DeltaStream.Recovery
import DeltaStream.RecoveryHistory

/-!
# The publisher session

Model of `PublisherSession` of `src/session.rs`.  Its tasks are any number of `publish_state`
calls and one `control_loop`; they share the encoder, the latest state and the recovery
history, each behind its own mutex.  One action is one region under a mutex, or one message
published, and the actions of different tasks interleave freely.

* `step_sound` — the things an action can do;
* `Tracked.step` — what is known of the shared data, kept by every action whose snapshot is
  built in order;
* `session_snapshots_carried` — in runs whose snapshots are built in order, every snapshot
  `control_loop` publishes carries the state encoded under its sequence.
-/

set_option autoImplicit false

namespace DeltaStream

open Runs

structure SessionTopics where
  data : String
  control : String
  deriving DecidableEq

def SessionTopics.new (base : String) : SessionTopics := ⟨base, base ++ ".control"⟩

def SessionTopics.replyFor (topics : SessionTopics) (clientId : String) : String :=
  topics.data ++ ".reply." ++ clientId

/-- The fields of `ControlMessage::ResyncRequest`. -/
structure ResyncRequest where
  clientId : String
  localSequence : Option UInt64
  requiredSequence : UInt64
  replyChannel : String
  deriving DecidableEq

/-- Where `control_loop` is. -/
inductive ControlPhase where
  /-- at `stream.next()` -/
  | waiting
  /-- holding a copy of the state, and knowing which call wrote it -/
  | copied (request : ResyncRequest) (state : AgentState) (writer : Option Nat)
  /-- holding a recovery snapshot, the encoder unlocked again -/
  | built (request : ResyncRequest) (snapshot : Packet)
  /-- with packets of the plan left to publish -/
  | replying (request : ResyncRequest) (packets : List Packet)
  /-- returned with an error -/
  | stopped
  deriving DecidableEq

/-- The shared data and the tasks. -/
structure PublisherSession where
  topics : SessionTopics
  encoder : Encoder
  state : AgentState
  history : RecoveryHistory
  /-- the arguments of the `publish_state` calls that have written the state -/
  calls : List AgentState
  /-- the calls that have not locked the encoder yet -/
  waiting : List Nat
  /-- the packet published by the call that holds the encoder and has yet to record it -/
  recording : Option Packet
  control : ControlPhase
  /-- the call that wrote the state -/
  writer : Option Nat
  /-- the call that was the last to encode, unless it failed -/
  encodedLast : Option Nat
  /-- sequence and state of every successful `encode` -/
  updates : List (UInt64 × AgentState)
  deriving DecidableEq

inductive PublisherAction where
  /-- `*self.state.lock().await = state.clone()` -/
  | write (state : AgentState)
  /-- lock the encoder, encode and publish; whether the transport delivers -/
  | encode (call : Nat) (delivered : Bool)
  /-- record in the history and unlock the encoder -/
  | record
  /-- take up a `ResyncRequest` and copy the state -/
  | copy (request : ResyncRequest)
  /-- lock the encoder and build the recovery snapshot -/
  | build
  /-- lock the history and plan -/
  | plan
  /-- publish the next packet of the plan -/
  | reply (delivered : Bool)
  deriving DecidableEq

/-- What is published, on the data topic or on a reply channel. -/
inductive Published where
  | data (p : Packet) (bytes : Bytes)
  | reply (channel : String) (p : Packet) (bytes : Bytes)
  deriving DecidableEq

def Published.reply? : Published → Option Packet
  | .data _ _ => none
  | .reply _ p _ => some p

/-- Back to `stream.next()` after the last packet. -/
def ControlPhase.afterReplies (request : ResyncRequest) : List Packet → ControlPhase
  | [] => .waiting
  | p :: ps => .replying request (p :: ps)

namespace PublisherSession

def new (topics : SessionTopics) (initial : AgentState) : PublisherSession where
  topics := topics
  encoder := .default
  state := initial
  history := .default
  calls := []
  waiting := []
  recording := none
  control := .waiting
  writer := none
  encodedLast := none
  updates := []

def write (t : PublisherSession) (state : AgentState) : PublisherSession :=
  { t with
    state := state
    writer := some t.calls.length
    calls := t.calls ++ [state]
    waiting := t.waiting ++ [t.calls.length] }

/-- The region of a call that holds the encoder, up to its packet being published: an error
    ends the call and unlocks the encoder. -/
def encodeCall (X : Crates) (t : PublisherSession) (call : Nat) (state : AgentState)
    (delivered : Bool) : PublisherSession × List Published :=
  let t := { t with waiting := t.waiting.erase call }
  match Encoder.encode X t.encoder state with
  | (.error _, encoder) => ({ t with encoder := encoder, encodedLast := none }, [])
  | (.ok p, encoder) =>
    let t := { t with
      encoder := encoder
      encodedLast := some call
      updates := t.updates ++ [(p.sequence, state)] }
    match p.encode X with
    | .error _ => (t, [])
    | .ok bytes => if delivered then ({ t with recording := some p }, [.data p bytes]) else (t, [])

/-- One action, if its task is there to do it and the lock it needs is free. -/
def step (X : Crates) (t : PublisherSession) :
    PublisherAction → Option (PublisherSession × List Published)
  | .write state => some (t.write state, [])
  | .encode call delivered =>
    match t.recording, t.calls[call]? with
    | none, some state =>
      if call ∈ t.waiting then some (t.encodeCall X call state delivered) else none
    | _, _ => none
  | .record =>
    match t.recording with
    | some p => some ({ t with history := t.history.record p, recording := none }, [])
    | none => none
  | .copy request =>
    match t.control with
    | .waiting => some ({ t with control := .copied request t.state t.writer }, [])
    | _ => none
  | .build =>
    match t.recording, t.control with
    | none, .copied request state _ =>
      match Encoder.recoverySnapshot X t.encoder state with
      | .error _ => some ({ t with control := .stopped }, [])
      | .ok snapshot => some ({ t with control := .built request snapshot }, [])
    | _, _ => none
  | .plan =>
    match t.control with
    | .built request snapshot =>
      match t.history.plan request.localSequence snapshot with
      | .error _ => some ({ t with control := .stopped }, [])
      | .ok plan => some ({ t with control := .afterReplies request plan.packets }, [])
    | _ => none
  | .reply delivered =>
    match t.control with
    | .replying request (p :: ps) =>
      match p.encode X with
      | .error _ => some ({ t with control := .stopped }, [])
      | .ok bytes =>
        if delivered then
          some ({ t with control := .afterReplies request ps },
            [.reply request.replyChannel p bytes])
        else some ({ t with control := .stopped }, [])
    | _ => none

/-! ## What an action can do -/

inductive Stepped (X : Crates) (t : PublisherSession) :
    PublisherAction → PublisherSession → List Published → Prop where
  | write (state : AgentState) : Stepped X t (.write state) (t.write state) []
  | encodeFailed {call : Nat} {delivered : Bool} {state : AgentState} {err : DeltaError}
      {encoder : Encoder} (free : t.recording = none) (waits : call ∈ t.waiting)
      (hcall : t.calls[call]? = some state)
      (he : Encoder.encode X t.encoder state = (.error err, encoder)) :
      Stepped X t (.encode call delivered)
        { t with waiting := t.waiting.erase call, encoder := encoder, encodedLast := none } []
  | unsent {call : Nat} {delivered : Bool} {state : AgentState} {p : Packet} {encoder : Encoder}
      (free : t.recording = none) (waits : call ∈ t.waiting)
      (hcall : t.calls[call]? = some state)
      (he : Encoder.encode X t.encoder state = (.ok p, encoder))
      (hlost : delivered = false ∨ ∃ err, p.encode X = .error err) :
      Stepped X t (.encode call delivered)
        { t with
          waiting := t.waiting.erase call
          encoder := encoder
          encodedLast := some call
          updates := t.updates ++ [(p.sequence, state)] } []
  | sent {call : Nat} {state : AgentState} {p : Packet} {encoder : Encoder} {bytes : Bytes}
      (free : t.recording = none) (waits : call ∈ t.waiting)
      (hcall : t.calls[call]? = some state)
      (he : Encoder.encode X t.encoder state = (.ok p, encoder)) (hbytes : p.encode X = .ok bytes) :
      Stepped X t (.encode call true)
        { t with
          waiting := t.waiting.erase call
          encoder := encoder
          encodedLast := some call
          updates := t.updates ++ [(p.sequence, state)]
          recording := some p } [.data p bytes]
  | record {p : Packet} (held : t.recording = some p) :
      Stepped X t .record { t with history := t.history.record p, recording := none } []
  | copy {request : ResyncRequest} (hcontrol : t.control = .waiting) :
      Stepped X t (.copy request) { t with control := .copied request t.state t.writer } []
  | build {request : ResyncRequest} {state : AgentState} {writer : Option Nat}
      {snapshot : Packet} (free : t.recording = none)
      (hcontrol : t.control = .copied request state writer)
      (hs : Encoder.recoverySnapshot X t.encoder state = .ok snapshot) :
      Stepped X t .build { t with control := .built request snapshot } []
  | plan {request : ResyncRequest} {snapshot : Packet} {plan : RecoveryPlan}
      (hcontrol : t.control = .built request snapshot)
      (hplan : t.history.plan request.localSequence snapshot = .ok plan) :
      Stepped X t .plan { t with control := .afterReplies request plan.packets } []
  | reply {request : ResyncRequest} {p : Packet} {ps : List Packet} {bytes : Bytes}
      (hcontrol : t.control = .replying request (p :: ps)) (hbytes : p.encode X = .ok bytes) :
      Stepped X t (.reply true) { t with control := .afterReplies request ps }
        [.reply request.replyChannel p bytes]
  /-- errors that end `control_loop` -/
  | buildFailed {request : ResyncRequest} {state : AgentState} {writer : Option Nat}
      {err : DeltaError} (hcontrol : t.control = .copied request state writer)
      (hs : Encoder.recoverySnapshot X t.encoder state = .error err) :
      Stepped X t .build { t with control := .stopped } []
  | planFailed {request : ResyncRequest} {snapshot : Packet} {err : DeltaError}
      (hcontrol : t.control = .built request snapshot)
      (hplan : t.history.plan request.localSequence snapshot = .error err) :
      Stepped X t .plan { t with control := .stopped } []
  | replyFailed {request : ResyncRequest} {p : Packet} {ps : List Packet} {delivered : Bool}
      (hcontrol : t.control = .replying request (p :: ps))
      (hlost : delivered = false ∨ ∃ err, p.encode X = .error err) :
      Stepped X t (.reply delivered) { t with control := .stopped } []

theorem encodeCall_sound {X : Crates} {t t' : PublisherSession} {call : Nat} {state : AgentState}
    {delivered : Bool} {out : List Published} (free : t.recording = none)
    (waits : call ∈ t.waiting) (hcall : t.calls[call]? = some state)
    (h : t.encodeCall X call state delivered = (t', out)) :
    Stepped X t (.encode call delivered) t' out := by
  unfold encodeCall at h
  simp only at h
  split at h
  · rename_i err encoder he
    cases h
    exact .encodeFailed free waits hcall he
  rename_i p encoder he
  split at h
  · rename_i err hbytes
    cases h
    exact .unsent free waits hcall he (.inr ⟨err, hbytes⟩)
  rename_i bytes hbytes
  split at h
  · rename_i hdelivered
    cases h
    rw [hdelivered]
    exact .sent free waits hcall he hbytes
  · rename_i hdelivered
    cases h
    exact .unsent free waits hcall he (.inl (Bool.eq_false_iff.mpr hdelivered))

/-- **Every action** is one of these. -/
theorem step_sound {X : Crates} {t t' : PublisherSession} {a : PublisherAction}
    {out : List Published} (h : t.step X a = some (t', out)) : Stepped X t a t' out := by
  cases a with
  | write state =>
    cases h
    exact .write state
  | encode call delivered =>
    unfold step at h
    simp only at h
    split at h
    · rename_i state hfree hcall
      split at h
      · rename_i hwaits
        exact encodeCall_sound hfree hwaits hcall (Option.some.inj h)
      · cases h
    · cases h
  | record =>
    unfold step at h
    simp only at h
    split at h
    · rename_i p held
      cases h
      exact .record held
    · cases h
  | copy request =>
    unfold step at h
    simp only at h
    split at h
    · rename_i hcontrol
      cases h
      exact .copy hcontrol
    · cases h
  | build =>
    unfold step at h
    simp only at h
    split at h
    · rename_i request state writer hfree hcontrol
      split at h
      · rename_i err hs
        cases h
        exact .buildFailed hcontrol hs
      · rename_i snapshot hs
        cases h
        exact .build hfree hcontrol hs
    · cases h
  | plan =>
    unfold step at h
    simp only at h
    split at h
    · rename_i request snapshot hcontrol
      split at h
      · rename_i err hplan
        cases h
        exact .planFailed hcontrol hplan
      · rename_i plan hplan
        cases h
        exact .plan hcontrol hplan
    · cases h
  | reply delivered =>
    unfold step at h
    simp only at h
    split at h
    · rename_i request p ps hcontrol
      split at h
      · rename_i err hbytes
        cases h
        exact .replyFailed hcontrol (.inr ⟨err, hbytes⟩)
      rename_i bytes hbytes
      split at h
      · rename_i hdelivered
        cases h
        rw [hdelivered]
        exact .reply hcontrol hbytes
      · rename_i hdelivered
        cases h
        exact .replyFailed hcontrol (.inl (Bool.eq_false_iff.mpr hdelivered))
    · cases h

/-! ## What is known of the shared data -/

/-- The packet carries a state encoded under its sequence. -/
def Carried (X : Crates) (t : PublisherSession) (p : Packet) : Prop :=
  ∃ s, (p.sequence, s) ∈ t.updates ∧ SnapshotOf X agentCodec p.sequence s p

/-- Snapshots carry what was encoded. -/
def SnapshotCarried (X : Crates) (t : PublisherSession) (p : Packet) : Prop :=
  p.kind = .snapshot → t.Carried X p

structure Tracked (X : Crates) (t : PublisherSession) : Prop where
  /-- the state is the argument of the call that wrote it -/
  written : ∀ i, t.writer = some i → t.calls[i]? = some t.state
  /-- the encoder's last state is the argument of the call that encoded last -/
  encoded : ∀ i, t.encodedLast = some i → ∃ s, t.calls[i]? = some s ∧
    t.encoder.lastState = some s ∧ (t.encoder.sequence, s) ∈ t.updates
  upTo : ∀ u ∈ t.updates, u.1.toNat ≤ t.encoder.sequence.toNat
  unique : ∀ u ∈ t.updates, ∀ v ∈ t.updates, u.1 = v.1 → u.1.toNat < U64_MAX → u = v
  copied : ∀ r s i, t.control = .copied r s (some i) → t.calls[i]? = some s
  built : ∀ r p, t.control = .built r p → t.Carried X p
  replying : ∀ r ps, t.control = .replying r ps → ∀ p ∈ ps, t.SnapshotCarried X p
  recorded : ∀ p ∈ t.history.packets, t.SnapshotCarried X p
  recording : ∀ p, t.recording = some p → t.SnapshotCarried X p

/-- The call whose state `control_loop` has copied is the call that encoded last. -/
def copiedLast (t : PublisherSession) : Bool :=
  match t.control, t.encodedLast with
  | .copied _ _ (some i), some j => decide (i = j)
  | _, _ => false

/-- Snapshots are built in order. -/
def InOrder (t : PublisherSession) (a : PublisherAction) : Prop :=
  a = .build → t.copiedLast = true

instance (t : PublisherSession) (a : PublisherAction) : Decidable (t.InOrder a) :=
  inferInstanceAs (Decidable (a = .build → t.copiedLast = true))

theorem copiedLast_iff {t : PublisherSession} :
    t.copiedLast = true ↔ ∃ r s i, t.control = .copied r s (some i) ∧ t.encodedLast = some i := by
  unfold copiedLast
  constructor
  · intro h
    split at h
    · rename_i r s i j hcontrol hlast
      rw [of_decide_eq_true h] at hcontrol
      exact ⟨r, s, j, hcontrol, hlast⟩
    · cases h
  · rintro ⟨r, s, i, hcontrol, hlast⟩
    simp [hcontrol, hlast]

theorem new_tracked (X : Crates) (topics : SessionTopics) (initial : AgentState) :
    (new topics initial).Tracked X where
  written i hi := by cases hi
  encoded i hi := by cases hi
  upTo u hu := absurd hu List.not_mem_nil
  unique u hu := absurd hu List.not_mem_nil
  copied r s i hc := by cases hc
  built r p hc := by cases hc
  replying r ps hc := by cases hc
  recorded p hp := absurd hp List.not_mem_nil
  recording p hp := by cases hp

section Steps

variable {X : Crates} {t t' : PublisherSession}

theorem Carried.mono {p : Packet} (h : t.Carried X p) (hu : ∀ u ∈ t.updates, u ∈ t'.updates) :
    t'.Carried X p := by
  obtain ⟨s, hs, hof⟩ := h
  exact ⟨s, hu _ hs, hof⟩

theorem SnapshotCarried.mono {p : Packet} (h : t.SnapshotCarried X p)
    (hu : ∀ u ∈ t.updates, u ∈ t'.updates) : t'.SnapshotCarried X p :=
  fun hkind => (h hkind).mono hu

/-- An emitted packet of kind snapshot carries the state. -/
theorem emits_snapshot {e : Encoder} {s : AgentState} {p : Packet}
    (h : TypedEncoder.Emits X agentCodec e s p) (hkind : p.kind = .snapshot) :
    SnapshotOf X agentCodec p.sequence s p := by
  cases h with
  | snapshot h =>
    rw [h.sequence_eq]
    exact h
  | delta _ h _ =>
    obtain ⟨old, payload, -, -, hcopy⟩ := h
    have hdelta : p.kind = .delta := hcopy.header.kind
    rw [hkind] at hdelta
    cases hdelta

/-- Numbers of updates, once the encoder has advanced and a state may have been added. -/
theorem Tracked.advance {e' : Encoder} {added : List (UInt64 × AgentState)} (h : t.Tracked X)
    (hseq : e'.sequence = nextSequence t.encoder.sequence)
    (hadded : added = [] ∨ ∃ s, added = [(e'.sequence, s)]) :
    (∀ u ∈ t.updates ++ added, u.1.toNat ≤ e'.sequence.toNat) ∧
      ∀ u ∈ t.updates ++ added, ∀ v ∈ t.updates ++ added, u.1 = v.1 → u.1.toNat < U64_MAX →
        u = v := by
  have hnext := le_nextSequence t.encoder.sequence
  rw [← hseq] at hnext
  -- below the last number there is, the new number is beyond all the others
  have hnew : ∀ u ∈ t.updates, u.1 = e'.sequence → u.1.toNat < U64_MAX → False := by
    intro u hu heq hlt
    have hle := h.upTo u hu
    have hroom : t.encoder.sequence.toNat < U64_MAX := by
      rw [heq] at hlt
      omega
    rw [heq, hseq, toNat_nextSequence hroom] at hle
    omega
  have hmem : ∀ u ∈ t.updates ++ added, u ∈ t.updates ∨ ∃ s, u = (e'.sequence, s) ∧
      added = [(e'.sequence, s)] := by
    intro u hu
    rcases List.mem_append.mp hu with hu | hu
    · exact .inl hu
    · rcases hadded with rfl | ⟨s, rfl⟩
      · exact absurd hu List.not_mem_nil
      · exact .inr ⟨s, List.mem_singleton.mp hu, rfl⟩
  constructor
  · intro u hu
    rcases hmem u hu with hu | ⟨s, rfl, -⟩
    · exact Nat.le_trans (h.upTo u hu) hnext
    · exact Nat.le_refl _
  · intro u hu v hv heq hlt
    rcases hmem u hu with hu | ⟨s, rfl, hs⟩ <;> rcases hmem v hv with hv | ⟨s', rfl, hs'⟩
    · exact h.unique u hu v hv heq hlt
    · exact (hnew u hu heq hlt).elim
    · exact (hnew v hv heq.symm (heq ▸ hlt)).elim
    · rw [hs] at hs'
      rw [(Prod.mk.inj (List.singleton_inj.mp hs')).2]

/-- What is known of the calls does not change when a call is added. -/
theorem calls_append {calls : List AgentState} {i : Nat} {s state : AgentState}
    (h : calls[i]? = some s) : (calls ++ [state])[i]? = some s := by
  rw [List.getElem?_append_left (List.getElem?_eq_some_iff.mp h).1, h]

theorem Tracked.write (h : t.Tracked X) (state : AgentState) : (t.write state).Tracked X where
  written i hi := by
    cases hi
    simp [PublisherSession.write]
  encoded i hi := by
    obtain ⟨s, hs, hlast, hu⟩ := h.encoded i hi
    exact ⟨s, calls_append hs, hlast, hu⟩
  upTo := h.upTo
  unique := h.unique
  copied r s i hc := calls_append (h.copied r s i hc)
  built := h.built
  replying := h.replying
  recorded := h.recorded
  recording := h.recording

/-- After an encode that succeeded, whether or not its packet got out. -/
theorem Tracked.encoded_ok {call : Nat} {state : AgentState} {p : Packet} {encoder : Encoder}
    {recording : Option Packet} (h : t.Tracked X) (hcall : t.calls[call]? = some state)
    (he : Encoder.encode X t.encoder state = (.ok p, encoder))
    (hrecording : recording = none ∨ recording = some p) :
    Tracked X { t with
      waiting := t.waiting.erase call
      encoder := encoder
      encodedLast := some call
      updates := t.updates ++ [(p.sequence, state)]
      recording := recording } := by
  have hpub := TypedEncoder.encode_ok he
  have hpseq : p.sequence = encoder.sequence := by rw [hpub.sequence, hpub.emits.sequence]
  obtain ⟨hupTo, hunique⟩ := h.advance hpub.sequence (.inr ⟨state, rfl⟩)
  have hold : ∀ u ∈ t.updates, u ∈ t.updates ++ [(p.sequence, state)] :=
    fun u hu => List.mem_append_left _ hu
  have hself : (p.sequence, state) ∈ t.updates ++ [(p.sequence, state)] :=
    List.mem_append_right _ (List.mem_singleton_self _)
  rw [← hpseq] at hupTo hunique
  refine ⟨h.written, ?_, ?_, hunique, h.copied, ?_, ?_, ?_, ?_⟩
  · intro i hi
    cases hi
    exact ⟨state, hcall, hpub.lastState, by rw [← hpseq]; exact hself⟩
  · rw [← hpseq]
    exact hupTo
  · intro r q hc
    exact (h.built r q hc).mono hold
  · intro r ps hc q hq
    exact (h.replying r ps hc q hq).mono hold
  · intro q hq
    exact (h.recorded q hq).mono hold
  · intro q hq
    rcases hrecording with rfl | rfl
    · cases hq
    · cases hq
      intro hkind
      exact ⟨state, hself, emits_snapshot hpub.emits hkind⟩

/-- The same facts with `control_loop` elsewhere. -/
theorem Tracked.control {control : ControlPhase} (h : t.Tracked X)
    (hcopied : ∀ r s i, control = .copied r s (some i) → t.calls[i]? = some s)
    (hbuilt : ∀ r p, control = .built r p → t.Carried X p)
    (hreplying : ∀ r ps, control = .replying r ps → ∀ p ∈ ps, t.SnapshotCarried X p) :
    Tracked X { t with control := control } :=
  ⟨h.written, h.encoded, h.upTo, h.unique, hcopied, hbuilt, hreplying, h.recorded, h.recording⟩

theorem afterReplies_replying {request r : ResyncRequest} {ps qs : List Packet}
    (h : ControlPhase.afterReplies request ps = .replying r qs) : qs = ps := by
  cases ps with
  | nil => cases h
  | cons p ps =>
    cases h
    rfl

theorem Tracked.afterReplies {request : ResyncRequest} {ps : List Packet} (h : t.Tracked X)
    (hps : ∀ p ∈ ps, t.SnapshotCarried X p) :
    Tracked X { t with control := .afterReplies request ps } := by
  refine h.control ?_ ?_ ?_
  · intro r s i hc
    cases ps <;> cases hc
  · intro r p hc
    cases ps <;> cases hc
  · intro r qs hc
    rw [afterReplies_replying hc]
    exact hps

theorem Tracked.stop (h : t.Tracked X) : Tracked X { t with control := .stopped } :=
  h.control (fun r s i hc => by cases hc) (fun r p hc => by cases hc) (fun r ps hc => by cases hc)

/-- **Every action** in order keeps what is known. -/
theorem Tracked.step {a : PublisherAction} {out : List Published} (h : t.Tracked X)
    (horder : t.InOrder a) (hs : Stepped X t a t' out) :
    t'.Tracked X ∧ ∀ p ∈ out.filterMap Published.reply?, t'.SnapshotCarried X p := by
  cases hs with
  | write state => exact ⟨h.write state, fun p hp => absurd hp List.not_mem_nil⟩
  | @encodeFailed call delivered state err encoder free waits hcall he =>
    refine ⟨?_, fun p hp => absurd hp List.not_mem_nil⟩
    have hseq : encoder.sequence = nextSequence t.encoder.sequence := by
      rw [(TypedEncoder.encode_error he).1]
    obtain ⟨hupTo, hunique⟩ := h.advance hseq (.inl rfl)
    rw [List.append_nil] at hupTo hunique
    exact ⟨h.written, (fun i hi => by cases hi), hupTo, hunique, h.copied, h.built, h.replying,
      h.recorded, h.recording⟩
  | unsent free waits hcall he hlost =>
    have hok := h.encoded_ok hcall he (.inl rfl)
    rw [← free] at hok
    exact ⟨hok, fun p hp => absurd hp List.not_mem_nil⟩
  | sent free waits hcall he hbytes =>
    exact ⟨h.encoded_ok hcall he (.inr rfl), fun p hp => absurd hp List.not_mem_nil⟩
  | record held =>
    refine ⟨⟨h.written, h.encoded, h.upTo, h.unique, h.copied, h.built, h.replying, ?_,
      fun p hp => by cases hp⟩, fun p hp => absurd hp List.not_mem_nil⟩
    intro q hq
    rcases RecoveryHistory.record_mem hq with hq | rfl
    · exact h.recorded q hq
    · exact h.recording _ held
  | copy hcontrol =>
    refine ⟨h.control ?_ (fun r p hc => by cases hc) (fun r ps hc => by cases hc),
      fun p hp => absurd hp List.not_mem_nil⟩
    intro r s i hc
    obtain ⟨-, rfl, hw⟩ := ControlPhase.copied.inj hc
    exact h.written i hw
  | @build request state writer snapshot free hcontrol hsnap =>
    refine ⟨h.control (fun r s i hc => by cases hc) ?_ (fun r ps hc => by cases hc),
      fun p hp => absurd hp List.not_mem_nil⟩
    intro r q hc
    cases hc
    obtain ⟨r', s', i, hcopied, hlast⟩ := copiedLast_iff.mp (horder rfl)
    rw [hcontrol] at hcopied
    cases hcopied
    -- the copied state is the one encoded last
    obtain ⟨s, hcall, -, hu⟩ := h.encoded i hlast
    rw [h.copied _ _ i hcontrol] at hcall
    cases hcall
    have hof := TypedEncoder.recoverySnapshot_ok hsnap
    have hseq := hof.sequence_eq
    exact ⟨state, by rw [hseq]; exact hu, by rw [hseq]; exact hof⟩
  | plan hcontrol hplan =>
    refine ⟨h.afterReplies ?_, fun p hp => absurd hp List.not_mem_nil⟩
    intro q hq
    rcases RecoveryHistory.plan_mem hplan q hq with rfl | hq
    · exact fun _ => h.built _ _ hcontrol
    · exact h.recorded q hq
  | reply hcontrol hbytes =>
    have hall := h.replying _ _ hcontrol
    refine ⟨h.afterReplies fun q hq => hall q (List.mem_cons_of_mem _ hq), ?_⟩
    intro q hq
    rw [List.mem_singleton.mp hq]
    exact hall _ List.mem_cons_self
  | buildFailed | planFailed | replyFailed =>
    exact ⟨h.stop, fun p hp => absurd hp List.not_mem_nil⟩

/-- No action forgets an update. -/
theorem Stepped.updates {a : PublisherAction} {out : List Published} (hs : Stepped X t a t' out) :
    ∀ u ∈ t.updates, u ∈ t'.updates := by
  cases hs with
  | unsent | sent => exact fun u hu => List.mem_append_left _ hu
  | _ => exact fun u hu => hu

end Steps

/-! ## Runs -/

/-- Runs whose every action is allowed where it is taken, and what `control_loop` has
    published. -/
inductive Run (X : Crates) (allowed : PublisherSession → PublisherAction → Prop) :
    PublisherSession → List Packet → Prop where
  | start (topics : SessionTopics) (initial : AgentState) : Run X allowed (new topics initial) []
  | step {t t' : PublisherSession} {replies : List Packet} {a : PublisherAction}
      {out : List Published} (h : Run X allowed t replies) (ha : allowed t a)
      (hs : t.step X a = some (t', out)) :
      Run X allowed t' (replies ++ out.filterMap Published.reply?)

/-- Every snapshot published carries exactly the state encoded under its sequence: below the
    last number there is, no other state has that number. -/
def SnapshotsCarried (X : Crates) (t : PublisherSession) (replies : List Packet) : Prop :=
  ∀ p ∈ replies, p.kind = .snapshot → ∃ s, (p.sequence, s) ∈ t.updates ∧
    SnapshotOf X agentCodec p.sequence s p ∧
    (p.sequence.toNat < U64_MAX → ∀ s', (p.sequence, s') ∈ t.updates → s' = s)

theorem Run.tracked {X : Crates} {t : PublisherSession} {replies : List Packet}
    (h : Run X InOrder t replies) : t.Tracked X ∧ ∀ p ∈ replies, t.SnapshotCarried X p := by
  induction h with
  | start topics initial =>
    exact ⟨new_tracked X topics initial, fun p hp => absurd hp List.not_mem_nil⟩
  | step _ ha hs ih =>
    obtain ⟨htracked, hreplies⟩ := ih
    have hstep := step_sound hs
    obtain ⟨htracked', hnew⟩ := htracked.step ha hstep
    refine ⟨htracked', fun p hp => ?_⟩
    rcases List.mem_append.mp hp with hp | hp
    · exact (hreplies p hp).mono hstep.updates
    · exact hnew p hp

/-- **Session snapshots carry the encoded state** in every run whose snapshots are all built in
    order, however its tasks interleave otherwise and whatever calls fail. -/
theorem session_snapshots_carried {X : Crates} {t : PublisherSession} {replies : List Packet}
    (h : Run X InOrder t replies) : t.SnapshotsCarried X replies := by
  obtain ⟨htracked, hreplies⟩ := h.tracked
  intro p hp hkind
  obtain ⟨s, hs, hof⟩ := hreplies p hp hkind
  refine ⟨s, hs, hof, fun hlt s' hs' => ?_⟩
  exact congrArg Prod.snd (htracked.unique _ hs' _ hs rfl hlt)

/-- An action, and the packets its replies add. -/
def stepReplies (X : Crates) (c : PublisherSession × List Packet) (a : PublisherAction) :
    Option (PublisherSession × List Packet) :=
  match c.1.step X a with
  | none => none
  | some (t', out) => some (t', c.2 ++ out.filterMap Published.reply?)

theorem Run.extend {X : Crates} {allowed : PublisherSession → PublisherAction → Prop}
    {c c' : PublisherSession × List Packet} {a : PublisherAction} (h : Run X allowed c.1 c.2)
    (ha : allowed c.1 a) (hs : stepReplies X c a = some c') : Run X allowed c'.1 c'.2 := by
  unfold stepReplies at hs
  split at hs
  · cases hs
  · rename_i next out hstep
    cases hs
    exact h.step ha hstep

/-- The request of a client that has no state. -/
def firstRequest : ResyncRequest := ⟨"client", none, 0, "agent.reply.client"⟩

/-- A call that is over before a request is answered. -/
def answered : List PublisherAction :=
  [.write (idleAgent 0), .encode 0 true, .record, .copy firstRequest, .build, .plan, .reply true]

/-- Its answer is the first snapshot. -/
theorem session_snapshots_carried_answered : ∃ t,
    Run .stored InOrder t [idlePacket] ∧ t.SnapshotsCarried .stored [idlePacket] := by
  have hdone : (perform (stepReplies .stored) (fun c a => decide (c.1.InOrder a)) answered
      (new (.new "agent") (idleAgent 0), [])).map Prod.snd = some [idlePacket] := by decide +kernel
  obtain ⟨⟨t, replies⟩, hp, hreplies⟩ := Option.map_eq_some_iff.mp hdone
  have hrun : Run .stored InOrder t replies :=
    perform_keeps (I := fun c => Run .stored InOrder c.1 c.2)
      (fun _ _ _ hrun ha hs => hrun.extend (of_decide_eq_true ha) hs) hp
      (.start (.new "agent") (idleAgent 0))
  have hreplies : replies = [idlePacket] := hreplies
  rw [hreplies] at hrun
  exact ⟨t, hrun, session_snapshots_carried hrun⟩

/-- A second call that has written its state, but not yet encoded it, when the request comes. -/
def overtaken : List PublisherAction :=
  [.write (idleAgent 0), .encode 0 true, .record, .write busyAgent, .copy firstRequest, .build,
    .plan, .reply true]

/-- The snapshot of sequence 1 carries the state of the second call. -/
theorem session_snapshot_overtaken : ∃ t replies,
    Run .stored (fun _ _ => True) t replies ∧ ¬t.SnapshotsCarried .stored replies := by
  have hdone : (perform (stepReplies .stored) (fun _ _ => true) overtaken
      (new (.new "agent") (idleAgent 0), [])).map (fun c => (c.1.updates, c.2)) =
        some ([(1, idleAgent 0)],
          [.snapshot 1 (stateHash busyAgent) agentSchemaHash (encodeAgentState busyAgent)]) := by
    decide +kernel
  obtain ⟨⟨t, replies⟩, hp, hc⟩ := Option.map_eq_some_iff.mp hdone
  obtain ⟨hupdates, hreplies⟩ := Prod.mk.inj hc
  have hrun : Run .stored (fun _ _ => True) t replies :=
    perform_keeps (I := fun c => Run .stored (fun _ _ => True) c.1 c.2)
      (fun _ _ _ hrun _ hs => hrun.extend trivial hs) hp (.start (.new "agent") (idleAgent 0))
  refine ⟨t, replies, hrun, fun hcarried => ?_⟩
  have hreplies : replies = _ := hreplies
  have hupdates : t.updates = _ := hupdates
  obtain ⟨s, hs, ⟨bytes, hbytes, hcopy⟩, -⟩ :=
    hcarried _ (by rw [hreplies]; exact List.mem_singleton_self _) rfl
  rw [hupdates] at hs
  obtain ⟨-, rfl⟩ := Prod.mk.inj (List.mem_singleton.mp hs)
  cases hbytes
  have hhash : stateHash busyAgent = stateHash (idleAgent 0) := hcopy.header.baseHash
  revert hhash
  decide +kernel

end PublisherSession

end DeltaStream
