import DeltaStream.AgentFeed
import DeltaStream.PacketCorruption

/-!
# The torture simulation

Model of `src/torture.rs`: many clients with reorder buffers under drops, duplicates, corruption,
reordering, short and long disconnects, late joins, and one outage of all of them followed by a
shared recovery snapshot.  The simulation is modelled over any schedule of faults;
`Torture.schedule` is that of the source.

* `ReorderDecoder.apply_usable`, `apply_restores` — a reorder decoder that holds one of the
  published states, and buffers packets that can be used, stays so, and without a buffer a
  recovery snapshot brings it up to date;
* `Packet.corrupted_refused` — a packet whose last byte has its top bit flipped is refused;
* `torture_converges` — whatever the schedule, all clients end up with the published state.
-/

set_option autoImplicit false

namespace DeltaStream

open Fallible Replica Runs SortedMap

/-! ## Reorder decoders -/

namespace ReorderDecoder

variable {X : Crates} {states : List AgentState} {r : ReorderDecoder} {p : Packet}
  {E : DeltaError → Prop}

/-- The decoder holds one of the states, and the packets in its buffer can be used. -/
def Follows (X : Crates) (states : List AgentState) (r : ReorderDecoder) : Prop :=
  r.Holds (Decoder.Follows states) (Feeds X states)

theorem Follows.mono {more : List AgentState} (h : Follows X states r) :
    Follows X (states ++ more) r :=
  ⟨h.1.mono, fun e he => (h.2 e he).mono⟩

theorem Follows.clearPending (h : Follows X states r) : Follows X states r.clearPending :=
  ⟨h.1, fun _ he => absurd he List.not_mem_nil⟩

def default : ReorderDecoder := new 8 64

theorem follows_default (states : List AgentState) : Follows X states default :=
  ⟨Decoder.follows_default states, fun _ he => absurd he List.not_mem_nil⟩

/-- **A packet that can be used** is no error for a reorder decoder, nor are the packets drained
    after it. -/
theorem apply_usable (hr : Follows X states r) (hp : Feeds X states p) :
    Ends (fun q => Follows X states q.2) E (threaded (r.apply X p)) := by
  have hkeep : ∀ d q, Feeds X states q → Decoder.Follows states d →
      Decoder.Follows states (Decoder.applyPacket X d q).2 := by
    intro d q hq hd
    obtain ⟨result, d', hcall, hfollows⟩ := Decoder.apply_follows hd hq
    rw [hcall]
    exact hfollows
  have hnever : ∀ {d q e d'}, Feeds X states q → Decoder.Follows states d →
      Decoder.applyPacket X d q ≠ (.error e, d') := by
    intro d q e d' hq hd hcall
    obtain ⟨result, d'', hok, -⟩ := Decoder.apply_follows hd hq
    cases hcall.symm.trans hok
  generalize hcall : r.apply X p = call
  obtain ⟨result, r'⟩ := call
  have hnext : Follows X states r' := hr.apply hp hkeep hcall
  cases result with
  | ok result => exact hnext
  | error e =>
    exfalso
    cases apply_cases hcall with
    | rejected hahead hdec => exact hnever hp hr.1 hdec
    | @applied n s d _ _ hahead hdec hdrain =>
      obtain ⟨qs, rm, hrun, hstop⟩ := drain_turns hdrain
      have hd : Decoder.Follows states (Decoder.applyPacket X r.decoder p).2 :=
        hkeep r.decoder p hp hr.1
      rw [hdec] at hd
      have hfed : Follows X states { r with decoder := d } := ⟨hd, hr.2⟩
      have hrm : Follows X states rm := by
        refine hrun.keeps ?_ hfed
        intro b q c hb hturn
        obtain ⟨k, hdue, rfl⟩ := hturn.takes
        exact ⟨hkeep _ _ (hb.2 _ (get?_mem (due_eq_some hdue).2)) hb.1,
          fun e he => hb.2 e (mem_erase.mp he).1⟩
      cases hstop with
      | rejected hdue hdec => exact hnever (hrm.2 _ (get?_mem (due_eq_some hdue).2)) hrm.1 hdec

/-- **A recovery snapshot** brings a reorder decoder with an empty buffer up to date. -/
theorem apply_restores {s : AgentState} (hr : Decoder.Follows states r.decoder)
    (hempty : r.pending = []) (hlast : ∀ t, states.getLast? = some t → t = s)
    (hp : Restores X states s p) :
    Ends (fun q => UpToDate states s q.2.decoder ∧ q.2.pending = [] ∧
        ((∃ n t k, q.1 = .applied n t k) ∨ ∃ n, q.1 = .duplicate n)) E
      (threaded (r.apply X p)) := by
  have hkind : p.kind = .snapshot := (TypedDecoder.read_full hp).1
  have hahead : r.ahead p = none := by
    unfold ahead
    rw [hkind]
  obtain ⟨⟨result, d⟩, hdec, hup, hnot, -⟩ := (Decoder.apply_restores (X := X)
    (E := fun _ => False) hr hlast hp).total fun _ he => he
  have hdec := threaded_eq_ok hdec
  cases result with
  | needSnapshot l m => exact absurd rfl (hnot l m)
  | duplicate n =>
    have hcall : r.apply X p = (.ok (.duplicate n), { r with decoder := d }) := by
      unfold apply
      split
      · simp_all
      · rw [hdec]
    rw [hcall]
    exact ⟨hup, hempty, .inr ⟨n, rfl⟩⟩
  | applied n t =>
    have hdue : ({ r with decoder := d } : ReorderDecoder).due = none := by
      unfold due
      simp only [hempty]
      split <;> rfl
    rw [apply_of_applied hahead hdec, drain]
    split
    · exact ⟨hup, hempty, .inl ⟨_, _, _, rfl⟩⟩
    · simp_all

end ReorderDecoder

/-! ## A corrupted packet -/

/-- `if let Some(last) = wire.last_mut() { *last ^= mask }`. -/
def xorLast (mask : UInt8) (wire : Bytes) : Bytes :=
  match wire.getLast? with
  | none => wire
  | some last => wire.dropLast ++ [last ^^^ mask]

theorem Crates.checked_exact : Crates.checked.ZstdExact :=
  ⟨Crates.stored_exact.fits, Crates.stored_exact.refuses⟩

theorem Crates.checked_total : Crates.checked.CompressTotal := Crates.stored_total

section Corruption

open BitFlip ByteReader Overlay

/-- The top bit of the last byte. -/
theorem xorLast_flip {wire : Bytes} (h : wire ≠ []) :
    xorLast 0x80 wire = flipBit wire (8 * wire.length - 1) := by
  obtain rfl | ⟨init, last, rfl⟩ := List.eq_nil_or_concat' wire
  · exact absurd rfl h
  · have hlen : 8 * (init ++ [last]).length - 1 = 8 * init.length + 7 := by
      rw [List.length_append, List.length_singleton]
      omega
    rw [hlen, flipBit_append_right _ (by omega), Nat.add_sub_cancel_left]
    simp [xorLast, flipBit]

/-- **The corrupted packet** is refused: the flipped bit is one of the payload, or of its length
    where there is no payload. -/
theorem Packet.corrupted_refused {X : Crates} (hX : X.DetectsFlips) {p : Packet} {wire : Bytes}
    (henc : p.encode X = .ok wire) : ∃ e, Packet.decode X (xorLast 0x80 wire) = .error e := by
  have hlength : wire.length = HEADER_LEN + p.payload.length := encode_length henc
  have hheader : HEADER_LEN = 46 := rfl
  have hne : wire ≠ [] := by
    rintro rfl
    rw [List.length_nil] at hlength
    omega
  rw [xorLast_flip hne]
  cases hq : Packet.decode X (flipBit wire (8 * wire.length - 1)) with
  | error e => exact ⟨e, rfl⟩
  | ok q =>
    exfalso
    have hsame : q = p := flip_protected hX henc (by omega) (by unfold Unprotected; omega) hq
    subst hsame
    have hmax : q.encodedLen ≤ DecodeConfig.default.maxPacketBytes :=
      Nat.add_le_add_left (encode_ok henc).2.1 HEADER_LEN
    have hsent := (decode_fields (decodeWithConfig_encode henc hmax)).2
    have hread := (decode_fields hq).2
    -- the packet read has the payload sent, yet a bit of it, or of its length, is another
    by_cases hempty : q.payload = []
    · rw [hempty, List.length_nil] at hlength
      have hlen := hread.payloadLen
      rw [slice_flipBit_in (by omega) (by omega), ← hsent.payloadLen] at hlen
      refine flipBit_ne ?_ hlen
      rw [hsent.payloadLen, leBytes_length]
      omega
    · have hpos := List.length_pos_iff.mpr hempty
      have hpayload := hread.payload
      rw [flipBit_drop_ge HEADER_LEN _ _ (by omega), ← hsent.payload] at hpayload
      refine flipBit_ne ?_ hpayload
      rw [hsent.payload]
      omega

end Corruption

namespace Torture

structure TortureReport where
  resyncStormSnapshotsBuilt : Nat
  clients : Nat
  updates : Nat
  deliveries : Nat
  drops : Nat
  duplicates : Nat
  corruptions : Nat
  reorders : Nat
  bufferedReorders : Nat
  disconnects : Nat
  lateJoins : Nat
  longDisconnects : Nat
  resyncs : Nat
  resyncStormClients : Nat
  recoverySnapshotsBuilt : Nat
  convergedClients : Nat
  finalSequence : UInt64
  deriving DecidableEq

def TortureReport.allConverged (report : TortureReport) : Bool :=
  decide (report.convergedClients = report.clients)

structure Client where
  decoder : ReorderDecoder
  offlineUntil : Nat
  joined : Bool
  delayed : Option Packet
  deriving DecidableEq

def Client.default : Client := ⟨.default, 0, false, none⟩

/-- What happens to which client in which update, of a number of updates. -/
structure Faults where
  joinAt (updates id : Nat) : Nat
  outage (updates update : Nat) : Bool
  storm (updates update : Nat) : Bool
  longDisconnects (update id : Nat) : Bool
  disconnects (update id : Nat) : Bool
  drops (update id : Nat) : Bool
  corrupts (update id : Nat) : Bool
  holds (update id : Nat) : Bool
  repeats (update id : Nat) : Bool

/-- The constants of `run`. -/
def schedule : Faults where
  joinAt updates id := if id % 10 = 0 then (id * 37) % max updates 2 else 0
  outage updates update := decide (update = updates / 2)
  storm updates update := decide (update = saturatingAdd (updates / 2) 1)
  longDisconnects update id := decide (update > 0 ∧ (update + id * 29) % 10007 = 0)
  disconnects update id := decide (update > 0 ∧ (update + id * 13) % 997 = 0)
  drops update id := decide (update > 0 ∧ (update + id * 17) % 211 = 0)
  corrupts update id := decide (update > 0 ∧ (update + id * 31) % 1237 = 0)
  holds update id := decide (update > 1 ∧ (update + id * 19) % 389 = 0)
  repeats update id := decide (update > 0 ∧ (update + id * 23) % 307 = 0)

def recoveryFailed : DeltaError := .invalidState "torture recovery failed"

def acceptedCorrupted : DeltaError := .invalidState "corrupted torture packet was accepted"

section Definitions

variable (X : Crates)

/-- What a result other than a request for recovery adds to the report. -/
def record (result : ReorderApplyResult) (report : TortureReport) : TortureReport :=
  match result with
  | .applied _ _ drained =>
    { report with
      deliveries := report.deliveries + 1
      bufferedReorders := report.bufferedReorders + drained }
  | .buffered _ => { report with reorders := report.reorders + 1 }
  | .duplicate _ => { report with duplicates := report.duplicates + 1 }
  | .needRecovery _ _ => report

/-- The recovery of a client whose buffer is given up. -/
def recover (client : Client) (encoder : Encoder) (state : AgentState) (report : TortureReport) :
    Except DeltaError (ReorderApplyResult × Client × TortureReport) := do
  let recovery ← Encoder.recoverySnapshot X encoder state
  let (result, decoder) ← threaded (client.decoder.clearPending.apply X recovery)
  pure (result, { client with decoder }, { report with
    resyncs := report.resyncs + 1
    recoverySnapshotsBuilt := report.recoverySnapshotsBuilt + 1 })

def deliver (client : Client) (packet : Packet) (encoder : Encoder) (state : AgentState)
    (report : TortureReport) : Except DeltaError (Client × TortureReport) := do
  let (result, decoder) ← threaded (client.decoder.apply X packet)
  match result with
  | .needRecovery _ _ =>
    let (result, client, report) ← recover X { client with decoder } encoder state report
    match result with
    | .applied _ _ _ => pure (client, { report with deliveries := report.deliveries + 1 })
    | .duplicate _ => pure (client, { report with deliveries := report.deliveries + 1 })
    | _ => .error recoveryFailed
  | _ => pure ({ client with decoder }, record result report)

/-- The packet held back, if there is one; its recovery is not checked. -/
def deliverDelayed (encoder : Encoder) (state : AgentState) (client : Client)
    (report : TortureReport) : Except DeltaError (Client × TortureReport) :=
  match client.delayed with
  | none => .ok (client, report)
  | some delayed => do
    let (result, decoder) ← threaded (client.decoder.apply X delayed)
    match result with
    | .needRecovery _ _ =>
      let (_, client, report) ←
        recover X { client with decoder, delayed := none } encoder state report
      pure (client, report)
    | _ => pure ({ client with decoder, delayed := none }, record result report)

def deliverAgain (f : Faults) (update : Nat) (packet : Packet) (encoder : Encoder)
    (state : AgentState) (id : Nat) (client : Client) (report : TortureReport) :
    Except DeltaError (Client × TortureReport) :=
  if f.repeats update id then deliver X client packet encoder state report
  else .ok (client, report)

/-- The deliveries of a turn. -/
def deliveries (f : Faults) (update : Nat) (packet : Packet) (encoder : Encoder)
    (state : AgentState) (id : Nat) (client : Client) (report : TortureReport) :
    Except DeltaError (Client × TortureReport) := do
  let (client, report) ← deliver X client packet encoder state report
  let (client, report) ← deliverDelayed X encoder state client report
  deliverAgain X f update packet encoder state id client report

/-- A corrupted packet is never delivered. -/
def corrupt (packet : Packet) (client : Client) (report : TortureReport) :
    Except DeltaError (Client × TortureReport) := do
  let wire ← packet.encode X
  match Packet.decode X (xorLast 0x80 wire) with
  | .ok _ => .error acceptedCorrupted
  | .error _ =>
    pure (client, { report with
      corruptions := report.corruptions + 1, drops := report.drops + 1 })

/-- The first turn of a client. -/
def join (f : Faults) (updates : Nat) (encoder : Encoder) (state : AgentState) (id : Nat)
    (client : Client) (report : TortureReport) : Except DeltaError (Client × TortureReport) := do
  let snapshot ← Encoder.recoverySnapshot X encoder state
  let (_, decoder) ← threaded (client.decoder.apply X snapshot)
  pure ({ client with decoder, joined := true }, { report with
    lateJoins := if f.joinAt updates id > 0 then report.lateJoins + 1 else report.lateJoins
    recoverySnapshotsBuilt := report.recoverySnapshotsBuilt + 1 })

/-- The disconnects of a turn. -/
def disconnect (f : Faults) (updates update id : Nat) (client : Client) (report : TortureReport) :
    Client × TortureReport :=
  if f.longDisconnects update id then
    ({ client with offlineUntil := saturatingAdd update (min 500 (updates / 4 + 1)) },
      { report with
        disconnects := report.disconnects + 1
        longDisconnects := report.longDisconnects + 1 })
  else if f.disconnects update id then
    ({ client with offlineUntil := saturatingAdd update 5 },
      { report with disconnects := report.disconnects + 1 })
  else (client, report)

/-- The turn of a client that has joined. -/
def joinedTurn (f : Faults) (updates update : Nat) (packet : Packet) (encoder : Encoder)
    (state : AgentState) (id : Nat) (client : Client) (report : TortureReport) :
    Except DeltaError (Client × TortureReport) :=
  let (client, report) := disconnect f updates update id client report
  if update < client.offlineUntil then .ok (client, { report with drops := report.drops + 1 })
  else if f.drops update id then .ok (client, { report with drops := report.drops + 1 })
  else if f.corrupts update id then corrupt X packet client report
  else if packet.kind = .delta ∧ client.delayed = none ∧ f.holds update id = true then
    .ok ({ client with delayed := some packet }, { report with reorders := report.reorders + 1 })
  else deliveries X f update packet encoder state id client report

/-- The body of the loop over the clients. -/
def turn (f : Faults) (updates update : Nat) (packet : Packet) (encoder : Encoder)
    (state : AgentState) (id : Nat) (client : Client) (report : TortureReport) :
    Except DeltaError (Client × TortureReport) :=
  if client.joined then joinedTurn X f updates update packet encoder state id client report
  else if update < f.joinAt updates id then .ok (client, report)
  else join X f updates encoder state id client report

/-- One client of the resync storm. -/
def stormTurn (shared : Packet) (_ : Nat) (client : Client) (report : TortureReport) :
    Except DeltaError (Client × TortureReport) :=
  if client.joined then do
    let (_, decoder) ← threaded (client.decoder.clearPending.apply X shared)
    pure ({ client with decoder }, { report with
      resyncStormClients := report.resyncStormClients + 1, resyncs := report.resyncs + 1 })
  else .ok (client, report)

/-- The local variables of the simulation. -/
structure Simulation where
  encoder : Encoder
  state : AgentState
  subscribers : List Client
  report : TortureReport
  deriving DecidableEq

/-- The body of the loop over the updates. -/
def round (f : Faults) (updates update : Nat) (sim : Simulation) :
    Except DeltaError Simulation := do
  let state := sim.state.advance
  let (packet, encoder) ← threaded (sim.encoder.encode X state)
  if f.outage updates update then
    let missed := (sim.subscribers.filter Client.joined).length
    pure ⟨encoder, state, sim.subscribers, { sim.report with drops := sim.report.drops + missed }⟩
  else if f.storm updates update then
    let shared ← Encoder.recoverySnapshot X encoder state
    let report := { sim.report with
      recoverySnapshotsBuilt := sim.report.recoverySnapshotsBuilt + 1
      resyncStormSnapshotsBuilt := sim.report.resyncStormSnapshotsBuilt + 1 }
    let (subscribers, report) ← forEach (stormTurn X shared) 0 sim.subscribers report
    pure ⟨encoder, state, subscribers, report⟩
  else
    let (subscribers, report) ←
      forEach (turn X f updates update packet encoder state) 0 sim.subscribers sim.report
    pure ⟨encoder, state, subscribers, report⟩

def start (clients updates : Nat) : Simulation where
  encoder := .default
  state := .demo
  subscribers := List.replicate clients .default
  report := ⟨0, clients, updates, 0, 0, 0, 0, 0, 0, 0, 0, 0, 0, 0, 0, 0, 0⟩

/-- The final recovery broadcast to one client. -/
def restore (snapshot : Packet) (_ : Nat) (client : Client) (_ : Unit) :
    Except DeltaError (Client × Unit) := do
  let (_, decoder) ← threaded (client.decoder.clearPending.apply X snapshot)
  pure ({ client with decoder, joined := true }, ())

def finish (sim : Simulation) : Except DeltaError TortureReport := do
  let finalSnapshot ← Encoder.recoverySnapshot X sim.encoder sim.state
  let (subscribers, _) ← forEach (restore X finalSnapshot) 0 sim.subscribers ()
  pure { sim.report with
    recoverySnapshotsBuilt := sim.report.recoverySnapshotsBuilt + 1
    finalSequence := sim.encoder.sequence
    convergedClients :=
      (subscribers.filter fun client => client.decoder.decoder.holds sim.state).length }

/-- `run` under any schedule. -/
def simulate (f : Faults) (clients updates : Usize) : Except DeltaError TortureReport := do
  let clientCount := max clients.toNat 1
  let updateCount := max updates.toNat 1
  let sim ← forRange (round X f updateCount) 0 updateCount (start clientCount updateCount)
  finish X sim

def run (clients updates : Usize) : Except DeltaError TortureReport :=
  simulate X schedule clients updates

end Definitions

/-! ## Invariants -/

variable {X : Crates} {states : List AgentState} {encoder : Encoder} {state : AgentState}

/-- A client between turns: what it holds, buffers and is kept from it can be used. -/
structure Consistent (X : Crates) (states : List AgentState) (client : Client) : Prop where
  follows : client.decoder.Follows X states
  delayed : ∀ p, client.delayed = some p → Feeds X states p

theorem Consistent.mono {more : List AgentState} {client : Client}
    (h : Consistent X states client) : Consistent X (states ++ more) client :=
  ⟨h.follows.mono, fun p hp => (h.delayed p hp).mono⟩

theorem consistent_default (states : List AgentState) : Consistent X states .default :=
  ⟨ReorderDecoder.follows_default states, fun _ hp => nomatch hp⟩

/-- A report of the same simulation. -/
def SameRun (base report : TortureReport) : Prop :=
  report.clients = base.clients ∧ report.updates = base.updates

/-- What every step does to a client: it stays consistent, in the same simulation. -/
def Keeps (X : Crates) (states : List AgentState) (report : TortureReport)
    (r : Client × TortureReport) : Prop := Consistent X states r.1 ∧ SameRun report r.2

theorem SameRun.refl (report : TortureReport) : SameRun report report := ⟨rfl, rfl⟩

theorem Keeps.trans {report report' : TortureReport} {r : Client × TortureReport}
    (h : Keeps X states report' r) (h' : SameRun report report') : Keeps X states report r :=
  ⟨h.1, h.2.1.trans h'.1, h.2.2.trans h'.2⟩

theorem record_same (result : ReorderApplyResult) (report : TortureReport) :
    SameRun report (record result report) := by
  cases result <;> exact ⟨rfl, rfl⟩

section Turn

variable (hd : X.ZstdExact) (hp : Publishing states encoder state) {client : Client}
  (hclient : Consistent X states client) (report : TortureReport)
include hd hp hclient

/-- **Recovery** brings a client up to date: its snapshot is applied or a duplicate. -/
theorem recover_ends :
    Ends (fun r => Keeps X states report r.2 ∧
        ((∃ n t k, r.1 = .applied n t k) ∨ ∃ n, r.1 = .duplicate n))
      X.CompressionFailed (recover X client encoder state report) := by
  unfold recover
  refine (Encoder.recoverySnapshot_ends hd hp.tracks hp.fits).bind fun recovery hrecovery => ?_
  refine (ReorderDecoder.apply_restores hclient.follows.clearPending.1 rfl (last_only hp.last)
    hrecovery).bind ?_
  rintro ⟨result, decoder⟩ ⟨hup, hempty, hresult⟩
  refine ⟨⟨⟨⟨hup.follows hp.last, fun e he => ?_⟩, hclient.delayed⟩, rfl, rfl⟩, hresult⟩
  rw [hempty] at he
  exact absurd he List.not_mem_nil

/-- **One delivery**: no error but a failed compression. -/
theorem deliver_ends {packet : Packet} (hpacket : Feeds X states packet) :
    Ends (Keeps X states report) X.CompressionFailed
      (deliver X client packet encoder state report) := by
  unfold deliver
  refine (ReorderDecoder.apply_usable hclient.follows hpacket).bind ?_
  rintro ⟨result, decoder⟩ hfollows
  have hnext : Consistent X states { client with decoder := decoder } :=
    ⟨hfollows, hclient.delayed⟩
  cases result with
  | applied n t k => exact ⟨hnext, record_same _ report⟩
  | buffered n => exact ⟨hnext, record_same _ report⟩
  | duplicate n => exact ⟨hnext, record_same _ report⟩
  | needRecovery l m =>
    refine (recover_ends hd hp hnext report).bind ?_
    rintro ⟨result, client', report'⟩ ⟨⟨hclient', hsame⟩, hresult⟩
    rcases hresult with ⟨n, t, k, hresult⟩ | ⟨n, hresult⟩
    · cases hresult
      exact ⟨hclient', hsame⟩
    · cases hresult
      exact ⟨hclient', hsame⟩

theorem deliverDelayed_ends :
    Ends (Keeps X states report) X.CompressionFailed
      (deliverDelayed X encoder state client report) := by
  unfold deliverDelayed
  split
  · exact ⟨hclient, .refl report⟩
  · rename_i delayed hdelayed
    refine (ReorderDecoder.apply_usable hclient.follows (hclient.delayed delayed hdelayed)).bind ?_
    rintro ⟨result, decoder⟩ hfollows
    have hnext : Consistent X states { client with decoder := decoder, delayed := none } :=
      ⟨hfollows, fun _ hp => nomatch hp⟩
    cases result with
    | applied n t k => exact ⟨hnext, record_same _ report⟩
    | buffered n => exact ⟨hnext, record_same _ report⟩
    | duplicate n => exact ⟨hnext, record_same _ report⟩
    | needRecovery l m =>
      refine (recover_ends hd hp hnext report).bind ?_
      rintro ⟨result, client', report'⟩ ⟨hkeeps, -⟩
      exact hkeeps

theorem deliveries_ends (f : Faults) (update id : Nat) {packet : Packet}
    (hpacket : Feeds X states packet) :
    Ends (Keeps X states report) X.CompressionFailed
      (deliveries X f update packet encoder state id client report) := by
  unfold deliveries
  refine (deliver_ends hd hp hclient report hpacket).bind ?_
  rintro ⟨client, report'⟩ ⟨hclient, hfirst⟩
  refine (deliverDelayed_ends hd hp hclient report').bind ?_
  rintro ⟨client, report''⟩ ⟨hclient, hsecond⟩
  have hsame : SameRun report report'' := ⟨hsecond.1.trans hfirst.1, hsecond.2.trans hfirst.2⟩
  show Ends _ _ (deliverAgain X f update packet encoder state id client report'')
  unfold deliverAgain
  split
  · exact (deliver_ends hd hp hclient report'' hpacket).value fun r hr => hr.trans hsame
  · exact ⟨hclient, hsame⟩

omit hd hp in
theorem disconnect_keeps (f : Faults) (updates update id : Nat) :
    Keeps X states report (disconnect f updates update id client report) := by
  unfold disconnect
  split
  · exact ⟨⟨hclient.follows, hclient.delayed⟩, rfl, rfl⟩
  split
  · exact ⟨⟨hclient.follows, hclient.delayed⟩, rfl, rfl⟩
  · exact ⟨hclient, .refl report⟩

/-- **One turn** of any client. -/
theorem turn_ends (hcrc : X.DetectsFlips) (f : Faults) (updates update id : Nat) {packet : Packet}
    (hpacket : Feeds X states packet) (hwire : ∃ bytes, packet.encode X = .ok bytes) :
    Ends (Keeps X states report) X.CompressionFailed
      (turn X f updates update packet encoder state id client report) := by
  unfold turn
  split
  · unfold joinedTurn
    obtain ⟨hclient, hsame⟩ := disconnect_keeps hclient report f updates update id
    generalize disconnect f updates update id client report = r at hclient hsame
    obtain ⟨client, report'⟩ := r
    simp only
    split
    · exact ⟨hclient, hsame⟩
    split
    · exact ⟨hclient, hsame⟩
    split
    · -- the corrupted packet is refused
      obtain ⟨wire, henc⟩ := hwire
      obtain ⟨e, hrefused⟩ := Packet.corrupted_refused hcrc henc
      unfold corrupt
      rw [henc]
      show Ends _ _ (match Packet.decode X (xorLast 0x80 wire) with
        | .ok _ => _
        | .error _ => _)
      rw [hrefused]
      exact ⟨hclient, hsame⟩
    split
    · refine ⟨⟨hclient.follows, ?_⟩, hsame⟩
      intro p hp
      cases hp
      exact hpacket
    · exact (deliveries_ends hd hp hclient report' f update id hpacket).value
        fun r hr => hr.trans hsame
  split
  · exact ⟨hclient, .refl report⟩
  · unfold join
    refine (Encoder.recoverySnapshot_ends hd hp.tracks hp.fits).bind fun snapshot hsnapshot => ?_
    refine (ReorderDecoder.apply_usable hclient.follows (hsnapshot.feeds hp.last)).bind ?_
    rintro ⟨result, decoder⟩ hfollows
    exact ⟨⟨hfollows, hclient.delayed⟩, rfl, rfl⟩

end Turn

/-- What holds between updates. -/
structure Running (X : Crates) (clients updates done : Nat) (sim : Simulation) : Prop where
  published : ∃ states, states.length = done ∧ TypedRun.Tracks ⟨sim.encoder, states⟩ ∧
    (∀ t, states.getLast? = some t → t = sim.state) ∧
    ∀ client ∈ sim.subscribers, Consistent X states client
  state : sim.state.OfDemo
  subscribers : sim.subscribers.length = clients
  report : SameRun (start clients updates).report sim.report

theorem start_running (clients updates : Nat) :
    Running X clients updates 0 (start clients updates) where
  published := by
    refine ⟨[], rfl, ⟨rfl, rfl⟩, fun _ ht => (nomatch ht), fun client hclient => ?_⟩
    rw [List.eq_of_mem_replicate hclient]
    exact consistent_default []
  state := AgentState.ofDemo_demo
  subscribers := List.length_replicate
  report := .refl _

/-- One step of every client, as a step of the simulation. -/
theorem forEach_running
    {body : Nat → Client → TortureReport → Except DeltaError (Client × TortureReport)}
    {clients updates done : Nat} {sim : Simulation} {report : TortureReport}
    (hstates : states.length = done) (htracks : TypedRun.Tracks ⟨encoder, states⟩)
    (hlast : states.getLast? = some state) (hstate : state.OfDemo)
    (hclients : ∀ client ∈ sim.subscribers, Consistent X states client)
    (hlength : sim.subscribers.length = clients)
    (hreport : SameRun (start clients updates).report report)
    (hbody : ∀ id client report, Consistent X states client →
      Ends (Keeps X states report) X.CompressionFailed (body id client report)) :
    Ends (Running X clients updates done) X.CompressionFailed (do
      let (subscribers, report) ← forEach body 0 sim.subscribers report
      pure ⟨encoder, state, subscribers, report⟩) := by
  refine (forEach_ends (fun _ client => Consistent X states client)
    (fun _ report => SameRun (start clients updates).report report) hclients hreport
    fun id client report hclient hsame => (hbody id client report hclient).value
      fun r hr => hr.trans hsame).bind ?_
  rintro ⟨subscribers, report⟩ ⟨hlen, hconsistent, hsame⟩
  exact ⟨⟨states, hstates, htracks, last_only hlast, forall_mem_of_getElem? hconsistent⟩, hstate,
    hlen.trans hlength, hsame⟩

/-- **One update** to all clients. -/
theorem round_ends (hd : X.ZstdExact) (hcrc : X.DetectsFlips) (f : Faults)
    {clients updates done : Nat} (hroom : done < U64_MAX) {sim : Simulation}
    (h : Running X clients updates done sim) :
    Ends (Running X clients updates (done + 1)) X.CompressionFailed
      (round X f updates done sim) := by
  obtain ⟨states, hlength, htracks, -, hclients⟩ := h.published
  have hstate : sim.state.advance.OfDemo := h.state.advance
  unfold round
  simp only
  refine (Encoder.encode_ends hd htracks (by omega) hstate.within).bind ?_
  rintro ⟨packet, encoder⟩ ⟨htracks', hfeeds, -, hwire⟩
  have hlast : (states ++ [sim.state.advance]).getLast? = some sim.state.advance := by simp
  have hlength' : (states ++ [sim.state.advance]).length = done + 1 := by simp [hlength]
  have hclients' : ∀ client ∈ sim.subscribers,
      Consistent X (states ++ [sim.state.advance]) client :=
    fun client hclient => (hclients client hclient).mono
  have hp : Publishing (states ++ [sim.state.advance]) encoder sim.state.advance :=
    ⟨htracks', hlast, hstate.within⟩
  simp only
  split
  · exact ⟨⟨_, hlength', htracks', last_only hlast, hclients'⟩, hstate, h.subscribers, h.report⟩
  split
  · -- the resync storm
    refine (Encoder.recoverySnapshot_ends hd htracks' hstate.within).bind fun shared hshared => ?_
    refine forEach_running hlength' htracks' hlast hstate hclients' h.subscribers h.report ?_
    intro id client report hclient
    unfold stormTurn
    split
    · refine (ReorderDecoder.apply_usable hclient.follows.clearPending
        (hshared.feeds hlast)).bind ?_
      rintro ⟨result, decoder⟩ hfollows
      exact ⟨⟨hfollows, hclient.delayed⟩, rfl, rfl⟩
    · exact ⟨hclient, .refl report⟩
  · exact forEach_running hlength' htracks' hlast hstate hclients' h.subscribers h.report
      fun id client report hclient =>
        turn_ends hd hp hclient report hcrc f updates done id hfeeds hwire

/-- **The final broadcast** brings every client up to date. -/
theorem finish_ends (hd : X.ZstdExact) {clients updates done : Nat} {sim : Simulation}
    (h : Running X clients updates done sim) :
    Ends (fun report => report.clients = clients ∧ report.convergedClients = clients ∧
        report.finalSequence.toNat = done)
      X.CompressionFailed (finish X sim) := by
  obtain ⟨states, hlength, htracks, hlast, hclients⟩ := h.published
  unfold finish
  refine (Encoder.recoverySnapshot_ends hd htracks h.state.within).bind fun snapshot hsnapshot => ?_
  refine (forEach_ends (fun _ client => client.decoder.decoder.holds sim.state = true)
    (fun _ _ => True) hclients trivial ?_).bind ?_
  · intro _ client _ hclient _
    refine (ReorderDecoder.apply_restores hclient.follows.clearPending.1 rfl hlast
      hsnapshot).bind ?_
    rintro ⟨result, decoder⟩ ⟨hup, -⟩
    exact ⟨hup.holds h.state.eq_self, trivial⟩
  rintro ⟨subscribers, _⟩ ⟨hlen, hall, -⟩
  refine ⟨h.report.1, ?_, ?_⟩
  · show (subscribers.filter _).length = clients
    rw [List.filter_eq_self.mpr (forall_mem_of_getElem? hall), hlen, h.subscribers]
  · exact (show sim.encoder.sequence.toNat = states.length from htracks.sequence).trans hlength

end Torture

open Torture in
/-- **The torture simulation converges** whatever the schedule of faults: unless compression
    fails, no corrupted packet is accepted, no recovery fails, all clients end up with the
    published state and the publisher has numbered every update. -/
theorem torture_converges {X : Crates} (hd : X.ZstdExact) (hcrc : X.DetectsFlips) (f : Faults)
    (clients updates : Usize) :
    Ends (fun report => report.allConverged = true ∧ report.clients = max clients.toNat 1 ∧
        report.finalSequence.toNat = max updates.toNat 1)
      X.CompressionFailed (simulate X f clients updates) := by
  have hupdates : updates.toNat ≤ U64_MAX := toNat_le_max updates
  have hmax : max updates.toNat 1 ≤ U64_MAX := Nat.max_le.mpr ⟨hupdates, by decide⟩
  unfold simulate
  refine (forRange_ends (Running X (max clients.toNat 1) (max updates.toNat 1)) (start_running _ _)
    fun i sim hi h => round_ends hd hcrc f (by omega) h).bind fun sim hsim => ?_
  refine (finish_ends hd hsim).value ?_
  rintro report ⟨hclients, hconverged, hsequence⟩
  exact ⟨decide_eq_true (hconverged.trans hclients.symm), hclients, hsequence⟩

open Torture in
/-- Two clients and four updates under the source's schedule, with the checksum of the wire
    format. -/
theorem torture_converges_two : ∃ report, run .checked 2 4 = .ok report ∧
    report.allConverged = true ∧ report.clients = 2 := by
  obtain ⟨report, hrun, hconverged, hclients, -⟩ :=
    (torture_converges Crates.checked_exact Crates.checked_detectsFlips schedule 2 4).total
      fun e he => he.not_total Crates.checked_total
  exact ⟨report, hrun, hconverged, hclients⟩

end DeltaStream
