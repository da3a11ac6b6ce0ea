import Mathlib.Data.List.Dedup
import DeltaStream.ByteFeed
import DeltaStream.Torture

/-!
# The torture simulation of the byte stream

Model of `src/v30_torture.rs`: many byte decoders under drops, duplicates, corruption, reordering
and late joins; whoever cannot use an update is recovered, in the same round, by one snapshot
shared by all.  The simulation is modelled over any schedule of faults; `ByteTorture.schedule` is
that of the source.

* `ByteTorture.turn_ends` — one client's turn: unless the schedule keeps the update from it, it is
  up to date or on the list of those to recover;
* `ByteTorture.recoverAll_ends` — the shared snapshot brings all of these up to date;
* `v30_torture_converges`, `v30_torture_current` — so all clients end up with the published state,
  and hold it after each round they took part in.
-/

set_option autoImplicit false

namespace DeltaStream

open Fallible Replica

namespace ByteTorture

structure V30TortureReport where
  clients : Nat
  updates : Nat
  drops : Nat
  duplicates : Nat
  corruptions : Nat
  reorders : Nat
  recoveries : Nat
  sharedRecoverySnapshots : Nat
  lateJoins : Nat
  converged : Nat
  deriving DecidableEq

def V30TortureReport.allConverged (report : V30TortureReport) : Bool :=
  decide (report.converged = report.clients)

structure Client where
  decoder : ByteStateDecoder
  delayed : Option Packet
  joined : Bool
  deriving DecidableEq

def schemaName : String := "v30/torture"

def Client.default : Client := ⟨.new schemaName, none, false⟩

/-- What happens to which client in which update, of a number of updates. -/
structure Faults where
  joinAt (updates id : Nat) : Nat
  drops (update id : Nat) : Bool
  holds (update id : Nat) : Bool
  corrupts (update id : Nat) : Bool
  repeats (update id : Nat) : Bool

/-- The constants of `run`. -/
def schedule : Faults where
  joinAt updates id := 1 + id % min updates 97
  drops update id := decide ((update + id * 17) % 211 = 0)
  holds update id := decide ((update + id * 13) % 509 = 0)
  corrupts update id := decide ((update + id * 19) % 997 = 0)
  repeats update id := decide ((update + id * 23) % 701 = 0)

def sharedRecoveryFailed : DeltaError := .invalidState "V30 shared recovery failed"

/-- Stands for the panic of `peers[id]`; no run ends with it. -/
def indexOutOfBounds : DeltaError := .invalidState "index out of bounds"

section Definitions

variable (X : Crates)

/-- `need_recovery` and the report. -/
abbrev Tally := List Nat × V30TortureReport

def deliver (packet : Packet) (id : Nat) (peer : Client) (tally : Tally) :
    Except DeltaError (Client × Tally) := do
  let (result, decoder) ← threaded (peer.decoder.apply X packet)
  match result with
  | .needRecovery _ _ =>
    pure ({ peer with decoder },
      (tally.1 ++ [id], { tally.2 with recoveries := tally.2.recoveries + 1 }))
  | _ => pure ({ peer with decoder }, tally)

/-- A packet whose result is not looked at. -/
def deliverIgnored (packet : Packet) (peer : Client) : Except DeltaError Client := do
  let (_, decoder) ← threaded (peer.decoder.apply X packet)
  pure { peer with decoder }

def deliverAgain (f : Faults) (update : Nat) (packet : Packet) (id : Nat) (peer : Client)
    (tally : Tally) : Except DeltaError (Client × Tally) :=
  if f.repeats update id then do
    let peer ← deliverIgnored X packet peer
    pure (peer, (tally.1, { tally.2 with duplicates := tally.2.duplicates + 1 }))
  else .ok (peer, tally)

def deliverDelayed (peer : Client) : Except DeltaError Client :=
  match peer.delayed with
  | none => .ok peer
  | some delayed => deliverIgnored X delayed { peer with delayed := none }

/-- The deliveries of a turn. -/
def deliveries (f : Faults) (update : Nat) (packet : Packet) (id : Nat) (peer : Client)
    (tally : Tally) : Except DeltaError (Client × Tally) := do
  let (peer, tally) ← deliver X packet id peer tally
  let (peer, tally) ← deliverAgain X f update packet id peer tally
  let peer ← deliverDelayed X peer
  pure (peer, tally)

/-- A corrupted packet that can still be read does not keep the packet from the client. -/
def corrupt (f : Faults) (update : Nat) (packet : Packet) (id : Nat) (peer : Client)
    (tally : Tally) : Except DeltaError (Client × Tally) := do
  let wire ← packet.encode X
  let report := { tally.2 with corruptions := tally.2.corruptions + 1 }
  match Packet.decode X (xorLast 0xA5 wire) with
  | .error _ => pure (peer, (tally.1 ++ [id], report))
  | .ok _ => deliveries X f update packet id peer (tally.1, report)

/-- The turn of a client that has joined. -/
def joinedTurn (f : Faults) (update : Nat) (packet : Packet) (id : Nat) (peer : Client)
    (tally : Tally) : Except DeltaError (Client × Tally) :=
  if f.drops update id then
    .ok (peer, (tally.1, { tally.2 with drops := tally.2.drops + 1 }))
  else if f.holds update id = true ∧ peer.delayed = none then
    .ok ({ peer with delayed := some packet },
      (tally.1, { tally.2 with reorders := tally.2.reorders + 1 }))
  else if f.corrupts update id then corrupt X f update packet id peer tally
  else deliveries X f update packet id peer tally

/-- The body of the loop over the clients. -/
def turn (f : Faults) (updates update : Nat) (packet : Packet) (id : Nat) (peer : Client)
    (tally : Tally) : Except DeltaError (Client × Tally) :=
  if peer.joined then joinedTurn X f update packet id peer tally
  else if update < f.joinAt updates id then .ok (peer, tally)
  else if 1 < f.joinAt updates id then
    .ok ({ peer with joined := true },
      (tally.1 ++ [id], { tally.2 with lateJoins := tally.2.lateJoins + 1 }))
  else joinedTurn X f update packet id { peer with joined := true } tally

/-- The body of the loop over those to recover. -/
def recover (shared : Packet) (peers : List Client) (id : Nat) :
    Except DeltaError (List Client) :=
  match peers[id]? with
  | none => .error indexOutOfBounds
  | some peer => do
    let (result, decoder) ← threaded (peer.decoder.apply X shared)
    match result with
    | .needRecovery _ _ => .error sharedRecoveryFailed
    | _ => pure (peers.set id { peer with decoder })

/-- `need_recovery.sort_unstable()`, `need_recovery.dedup()` and the loop. -/
def recoverAll (shared : Packet) (need : List Nat) (peers : List Client) :
    Except DeltaError (List Client) :=
  need.mergeSort.dedup.foldlM (recover X shared) peers

/-- The local variables of the simulation. -/
structure Simulation where
  encoder : FastByteStateEncoder
  state : Slice
  peers : List Client
  report : V30TortureReport

/-- `state[i] ^= (update as u8).wrapping_add(1)` for `i = (update * 97) % state.len()`. -/
def mutate (update : Nat) (state : Slice) : Slice where
  bytes := state.bytes.modify ((update * 97) % state.bytes.length)
    fun b => b ^^^ (UInt8.ofNat update + 1)
  length_le := by simpa using state.length_le

/-- The recovery at the end of a round, if any client needs it. -/
def share (encoder : FastByteStateEncoder) (state : Slice) (peers : List Client) (tally : Tally) :
    Except DeltaError Simulation :=
  if tally.1.isEmpty then .ok ⟨encoder, state, peers, tally.2⟩
  else do
    let shared ← encoder.recoverySnapshot state
    let peers ← recoverAll X shared tally.1 peers
    pure ⟨encoder, state, peers, { tally.2 with
      sharedRecoverySnapshots := tally.2.sharedRecoverySnapshots + 1 }⟩

/-- The body of the loop over the updates. -/
def round (f : Faults) (updates update : Nat) (sim : Simulation) :
    Except DeltaError Simulation := do
  let state := if update > 1 then mutate update sim.state else sim.state
  let (packet, encoder) ← threaded (sim.encoder.encode X state)
  let (peers, tally) ← forEach (turn X f updates update packet) 0 sim.peers ([], sim.report)
  share X encoder state peers tally

def start (clients updates : Nat) : Simulation where
  encoder := .withPolicy schemaName .default
  state := ⟨List.replicate 4096 0x5A, by rw [List.length_replicate]; decide⟩
  peers := List.replicate clients .default
  report := ⟨clients, updates, 0, 0, 0, 0, 0, 0, 0, 0⟩

/-- The final snapshot for one client. -/
def settle (encoder : FastByteStateEncoder) (state : Slice) (snapshot : Packet) (_ : Nat)
    (peer : Client) (report : V30TortureReport) :
    Except DeltaError (Client × V30TortureReport) := do
  let peer ← deliverIgnored X snapshot { peer with delayed := none }
  if peer.decoder.state = some state.bytes ∧ peer.decoder.sequence = some encoder.sequence then
    pure (peer, { report with converged := report.converged + 1 })
  else pure (peer, report)

def finish (sim : Simulation) : Except DeltaError V30TortureReport := do
  let finalSnapshot ← sim.encoder.recoverySnapshot sim.state
  let (_, report) ← forEach (settle X sim.encoder sim.state finalSnapshot) 0 sim.peers sim.report
  pure report

/-- `run` under any schedule. -/
def simulate (f : Faults) (clients updates : Usize) : Except DeltaError V30TortureReport := do
  let clientCount := max clients.toNat 1
  let updateCount := max updates.toNat 2
  let sim ← forRange (round X f updateCount) 1 updateCount (start clientCount updateCount)
  finish X sim

def run (clients updates : Usize) : Except DeltaError V30TortureReport :=
  simulate X schedule clients updates

end Definitions

/-! ## Invariants -/

def schemaHash : UInt64 := fnv1a64 (utf8 schemaName)

variable {X : Crates} {log : List Slice}

/-- A client between turns: what it holds and is kept from it can be used. -/
structure Consistent (X : Crates) (log : List Slice) (peer : Client) : Prop where
  follows : peer.decoder.Follows schemaHash log
  delayed : ∀ p, peer.delayed = some p → ByteFeeds X schemaHash log p

theorem Consistent.snoc {peer : Client} (h : Consistent X log peer) (state : Slice) :
    Consistent X (log ++ [state]) peer :=
  ⟨h.follows.snoc state, fun p hp => (h.delayed p hp).snoc state⟩

theorem consistent_default (log : List Slice) : Consistent X log .default :=
  ⟨ByteStateDecoder.follows_new schemaName log, fun _ hp => nomatch hp⟩

/-- A report that differs in faults only. -/
structure Same (report report' : V30TortureReport) : Prop where
  clients : report'.clients = report.clients
  shared : report'.sharedRecoverySnapshots = report.sharedRecoverySnapshots
  converged : report'.converged = report.converged

theorem Same.trans {a b c : V30TortureReport} (h : Same a b) (h' : Same b c) : Same a c :=
  ⟨h'.clients.trans h.clients, h'.shared.trans h.shared, h'.converged.trans h.converged⟩

/-- What the turn of a client does to the tally: it may ask for recovery, and counts faults. -/
structure Grows (id : Nat) (tally tally' : Tally) : Prop where
  keeps : ∀ j ∈ tally.1, j ∈ tally'.1
  adds : ∀ j ∈ tally'.1, j ∈ tally.1 ∨ j = id
  same : Same tally.2 tally'.2

theorem Grows.counted {id : Nat} {tally : Tally} {report : V30TortureReport}
    (h : Same tally.2 report) : Grows id tally (tally.1, report) :=
  ⟨fun _ hj => hj, fun _ hj => .inl hj, h⟩

theorem Grows.asked {id : Nat} {tally : Tally} {report : V30TortureReport}
    (h : Same tally.2 report) : Grows id tally (tally.1 ++ [id], report) :=
  ⟨fun _ hj => List.mem_append_left _ hj, fun _ hj => by simpa using hj, h⟩

theorem Grows.refl (id : Nat) (tally : Tally) : Grows id tally tally := .counted ⟨rfl, rfl, rfl⟩

theorem Grows.trans {id : Nat} {a b c : Tally} (h : Grows id a b) (h' : Grows id b c) :
    Grows id a c where
  keeps j hj := h'.keeps j (h.keeps j hj)
  adds j hj := (h'.adds j hj).elim (h.adds j) .inr
  same := h.same.trans h'.same

/-- The client holds the last state, or is to be recovered. -/
def Served (log : List Slice) (state : Slice) (id : Nat) (peer : Client) (tally : Tally) : Prop :=
  peer.decoder.UpToDate schemaHash log state ∨ id ∈ tally.1

/-- The update of a number is kept from the client for later: the schedule says so, and the packet
    held back is that update's. -/
def Client.HeldBack (f : Faults) (update id number : Nat) (peer : Client) : Prop :=
  f.holds update id = true ∧ ∃ p, peer.delayed = some p ∧ p.sequence.toNat = number

/-- The client has been given the update of a number. -/
def Reached (f : Faults) (update id number : Nat) (peer : Client) : Prop :=
  peer.joined = true ∧ f.drops update id = false ∧ ¬peer.HeldBack f update id number

/-! ## Joining -/

section Joining

variable (packet : Packet) (f : Faults) (update id : Nat) (peer : Client) (tally : Tally)

theorem deliver_joined :
    Ends (fun r => r.1.joined = peer.joined) (fun _ => True) (deliver X packet id peer tally) := by
  unfold deliver
  refine (Ends.any _).bind ?_
  rintro ⟨result, decoder⟩ -
  cases result <;> rfl

theorem deliverIgnored_joined :
    Ends (fun peer' => peer'.joined = peer.joined) (fun _ => True)
      (deliverIgnored X packet peer) := by
  unfold deliverIgnored
  exact (Ends.any _).bind fun _ _ => rfl

theorem deliverAgain_joined :
    Ends (fun r => r.1.joined = peer.joined) (fun _ => True)
      (deliverAgain X f update packet id peer tally) := by
  unfold deliverAgain
  split
  · exact (deliverIgnored_joined packet peer).bind fun _ h => h
  · rfl

theorem deliverDelayed_joined :
    Ends (fun peer' => peer'.joined = peer.joined) (fun _ => True) (deliverDelayed X peer) := by
  unfold deliverDelayed
  split
  · rfl
  · exact deliverIgnored_joined _ { peer with delayed := none }

theorem deliveries_joined :
    Ends (fun r => r.1.joined = peer.joined) (fun _ => True)
      (deliveries X f update packet id peer tally) := by
  unfold deliveries
  refine (deliver_joined packet id peer tally).bind ?_
  rintro ⟨peer1, tally1⟩ h1
  refine (deliverAgain_joined packet f update id peer1 tally1).bind ?_
  rintro ⟨peer2, tally2⟩ h2
  refine (deliverDelayed_joined peer2).bind fun peer3 h3 => ?_
  exact h3.trans (h2.trans h1)

theorem joinedTurn_joined :
    Ends (fun r => r.1.joined = peer.joined) (fun _ => True)
      (joinedTurn X f update packet id peer tally) := by
  unfold joinedTurn
  split
  · rfl
  split
  · rfl
  split
  · unfold corrupt
    refine (Ends.any _).bind fun wire _ => ?_
    split
    · rfl
    · exact deliveries_joined packet f update id peer _
  · exact deliveries_joined packet f update id peer tally

/-- A client whose time has come joins. -/
theorem turn_joined (updates : Nat) :
    Ends (fun r => f.joinAt updates id ≤ update → r.1.joined = true) (fun _ => True)
      (turn X f updates update packet id peer tally) := by
  unfold turn
  split
  · rename_i hjoined
    exact (joinedTurn_joined packet f update id peer tally).value fun r h _ => h.trans hjoined
  split
  · rename_i hearly
    exact fun hjoin => absurd hearly (Nat.not_lt.mpr hjoin)
  split
  · exact fun _ => rfl
  · exact (joinedTurn_joined packet f update id { peer with joined := true } tally).value
      fun r h _ => h

end Joining

/-! ## Turns -/

section Turn

variable {state : Slice} {packet : Packet} {peer : Client} {id : Nat} {E : DeltaError → Prop}
  (hlast : log.getLast? = some state) (hpacket : ByteFeeds X schemaHash log packet)
  (hpeer : Consistent X log peer)
include hlast hpacket hpeer

theorem deliverIgnored_ends :
    Ends (fun peer' => Consistent X log peer' ∧
        (peer.decoder.UpToDate schemaHash log state →
          peer'.decoder.UpToDate schemaHash log state))
      E (deliverIgnored X packet peer) := by
  unfold deliverIgnored
  refine (ByteStateDecoder.apply_usable hpeer.follows hpacket hlast).bind ?_
  rintro ⟨result, decoder⟩ ⟨hfollows, hstays, -⟩
  exact ⟨⟨hfollows, hpeer.delayed⟩, hstays⟩

/-- **The newest packet** brings the client up to date, or the client asks for recovery. -/
theorem deliver_ends (hnewest : packet.sequence.toNat = log.length) (tally : Tally) :
    Ends (fun r => Consistent X log r.1 ∧ Grows id tally r.2 ∧ Served log state id r.1 r.2) E
      (deliver X packet id peer tally) := by
  unfold deliver
  refine (ByteStateDecoder.apply_usable hpeer.follows hpacket hlast).bind ?_
  rintro ⟨result, decoder⟩ ⟨hfollows, -, hserved⟩
  have hnext : Consistent X log { peer with decoder := decoder } := ⟨hfollows, hpeer.delayed⟩
  cases result with
  | applied n s =>
    exact ⟨hnext, .refl id tally, .inl ((hserved hnewest).resolve_right (by simp))⟩
  | duplicate n =>
    exact ⟨hnext, .refl id tally, .inl ((hserved hnewest).resolve_right (by simp))⟩
  | needRecovery l m =>
    exact ⟨hnext, .asked ⟨rfl, rfl, rfl⟩, .inr (List.mem_append_right _ List.mem_cons_self)⟩

theorem deliverAgain_ends (f : Faults) (update : Nat) {tally : Tally}
    (hserved : Served log state id peer tally) :
    Ends (fun r => Consistent X log r.1 ∧ Grows id tally r.2 ∧ Served log state id r.1 r.2) E
      (deliverAgain X f update packet id peer tally) := by
  unfold deliverAgain
  split
  · refine (deliverIgnored_ends hlast hpacket hpeer).bind fun peer' ⟨hpeer', hstays⟩ => ?_
    exact ⟨hpeer', .counted ⟨rfl, rfl, rfl⟩, hserved.imp_left hstays⟩
  · exact ⟨hpeer, .refl id tally, hserved⟩

omit hpacket in
/-- A packet held back from an earlier turn does not take the client back. -/
theorem deliverDelayed_ends {tally : Tally} (hserved : Served log state id peer tally) :
    Ends (fun peer' => Consistent X log peer' ∧ Served log state id peer' tally) E
      (deliverDelayed X peer) := by
  unfold deliverDelayed
  split
  · exact ⟨hpeer, hserved⟩
  · rename_i delayed hdelayed
    have hfree : Consistent X log { peer with delayed := none } :=
      ⟨hpeer.follows, fun _ hp => nomatch hp⟩
    refine (deliverIgnored_ends hlast (hpeer.delayed delayed hdelayed) hfree).value ?_
    rintro peer' ⟨hpeer', hstays⟩
    exact ⟨hpeer', hserved.imp_left hstays⟩

theorem deliveries_ends (f : Faults) (update : Nat)
    (hnewest : packet.sequence.toNat = log.length) (tally : Tally) :
    Ends (fun r => Consistent X log r.1 ∧ Grows id tally r.2 ∧ Served log state id r.1 r.2) E
      (deliveries X f update packet id peer tally) := by
  unfold deliveries
  refine (deliver_ends hlast hpacket hpeer hnewest tally).bind ?_
  rintro ⟨peer, tally'⟩ ⟨hpeer, hfirst, hserved⟩
  refine (deliverAgain_ends hlast hpacket hpeer f update hserved).bind ?_
  rintro ⟨peer, tally''⟩ ⟨hpeer, hsecond, hserved⟩
  refine (deliverDelayed_ends hlast hpeer hserved).bind fun peer ⟨hpeer, hserved⟩ => ?_
  exact ⟨hpeer, hfirst.trans hsecond, hserved⟩

/-- What a turn leaves. -/
theorem joinedTurn_ends (f : Faults) (update : Nat)
    (hnewest : packet.sequence.toNat = log.length) (hwire : ∃ wire, packet.encode X = .ok wire)
    (tally : Tally) :
    Ends (fun r => Consistent X log r.1 ∧ Grows id tally r.2 ∧
        (Reached f update id log.length r.1 → Served log state id r.1 r.2)) E
      (joinedTurn X f update packet id peer tally) := by
  unfold joinedTurn
  split
  · rename_i hdrops
    exact ⟨hpeer, .counted ⟨rfl, rfl, rfl⟩, fun ⟨_, hkept, _⟩ => by simp [hdrops] at hkept⟩
  split
  · rename_i hholds
    refine ⟨⟨hpeer.follows, ?_⟩, .counted ⟨rfl, rfl, rfl⟩,
      fun ⟨_, _, hkept⟩ => absurd ⟨hholds.1, packet, rfl, hnewest⟩ hkept⟩
    intro p hp
    cases hp
    exact hpacket
  have hall : ∀ tally' : Tally, Grows id tally tally' →
      Ends (fun r => Consistent X log r.1 ∧ Grows id tally r.2 ∧
          (Reached f update id log.length r.1 → Served log state id r.1 r.2)) E
        (deliveries X f update packet id peer tally') := by
    intro tally' hgrows
    refine (deliveries_ends hlast hpacket hpeer f update hnewest tally').value ?_
    rintro r ⟨hpeer, hmore, hserved⟩
    exact ⟨hpeer, hgrows.trans hmore, fun _ => hserved⟩
  split
  · obtain ⟨wire, hencode⟩ := hwire
    unfold corrupt
    rw [hencode]
    show Ends _ _ (match Packet.decode X (xorLast 0xA5 wire) with
      | .error _ => _
      | .ok _ => _)
    split
    · exact ⟨hpeer, .asked ⟨rfl, rfl, rfl⟩,
        fun _ => .inr (List.mem_append_right _ List.mem_cons_self)⟩
    · exact hall _ (.counted ⟨rfl, rfl, rfl⟩)
  · exact hall tally (.refl id tally)

/-- **One turn**: a client that has the update holds its state or is to be recovered. -/
theorem turn_ends (f : Faults) (updates update : Nat)
    (hnewest : packet.sequence.toNat = log.length) (hwire : ∃ wire, packet.encode X = .ok wire)
    (tally : Tally) :
    Ends (fun r => Consistent X log r.1 ∧ Grows id tally r.2 ∧
        (Reached f update id log.length r.1 → Served log state id r.1 r.2)) E
      (turn X f updates update packet id peer tally) := by
  unfold turn
  split
  · exact joinedTurn_ends hlast hpacket hpeer f update hnewest hwire tally
  rename_i hjoined
  split
  · exact ⟨hpeer, .refl id tally, fun hreached => absurd hreached.1 hjoined⟩
  have hnow : Consistent X log { peer with joined := true } := ⟨hpeer.follows, hpeer.delayed⟩
  split
  · exact ⟨hnow, .asked ⟨rfl, rfl, rfl⟩,
      fun _ => .inr (List.mem_append_right _ List.mem_cons_self)⟩
  · exact joinedTurn_ends hlast hpacket hnow f update hnewest hwire tally

end Turn

/-! ## The shared recovery -/

/-- Where the recovery stands: whoever is not up to date is among the clients left. -/
structure Recovering (X : Crates) (log : List Slice) (state : Slice) (f : Faults)
    (updates update clients : Nat) (need : List Nat) (peers : List Client) : Prop where
  length : peers.length = clients
  inBounds : ∀ id ∈ need, id < clients
  consistent : ∀ (id : Nat) peer, peers[id]? = some peer → Consistent X log peer
  served : ∀ (id : Nat) peer, peers[id]? = some peer → Reached f update id log.length peer →
    peer.decoder.UpToDate schemaHash log state ∨ id ∈ need
  joined : ∀ (id : Nat) peer, peers[id]? = some peer → f.joinAt updates id ≤ update →
    peer.joined = true

section Recovery

variable {state : Slice} {shared : Packet} {f : Faults} {updates update clients : Nat}
  {need : List Nat} {peers : List Client} {E : DeltaError → Prop}
  (hlast : log.getLast? = some state) (hshared : ByteRestores X schemaHash log state shared)
include hlast hshared

theorem recover_ends {id : Nat}
    (h : Recovering X log state f updates update clients (id :: need) peers) :
    Ends (Recovering X log state f updates update clients need) E (recover X shared peers id) := by
  have hid : id < peers.length := h.length ▸ h.inBounds id List.mem_cons_self
  have hpeer : peers[id]? = some peers[id] := List.getElem?_eq_getElem hid
  unfold recover
  rw [hpeer]
  refine (ByteStateDecoder.apply_restores (h.consistent id _ hpeer).follows (last_only hlast)
    hshared).bind ?_
  rintro ⟨result, decoder⟩ ⟨hup, hnot⟩
  have hnext : Recovering X log state f updates update clients need
      (peers.set id { peers[id] with decoder := decoder }) := by
    refine ⟨?_, fun j hj => h.inBounds j (List.mem_cons_of_mem _ hj), ?_, ?_, ?_⟩
    · rw [List.length_set]
      exact h.length
    · intro j peer hj
      rw [List.getElem?_set] at hj
      split at hj
      · cases hj
        exact ⟨hup.follows hlast, (h.consistent id _ hpeer).delayed⟩
      · exact h.consistent j peer hj
    · intro j peer hj hreached
      rw [List.getElem?_set] at hj
      split at hj
      · cases hj
        exact .inl hup
      · rename_i hne
        rcases h.served j peer hj hreached with hup | hmem
        · exact .inl hup
        · exact .inr ((List.mem_cons.mp hmem).resolve_left fun heq => hne heq.symm)
    · intro j peer hj hjoin
      rw [List.getElem?_set] at hj
      split at hj
      · rename_i heq
        subst heq
        cases hj
        have hjoined : peers[id].joined = true := h.joined id peers[id] hpeer hjoin
        exact hjoined
      · exact h.joined j peer hj hjoin
  cases result with
  | applied n s => exact hnext
  | duplicate n => exact hnext
  | needRecovery l m => exact absurd rfl (hnot l m)

/-- **The shared snapshot** brings every client that asked for recovery up to date. -/
theorem recoverAll_ends (h : Recovering X log state f updates update clients need peers) :
    Ends (Recovering X log state f updates update clients []) E
      (recoverAll X shared need peers) := by
  have hmem : ∀ id, id ∈ need.mergeSort.dedup ↔ id ∈ need := fun id => by
    rw [List.mem_dedup, List.mem_mergeSort]
  have hstart : Recovering X log state f updates update clients need.mergeSort.dedup peers :=
    ⟨h.length, fun id hid => h.inBounds id ((hmem id).mp hid), h.consistent,
      fun id peer hid hreached => (h.served id peer hid hreached).imp_right (hmem id).mpr, h.joined⟩
  exact foldlM_ends (Recovering X log state f updates update clients) hstart
    fun id rest peers h => recover_ends hlast hshared h

end Recovery

/-! ## Rounds -/

/-- What holds before an update. -/
structure Running (X : Crates) (f : Faults) (clients updates next : Nat) (sim : Simulation) :
    Prop where
  published : ∃ log, log.length + 1 = next ∧ ByteRun.Tracks schemaHash ⟨.fast sim.encoder, log⟩ ∧
    (∀ t, log.getLast? = some t → t = sim.state) ∧
    ∀ peer ∈ sim.peers, Consistent X log peer
  size : sim.state.bytes.length = 4096
  peers : sim.peers.length = clients
  clients : sim.report.clients = clients
  shared : sim.report.sharedRecoverySnapshots < next
  converged : sim.report.converged = 0
  current : ∀ update id peer, update + 1 = next → sim.peers[id]? = some peer →
    Reached f update id sim.encoder.sequence.toNat peer →
    peer.decoder.state = some sim.state.bytes ∧
      peer.decoder.sequence = some sim.encoder.sequence
  joined : ∀ update id peer, 0 < update → update + 1 = next → sim.peers[id]? = some peer →
    f.joinAt updates id ≤ update → peer.joined = true

theorem start_running (f : Faults) (clients updates : Nat) :
    Running X f clients updates 1 (start clients updates) where
  published := by
    refine ⟨[], rfl, ⟨rfl, rfl, rfl⟩, fun _ ht => (nomatch ht), fun peer hpeer => ?_⟩
    rw [List.eq_of_mem_replicate hpeer]
    exact consistent_default []
  size := List.length_replicate
  peers := List.length_replicate
  clients := rfl
  shared := Nat.one_pos
  converged := rfl
  current := by
    intro update id peer _ hpeer hreached
    rw [List.eq_of_mem_replicate (List.mem_of_getElem? hpeer)] at hreached
    exact absurd hreached.1 (by simp [Client.default])
  joined := by
    intro update id peer hpos hnext
    omega

theorem mutate_length (update : Nat) (state : Slice) :
    (mutate update state).bytes.length = state.bytes.length := by
  simp [mutate]

theorem small_of_size {state : Slice} (h : state.bytes.length = 4096) : Small state := by
  unfold Small
  rw [h]
  decide

/-- The end of a round. -/
theorem share_ends (hd : X.ZstdExact) {f : Faults} {clients updates update : Nat}
    {encoder : FastByteStateEncoder} {state : Slice} {peers : List Client} {tally : Tally}
    (hlength : log.length = update) (htracks : ByteRun.Tracks schemaHash ⟨.fast encoder, log⟩)
    (hlast : log.getLast? = some state) (hsize : state.bytes.length = 4096)
    (h : Recovering X log state f updates update clients tally.1 peers)
    (hclients : tally.2.clients = clients) (hshared : tally.2.sharedRecoverySnapshots < update)
    (hconverged : tally.2.converged = 0) :
    Ends (Running X f clients updates (update + 1)) X.CompressionFailed
      (share X encoder state peers tally) := by
  have hsequence : encoder.sequence.toNat = log.length := htracks.sequence
  have hdone : ∀ (peers : List Client) (report : V30TortureReport),
      Recovering X log state f updates update clients [] peers → report.clients = clients →
      report.sharedRecoverySnapshots < update + 1 → report.converged = 0 →
      Running X f clients updates (update + 1) ⟨encoder, state, peers, report⟩ := by
    intro peers report hall hclients hshared hconverged
    refine ⟨⟨log, by rw [hlength], htracks, last_only hlast,
      forall_mem_of_getElem? hall.consistent⟩, hsize, hall.length, hclients, hshared, hconverged,
      ?_, ?_⟩
    · intro update' id peer hupdate hpeer hreached
      have hupdate : update' = update := Nat.succ.inj hupdate
      subst hupdate
      have hreached : Reached f update' id log.length peer := hsequence ▸ hreached
      have hup := (hall.served id peer hpeer hreached).resolve_right (by simp)
      exact hup.holds hsequence
    · intro update' id peer _ hupdate hpeer hjoin
      have hupdate : update' = update := Nat.succ.inj hupdate
      subst hupdate
      exact hall.joined id peer hpeer hjoin
  unfold share
  split
  · rename_i hempty
    rw [List.isEmpty_iff] at hempty
    rw [hempty] at h
    exact hdone peers tally.2 h hclients (by omega) hconverged
  · refine (FastByteStateEncoder.recoverySnapshot_ends hd htracks
      (small_of_size hsize).le).bind fun snapshot hsnapshot => ?_
    refine (recoverAll_ends hlast hsnapshot h).bind fun peers hall => ?_
    exact hdone peers _ hall hclients (by simpa using hshared) hconverged

/-- **One update** to all clients. -/
theorem round_ends (hd : X.ZstdExact) (f : Faults) (updates : Nat) {clients update : Nat}
    (hroom : update ≤ U64_MAX) {sim : Simulation} (h : Running X f clients updates update sim) :
    Ends (Running X f clients updates (update + 1)) X.CompressionFailed
      (round X f updates update sim) := by
  obtain ⟨log, hlength, htracks, -, hpeers⟩ := h.published
  have hsize : (if update > 1 then mutate update sim.state else sim.state).bytes.length = 4096 := by
    split
    · exact (mutate_length update sim.state).trans h.size
    · exact h.size
  unfold round
  simp only
  generalize (if update > 1 then mutate update sim.state else sim.state) = state at hsize ⊢
  refine (FastByteStateEncoder.encode_ends hd htracks (by omega) (small_of_size hsize)).bind ?_
  rintro ⟨packet, encoder⟩ ⟨htracks', hpacket, hnumber, hwire⟩
  have hlast : (log ++ [state]).getLast? = some state := by simp
  have hlength' : (log ++ [state]).length = update := by simpa using hlength
  have hnewest : packet.sequence.toNat = (log ++ [state]).length := by simpa using hnumber
  refine (forEach_grows (P := Consistent X (log ++ [state]))
    (fun tally tally' : Tally => ∀ id ∈ tally.1, id ∈ tally'.1)
    (fun _ _ hid => hid) (fun hab hbc id hid => hbc id (hab id hid))
    (fun id peer tally => Consistent X (log ++ [state]) peer ∧
      (Reached f update id (log ++ [state]).length peer →
        Served (log ++ [state]) state id peer tally) ∧
      (f.joinAt updates id ≤ update → peer.joined = true))
    (fun hpeer hle =>
      ⟨hpeer.1, fun hreached => (hpeer.2.1 hreached).imp_right (hle _), hpeer.2.2⟩)
    (fun i tally => (∀ id ∈ tally.1, id < i) ∧ Same sim.report tally.2)
    (fun peer hpeer => (hpeers peer hpeer).snoc state) ⟨by simp, rfl, rfl, rfl⟩ ?_).bind ?_
  · intro id peer tally hpeer ⟨hids, hsame⟩
    refine ((turn_ends hlast hpacket hpeer f updates update hnewest hwire tally).and
      (turn_joined packet f update id peer tally updates)).value ?_
    rintro r ⟨⟨hpeer, hgrows, hserved⟩, hjoined⟩
    refine ⟨⟨hpeer, hserved, hjoined⟩, ⟨fun j hj => ?_, hsame.trans hgrows.same⟩, hgrows.keeps⟩
    rcases hgrows.adds j hj with hj | rfl
    · exact Nat.lt_succ_of_lt (hids j hj)
    · exact Nat.lt_succ_self _
  · rintro ⟨peers, tally⟩ ⟨hlen, hall, hids, hsame⟩
    refine share_ends hd hlength' htracks' hlast hsize
      ⟨hlen.trans h.peers, fun id hid => h.peers ▸ hids id hid,
        fun id peer hpeer => (hall id peer hpeer).1, fun id peer hpeer => (hall id peer hpeer).2.1,
        fun id peer hpeer => (hall id peer hpeer).2.2⟩
      (hsame.clients.trans h.clients) ?_ (hsame.converged.trans h.converged)
    rw [hsame.shared]
    exact h.shared

/-- After any number of updates. -/
theorem rounds_ends (hd : X.ZstdExact) (f : Faults) (clients updates : Nat) {rounds : Nat}
    (hroom : rounds ≤ U64_MAX) :
    Ends (Running X f clients updates (1 + rounds)) X.CompressionFailed
      (forRange (round X f updates) 1 rounds (start clients updates)) :=
  forRange_from (Running X f clients updates) (start_running f clients updates)
    fun update sim _ hupdate h => round_ends hd f updates (by omega) h

/-- **The final snapshot** brings every client up to date. -/
theorem finish_ends (hd : X.ZstdExact) {f : Faults} {clients updates next : Nat}
    {sim : Simulation} (h : Running X f clients updates next sim) :
    Ends (fun report => report.clients = clients ∧ report.converged = clients ∧
        report.sharedRecoverySnapshots < next)
      X.CompressionFailed (finish X sim) := by
  obtain ⟨log, -, htracks, hlast, hpeers⟩ := h.published
  have hsequence : sim.encoder.sequence.toNat = log.length := htracks.sequence
  unfold finish
  refine (FastByteStateEncoder.recoverySnapshot_ends hd htracks (small_of_size h.size).le).bind
    fun snapshot hsnapshot => ?_
  refine (forEach_ends (fun _ _ => True)
    (fun i report => report.clients = clients ∧ report.converged = i ∧
      report.sharedRecoverySnapshots < next) hpeers ⟨h.clients, h.converged, h.shared⟩ ?_).bind ?_
  · rintro id peer report hpeer ⟨hclients, hconverged, hshared⟩
    unfold settle
    refine Ends.bind (Q := fun peer' => peer'.decoder.UpToDate schemaHash log sim.state) ?_
      fun peer' hup => ?_
    · unfold deliverIgnored
      refine (ByteStateDecoder.apply_restores hpeer.follows hlast hsnapshot).bind ?_
      rintro ⟨result, decoder⟩ ⟨hup, -⟩
      exact hup
    · rw [if_pos (hup.holds hsequence)]
      exact ⟨trivial, hclients, congrArg (· + 1) hconverged, hshared⟩
  · rintro ⟨peers, report⟩ ⟨-, -, hclients, hconverged, hshared⟩
    exact ⟨hclients, hconverged.trans h.peers, hshared⟩

end ByteTorture

open ByteTorture in
/-- **The byte torture simulation converges** whatever the schedule of faults: unless compression
    fails, no shared recovery fails, all clients end up with the published bytes under the
    publisher's number, and no round sends more than one recovery snapshot. -/
theorem v30_torture_converges {X : Crates} (hd : X.ZstdExact) (f : Faults)
    (clients updates : Usize) :
    Ends (fun report => report.allConverged = true ∧ report.clients = max clients.toNat 1 ∧
        report.sharedRecoverySnapshots ≤ max updates.toNat 2)
      X.CompressionFailed (simulate X f clients updates) := by
  have hupdates : updates.toNat ≤ U64_MAX := toNat_le_max updates
  have hmax : max updates.toNat 2 ≤ U64_MAX := Nat.max_le.mpr ⟨hupdates, by decide⟩
  unfold simulate
  refine (rounds_ends hd f _ _ hmax).bind fun sim hsim => ?_
  refine (finish_ends hd hsim).value ?_
  rintro report ⟨hclients, hconverged, hshared⟩
  exact ⟨decide_eq_true (hconverged.trans hclients.symm), hclients, by omega⟩

open ByteTorture in
/-- Two clients and three updates under the source's schedule. -/
theorem v30_torture_converges_two : ∃ report, run .stored 2 3 = .ok report ∧
    report.allConverged = true ∧ report.clients = 2 := by
  -- for any numbers first, or the elaborator starts to run the simulation
  have hall : ∀ clients updates, ∃ report, run .stored clients updates = .ok report ∧
      report.allConverged = true ∧ report.clients = max clients.toNat 1 := by
    intro clients updates
    obtain ⟨report, hrun, hconverged, hclients, -⟩ :=
      (v30_torture_converges Crates.stored_exact schedule clients updates).total
        fun e he => he.not_total Crates.stored_total
    exact ⟨report, hrun, hconverged, hclients⟩
  exact hall 2 3

open ByteTorture in
/-- **Recovery within the round**: after any number of updates under any schedule, every client
    whose time to join has come has joined, and every client that has joined and that the last
    update was neither dropped for nor held back from holds the published bytes under the
    publisher's number, whether it lost earlier updates, joined late or received this one
    corrupted. -/
theorem v30_torture_current {X : Crates} (hd : X.ZstdExact) (f : Faults)
    (clients updates update : Nat) (hroom : update ≤ U64_MAX) {sim : Simulation}
    (hsim : forRange (round X f updates) 1 update (start clients updates) = .ok sim) {id : Nat}
    {peer : Client} (hpeer : sim.peers[id]? = some peer) :
    (0 < update → f.joinAt updates id ≤ update → peer.joined = true) ∧
    (peer.joined = true → f.drops update id = false →
      ¬peer.HeldBack f update id sim.encoder.sequence.toNat →
      peer.decoder.state = some sim.state.bytes ∧
        peer.decoder.sequence = some sim.encoder.sequence) := by
  have hrunning := (rounds_ends hd f clients updates hroom).of_ok hsim
  have hnext : update + 1 = 1 + update := Nat.add_comm _ _
  refine ⟨fun hpos hjoin => hrunning.joined update id peer hpos hnext hpeer hjoin, ?_⟩
  intro hjoined hdrops hholds
  exact hrunning.current update id peer hnext hpeer ⟨hjoined, hdrops, hholds⟩

/-- The first client loses the second update and gets the fourth one corrupted; the second client
    joins with the second update, and the third one is held back from it. -/
def ByteTorture.losing : Faults where
  joinAt _ id := 1 + id
  drops update id := decide (update = 2 ∧ id = 0)
  holds update id := decide (update = 3 ∧ id = 1)
  corrupts update id := decide (update = 4 ∧ id = 0)
  repeats _ _ := true

open ByteTorture in
/-- After four updates both clients hold the last one. -/
theorem v30_torture_current_losing :
    ∃ sim, forRange (round .stored losing 4) 1 4 (start 2 4) = .ok sim ∧ sim.peers.length = 2 ∧
      ∀ (id : Nat) (peer : Client), sim.peers[id]? = some peer →
        peer.decoder.state = some sim.state.bytes ∧
          peer.decoder.sequence = some sim.encoder.sequence := by
  -- for any number of updates first, or the elaborator starts to run the simulation
  have hall : ∀ update ≥ 4, update ≤ U64_MAX → ∃ sim,
      forRange (round .stored losing update) 1 update (start 2 update) = .ok sim ∧
        sim.peers.length = 2 ∧ ∀ (id : Nat) (peer : Client), sim.peers[id]? = some peer →
          peer.decoder.state = some sim.state.bytes ∧
            peer.decoder.sequence = some sim.encoder.sequence := by
    intro update hfour hroom
    obtain ⟨sim, hsim, hrunning⟩ :=
      (rounds_ends Crates.stored_exact losing 2 update hroom).total
        fun e he => he.not_total Crates.stored_total
    refine ⟨sim, hsim, hrunning.peers, fun id peer hpeer => ?_⟩
    have hid : id < 2 := hrunning.peers ▸ (List.getElem?_eq_some_iff.mp hpeer).1
    obtain ⟨hjoins, hcurrent⟩ :=
      v30_torture_current Crates.stored_exact losing 2 update update hroom hsim hpeer
    have hjoin : losing.joinAt update id ≤ update := show 1 + id ≤ update by omega
    refine hcurrent (hjoins (by omega) hjoin) (decide_eq_false (by omega)) ?_
    rintro ⟨hholds, -⟩
    have hthird : update = 3 ∧ id = 1 := of_decide_eq_true hholds
    omega
  exact hall 4 (Nat.le_refl 4) (by decide)

end DeltaStream
