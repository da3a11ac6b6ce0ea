import DeltaStream.AgentFeed

/-!
# The fault simulations

Model of `src/multi_client.rs` and `src/chaos.rs`: one encoder publishes the demonstration
agent's states to many decoders, or to one, while packets are dropped, repeated, held back and
clients go offline.  The simulations are modelled over any schedule of faults;
`MultiClient.schedule` and `Chaos.schedule` are those of the source.

* `MultiClient.turn_ends` — one client's turn: it stays consistent, and unless the schedule keeps
  the update from it, it holds the update's state afterwards;
* `multi_client_converges`, `chaos_converges` — whatever the schedule, all clients end up with the
  published state, and a simulation only fails where compression does.
-/

set_option autoImplicit false

namespace DeltaStream

open Fallible Replica

variable (X : Crates)

/-! ## Many clients -/

namespace MultiClient

structure MultiClientReport where
  clients : Nat
  updates : Nat
  deliveries : Nat
  drops : Nat
  duplicates : Nat
  reorders : Nat
  disconnects : Nat
  resyncs : Nat
  convergedClients : Nat
  finalSequence : UInt64
  deriving DecidableEq

def MultiClientReport.allConverged (report : MultiClientReport) : Bool :=
  decide (report.convergedClients = report.clients)

structure SimClient where
  decoder : Decoder
  offlineUntil : Nat
  delayed : Option Packet
  deriving DecidableEq

def SimClient.default : SimClient := ⟨.default, 0, none⟩

/-- What happens to which client in which update. -/
structure Faults where
  disconnects (update id : Nat) : Bool
  drops (update id : Nat) : Bool
  holds (update id : Nat) : Bool
  repeats (update id : Nat) : Bool

/-- The constants of `run_deterministic`. -/
def schedule : Faults where
  disconnects update id := decide (update > 0 ∧ (update + id * 13) % 997 = 0)
  drops update id := decide (update > 0 ∧ (update + id * 17) % 211 = 0)
  holds update id := decide (update > 0 ∧ (update + id * 19) % 389 = 0)
  repeats update id := decide (update > 0 ∧ (update + id * 23) % 307 = 0)

def recoveryFailed : DeltaError := .invalidState "multi-client recovery failed"

def deliver (client : SimClient) (packet : Packet) (encoder : Encoder) (state : AgentState)
    (report : MultiClientReport) : Except DeltaError (SimClient × MultiClientReport) := do
  let (result, decoder) ← threaded (client.decoder.applyPacket X packet)
  match result with
  | .applied _ _ =>
    pure ({ client with decoder }, { report with deliveries := report.deliveries + 1 })
  | .duplicate _ =>
    pure ({ client with decoder }, { report with duplicates := report.duplicates + 1 })
  | .needSnapshot _ _ =>
    let recovery ← Encoder.recoverySnapshot X encoder state
    let (result, decoder) ← threaded (decoder.applyPacket X recovery)
    match result with
    | .needSnapshot _ _ => .error recoveryFailed
    | _ =>
      pure ({ client with decoder },
        { report with resyncs := report.resyncs + 1, deliveries := report.deliveries + 1 })

/-- The second delivery of an update that is repeated. -/
def deliverAgain (f : Faults) (update : Nat) (packet : Packet) (encoder : Encoder)
    (state : AgentState) (id : Nat) (client : SimClient) (report : MultiClientReport) :
    Except DeltaError (SimClient × MultiClientReport) :=
  if f.repeats update id then deliver X client packet encoder state report
  else .ok (client, report)

/-- The packet held back, if there is one. -/
def deliverDelayed (encoder : Encoder) (state : AgentState) (client : SimClient)
    (report : MultiClientReport) : Except DeltaError (SimClient × MultiClientReport) :=
  match client.delayed with
  | none => .ok (client, report)
  | some delayed => deliver X { client with delayed := none } delayed encoder state report

/-- The deliveries of a turn. -/
def deliveries (f : Faults) (update : Nat) (packet : Packet) (encoder : Encoder)
    (state : AgentState) (id : Nat) (client : SimClient) (report : MultiClientReport) :
    Except DeltaError (SimClient × MultiClientReport) := do
  let (client, report) ← deliver X client packet encoder state report
  let (client, report) ← deliverAgain X f update packet encoder state id client report
  deliverDelayed X encoder state client report

/-- The body of the loop over the clients. -/
def turn (f : Faults) (update : Nat) (packet : Packet) (encoder : Encoder) (state : AgentState)
    (id : Nat) (client : SimClient) (report : MultiClientReport) :
    Except DeltaError (SimClient × MultiClientReport) :=
  let offlineUntil :=
    if f.disconnects update id then saturatingAdd update 5 else client.offlineUntil
  let report :=
    if f.disconnects update id then { report with disconnects := report.disconnects + 1 }
    else report
  let client := { client with offlineUntil }
  if update < client.offlineUntil then .ok (client, { report with drops := report.drops + 1 })
  else if f.drops update id then .ok (client, { report with drops := report.drops + 1 })
  else if packet.kind = .delta ∧ f.holds update id = true ∧ client.delayed = none then
    .ok ({ client with delayed := some packet }, { report with reorders := report.reorders + 1 })
  else deliveries X f update packet encoder state id client report

/-- The local variables of the simulation. -/
structure Simulation where
  encoder : Encoder
  state : AgentState
  subscribers : List SimClient
  report : MultiClientReport
  deriving DecidableEq

/-- The body of the loop over the updates. -/
def round (f : Faults) (update : Nat) (sim : Simulation) : Except DeltaError Simulation := do
  let state := sim.state.advance
  let (packet, encoder) ← threaded (sim.encoder.encode X state)
  let (subscribers, report) ←
    forEach (turn X f update packet encoder state) 0 sim.subscribers sim.report
  pure ⟨encoder, state, subscribers, report⟩

def start (clients updates : Nat) : Simulation where
  encoder := .default
  state := .demo
  subscribers := List.replicate clients .default
  report := ⟨clients, updates, 0, 0, 0, 0, 0, 0, 0, 0⟩

/-- The final recovery broadcast to one client. -/
def restore (snapshot : Packet) (_ : Nat) (client : SimClient) (_ : Unit) :
    Except DeltaError (SimClient × Unit) := do
  let (_, decoder) ← threaded (client.decoder.applyPacket X snapshot)
  pure ({ client with decoder }, ())

def finish (sim : Simulation) : Except DeltaError MultiClientReport := do
  let finalSnapshot ← Encoder.recoverySnapshot X sim.encoder sim.state
  let (subscribers, _) ← forEach (restore X finalSnapshot) 0 sim.subscribers ()
  pure { sim.report with
    finalSequence := sim.encoder.sequence
    convergedClients := (subscribers.filter fun client => client.decoder.holds sim.state).length }

/-- `run_deterministic` under any schedule. -/
def run (f : Faults) (clients updates : Usize) : Except DeltaError MultiClientReport := do
  let clientCount := max clients.toNat 1
  let sim ← forRange (round X f) 0 updates.toNat (start clientCount updates.toNat)
  finish X sim

def runDeterministic (clients updates : Usize) : Except DeltaError MultiClientReport :=
  run X schedule clients updates

variable {X}

/-- Deliveries, duplicates, drops and reorders together. -/
def MultiClientReport.handled (report : MultiClientReport) : Nat :=
  report.deliveries + report.duplicates + report.drops + report.reorders

/-- At least `n` more packets handled than in another report of the same simulation. -/
structure Counts (base : MultiClientReport) (n : Nat) (report : MultiClientReport) : Prop where
  clients : report.clients = base.clients
  updates : report.updates = base.updates
  handled : base.handled + n ≤ report.handled

namespace Counts

variable {base mid report : MultiClientReport} {m n : Nat}

theorem refl (report : MultiClientReport) : Counts report 0 report := ⟨rfl, rfl, Nat.le_refl _⟩

theorem weaken (h : Counts base n report) (hm : m ≤ n) : Counts base m report :=
  ⟨h.clients, h.updates, (Nat.add_le_add_left hm _).trans h.handled⟩

theorem trans (h : Counts base m mid) (h' : Counts mid n report) : Counts base (m + n) report :=
  ⟨h'.clients.trans h.clients, h'.updates.trans h.updates, by
    have := h.handled
    have := h'.handled
    omega⟩

end Counts

/-- A client between turns: what it holds and what is held back from it can be used. -/
structure Consistent (states : List AgentState) (X : Crates) (client : SimClient) : Prop where
  follows : client.decoder.Follows states
  delayed : ∀ p, client.delayed = some p → Feeds X states p

theorem Consistent.mono {states more : List AgentState} {client : SimClient}
    (h : Consistent states X client) : Consistent (states ++ more) X client :=
  ⟨h.follows.mono, fun p hp => (h.delayed p hp).mono⟩

/-- The last update is kept from the client for later: the schedule says so, and the packet held
    back is that update's. -/
def SimClient.HeldBack (f : Faults) (update id : Nat) (encoder : Encoder) (client : SimClient) :
    Prop :=
  f.holds update id = true ∧ ∃ p, client.delayed = some p ∧ p.sequence = encoder.sequence

theorem consistent_default (states : List AgentState) : Consistent states X .default :=
  ⟨Decoder.follows_default states, fun _ hp => nomatch hp⟩

section Turn

variable {states : List AgentState} {encoder : Encoder} {state : AgentState}

/-- **One delivery**, recovery included: the newest packet brings the client up to date, and no
    packet takes it back. -/
theorem deliver_ends (hd : X.ZstdExact) (hp : Publishing states encoder state)
    {client : SimClient} {packet : Packet} (hclient : Consistent states X client)
    (hpacket : Feeds X states packet) (report : MultiClientReport) :
    Ends (fun r => Consistent states X r.1 ∧ Counts report 1 r.2 ∧
        (UpToDate states state client.decoder ∨ packet.sequence.toNat = states.length →
          UpToDate states state r.1.decoder))
      X.CompressionFailed (deliver X client packet encoder state report) := by
  unfold deliver
  refine (Decoder.apply_usable hclient.follows hpacket hp.last).bind ?_
  rintro ⟨result, decoder⟩ ⟨hfollows, hneed, hup⟩
  cases result with
  | applied n s =>
    refine ⟨⟨hfollows, hclient.delayed⟩, ⟨rfl, rfl, ?_⟩, fun h => (hup h).resolve_right (by simp)⟩
    simp only [MultiClientReport.handled]
    omega
  | duplicate n =>
    refine ⟨⟨hfollows, hclient.delayed⟩, ⟨rfl, rfl, ?_⟩, fun h => (hup h).resolve_right (by simp)⟩
    simp only [MultiClientReport.handled]
    omega
  | needSnapshot l m =>
    refine (Encoder.recoverySnapshot_ends hd hp.tracks hp.fits).bind fun recovery hrecovery => ?_
    refine (Decoder.apply_restores hfollows (last_only hp.last) hrecovery).bind ?_
    rintro ⟨result, decoder'⟩ ⟨hrestored, hnot, -⟩
    have hdone : Consistent states X { client with decoder := decoder' } ∧
        Counts report 1 { report with
          resyncs := report.resyncs + 1, deliveries := report.deliveries + 1 } ∧
        (UpToDate states state client.decoder ∨ packet.sequence.toNat = states.length →
          UpToDate states state decoder') := by
      refine ⟨⟨hrestored.follows hp.last, hclient.delayed⟩, ⟨rfl, rfl, ?_⟩, fun _ => hrestored⟩
      simp only [MultiClientReport.handled]
      omega
    cases result with
    | applied n s => exact hdone
    | duplicate n => exact hdone
    | needSnapshot l' m' => exact absurd rfl (hnot l' m')

theorem deliverAgain_ends (hd : X.ZstdExact) (hp : Publishing states encoder state) (f : Faults)
    (update id : Nat) {client : SimClient} {packet : Packet}
    (hclient : Consistent states X client) (hpacket : Feeds X states packet)
    (hup : UpToDate states state client.decoder) (report : MultiClientReport) :
    Ends (fun r => Consistent states X r.1 ∧ Counts report 0 r.2 ∧
        UpToDate states state r.1.decoder)
      X.CompressionFailed
      (deliverAgain X f update packet encoder state id client report) := by
  unfold deliverAgain
  split
  · refine (deliver_ends hd hp hclient hpacket report).value ?_
    rintro ⟨client', report'⟩ ⟨hclient', hcounts, hup'⟩
    exact ⟨hclient', hcounts.weaken (Nat.zero_le _), hup' (.inl hup)⟩
  · exact ⟨hclient, .refl report, hup⟩

/-- A packet held back from an earlier turn does not take the client back. -/
theorem deliverDelayed_ends (hd : X.ZstdExact) (hp : Publishing states encoder state)
    {client : SimClient} (hclient : Consistent states X client)
    (hup : UpToDate states state client.decoder) (report : MultiClientReport) :
    Ends (fun r => Consistent states X r.1 ∧ Counts report 0 r.2 ∧
        UpToDate states state r.1.decoder)
      X.CompressionFailed (deliverDelayed X encoder state client report) := by
  unfold deliverDelayed
  split
  · exact ⟨hclient, .refl report, hup⟩
  · rename_i delayed hdelayed
    have hfree : Consistent states X { client with delayed := none } :=
      ⟨hclient.follows, fun _ hp => nomatch hp⟩
    refine (deliver_ends hd hp hfree (hclient.delayed delayed hdelayed) report).value ?_
    rintro ⟨client', report'⟩ ⟨hclient', hcounts, hup'⟩
    exact ⟨hclient', hcounts.weaken (Nat.zero_le _), hup' (.inl hup)⟩

/-- **The deliveries of a turn** bring the client up to date. -/
theorem deliveries_ends (hd : X.ZstdExact) (hp : Publishing states encoder state) (f : Faults)
    (update id : Nat) {client : SimClient} {packet : Packet}
    (hclient : Consistent states X client) (hpacket : Feeds X states packet)
    (hnewest : packet.sequence.toNat = states.length) (report : MultiClientReport) :
    Ends (fun r => Consistent states X r.1 ∧ Counts report 1 r.2 ∧
        UpToDate states state r.1.decoder)
      X.CompressionFailed (deliveries X f update packet encoder state id client report) := by
  unfold deliveries
  refine (deliver_ends hd hp hclient hpacket report).bind ?_
  rintro ⟨client, report⟩ ⟨hclient, hcounts, hup⟩
  have hup : UpToDate states state client.decoder := hup (.inr hnewest)
  refine (deliverAgain_ends hd hp f update id hclient hpacket hup report).bind ?_
  rintro ⟨client, report⟩ ⟨hclient, hagain, hup⟩
  refine (deliverDelayed_ends hd hp hclient hup report).value ?_
  rintro ⟨client, report⟩ ⟨hclient, hdelayed, hup⟩
  exact ⟨hclient, (hcounts.trans hagain).trans hdelayed, hup⟩

/-- **One turn**: the client stays consistent, one packet more is handled, and unless the
    update is kept from it the client is up to date. -/
theorem turn_ends (hd : X.ZstdExact) (hp : Publishing states encoder state) (f : Faults)
    (update id : Nat) {client : SimClient} {packet : Packet}
    (hclient : Consistent states X client) (hpacket : Feeds X states packet)
    (hnewest : packet.sequence.toNat = states.length) (report : MultiClientReport) :
    Ends (fun r => Consistent states X r.1 ∧ Counts report 1 r.2 ∧
        (r.1.offlineUntil ≤ update → f.drops update id = false →
          ¬r.1.HeldBack f update id encoder → UpToDate states state r.1.decoder))
      X.CompressionFailed (turn X f update packet encoder state id client report) := by
  unfold turn
  simp only
  generalize (if f.disconnects update id then saturatingAdd update 5 else client.offlineUntil) =
    offlineUntil
  have hreport : ∀ report' : MultiClientReport,
      (if f.disconnects update id then { report with disconnects := report.disconnects + 1 }
        else report) = report' → Counts report 0 report' := by
    rintro report' rfl
    split <;> exact ⟨rfl, rfl, Nat.le_refl _⟩
  generalize hr : (if f.disconnects update id then
    { report with disconnects := report.disconnects + 1 } else report) = report'
  have hcounts := hreport report' hr
  have hclient : Consistent states X { client with offlineUntil := offlineUntil } :=
    ⟨hclient.follows, hclient.delayed⟩
  have hdrop : Counts report 1 { report' with drops := report'.drops + 1 } := by
    refine ⟨hcounts.clients, hcounts.updates, ?_⟩
    have := hcounts.handled
    simp only [MultiClientReport.handled] at this ⊢
    omega
  split
  · rename_i hoffline
    exact ⟨hclient, hdrop, fun honline => absurd hoffline (Nat.not_lt.mpr honline)⟩
  split
  · rename_i hdrops
    exact ⟨hclient, hdrop, fun _ hkept => absurd (hdrops.symm.trans hkept) (by decide)⟩
  split
  · rename_i hholds
    have hnumber : packet.sequence = encoder.sequence :=
      UInt64.toNat_inj.mp (hnewest.trans hp.tracks.sequence.symm)
    refine ⟨⟨hclient.follows, ?_⟩, ?_, fun _ _ hkept =>
      absurd ⟨hholds.2.1, packet, rfl, hnumber⟩ hkept⟩
    · intro p hp
      cases hp
      exact hpacket
    · refine ⟨hcounts.clients, hcounts.updates, ?_⟩
      have := hcounts.handled
      simp only [MultiClientReport.handled] at this ⊢
      omega
  · refine (deliveries_ends hd hp f update id hclient hpacket hnewest report').value ?_
    rintro r ⟨hclient, hcounts', hup⟩
    have hall := hcounts.trans hcounts'
    exact ⟨hclient, hall, fun _ _ _ => hup⟩

end Turn

/-- What holds between updates. -/
structure Running (X : Crates) (f : Faults) (clients updates done : Nat) (sim : Simulation) :
    Prop where
  published : ∃ states, states.length = done ∧ TypedRun.Tracks ⟨sim.encoder, states⟩ ∧
    (∀ t, states.getLast? = some t → t = sim.state) ∧
    ∀ client ∈ sim.subscribers, Consistent states X client
  state : sim.state.OfDemo
  subscribers : sim.subscribers.length = clients
  counts : Counts (start clients updates).report (clients * done) sim.report
  /-- a client that the last update was not kept from holds its state -/
  current : ∀ update id client, update + 1 = done → sim.subscribers[id]? = some client →
    client.offlineUntil ≤ update → f.drops update id = false →
    ¬client.HeldBack f update id sim.encoder → client.decoder.holds sim.state = true

theorem start_running (f : Faults) (clients updates : Nat) :
    Running X f clients updates 0 (start clients updates) where
  published := by
    refine ⟨[], rfl, ⟨rfl, rfl⟩, fun _ ht => (nomatch ht), fun client hclient => ?_⟩
    rw [List.eq_of_mem_replicate hclient]
    exact consistent_default []
  state := AgentState.ofDemo_demo
  subscribers := List.length_replicate
  counts := .refl _
  current _ _ _ hdone := absurd hdone (Nat.succ_ne_zero _)

/-- **One update** to all clients. -/
theorem round_ends (hd : X.ZstdExact) (f : Faults) {clients updates done : Nat}
    (hroom : done < U64_MAX) {sim : Simulation} (h : Running X f clients updates done sim) :
    Ends (Running X f clients updates (done + 1)) X.CompressionFailed (round X f done sim) := by
  obtain ⟨states, hlength, htracks, -, hclients⟩ := h.published
  have hstate : sim.state.advance.OfDemo := h.state.advance
  have hfits := hstate.within
  unfold round
  simp only
  refine (Encoder.encode_ends hd htracks (by omega) hfits).bind ?_
  rintro ⟨packet, encoder⟩ ⟨htracks', hfeeds, hnumber, -⟩
  have hlast : (states ++ [sim.state.advance]).getLast? = some sim.state.advance := by simp
  have hp : Publishing (states ++ [sim.state.advance]) encoder sim.state.advance :=
    ⟨htracks', hlast, hfits⟩
  have hnewest : packet.sequence.toNat = (states ++ [sim.state.advance]).length := by
    simpa using hnumber
  refine (forEach_ends (P := Consistent (states ++ [sim.state.advance]) X)
    (fun id client => Consistent (states ++ [sim.state.advance]) X client ∧
      (client.offlineUntil ≤ done → f.drops done id = false →
        ¬client.HeldBack f done id encoder →
        UpToDate (states ++ [sim.state.advance]) sim.state.advance client.decoder))
    (fun n report => Counts (start clients updates).report (clients * done + n) report)
    (fun client hclient => (hclients client hclient).mono) h.counts ?_).bind ?_
  · intro id client report hclient hcounts
    refine (turn_ends hd hp f done id hclient hfeeds hnewest report).value ?_
    rintro r ⟨hclient, hone, hup⟩
    exact ⟨⟨hclient, hup⟩, hcounts.trans hone⟩
  rintro ⟨subscribers, report⟩ ⟨hlen, hall, hcounts⟩
  refine ⟨⟨states ++ [sim.state.advance], by simp [hlength], htracks', last_only hlast, ?_⟩,
    hstate, hlen.trans h.subscribers, ?_, ?_⟩
  · exact forall_mem_of_getElem? fun j client hj => (hall j client hj).1
  · rw [h.subscribers] at hcounts
    rwa [Nat.mul_succ]
  · intro update id client hdone hclient honline hdrops hholds
    have hdone : update = done := Nat.succ.inj hdone
    subst hdone
    exact ((hall id client hclient).2 honline hdrops hholds).holds hstate.eq_self

/-- **The final broadcast** brings every client up to date. -/
theorem finish_ends (hd : X.ZstdExact) {f : Faults} {clients updates done : Nat}
    {sim : Simulation} (h : Running X f clients updates done sim) :
    Ends (fun report => report.clients = clients ∧ report.updates = updates ∧
        report.convergedClients = clients ∧ report.finalSequence.toNat = done ∧
        clients * done ≤ report.handled)
      X.CompressionFailed (finish X sim) := by
  obtain ⟨states, hlength, htracks, hlast, hclients⟩ := h.published
  unfold finish
  refine (Encoder.recoverySnapshot_ends hd htracks h.state.within).bind ?_
  intro snapshot hsnapshot
  refine (forEach_ends (fun _ client => client.decoder.holds sim.state = true) (fun _ _ => True)
    hclients trivial ?_).bind ?_
  · intro _ client _ hclient _
    refine (Decoder.apply_restores hclient.follows hlast hsnapshot).bind ?_
    rintro ⟨result, decoder⟩ ⟨hup, -⟩
    exact ⟨hup.holds h.state.eq_self, trivial⟩
  rintro ⟨subscribers, _⟩ ⟨hlen, hall, -⟩
  refine ⟨h.counts.clients, h.counts.updates, ?_, ?_, ?_⟩
  · show (subscribers.filter _).length = clients
    rw [List.filter_eq_self.mpr (forall_mem_of_getElem? hall), hlen, h.subscribers]
  · exact (show sim.encoder.sequence.toNat = states.length from htracks.sequence).trans hlength
  · have hhandled := h.counts.handled
    exact (Nat.le_add_left _ _).trans hhandled

end MultiClient

variable {X}

open MultiClient in
/-- After any number of updates. -/
theorem MultiClient.rounds_ends (hd : X.ZstdExact) (f : Faults) (clients updates : Nat) {done : Nat}
    (hroom : done ≤ U64_MAX) :
    Ends (Running X f clients updates done) X.CompressionFailed
      (forRange (round X f) 0 done (start clients updates)) :=
  forRange_ends (Running X f clients updates) (start_running f _ _)
    fun i sim hi h => round_ends hd f (by omega) h

open MultiClient in
/-- **The multi-client simulation converges** whatever the schedule of faults: unless compression
    fails, all clients end up with the published state, the publisher has numbered every update
    and each update has been handled once for each client. -/
theorem multi_client_converges (hd : X.ZstdExact) (f : Faults) (clients updates : Usize) :
    Ends (fun report => report.allConverged = true ∧ report.clients = max clients.toNat 1 ∧
        report.finalSequence.toNat = updates.toNat ∧
        report.clients * report.updates ≤ report.handled)
      X.CompressionFailed (MultiClient.run X f clients updates) := by
  unfold MultiClient.run
  simp only
  refine (rounds_ends hd f _ _ (toNat_le_max updates)).bind fun sim hsim => ?_
  refine (finish_ends hd hsim).value ?_
  rintro report ⟨hclients, hrounds, hconverged, hsequence, hhandled⟩
  refine ⟨decide_eq_true (hconverged.trans hclients.symm), hclients, hsequence, ?_⟩
  rw [hclients, hrounds]
  exact hhandled

open MultiClient in
/-- Three clients and two updates under the source's schedule. -/
theorem multi_client_converges_three : ∃ report, runDeterministic .stored 3 2 = .ok report ∧
    report.allConverged = true ∧ report.clients = 3 := by
  obtain ⟨report, hrun, hconverged, hclients, -⟩ :=
    (multi_client_converges Crates.stored_exact schedule 3 2).total
      fun e he => he.not_total Crates.stored_total
  exact ⟨report, hrun, hconverged, hclients⟩

open MultiClient in
/-- **Clients are current**: after any number of updates under any schedule, every client that is
    online and that the last update was neither dropped for nor held back from holds its state,
    whatever was repeated or delivered late. -/
theorem multi_client_current (hd : X.ZstdExact) (f : Faults) (clients updates update : Nat)
    (hroom : update < U64_MAX) {sim : Simulation}
    (hsim : forRange (round X f) 0 (update + 1) (start clients updates) = .ok sim) {id : Nat}
    {client : SimClient} (hclient : sim.subscribers[id]? = some client)
    (honline : client.offlineUntil ≤ update) (hdrops : f.drops update id = false)
    (hholds : ¬client.HeldBack f update id sim.encoder) :
    client.decoder.holds sim.state = true :=
  ((rounds_ends hd f clients updates hroom).of_ok hsim).current update id client rfl hclient
    honline hdrops hholds

/-- Every update repeated and, where possible, held back. -/
def MultiClient.holding : Faults where
  disconnects _ _ := false
  drops _ _ := false
  holds _ _ := true
  repeats _ _ := true

open MultiClient in
/-- Three updates to one client: the snapshot cannot be held back, the first delta is, and the
    second delta is delivered with it. -/
theorem multi_client_current_holding :
    ∃ sim client, forRange (round .stored holding) 0 3 (start 1 3) = .ok sim ∧
      sim.subscribers[0]? = some client ∧ client.decoder.holds sim.state = true := by
  have hfree : ((forRange (round .stored holding) 0 3 (start 1 3)).toOption.bind
      fun sim => sim.subscribers[0]?).map (fun client => (client.offlineUntil, client.delayed)) =
        some (0, none) := by decide +kernel
  cases hsim : forRange (round .stored holding) 0 3 (start 1 3) with
  | error e =>
    rw [hsim] at hfree
    cases hfree
  | ok sim =>
    rw [hsim] at hfree
    obtain ⟨client, hclient, hfree⟩ := Option.map_eq_some_iff.mp hfree
    obtain ⟨hoffline, hdelayed⟩ := Prod.mk.inj hfree
    refine ⟨sim, client, rfl, hclient, multi_client_current Crates.stored_exact holding 1 3 2
      (by decide) hsim hclient (hoffline ▸ Nat.zero_le 2) rfl ?_⟩
    rintro ⟨-, p, hp, -⟩
    cases hdelayed.symm.trans hp

/-! ## One receiver -/

namespace Chaos

structure ChaosReport where
  generated : Nat
  delivered : Nat
  intentionallyDropped : Nat
  duplicatesInjected : Nat
  resyncs : Nat
  finalSequence : Option UInt64
  finalStateMatches : Bool
  deriving DecidableEq

/-- What happens to which update. -/
structure Faults where
  drops (update : Nat) : Bool
  repeats (update : Nat) : Bool

/-- The constants of `run_deterministic`. -/
def schedule : Faults where
  drops i := decide (i > 0 ∧ i % 97 = 0)
  repeats i := decide (i > 0 ∧ i % 131 = 0)

/-- The local variables of the simulation. -/
structure Simulation where
  encoder : Encoder
  decoder : Decoder
  state : AgentState
  report : ChaosReport
  deriving DecidableEq

def recoveryFailed : DeltaError := .invalidState "chaos recovery failed"

variable (X : Crates)

/-- The first delivery of an update, which must end in a state. -/
def deliver (packet : Packet) (sim : Simulation) : Except DeltaError Simulation := do
  let (result, decoder) ← threaded (sim.decoder.applyPacket X packet)
  match result with
  | .needSnapshot _ _ =>
    let recovery ← Encoder.recoverySnapshot X sim.encoder sim.state
    let (result, decoder) ← threaded (decoder.applyPacket X recovery)
    match result with
    | .applied _ _ =>
      pure { sim with
        decoder
        report := { sim.report with
          resyncs := sim.report.resyncs + 1, delivered := sim.report.delivered + 1 } }
    | _ => .error recoveryFailed
  | _ =>
    pure { sim with
      decoder, report := { sim.report with delivered := sim.report.delivered + 1 } }

/-- A repeated packet, whatever becomes of it. -/
def deliverAgain (f : Faults) (i : Nat) (packet : Packet) (sim : Simulation) :
    Except DeltaError Simulation :=
  if f.repeats i then do
    let (_, decoder) ← threaded (sim.decoder.applyPacket X packet)
    pure { sim with
      decoder
      report := { sim.report with duplicatesInjected := sim.report.duplicatesInjected + 1 } }
  else .ok sim

/-- The body of the loop. -/
def round (f : Faults) (i : Nat) (sim : Simulation) : Except DeltaError Simulation := do
  let state := sim.state.advance
  let (packet, encoder) ← threaded (sim.encoder.encode X state)
  let report := { sim.report with generated := sim.report.generated + 1 }
  if f.drops i then
    pure { sim with
      encoder, state
      report := { report with intentionallyDropped := report.intentionallyDropped + 1 } }
  else
    let sim ← deliver X packet { sim with encoder, state, report }
    deliverAgain X f i packet sim

def start : Simulation := ⟨.default, .default, .demo, ⟨0, 0, 0, 0, 0, none, false⟩⟩

def finish (sim : Simulation) : Except DeltaError ChaosReport := do
  let finalSnapshot ← Encoder.recoverySnapshot X sim.encoder sim.state
  let (_, decoder) ← threaded (sim.decoder.applyPacket X finalSnapshot)
  pure { sim.report with
    finalSequence := decoder.sequence, finalStateMatches := decoder.holds sim.state }

/-- `run_deterministic` under any schedule. -/
def run (f : Faults) (updates : Usize) : Except DeltaError ChaosReport := do
  let sim ← forRange (round X f) 0 updates.toNat start
  finish X sim

def runDeterministic (updates : Usize) : Except DeltaError ChaosReport := run X schedule updates

variable {X}

/-- What holds between updates. -/
structure Running (done : Nat) (sim : Simulation) : Prop where
  published : ∃ states, states.length = done ∧ TypedRun.Tracks ⟨sim.encoder, states⟩ ∧
    (∀ t, states.getLast? = some t → t = sim.state) ∧ sim.decoder.Follows states
  state : sim.state.OfDemo
  generated : sim.report.generated = done
  delivered : sim.report.delivered + sim.report.intentionallyDropped = done

/-- **One delivery** ends in the state, and is counted once. -/
theorem deliver_ends (hd : X.ZstdExact) {states : List AgentState} {packet : Packet}
    {sim : Simulation} (htracks : TypedRun.Tracks ⟨sim.encoder, states⟩)
    (hlast : states.getLast? = some sim.state) (hstate : sim.state.OfDemo)
    (hfollows : sim.decoder.Follows states) (hpacket : Feeds X states packet)
    (hnewest : packet.sequence.toNat = states.length) :
    Ends (fun r => UpToDate states sim.state r.decoder ∧ r.encoder = sim.encoder ∧
        r.state = sim.state ∧ r.report.generated = sim.report.generated ∧
        r.report.delivered = sim.report.delivered + 1 ∧
        r.report.intentionallyDropped = sim.report.intentionallyDropped)
      X.CompressionFailed (deliver X packet sim) := by
  unfold deliver
  refine (Decoder.apply_usable hfollows hpacket hlast).bind ?_
  rintro ⟨result, decoder⟩ ⟨hfollows', hneed, hup⟩
  cases result with
  | applied n s => exact ⟨(hup (.inr hnewest)).resolve_right (by simp), rfl, rfl, rfl, rfl, rfl⟩
  | duplicate n => exact ⟨(hup (.inr hnewest)).resolve_right (by simp), rfl, rfl, rfl, rfl, rfl⟩
  | needSnapshot l m =>
    obtain ⟨rfl, hbehind⟩ := hneed l m rfl
    refine (Encoder.recoverySnapshot_ends hd htracks hstate.within).bind ?_
    intro recovery hrecovery
    refine (Decoder.apply_restores hfollows' (last_only hlast) hrecovery).bind ?_
    rintro ⟨result, decoder⟩ ⟨hup, -, happlied⟩
    -- a decoder that asks for recovery is behind, so the recovery is applied
    obtain ⟨n, t, hresult⟩ := happlied hbehind
    cases hresult
    exact ⟨hup, rfl, rfl, rfl, rfl, rfl⟩

/-- **One update.** -/
theorem round_ends (hd : X.ZstdExact) (f : Faults) {done : Nat} (hroom : done < U64_MAX)
    {sim : Simulation} (h : Running done sim) :
    Ends (Running (done + 1)) X.CompressionFailed (round X f done sim) := by
  obtain ⟨states, hlength, htracks, -, hfollows⟩ := h.published
  have hstate : sim.state.advance.OfDemo := h.state.advance
  have hgenerated := h.generated
  have hdelivered := h.delivered
  have hlast : (states ++ [sim.state.advance]).getLast? = some sim.state.advance := by simp
  have hlength' : (states ++ [sim.state.advance]).length = done + 1 := by simp [hlength]
  have hstays := last_only hlast
  unfold round
  simp only
  refine (Encoder.encode_ends hd htracks (by omega) hstate.within).bind ?_
  rintro ⟨packet, encoder⟩ ⟨htracks', hfeeds, hnumber, -⟩
  simp only
  split
  · exact ⟨⟨_, hlength', htracks', hstays, hfollows.mono⟩, hstate, by simp only; omega,
      by simp only; omega⟩
  · refine (@deliver_ends X hd _ packet ⟨encoder, sim.decoder, sim.state.advance, _⟩ htracks'
      hlast hstate hfollows.mono hfeeds (by simpa using hnumber)).bind ?_
    rintro sim' ⟨hup, hencoder, hstate', hgen, hdel, hdrop⟩
    have hrunning : ∀ decoder : Decoder, decoder.Follows (states ++ [sim.state.advance]) →
        ∀ injected, Running (done + 1) { sim' with
          decoder, report := { sim'.report with duplicatesInjected := injected } } := by
      intro decoder hdecoder injected
      refine ⟨⟨_, hlength', ?_, ?_, hdecoder⟩, ?_, ?_, ?_⟩
      · simp only [hencoder]
        exact htracks'
      · simp only [hstate']
        exact hstays
      · simp only [hstate']
        exact hstate
      · simp only at hgen ⊢
        omega
      · simp only at hdel hdrop ⊢
        omega
    unfold deliverAgain
    split
    · refine (Decoder.apply_usable (hup.follows hlast) hfeeds hlast).bind ?_
      rintro ⟨result, decoder⟩ ⟨hfollows', -⟩
      exact hrunning decoder hfollows' _
    · exact hrunning sim'.decoder (hup.follows hlast) sim'.report.duplicatesInjected

end Chaos

open Chaos in
/-- **The chaos simulation converges** whatever the schedule of faults: unless compression fails,
    the receiver ends up with the published state under the publisher's number, and each update
    has been delivered or dropped. -/
theorem chaos_converges (hd : X.ZstdExact) (f : Faults) (updates : Usize) :
    Ends (fun report => report.finalStateMatches = true ∧ report.finalSequence = some updates ∧
        report.generated = updates.toNat ∧
        report.delivered + report.intentionallyDropped = report.generated)
      X.CompressionFailed (Chaos.run X f updates) := by
  have hupdates : updates.toNat ≤ U64_MAX := toNat_le_max updates
  have hstart : Running 0 start :=
    ⟨⟨[], rfl, ⟨rfl, rfl⟩, fun _ ht => (nomatch ht), Decoder.follows_default []⟩,
      AgentState.ofDemo_demo, rfl, rfl⟩
  unfold Chaos.run
  refine (forRange_ends Running hstart fun i sim hi h => round_ends hd f (by omega) h).bind
    fun sim hsim => ?_
  obtain ⟨states, hlength, htracks, hlast, hfollows⟩ := hsim.published
  unfold finish
  refine (Encoder.recoverySnapshot_ends hd htracks hsim.state.within).bind ?_
  intro snapshot hsnapshot
  refine (Decoder.apply_restores hfollows hlast hsnapshot).bind ?_
  rintro ⟨result, decoder⟩ ⟨hup, -⟩
  refine ⟨hup.holds hsim.state.eq_self, ?_, hsim.generated,
    hsim.delivered.trans hsim.generated.symm⟩
  obtain ⟨held, hview, -⟩ := hup.at_position
  rw [hlength] at hview
  exact (TypedDecoder.sequence_of_view hview).1

open Chaos in
/-- Two updates under the source's schedule. -/
theorem chaos_converges_two : ∃ report, runDeterministic .stored 2 = .ok report ∧
    report.finalStateMatches = true ∧ report.finalSequence = some 2 := by
  obtain ⟨report, hrun, hmatches, hsequence, -⟩ :=
    (chaos_converges Crates.stored_exact schedule 2).total
      fun e he => he.not_total Crates.stored_total
  exact ⟨report, hrun, hmatches, hsequence⟩

end DeltaStream
