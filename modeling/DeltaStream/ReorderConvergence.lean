import DeltaStream.ReorderBuffer
import Mathlib.Data.List.Chain

/-!
# Reordered delivery reaches the in-order result

The packets of one encoder, numbered from one, are delivered in any order, any number of times,
to a fresh reorder decoder that neither fails nor asks for recovery.

* `TypedEncoder.published_stream` — the packets are numbered from one, and say nothing false about
  the states, up to the sign of a zero;
* `applied_inTurn` — what a decoder applies, it applies in turn;
* `ReorderDecoder.Progress` — the packets applied, what has become of every call, and that the
  packet after the sequence is not buffered;
* `reorder_converges` — after all packets have been delivered the last state is held.
-/

set_option autoImplicit false

namespace DeltaStream

open Replica Runs SortedMap

/-! ## The published stream -/

/-- One successful call, observed as the state and the packet. -/
inductive TypedEncoder.Publishes {S : Type} (X : Crates) (C : StateCodec S) :
    TypedEncoder S → S × Packet → TypedEncoder S → Prop where
  | encode {e e' : TypedEncoder S} {s : S} {p : Packet} (h : e.encode X C s = (.ok p, e')) :
      Publishes X C e (s, p) e'
  | forceSnapshot {e e' : TypedEncoder S} {s : S} {p : Packet}
      (h : e.forceSnapshot X C s = (.ok p, e')) : Publishes X C e (s, p) e'

theorem TypedEncoder.Publishes.published {S : Type} {X : Crates} {C : StateCodec S}
    {e e' : TypedEncoder S} {u : S × Packet} (h : Publishes X C e u e') :
    Published X C e u.1 u.2 e' := by
  cases h with
  | encode h => exact encode_ok h
  | forceSnapshot h => exact (forceSnapshot_ok h).1

/-- The `n`-th packet of a stream of states: numbered `n`, made on the number before, and saying
    nothing false about the states. -/
structure StreamPacket (X : Crates) (states : List AgentState) (n : Nat) (p : Packet) : Prop where
  number : p.sequence.toNat = n
  chained : p.Chained
  schemaHash : p.schemaHash = agentSchemaHash
  genuine : GenuineUpTo SameUpToZeros states (TypedDecoder.read X agentCodec .default p)

variable {X : Crates}

/-- The delta between two states, on a state that stands for the first. -/
theorem DeltaOf.patch_upTo {config : DecodeConfig} {sequence : UInt64}
    {previous s held next : AgentState} {p : Packet} (hd : X.DecompressInverts)
    (h : DeltaOf X agentCodec sequence previous s p) (hheld : SameUpToZeros held previous)
    (hnext : TypedDecoder.patchState X agentCodec config p held = .next next) :
    SameUpToZeros next s := by
  obtain ⟨old, payload, -, hpayload, hcopy⟩ := h
  obtain ⟨bytes, hbytes, hdecode⟩ := decodeAgentDelta_encode (between_consistent previous s)
  have hpayload : encodeAgentDelta (.between previous s) = .ok payload := hpayload
  rw [hbytes] at hpayload
  cases hpayload
  unfold TypedDecoder.patchState at hnext
  simp only [agentCodec] at hnext
  split at hnext
  · cases hnext
  split at hnext
  · cases hnext
  rename_i out hlp
  rw [hcopy.payload_ok hd (Packet.delta_isCompressed _ _ _ _ _) hlp] at hnext
  simp only [Packet.delta, hdecode] at hnext
  cases happly : (AgentDelta.between previous s).apply held with
  | error e =>
    rw [happly] at hnext
    cases hnext
  | ok t =>
    rw [happly] at hnext
    cases hnext
    exact hheld.apply happly

/-- What a call emits, once its state is in the history. -/
theorem TypedEncoder.Published.genuineUpTo {e e' : Encoder} {states : List AgentState}
    {s : AgentState} {p : Packet} (hd : X.DecompressInverts) (h : TypedRun.Tracks ⟨e, states⟩)
    (room : states.length < U64_MAX) (hp : Published X agentCodec e s p e') :
    GenuineUpTo SameUpToZeros (states ++ [s])
      (TypedDecoder.read X agentCodec .default p) := by
  have hnum : (nextSequence e.sequence).toNat = states.length + 1 := h.next room
  have hbase : (nextSequence e.sequence - 1).toNat = states.length := h.base room
  have hnew := nth_length_append states s
  cases hp.emits with
  | snapshot hsnap =>
    rcases hsnap.read agentCodec_lawful hd with hread | hread
    · rw [hread, hnum]
      exact ⟨s, hnew, .refl s⟩
    · rw [hread]
      trivial
  | @delta previous hprev hdelta _ =>
    have hlast : states.getLast? = some previous := h.lastState.symm.trans hprev
    rw [hdelta.read, hnum, hbase]
    refine ⟨rfl, previous, nth_append ((nth_length states).trans hlast), ?_⟩
    intro held hheld next hnext
    exact ⟨s, hnew, hdelta.patch_upTo hd hheld hnext⟩

/-- The states and the packets of a run. -/
def statesOf (updates : List (AgentState × Packet)) : List AgentState := updates.map Prod.fst

def packetsOf (updates : List (AgentState × Packet)) : List Packet := updates.map Prod.snd

/-- **The stream of one encoder**: its packets are numbered from one. -/
theorem TypedEncoder.published_stream {policy : AdaptivePolicy} {e : Encoder}
    {updates : List (AgentState × Packet)} (hd : X.DecompressInverts)
    (h : Run (Publishes X agentCodec) (.withPolicy policy) updates e)
    (hroom : updates.length ≤ U64_MAX) :
    TypedRun.Tracks ⟨e, statesOf updates⟩ ∧
      ∀ n p, nth (packetsOf updates) n = some p → StreamPacket X (statesOf updates) n p := by
  induction h with
  | start =>
    refine ⟨⟨rfl, rfl⟩, fun n p hn => ?_⟩
    have hlt := nth_lt hn
    simp [packetsOf] at hlt
    omega
  | @step updates e e' u hrun hcall ih =>
    rw [List.length_append, List.length_singleton] at hroom
    obtain ⟨htracks, hstream⟩ := ih (by omega)
    have hroom : (statesOf updates).length < U64_MAX := by
      simp only [statesOf, List.length_map]
      omega
    have hp := hcall.published
    have hstates : statesOf (updates ++ [u]) = statesOf updates ++ [u.1] := by simp [statesOf]
    have hpackets : packetsOf (updates ++ [u]) = packetsOf updates ++ [u.2] := by simp [packetsOf]
    have hlength : (packetsOf updates).length = (statesOf updates).length := by
      simp [statesOf, packetsOf]
    rw [hstates, hpackets]
    refine ⟨htracks.step hroom hp, fun n p hn => ?_⟩
    rcases nth_snoc hn with hold | ⟨rfl, rfl⟩
    · have hpacket := hstream n p hold
      exact ⟨hpacket.number, hpacket.chained, hpacket.schemaHash, hpacket.genuine.mono⟩
    · refine ⟨?_, hp.emits.base, hp.emits.schemaHash, hp.genuineUpTo hd htracks hroom⟩
      rw [hp.emits.sequence, hlength]
      exact htracks.next hroom

/-- One packet for each number. -/
theorem StreamPacket.unique {states : List AgentState} {packets : List Packet}
    (hstream : ∀ n p, nth packets n = some p → StreamPacket X states n p) {p q : Packet}
    (hp : p ∈ packets) (hq : q ∈ packets) (heq : p.sequence = q.sequence) : p = q := by
  obtain ⟨n, hn⟩ := nth_of_mem hp
  obtain ⟨m, hm⟩ := nth_of_mem hq
  have hsame : n = m := by rw [← (hstream n p hn).number, ← (hstream m q hm).number, heq]
  subst hsame
  exact Option.some.inj (hn.symm.trans hm)

/-! ## Packets applied in turn -/

/-- One packet, applied. -/
def Applied (X : Crates) (d : Decoder) (q : Packet) (d' : Decoder) : Prop :=
  ∃ n s, Decoder.applyPacket X d q = (.ok (.applied n s), d')

/-- One packet after another: newer, and a delta right after the packet it was made on. -/
def InTurn (a b : Packet) : Prop :=
  a.sequence < b.sequence ∧ (b.kind = .delta → b.sequence.toNat = a.sequence.toNat + 1)

/-- What a decoder applies, it applies in turn. -/
theorem applied_inTurn {log : List Packet} {d : Decoder} (h : Run (Applied X) .default log d)
    (hlog : ∀ q ∈ log, q.Chained) :
    d.Valid ∧ log.IsChain InTurn ∧ d.sequence = log.getLast?.map Packet.sequence ∧
      ∀ q ∈ log, ∃ k, d.sequence = some k ∧ q.sequence ≤ k := by
  induction h with
  | start =>
    exact ⟨TypedDecoder.default_valid, .nil, rfl, fun q hq => absurd hq List.not_mem_nil⟩
  | @step log b c q _ hcall ih =>
    obtain ⟨hlog, hq⟩ := List.forall_mem_append.mp hlog
    obtain ⟨hvalid, hchain, hlast, hle⟩ := ih hlog
    obtain ⟨n, s, hcall⟩ := hcall
    have hsafe : SafeCall TypedDecoder.sequence TypedDecoder.state
        (TypedDecoder.HasHash agentCodec) ApplyResult.applied? b q
        (Decoder.applyPacket X b q) := TypedDecoder.apply_safe hvalid q
    have hnext : (Decoder.applyPacket X b q).2.Valid := TypedDecoder.apply_valid hvalid q
    rw [hcall] at hsafe hnext
    obtain ⟨rfl, hseq, -, hgrow⟩ := hsafe.newer _ n s rfl rfl
    refine ⟨hnext, ?_, ?_, ?_⟩
    · refine List.isChain_append.mpr ⟨hchain, .singleton q, ?_⟩
      intro a ha b' hb'
      cases hb'
      have hseq : b.sequence = some a.sequence := by
        rw [hlast, Option.mem_def.mp ha]
        rfl
      refine ⟨hgrow _ hseq, fun hkind => ?_⟩
      have hbase := (hsafe.based _ _ s rfl rfl hkind).1
      rw [hseq] at hbase
      rw [List.forall_mem_singleton.mp hq hkind, Option.some.inj hbase]
    · rw [List.getLast?_concat]
      exact hseq
    · have hold : ∀ a ∈ log, ∃ k, c.sequence = some k ∧ a.sequence ≤ k := by
        intro a ha
        obtain ⟨k, hk, hak⟩ := hle a ha
        exact ⟨_, hseq, UInt64.le_trans hak (UInt64.le_of_lt (hgrow k hk))⟩
      exact List.forall_mem_append.mpr
        ⟨hold, List.forall_mem_singleton.mpr ⟨_, hseq, UInt64.le_refl _⟩⟩

/-- What it holds is what the stream says. -/
theorem applied_consistent {states : List AgentState} {log : List Packet} {d : Decoder}
    (h : Run (Applied X) .default log d)
    (hlog : ∀ q ∈ log, GenuineUpTo SameUpToZeros states
      (TypedDecoder.read X agentCodec .default q)) :
    d.Valid ∧ ConsistentUpTo SameUpToZeros states d.view := by
  have hstart : (TypedDecoder.default : Decoder).Valid ∧
      ConsistentUpTo SameUpToZeros states (TypedDecoder.default : Decoder).view :=
    ⟨TypedDecoder.default_valid, consistentUpTo_none _ _⟩
  have hkeep : ∀ b c, ∀ q ∈ log, b.Valid ∧ ConsistentUpTo SameUpToZeros states b.view →
      Applied X b q c → Applied X b q c ∧ c.Valid ∧ ConsistentUpTo SameUpToZeros states c.view := by
    rintro b c q hq ⟨hvalid, hview⟩ ⟨n, s, hcall⟩
    have hnext : (Decoder.applyPacket X b q).2.Valid := TypedDecoder.apply_valid hvalid q
    have hreceive := receive_consistentUpTo (hlog q hq) hview
    rw [TypedDecoder.apply_receive hvalid q] at hreceive
    have hcall' : TypedDecoder.applyPacket X agentCodec .default b q = _ := hcall
    rw [hcall'] at hreceive
    rw [hcall] at hnext
    exact ⟨⟨n, s, hcall⟩, hnext, hreceive⟩
  exact (h.convert hstart hkeep).2

namespace ReorderDecoder

/-! ## Where every delivered packet is -/

/-- Neither an error nor a request for recovery. -/
def Accepted (result : Except DeltaError ReorderApplyResult) : Prop :=
  (∀ e, result ≠ .error e) ∧ ∀ l m, result ≠ .ok (.needRecovery l m)

/-- At or below the sequence. -/
def Reaches (r : ReorderDecoder) (n : UInt64) : Prop := ∃ k, r.sequence = some k ∧ n ≤ k

/-- A call whose packet has been applied, is in the buffer, or was a duplicate. -/
def Accounted (log : List Packet) (r : ReorderDecoder)
    (o : Packet × Except DeltaError ReorderApplyResult) : Prop :=
  o.1 ∈ log ∨ (o.1.sequence, o.1) ∈ r.pending ∨
    (∃ n, o.2 = .ok (.duplicate n)) ∧ r.Reaches o.1.sequence

/-- The packets applied, in order, and what has become of each call. -/
structure Ledger (X : Crates) (P : Packet → Prop)
    (os : List (Packet × Except DeltaError ReorderApplyResult)) (log : List Packet)
    (r : ReorderDecoder) : Prop where
  applied : Run (Applied X) .default log r.decoder
  logged : ∀ q ∈ log, P q
  held : ∀ e ∈ r.pending, P e.2
  accounted : ∀ o ∈ os, r.Accounted log o

/-- What holds between calls. -/
structure Progress (X : Crates) (P : Packet → Prop)
    (os : List (Packet × Except DeltaError ReorderApplyResult)) (log : List Packet)
    (r : ReorderDecoder) : Prop extends Ledger X P os log r where
  empty : r.sequence = none → r.pending = []
  notNext : ∀ k, r.sequence = some k → ∀ e ∈ r.pending, e.1.toNat ≠ k.toNat + 1

theorem new_progress (P : Packet → Prop) (maxGap : UInt64) (maxPending : Usize) :
    Progress X P [] [] (new maxGap maxPending) where
  applied := .start
  logged _ hq := absurd hq List.not_mem_nil
  held _ he := absurd he List.not_mem_nil
  accounted _ ho := absurd ho List.not_mem_nil
  empty _ := rfl
  notNext _ _ _ he := absurd he List.not_mem_nil

theorem notNext_of_due {r : ReorderDecoder} {k : UInt64} (hdue : r.due = none)
    (hk : r.sequence = some k) : ∀ e ∈ r.pending, e.1.toNat ≠ k.toNat + 1 := by
  intro e he hnext
  have hroom := toNat_le_max e.1
  refine due_eq_none hdue hk e he (UInt64.toNat_inj.mp ?_)
  rw [toNat_nextSequence (by omega), hnext]

/-- Only the entry that is due is taken out. -/
theorem due_out {r : ReorderDecoder} {k : UInt64} {q : Packet} (hdue : r.due = some (k, q)) :
    ∀ e ∈ r.pending, e ∈ erase r.pending (nextSequence k) ∨ e.2 = q := by
  intro e he
  by_cases hkey : e.1 = nextSequence k
  · have hget := get?_of_mem r.sorted he
    rw [hkey, (due_eq_some hdue).2] at hget
    exact .inr (Option.some.inj hget).symm
  · exact .inl (mem_erase.mpr ⟨he, hkey⟩)

section Ledger

variable {P : Packet → Prop} {os : List (Packet × Except DeltaError ReorderApplyResult)}
  {log : List Packet} {r : ReorderDecoder}

theorem Ledger.snoc {o : Packet × Except DeltaError ReorderApplyResult}
    (hr : Ledger X P os log r) (ho : r.Accounted log o) : Ledger X P (os ++ [o]) log r where
  applied := hr.applied
  logged := hr.logged
  held := hr.held
  accounted := List.forall_mem_append.mpr ⟨hr.accounted, List.forall_mem_singleton.mpr ho⟩

/-- A delta for the buffer; what is held already stays. -/
theorem Ledger.hold {p : Packet} (hr : Ledger X P os log r) (hp : P p) (hkind : p.kind = .delta)
    (hroom : r.pending.length < r.maxPending.toNat) :
    Ledger X P os log (r.hold p hkind hroom) where
  applied := hr.applied
  logged := hr.logged
  held e he := by
    rcases mem_orInsert he with rfl | he
    · exact hp
    · exact hr.held e he
  accounted o ho := by
    rcases hr.accounted o ho with hlog | hpending | hdup
    · exact .inl hlog
    · exact .inr (.inl (mem_orInsert_of_mem r.sorted _ _ hpending))
    · exact .inr (.inr hdup)

/-- A duplicate is at or below the sequence, and changes nothing. -/
theorem duplicate_reaches {p : Packet} {n : UInt64} {d : Decoder} (hvalid : r.decoder.Valid)
    (hcall : Decoder.applyPacket X r.decoder p = (.ok (.duplicate n), d)) :
    d = r.decoder ∧ r.Reaches p.sequence := by
  refine ⟨TypedDecoder.apply_refused hcall (by intro n s h; cases h), ?_⟩
  obtain ⟨m, s, hview, hle⟩ := TypedDecoder.apply_duplicate hvalid hcall
  rcases hvalid.cases with ⟨-, -, hv⟩ | ⟨k, t, hseq, -, hv⟩
  · rw [hv] at hview
    cases hview
  · rw [hv] at hview
    cases hview
    exact ⟨k, hseq, UInt64.le_iff_toNat_le.mpr hle⟩

/-- One more packet applied, and out of the buffer. -/
theorem Ledger.append {r' : ReorderDecoder} {q : Packet} {n : UInt64} {s : AgentState}
    (hr : Ledger X P os log r) (hvalid : r.decoder.Valid) (hq : P q)
    (hcall : Decoder.applyPacket X r.decoder q = (.ok (.applied n s), r'.decoder))
    (hsub : ∀ e ∈ r'.pending, e ∈ r.pending)
    (hkeep : ∀ e ∈ r.pending, e ∈ r'.pending ∨ e.2 = q) : Ledger X P os (log ++ [q]) r' where
  applied := hr.applied.step ⟨n, s, hcall⟩
  logged := List.forall_mem_append.mpr ⟨hr.logged, List.forall_mem_singleton.mpr hq⟩
  held e he := hr.held e (hsub e he)
  accounted o ho := by
    rcases hr.accounted o ho with hlog | hpending | ⟨hdup, hreached⟩
    · exact .inl (List.mem_append_left _ hlog)
    · rcases hkeep _ hpending with hstays | hout
      · exact .inr (.inl hstays)
      · exact .inl (List.mem_append_right _ (List.mem_singleton.mpr hout))
    · have hgrows : ∃ k, (Decoder.applyPacket X r.decoder q).2.sequence = some k ∧
          o.1.sequence ≤ k := TypedDecoder.apply_grows hvalid q hreached
      rw [hcall] at hgrows
      exact .inr (.inr ⟨hdup, hgrows⟩)

variable (hchained : ∀ q, P q → q.Chained)
  (hunique : ∀ p q, P p → P q → p.sequence = q.sequence → p = q)
include hchained

theorem Ledger.valid (hr : Ledger X P os log r) : r.decoder.Valid :=
  (applied_inTurn hr.applied fun q hq => hchained q (hr.logged q hq)).1

include hunique

/-- The packet numbered with the sequence has been applied. -/
theorem Ledger.current {q : Packet} (hr : Ledger X P os log r) (hq : P q)
    (hseq : r.sequence = some q.sequence) : q ∈ log := by
  have hlast : r.sequence = log.getLast?.map Packet.sequence :=
    (applied_inTurn hr.applied fun q hq => hchained q (hr.logged q hq)).2.2.1
  obtain ⟨a, ha, hnumber⟩ := Option.map_eq_some_iff.mp (hlast.symm.trans hseq)
  have hmem : a ∈ log := List.mem_of_getLast? ha
  exact hunique a q (hr.logged a hmem) hq hnumber ▸ hmem

/-- **A turn** takes an entry out of the buffer to apply it; at the last number, one that has
    been applied. -/
theorem Turn.ledger {r' : ReorderDecoder} {q : Packet} (h : Turn X r q r')
    (hr : Ledger X P os log r) : ∃ log', Ledger X P os log' r' := by
  have hvalid := hr.valid hchained
  have hheld : ∀ k, r.due = some (k, q) → P q := fun k hdue =>
    hr.held _ (get?_mem (due_eq_some hdue).2)
  cases h with
  | @applied k n q s d hdue hcall =>
    exact ⟨log ++ [q], hr.append hvalid (hheld k hdue) hcall (fun e he => (mem_erase.mp he).1)
      (due_out hdue)⟩
  | @duplicate k n q d hdue hcall =>
    obtain ⟨rfl, k', hk', hle⟩ := duplicate_reaches hvalid hcall
    obtain ⟨hseq, hget⟩ := due_eq_some hdue
    cases hseq.symm.trans hk'
    have hnumber : q.sequence = nextSequence k := (r.keyed _ (get?_mem hget)).1
    -- only the last number is not above the sequence it follows
    have hlast : q.sequence = k :=
      UInt64.le_antisymm hle (UInt64.le_iff_toNat_le.mpr (hnumber ▸ le_nextSequence k))
    have hq : q ∈ log := hr.current hchained hunique (hheld k hdue) (hlast ▸ hseq)
    refine ⟨log, hr.applied, hr.logged, fun e he => hr.held e (mem_erase.mp he).1, ?_⟩
    intro o ho
    rcases hr.accounted o ho with hlog | hpending | hdup
    · exact .inl hlog
    · rcases due_out hdue _ hpending with hstays | rfl
      · exact .inr (.inl hstays)
      · exact .inl hq
    · exact .inr (.inr hdup)

/-- The loop of an accepted call ends with nothing due. -/
theorem Ledger.drain {r' : ReorderDecoder} {n : UInt64} {s : AgentState} {drained : Nat}
    {result : Except DeltaError ReorderApplyResult} (hr : Ledger X P os log r)
    (hacc : Accepted result) (h : drain X n r s drained = (result, r')) :
    (∃ log', Ledger X P os log' r') ∧ r'.due = none := by
  obtain ⟨qs, rm, hrun, hstop⟩ := drain_turns h
  have hledger : ∃ log', Ledger X P os log' rm :=
    hrun.keeps (I := fun r => ∃ log, Ledger X P os log r)
      (fun _ _ _ ⟨_, hb⟩ hturn => hturn.ledger hchained hunique hb) ⟨log, hr⟩
  cases hstop with
  | done hdue _ => exact ⟨hledger, hdue⟩
  | rejected _ _ => exact absurd rfl (hacc.1 _)
  | unusable _ _ => exact absurd rfl (hacc.2 _ _)

/-- **One accepted call.** -/
theorem Progress.apply {o : Packet × Except DeltaError ReorderApplyResult} {r' : ReorderDecoder}
    (hr : Progress X P os log r) (hp : P o.1) (hacc : Accepted o.2) (h : Delivers X r o r') :
    ∃ log', Progress X P (os ++ [o]) log' r' := by
  obtain ⟨p, result⟩ := o
  have hvalid := hr.valid hchained
  have hcalls : Calls X r p result r' := apply_cases h
  have hacc : Accepted result := hacc
  cases hcalls with
  | @buffered localSeq hahead hgap hkind hroom =>
    obtain ⟨-, hseq, hlt⟩ := ahead_eq_some hahead
    have hheld := hr.hold hp hkind hroom
    obtain ⟨q, hq⟩ : ∃ q, get? (r.hold p hkind hroom).pending p.sequence = some q :=
      ⟨_, (get?_orInsert _ _ _ _).trans (if_pos rfl)⟩
    have hmem := get?_mem hq
    -- what is held under the number is the packet of that number
    have hsame : q = p := hunique q p (hheld.held _ hmem) hp ((r.hold p hkind hroom).keyed _ hmem).1
    subst hsame
    refine ⟨log, hheld.snoc (.inr (.inl hmem)), ?_, ?_⟩
    · intro hnone
      cases hseq.symm.trans hnone
    · intro k hk e he
      rcases mem_orInsert he with rfl | he
      · cases hseq.symm.trans hk
        have hone := hchained q hp hkind
        have hlt := UInt64.lt_iff_toNat_lt.mp hlt
        show q.sequence.toNat ≠ localSeq.toNat + 1
        omega
      · exact hr.notNext k hk e he
  | refused _ _ => exact absurd rfl (hacc.2 _ _)
  | rejected _ _ => exact absurd rfl (hacc.1 _)
  | unusable _ _ => exact absurd rfl (hacc.2 _ _)
  | duplicate _ hcall =>
    obtain ⟨rfl, hreached⟩ := duplicate_reaches hvalid hcall
    exact ⟨log, hr.toLedger.snoc (.inr (.inr ⟨⟨_, rfl⟩, hreached⟩)), hr.empty, hr.notNext⟩
  | @applied n s d _ _ _ hcall hdrain =>
    have hfed : Ledger X P os (log ++ [p]) { r with decoder := d } :=
      hr.append hvalid hp hcall (fun e he => he) fun e he => .inl he
    have hown : Accounted (log ++ [p]) { r with decoder := d } (p, result) :=
      .inl (List.mem_append_right _ (List.mem_singleton.mpr rfl))
    obtain ⟨⟨log', hlog'⟩, hdue⟩ := (hfed.snoc hown).drain hchained hunique hacc hdrain
    have hnew : ({ r with decoder := d } : ReorderDecoder).sequence = some n :=
      congrArg TypedDecoder.sequence (TypedDecoder.apply_applied hcall).2.2.2
    obtain ⟨k, hk, -⟩ :=
      drain_grows (hfed.valid hchained) ⟨n, hnew, UInt64.le_refl n⟩ hdrain
    refine ⟨log', hlog', fun hnone => ?_, fun k hk => notNext_of_due hdue hk⟩
    cases hk.symm.trans hnone

/-- **A run of accepted calls.** -/
theorem Progress.run {maxGap : UInt64} {maxPending : Usize}
    (h : Run (Delivers X) (new maxGap maxPending) os r) (hos : ∀ o ∈ os, P o.1 ∧ Accepted o.2) :
    ∃ log, Progress X P os log r := by
  induction h with
  | start => exact ⟨[], new_progress P maxGap maxPending⟩
  | step _ hcall ih =>
    obtain ⟨hos, ho⟩ := List.forall_mem_append.mp hos
    obtain ⟨hp, hacc⟩ := List.forall_mem_singleton.mp ho
    obtain ⟨log, hprogress⟩ := ih hos
    exact hprogress.apply hchained hunique hp hacc hcall

end Ledger

/-- After a call there is a sequence, and the number after it has not been delivered. -/
theorem Progress.next_missing {P : Packet → Prop}
    {os : List (Packet × Except DeltaError ReorderApplyResult)} {log : List Packet}
    {r : ReorderDecoder} (hr : Progress X P os log r) (hchained : ∀ q, P q → q.Chained)
    {o : Packet × Except DeltaError ReorderApplyResult} (ho : o ∈ os) :
    ∃ k, r.sequence = some k ∧ o.1.sequence.toNat ≠ k.toNat + 1 := by
  have hbelow : r.Reaches o.1.sequence →
      ∃ k, r.sequence = some k ∧ o.1.sequence.toNat ≠ k.toNat + 1 := by
    rintro ⟨k, hk, hle⟩
    have hle := UInt64.le_iff_toNat_le.mp hle
    exact ⟨k, hk, by omega⟩
  rcases hr.accounted o ho with hlog | hpending | ⟨-, hreached⟩
  · exact hbelow ((applied_inTurn hr.applied fun q hq =>
      hchained q (hr.logged q hq)).2.2.2 _ hlog)
  · cases hseq : r.sequence with
    | none =>
      rw [hr.empty hseq] at hpending
      cases hpending
    | some k => exact ⟨k, rfl, hr.notNext k hseq _ hpending⟩
  · exact hbelow hreached

/-- Once the numbers from one to `n` have been delivered, the sequence is there. -/
theorem Progress.complete {P : Packet → Prop}
    {os : List (Packet × Except DeltaError ReorderApplyResult)} {log : List Packet}
    {r : ReorderDecoder} (hr : Progress X P os log r) (hchained : ∀ q, P q → q.Chained) {n : Nat}
    (hpos : 1 ≤ n) (hall : ∀ j, 1 ≤ j → j ≤ n → ∃ o ∈ os, o.1.sequence.toNat = j) :
    ∃ k, r.sequence = some k ∧ n ≤ k.toNat := by
  obtain ⟨first, hfirst, -⟩ := hall 1 (Nat.le_refl 1) hpos
  obtain ⟨k, hk, -⟩ := hr.next_missing hchained hfirst
  refine ⟨k, hk, ?_⟩
  by_contra hlt
  obtain ⟨o, ho, hnumber⟩ := hall (k.toNat + 1) (by omega) (by omega)
  obtain ⟨k', hk', hnext⟩ := hr.next_missing hchained ho
  cases hk.symm.trans hk'
  exact hnext hnumber

end ReorderDecoder

open ReorderDecoder

/-- **Reordered delivery reaches the in-order result**: between accepted calls the state is the one
    of the sequence, and every packet delivered has been applied, once and in turn, or is in the
    buffer, or was a duplicate; with all of them delivered, the sequence and the state are the
    last. -/
theorem reorder_converges (hd : X.DecompressInverts) {policy : AdaptivePolicy} {e : Encoder}
    {updates : List (AgentState × Packet)}
    (he : Run (TypedEncoder.Publishes X agentCodec) (.withPolicy policy) updates e)
    (hroom : updates.length ≤ U64_MAX) (maxGap : UInt64) (maxPending : Usize)
    {os : List (Packet × Except DeltaError ReorderApplyResult)} {r : ReorderDecoder}
    (h : Run (Delivers X) (new maxGap maxPending) os r)
    (hos : ∀ o ∈ os, o.1 ∈ packetsOf updates ∧ Accepted o.2) :
    (∀ k, r.sequence = some k → ∃ s t, r.state = some s ∧
      nth (statesOf updates) k.toNat = some t ∧ SameUpToZeros s t) ∧
    (∃ log, Run (Applied X) .default log r.decoder ∧ log.IsChain InTurn ∧
      (∀ q ∈ log, q ∈ os.map Prod.fst) ∧ ∀ o ∈ os, r.Accounted log o) ∧
    (updates ≠ [] → (∀ p ∈ packetsOf updates, p ∈ os.map Prod.fst) →
      ∃ k s t, r.sequence = some k ∧ k.toNat = updates.length ∧ r.state = some s ∧
        (statesOf updates).getLast? = some t ∧ SameUpToZeros s t) := by
  obtain ⟨-, hstream⟩ := TypedEncoder.published_stream hd he hroom
  have hsent : ∀ q ∈ os.map Prod.fst, q ∈ packetsOf updates := by
    intro q hq
    obtain ⟨o, ho, rfl⟩ := List.mem_map.mp hq
    exact (hos o ho).1
  have hpacket : ∀ q ∈ os.map Prod.fst, ∃ n, StreamPacket X (statesOf updates) n q := by
    intro q hq
    obtain ⟨n, hn⟩ := nth_of_mem (hsent q hq)
    exact ⟨n, hstream n q hn⟩
  have hchained : ∀ q ∈ os.map Prod.fst, q.Chained := fun q hq => (hpacket q hq).choose_spec.chained
  obtain ⟨log, hprogress⟩ := Progress.run hchained
    (fun p q hp hq => StreamPacket.unique hstream (hsent p hp) (hsent q hq)) h
    fun o ho => ⟨List.mem_map_of_mem ho, (hos o ho).2⟩
  obtain ⟨-, hchain, -, -⟩ :=
    applied_inTurn hprogress.applied fun q hq => hchained q (hprogress.logged q hq)
  obtain ⟨hvalid, hview⟩ := applied_consistent hprogress.applied fun q hq =>
    (hpacket q (hprogress.logged q hq)).choose_spec.genuine
  have hstate : ∀ k, r.sequence = some k → ∃ s t, r.state = some s ∧
      nth (statesOf updates) k.toNat = some t ∧ SameUpToZeros s t := by
    intro k hk
    obtain ⟨s, hs, hv⟩ := hvalid.view_of_sequence hk
    obtain ⟨t, ht, hst⟩ := hview _ _ hv
    exact ⟨s, t, hs, ht, hst⟩
  refine ⟨hstate, ⟨log, hprogress.applied, hchain, hprogress.logged, hprogress.accounted⟩, ?_⟩
  intro hne hall
  have hlength : (packetsOf updates).length = updates.length := by simp [packetsOf]
  have hstates : (statesOf updates).length = updates.length := by simp [statesOf]
  have hdelivered : ∀ n, 1 ≤ n → n ≤ updates.length → ∃ o ∈ os, o.1.sequence.toNat = n := by
    intro n hn hle
    obtain ⟨q, hq⟩ := nth_of_le hn (hlength ▸ hle)
    obtain ⟨o, ho, rfl⟩ := List.mem_map.mp (hall q (nth_mem hq))
    exact ⟨o, ho, (hstream n _ hq).number⟩
  obtain ⟨k, hk, hle⟩ :=
    hprogress.complete hchained (List.length_pos_iff.mpr hne) hdelivered
  obtain ⟨s, t, hs, ht, hst⟩ := hstate k hk
  -- and no further than the last state
  have hlast : k.toNat = updates.length := Nat.le_antisymm (hstates ▸ (nth_lt ht).2) hle
  rw [hlast, ← hstates, nth_length] at ht
  exact ⟨k, s, t, hk, hlast, hs, ht, hst⟩

/-- The states of an agent that is busy for one update, with their packets. -/
def briefUpdates : List (AgentState × Packet) :=
  [(idleAgent 0, idlePacket), (busyAgent, busyPacket), (idleAgent 0, thirdPacket)]

theorem briefUpdates_run :
    Run (TypedEncoder.Publishes .stored agentCodec) (.withPolicy .default) briefUpdates
      thirdEncoder := by
  have h3 : TypedEncoder.Publishes .stored agentCodec busyEncoder (idleAgent 0, thirdPacket)
      thirdEncoder := .encode (Prod.ext (by decide +kernel) rfl)
  exact ((Run.start.step (.encode idleEncoder_encode)).step (.encode busyEncoder_encode)).step h3

def swappedPackets : List Packet := [idlePacket, thirdPacket, busyPacket, busyPacket]

/-- The third update before the second, and the second again. -/
theorem reorder_converges_swapped :
    ∃ k s t, (deliver .stored (new 8 1) swappedPackets).2.sequence = some k ∧
      k.toNat = briefUpdates.length ∧
      (deliver .stored (new 8 1) swappedPackets).2.state = some s ∧
      (statesOf briefUpdates).getLast? = some t ∧ SameUpToZeros s t := by
  have hsent : ∀ p ∈ swappedPackets, p ∈ packetsOf briefUpdates := by decide +kernel
  have hall : ∀ p ∈ packetsOf briefUpdates, p ∈ swappedPackets := by decide +kernel
  have hresults : (deliver .stored (new 8 1) swappedPackets).1.map Prod.snd =
      [.ok (.applied 1 (idleAgent 0) 0), .ok (.buffered 3), .ok (.applied 3 (idleAgent 0) 1),
        .ok (.duplicate 2)] := by decide +kernel
  refine (reorder_converges Crates.stored_exact.inverts briefUpdates_run (by decide) 8 1
    (deliver_run _ _ _) (fun o ho => ⟨hsent _ (deliver_mem ho), ?_⟩)).2.2 (by decide) hall
  have hmem : o.2 ∈ _ := List.mem_map_of_mem ho
  rw [hresults] at hmem
  simp only [List.mem_cons, List.not_mem_nil, or_false] at hmem
  rcases hmem with h | h | h | h <;> rw [h] <;> exact ⟨nofun, nofun⟩

end DeltaStream
