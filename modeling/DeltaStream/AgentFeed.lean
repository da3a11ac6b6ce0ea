import DeltaStream.AdaptiveChoice
import DeltaStream.DemoAgent
import DeltaStream.Lib.Feed
import DeltaStream.Lib.Fallible
import DeltaStream.ReorderConvergence

/-!
# An encoder feeding decoders

The typed encoder and decoder of agent states under the rules for computations that may fail:
what an encoder publishes is usable for every decoder that holds an earlier state, and the state
it is asked for brings the decoder up to date.

* `Encoder.encode_ends`, `Encoder.recoverySnapshot_ends` — the two calls of a publisher; they
  only fail where compression does;
* `Decoder.apply_usable` — a packet that can be used leaves a decoder consistent, and is applied,
  ignored, or answered by a request for recovery;
* `Decoder.apply_restores` — the snapshot at the encoder's sequence brings it up to date.
-/

set_option autoImplicit false

namespace DeltaStream

open Fallible Replica

variable {X : Crates}

/-- `?` on a call that changes its receiver. -/
def threaded {ε α σ : Type} (r : Except ε α × σ) : Except ε (α × σ) :=
  r.1.map fun a => (a, r.2)

theorem threaded_eq_ok {ε α σ : Type} {r : Except ε α × σ} {a : α} {s : σ}
    (h : threaded r = .ok (a, s)) : r = (.ok a, s) := by
  obtain ⟨result, s'⟩ := r
  cases result with
  | error e => cases h
  | ok b =>
    cases h
    rfl

/-! ## Failed compression -/

namespace AdaptivePolicy

variable {policy : AdaptivePolicy} {e : DeltaError}

theorem candidate_failed {packet : Packet} (h : policy.candidate X packet = .error e) :
    X.CompressionFailed e := by
  obtain ⟨msg, hmsg, he⟩ := candidate_error h
  exact ⟨_, _, msg, hmsg, he⟩

theorem selectInitial_failed {snapshot : Packet}
    (h : policy.selectInitial X snapshot = .error e) : X.CompressionFailed e := by
  unfold selectInitial at h
  split at h
  · rename_i hc
    cases h
    exact candidate_failed hc
  · split at h <;> cases h

theorem select_failed {snapshot delta : Packet} (h : policy.select X snapshot delta = .error e) :
    X.CompressionFailed e := by
  unfold select at h
  simp only at h
  split at h
  · rename_i hs
    cases h
    exact candidate_failed hs
  split at h
  · rename_i hd
    cases h
    exact candidate_failed hd
  · cases h

end AdaptivePolicy

namespace TypedEncoder

variable {S : Type} {C : StateCodec S} {encoder encoder' : TypedEncoder S} {s : S}
  {err : DeltaError}

theorem choose_failed (hC : C.Lawful) {sequence : UInt64}
    (h : encoder.choose X C sequence s = .error err) : X.CompressionFailed err := by
  obtain ⟨snapshot, hsnap⟩ := rawSnapshot_total hC sequence s
  unfold choose at h
  rw [hsnap] at h
  simp only at h
  split at h
  · exact AdaptivePolicy.selectInitial_failed h
  rename_i previous _
  obtain ⟨old, hold⟩ := hC.encodes previous
  obtain ⟨payload, hpayload⟩ := hC.encodesDelta previous s
  rw [hold, hpayload] at h
  exact AdaptivePolicy.select_failed h

/-- **`encode` only fails where compression does.** -/
theorem encode_failed (hC : C.Lawful) (h : encoder.encode X C s = (.error err, encoder')) :
    X.CompressionFailed err := by
  unfold encode at h
  simp only at h
  split at h
  · rename_i hchoose
    cases h
    exact choose_failed hC hchoose
  · cases h

theorem recoverySnapshot_failed (hC : C.Lawful)
    (h : encoder.recoverySnapshot X C s = .error err) : X.CompressionFailed err := by
  obtain ⟨snapshot, hsnap⟩ := rawSnapshot_total hC encoder.sequence s
  unfold recoverySnapshot at h
  rw [hsnap] at h
  simp only at h
  split at h
  · rename_i hselect
    cases h
    exact AdaptivePolicy.selectInitial_failed hselect
  · cases h

end TypedEncoder

/-! ## Publishing -/

theorem AgentState.OfDemo.within {s : AgentState} (h : s.OfDemo) :
    (encodeAgentState s).length ≤ MAX_LOGICAL_PAYLOAD := h.fits.trans (by decide)

/-- The packet can be used by a decoder that holds one of the states. -/
def Feeds (X : Crates) (states : List AgentState) (p : Packet) : Prop :=
  Usable SameUpToZeros states (TypedDecoder.read X agentCodec .default p)

theorem Feeds.mono {states more : List AgentState} {p : Packet} (h : Feeds X states p) :
    Feeds X (states ++ more) p := Usable.mono h

/-- The patch of a delta fits no state, or makes the new state of one that stands for its base. -/
theorem DeltaOf.patch_usable {config : DecodeConfig} {sequence : UInt64}
    {previous s held : AgentState} {p : Packet} (hd : X.ZstdExact)
    (h : DeltaOf X agentCodec sequence previous s p) (hheld : SameUpToZeros held previous)
    (hfits : ∀ payload, agentCodec.encodeDelta previous s = .ok payload →
      payload.length ≤ config.maxDecompressedBytes) :
    TypedDecoder.patchState X agentCodec config p held = .mismatch ∨
      ∃ next, TypedDecoder.patchState X agentCodec config p held = .next next ∧
        SameUpToZeros next s := by
  have hupTo : ∀ next, TypedDecoder.patchState X agentCodec config p held = .next next →
      SameUpToZeros next s := fun next hnext => h.patch_upTo hd.inverts hheld hnext
  obtain ⟨old, payload, -, hpayload, hcopy⟩ := h
  obtain ⟨bytes, hbytes, hdecode⟩ := decodeAgentDelta_encode (between_consistent previous s)
  have hlp : p.logicalPayloadWithConfig X config = .ok payload :=
    hcopy.payload_fits hd (Packet.delta_isCompressed _ _ _ _ _) (hfits payload hpayload)
  have hpayload : encodeAgentDelta (.between previous s) = .ok payload := hpayload
  rw [hbytes] at hpayload
  cases hpayload
  have happly : ∃ next, (AgentDelta.between previous s).apply held = .ok next := by
    rw [hheld.fields]
    exact ⟨_, between_apply_cpu previous s held.cpuPercent⟩
  obtain ⟨next, happly⟩ := happly
  by_cases hhash : fnv1a64 (encodeAgentState held) = p.baseHash
  · right
    have hpatch : TypedDecoder.patchState X agentCodec config p held = .next next := by
      unfold TypedDecoder.patchState
      simp only [agentCodec, hhash, ne_eq, not_true_eq_false, if_false, hlp, hdecode, happly]
    exact ⟨next, hpatch, hupTo next hpatch⟩
  · left
    unfold TypedDecoder.patchState
    simp only [agentCodec]
    exact if_pos hhash

/-- What a publisher has published, the last state among it, and the limits it is within. -/
structure Publishing (states : List AgentState) (encoder : Encoder) (state : AgentState) :
    Prop where
  tracks : TypedRun.Tracks ⟨encoder, states⟩
  last : states.getLast? = some state
  fits : (encodeAgentState state).length ≤ MAX_LOGICAL_PAYLOAD

section Publishing

variable {e : Encoder} {states : List AgentState} {s : AgentState}

theorem TypedEncoder.Published.feeds {e' : Encoder} {p : Packet} (hd : X.ZstdExact)
    (h : TypedRun.Tracks ⟨e, states⟩) (room : states.length < U64_MAX)
    (hfits : (encodeAgentState s).length ≤ MAX_LOGICAL_PAYLOAD)
    (hp : Published X agentCodec e s p e') : Feeds X (states ++ [s]) p := by
  have hnum : (nextSequence e.sequence).toNat = states.length + 1 := h.next room
  have hbase : (nextSequence e.sequence - 1).toNat = states.length := h.base room
  have hnew := nth_length_append states s
  unfold Feeds
  cases hp.emits with
  | snapshot hsnap =>
    have hread : TypedDecoder.read X agentCodec .default p = _ :=
      hsnap.read_fits agentCodec_lawful hd (by
        intro bytes hbytes
        cases hbytes
        exact hfits)
    rw [hread, hnum]
    exact ⟨s, hnew, .refl s⟩
  | @delta previous hprev hdelta hsmall =>
    have hlast : states.getLast? = some previous := h.lastState.symm.trans hprev
    rw [hdelta.read, hnum, hbase]
    refine ⟨rfl, previous, nth_append ((nth_length states).trans hlast), s, hnew, ?_⟩
    intro held hheld
    refine hdelta.patch_usable hd hheld fun payload hpayload => ?_
    have hlen : HEADER_LEN + (encodeAgentState s).length < U64_MAX :=
      Nat.lt_of_le_of_lt (Nat.add_le_add_left hfits _) (by decide)
    exact Nat.le_trans (hsmall _ payload rfl hpayload hlen) hfits

/-- **Publishing a state** that fits the limits: the packet is usable and fits the wire. -/
theorem Encoder.encode_ends (hd : X.ZstdExact) (h : TypedRun.Tracks ⟨e, states⟩)
    (room : states.length < U64_MAX) (hfits : (encodeAgentState s).length ≤ MAX_LOGICAL_PAYLOAD) :
    Ends (fun r => TypedRun.Tracks ⟨r.2, states ++ [s]⟩ ∧ Feeds X (states ++ [s]) r.1 ∧
        r.1.sequence.toNat = states.length + 1 ∧ ∃ bytes, r.1.encode X = .ok bytes)
      X.CompressionFailed (threaded (Encoder.encode X e s)) := by
  generalize hcall : Encoder.encode X e s = call
  obtain ⟨result, e'⟩ := call
  cases result with
  | error err => exact TypedEncoder.encode_failed agentCodec_lawful hcall
  | ok p =>
    have hp := TypedEncoder.encode_ok hcall
    refine ⟨h.step room hp, hp.feeds hd h room hfits, ?_, ?_⟩
    · rw [hp.emits.sequence]
      exact h.next room
    · have hlen := hp.length _ rfl
        (Nat.lt_of_le_of_lt (Nat.add_le_add_left hfits HEADER_LEN) (by decide))
      obtain ⟨bytes, hbytes, -⟩ := hp.emits.wire (hlen.trans (Nat.add_le_add_left hfits _))
      exact ⟨bytes, hbytes⟩

/-- The packet brings the state at the position of the publisher. -/
def Restores (X : Crates) (states : List AgentState) (s : AgentState) (p : Packet) : Prop :=
  TypedDecoder.read X agentCodec .default p = .full states.length s

theorem Restores.feeds {p : Packet} (h : Restores X states s p)
    (hlast : states.getLast? = some s) : Feeds X states p := by
  have hread : TypedDecoder.read X agentCodec .default p = _ := h
  unfold Feeds
  rw [hread]
  exact ⟨s, (nth_length states).trans hlast, .refl s⟩

theorem Encoder.recoverySnapshot_ends (hd : X.ZstdExact) (h : TypedRun.Tracks ⟨e, states⟩)
    (hfits : (encodeAgentState s).length ≤ MAX_LOGICAL_PAYLOAD) :
    Ends (Restores X states s) X.CompressionFailed (Encoder.recoverySnapshot X e s) := by
  cases hcall : Encoder.recoverySnapshot X e s with
  | error err => exact TypedEncoder.recoverySnapshot_failed agentCodec_lawful hcall
  | ok p =>
    have hread : TypedDecoder.read X agentCodec .default p = .full e.sequence.toNat s :=
      (TypedEncoder.recoverySnapshot_ok hcall).read_fits agentCodec_lawful hd (by
        intro bytes hbytes
        cases hbytes
        exact hfits)
    have hseq : e.sequence.toNat = states.length := h.sequence
    show TypedDecoder.read X agentCodec .default p = _
    rw [hread, hseq]

end Publishing

/-! ## Receiving -/

theorem TypedDecoder.number_sequence {S : Type} {C : StateCodec S} {config : DecodeConfig}
    {p : Packet} {n : Nat} (h : (read X C config p).number? = some n) : n = p.sequence.toNat := by
  by_cases hschema : p.schemaHash = C.schemaHash
  · rw [read_number hschema] at h
    cases h
    rfl
  · unfold read at h
    rw [if_pos hschema] at h
    cases h

/-- The decoder holds one of the states, under its number. -/
structure Decoder.Follows (states : List AgentState) (d : Decoder) : Prop where
  valid : d.Valid
  consistent : ConsistentUpTo SameUpToZeros states d.view

theorem Decoder.Follows.mono {states more : List AgentState} {d : Decoder}
    (h : d.Follows states) : d.Follows (states ++ more) :=
  ⟨h.valid, ConsistentUpTo.mono h.consistent⟩

theorem Decoder.follows_default (states : List AgentState) : Decoder.Follows states .default :=
  ⟨TypedDecoder.default_valid, consistentUpTo_none _ _⟩

/-- `decoder.state() == Some(&state)`. -/
def Decoder.holds (d : Decoder) (s : AgentState) : Bool :=
  match d.state with
  | none => false
  | some held => held.eq s

/-- The decoder holds the state, under the publisher's number. -/
structure UpToDate (states : List AgentState) (s : AgentState) (d : Decoder) : Prop where
  valid : d.Valid
  at_position : AtPosition SameUpToZeros states.length s d.view

theorem UpToDate.follows {states : List AgentState} {s : AgentState} {d : Decoder}
    (h : UpToDate states s d) (hlast : states.getLast? = some s) : d.Follows states :=
  ⟨h.valid, h.at_position.consistent ((nth_length states).trans hlast)⟩

theorem UpToDate.holds {states : List AgentState} {s : AgentState} {d : Decoder}
    (h : UpToDate states s d) (hs : s.eq s = true) : d.holds s = true := by
  obtain ⟨held, hview, hsame⟩ := h.at_position
  unfold Decoder.holds
  rcases h.valid.cases with ⟨-, -, hv⟩ | ⟨n, t, -, hst, hv⟩
  · rw [hv] at hview
    cases hview
  · rw [hv] at hview
    obtain ⟨-, rfl⟩ := Prod.mk.inj (Option.some.inj hview)
    rw [hst]
    exact hsame.eq hs

section Receiving

variable {states : List AgentState} {d : Decoder} {p : Packet} {E : DeltaError → Prop}

/-- What the replica does, the decoder does. -/
theorem Decoder.apply_ends {Q : ApplyResult AgentState × Decoder → Prop} (hvalid : d.Valid)
    (hok : (receive d.view (TypedDecoder.read X agentCodec .default p)).1 ≠ .rejected)
    (hQ : ∀ result d', Decoder.applyPacket X d p = (.ok result, d') → d'.Valid →
      receive d.view (TypedDecoder.read X agentCodec .default p) =
        (TypedDecoder.verdict (.ok result), d'.view) → Q (result, d')) :
    Ends Q E (threaded (Decoder.applyPacket X d p)) := by
  have hreceive : receive d.view (TypedDecoder.read X agentCodec .default p) = _ :=
    TypedDecoder.apply_receive hvalid p
  have hvalid' : (Decoder.applyPacket X d p).2.Valid := TypedDecoder.apply_valid hvalid p
  generalize hcall : Decoder.applyPacket X d p = call at hvalid'
  have hcall' : TypedDecoder.applyPacket X agentCodec .default d p = call := hcall
  rw [hcall'] at hreceive
  obtain ⟨result, d'⟩ := call
  cases result with
  | error err =>
    rw [hreceive] at hok
    exact absurd rfl hok
  | ok result => exact hQ result d' hcall hvalid' hreceive

/-- A packet that can be used is not an error. -/
theorem Decoder.apply_follows (hd : d.Follows states) (hp : Feeds X states p) :
    ∃ result d', Decoder.applyPacket X d p = (.ok result, d') ∧ d'.Follows states := by
  obtain ⟨hnext, hok, -⟩ := receive_usable hp hd.consistent
  obtain ⟨⟨result, d'⟩, hcall, hfollows⟩ := (apply_ends
    (Q := fun r => r.2.Follows states) (E := fun _ => False) hd.valid hok
    fun result d' _ hvalid hreceive => by
      rw [hreceive] at hnext
      exact ⟨hvalid, hnext⟩).total fun _ he => he
  exact ⟨result, d', threaded_eq_ok hcall, hfollows⟩

/-- **A packet that can be used** is applied, ignored, or answered by a request for recovery,
    which leaves the decoder as it was, behind the publisher.  A decoder that is up to date stays
    so, and the newest packet brings any other up to date unless it asks for recovery. -/
theorem Decoder.apply_usable {s : AgentState} (hd : d.Follows states) (hp : Feeds X states p)
    (hlast : states.getLast? = some s) :
    Ends (fun r => r.2.Follows states ∧
        (∀ l m, r.1 = .needSnapshot l m → r.2 = d ∧ Behind d.view states.length) ∧
        (UpToDate states s d ∨ p.sequence.toNat = states.length →
          UpToDate states s r.2 ∨ ∃ l m, r.1 = .needSnapshot l m)) E
      (threaded (Decoder.applyPacket X d p)) := by
  obtain ⟨hnext, hok, hneed⟩ := receive_usable hp hd.consistent
  refine apply_ends hd.valid hok fun result d' hcall hvalid hreceive => ?_
  rw [hreceive] at hnext hneed
  refine ⟨⟨hvalid, hnext⟩, ?_, ?_⟩
  · rintro l m rfl
    exact ⟨TypedDecoder.apply_refused hcall (by intro n s h; cases h), (hneed rfl).2⟩
  · rintro (hup | hnewest)
    · left
      have hsame := hup.at_position.receive hp
      rw [hreceive] at hsame
      exact ⟨hvalid, (Prod.mk.inj hsame).2 ▸ hup.at_position⟩
    · have hnumber : (TypedDecoder.read X agentCodec .default p).number? = some states.length := by
        obtain ⟨n, t, hn, -⟩ := hp.number
        rw [hn, ← hnewest]
        exact congrArg some (TypedDecoder.number_sequence hn)
      rcases receive_current hd.consistent hp hnumber hlast with hat | hneed
      · rw [hreceive] at hat
        exact .inl ⟨hvalid, hat⟩
      · rw [hreceive] at hneed
        obtain ⟨l, m, hres⟩ := TypedDecoder.verdict_need hneed
        cases hres
        exact .inr ⟨l, m, rfl⟩

/-- **The state at the publisher's position** brings the decoder up to date; one that is behind
    applies it. -/
theorem Decoder.apply_restores {s : AgentState} (hd : d.Follows states)
    (hlast : ∀ t, states.getLast? = some t → t = s) (hp : Restores X states s p) :
    Ends (fun r => UpToDate states s r.2 ∧ (∀ l m, r.1 ≠ .needSnapshot l m) ∧
        (Behind d.view states.length → ∃ n t, r.1 = .applied n t)) E
      (threaded (Decoder.applyPacket X d p)) := by
  obtain ⟨hat, hverdict⟩ := receive_whole (.refl s) hd.consistent hlast
  have hread : TypedDecoder.read X agentCodec .default p = .full states.length s := hp
  refine apply_ends hd.valid ?_ fun result d' hcall hvalid hreceive => ?_
  · rw [hread]
    rcases hverdict with h | h <;> rw [h] <;> exact nofun
  rw [hread] at hreceive
  rw [hreceive] at hat hverdict
  refine ⟨⟨hvalid, hat⟩, ?_, fun hbehind => ?_⟩
  · rintro l m rfl
    rcases hverdict with h | h <;> cases h
  · rw [receive_full_behind hbehind] at hreceive
    obtain ⟨n, hres, -⟩ := TypedDecoder.verdict_applied (Prod.mk.inj hreceive).1.symm
    exact ⟨n, s, Except.ok.inj hres⟩

end Receiving

end DeltaStream
