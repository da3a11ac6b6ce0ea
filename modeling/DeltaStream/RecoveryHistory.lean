import DeltaStream.Lib.Suffix
import DeltaStream.Packet

/-!
# The recovery history

Model of `src/recovery_history.rs`: the packets a publisher keeps for recovery, evicted from
the front by count and by bytes, and the planner that answers a resync request with a replay
of retained packets or with a snapshot.

* `plan_cases` — a plan is the given snapshot, or a replay of exactly the retained packets
  after the local sequence, which then form the full chain up to the snapshot's sequence and
  are smaller than the snapshot;
* `plan_replay` — and whenever they do, the plan is that replay;
* `record_keeps_longest` — what is retained is the longest suffix of everything recorded that is
  within both limits.
-/

set_option autoImplicit false

namespace DeltaStream

inductive RecoveryPlan where
  | replay (packets : List Packet)
  | snapshot (packet : Packet)
  deriving DecidableEq

/-- The packets of a plan, in the order they are published. -/
def RecoveryPlan.packets : RecoveryPlan → List Packet
  | .replay ps => ps
  | .snapshot p => [p]

structure RecoveryHistory where
  packets : List Packet
  maxPackets : Nat
  maxBytes : Nat
  bytes : Nat
  deriving DecidableEq

namespace RecoveryHistory

def new (maxPackets maxBytes : Nat) : RecoveryHistory :=
  ⟨[], max maxPackets 1, max maxBytes 1, 0⟩

def default : RecoveryHistory := new 256 (8 * 1024 * 1024)

/-- The eviction loop: the packets kept and their bytes. -/
def evict (maxPackets maxBytes : Nat) : List Packet → Nat → List Packet × Nat
  | [], bytes => ([], bytes)
  | old :: rest, bytes =>
    if rest.length + 1 > maxPackets ∨ bytes > maxBytes then
      evict maxPackets maxBytes rest (bytes - old.encodedLen)
    else (old :: rest, bytes)

def record (h : RecoveryHistory) (packet : Packet) : RecoveryHistory :=
  let kept := evict h.maxPackets h.maxBytes (h.packets ++ [packet])
    (saturatingAdd h.bytes packet.encodedLen)
  { h with packets := kept.1, bytes := kept.2 }

/-- `u64::saturating_sub(1)`. -/
def prior (n : UInt64) : UInt64 := UInt64.ofNat (n.toNat - 1)

/-- The loop over the replay: the sequence expected next and the bytes so far, unless the chain
    breaks. -/
def checkChain (expected : UInt64) (bytes : Nat) : List Packet → Option (UInt64 × Nat)
  | [] => some (expected, bytes)
  | packet :: rest =>
    if packet.sequence ≠ expected ∨ packet.baseSequence ≠ prior expected then none
    else checkChain (nextSequence expected) (saturatingAdd bytes packet.encodedLen) rest

/-- The retained packets after the local sequence, up to the snapshot's. -/
def retained (h : RecoveryHistory) (first last : UInt64) : List Packet :=
  h.packets.filter fun p => decide (first ≤ p.sequence ∧ p.sequence ≤ last)

def plan (h : RecoveryHistory) (localSequence : Option UInt64) (snapshot : Packet) :
    Except DeltaError RecoveryPlan :=
  match localSequence with
  | none => .ok (.snapshot snapshot)
  | some localSeq =>
    if snapshot.sequence ≤ localSeq then .ok (.snapshot snapshot)
    else if localSeq.toNat = U64_MAX then .error (.invalidState "sequence exhausted")
    else
      let requiredFirst := localSeq + 1
      let replay := h.retained requiredFirst snapshot.sequence
      if replay.isEmpty then .ok (.snapshot snapshot)
      else
        match checkChain requiredFirst 0 replay with
        | none => .ok (.snapshot snapshot)
        | some (expected, bytes) =>
          if prior expected ≠ snapshot.sequence ∨ bytes ≥ snapshot.encodedLen then
            .ok (.snapshot snapshot)
          else .ok (.replay replay)

/-! ## The chain -/

/-- Packets numbered `n`, `n + 1`, ..., each based on the one before. -/
def Chain : Nat → List Packet → Prop
  | _, [] => True
  | n, p :: ps => p.sequence.toNat = n ∧ p.baseSequence.toNat + 1 = n ∧ Chain (n + 1) ps

theorem Chain.get {n : Nat} {ps : List Packet} (h : Chain n ps) {i : Nat} {p : Packet}
    (hi : ps[i]? = some p) : p.sequence.toNat = n + i ∧ p.baseSequence.toNat + 1 = n + i := by
  induction ps generalizing n i with
  | nil => cases hi
  | cons q qs ih =>
    obtain ⟨hseq, hbase, hrest⟩ := h
    cases i with
    | zero =>
      cases hi
      exact ⟨hseq, hbase⟩
    | succ i =>
      obtain ⟨h1, h2⟩ := ih hrest hi
      exact ⟨by omega, by omega⟩

def totalLen (ps : List Packet) : Nat := (ps.map Packet.encodedLen).sum

@[simp] theorem totalLen_cons (p : Packet) (ps : List Packet) :
    totalLen (p :: ps) = p.encodedLen + totalLen ps := by
  simp [totalLen]

theorem toNat_prior (n : UInt64) : (prior n).toNat = n.toNat - 1 := by
  have hlt := n.toNat_lt
  unfold prior
  rw [UInt64.toNat_ofNat']
  omega

/-- The loop accepts chains below the last number, and adds up their bytes. -/
theorem checkChain_chain : ∀ {ps : List Packet} {expected : UInt64} {bytes : Nat},
    1 ≤ expected.toNat → expected.toNat + ps.length ≤ U64_MAX →
    Chain expected.toNat ps → bytes + totalLen ps < U64_MAX →
    ∃ e, checkChain expected bytes ps = some (e, bytes + totalLen ps) ∧
      e.toNat = expected.toNat + ps.length
  | [], expected, bytes, _, _, _, _ => ⟨expected, rfl, rfl⟩
  | p :: ps, expected, bytes, hpos, hmax, ⟨hseq, hbase, hrest⟩, hbytes => by
    rw [List.length_cons] at hmax
    rw [totalLen_cons] at hbytes
    have hsum : saturatingAdd bytes p.encodedLen = bytes + p.encodedLen := by
      unfold saturatingAdd
      omega
    have hnext : (nextSequence expected).toNat = expected.toNat + 1 := toNat_nextSequence (by omega)
    have hs : p.sequence = expected := UInt64.toNat_inj.mp hseq
    have hb : p.baseSequence = prior expected := by
      apply UInt64.toNat_inj.mp
      rw [toNat_prior]
      omega
    obtain ⟨e, he, hen⟩ := @checkChain_chain ps (nextSequence expected) (bytes + p.encodedLen)
      (by omega) (by omega) (by rw [hnext]; exact hrest) (by omega)
    refine ⟨e, ?_, ?_⟩
    · unfold checkChain
      rw [if_neg (by simp [hs, hb]), hsum, he, totalLen_cons]
      simp only [Nat.add_assoc]
    · rw [hen, hnext, List.length_cons]
      omega

/-- What the loop accepts is a chain, or runs into the last number there is. -/
theorem chain_of_checkChain : ∀ {ps : List Packet} {expected e : UInt64} {bytes total : Nat},
    1 ≤ expected.toNat → checkChain expected bytes ps = some (e, total) →
    (Chain expected.toNat ps ∧ e.toNat = expected.toNat + ps.length ∧
        (total < U64_MAX → total = bytes + totalLen ps)) ∨
      (e.toNat = U64_MAX ∧ ∃ p ∈ ps, p.sequence.toNat = U64_MAX)
  | [], expected, e, bytes, total, _, h => by
    cases h
    exact .inl ⟨trivial, rfl, fun _ => rfl⟩
  | p :: ps, expected, e, bytes, total, hpos, h => by
    unfold checkChain at h
    split at h
    · cases h
    rename_i hlink
    obtain ⟨hs, hb⟩ := not_or.mp hlink
    have hs := Decidable.not_not.mp hs
    have hb := Decidable.not_not.mp hb
    have hexp : expected.toNat ≤ U64_MAX := toNat_le_max expected
    by_cases hlast : expected.toNat = U64_MAX
    · -- the expected number stays at the last one
      have hnext := nextSequence_max hlast
      rw [hnext] at h
      rcases chain_of_checkChain hpos h with ⟨-, he, -⟩ | ⟨he, -⟩
      · refine .inr ⟨?_, p, List.mem_cons_self, by rw [hs, hlast]⟩
        have := toNat_le_max e
        have hmax : U64_MAX = 2 ^ 64 - 1 := rfl
        omega
      · exact .inr ⟨he, p, List.mem_cons_self, by rw [hs, hlast]⟩
    · have hnext : (nextSequence expected).toNat = expected.toNat + 1 :=
        toNat_nextSequence (by omega)
      rcases chain_of_checkChain (by omega) h with ⟨hchain, he, hbytes⟩ | ⟨he, q, hq, hqmax⟩
      · left
        rw [hnext] at hchain he
        have hbase : p.baseSequence.toNat + 1 = expected.toNat := by
          rw [hb, toNat_prior]
          omega
        refine ⟨⟨by rw [hs], hbase, hchain⟩, by rw [he, List.length_cons]; omega, ?_⟩
        intro htotal
        have hsum := hbytes htotal
        rw [hsum, totalLen_cons]
        unfold saturatingAdd at hsum ⊢
        omega
      · exact .inr ⟨he, q, List.mem_cons_of_mem _ hq, hqmax⟩

/-! ## Plans -/

/-- The retained packets form the full chain from the local sequence to the snapshot. -/
def FullChain (h : RecoveryHistory) (localSeq : UInt64) (snapshot : Packet) : Prop :=
  Chain (localSeq.toNat + 1) (h.retained (localSeq + 1) snapshot.sequence) ∧
    localSeq.toNat + (h.retained (localSeq + 1) snapshot.sequence).length =
      snapshot.sequence.toNat

theorem toNat_succ {n m : UInt64} (h : n < m) : (n + 1).toNat = n.toNat + 1 := by
  have hlt := UInt64.lt_iff_toNat_lt.mp h
  have := m.toNat_lt
  have h1 : (1 : UInt64).toNat = 1 := rfl
  rw [UInt64.toNat_add]
  omega

theorem retained_mem {h : RecoveryHistory} {first last : UInt64} {p : Packet}
    (hp : p ∈ h.retained first last) : p ∈ h.packets ∧ first ≤ p.sequence ∧ p.sequence ≤ last := by
  unfold retained at hp
  rw [List.mem_filter, decide_eq_true_eq] at hp
  exact hp

/-- **A plan** is the snapshot, or the replay of a full chain below the last number, smaller
    than the snapshot. -/
theorem plan_cases (h : RecoveryHistory) (localSeq : UInt64) (snapshot : Packet) :
    h.plan (some localSeq) snapshot = .ok (.snapshot snapshot) ∨
      (h.plan (some localSeq) snapshot =
          .ok (.replay (h.retained (localSeq + 1) snapshot.sequence)) ∧
        localSeq < snapshot.sequence ∧ snapshot.sequence.toNat < U64_MAX ∧
        h.FullChain localSeq snapshot ∧ (snapshot.encodedLen ≤ U64_MAX →
          totalLen (h.retained (localSeq + 1) snapshot.sequence) < snapshot.encodedLen)) := by
  have hmax : U64_MAX = 2 ^ 64 - 1 := rfl
  unfold plan
  simp only
  split
  · exact .inl rfl
  rename_i hle
  have hlt : localSeq < snapshot.sequence := UInt64.not_le.mp hle
  have hnat := UInt64.lt_iff_toNat_lt.mp hlt
  have hsnap := snapshot.sequence.toNat_lt
  rw [if_neg (by omega)]
  split
  · exact .inl rfl
  split
  · exact .inl rfl
  · rename_i e bytes hchk
    split
    · exact .inl rfl
    rename_i hend
    obtain ⟨hprior, hbytes⟩ := not_or.mp hend
    have hprior := congrArg UInt64.toNat (Decidable.not_not.mp hprior)
    rw [toNat_prior] at hprior
    have he64 := e.toNat_lt
    have hfirst := toNat_succ hlt
    have hcheck := chain_of_checkChain (by omega) hchk
    rcases hcheck with ⟨hchain, he, htotal⟩ | ⟨he, p, hp, hpmax⟩
    · rw [hfirst] at hchain he
      refine .inr ⟨rfl, hlt, by omega, ⟨hchain, by omega⟩, ?_⟩
      intro hsize
      have := htotal (by omega)
      omega
    · have hple := UInt64.le_iff_toNat_le.mp (retained_mem hp).2.2
      omega

/-- **And the replay it is**, when there is such a chain below the last number. -/
theorem plan_replay {h : RecoveryHistory} {localSeq : UInt64} {snapshot : Packet}
    (hlt : localSeq < snapshot.sequence) (hlast : snapshot.sequence.toNat < U64_MAX)
    (hsize : snapshot.encodedLen ≤ U64_MAX) (hfull : h.FullChain localSeq snapshot)
    (htotal : totalLen (h.retained (localSeq + 1) snapshot.sequence) < snapshot.encodedLen) :
    h.plan (some localSeq) snapshot =
      .ok (.replay (h.retained (localSeq + 1) snapshot.sequence)) := by
  have hnat := UInt64.lt_iff_toNat_lt.mp hlt
  have hfirst := toNat_succ hlt
  obtain ⟨hchain, hlen⟩ := hfull
  have hroom : (localSeq + 1).toNat + (h.retained (localSeq + 1) snapshot.sequence).length ≤
      U64_MAX := by omega
  have hbytes : 0 + totalLen (h.retained (localSeq + 1) snapshot.sequence) < U64_MAX := by omega
  rw [← hfirst] at hchain
  obtain ⟨e, hchk, he⟩ := checkChain_chain (by omega) hroom hchain hbytes
  have hne : (h.retained (localSeq + 1) snapshot.sequence).isEmpty = false := by
    cases hr : h.retained (localSeq + 1) snapshot.sequence with
    | nil =>
      rw [hr] at hlen
      simp only [List.length_nil] at hlen
      omega
    | cons p ps => rfl
  have hend : prior e = snapshot.sequence := by
    apply UInt64.toNat_inj.mp
    rw [toNat_prior]
    omega
  unfold plan
  simp only
  rw [if_neg (UInt64.not_le.mpr hlt), if_neg (by omega), hne, if_neg (by simp), hchk]
  simp only
  rw [if_neg (by rw [hend]; simp; omega)]

/-- A plan has no packets but the snapshot and retained ones. -/
theorem plan_mem {h : RecoveryHistory} {localSequence : Option UInt64} {snapshot : Packet}
    {plan : RecoveryPlan} (hplan : h.plan localSequence snapshot = .ok plan) :
    ∀ p ∈ plan.packets, p = snapshot ∨ p ∈ h.packets := by
  cases localSequence with
  | none =>
    cases hplan
    exact fun p hp => .inl (List.mem_singleton.mp hp)
  | some localSeq =>
    rcases h.plan_cases localSeq snapshot with hs | ⟨hr, -⟩
    · rw [hs] at hplan
      cases hplan
      exact fun p hp => .inl (List.mem_singleton.mp hp)
    · rw [hr] at hplan
      cases hplan
      exact fun p hp => .inr (retained_mem hp).1

/-! ## Recording -/

theorem evict_subset (maxPackets maxBytes : Nat) : ∀ (ps : List Packet) (bytes : Nat),
    ∀ p ∈ (evict maxPackets maxBytes ps bytes).1, p ∈ ps
  | [], _, _, h => h
  | old :: rest, bytes, p, h => by
    unfold evict at h
    split at h
    · exact List.mem_cons_of_mem _ (evict_subset maxPackets maxBytes rest _ p h)
    · exact h

/-- Recording keeps nothing but old packets and the new one. -/
theorem record_mem {h : RecoveryHistory} {packet p : Packet}
    (hp : p ∈ (h.record packet).packets) : p ∈ h.packets ∨ p = packet := by
  have hp := evict_subset _ _ _ _ p hp
  rcases List.mem_append.mp hp with hp | hp
  · exact .inl hp
  · exact .inr (List.mem_singleton.mp hp)

/-! ## The budget -/

/-- Within both limits. -/
def Fits (maxPackets maxBytes : Nat) (ps : List Packet) : Prop :=
  ps.length ≤ maxPackets ∧ totalLen ps ≤ maxBytes

instance decidableFits (maxPackets maxBytes : Nat) : DecidablePred (Fits maxPackets maxBytes) :=
  fun ps => inferInstanceAs (Decidable (ps.length ≤ maxPackets ∧ totalLen ps ≤ maxBytes))

theorem totalLen_sublist {ps qs : List Packet} (h : ps.Sublist qs) : totalLen ps ≤ totalLen qs := by
  induction h with
  | slnil => exact Nat.le_refl _
  | cons p _ ih =>
    rw [totalLen_cons]
    omega
  | cons_cons p _ ih =>
    rw [totalLen_cons, totalLen_cons]
    omega

theorem Fits.sublist {maxPackets maxBytes : Nat} {ps qs : List Packet} (hsub : ps.Sublist qs)
    (h : Fits maxPackets maxBytes qs) : Fits maxPackets maxBytes ps :=
  ⟨Nat.le_trans hsub.length_le h.1, Nat.le_trans (totalLen_sublist hsub) h.2⟩

/-- The eviction loop trims, and its counter stays the total. -/
theorem evict_eq_trim (maxPackets maxBytes : Nat) : ∀ ps : List Packet,
    evict maxPackets maxBytes ps (totalLen ps) =
      (Suffix.trim (Fits maxPackets maxBytes) ps,
        totalLen (Suffix.trim (Fits maxPackets maxBytes) ps))
  | [] => rfl
  | old :: rest => by
    unfold evict Suffix.trim
    by_cases hfits : Fits maxPackets maxBytes (old :: rest)
    · have hcount := hfits.1
      have hbytes := hfits.2
      rw [List.length_cons] at hcount
      rw [if_pos hfits, if_neg (by omega)]
    · have hover : rest.length + 1 > maxPackets ∨ totalLen (old :: rest) > maxBytes := by
        unfold Fits at hfits
        rw [List.length_cons] at hfits
        omega
      have hless : totalLen (old :: rest) - old.encodedLen = totalLen rest := by
        rw [totalLen_cons]
        omega
      rw [if_neg hfits, if_pos hover, hless]
      exact evict_eq_trim maxPackets maxBytes rest

/-- What the history is after recording `ps`. -/
structure Retains (maxPackets maxBytes : Nat) (ps : List Packet) (h : RecoveryHistory) : Prop where
  limits : h.maxPackets = maxPackets ∧ h.maxBytes = maxBytes
  longest : Suffix.IsLongest (Fits maxPackets maxBytes) ps h.packets
  bytes : h.bytes = totalLen h.packets

theorem Retains.record {maxPackets maxBytes : Nat} {ps : List Packet} {h : RecoveryHistory}
    (hr : Retains maxPackets maxBytes ps h) {packet : Packet}
    (htotal : totalLen (ps ++ [packet]) ≤ USIZE_MAX) :
    Retains maxPackets maxBytes (ps ++ [packet]) (h.record packet) := by
  obtain ⟨⟨hpackets, hbytes⟩, hlongest, hcount⟩ := hr
  have happend : ∀ qs, totalLen (qs ++ [packet]) = totalLen qs + packet.encodedLen := by
    intro qs
    simp [totalLen]
  -- the retained packets are some of the recorded ones, so the counter does not saturate
  have hretained := totalLen_sublist hlongest.suffix.sublist
  have hsum : saturatingAdd h.bytes packet.encodedLen = totalLen (h.packets ++ [packet]) := by
    rw [happend] at htotal ⊢
    unfold saturatingAdd
    have hmax : USIZE_MAX = U64_MAX := rfl
    omega
  have hevict := evict_eq_trim maxPackets maxBytes (h.packets ++ [packet])
  unfold RecoveryHistory.record
  rw [hpackets, hbytes, hsum, hevict]
  have hnil : Fits maxPackets maxBytes [] := ⟨Nat.zero_le _, Nat.zero_le _⟩
  refine ⟨⟨rfl, rfl⟩, ?_, rfl⟩
  exact hlongest.snoc (fun _ _ => Fits.sublist) (Suffix.trim_isLongest hnil _)

theorem Retains.recordAll {maxPackets maxBytes : Nat} : ∀ {qs ps : List Packet}
    {h : RecoveryHistory}, Retains maxPackets maxBytes ps h → totalLen (ps ++ qs) ≤ USIZE_MAX →
      Retains maxPackets maxBytes (ps ++ qs) (qs.foldl RecoveryHistory.record h)
  | [], ps, h, hr, _ => by
    rw [List.append_nil]
    exact hr
  | q :: qs, ps, h, hr, htotal => by
    rw [List.append_cons] at htotal ⊢
    have hpart := totalLen_sublist (List.sublist_append_left (ps ++ [q]) qs)
    exact (hr.record (Nat.le_trans hpart htotal)).recordAll htotal

/-- **The history keeps the longest affordable suffix** of everything recorded, whatever was
    evicted before, and its counter is the suffix's total. -/
theorem record_keeps_longest (maxPackets maxBytes : Nat) (ps : List Packet)
    (htotal : totalLen ps < USIZE_MAX) :
    Suffix.IsLongest (Fits (max maxPackets 1) (max maxBytes 1)) ps
        (ps.foldl record (new maxPackets maxBytes)).packets ∧
      (ps.foldl record (new maxPackets maxBytes)).bytes =
        totalLen (ps.foldl record (new maxPackets maxBytes)).packets := by
  have hstart : Retains (max maxPackets 1) (max maxBytes 1) [] (new maxPackets maxBytes) :=
    ⟨⟨rfl, rfl⟩, ⟨List.suffix_refl _, ⟨Nat.zero_le _, Nat.zero_le _⟩, fun t ht _ => ht.length_le⟩,
      rfl⟩
  have hend := hstart.recordAll (Nat.le_of_lt htotal)
  exact ⟨hend.longest, hend.bytes⟩

/-- Three packets where the bytes of two are affordable. -/
theorem record_keeps_longest_two : Suffix.IsLongest (Fits 5 100)
    [.snapshot 1 0 0 [1], .snapshot 2 0 0 [2], .snapshot 3 0 0 [3]]
    [.snapshot 2 0 0 [2], .snapshot 3 0 0 [3]] :=
  (record_keeps_longest 5 100 [.snapshot 1 0 0 [1], .snapshot 2 0 0 [2], .snapshot 3 0 0 [3]]
    (by decide)).1

end RecoveryHistory

end DeltaStream
