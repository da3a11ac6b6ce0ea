import DeltaStream.Adaptive
import DeltaStream.Lib.FirstMin
import Mathlib.Order.Lattice.Nat

/-!
# What adaptive selection chooses

`AdaptivePolicy.select` compares up to four packets, `select_initial` up to two; a packet replaces
the best one so far when it scores strictly less.

* `select_first`, `selectInitial_first` — both return the first cheapest of the packets that may be
  compared;
* `adaptive_choice` — so what they return scores at most as much as every eligible packet, is a copy
  of its input, is never longer than the raw snapshot, and is what the decision says.
-/

set_option autoImplicit false

namespace DeltaStream

open FirstMin

/-- The mode a packet is sent under. -/
def EncodeMode.of (p : Packet) : EncodeMode :=
  match p.kind, p.isCompressed with
  | .snapshot, false => .snapshot
  | .snapshot, true => .snapshotZstd
  | .delta, false => .delta
  | .delta, true => .deltaZstd

/-- One logical payload: the same bytes under every limit, or refused by both. -/
def Packet.SamePayload (X : Crates) (p q : Packet) : Prop :=
  ∀ config, (p.logicalPayloadWithConfig X config).toOption =
    (q.logicalPayloadWithConfig X config).toOption

theorem Packet.CopyOf.samePayload {X : Crates} {raw p : Packet} (hX : X.ZstdExact)
    (hraw : raw.isCompressed = false) (h : CopyOf X raw p) : SamePayload X p raw := by
  intro config
  have hself : CopyOf X raw raw := .inl rfl
  rw [h.payload_toOption hX hraw, hself.payload_toOption hX hraw]

namespace AdaptivePolicy

variable (X : Crates) (policy : AdaptivePolicy)

/-- The packets that may be chosen: the snapshot, and the delta where there is one that passes the
    ratio and the minimum savings, each raw or as its zstd candidate. -/
inductive Eligible (snapshot : Packet) (delta : Option Packet) : Packet → Prop where
  | snapshot : Eligible snapshot delta snapshot
  | snapshotZstd {q : Packet} (h : policy.candidate X snapshot = .ok q) : Eligible snapshot delta q
  | delta {d : Packet} (hd : delta = some d)
      (hgate : policy.deltaAllowed snapshot.encodedLen d.encodedLen = true) :
      Eligible snapshot delta d
  | deltaZstd {d q : Packet} (hd : delta = some d)
      (hgate : policy.deltaAllowed snapshot.encodedLen d.encodedLen = true)
      (h : policy.candidate X d = .ok q) : Eligible snapshot delta q

/-- What is promised about the packet returned and the decision. -/
structure Chosen (snapshot : Packet) (delta : Option Packet) (p : Packet)
    (decision : EncodeDecision) : Prop where
  eligible : policy.Eligible X snapshot delta p
  cheapest : ∀ q, policy.Eligible X snapshot delta q → policy.score p ≤ policy.score q
  length : p.encodedLen ≤ snapshot.encodedLen
  gates : p.kind = .delta →
    ∃ d, delta = some d ∧ policy.deltaAllowed snapshot.encodedLen d.encodedLen = true
  source : ∃ raw, (raw = snapshot ∨ delta = some raw) ∧ p.SameHeader raw ∧ p.SamePayload X raw
  mode : decision.mode = .of p
  selectedBytes : decision.selectedBytes = p.encodedLen

/-- The error says that compressing one of the packets failed. -/
def CompressionFails (packets : List Packet) (e : DeltaError) : Prop :=
  ∃ raw ∈ packets, ∃ msg, X.compress raw.payload policy.zstdLevel = .error msg ∧
    e = .compression msg

/-- The zstd candidate, where it is one. -/
def zstdCopy (q : Packet) : List Packet :=
  if policy.enableZstd && q.isCompressed then [q] else []

variable {X policy}

theorem candidate_cases {packet q : Packet} (h : policy.candidate X packet = .ok q) :
    q = packet ∨ q ∈ policy.zstdCopy q := by
  unfold candidate at h
  split at h
  · rename_i henable
    refine (Packet.zstdCandidate_cases h).imp_right fun hc => ?_
    simp [zstdCopy, henable, hc.isCompressed]
  · cases h
    exact .inl rfl

theorem mem_zstdCopy {q r : Packet} (h : r ∈ policy.zstdCopy q) : r = q := by
  unfold zstdCopy at h
  split at h
  · exact List.mem_singleton.mp h
  · cases h

theorem offer_pick (allowed : Bool) (packet : Packet) (mode : EncodeMode)
    (best : Packet × EncodeMode) :
    (policy.offer allowed packet mode best).1 =
      pick policy.score best.1 (if allowed then [packet] else []) := by
  unfold offer
  cases allowed with
  | false => rfl
  | true =>
    simp only [Bool.true_and, decide_eq_true_eq, if_true, pick]
    split <;> rfl

theorem offer_mode {allowed : Bool} {packet : Packet} {mode : EncodeMode}
    {best : Packet × EncodeMode} (hpacket : allowed = true → mode = .of packet)
    (hbest : best.2 = .of best.1) :
    (policy.offer allowed packet mode best).2 = .of (policy.offer allowed packet mode best).1 := by
  unfold offer
  split
  · rename_i h
    exact hpacket (Bool.and_eq_true_iff.mp h).1
  · exact hbest

theorem candidate_error {packet : Packet} {e : DeltaError}
    (h : policy.candidate X packet = .error e) :
    ∃ msg, X.compress packet.payload policy.zstdLevel = .error msg ∧ e = .compression msg := by
  unfold candidate at h
  split at h
  · exact Packet.zstdCandidate_error h
  · cases h

/-- A candidate that is offered is a compressed copy, so its mode is the compressed one. -/
theorem candidate_mode {packet q : Packet} (h : policy.candidate X packet = .ok q)
    (hq : q.isCompressed = true) :
    EncodeMode.of q = match packet.kind with
      | .snapshot => .snapshotZstd
      | .delta => .deltaZstd := by
  have hkind := (candidate_copy h).header.kind
  unfold EncodeMode.of
  rw [hkind, hq]
  cases packet.kind <;> rfl

/-! ## The first cheapest -/

theorem selectInitial_first {snapshot p : Packet} {decision : EncodeDecision}
    (hkind : snapshot.kind = .snapshot) (hraw : snapshot.isCompressed = false)
    (h : policy.selectInitial X snapshot = .ok (p, decision)) :
    ∃ sz, policy.candidate X snapshot = .ok sz ∧
      p = pick policy.score snapshot (policy.zstdCopy sz) ∧ decision.mode = .of p ∧
      decision.selectedBytes = p.encodedLen := by
  unfold selectInitial at h
  split at h
  · cases h
  rename_i sz hsz
  refine ⟨sz, hsz, ?_⟩
  unfold zstdCopy
  split at h
  · rename_i huse
    simp only [Bool.and_eq_true, decide_eq_true_eq] at huse
    cases h
    simp [huse, pick, candidate_mode hsz huse.1.2, hkind, EncodeDecision.initial]
  · rename_i hnot
    simp only [Bool.and_eq_true, decide_eq_true_eq, not_and] at hnot
    cases h
    have hp : pick policy.score snapshot
        (if policy.enableZstd && sz.isCompressed then [sz] else []) = snapshot := by
      split
      · rename_i hz
        rw [Bool.and_eq_true] at hz
        simp [pick, hnot hz]
      · rfl
    exact ⟨hp.symm, by simp [EncodeMode.of, hkind, hraw, EncodeDecision.initial], rfl⟩

theorem select_first {snapshot delta p : Packet} {decision : EncodeDecision}
    (hskind : snapshot.kind = .snapshot) (hsraw : snapshot.isCompressed = false)
    (hdkind : delta.kind = .delta) (hdraw : delta.isCompressed = false)
    (h : policy.select X snapshot delta = .ok (p, decision)) :
    ∃ sz dz, policy.candidate X snapshot = .ok sz ∧ policy.candidate X delta = .ok dz ∧
      p = pick policy.score snapshot (policy.zstdCopy sz ++
        if policy.deltaAllowed snapshot.encodedLen delta.encodedLen then
          delta :: policy.zstdCopy dz else []) ∧
      decision.mode = .of p ∧ decision.selectedBytes = p.encodedLen := by
  unfold select at h
  simp only at h
  split at h
  · cases h
  rename_i sz hsz
  split at h
  · cases h
  rename_i dz hdz
  cases h
  refine ⟨sz, dz, hsz, hdz, ?_, ?_, rfl⟩
  · simp only [offer_pick, ← pick_append]
    congr 1
    unfold zstdCopy
    cases policy.deltaAllowed snapshot.encodedLen delta.encodedLen
    · simp
    · simp
  · apply offer_mode
    · intro ha
      rw [Bool.and_eq_true] at ha
      rw [candidate_mode hdz ha.2, hdkind]
    apply offer_mode
    · intro _
      simp [EncodeMode.of, hdkind, hdraw]
    apply offer_mode
    · intro ha
      rw [Bool.and_eq_true] at ha
      rw [candidate_mode hsz ha.2, hskind]
    · simp [EncodeMode.of, hskind, hsraw]

/-! ## What is promised -/

theorem Eligible.copy {snapshot p : Packet} {delta : Option Packet}
    (h : policy.Eligible X snapshot delta p) :
    ∃ raw, (raw = snapshot ∨ (delta = some raw ∧
      policy.deltaAllowed snapshot.encodedLen raw.encodedLen = true)) ∧ Packet.CopyOf X raw p := by
  cases h with
  | snapshot => exact ⟨snapshot, .inl rfl, .inl rfl⟩
  | snapshotZstd h => exact ⟨snapshot, .inl rfl, candidate_copy h⟩
  | delta hd hgate => exact ⟨p, .inr ⟨hd, hgate⟩, .inl rfl⟩
  | deltaZstd hd hgate h => exact ⟨_, .inr ⟨hd, hgate⟩, candidate_copy h⟩

/-- The first cheapest packet is never longer than a raw first one: if it is another packet, its
    score is below the raw length, so the saturating sum did not saturate. -/
theorem pick_length {snapshot : Packet} (hraw : snapshot.isCompressed = false)
    (rivals : List Packet) :
    (pick policy.score snapshot rivals).encodedLen ≤ snapshot.encodedLen := by
  rcases pick_eq_or_lt policy.score snapshot rivals with heq | hlt
  · rw [heq]
  · simp only [score, saturatingAdd, hraw, Bool.false_eq_true, if_false] at hlt
    omega

theorem Chosen.of_pick {snapshot p : Packet} {delta : Option Packet} {decision : EncodeDecision}
    {rivals : List Packet} (hX : X.ZstdExact) (hskind : snapshot.kind = .snapshot)
    (hsraw : snapshot.isCompressed = false) (hdraw : ∀ d, delta = some d → d.isCompressed = false)
    (hsound : ∀ q ∈ rivals, policy.Eligible X snapshot delta q)
    (hcomplete : ∀ q, policy.Eligible X snapshot delta q → q ∈ snapshot :: rivals)
    (hp : p = pick policy.score snapshot rivals) (hmode : decision.mode = .of p)
    (hselected : decision.selectedBytes = p.encodedLen) :
    policy.Chosen X snapshot delta p decision := by
  have hmin := pick_isFirstMin policy.score snapshot rivals
  rw [← hp] at hmin
  have heligible : policy.Eligible X snapshot delta p := by
    rcases List.mem_cons.mp hmin.mem with rfl | hmem
    · exact .snapshot
    · exact hsound p hmem
  obtain ⟨raw, hfrom, hcopy⟩ := heligible.copy
  refine ⟨heligible, fun q hq => hmin.le (hcomplete q hq), ?_, ?_, ?_, hmode, hselected⟩
  · rw [hp]
    exact pick_length hsraw rivals
  · intro hkind
    rcases hfrom with rfl | hd
    · rw [hcopy.header.kind, hskind] at hkind
      cases hkind
    · exact ⟨raw, hd⟩
  · rcases hfrom with rfl | hd
    · exact ⟨raw, .inl rfl, hcopy.header, hcopy.samePayload hX hsraw⟩
    · exact ⟨raw, .inr hd.1, hcopy.header, hcopy.samePayload hX (hdraw raw hd.1)⟩

/-- What a selection promises: a packet as above, unless compression fails. -/
def Promise (X : Crates) (policy : AdaptivePolicy) (snapshot : Packet) (delta : Option Packet) :
    Except DeltaError (Packet × EncodeDecision) → Prop
  | .ok (p, decision) => policy.Chosen X snapshot delta p decision
  | .error e => policy.CompressionFails X (snapshot :: delta.toList) e

theorem selectInitial_promise (hX : X.ZstdExact) {snapshot : Packet}
    (hkind : snapshot.kind = .snapshot) (hraw : snapshot.isCompressed = false) :
    policy.Promise X snapshot none (policy.selectInitial X snapshot) := by
  cases h : policy.selectInitial X snapshot with
  | error e =>
    unfold selectInitial at h
    split at h
    · rename_i e' he
      cases h
      exact ⟨snapshot, List.mem_cons_self, candidate_error he⟩
    · split at h
      · cases h
      · cases h
  | ok result =>
    obtain ⟨p, decision⟩ := result
    obtain ⟨sz, hsz, hp, hmode, hselected⟩ := selectInitial_first hkind hraw h
    apply Chosen.of_pick hX hkind hraw (by simp) ?_ ?_ hp hmode hselected
    · intro q hq
      rw [mem_zstdCopy hq]
      exact .snapshotZstd hsz
    · intro q hq
      cases hq with
      | snapshot => exact List.mem_cons_self
      | snapshotZstd h =>
        cases hsz.symm.trans h
        exact List.mem_cons.mpr (candidate_cases hsz)
      | delta hd => cases hd
      | deltaZstd hd => cases hd

theorem select_promise (hX : X.ZstdExact) {snapshot delta : Packet}
    (hskind : snapshot.kind = .snapshot) (hsraw : snapshot.isCompressed = false)
    (hdkind : delta.kind = .delta) (hdraw : delta.isCompressed = false) :
    policy.Promise X snapshot (some delta) (policy.select X snapshot delta) := by
  cases h : policy.select X snapshot delta with
  | error e =>
    unfold select at h
    simp only at h
    split at h
    · rename_i e' he
      cases h
      exact ⟨snapshot, by simp, candidate_error he⟩
    split at h
    · rename_i e' he
      cases h
      exact ⟨delta, by simp, candidate_error he⟩
    · cases h
  | ok result =>
    obtain ⟨p, decision⟩ := result
    obtain ⟨sz, dz, hsz, hdz, hp, hmode, hselected⟩ := select_first hskind hsraw hdkind hdraw h
    apply Chosen.of_pick hX hskind hsraw ?_ ?_ ?_ hp hmode hselected
    · intro d hd
      cases hd
      exact hdraw
    · intro q hq
      rcases List.mem_append.mp hq with hq | hq
      · rw [mem_zstdCopy hq]
        exact .snapshotZstd hsz
      split at hq
      · rename_i hgate
        rcases List.mem_cons.mp hq with rfl | hq
        · exact .delta rfl hgate
        · rw [mem_zstdCopy hq]
          exact .deltaZstd rfl hgate hdz
      · cases hq
    · intro q hq
      cases hq with
      | snapshot => exact List.mem_cons_self
      | snapshotZstd h =>
        cases hsz.symm.trans h
        rcases candidate_cases hsz with rfl | hz
        · exact List.mem_cons_self
        · exact List.mem_cons_of_mem _ (List.mem_append_left _ hz)
      | delta hd hgate =>
        cases hd
        simp [hgate]
      | deltaZstd hd hgate h =>
        cases hd
        cases hdz.symm.trans h
        rw [if_pos hgate]
        exact List.mem_cons_of_mem _
          (List.mem_append_right _ (List.mem_cons.mpr (candidate_cases hdz)))

end AdaptivePolicy

/-- **Adaptive selection** returns the cheapest of the packets that may be chosen, for every policy
    and every pair of uncompressed packets; without a delta likewise. -/
theorem adaptive_choice (X : Crates) (policy : AdaptivePolicy) (snapshot : Packet)
    (hX : X.ZstdExact) (hskind : snapshot.kind = .snapshot)
    (hsraw : snapshot.isCompressed = false) :
    policy.Promise X snapshot none (policy.selectInitial X snapshot) ∧
      ∀ delta : Packet, delta.kind = .delta → delta.isCompressed = false →
        policy.Promise X snapshot (some delta) (policy.select X snapshot delta) :=
  ⟨AdaptivePolicy.selectInitial_promise hX hskind hsraw,
    fun _ hdkind hdraw => AdaptivePolicy.select_promise hX hskind hsraw hdkind hdraw⟩

/-- Sixty-four bytes and a three-byte delta. -/
theorem adaptive_choice_delta :
    let policy := AdaptivePolicy.default
    let snapshot := Packet.snapshot 1 5 7 (List.replicate 64 9)
    let delta := Packet.delta 1 0 4 7 [1, 2, 3]
    (policy.select .stored snapshot delta).toOption.map (·.1) = some delta ∧
      policy.Promise .stored snapshot none (policy.selectInitial .stored snapshot) ∧
      policy.Promise .stored snapshot (some delta) (policy.select .stored snapshot delta) := by
  have h := adaptive_choice .stored .default (Packet.snapshot 1 5 7 (List.replicate 64 9))
    Crates.stored_exact rfl (Packet.snapshot_isCompressed ..)
  exact ⟨by decide +kernel, h.1, h.2 (Packet.delta 1 0 4 7 [1, 2, 3]) rfl
    (Packet.delta_isCompressed ..)⟩

end DeltaStream
