import DeltaStream.Lib.FirstMin
import DeltaStream.Packet
import DeltaStream.SmartDelta
import Mathlib.Data.Nat.Basic

/-!
# Choosing the cheapest representation

The two byte encoders (`src/byte_sync.rs`, `src/v30_sync.rs`) share one search: every raw
packet and, when compression is worth trying, its zstd copy is compared with the best packet
so far and replaces it when strictly cheaper.  They differ in what they try (`shouldTry`),
what they learn (`observe`) and how compression is penalised, which are the fields of
`SearchPolicy`.

`offers` lists the packets a search compares, in order.

* `Search.tryDeltas_ok` — a search that does not fail returns the first cheapest of them;
* `offers_mem` — every offer is a raw packet or a compressed copy of one.
-/

set_option autoImplicit false

namespace DeltaStream

open FirstMin

/-- `ByteEncodeMode`; the fast encoder's `V30EncodeMode` has the same variants. -/
inductive ByteEncodeMode where
  | snapshot
  | snapshotZstd
  | delta (kind : SmartDeltaKind)
  | deltaZstd (kind : SmartDeltaKind)
  deriving DecidableEq

abbrev V30EncodeMode := ByteEncodeMode

/-- What a search may use; `σ` is what it learns on the way. -/
structure SearchPolicy (σ : Type) where
  enableZstd : Bool
  zstdLevel : Int
  minSavings : Nat
  /-- score of a compressed packet of this encoded length -/
  penalised : Nat → Nat
  shouldTry : σ → Nat → Bool
  observe : σ → Packet → Packet → σ

/-- Loop state: best packet so far with its mode, candidates counted, what was learned. -/
structure Search (σ : Type) where
  best : Packet
  mode : ByteEncodeMode
  considered : Nat
  learned : σ

variable {σ : Type} (X : Crates) (pol : SearchPolicy σ)

/-- The score a packet is compared by. -/
def SearchPolicy.cost (p : Packet) : Nat :=
  if p.isCompressed then pol.penalised p.encodedLen else p.encodedLen

/-- Compare one packet with the best so far. -/
def Search.offer (p : Packet) (mode : ByteEncodeMode) (s : Search σ) : Search σ :=
  if pol.cost p < pol.cost s.best then { s with best := p, mode := mode } else s

/-- Try the zstd copy of a raw packet.  Errors carry the loop state: what was learned so far
    stays with the encoder. -/
def Search.tryZstd (raw : Packet) (mode : ByteEncodeMode) (s : Search σ) :
    Except (DeltaError × Search σ) (Search σ) :=
  if pol.enableZstd && pol.shouldTry s.learned raw.payload.length then
    match raw.zstdCandidate X pol.zstdLevel pol.minSavings with
    | .error e => .error (e, s)
    | .ok compressed =>
      let s := { s with
        considered := s.considered + 1
        learned := pol.observe s.learned raw compressed }
      .ok (if compressed.isCompressed then s.offer pol compressed mode else s)
  else .ok s

/-- One delta candidate: raw first, then its zstd copy. -/
def Search.tryDelta (raw : Packet) (kind : SmartDeltaKind) (s : Search σ) :
    Except (DeltaError × Search σ) (Search σ) :=
  Search.tryZstd X pol raw (.deltaZstd kind)
    (Search.offer pol raw (.delta kind) { s with considered := s.considered + 1 })

/-- All delta candidates in order. -/
def Search.tryDeltas (raws : List (Packet × SmartDeltaKind)) (s : Search σ) :
    Except (DeltaError × Search σ) (Search σ) :=
  raws.foldlM (fun s raw => Search.tryDelta X pol raw.1 raw.2 s) s

/-! ## The packets a search compares -/

/-- The zstd copy of a raw packet, if one is compared, and what is known afterwards. -/
def zstdOffers (raw : Packet) (l : σ) : List Packet × σ :=
  if pol.enableZstd && pol.shouldTry l raw.payload.length then
    match raw.zstdCandidate X pol.zstdLevel pol.minSavings with
    | .error _ => ([], l)
    | .ok compressed =>
      (if compressed.isCompressed then [compressed] else [], pol.observe l raw compressed)
  else ([], l)

/-- Raw packets, each followed by its zstd copy if one is compared. -/
def offers : List Packet → σ → List Packet
  | [], _ => []
  | raw :: raws, l => raw :: ((zstdOffers X pol raw l).1 ++ offers raws (zstdOffers X pol raw l).2)

variable {X pol}

theorem zstdOffers_mem {raw p : Packet} {l : σ} (h : p ∈ (zstdOffers X pol raw l).1) :
    p = raw ∨ Packet.Compresses X pol.zstdLevel raw p := by
  unfold zstdOffers at h
  split at h
  · split at h
    · cases h
    · rename_i c hc
      simp only at h
      split at h
      · rw [List.mem_singleton.mp h]
        exact Packet.zstdCandidate_cases hc
      · cases h
  · cases h

/-- Every offer is one of the raw packets or a compressed copy of one. -/
theorem offers_mem {p : Packet} : ∀ {raws : List Packet} {l : σ}, p ∈ offers X pol raws l →
    ∃ raw ∈ raws, p = raw ∨ Packet.Compresses X pol.zstdLevel raw p
  | [], _, h => by cases h
  | raw :: raws, l, h => by
    unfold offers at h
    rcases List.mem_cons.mp h with rfl | h
    · exact ⟨p, List.mem_cons_self, .inl rfl⟩
    rcases List.mem_append.mp h with h | h
    · exact ⟨raw, List.mem_cons_self, zstdOffers_mem h⟩
    · obtain ⟨raw', hm, hp⟩ := offers_mem h
      exact ⟨raw', List.mem_cons_of_mem _ hm, hp⟩

/-- While compression stays enabled, a raw packet's zstd copy is among the offers; `ok k` is
    kept by up to `k` observations. -/
theorem compressed_mem_offers {ok : Nat → σ → Prop} {raw q : Packet}
    (hobserve : ∀ k l r c, ok (k + 1) l → ok k (pol.observe l r c))
    (hweaken : ∀ k l, ok (k + 1) l → ok k l) (henable : pol.enableZstd = true)
    (htry : ∀ k l, ok k l → pol.shouldTry l raw.payload.length = true)
    (hz : raw.zstdCandidate X pol.zstdLevel pol.minSavings = .ok q) (hq : q.isCompressed = true) :
    ∀ {raws : List Packet} {l : σ}, ok raws.length l → raw ∈ raws → q ∈ offers X pol raws l
  | [], _, _, hm => absurd hm List.not_mem_nil
  | r :: raws, l, hok, hm => by
    unfold offers
    rcases List.mem_cons.mp hm with rfl | hm
    · have hone : (zstdOffers X pol raw l).1 = [q] := by
        unfold zstdOffers
        simp [henable, htry _ _ hok, hz, hq]
      rw [hone]
      simp
    · have hlearned : ok raws.length (zstdOffers X pol r l).2 := by
        unfold zstdOffers
        split
        · split
          · exact hweaken _ _ hok
          · exact hobserve _ _ _ _ hok
        · exact hweaken _ _ hok
      exact List.mem_cons_of_mem _ (List.mem_append_right _
        (compressed_mem_offers hobserve hweaken henable htry hz hq hlearned hm))

theorem Search.offer_best (p : Packet) (mode : ByteEncodeMode) (s : Search σ) :
    (s.offer pol p mode).best = pick pol.cost s.best [p] := by
  unfold Search.offer
  simp only [pick]
  split <;> rfl

@[simp] theorem Search.offer_learned (p : Packet) (mode : ByteEncodeMode) (s : Search σ) :
    (s.offer pol p mode).learned = s.learned := by
  unfold Search.offer
  split <;> rfl

/-- One zstd attempt compares exactly `zstdOffers`. -/
theorem Search.tryZstd_ok {raw : Packet} {mode : ByteEncodeMode} {s s' : Search σ}
    (h : Search.tryZstd X pol raw mode s = .ok s') :
    s'.best = pick pol.cost s.best (zstdOffers X pol raw s.learned).1 ∧
      s'.learned = (zstdOffers X pol raw s.learned).2 := by
  unfold Search.tryZstd at h
  unfold zstdOffers
  split at h
  · rename_i htry
    rw [if_pos htry]
    split at h
    · cases h
    · rename_i c hc
      cases h
      simp only
      split
      · exact ⟨Search.offer_best _ _ _, Search.offer_learned _ _ _⟩
      · exact ⟨rfl, rfl⟩
  · rename_i htry
    rw [if_neg htry]
    cases h
    exact ⟨rfl, rfl⟩

theorem Search.tryDelta_ok {raw : Packet} {kind : SmartDeltaKind} {s s' : Search σ}
    (h : Search.tryDelta X pol raw kind s = .ok s') :
    s'.best = pick pol.cost s.best (raw :: (zstdOffers X pol raw s.learned).1) ∧
      s'.learned = (zstdOffers X pol raw s.learned).2 := by
  obtain ⟨hbest, hlearned⟩ := Search.tryZstd_ok h
  simp only [Search.offer_learned] at hbest hlearned
  refine ⟨?_, hlearned⟩
  rw [hbest, Search.offer_best]
  exact (pick_append pol.cost s.best [raw] _).symm

/-- The first delta, then the others. -/
theorem Search.tryDeltas_cons {raw : Packet × SmartDeltaKind}
    {raws : List (Packet × SmartDeltaKind)} {s s' : Search σ}
    (h : Search.tryDeltas X pol (raw :: raws) s = .ok s') :
    ∃ s1, Search.tryDelta X pol raw.1 raw.2 s = .ok s1 ∧
      Search.tryDeltas X pol raws s1 = .ok s' := by
  unfold Search.tryDeltas at h
  rw [List.foldlM_cons] at h
  cases h1 : Search.tryDelta X pol raw.1 raw.2 s with
  | error e =>
    rw [h1] at h
    cases h
  | ok s1 =>
    rw [h1] at h
    exact ⟨s1, rfl, h⟩

/-- **The search is the running minimum over its offers.** -/
theorem Search.tryDeltas_ok : ∀ {raws : List (Packet × SmartDeltaKind)} {s s' : Search σ},
    Search.tryDeltas X pol raws s = .ok s' →
      s'.best = pick pol.cost s.best (offers X pol (raws.map (·.1)) s.learned)
  | [], _, _, h => by cases h; rfl
  | raw :: raws, s, s', h => by
    obtain ⟨s1, h1, h⟩ := Search.tryDeltas_cons h
    obtain ⟨hbest, hlearned⟩ := Search.tryDelta_ok h1
    have hrest := Search.tryDeltas_ok h
    rw [hrest, hbest, hlearned, List.map_cons, offers, ← List.cons_append, pick_append]

/-! ## The candidates generated -/

/-- What a zstd attempt produces, also where that is the packet itself. -/
def zstdGenerated (X : Crates) (pol : SearchPolicy σ) (raw : Packet) (l : σ) : List Packet :=
  if pol.enableZstd && pol.shouldTry l raw.payload.length then
    match raw.zstdCandidate X pol.zstdLevel pol.minSavings with
    | .error _ => []
    | .ok compressed => [compressed]
  else []

/-- Every packet a search builds: the raw ones, each followed by what compressing it gave. -/
def generated (X : Crates) (pol : SearchPolicy σ) : List Packet → σ → List Packet
  | [], _ => []
  | raw :: raws, l =>
    raw :: (zstdGenerated X pol raw l ++ generated X pol raws (zstdOffers X pol raw l).2)

theorem mem_zstdGenerated {raw p : Packet} {l : σ} :
    p = raw ∨ p ∈ zstdGenerated X pol raw l ↔ p = raw ∨ p ∈ (zstdOffers X pol raw l).1 := by
  unfold zstdGenerated zstdOffers
  split
  · split
    · exact Iff.rfl
    · rename_i c hc
      rcases Packet.zstdCandidate_cases hc with rfl | hcopy
      · split <;> simp
      · simp [hcopy.isCompressed]
  · exact Iff.rfl

/-- An attempt that compares nothing gave the packet itself, so the candidates are the offers. -/
theorem mem_generated {p : Packet} : ∀ {raws : List Packet} {l : σ},
    p ∈ generated X pol raws l ↔ p ∈ offers X pol raws l
  | [], _ => Iff.rfl
  | raw :: raws, l => by
    simp only [generated, offers, List.mem_cons, List.mem_append, ← or_assoc, mem_zstdGenerated,
      mem_generated]

theorem zstdGenerated_length (raw : Packet) (l : σ) :
    (zstdGenerated X pol raw l).length ≤ 1 := by
  unfold zstdGenerated
  split
  · split <;> simp
  · simp

theorem generated_length : ∀ (raws : List Packet) (l : σ),
    (generated X pol raws l).length ≤ 2 * raws.length
  | [], _ => Nat.zero_le _
  | raw :: raws, l => by
    have hone := @zstdGenerated_length _ X pol raw l
    have hrest := generated_length raws (zstdOffers X pol raw l).2
    simp only [generated, List.length_cons, List.length_append]
    omega

@[simp] theorem Search.offer_considered (p : Packet) (mode : ByteEncodeMode) (s : Search σ) :
    (s.offer pol p mode).considered = s.considered := by
  unfold Search.offer
  split <;> rfl

theorem Search.tryZstd_considered {raw : Packet} {mode : ByteEncodeMode} {s s' : Search σ}
    (h : Search.tryZstd X pol raw mode s = .ok s') :
    s'.considered = s.considered + (zstdGenerated X pol raw s.learned).length := by
  unfold Search.tryZstd at h
  unfold zstdGenerated
  split at h
  · rename_i htry
    rw [if_pos htry]
    split at h
    · cases h
    · rename_i c hc
      cases h
      simp only [List.length_singleton]
      split <;> simp
  · rename_i htry
    rw [if_neg htry]
    cases h
    rfl

theorem Search.tryDelta_considered {raw : Packet} {kind : SmartDeltaKind} {s s' : Search σ}
    (h : Search.tryDelta X pol raw kind s = .ok s') :
    s'.considered = s.considered + 1 + (zstdGenerated X pol raw s.learned).length := by
  have hz := Search.tryZstd_considered h
  simpa using hz

/-- The number of candidates reported is the number of candidates generated. -/
theorem Search.tryDeltas_considered : ∀ {raws : List (Packet × SmartDeltaKind)} {s s' : Search σ},
    Search.tryDeltas X pol raws s = .ok s' →
      s'.considered = s.considered + (generated X pol (raws.map (·.1)) s.learned).length
  | [], _, _, h => by cases h; rfl
  | raw :: raws, s, s', h => by
    obtain ⟨s1, h1, h⟩ := Search.tryDeltas_cons h
    have hone := Search.tryDelta_considered h1
    have hrest := Search.tryDeltas_considered h
    rw [(Search.tryDelta_ok h1).2] at hrest
    simp only [List.map_cons, generated, List.length_cons, List.length_append]
    omega

/-! ## Packet and mode -/

/-- A property of the best packet and its mode survives an offer that has it. -/
theorem Search.offer_keeps (Good : ByteEncodeMode → Packet → Prop) {p : Packet}
    {mode : ByteEncodeMode} {s : Search σ} (hp : Good mode p) (hs : Good s.mode s.best) :
    Good (s.offer pol p mode).mode (s.offer pol p mode).best := by
  unfold Search.offer
  split
  · exact hp
  · exact hs

theorem Search.tryZstd_keeps (Good : ByteEncodeMode → Packet → Prop) {raw : Packet}
    {mode : ByteEncodeMode} {s s' : Search σ} (h : Search.tryZstd X pol raw mode s = .ok s')
    (hraw : raw.isCompressed = false)
    (hzstd : ∀ q, Packet.Compresses X pol.zstdLevel raw q → Good mode q)
    (hs : Good s.mode s.best) : Good s'.mode s'.best := by
  unfold Search.tryZstd at h
  split at h
  · split at h
    · cases h
    · rename_i c hc
      cases h
      split
      · rename_i hcomp
        rcases Packet.zstdCandidate_cases hc with rfl | hcopy
        · rw [hraw] at hcomp
          cases hcomp
        · exact Search.offer_keeps Good (hzstd c hcopy) hs
      · exact hs
  · cases h
    exact hs

theorem Search.tryDelta_keeps (Good : ByteEncodeMode → Packet → Prop) {raw : Packet}
    {kind : SmartDeltaKind} {s s' : Search σ} (h : Search.tryDelta X pol raw kind s = .ok s')
    (hraw : raw.isCompressed = false) (hdelta : Good (.delta kind) raw)
    (hzstd : ∀ q, Packet.Compresses X pol.zstdLevel raw q → Good (.deltaZstd kind) q)
    (hs : Good s.mode s.best) : Good s'.mode s'.best := by
  apply Search.tryZstd_keeps Good h hraw hzstd
  exact Search.offer_keeps Good hdelta hs

/-- What every raw delta and every compressed copy of one has, the packet found has. -/
theorem Search.tryDeltas_keeps (Good : ByteEncodeMode → Packet → Prop) :
    ∀ {raws : List (Packet × SmartDeltaKind)} {s s' : Search σ},
      Search.tryDeltas X pol raws s = .ok s' → (∀ raw ∈ raws, raw.1.isCompressed = false) →
      (∀ raw ∈ raws, Good (.delta raw.2) raw.1) →
      (∀ raw ∈ raws, ∀ q, Packet.Compresses X pol.zstdLevel raw.1 q → Good (.deltaZstd raw.2) q) →
      Good s.mode s.best → Good s'.mode s'.best
  | [], _, _, h, _, _, _, hs => by cases h; exact hs
  | raw :: raws, s, s', h, hraw, hdelta, hzstd, hs => by
    obtain ⟨s1, h1, h⟩ := Search.tryDeltas_cons h
    have hone := Search.tryDelta_keeps Good h1 (hraw raw List.mem_cons_self)
      (hdelta raw List.mem_cons_self) (hzstd raw List.mem_cons_self) hs
    exact Search.tryDeltas_keeps Good h (fun r hr => hraw r (List.mem_cons_of_mem _ hr))
      (fun r hr => hdelta r (List.mem_cons_of_mem _ hr))
      (fun r hr => hzstd r (List.mem_cons_of_mem _ hr)) hone

/-! ## Failure -/

theorem Search.tryZstd_total (hX : X.CompressTotal) (raw : Packet) (mode : ByteEncodeMode)
    (s : Search σ) : ∃ s', Search.tryZstd X pol raw mode s = .ok s' := by
  obtain ⟨c, hc⟩ := Packet.zstdCandidate_total hX raw pol.zstdLevel pol.minSavings
  unfold Search.tryZstd
  rw [hc]
  split
  · exact ⟨_, rfl⟩
  · exact ⟨_, rfl⟩

/-- A search that fails could not compress one of its raw packets. -/
theorem Search.tryZstd_error {raw : Packet} {mode : ByteEncodeMode} {s s' : Search σ}
    {e : DeltaError} (h : Search.tryZstd X pol raw mode s = .error (e, s')) :
    s' = s ∧ ∃ msg, X.compress raw.payload pol.zstdLevel = .error msg ∧ e = .compression msg := by
  unfold Search.tryZstd at h
  split at h
  · split at h
    · rename_i e' he
      cases h
      exact ⟨rfl, Packet.zstdCandidate_error he⟩
    · cases h
  · cases h

/-- It then compared no more than two packets for each raw one. -/
theorem Search.tryDeltas_error : ∀ {raws : List (Packet × SmartDeltaKind)} {s s' : Search σ}
    {e : DeltaError}, Search.tryDeltas X pol raws s = .error (e, s') →
      s'.considered ≤ s.considered + 2 * raws.length ∧
      ∃ raw ∈ raws, ∃ msg, X.compress raw.1.payload pol.zstdLevel = .error msg ∧
        e = .compression msg
  | [], _, _, _, h => by cases h
  | raw :: raws, s, s', e, h => by
    unfold Search.tryDeltas at h
    rw [List.foldlM_cons] at h
    cases h1 : Search.tryDelta X pol raw.1 raw.2 s with
    | error err =>
      rw [h1] at h
      cases h
      obtain ⟨rfl, hfail⟩ := Search.tryZstd_error h1
      refine ⟨?_, raw, List.mem_cons_self, hfail⟩
      simp only [Search.offer_considered, List.length_cons]
      omega
    | ok s1 =>
      rw [h1] at h
      obtain ⟨hle, r, hr, hfail⟩ := @Search.tryDeltas_error raws s1 s' e h
      refine ⟨?_, r, List.mem_cons_of_mem _ hr, hfail⟩
      have hone := Search.tryDelta_considered h1
      have hlen := @zstdGenerated_length _ X pol raw.1 s.learned
      simp only [List.length_cons]
      omega

theorem Search.tryDeltas_total (hX : X.CompressTotal) :
    ∀ (raws : List (Packet × SmartDeltaKind)) (s : Search σ),
      ∃ s', Search.tryDeltas X pol raws s = .ok s'
  | [], s => ⟨s, rfl⟩
  | raw :: raws, s => by
    obtain ⟨s1, h1⟩ : ∃ s1, Search.tryDelta X pol raw.1 raw.2 s = .ok s1 :=
      Search.tryZstd_total hX _ _ _
    obtain ⟨s', h'⟩ := Search.tryDeltas_total hX raws s1
    refine ⟨s', ?_⟩
    unfold Search.tryDeltas
    rw [List.foldlM_cons]
    show (Search.tryDelta X pol raw.1 raw.2 s >>= fun s => Search.tryDeltas X pol raws s) = _
    rw [h1]
    exact h'

end DeltaStream
