import DeltaStream.FastSelector
import DeltaStream.SmartDeltaExact

/-!
# The change scan and the encoders it steers

`ChangeProfile::analyze` counts changes with loops of its own; the encoders it chooses between count
again.

* `headerNumbers` — the numbers an encoder writes behind its tag;
* `scan_changed`, `scan_runs` — changed bytes are the sparse changes, runs the ranges without a gap;
* `change_scan_agrees` — so the profile says what the three encoders write.
-/

set_option autoImplicit false

namespace DeltaStream

open ByteReader

/-! ## Headers -/

def readNumbers : Nat → ByteReader DeltaError (List Nat)
  | 0 => pure []
  | n + 1 => do
    let value ← readVarU64
    let rest ← readNumbers n
    pure (value :: rest)

/-- The first `n` numbers behind the tag of a smart delta. -/
def headerNumbers (n : Nat) (payload : Bytes) : Except DeltaError (List Nat) :=
  ByteReader.run (do
    let _tag ← byte (.invalidPacket "empty smart delta")
    readNumbers n) payload

theorem readNumbers_reads : ∀ {values : List Nat}, (∀ v ∈ values, v < 2 ^ 64) →
    Reads (readNumbers values.length) (values.flatMap putVarU64) values
  | [], _ => Reads.pure []
  | value :: values, h => by
    have hrest := readNumbers_reads fun v hv => h v (List.mem_cons_of_mem _ hv)
    rw [List.flatMap_cons]
    exact (readVarU64_reads (h value List.mem_cons_self)).bind
      (hrest.map fun rest => value :: rest)

/-- They are read back from an encoding that starts with them. -/
theorem headerNumbers_cons (tag : UInt8) (values : List Nat) (rest : Bytes)
    (h : ∀ v ∈ values, v < 2 ^ 64) :
    headerNumbers values.length
      (tag :: values.foldr (fun value after => putVarU64 value ++ after) rest) = .ok values := by
  have hread := ((Reads.byte tag (.invalidPacket "empty smart delta")).bind
    (f := fun _ => readNumbers values.length) (readNumbers_reads h)).run rest
  have hwritten : ∀ vs : List Nat, vs.foldr (fun value after => putVarU64 value ++ after) rest =
      vs.flatMap putVarU64 ++ rest := by
    intro vs
    induction vs with
    | nil => rfl
    | cons v vs ih => simp [ih]
  rw [hwritten]
  exact hread

/-! ## Changed bytes -/

namespace ChangeProfile

/-- The counts only add to what they start with. -/
theorem scan_start : ∀ (previous current : Bytes) (changedBytes changedRuns : Nat) (inRun : Bool),
    scan previous current changedBytes changedRuns inRun =
      (changedBytes + (scan previous current 0 0 inRun).1,
        changedRuns + (scan previous current 0 0 inRun).2)
  | [], _, _, _, _ => by simp [scan]
  | _ :: _, [], _, _, _ => by simp [scan]
  | a :: previous, b :: current, changedBytes, changedRuns, inRun => by
    simp only [scan]
    split
    · rw [scan_start previous current (changedBytes + 1), scan_start previous current (0 + 1)]
      cases inRun <;> simp [Nat.add_assoc]
    · rw [scan_start]

theorem scan_changed : ∀ (previous current : Bytes) (inRun : Bool) (i : Nat),
    (scan previous current 0 0 inRun).1 = (sparseChanges previous current i).length
  | [], _, _, _ => by simp [scan]
  | _ :: _, [], _, _ => by simp [scan]
  | a :: previous, b :: current, inRun, i => by
    rw [sparseChanges_cons, List.length_append, scan]
    split
    · rw [scan_start, scan_changed previous current true (i + 1)]
      simp
    · rw [scan_changed previous current false (i + 1)]
      simp

theorem scan_self : ∀ (bytes : Bytes) (changedBytes changedRuns : Nat) (inRun : Bool),
    (scan bytes bytes changedBytes changedRuns inRun).1 = changedBytes
  | [], _, _, _ => rfl
  | b :: bytes, changedBytes, changedRuns, inRun => by simp [scan, scan_self bytes]

/-! ## Runs -/

/-- The runs that start from `i` on. -/
def runsFrom (previous current : Bytes) (i : Nat) (inRun : Bool) : Nat :=
  (scan (previous.drop i) (current.drop i) 0 0 inRun).2

variable {previous current : Bytes} {i : Nat}

theorem runsFrom_end (inRun : Bool) (h : ¬i < current.length) :
    runsFrom previous current i inRun = 0 := by
  unfold runsFrom
  rw [List.drop_eq_nil_of_le (Nat.le_of_not_lt h)]
  cases previous.drop i <;> rfl

theorem runsFrom_cons (hlen : previous.length = current.length) (h : i < current.length)
    (inRun : Bool) :
    runsFrom previous current i inRun =
      if previous[i]? ≠ current[i]? then
        (if inRun then 0 else 1) + runsFrom previous current (i + 1) true
      else runsFrom previous current (i + 1) false := by
  have hp : i < previous.length := by omega
  unfold runsFrom
  rw [List.drop_eq_getElem_cons h, List.drop_eq_getElem_cons hp, scan,
    List.getElem?_eq_getElem h, List.getElem?_eq_getElem hp]
  simp only [ne_eq, Option.some.injEq]
  split
  · rw [scan_start]
  · rfl

/-- Without a gap a range goes on as long as the run it started with. -/
theorem runsFrom_rangeScan (hlen : previous.length = current.length) {lastChanged : Nat}
    (h : i = lastChanged + 1) :
    runsFrom previous current i true =
      runsFrom previous current (rangeScan previous current 0 i lastChanged + 1) false := by
  fun_induction rangeScan previous current 0 i lastChanged with
  | case1 i lastChanged hlt hne ih =>
    rw [runsFrom_cons hlen hlt, if_pos hne, ← ih rfl]
    simp
  | case2 i lastChanged hlt heq hgap =>
    rw [← h, runsFrom_cons hlen hlt, runsFrom_cons hlen hlt, if_neg heq, if_neg heq]
  | case3 i lastChanged hlt heq hgap ih => omega
  | case4 i lastChanged hge => rw [← h, runsFrom_end true hge, runsFrom_end false hge]

theorem scan_runs (hlen : previous.length = current.length) (i : Nat) :
    runsFrom previous current i false = (changedRanges previous current 0 i).length := by
  fun_induction changedRanges previous current 0 i with
  | case1 i hlt heq ih => rw [runsFrom_cons hlen hlt, if_neg (not_not_intro heq), ih]
  | case2 i hlt hne ih =>
    rw [runsFrom_cons hlen hlt, if_pos hne, runsFrom_rangeScan hlen rfl, ih, List.length_cons]
    exact Nat.add_comm _ _
  | case3 i hge => exact runsFrom_end false hge

/-! ## The profile -/

theorem analyze_counts (hlen : previous.length = current.length) :
    (analyze previous current).changedBytes = (sparseChanges previous current 0).length ∧
      (analyze previous current).changedRuns = (changedRanges previous current 0 0).length := by
  have hruns := scan_runs hlen 0
  unfold runsFrom at hruns
  simp only [List.drop_zero] at hruns
  simp only [analyze, hlen, max_self, min_self, Nat.sub_self]
  exact ⟨scan_changed previous current false 0, hruns⟩

theorem analyze_splice :
    (analyze previous current).commonPrefix = splicePrefix previous current ∧
      (analyze previous current).commonSuffix = spliceSuffix previous current := by
  have hlimit : min previous.length current.length - splicePrefix previous current =
      min (previous.length - splicePrefix previous current)
        (current.length - splicePrefix previous current) := by omega
  refine ⟨rfl, ?_⟩
  unfold spliceSuffix
  rw [← hlimit]
  rfl

theorem analyze_unchanged : (analyze previous current).changedBytes = 0 ↔ previous = current := by
  constructor
  · intro h
    have hscan := scan_start previous current
      (max previous.length current.length - min previous.length current.length) 0 false
    have hlen : previous.length = current.length := by
      simp only [analyze, hscan] at h
      omega
    rw [(analyze_counts hlen).1, List.length_eq_zero_iff] at h
    apply List.ext_getElem?
    intro j
    by_contra hne
    obtain ⟨c, hc, -⟩ := sparseChanges_covers (i := 0) hlen hne
    rw [h] at hc
    cases hc
  · rintro rfl
    simp [analyze, scan_self]

end ChangeProfile

/-- What a profile says about the encoders. -/
structure ScanAgrees (previous current : Bytes) (profile : ChangeProfile) : Prop where
  splice : headerNumbers 3 (encodeSplice previous current) =
    .ok [current.length, profile.commonPrefix, profile.commonSuffix]
  disjoint : profile.commonPrefix + profile.commonSuffix ≤ min previous.length current.length
  sparse : previous.length = current.length →
    headerNumbers 2 (encodeSparse previous current) = .ok [current.length, profile.changedBytes]
  ranges : previous.length = current.length →
    headerNumbers 2 (encodeRanges previous current 0) = .ok [current.length, profile.changedRuns]
  unchanged : profile.changedBytes = 0 ↔ previous = current

/-- **The scan agrees with the encoders**, for all states. -/
theorem change_scan_agrees (previous current : Slice) :
    ScanAgrees previous.bytes current.bytes
      (ChangeProfile.analyze previous.bytes current.bytes) where
  splice := by
    have hmax := current.length_lt
    have hb := splice_bounds previous.bytes current.bytes
    obtain ⟨hpre, hsuf⟩ := @ChangeProfile.analyze_splice previous.bytes current.bytes
    rw [hpre, hsuf]
    exact headerNumbers_cons TAG_SPLICE [_, _, _] _ (by simp; omega)
  disjoint := by
    have hb := splice_bounds previous.bytes current.bytes
    have hs := @ChangeProfile.analyze_splice previous.bytes current.bytes
    omega
  sparse := by
    intro hlen
    have hmax := current.length_lt
    have hle := sparseChanges_length_le previous.bytes current.bytes 0
    rw [(ChangeProfile.analyze_counts hlen).1]
    exact headerNumbers_cons TAG_SPARSE [_, _] _ (by simp; omega)
  ranges := by
    intro hlen
    have hmax := current.length_lt
    have hle := changedRanges_length_le previous.bytes current.bytes 0 0
    rw [(ChangeProfile.analyze_counts hlen).2]
    exact headerNumbers_cons TAG_RANGES [_, _] _ (by simp; omega)
  unchanged := ChangeProfile.analyze_unchanged

end DeltaStream
