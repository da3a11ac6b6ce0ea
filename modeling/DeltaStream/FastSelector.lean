import DeltaStream.SmartDelta

/-!
# The fast strategy selector

Model of `src/fast_selector.rs`: one scan of a state transition (`ChangeProfile.analyze`) and
the advisor that turns it, with the recent winners, into a shortlist of at most two delta
strategies (`StrategyAdvisor.shortlist`).

`shortlist_accepts`: every shortlisted strategy can encode the pair of states the profile was
taken from, whatever the advisor has seen before.
-/

set_option autoImplicit false

namespace DeltaStream

structure ChangeProfile where
  previousLen : Nat
  currentLen : Nat
  changedBytes : Nat
  changedRuns : Nat
  commonPrefix : Nat
  commonSuffix : Nat
  deriving DecidableEq

namespace ChangeProfile

/-- The loop over the common length: changed bytes and runs so far, and whether the last byte
    was inside a run. -/
def scan : (previous current : Bytes) → (changedBytes changedRuns : Nat) → (inRun : Bool) →
    Nat × Nat
  | a :: previous, b :: current, changedBytes, changedRuns, inRun =>
    if a ≠ b then
      scan previous current (changedBytes + 1) (if inRun then changedRuns else changedRuns + 1)
        true
    else scan previous current changedBytes changedRuns false
  | _, _, changedBytes, changedRuns, _ => (changedBytes, changedRuns)

def analyze (previous current : Bytes) : ChangeProfile :=
  let common := min previous.length current.length
  let absDiff := max previous.length current.length - common
  let counts := scan previous current absDiff 0 false
  let pre := prefixLoop previous current common 0
  let suf := suffixLoop previous current (common - pre) 0
  ⟨previous.length, current.length, counts.1, counts.2, pre, suf⟩

/-- `change_ratio() * 100.0`. -/
def changePercent (p : ChangeProfile) : Rat :=
  Ieee.toF64 (Ieee.divF64 p.changedBytes (max (max p.previousLen p.currentLen) 1) * 100)

def resized (p : ChangeProfile) : Bool := decide (p.previousLen ≠ p.currentLen)

end ChangeProfile

structure SelectorPolicy where
  sparseRatio : UInt8
  rangeRunLimit : Usize
  exploreEvery : UInt64
  winnerWindow : Usize
  deriving DecidableEq

def SelectorPolicy.default : SelectorPolicy := ⟨8, 64, 64, 64⟩

structure StrategyAdvisor where
  policy : SelectorPolicy
  recentWinners : List SmartDeltaKind
  updates : Nat
  compressionAttempts : Nat
  compressionWins : Nat

namespace StrategyAdvisor

def new (policy : SelectorPolicy) : StrategyAdvisor := ⟨policy, [], 0, 0, 0⟩

/-- The kinds in the order of `from_index`. -/
def kinds : List SmartDeltaKind := [.sparse, .ranges, .xor, .splice, .chunks]

/-- `max_by_key` on the counts: the last kind with the largest count. -/
def mostFrequent (winners : List SmartDeltaKind) : SmartDeltaKind × Nat :=
  kinds.foldl (fun best k => if best.2 ≤ winners.count k then (k, winners.count k) else best)
    (.sparse, 0)

def dominantWinner (a : StrategyAdvisor) : Option SmartDeltaKind :=
  if a.recentWinners.length < 8 then none
  else
    let top := mostFrequent a.recentWinners
    if top.2 * 4 < a.recentWinners.length * 3 then none else some top.1

def shouldExplore (a : StrategyAdvisor) : Bool :=
  decide (0 < a.policy.exploreEvery.toNat ∧ 0 < a.updates ∧
    a.updates % a.policy.exploreEvery.toNat = 0)

/-- The choice by change ratio and run count. -/
def profiled (policy : SelectorPolicy) (profile : ChangeProfile) : List SmartDeltaKind :=
  let pct := profile.changePercent
  if pct ≤ policy.sparseRatio.toNat then [.sparse, .ranges]
  else if profile.changedRuns ≤ policy.rangeRunLimit.toNat then [.ranges, .sparse]
  else if 45 ≤ pct then [.xor, .ranges]
  else [.ranges, .sparse]

def shortlist (a : StrategyAdvisor) (profile : ChangeProfile) : List SmartDeltaKind :=
  if profile.resized then [.splice, .chunks]
  else
    match a.dominantWinner with
    | some winner => if !a.shouldExplore then [winner] else profiled a.policy profile
    | none => profiled a.policy profile

def observeWinner (a : StrategyAdvisor) (kind : SmartDeltaKind) : StrategyAdvisor :=
  let kept :=
    if a.recentWinners.length = max a.policy.winnerWindow.toNat 1 then a.recentWinners.tail
    else a.recentWinners
  { a with updates := saturatingAdd a.updates 1, recentWinners := kept ++ [kind] }

def observeNoDelta (a : StrategyAdvisor) : StrategyAdvisor :=
  { a with updates := saturatingAdd a.updates 1 }

def observeCompression (a : StrategyAdvisor) (won : Bool) : StrategyAdvisor :=
  { a with
    compressionAttempts := saturatingAdd a.compressionAttempts 1
    compressionWins := if won then saturatingAdd a.compressionWins 1 else a.compressionWins }

def compressionWinRate (a : StrategyAdvisor) : Rat :=
  if a.compressionAttempts = 0 then 0
  else Ieee.divF64 a.compressionWins a.compressionAttempts

def shouldCompress (a : StrategyAdvisor) (payloadLen minPayload : Nat) : Bool :=
  if payloadLen < minPayload then false
  else decide (a.compressionAttempts < 16) ||
    decide (Ieee.toF64 (15 / 100) ≤ a.compressionWinRate) || a.shouldExplore

/-! ## The shortlist fits the states -/

theorem profiled_pair (policy : SelectorPolicy) (profile : ChangeProfile) :
    ∃ a b, a ≠ b ∧ profiled policy profile = [a, b] := by
  unfold profiled
  simp only
  split
  · exact ⟨.sparse, .ranges, by decide, rfl⟩
  split
  · exact ⟨.ranges, .sparse, by decide, rfl⟩
  split
  · exact ⟨.xor, .ranges, by decide, rfl⟩
  · exact ⟨.ranges, .sparse, by decide, rfl⟩

/-- One strategy, or two different ones. -/
theorem shortlist_cases (a : StrategyAdvisor) (profile : ChangeProfile) :
    (∃ k, a.shortlist profile = [k]) ∨ ∃ k l, k ≠ l ∧ a.shortlist profile = [k, l] := by
  unfold shortlist
  split
  · exact .inr ⟨.splice, .chunks, by decide, rfl⟩
  split
  · split
    · exact .inl ⟨_, rfl⟩
    · exact .inr (profiled_pair _ _)
  · exact .inr (profiled_pair _ _)

theorem shortlist_length (a : StrategyAdvisor) (profile : ChangeProfile) :
    (a.shortlist profile).length ≤ 2 := by
  obtain ⟨k, h⟩ | ⟨k, l, -, h⟩ := a.shortlist_cases profile <;> simp [h]

/-- Every shortlisted strategy accepts the states that were analysed. -/
theorem shortlist_accepts (a : StrategyAdvisor) (previous current : Bytes)
    (policy : SmartDeltaPolicy) {k : SmartDeltaKind}
    (h : k ∈ a.shortlist (ChangeProfile.analyze previous current)) :
    ∃ c, encodeCandidate k previous current policy = .ok c := by
  unfold shortlist at h
  split at h
  · rcases List.mem_cons.mp h with rfl | h
    · exact ⟨_, rfl⟩
    · rw [List.mem_singleton.mp h]
      exact ⟨_, rfl⟩
  · rename_i hsame
    have hlen : previous.length = current.length := by
      unfold ChangeProfile.resized ChangeProfile.analyze at hsame
      simpa using hsame
    have hany : ∀ k, ∃ c, encodeCandidate k previous current policy = .ok c := by
      intro k
      cases k <;> simp [encodeCandidate, hlen]
    exact hany k

end StrategyAdvisor

end DeltaStream
