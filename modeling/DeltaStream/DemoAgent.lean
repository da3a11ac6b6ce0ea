import DeltaStream.BinaryExact
import DeltaStream.Lib.FloatArith

/-!
# The agent of the demonstrations

Model of `AgentState::demo` and `AgentState::advance` of `src/state.rs`, the state the fault
simulations and the dashboard publish, and of the derived equality of states.

* `AgentState.OfDemo` — what every state the demonstration agent goes through has in common;
* `OfDemo.advance` — kept by one step: the load stays finite although it is counted up for ever;
* `OfDemo.fits` — such a state encodes to a few hundred bytes, `OfDemo.eq_self` and it equals
  itself;
* `SameUpToZeros.eq` — states that differ in the sign of a zero at most are equal.
-/

set_option autoImplicit false

namespace DeltaStream

open ByteReader Ieee

/-- A single-precision literal. -/
def f32 (q : Rat) : UInt32 := UInt32.ofNat (binary32.nearest q)

/-- `u8::saturating_add`. -/
def saturatingAdd8 (a b : Nat) : Nat := min (a + b) 255

namespace AgentState

/-- The derived `==`. -/
def eq (a b : AgentState) : Bool :=
  decide (a = { b with cpuPercent := a.cpuPercent }) &&
    binary32.eq a.cpuPercent.toNat b.cpuPercent.toNat

def demo : AgentState where
  agentId := ⟨"agent-17", by decide +kernel⟩
  model := ⟨"qwen3-coder", by decide +kernel⟩
  status := ⟨"running", by decide +kernel⟩
  task := ⟨"analyze repository", by decide +kernel⟩
  progress := 42
  tokens := 18492
  memoryMb := 4812
  cpuPercent := f32 (342 / 10)
  filesProcessed := 173
  currentFile := ⟨"src/engine/parser.rs", by decide +kernel⟩

/-- `(cpu_percent + 1.9) % 100.0`. -/
def nextCpu (cpuPercent : UInt32) : UInt32 :=
  UInt32.ofNat (binary32.rem (binary32.add cpuPercent.toNat (f32 (19 / 10)).toNat)
    (f32 100).toNat)

def advance (s : AgentState) : AgentState :=
  { s with
    progress := UInt8.ofNat (min (saturatingAdd8 s.progress.toNat 1) 100)
    tokens := UInt64.ofNat (saturatingAdd s.tokens.toNat 128)
    cpuPercent := nextCpu s.cpuPercent
    filesProcessed := UInt64.ofNat (saturatingAdd s.filesProcessed.toNat 1) }

/-- The pattern of `256.0`. -/
def cpuBound : Nat := 135 * 2 ^ 23

/-- A state the demonstration agent may be in: the texts are its own, and the load is a small
    number. -/
structure OfDemo (s : AgentState) : Prop where
  texts : s = { demo with
    progress := s.progress, tokens := s.tokens, memoryMb := s.memoryMb,
    cpuPercent := s.cpuPercent, filesProcessed := s.filesProcessed }
  cpu : s.cpuPercent.toNat < cpuBound

theorem ofDemo_demo : OfDemo demo where
  texts := rfl
  cpu := by decide +kernel

theorem finite_of_lt {bits : Nat} (h : bits < cpuBound) : binary32.Finite bits :=
  Nat.lt_of_lt_of_le h (by decide)

theorem nextCpu_lt {cpu : UInt32} (h : cpu.toNat < cpuBound) :
    (nextCpu cpu).toNat < cpuBound := by
  have hcpu : binary32.Finite cpu.toNat := finite_of_lt h
  have hstep : binary32.Finite (f32 (19 / 10)).toNat := by decide +kernel
  have hmodulus : binary32.Finite (f32 100).toNat := by decide +kernel
  have hv : 0 ≤ binary32.value cpu.toNat ∧
      binary32.value cpu.toNat < (2 : Rat) ^ (((134 : Nat) : Int) + binary32.minExponent) :=
    Format.value_lt (by decide) h hcpu.sign
  have hstepv : 0 ≤ binary32.value (f32 (19 / 10)).toNat ∧
      binary32.value (f32 (19 / 10)).toNat < 2 := by
    decide +kernel
  have hmodv : binary32.value (f32 100).toNat = 100 := by decide +kernel
  have hmin : binary32.minExponent = -126 := rfl
  -- the sum is below `512`, so it is finite
  have hsum : binary32.Finite (binary32.add cpu.toNat (f32 (19 / 10)).toNat) := by
    rw [hcpu.add_eq hstep hv.1 hstepv.1]
    refine Nat.lt_of_le_of_lt (Format.nearest_le (k := 9) (add_nonneg hv.1 hstepv.1)
      (by decide) ?_) (by decide)
    have hpow : (2 : Rat) ^ (((134 : Nat) : Int) + binary32.minExponent) = 256 := by
      rw [hmin]
      norm_num
    have h9 : (2 : Rat) ^ (9 : Int) = 512 := by norm_num
    rw [hpow] at hv
    rw [h9]
    linarith [hv.2, hstepv.2]
  -- and its remainder is below `128`
  have hrem : binary32.rem (binary32.add cpu.toNat (f32 (19 / 10)).toNat) (f32 100).toNat ≤
      134 * 2 ^ 23 := by
    rw [hsum.rem_eq hmodulus (by decide +kernel), hmodv]
    have hlt := Format.remainder_lt (x := binary32.value
      (binary32.add cpu.toNat (f32 (19 / 10)).toNat)) (y := 100) (by norm_num)
    refine Format.nearest_le (k := 7) hlt.1 (by decide) (hlt.2.trans ?_)
    norm_num
  unfold nextCpu
  rw [UInt32.toNat_ofNat']
  have hbound : cpuBound = 135 * 2 ^ 23 := rfl
  omega

/-- **One step** of the agent. -/
theorem OfDemo.advance {s : AgentState} (h : OfDemo s) : OfDemo s.advance where
  texts := by
    rw [h.texts]
    rfl
  cpu := nextCpu_lt h.cpu

theorem OfDemo.eq_self {s : AgentState} (h : OfDemo s) : s.eq s = true := by
  unfold eq
  rw [(finite_of_lt h.cpu).eq_self]
  simp

/-- The agent's load has one zero. -/
theorem OfDemo.not_oppositeZeros {a b : AgentState} (ha : a.OfDemo) (hb : b.OfDemo) :
    ¬OppositeZeros a.cpuPercent b.cpuPercent := by
  have hbound : cpuBound < (0x80000000 : UInt32).toNat := by decide
  have hacpu := ha.cpu
  have hbcpu := hb.cpu
  rintro (⟨-, hzero⟩ | ⟨hzero, -⟩)
  · rw [hzero] at hbcpu
    omega
  · rw [hzero] at hacpu
    omega

/-- It encodes to fewer bytes than any limit. -/
theorem OfDemo.fits {s : AgentState} (h : OfDemo s) : (encodeAgentState s).length ≤ 256 := by
  have h8 := Leb128.encode_places (by decide) s.progress.toNat_lt
  have h1 := Leb128.encode_places (by decide) s.tokens.toNat_lt
  have h2 := Leb128.encode_places (by decide) s.memoryMb.toNat_lt
  have h3 := Leb128.encode_places (by decide) s.filesProcessed.toNat_lt
  have hid : (putString demo.agentId).length = 9 := by decide +kernel
  have hmodel : (putString demo.model).length = 12 := by decide +kernel
  have hstatus : (putString demo.status).length = 8 := by decide +kernel
  have htask : (putString demo.task).length = 19 := by decide +kernel
  have hfile : (putString demo.currentFile).length = 21 := by decide +kernel
  rw [h.texts]
  unfold encodeAgentState
  simp only [List.length_append, hid, hmodel, hstatus, htask, hfile, putVarU128,
    leBytes_length]
  omega

end AgentState

/-- States that stand for each other are equal unless the load is not a number. -/
theorem SameUpToZeros.eq {a b : AgentState} (h : SameUpToZeros a b) (hb : b.eq b = true) :
    a.eq b = true := by
  unfold AgentState.eq at hb ⊢
  rw [Bool.and_eq_true] at hb ⊢
  refine ⟨decide_eq_true h.fields, ?_⟩
  rcases h.cpu with heq | ⟨ha, hb'⟩ | ⟨ha, hb'⟩
  · rw [heq]
    exact hb.2
  · rw [ha, hb']
    decide
  · rw [ha, hb']
    decide

end DeltaStream
