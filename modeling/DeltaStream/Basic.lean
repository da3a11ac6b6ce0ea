import Mathlib.Algebra.Ring.Nat
import Mathlib.Order.Defs.LinearOrder

/-!
# Bytes, limits, errors and the crates the program calls

* `Bytes`, `Slice`, `Usize` — byte strings, byte slices of the language (never longer than
  `isize::MAX`) and pointer-sized words of a 64-bit target;
* `DeltaError` — the error type of `src/error.rs` (the variants the model can return);
* `fnv1a64` — the state and schema hash of `src/sync.rs`;
* `Crates` — the third-party functions the program calls (`crc32fast`, `zstd`), taken as
  parameters, and what is documented about them.
-/

set_option autoImplicit false

namespace DeltaStream

abbrev Bytes := List UInt8

/-- `usize` of a 64-bit target. -/
abbrev Usize := UInt64

instance linearOrderUInt64 : LinearOrder UInt64 where
  le_refl := UInt64.le_refl
  le_trans _ _ _ := UInt64.le_trans
  le_antisymm _ _ := UInt64.le_antisymm
  le_total := UInt64.le_total
  lt_iff_le_not_ge a b := by
    rw [UInt64.not_le]
    exact ⟨fun h => ⟨UInt64.le_of_lt h, h⟩, And.right⟩
  toDecidableLE := inferInstance
  toDecidableEq := inferInstance
  toDecidableLT := inferInstance

def U64_MAX : Nat := 2 ^ 64 - 1

def USIZE_MAX : Nat := 2 ^ 64 - 1

def ISIZE_MAX : Nat := 2 ^ 63 - 1

/-- `u64::saturating_add` and `usize::saturating_add`. -/
def saturatingAdd (a b : Nat) : Nat := min (a + b) U64_MAX

/-- `u64::saturating_add(1)`. -/
def nextSequence (n : UInt64) : UInt64 := UInt64.ofNat (saturatingAdd n.toNat 1)

theorem toNat_le_max (n : UInt64) : n.toNat ≤ U64_MAX := Nat.le_sub_one_of_lt n.toNat_lt

theorem toNat_nextSequence {n : UInt64} (h : n.toNat < U64_MAX) :
    (nextSequence n).toNat = n.toNat + 1 := by
  have hmax : U64_MAX = 2 ^ 64 - 1 := rfl
  unfold nextSequence saturatingAdd
  rw [UInt64.toNat_ofNat']
  omega

theorem nextSequence_max {n : UInt64} (h : n.toNat = U64_MAX) : nextSequence n = n := by
  have hmax : U64_MAX = 2 ^ 64 - 1 := rfl
  apply UInt64.toNat_inj.mp
  unfold nextSequence saturatingAdd
  rw [UInt64.toNat_ofNat']
  omega

theorem nextSequence_le (n : UInt64) : (nextSequence n).toNat ≤ n.toNat + 1 := by
  have hn : n.toNat ≤ U64_MAX := toNat_le_max n
  by_cases h : n.toNat = U64_MAX
  · rw [nextSequence_max h]
    exact Nat.le_succ _
  · exact Nat.le_of_eq (toNat_nextSequence (Nat.lt_of_le_of_ne hn h))

theorem nextSequence_pos (n : UInt64) : 1 ≤ (nextSequence n).toNat := by
  have hn : n.toNat ≤ U64_MAX := toNat_le_max n
  by_cases h : n.toNat = U64_MAX
  · rw [nextSequence_max h, h]
    decide
  · rw [toNat_nextSequence (Nat.lt_of_le_of_ne hn h)]
    exact Nat.succ_le_succ (Nat.zero_le _)

/-- Only the last number is its own successor. -/
theorem nextSequence_eq_iff {n : UInt64} : nextSequence n = n ↔ n.toNat = U64_MAX := by
  constructor
  · intro h
    by_contra hne
    have hlt : n.toNat < U64_MAX := Nat.lt_of_le_of_ne (toNat_le_max n) hne
    have hnext := toNat_nextSequence hlt
    rw [h] at hnext
    omega
  · exact nextSequence_max

theorem le_nextSequence (n : UInt64) : n.toNat ≤ (nextSequence n).toNat := by
  have hn : n.toNat ≤ U64_MAX := toNat_le_max n
  by_cases h : n.toNat = U64_MAX
  · exact Nat.le_of_eq (congrArg UInt64.toNat (nextSequence_max h).symm)
  · rw [toNat_nextSequence (Nat.lt_of_le_of_ne hn h)]
    exact Nat.le_succ _

/-- A byte slice or byte vector: the language allocates at most `isize::MAX` bytes. -/
structure Slice where
  bytes : Bytes
  length_le : bytes.length ≤ ISIZE_MAX
  deriving DecidableEq

theorem Slice.length_lt (s : Slice) : s.bytes.length < 2 ^ 64 :=
  Nat.lt_of_le_of_lt s.length_le (by decide)

inductive DeltaError where
  | invalidState (msg : String)
  | invalidPacket (msg : String)
  | json (msg : String)
  | compression (msg : String)
  | transport (msg : String)
  | packetTooLarge (limit actual : Nat)
  | decompressedPayloadTooLarge (limit : Nat) (actual : Option Nat)
  | checksumMismatch (expected actual : UInt32)
  | protocolVersionRange (received minSupported maxSupported : UInt8)
  | schemaMismatch (expected received : UInt64)
  | schemaMigrationMissing (source target : UInt64)
  deriving DecidableEq, Repr

/-- The 64-bit FNV-1a hash. -/
def fnv1a64 (bytes : Bytes) : UInt64 :=
  bytes.foldl (fun hash b => (hash ^^^ b.toUInt64) * 0x100000001b3) 0xcbf29ce484222325

/-- `str::as_bytes`. -/
def utf8 (s : String) : Bytes := s.toByteArray.data.toList

/-- Functions of other crates. -/
structure Crates where
  /-- `crc32fast::hash` -/
  crc32 : Bytes → UInt32
  /-- `zstd::bulk::compress(data, level)` -/
  compress : Bytes → Int → Except String Bytes
  /-- `zstd::bulk::decompress(data, capacity)` -/
  decompress : Bytes → Nat → Except String Bytes

namespace Crates

/-- Compression does not fail. -/
def CompressTotal (X : Crates) : Prop := ∀ data level, ∃ c, X.compress data level = .ok c

/-- The error of a call whose compression failed. -/
def CompressionFailed (X : Crates) (e : DeltaError) : Prop :=
  ∃ data level msg, X.compress data level = .error msg ∧ e = .compression msg

theorem CompressionFailed.not_total {X : Crates} {e : DeltaError} (h : X.CompressionFailed e) :
    ¬X.CompressTotal := by
  obtain ⟨data, level, msg, hmsg, -⟩ := h
  intro hX
  obtain ⟨c, hc⟩ := hX data level
  rw [hmsg] at hc
  cases hc

/-- Decompressing compressed data gives the data back or fails. -/
def DecompressInverts (X : Crates) : Prop :=
  ∀ data level c, X.compress data level = .ok c →
    ∀ capacity out, X.decompress c capacity = .ok out → out = data

/-- Decompressing compressed data succeeds exactly when the data fits the capacity, and then
    gives the data back. -/
structure ZstdExact (X : Crates) : Prop where
  fits : ∀ data level c, X.compress data level = .ok c →
    ∀ capacity, data.length ≤ capacity → X.decompress c capacity = .ok data
  refuses : ∀ data level c, X.compress data level = .ok c →
    ∀ capacity, capacity < data.length → ∃ msg, X.decompress c capacity = .error msg

theorem ZstdExact.inverts {X : Crates} (h : X.ZstdExact) : X.DecompressInverts := by
  intro data level c hc capacity out hout
  by_cases hlen : data.length ≤ capacity
  · rw [h.fits data level c hc capacity hlen] at hout
    cases hout
    rfl
  · obtain ⟨msg, hmsg⟩ := h.refuses data level c hc capacity (by omega)
    rw [hmsg] at hout
    cases hout

/-- Storing instead of compressing behaves as documented. -/
def stored : Crates where
  crc32 _ := 0
  compress data _ := .ok data
  decompress data capacity :=
    if data.length ≤ capacity then .ok data else .error "Destination buffer is too small"

theorem stored_total : stored.CompressTotal := fun data _ => ⟨data, rfl⟩

theorem stored_exact : stored.ZstdExact where
  fits := by
    intro data level c hc capacity hlen
    cases hc
    exact if_pos hlen
  refuses := by
    intro data level c hc capacity hlen
    cases hc
    exact ⟨_, if_neg (by omega)⟩

end Crates

end DeltaStream
