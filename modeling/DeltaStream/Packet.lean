import DeltaStream.Basic
import DeltaStream.Lib.ByteReader
import DeltaStream.Lib.Overlay

/-!
# The wire packet

Model of `src/packet.rs`: snapshot and delta packets, optional zstd compression of the
payload, and the 46-byte envelope (magic, version, kind, flags, sequence, base sequence, base
hash, schema hash, checksum, payload length, all little-endian) with its decoder.

* `decodeWithConfig_encode` — decoding an encoded packet gives the packet back, within the
  receiver's packet limit;
* `zstdCandidate_cases` — a zstd candidate is the packet itself or a compressed copy;
* `logicalPayload_compressed` — the logical payload of a compressed copy is that of the
  original, if it fits the limit, and `logicalPayload_refused` — it is refused otherwise.
-/

set_option autoImplicit false

namespace DeltaStream

open ByteReader Overlay

def MAGIC : Bytes := [0x44, 0x53]
def MIN_WIRE_VERSION : UInt8 := 2
def WIRE_VERSION : UInt8 := 3
def HEADER_LEN : Nat := 46
def FLAG_COMPRESSED_ZSTD : UInt16 := 1
def KNOWN_FLAGS : UInt16 := FLAG_COMPRESSED_ZSTD
def MAX_WIRE_PAYLOAD : Nat := 64 * 1024 * 1024
def MAX_LOGICAL_PAYLOAD : Nat := 64 * 1024 * 1024
def U32_MAX : Nat := 2 ^ 32 - 1

/-- Decoding limits of a receiver. -/
structure DecodeConfig where
  maxPacketBytes : Nat
  maxDecompressedBytes : Nat
  deriving DecidableEq

def DecodeConfig.default : DecodeConfig := ⟨HEADER_LEN + MAX_WIRE_PAYLOAD, MAX_LOGICAL_PAYLOAD⟩

inductive PacketKind where
  | snapshot
  | delta
  deriving DecidableEq, Repr

/-- `kind as u8`. -/
def PacketKind.code : PacketKind → UInt8
  | .snapshot => 1
  | .delta => 2

structure Packet where
  kind : PacketKind
  flags : UInt16
  sequence : UInt64
  baseSequence : UInt64
  baseHash : UInt64
  schemaHash : UInt64
  payload : Bytes
  deriving DecidableEq

namespace Packet

def snapshot (sequence stateHash schemaHash : UInt64) (payload : Bytes) : Packet :=
  ⟨.snapshot, 0, sequence, 0, stateHash, schemaHash, payload⟩

def delta (sequence baseSequence baseHash schemaHash : UInt64) (payload : Bytes) : Packet :=
  ⟨.delta, 0, sequence, baseSequence, baseHash, schemaHash, payload⟩

def encodedLen (p : Packet) : Nat := HEADER_LEN + p.payload.length

def isCompressed (p : Packet) : Bool := decide (p.flags &&& FLAG_COMPRESSED_ZSTD ≠ 0)

/-- The compressed copy, when it is materially smaller; the packet itself otherwise. -/
def zstdCandidate (X : Crates) (p : Packet) (level : Int) (minSavings : Nat) :
    Except DeltaError Packet :=
  if p.isCompressed || decide (p.payload.length < 64) then .ok p
  else
    match X.compress p.payload level with
    | .error e => .error (.compression e)
    | .ok compressed =>
      if saturatingAdd compressed.length minSavings ≥ p.payload.length then .ok p
      else .ok { p with payload := compressed, flags := p.flags ||| FLAG_COMPRESSED_ZSTD }

def logicalPayloadWithConfig (X : Crates) (p : Packet) (config : DecodeConfig) :
    Except DeltaError Bytes :=
  if !p.isCompressed then
    if p.payload.length > config.maxDecompressedBytes then
      .error (.decompressedPayloadTooLarge config.maxDecompressedBytes (some p.payload.length))
    else .ok p.payload
  else
    match X.decompress p.payload config.maxDecompressedBytes with
    | .error e => .error (.compression e)
    | .ok out => .ok out

def logicalPayload (X : Crates) (p : Packet) : Except DeltaError Bytes :=
  p.logicalPayloadWithConfig X DecodeConfig.default

/-! ## The envelope -/

/-- The header bytes in front of the payload. -/
def header (X : Crates) (p : Packet) : Bytes :=
  MAGIC ++ ([WIRE_VERSION, p.kind.code] ++ (leBytes 2 p.flags.toNat ++
    (leBytes 8 p.sequence.toNat ++ (leBytes 8 p.baseSequence.toNat ++
      (leBytes 8 p.baseHash.toNat ++ (leBytes 8 p.schemaHash.toNat ++
        (leBytes 4 (X.crc32 p.payload).toNat ++ leBytes 4 p.payload.length)))))))

def encode (X : Crates) (p : Packet) : Except DeltaError Bytes :=
  if p.flags &&& ~~~KNOWN_FLAGS ≠ 0 then .error (.invalidPacket "unknown packet flags")
  else if p.payload.length > MAX_WIRE_PAYLOAD then
    .error (.packetTooLarge MAX_WIRE_PAYLOAD p.payload.length)
  else if p.payload.length > U32_MAX then .error (.invalidPacket "payload too large")
  else .ok (p.header X ++ p.payload)

/-- `u64::from_le_bytes(bytes[start..start + 8])`. -/
def readU64 (bytes : Bytes) (start : Nat) : UInt64 :=
  UInt64.ofNat (leValue (slice bytes start (start + 8)))

/-- `u32::from_le_bytes(bytes[start..start + 4])`. -/
def readU32 (bytes : Bytes) (start : Nat) : UInt32 :=
  UInt32.ofNat (leValue (slice bytes start (start + 4)))

/-- `match bytes[3]`. -/
def decodeKind (code : UInt8) : Except DeltaError PacketKind :=
  if code = 1 then .ok .snapshot
  else if code = 2 then .ok .delta
  else .error (.invalidPacket ("unknown packet kind " ++ toString code.toNat))

/-- The fixed-width slices of the header are inside the input once its length is checked, so
    their conversions cannot fail. -/
def decodeWithConfig (X : Crates) (bytes : Bytes) (config : DecodeConfig) :
    Except DeltaError Packet :=
  if bytes.length > config.maxPacketBytes then
    .error (.packetTooLarge config.maxPacketBytes bytes.length)
  else if bytes.length < HEADER_LEN then .error (.invalidPacket "packet shorter than header")
  else if slice bytes 0 2 ≠ MAGIC then .error (.invalidPacket "bad magic")
  else
    let version := bytes.getD 2 0
    if ¬(MIN_WIRE_VERSION ≤ version ∧ version ≤ WIRE_VERSION) then
      .error (.protocolVersionRange version MIN_WIRE_VERSION WIRE_VERSION)
    else
      match decodeKind (bytes.getD 3 0) with
      | .error e => .error e
      | .ok kind =>
        let flags := UInt16.ofNat (leValue (slice bytes 4 6))
        if flags &&& ~~~KNOWN_FLAGS ≠ 0 then .error (.invalidPacket "unknown packet flags")
        else
          let payloadLen := (readU32 bytes 42).toNat
          let expectedLen := HEADER_LEN + payloadLen
          if payloadLen > MAX_WIRE_PAYLOAD ∨ expectedLen > config.maxPacketBytes then
            .error (.packetTooLarge config.maxPacketBytes expectedLen)
          else if bytes.length ≠ expectedLen then
            .error (.invalidPacket "payload length mismatch")
          else
            let payload := bytes.drop HEADER_LEN
            let checksum := readU32 bytes 38
            if X.crc32 payload ≠ checksum then
              .error (.checksumMismatch checksum (X.crc32 payload))
            else
              .ok ⟨kind, flags, readU64 bytes 6, readU64 bytes 14, readU64 bytes 22,
                readU64 bytes 30, payload⟩

def decode (X : Crates) (bytes : Bytes) : Except DeltaError Packet :=
  decodeWithConfig X bytes DecodeConfig.default

/-! ## Round trip of the envelope -/

theorem encode_ok {X : Crates} {p : Packet} {bytes : Bytes} (h : p.encode X = .ok bytes) :
    p.flags &&& ~~~KNOWN_FLAGS = 0 ∧ p.payload.length ≤ MAX_WIRE_PAYLOAD ∧
      bytes = p.header X ++ p.payload := by
  unfold encode at h
  split at h
  · cases h
  rename_i hflags
  split at h
  · cases h
  rename_i hlen
  split at h
  · cases h
  cases h
  exact ⟨by simpa using hflags, by omega, rfl⟩

theorem encode_of_fits {X : Crates} {p : Packet} (hflags : p.flags &&& ~~~KNOWN_FLAGS = 0)
    (hlen : p.payload.length ≤ MAX_WIRE_PAYLOAD) :
    p.encode X = .ok (p.header X ++ p.payload) := by
  have hmax : MAX_WIRE_PAYLOAD ≤ U32_MAX := by decide
  unfold encode
  rw [if_neg (by simpa using hflags), if_neg (by omega), if_neg (by omega)]

theorem header_length (X : Crates) (p : Packet) : (p.header X).length = HEADER_LEN := rfl

theorem encode_length {X : Crates} {p : Packet} {bytes : Bytes} (h : p.encode X = .ok bytes) :
    bytes.length = p.encodedLen := by
  obtain ⟨-, -, rfl⟩ := encode_ok h
  rw [List.length_append, header_length]
  rfl

theorem readU64_eq {bytes : Bytes} {start : Nat} {v : UInt64}
    (h : slice bytes start (start + 8) = leBytes 8 v.toNat) : readU64 bytes start = v := by
  apply UInt64.toNat_inj.mp
  have hv := v.toNat_lt
  unfold readU64
  rw [h, leValue_leBytes, UInt64.toNat_ofNat']
  omega

theorem readU32_eq {bytes : Bytes} {start v : Nat} (hv : v < 2 ^ 32)
    (h : slice bytes start (start + 4) = leBytes 4 v) : (readU32 bytes start).toNat = v := by
  unfold readU32
  rw [h, leValue_leBytes, UInt32.toNat_ofNat']
  omega

theorem decodeKind_code (k : PacketKind) : decodeKind k.code = .ok k := by
  cases k <;> rfl

/-- A supported version in place of the version byte makes no difference. -/
theorem decodeWithConfig_version {X : Crates} {p : Packet} {bytes : Bytes}
    {config : DecodeConfig} {version : UInt8} (h : p.encode X = .ok bytes)
    (hmax : p.encodedLen ≤ config.maxPacketBytes)
    (hversion : MIN_WIRE_VERSION ≤ version ∧ version ≤ WIRE_VERSION) :
    decodeWithConfig X (bytes.set 2 version) config = .ok p := by
  have hlen : (bytes.set 2 version).length = p.encodedLen := by
    rw [List.length_set, encode_length h]
  obtain ⟨hflags, hpay, rfl⟩ := encode_ok h
  have hexp : p.encodedLen = HEADER_LEN + p.payload.length := rfl
  have hdrop : ((p.header X ++ p.payload).set 2 version).drop HEADER_LEN = p.payload := rfl
  have hmagic : slice ((p.header X ++ p.payload).set 2 version) 0 2 = MAGIC := rfl
  have hver : ((p.header X ++ p.payload).set 2 version).getD 2 0 = version := rfl
  have hkind : ((p.header X ++ p.payload).set 2 version).getD 3 0 = p.kind.code := rfl
  have hfl : UInt16.ofNat (leValue (slice ((p.header X ++ p.payload).set 2 version) 4 6)) =
      p.flags := by
    have hs : slice ((p.header X ++ p.payload).set 2 version) 4 6 = leBytes 2 p.flags.toNat := rfl
    have hf := p.flags.toNat_lt
    apply UInt16.toNat_inj.mp
    rw [hs, leValue_leBytes, UInt16.toNat_ofNat']
    omega
  have hcrc : readU32 ((p.header X ++ p.payload).set 2 version) 38 = X.crc32 p.payload :=
    UInt32.toNat_inj.mp (readU32_eq (X.crc32 p.payload).toNat_lt rfl)
  have hplen : (readU32 ((p.header X ++ p.payload).set 2 version) 42).toNat = p.payload.length :=
    readU32_eq (by have : MAX_WIRE_PAYLOAD < 2 ^ 32 := by decide
                   omega) rfl
  have hseq : readU64 ((p.header X ++ p.payload).set 2 version) 6 = p.sequence := readU64_eq rfl
  have hbase : readU64 ((p.header X ++ p.payload).set 2 version) 14 = p.baseSequence :=
    readU64_eq rfl
  have hbh : readU64 ((p.header X ++ p.payload).set 2 version) 22 = p.baseHash := readU64_eq rfl
  have hsh : readU64 ((p.header X ++ p.payload).set 2 version) 30 = p.schemaHash :=
    readU64_eq rfl
  unfold decodeWithConfig
  rw [if_neg (by omega), if_neg (by omega), if_neg (by simp [hmagic])]
  simp only [hver, hkind, decodeKind_code, hfl, hplen, hdrop, hcrc, hseq, hbase, hbh, hsh]
  rw [if_neg (not_not_intro hversion), if_neg (by simpa using hflags), if_neg (by omega),
    if_neg (by omega), if_neg (by simp)]

/-- **Round trip**: what a packet encodes to decodes to that packet. -/
theorem decodeWithConfig_encode {X : Crates} {p : Packet} {bytes : Bytes}
    {config : DecodeConfig} (h : p.encode X = .ok bytes)
    (hmax : p.encodedLen ≤ config.maxPacketBytes) : decodeWithConfig X bytes config = .ok p := by
  have hversion : bytes.set 2 WIRE_VERSION = bytes := by
    obtain ⟨-, -, rfl⟩ := encode_ok h
    rfl
  rw [← hversion]
  exact decodeWithConfig_version h hmax (by decide)

/-! ## Compression -/

@[simp] theorem snapshot_isCompressed (s h c : UInt64) (b : Bytes) :
    (snapshot s h c b).isCompressed = false := by
  simp [isCompressed, snapshot]

@[simp] theorem delta_isCompressed (s bs h c : UInt64) (b : Bytes) :
    (delta s bs h c b).isCompressed = false := by
  simp [isCompressed, delta]

/-- `q` is `p` with its payload compressed: same header fields, flag set. -/
structure Compresses (X : Crates) (level : Int) (p q : Packet) : Prop where
  compressed : X.compress p.payload level = .ok q.payload
  eq : q = { p with payload := q.payload, flags := p.flags ||| FLAG_COMPRESSED_ZSTD }

/-- The two outcomes of a zstd candidate. -/
theorem zstdCandidate_cases {X : Crates} {p q : Packet} {level : Int} {minSavings : Nat}
    (h : p.zstdCandidate X level minSavings = .ok q) : q = p ∨ Compresses X level p q := by
  unfold zstdCandidate at h
  split at h
  · cases h
    exact .inl rfl
  split at h
  · cases h
  rename_i c hc
  split at h
  · cases h
    exact .inl rfl
  · cases h
    exact .inr ⟨hc, rfl⟩

/-- A candidate is never longer than the packet. -/
theorem zstdCandidate_length {X : Crates} {p q : Packet} {level : Int} {minSavings : Nat}
    (hlen : p.payload.length ≤ U64_MAX) (h : p.zstdCandidate X level minSavings = .ok q) :
    q.encodedLen ≤ p.encodedLen := by
  unfold zstdCandidate at h
  split at h
  · cases h
    exact Nat.le_refl _
  split at h
  · cases h
  rename_i c hc
  split at h
  · cases h
    exact Nat.le_refl _
  · rename_i hsave
    cases h
    unfold saturatingAdd at hsave
    unfold encodedLen
    simp only
    omega

theorem zstdCandidate_total {X : Crates} (hX : X.CompressTotal) (p : Packet) (level : Int)
    (minSavings : Nat) : ∃ q, p.zstdCandidate X level minSavings = .ok q := by
  obtain ⟨c, hc⟩ := hX p.payload level
  unfold zstdCandidate
  split
  · exact ⟨p, rfl⟩
  · simp only [hc]
    split
    · exact ⟨_, rfl⟩
    · exact ⟨_, rfl⟩

/-- It fails only where compressing the payload does. -/
theorem zstdCandidate_error {X : Crates} {p : Packet} {level : Int} {minSavings : Nat}
    {e : DeltaError} (h : p.zstdCandidate X level minSavings = .error e) :
    ∃ msg, X.compress p.payload level = .error msg ∧ e = .compression msg := by
  unfold zstdCandidate at h
  split at h
  · cases h
  split at h
  · rename_i msg hmsg
    cases h
    exact ⟨msg, hmsg, rfl⟩
  · split at h
    · cases h
    · cases h

theorem flag_set (flags : UInt16) :
    (flags ||| FLAG_COMPRESSED_ZSTD) &&& FLAG_COMPRESSED_ZSTD ≠ 0 := by
  intro h
  have hbit := congrArg (fun f : UInt16 => f.toBitVec.getLsbD 0) h
  simp [FLAG_COMPRESSED_ZSTD] at hbit

theorem Compresses.isCompressed {X : Crates} {level : Int} {p q : Packet}
    (h : Compresses X level p q) : q.isCompressed = true := by
  unfold Packet.isCompressed
  rw [h.eq]
  simpa using flag_set p.flags

/-- Uncompressed: the logical payload is the payload, if it fits. -/
theorem logicalPayload_raw {X : Crates} {p : Packet} {config : DecodeConfig}
    (h : p.isCompressed = false) (hlen : p.payload.length ≤ config.maxDecompressedBytes) :
    p.logicalPayloadWithConfig X config = .ok p.payload := by
  unfold logicalPayloadWithConfig
  rw [h]
  simp only [Bool.not_false, if_true]
  rw [if_neg (by omega)]

theorem logicalPayload_raw_ok {X : Crates} {p : Packet} {config : DecodeConfig} {out : Bytes}
    (h : p.isCompressed = false) (hout : p.logicalPayloadWithConfig X config = .ok out) :
    out = p.payload := by
  unfold logicalPayloadWithConfig at hout
  rw [h] at hout
  simp only [Bool.not_false, if_true] at hout
  split at hout
  · cases hout
  · cases hout
    rfl

/-- Compressed: a logical payload that comes out is the original payload. -/
theorem logicalPayload_compressed_ok {X : Crates} {level : Int} {p q : Packet}
    {config : DecodeConfig} {out : Bytes} (hX : X.DecompressInverts)
    (h : Compresses X level p q) (hout : q.logicalPayloadWithConfig X config = .ok out) :
    out = p.payload := by
  unfold logicalPayloadWithConfig at hout
  rw [h.isCompressed] at hout
  simp only [Bool.not_true, Bool.false_eq_true, if_false] at hout
  split at hout
  · cases hout
  · rename_i o ho
    cases hout
    exact hX _ _ _ h.compressed _ _ ho

/-- Compressed: within the limit the original payload comes out. -/
theorem logicalPayload_compressed {X : Crates} {level : Int} {p q : Packet}
    {config : DecodeConfig} (hX : X.ZstdExact) (h : Compresses X level p q)
    (hlen : p.payload.length ≤ config.maxDecompressedBytes) :
    q.logicalPayloadWithConfig X config = .ok p.payload := by
  unfold logicalPayloadWithConfig
  rw [h.isCompressed, hX.fits _ _ _ h.compressed _ hlen]
  rfl

/-- Compressed: beyond the limit the packet is refused. -/
theorem logicalPayload_refused {X : Crates} {level : Int} {p q : Packet}
    {config : DecodeConfig} (hX : X.ZstdExact) (h : Compresses X level p q)
    (hlen : config.maxDecompressedBytes < p.payload.length) :
    ∃ e, q.logicalPayloadWithConfig X config = .error e := by
  obtain ⟨msg, hmsg⟩ := hX.refuses _ _ _ h.compressed _ hlen
  unfold logicalPayloadWithConfig
  rw [h.isCompressed, hmsg]
  exact ⟨_, rfl⟩

/-! ## Copies -/

/-- The packet itself or a compressed copy. -/
def CopyOf (X : Crates) (raw p : Packet) : Prop := p = raw ∨ ∃ level, Compresses X level raw p

/-- Two packets that differ in flags and payload at most. -/
structure SameHeader (p q : Packet) : Prop where
  kind : p.kind = q.kind
  sequence : p.sequence = q.sequence
  baseSequence : p.baseSequence = q.baseSequence
  baseHash : p.baseHash = q.baseHash
  schemaHash : p.schemaHash = q.schemaHash

theorem CopyOf.header {X : Crates} {raw p : Packet} (h : CopyOf X raw p) : SameHeader p raw := by
  rcases h with rfl | ⟨level, hc⟩
  · exact ⟨rfl, rfl, rfl, rfl, rfl⟩
  · rw [hc.eq]
    exact ⟨rfl, rfl, rfl, rfl, rfl⟩

/-- A logical payload that comes out of a copy is the raw payload. -/
theorem CopyOf.payload_ok {X : Crates} {raw p : Packet} {config : DecodeConfig} {out : Bytes}
    (hX : X.DecompressInverts) (hraw : raw.isCompressed = false) (h : CopyOf X raw p)
    (hout : p.logicalPayloadWithConfig X config = .ok out) : out = raw.payload := by
  rcases h with rfl | ⟨level, hc⟩
  · exact logicalPayload_raw_ok hraw hout
  · exact logicalPayload_compressed_ok hX hc hout

/-- Within the limit it does come out. -/
theorem CopyOf.payload_fits {X : Crates} {raw p : Packet} {config : DecodeConfig}
    (hX : X.ZstdExact) (hraw : raw.isCompressed = false) (h : CopyOf X raw p)
    (hlen : raw.payload.length ≤ config.maxDecompressedBytes) :
    p.logicalPayloadWithConfig X config = .ok raw.payload := by
  rcases h with rfl | ⟨level, hc⟩
  · exact logicalPayload_raw hraw hlen
  · exact logicalPayload_compressed hX hc hlen

/-- Beyond the limit it is refused. -/
theorem CopyOf.payload_refused {X : Crates} {raw p : Packet} {config : DecodeConfig}
    (hX : X.ZstdExact) (hraw : raw.isCompressed = false) (h : CopyOf X raw p)
    (hlen : config.maxDecompressedBytes < raw.payload.length) :
    ∃ e, p.logicalPayloadWithConfig X config = .error e := by
  rcases h with rfl | ⟨level, hc⟩
  · unfold logicalPayloadWithConfig
    rw [hraw]
    simp only [Bool.not_false, if_true]
    rw [if_pos hlen]
    exact ⟨_, rfl⟩
  · exact logicalPayload_refused hX hc hlen

/-- So the limit alone decides what comes out. -/
theorem CopyOf.payload_toOption {X : Crates} {raw p : Packet} {config : DecodeConfig}
    (hX : X.ZstdExact) (hraw : raw.isCompressed = false) (h : CopyOf X raw p) :
    (p.logicalPayloadWithConfig X config).toOption =
      if raw.payload.length ≤ config.maxDecompressedBytes then some raw.payload else none := by
  by_cases hlen : raw.payload.length ≤ config.maxDecompressedBytes
  · rw [h.payload_fits hX hraw hlen, if_pos hlen]
    rfl
  · obtain ⟨e, he⟩ := h.payload_refused hX hraw (Nat.lt_of_not_le hlen)
    rw [he, if_neg hlen]
    rfl

/-- A copy that fits the wire travels and is decoded under the default limits. -/
theorem CopyOf.wire {X : Crates} {raw p : Packet} (hraw : raw.flags = 0) (h : CopyOf X raw p)
    (hlen : p.encodedLen ≤ HEADER_LEN + MAX_WIRE_PAYLOAD) :
    ∃ bytes, p.encode X = .ok bytes ∧ decode X bytes = .ok p := by
  have hflags : p.flags &&& ~~~KNOWN_FLAGS = 0 := by
    rcases h with rfl | ⟨level, hc⟩
    · rw [hraw]
      decide
    · rw [hc.eq]
      simp only [hraw]
      decide
  have hpay : p.payload.length ≤ MAX_WIRE_PAYLOAD := Nat.le_of_add_le_add_left hlen
  have henc := encode_of_fits (X := X) hflags hpay
  exact ⟨_, henc, decodeWithConfig_encode henc hlen⟩

end Packet

end DeltaStream
