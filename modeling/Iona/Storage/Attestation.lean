import Iona.Prim

/-!
# Snapshot attestations

`verify_attestation` counts the signatures of a manifest that a listed validator key made over the
height and the state root, and compares the count with the threshold the manifest itself states
(`storage/snapshots.rs`).
-/

namespace Iona.Snapshots

open Bytes

variable (C : Crypto) (b64 : String → Option (List UInt8))

variable {C b64} {keys : List String} {msg : List UInt8} {sigs : List AttestationSig}

end Iona.Snapshots
