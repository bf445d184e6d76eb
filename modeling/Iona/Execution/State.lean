import Iona.Types
import Iona.Merkle
import Iona.Lib.Machine
import Iona.Lib.Text

/-!
# The application state

From `execution.rs`.
-/

namespace Iona

abbrev Word := Vector UInt8 32

instance transOrdSlot : Std.TransOrd (Word × Word) := inferInstance

@[ext]
structure VmStorage where
  storage : BTreeMap (Word × Word) Word := ∅
  code : BTreeMap Word (List UInt8) := ∅
  nonces : BTreeMap Word UInt64 := ∅
  balances : BTreeMap Word ℕ := ∅
  deriving DecidableEq

/-- The application state. Its two figures `coherence` and `entanglement_entropy` enter no root and
no decision and are left out here; `Execution.Failure` adds them. -/
@[ext]
structure KvState where
  kv : BTreeMap String String := ∅
  balances : BTreeMap String UInt64 := ∅
  nonces : BTreeMap String UInt64 := ∅
  burned : UInt64 := 0
  vm : VmStorage := {}
  deriving DecidableEq

namespace KvState

def combined (C : Crypto) (st : KvState) : BTreeMap String String :=
  let m : BTreeMap String String := ∅
  let m := st.kv.foldl (fun m k v => m.insert ("kv:" ++ k) v) m
  let m := st.balances.foldl (fun m addr bal => m.insert ("bal:" ++ addr) (toString bal.toNat)) m
  let m := st.nonces.foldl (fun m addr n => m.insert ("nonce:" ++ addr) (toString n.toNat)) m
  let m := m.insert "burned" (toString st.burned.toNat)
  let m := st.vm.storage.foldl (fun m key value =>
    m.insert ("vm_storage:" ++ Bytes.hexEncode key.1.toList ++ ":" ++ Bytes.hexEncode key.2.toList)
      (Bytes.hexEncode value.toList)) m
  st.vm.code.foldl (fun m contract code =>
    m.insert ("vm_code:" ++ Bytes.hexEncode contract.toList)
      (Bytes.hexEncode (C.sha256 code).toList)) m

def root (C : Crypto) (st : KvState) (cache : Merkle.RootCache) : Hash32 × Merkle.RootCache :=
  Merkle.stateMerkleRoot C (st.combined C) cache

end KvState

/-! ### Fees -/

def elasticityDenom : ℕ := 4

def intrinsicGasBase : ℕ := 21000

def gasPerByte : UInt64 := 10

def nextBaseFee (prevBase gasUsed gasTarget : UInt64) : Option UInt64 :=
  if gasTarget = 0 then some (max prevBase 1)
  else
    let prevBase := max prevBase 1
    if gasUsed > gasTarget then do
      let scaled ← Machine.checked (prevBase.toNat * (gasUsed.toNat - gasTarget.toNat))
      let raised ← Machine.checked
        (prevBase.toNat + max (scaled.toNat / gasTarget.toNat / elasticityDenom) 1)
      pure (max raised 1)
    else do
      let scaled ← Machine.checked (prevBase.toNat * (gasTarget.toNat - gasUsed.toNat))
      pure (max (Machine.satSub prevBase
        (.ofNat (max (scaled.toNat / gasTarget.toNat / elasticityDenom) 1))) 1)

def intrinsicGas (payload : String) : Option UInt64 :=
  Machine.checked (intrinsicGasBase +
    (Machine.satMul (.ofNat (Bytes.utf8 payload).length) gasPerByte).toNat)

/-! ### Errors and payloads -/

inductive ExecutionError where
  | invalidTx (reason : String)
  | invalidSignature
  | entanglementBroken
  | duplicateTx (hash : String)
  | gasOverflow (limit : UInt64)
  deriving DecidableEq

def ExecutionError.text : ExecutionError → String
  | invalidTx reason => "invalid transaction quantum state: " ++ reason
  | invalidSignature => "signature quantum state verification failed"
  | entanglementBroken => "entanglement broken: parallel execution conflict"
  | duplicateTx hash => "transaction already executed: duplicate hash " ++ hash
  | gasOverflow limit => "gas overflow: exceeded block gas limit " ++ toString limit.toNat

def applyKvPayload (kv : BTreeMap String String) (payload : String) :
    Option (Except ExecutionError (BTreeMap String String)) :=
  match Text.splitWhitespace payload with
  | [] => some (.error (.invalidTx "empty payload"))
  | "set" :: key :: val :: rest => some (.ok (kv.insert key (" ".intercalate (val :: rest))))
  | ["del", key] => some (.ok (kv.erase key))
  | ["inc", key] =>
    let n := (Text.parseI64 (kv.getD key "0")).getD 0
    -- `n + 1` overflows on the greatest `i64`
    if n + 1 < 2 ^ 63 then some (.ok (kv.insert key (toString (n + 1)))) else none
  | _ => some (.error (.invalidTx "unknown KV command"))

end Iona
