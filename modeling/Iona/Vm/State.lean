import Iona.Vm.Word

/-!
# The state of the VM

From `vm/state.rs` and `vm/gas.rs`.
-/

namespace Iona.Vm

inductive VmError where
  | outOfGas
  | invalidOpcode (opcode : UInt8)
  | stackUnderflow (need have_ : ℕ)
  | stackOverflow (limit : ℕ)
  | arithmeticOverflow (operation : String)
  | memoryLimit (size limit : ℕ)
  | memoryOffsetOverflow (offset size : ℕ)
  | invalidJump (dest : ℕ)
  | callDepth (limit : ℕ)
  | writeProtection (reason : String)
  | codeTooLarge (size limit : ℕ)
  | returnDataOob (offset size len : ℕ)
  | insufficientBalance (have_ need : ℕ)
  | revert (reason : List UInt8)
  | internal (message : String)
  deriving DecidableEq

/-! ### Accounts, storage and logs -/

structure VmLog where
  contract : Word
  topics : List Word
  data : List UInt8
  deriving DecidableEq

@[ext]
structure State extends VmStorage where
  logs : List VmLog := []
  originAddr : Word := zero
  gasPriceValue : ℕ := 0
  maxLogs : ℕ := 1024
  deriving DecidableEq

def u128Max : ℕ := 2 ^ 128 - 1

namespace State

def sload (st : State) (contract key : Word) : Word := st.storage.getD (contract, key) zero

def sstore (st : State) (contract key value : Word) : State :=
  if value = zero then { st with storage := st.storage.erase (contract, key) }
  else { st with storage := st.storage.insert (contract, key) value }

lemma sload_sstore (st : State) (contract key value contract' key' : Word) :
    (st.sstore contract key value).sload contract' key' =
      if (contract', key') = (contract, key) then value else st.sload contract' key' := by
  have hcmp : compare (contract, key) (contract', key') = .eq ↔
      (contract', key') = (contract, key) := Std.compare_eq_iff_eq.trans eq_comm
  unfold sstore sload
  split
  · rename_i hzero
    rw [Std.ExtTreeMap.getD_erase, hzero]
    exact if_congr hcmp rfl rfl
  · rw [Std.ExtTreeMap.getD_insert]
    exact if_congr hcmp rfl rfl

def getCode (st : State) (contract : Word) : List UInt8 := st.code.getD contract []

def setCode (st : State) (contract : Word) (code : List UInt8) : State :=
  if code = [] then { st with code := st.code.erase contract }
  else { st with code := st.code.insert contract code }

/-- `emit_log`: the oldest logs make room; `drain` panics past the end of the list. -/
def emitLog (st : State) (contract : Word) (topics : List Word) (data : List UInt8) :
    Option State :=
  let log : VmLog := { contract, topics, data }
  if st.maxLogs ≤ st.logs.length then
    let excess := st.logs.length + 1 - st.maxLogs
    if excess ≤ st.logs.length then some { st with logs := st.logs.drop excess ++ [log] } else none
  else some { st with logs := st.logs ++ [log] }

def balance (st : State) (address : Word) : ℕ := st.balances.getD address 0

def transferBalance (st : State) (src dst : Word) (amount : ℕ) : Except VmError State :=
  let fromBalance := st.balance src
  if fromBalance < amount then .error (.insufficientBalance fromBalance amount)
  else
    let newFrom := fromBalance - amount
    let newTo := min (st.balance dst + amount) u128Max
    .ok { st with balances := (st.balances.insert src newFrom).insert dst newTo }

def setBalance (st : State) (a : Word) (v : ℕ) : State := { st with balances := st.balances.insert a v }

lemma transferBalance_ok {st : State} {src dst : Word} {amount : ℕ} (h : amount ≤ st.balance src) :
    st.transferBalance src dst amount =
      .ok ((st.setBalance src (st.balance src - amount)).setBalance dst
        (min (st.balance dst + amount) u128Max)) :=
  if_neg (not_lt.mpr h)

lemma transferBalance_error {st : State} {src dst : Word} {amount : ℕ} (h : st.balance src < amount) :
    st.transferBalance src dst amount = .error (.insufficientBalance (st.balance src) amount) :=
  if_pos h

def transferIgnored (st : State) (src dst : Word) (amount : ℕ) : State :=
  match st.transferBalance src dst amount with
  | .ok st => st
  | .error _ => st

def getNonce (st : State) (contract : Word) : UInt64 := st.nonces.getD contract 0

/-- `inc_nonce`: returns the previous nonce; the counter wraps. -/
def incNonce (st : State) (contract : Word) : UInt64 × State :=
  (st.getNonce contract, { st with nonces := st.nonces.insert contract (st.getNonce contract + 1) })

def deriveAddress (creator : Word) (tag : List UInt8) : Word :=
  Vector.ofFn fun i => ((creator.toList.take 8 ++ tag).getD i 0)

def createContract (st : State) (creator : Word) (value : ℕ) (initCode : List UInt8) :
    Word × State :=
  let (nonce, st) := st.incNonce creator
  let addr := deriveAddress creator (Bytes.ofU64 nonce)
  (addr, (st.setCode addr initCode).transferIgnored creator addr value)

def create2Contract (st : State) (creator : Word) (value : ℕ) (initCode : List UInt8)
    (salt : Word) : Word × State :=
  let addr := deriveAddress creator (salt.toList.take 8)
  (addr, (st.setCode addr initCode).transferIgnored creator addr value)

def deleteContract (st : State) (contract : Word) : State :=
  { st with
    code := st.code.erase contract
    storage := st.storage.filter fun key _ => key.1 ≠ contract
    balances := st.balances.erase contract
    nonces := st.nonces.erase contract }

lemma sload_deleteContract (st : State) (contract contract' key : Word) :
    (st.deleteContract contract).sload contract' key =
      if contract' = contract then zero else st.sload contract' key := by
  unfold deleteContract sload
  simp only [Std.ExtTreeMap.getD_eq_getD_getElem?]
  rw [Std.ExtTreeMap.getElem?_filter']
  rcases st.storage[(contract', key)]? with _ | v
  · simp
  · by_cases h : contract' = contract <;> simp [h, Option.filter]

end State

/-! ### Gas -/

def maxGasPerTx : ℕ := 30000000

structure GasMeter where
  limit : ℕ
  used : ℕ := 0
  refund : ℕ := 0
  maxRefundCache : ℕ := 0
  deriving DecidableEq

namespace GasMeter

def new (limit : ℕ) : GasMeter := { limit := max (min limit maxGasPerTx) 1 }

def remaining (g : GasMeter) : ℕ := g.limit - g.used

def setUsed (g : GasMeter) (used : ℕ) : GasMeter := { g with used, maxRefundCache := used / 2 }

def charge (g : GasMeter) (amount : ℕ) : Except VmError Unit × GasMeter :=
  if amount = 0 then (.ok (), g)
  else if Machine.u64Max < g.used + amount then (.error (.internal "gas charge failed"), g)
  else if g.limit < g.used + amount then (.error .outOfGas, g.setUsed g.limit)
  else (.ok (), g.setUsed (g.used + amount))

def addRefund (g : GasMeter) (amount : ℕ) : Except VmError GasMeter :=
  if amount = 0 then .ok g
  else if Machine.u64Max < g.refund + amount then .error (.internal "refund overflow")
  else .ok { g with refund := min (g.refund + amount) g.maxRefundCache }

end GasMeter

def memoryCostWords (words : ℕ) : ℕ :=
  min (min (words * 3) Machine.u64Max + min (words * words) Machine.u64Max / 512) Machine.u64Max

/-! ### Memory -/

abbrev Memory := List UInt8

namespace Memory

def maxSize : ℕ := 4 * 1024 * 1024

def words (mem : Memory) : ℕ := (mem.length + 31) / 32

def growTo (mem : Memory) (newSize : ℕ) : Except VmError Memory :=
  if maxSize < newSize then .error (.memoryLimit newSize maxSize)
  else .ok (mem ++ List.replicate (newSize - mem.length) 0)

def ensure (mem : Memory) (offset size : ℕ) : Except VmError Memory :=
  if size = 0 then .ok mem
  else if Machine.u64Max < offset + size then .error (.memoryOffsetOverflow offset size)
  else mem.growTo (offset + size)

end Memory

end Iona.Vm
