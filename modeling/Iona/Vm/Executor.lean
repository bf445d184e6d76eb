import Iona.Rpc.ChainStore
import Iona.Vm.Interpreter

/-!
# Deploying and calling contracts

`vm_executor.rs`.
-/

namespace Iona.Vm

structure VmExecutorConfig where
  maxCodeSize : ℕ := 24576
  defaultGasLimit : UInt64 := 10000000
  defaultDeployGasLimit : UInt64 := 20000000

def minGasLimit : UInt64 := 21000

inductive VmExecutorError where
  | codeTooLarge (size max : ℕ)
  | contractAlreadyExists (address : Word)
  | noCodeAtAddress (address : Word)
  | constructorRevert (data : List UInt8)
  | callRevert (gasUsed : ℕ) (data : List UInt8)
  | vmError (e : VmError)
  | emptyInitCode
  | gasLimitTooLow (gasLimit minimum : UInt64)
  deriving DecidableEq

structure DeploySuccess where
  contract : Word
  gasUsed : ℕ
  logs : List VmLog
  returnData : List UInt8
  deriving DecidableEq

structure CallSuccess where
  gasUsed : ℕ
  logs : List VmLog
  returnData : List UInt8
  deriving DecidableEq

/-! ### Payloads -/

inductive Payload where
  | deploy (initCode : List UInt8)
  | call (contract : Word) (calldata : List UInt8)
  deriving DecidableEq

def hexArg (arg : String) : Option (List UInt8) :=
  Bytes.hexDecode (String.ofList (ChainStore.trimHexPrefix arg.toList))

def parseVmPayload (payload : String) : Option Payload :=
  let payload := Text.trim payload
  if !Text.startsWith "vm " payload then none
  else match Text.splitWhitespace payload with
    | _ :: "deploy" :: args => (hexArg (args.headD "")).map .deploy
    | _ :: "call" :: contract :: args => do
      let contract ← wordOf (← hexArg contract)
      return .call contract ((hexArg (args.headD "")).getD [])
    | _ => none

/-! ### Execution -/

variable (C : Crypto) (keccak : List UInt8 → Word) (fuel : ℕ) (cfg : VmExecutorConfig)

def deriveContractAddress (sender : Word) (nonce : UInt64) : Word :=
  C.blake3 (sender.toList ++ (Bytes.ofU64 nonce).reverse)

def deploy (state : State) (sender : Word) (initCode : List UInt8) (gasLimit : Option UInt64) :
    Res VmExecutorError DeploySuccess × State :=
  let gasLimit := gasLimit.getD cfg.defaultDeployGasLimit
  if gasLimit < minGasLimit then (.error (.gasLimitTooLow gasLimit minGasLimit), state)
  else if initCode = [] then (.error .emptyInitCode, state)
  else
    let contract := deriveContractAddress C sender (state.getNonce sender)
    if state.getCode contract ≠ [] then (.error (.contractAlreadyExists contract), state)
    else match execute keccak fuel state contract initCode [] sender 0 gasLimit.toNat 0 false with
      | (.error e, _) => (.error (.vmError e), state)
      | (.abort why, _) => (.abort why, state)
      | (.ok r, tmp) =>
        if r.reverted then (.error (.constructorRevert r.returnData), state)
        else if cfg.maxCodeSize < r.returnData.length then
          (.error (.codeTooLarge r.returnData.length cfg.maxCodeSize), state)
        else
          let state := tmp.setCode contract r.returnData
          -- the nonce is incremented with an overflow check
          match Machine.checked ((state.getNonce sender).toNat + 1) with
          | none => (.abort .panic, state)
          | some nonce =>
            (.ok { contract, gasUsed := r.gasUsed, logs := state.logs, returnData := r.returnData },
              { state with nonces := state.nonces.insert sender nonce, logs := [] })

def call (state : State) (sender contract : Word) (calldata : List UInt8)
    (gasLimit : Option UInt64) : Res VmExecutorError CallSuccess × State :=
  let gasLimit := gasLimit.getD cfg.defaultGasLimit
  if gasLimit < minGasLimit then (.error (.gasLimitTooLow gasLimit minGasLimit), state)
  else
    let code := state.getCode contract
    if code = [] then (.error (.noCodeAtAddress contract), state)
    else match execute keccak fuel state contract code calldata sender 0 gasLimit.toNat 0 false with
      | (.error e, _) => (.error (.vmError e), state)
      | (.abort why, _) => (.abort why, state)
      | (.ok r, tmp) =>
        if r.reverted then (.error (.callRevert r.gasUsed r.returnData), state)
        else
          (.ok { gasUsed := r.gasUsed, logs := tmp.logs, returnData := r.returnData },
            { tmp with logs := [] })

variable {gasLimit : Option UInt64} {e : VmExecutorError}

end Iona.Vm
