import Iona.Lib.Floats
import Iona.Lib.Trace
import Iona.Staking.Failure
import Iona.Vm.Executor

/-! # What a failed transaction leaves behind -/

namespace Iona

open F64

/-- The two floating-point figures of a state. They enter no root and no decision. -/
structure Figures (F : Type) where
  coherence : F
  entanglementEntropy : F
  deriving DecidableEq

variable {F : Type}

def Figures.applyDecoherence [F64 F] (f : Figures F) (strength : ℚ) : Figures F :=
  let coherence := f.coherence * exp (-lit strength)
  { coherence, entanglementEntropy := -coherence * ln coherence }

/-- The whole state that `apply_tx` works on: the ledger with its staking data, the parts of the VM
storage that no ledger operation reads, and the figures. -/
structure World (F : Type) where
  ledger : Ledger
  figures : Figures F
  logs : List Vm.VmLog := []
  originAddr : Word := Vm.zero
  gasPriceValue : ℕ := 0
  maxLogs : ℕ := 1024

namespace World

def vm (w : World F) : Vm.State where
  toVmStorage := w.ledger.kv.vm
  logs := w.logs
  originAddr := w.originAddr
  gasPriceValue := w.gasPriceValue
  maxLogs := w.maxLogs

end World

/-- What `apply_tx` takes from its surroundings: parameters, clock, VM and error texts. -/
structure CallSite where
  params : EconomicsParams
  epoch : UInt64
  stakingText : StakingTxError → String
  vmConfig : Vm.VmExecutorConfig
  vmAccount : String → Word
  vmGasLimit : UInt64
  vmText : Vm.VmExecutorError → String
  vmGasOnError : Vm.VmExecutorError → UInt64
  keccak : List UInt8 → Word
  fuel : ℕ

variable (C : Crypto) (S : CallSite)

variable [F64 F]

def World.applyDecoherence (w : World F) (strength : ℚ) : World F :=
  { w with figures := w.figures.applyDecoherence strength }

def CallSite.demo : CallSite where
  params := {}
  epoch := 3
  stakingText _ := "rejected"
  vmConfig := {}
  vmAccount _ := Vm.zero
  vmGasLimit := 100000
  vmText _ := "failed"
  vmGasOnError _ := 0
  keccak _ := Vm.zero
  fuel := 100

end Iona
