import Iona.Vm.Evm
import Iona.Vm.Handlers

/-!
# Opcodes and the EVM's stack convention

`binop` pops `b`, then `a`, and pushes `f(a, b)`: the word on top is the second argument, and on
the EVM it is the first.
-/

namespace Iona.Vm

/-! ### The binary opcodes -/

lemma outcome_binop {f : Word → Word → Option Word} {g : BitVec 256 → BitVec 256 → BitVec 256}
    (hf : ∀ x y, f y x = some (Word.ofBits (g (Word.bits x) (Word.bits y)))) {cost : ℕ}
    (hcost : fullMeter.charge cost = (.ok (), fullMeter.setUsed cost)) {it : Interpreter}
    (hgas : it.core.gas = fullMeter) (hlen : it.core.stack.length ≤ stackLimit) :
    outcome (onCore (binop f cost) it) = Evm.operands it.core fun x y rest =>
      .done { it.core with stack := Word.ofBits (g (Word.bits x) (Word.bits y)) :: rest }
        it.state := by
  obtain ⟨⟨gas, pc, stack, mem, logsCount, returnData, reverted, halted⟩, state⟩ := it
  obtain rfl : gas = fullMeter := hgas
  rcases stack with _ | ⟨x, _ | ⟨y, rest⟩⟩
  · simp [onCore, Act.on, binop, Act.bind_apply, chargeGas, hcost, popWord]
    rfl
  · simp [onCore, Act.on, binop, Act.bind_apply, chargeGas, hcost, popWord]
    rfl
  · have hroom : ¬ stackLimit ≤ rest.length := by
      simp only [List.length_cons] at hlen
      omega
    simp [onCore, Act.on, binop, Act.bind_apply, chargeGas, hcost, popWord, hf, Act.ofOption,
      pushWord, hroom]
    rfl

lemma byte_follows (keccak : List UInt8 → Word) (child : Child) {opcode : UInt8}
    (hop : decode opcode = .byte) (input : List UInt8) {stk : List Word}
    (hlen : stk.length ≤ stackLimit) :
    FollowsEvm keccak child opcode (.binary .byte) input stk := by
  intro cx it hready
  rw [executeOpcode, hop]
  exact outcome_binop wordByte_eq rfl hready.gas_eq (by rw [hready.stack_eq]; exact hlen)

/-! ### Where an opcode differs -/

structure Seen where
  stack : List Word
  mem : List UInt8
  data : List UInt8
  slot : Word
  logs : ℕ
  deriving DecidableEq

def Outcome.seen (slot : Word) : Outcome → Option Seen
  | .done c st => some ⟨c.stack, c.mem, c.returnData, st.sload zero slot, st.logs.length⟩
  | .reverted data => some ⟨[], [], data, zero, 0⟩
  | .failed => none

def Ordered.probe : Ordered → List Word
  | .jumpi => [wordFromU64 1, zero]
  | .log n => wordFromU64 3 :: wordFromU64 1 :: List.replicate n zero
  | _ => [wordFromU64 3, wordFromU64 1]

lemma Ordered.length_probe (o : Ordered) : o.probe.length ≤ stackLimit := by
  cases o with
  | log n =>
    revert n
    decide
  | _ => exact Nat.le_of_ble_eq_true rfl

def probeInput : List UInt8 := [0, 0, 0, 1]

def probeCx : Ctx where
  frame := {
    contract := zero
    caller := zero
    value := 0
    input := probeInput
    gasLimit := 0
    depth := 0
    isStatic := false }
  code := []
  jumpdests := buildJumpdestSet []

def probeIt (stk : List Word) : Interpreter where
  core := { gas := fullMeter, stack := stk }
  state := {}

lemma probe_ready (stk : List Word) : Ready probeInput stk probeCx (probeIt stk) where
  jumpdests := rfl
  code_le := Nat.zero_le _
  input_eq := rfl
  stack_eq := rfl
  gas_eq := rfl

lemma log_differs : ∀ n : Fin 5,
    (outcome (handleLog probeCx (n + 1) (probeIt (Ordered.log n).probe))).seen (wordFromU64 3) ≠
      (Evm.step probeCx (probeIt (Ordered.log n).probe) (.log n)).seen (wordFromU64 3) := by
  decide +kernel

lemma probe_differs (keccak : List UInt8 → Word) (child : Child) {opcode : UInt8} {o : Ordered}
    (hop : decode opcode = o.op) (ho : o ≠ .binary .byte) :
    (outcome (executeOpcode keccak child probeCx opcode (probeIt o.probe))).seen (wordFromU64 3) ≠
      (Evm.step probeCx (probeIt o.probe) o).seen (wordFromU64 3) := by
  unfold executeOpcode
  rw [hop]
  cases o with
  | binary b =>
    cases b with
    | byte => exact absurd rfl ho
    | div =>
      simp only [Ordered.op, Binary.op]
      rw [outcome_binop (g := fun x y => y / x) (fun x y => wordDiv_eq y x) rfl rfl (by decide)]
      decide +kernel
    | sdiv =>
      simp only [Ordered.op, Binary.op]
      rw [outcome_binop (g := fun x y => if SdivCase y x then y else y.sdiv x)
        (fun x y => by rw [wordSdiv_eq, apply_ite Word.ofBits, ofBits_bits]) rfl rfl (by decide)]
      decide +kernel
    | mod =>
      simp only [Ordered.op, Binary.op]
      rw [outcome_binop (g := fun x y => Evm.mod y x) (fun x y => wordMod_eq y x) rfl rfl (by decide)]
      decide +kernel
    | smod =>
      simp only [Ordered.op, Binary.op]
      rw [outcome_binop (g := fun x y => Evm.smod y x) (fun x y => wordSmod_eq y x) rfl rfl
        (by decide)]
      decide +kernel
    | _ =>
      simp only [Ordered.op, Binary.op]
      decide +kernel
  | log n =>
    simp only [Ordered.op]
    exact log_differs n
  | _ =>
    simp only [Ordered.op]
    decide +kernel

/-- **Which opcodes follow the EVM's stack convention** on every stack. -/
theorem follows_evm_iff (keccak : List UInt8 → Word) (child : Child) {opcode : UInt8} {o : Ordered}
    (hop : decode opcode = o.op) :
    (∀ input stk, stk.length ≤ stackLimit → FollowsEvm keccak child opcode o input stk) ↔
      o = .binary .byte := by
  constructor
  · intro h
    by_contra ho
    have hsame := h probeInput o.probe o.length_probe probeCx (probeIt o.probe) (probe_ready _)
    exact probe_differs keccak child hop ho (congrArg (Outcome.seen _) hsame)
  · rintro rfl input stk hlen
    exact byte_follows keccak child hop input hlen

theorem byte_follows_evm :
    decode 0x1A = (Ordered.binary .byte).op ∧ ∀ input stk, stk.length ≤ stackLimit →
      FollowsEvm (fun _ => zero) (runFrame (fun _ => zero) 0) 0x1A (.binary .byte) input stk :=
  ⟨rfl, (follows_evm_iff _ _ (o := .binary .byte) rfl).mpr rfl⟩

/-- One, shifted by three: `SHL` shifts three by one. -/
theorem shl_exchanges_operands :
    (((outcome (executeOpcode (fun _ => zero) (runFrame (fun _ => zero) 0) probeCx 0x1B
      (probeIt [wordFromU64 3, wordFromU64 1]))).seen zero).map fun s => s.stack.map Word.value) =
        some [6] ∧
    (((Evm.step probeCx (probeIt [wordFromU64 3, wordFromU64 1])
      (.binary .shl)).seen zero).map fun s => s.stack.map Word.value) = some [8] ∧
    ¬ FollowsEvm (fun _ => zero) (runFrame (fun _ => zero) 0) 0x1B (.binary .shl) probeInput
      [wordFromU64 3, wordFromU64 1] := by
  refine ⟨by decide +kernel, by decide +kernel, fun h => ?_⟩
  have hsame := h probeCx (probeIt (Ordered.binary .shl).probe) (probe_ready _)
  exact probe_differs _ _ rfl (by decide) (congrArg (Outcome.seen _) hsame)

end Iona.Vm
