import Iona.Vm.Division
import Iona.Vm.Shifts
import Iona.Vm.Interpreter

/-! # The EVM's reading of the stack -/

namespace Iona.Vm

open Word

/-! ### Opcodes with two operands and a result -/

inductive Binary where
  | sub | div | sdiv | mod | smod | exp | lt | gt | slt | sgt | byte | shl | shr | sar
  deriving DecidableEq

def Binary.op : Binary → Op
  | sub => .sub
  | div => .div
  | sdiv => .sdiv
  | mod => .mod
  | smod => .smod
  | exp => .exp
  | lt => .lt
  | gt => .gt
  | slt => .slt
  | sgt => .sgt
  | byte => .byte
  | shl => .shl
  | shr => .shr
  | sar => .sar

namespace Evm

def ofBool (b : Bool) : BitVec 256 := if b then 1 else 0

def fn : Binary → BitVec 256 → BitVec 256 → BitVec 256
  | .sub, x, y => x - y
  | .div, x, y => x / y
  | .sdiv, x, y => x.sdiv y
  | .mod, x, y => mod x y
  | .smod, x, y => smod x y
  | .exp, x, y => x ^ y.toNat
  | .lt, x, y => ofBool (x < y)
  | .gt, x, y => ofBool (y < x)
  | .slt, x, y => ofBool (x.slt y)
  | .sgt, x, y => ofBool (y.slt x)
  | .byte, x, y => byte x y
  | .shl, x, y => y <<< x.toNat
  | .shr, x, y => y >>> x.toNat
  | .sar, x, y => y.sshiftRight x.toNat

end Evm

/-! ### All ordered opcodes -/

inductive Ordered where
  | binary (b : Binary)
  | mstore | sstore | jumpi | log (n : Fin 5) | return_ | revert | calldataload
  deriving DecidableEq

def Ordered.op : Ordered → Op
  | binary b => b.op
  | mstore => .mstore
  | sstore => .sstore
  | jumpi => .jumpi
  | log n => .log n
  | return_ => .return_
  | revert => .revert
  | calldataload => .calldataload

inductive Outcome where
  | done (core : Core) (state : State)
  | reverted (data : List UInt8)
  | failed

namespace Evm

def operands (c : Core) (k : Word → Word → List Word → Outcome) : Outcome :=
  match c.stack with
  | x :: y :: rest => k x y rest
  | _ => .failed

def touch (mem : Memory) (offset size : ℕ) : Option Memory :=
  if size = 0 then some mem
  else if offset + size ≤ Memory.maxSize then
    some (mem ++ List.replicate (offset + size - mem.length) 0)
  else none

def range (mem : Memory) (offset size : ℕ) (k : Memory → List UInt8 → Outcome) : Outcome :=
  match touch mem offset size with
  | some mem => k mem ((mem.drop offset).take size)
  | none => .failed

def mstore (it : Interpreter) : Outcome :=
  operands it.core fun x y rest =>
    match touch it.core.mem (value x) 32 with
    | some mem => .done { it.core with
        stack := rest
        mem := mem.take (value x) ++ y.toList ++ mem.drop (value x + 32) } it.state
    | none => .failed

def sstore (cx : Ctx) (it : Interpreter) : Outcome :=
  if cx.frame.isStatic then .failed
  else operands it.core fun x y rest =>
    .done { it.core with stack := rest } (it.state.sstore cx.frame.contract x y)

def jumpi (cx : Ctx) (it : Interpreter) : Outcome :=
  operands it.core fun x y rest =>
    if value y = 0 then .done { it.core with stack := rest } it.state
    else if value x ∈ cx.jumpdests then
      .done { it.core with stack := rest, pc := value x } it.state
    else .failed

def emit (cx : Ctx) (it : Interpreter) (topics rest : List Word) (mem : Memory)
    (data : List UInt8) : Outcome :=
  match it.state.emitLog cx.frame.contract topics data with
  | some state => .done { it.core with
      stack := rest
      mem := mem
      logsCount := min (it.core.logsCount + 1) Machine.u64Max } state
  | none => .failed

def log (cx : Ctx) (it : Interpreter) (n : ℕ) : Outcome :=
  if cx.frame.isStatic then .failed
  else operands it.core fun x y rest =>
    if rest.length < n then .failed
    else range it.core.mem (value x) (value y) (emit cx it (rest.take n) (rest.drop n))

def return_ (it : Interpreter) : Outcome :=
  operands it.core fun x y rest =>
    range it.core.mem (value x) (value y) fun mem data =>
      .done { it.core with stack := rest, mem := mem, returnData := data, halted := true } it.state

def revert (it : Interpreter) : Outcome :=
  operands it.core fun x y _ =>
    range it.core.mem (value x) (value y) fun _ data => .reverted data

def calldataBytes (input : List UInt8) (offset : ℕ) : List UInt8 :=
  (input.drop offset).take 32 ++ List.replicate (32 - ((input.drop offset).take 32).length) 0

def calldataload (cx : Ctx) (it : Interpreter) : Outcome :=
  match it.core.stack with
  | x :: rest =>
    match wordOf (calldataBytes cx.frame.input (value x)) with
    | some w => .done { it.core with stack := w :: rest } it.state
    | none => .failed
  | [] => .failed

def step (cx : Ctx) (it : Interpreter) : Ordered → Outcome
  | .binary b => operands it.core fun x y rest =>
      .done { it.core with stack := ofBits (fn b (bits x) (bits y)) :: rest } it.state
  | .mstore => mstore it
  | .sstore => sstore cx it
  | .jumpi => jumpi cx it
  | .log n => log cx it n
  | .return_ => return_ it
  | .revert => revert it
  | .calldataload => calldataload cx it

end Evm

/-! ### The interpreter beside it -/

def fullMeter : GasMeter := { limit := Machine.u64Max }

def outcome : Res VmError Unit × Interpreter → Outcome
  | (.ok (), it) => .done { it.core with gas := fullMeter } it.state
  | (.error (.revert reason), _) => .reverted reason
  | (.error _, _) => .failed
  | (.abort _, _) => .failed

structure Ready (input : List UInt8) (stk : List Word) (cx : Ctx) (it : Interpreter) : Prop where
  jumpdests : cx.jumpdests = buildJumpdestSet cx.code
  code_le : cx.code.length ≤ maxCodeSize
  input_eq : cx.frame.input = input
  stack_eq : it.core.stack = stk
  gas_eq : it.core.gas = fullMeter

def FollowsEvm (keccak : List UInt8 → Word) (child : Child) (opcode : UInt8) (o : Ordered)
    (input : List UInt8) (stk : List Word) : Prop :=
  ∀ cx it, Ready input stk cx it →
    outcome (executeOpcode keccak child cx opcode it) = Evm.step cx it o

end Iona.Vm
