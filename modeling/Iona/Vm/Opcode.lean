import Iona.Vm.State

/-! # Opcodes and code -/

namespace Iona.Vm

inductive Op where
  | stop | invalid
  | add | mul | sub | div | sdiv | mod | smod | addmod | mulmod | exp | signextend
  | lt | gt | slt | sgt | eq | iszero | and | or | xor | not | byte | shl | shr | sar
  | sha3
  | address | balance | origin | caller | callvalue | calldataload | calldatasize | calldatacopy
  | codesize | codecopy | gasprice | extcodesize | extcodecopy | returndatasize | returndatacopy
  | pop | mload | mstore | mstore8 | sload | sstore | jump | jumpi | pc | msize | gas | jumpdest
  | push (n : Fin 32) | dup (n : Fin 16) | swap (n : Fin 16)
  | log (n : Fin 5)
  | create | create2 | call | callcode | delegatecall | staticcall
  | return_ | revert | selfdestruct
  deriving DecidableEq

def decode (opcode : UInt8) : Op :=
  match opcode.toNat with
  | 0x00 => .stop
  | 0x01 => .add
  | 0x02 => .mul
  | 0x03 => .sub
  | 0x04 => .div
  | 0x05 => .sdiv
  | 0x06 => .mod
  | 0x07 => .smod
  | 0x08 => .addmod
  | 0x09 => .mulmod
  | 0x0A => .exp
  | 0x0B => .signextend
  | 0x10 => .lt
  | 0x11 => .gt
  | 0x12 => .slt
  | 0x13 => .sgt
  | 0x14 => .eq
  | 0x15 => .iszero
  | 0x16 => .and
  | 0x17 => .or
  | 0x18 => .xor
  | 0x19 => .not
  | 0x1A => .byte
  | 0x1B => .shl
  | 0x1C => .shr
  | 0x1D => .sar
  | 0x20 => .sha3
  | 0x30 => .address
  | 0x31 => .balance
  | 0x32 => .origin
  | 0x33 => .caller
  | 0x34 => .callvalue
  | 0x35 => .calldataload
  | 0x36 => .calldatasize
  | 0x37 => .calldatacopy
  | 0x38 => .codesize
  | 0x39 => .codecopy
  | 0x3A => .gasprice
  | 0x3B => .extcodesize
  | 0x3C => .extcodecopy
  | 0x3D => .returndatasize
  | 0x3E => .returndatacopy
  | 0x50 => .pop
  | 0x51 => .mload
  | 0x52 => .mstore
  | 0x53 => .mstore8
  | 0x54 => .sload
  | 0x55 => .sstore
  | 0x56 => .jump
  | 0x57 => .jumpi
  | 0x58 => .pc
  | 0x59 => .msize
  | 0x5A => .gas
  | 0x5B => .jumpdest
  | 0xF0 => .create
  | 0xF1 => .call
  | 0xF2 => .callcode
  | 0xF3 => .return_
  | 0xF4 => .delegatecall
  | 0xF5 => .create2
  | 0xFA => .staticcall
  | 0xFD => .revert
  | 0xFF => .selfdestruct
  | n =>
    if h : 0x60 ≤ n ∧ n ≤ 0x7F then .push ⟨n - 0x60, by omega⟩
    else if h : 0x80 ≤ n ∧ n ≤ 0x8F then .dup ⟨n - 0x80, by omega⟩
    else if h : 0x90 ≤ n ∧ n ≤ 0x9F then .swap ⟨n - 0x90, by omega⟩
    else if h : 0xA0 ≤ n ∧ n ≤ 0xA4 then .log ⟨n - 0xA0, by omega⟩
    else .invalid

def pushImmediateLen (opcode : UInt8) : ℕ :=
  if 0x60 ≤ opcode ∧ opcode ≤ 0x7F then opcode.toNat - 0x60 + 1 else 0

def jumpdestScan (code : List UInt8) : ℕ → ℕ → List ℕ
  | 0, _ => []
  | rounds + 1, i =>
    match code[i]? with
    | none => []
    | some opcode =>
      let valid := if decode opcode = .jumpdest then [i] else []
      let imm := pushImmediateLen opcode
      -- a push whose immediate overruns the code ends the scan
      if code.length < i + 1 + imm then valid else valid ++ jumpdestScan code rounds (i + 1 + imm)

def buildJumpdestSet (code : List UInt8) : List ℕ := jumpdestScan code code.length 0

/-! ### Limits and gas costs -/

def stackLimit : ℕ := 1024

def maxCallDepth : ℕ := 1024

def maxCodeSize : ℕ := 24576

def gasBase : ℕ := 2

def gasVerylow : ℕ := 3

def gasLow : ℕ := 5

def gasMid : ℕ := 8

def gasHigh : ℕ := 10

def gasJumpdest : ℕ := 1

def gasCopy : ℕ := 3

def gasSha3 : ℕ := 30

def gasSha3Word : ℕ := 6

def gasExp : ℕ := 10

def gasExpByte : ℕ := 50

def gasBalance : ℕ := 400

def gasExtcode : ℕ := 700

def gasSload : ℕ := 100

def gasSstoreSet : ℕ := 20000

def gasSstoreReset : ℕ := 5000

def gasSstoreClearRefund : ℕ := 15000

def gasSstoreMin : ℕ := 2300

def gasLog : ℕ := 375

def gasLogTopic : ℕ := 375

def gasLogData : ℕ := 8

def gasCall : ℕ := 100

def gasCallValue : ℕ := 9000

def gasCreate : ℕ := 32000

def gasSelfdestruct : ℕ := 5000

def gasNewAccount : ℕ := 25000

end Iona.Vm
