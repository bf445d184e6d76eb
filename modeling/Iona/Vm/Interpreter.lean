import Iona.Vm.Opcode

/-!
# The interpreter

`vm/interpreter.rs`. A handler is an action on the `Core` of its frame; those that read or write the
VM state act on an `Interpreter`. Handlers that differ in an operation or a price only are one
definition with parameters.

## Main definitions

* `executeOpcode`: the dispatch, with a parameter for the execution of a nested frame.
* `run`: the loop of one frame, with nested frames, on fuel.
* `execute`: a call from outside.
-/

namespace Iona.Vm

open Act Checked

/-- What a frame is called with. -/
structure Frame where
  contract : Word
  caller : Word
  value : ℕ
  input : List UInt8
  gasLimit : ℕ
  depth : ℕ
  isStatic : Bool
  deriving DecidableEq

/-- What stays the same while a frame runs. -/
structure Ctx where
  frame : Frame
  code : List UInt8
  jumpdests : List ℕ
  deriving DecidableEq

/-- What a frame changes of its own. -/
structure Core where
  gas : GasMeter
  pc : ℕ := 0
  stack : List Word := []
  mem : Memory := []
  logsCount : ℕ := 0
  returnData : List UInt8 := []
  reverted : Bool := false
  halted : Bool := false
  deriving DecidableEq

/-- A frame and the VM state. -/
structure Interpreter where
  core : Core
  state : State

/-- What a frame that ends returns. -/
structure ExecutionResult where
  returnData : List UInt8
  gasUsed : ℕ
  reverted : Bool
  logsCount : ℕ
  deriving DecidableEq

/-- Actions of a frame. -/
abbrev CoreAct := Act Core VmError

/-- Actions on a frame and the VM state. -/
abbrev VmAct := Act Interpreter VmError

/-! ### Stack, gas and memory -/

/-- `pop`. -/
def popWord : CoreAct Word := fun c =>
  match c.stack with
  | [] => (.error (.stackUnderflow 1 0), c)
  | w :: rest => (.ok w, { c with stack := rest })

/-- A word as a `usize`, or an error. -/
def wordToUsizeChecked (w : Word) : Except VmError ℕ :=
  if wordFitsU64 w then .ok (wordToU64Unchecked w)
  else .error (.memoryOffsetOverflow Machine.u64Max Machine.u64Max)

/-- An offset or a size. -/
def popWordAsUsize : CoreAct ℕ := do
  let w ← popWord
  ofExcept (wordToUsizeChecked w)

/-- An operand that is read as a `u64`. -/
def popWordAsU64 : CoreAct ℕ := do
  let w ← popWord
  ofExcept (if wordFitsU64 w then .ok (wordToU64Unchecked w)
    else .error (.arithmeticOverflow "word_to_u64"))

/-- An operand that is read as a `u128`. -/
def popU128 : CoreAct ℕ := do
  let w ← popWord
  ofExcept (if (w.toList.take 16).all (· == 0) then .ok (Digits.value (w.toList.drop 16))
    else .error (.arithmeticOverflow "u128 conversion"))

/-- Several words, the top one first. -/
def popWords : ℕ → CoreAct (List Word)
  | 0 => pure []
  | n + 1 => do
    let w ← popWord
    let ws ← popWords n
    pure (w :: ws)

/-- `push`. -/
def pushWord (w : Word) : CoreAct Unit := fun c =>
  if stackLimit ≤ c.stack.length then (.error (.stackOverflow stackLimit), c)
  else (.ok (), { c with stack := w :: c.stack })

/-- A number pushed as a word. -/
def pushU64 (v : ℕ) : CoreAct Unit := pushWord (wordFromU64 v)

/-- `charge_gas`. -/
def chargeGas (amount : ℕ) : CoreAct Unit := fun c =>
  match c.gas.charge amount with
  | (.ok (), gas) => (.ok (), { c with gas })
  | (.error e, gas) => (.error e, { c with gas })

/-- A size in words, rounded up with a `+ 31` that may overflow. -/
def wordsOf (size : ℕ) : CoreAct ℕ := do
  let sum ← ofOption (fit 64 (size + 31))
  pure (sum / 32)

/-- The memory replaced. -/
def setMem (mem : Memory) : CoreAct Unit := modify fun c => { c with mem }

/-- `grow_to` with a number of words, where it takes bytes; its error is dropped. -/
def growMem (newWords : ℕ) : CoreAct Unit :=
  modify fun c => { c with mem := (c.mem.growTo newWords).toOption.getD c.mem }

/-- The price of the growth, and the growth. -/
def chargeGrowth (newWords : ℕ) : CoreAct Unit := do
  let c ← get
  if newWords ≤ c.mem.words then pure ()
  else do
    chargeGas (memoryCostWords newWords - memoryCostWords c.mem.words)
    growMem newWords

/-- `charge_memory_expansion`. -/
def chargeMemoryExpansion (offset size : ℕ) : CoreAct Unit :=
  if size = 0 then pure ()
  else if Machine.u64Max < offset + size then throw (.memoryOffsetOverflow offset size)
  else do
    let newWords ← wordsOf (offset + size)
    chargeGrowth newWords

/-- A read, which grows the memory to its end. -/
def readRange (offset size : ℕ) : CoreAct (List UInt8) :=
  if size = 0 then pure []
  else do
    let c ← get
    let mem ← ofExcept (c.mem.ensure offset size)
    setMem mem
    ofOption (slice mem offset (offset + size))

/-- A write, which grows the memory to its end. -/
def writeRange (offset : ℕ) (data : List UInt8) : CoreAct Unit :=
  if data = [] then pure ()
  else do
    let c ← get
    let mem ← ofExcept (c.mem.ensure offset data.length)
    let mem ← ofOption (splice mem offset data)
    setMem mem

/-! ### Handlers that write only their frame -/

/-- `STOP`. -/
def handleStop : CoreAct Unit := modify fun c => { c with halted := true }

/-- An operation on the two words at the top. -/
def binop (f : Word → Word → Option Word) (cost : ℕ) : CoreAct Unit := do
  chargeGas cost
  let b ← popWord
  let a ← popWord
  let w ← ofOption (f a b)
  pushWord w

/-- An operation on the three words at the top. -/
def triop (f : Word → Word → Word → Option Word) (cost : ℕ) : CoreAct Unit := do
  chargeGas cost
  let c ← popWord
  let b ← popWord
  let a ← popWord
  let w ← ofOption (f a b c)
  pushWord w

/-- A comparison. -/
def binopBool (f : Word → Word → Bool) : CoreAct Unit :=
  binop (fun a b => some (wordFromBool (f a b))) gasVerylow

/-- A comparison of signed words. -/
def binopSigned (f : Word → Word → Bool) : CoreAct Unit :=
  binopBool fun a b => if wordIsNegative a != wordIsNegative b then wordIsNegative a else f a b

/-- An operation byte by byte. -/
def binopByte (f : UInt8 → UInt8 → UInt8) : CoreAct Unit := binop (wordZip f) gasVerylow

/-- `EXP`. -/
def handleExp : CoreAct Unit := do
  chargeGas gasExp
  let exp ← popWord
  let base ← popWord
  chargeGas (expByteLen exp * gasExpByte)
  let w ← ofOption (wordExp base exp)
  pushWord w

/-- An operation on the word at the top. -/
def unop (f : Word → Option Word) : CoreAct Unit := do
  chargeGas gasVerylow
  let a ← popWord
  let w ← ofOption (f a)
  pushWord w

/-- `ISZERO`. -/
def handleIszero : CoreAct Unit := unop fun a => some (wordFromBool (wordIsZero a))

/-- `NOT`. -/
def handleNot : CoreAct Unit := unop wordNot

/-- `BYTE`. -/
def handleByte : CoreAct Unit := binop (fun val idx => wordByte idx val) gasVerylow

/-- `SHA3`. -/
def handleSha3 (keccak : List UInt8 → Word) : CoreAct Unit := do
  chargeGas gasSha3
  let size ← popWordAsUsize
  let offset ← popWordAsUsize
  chargeMemoryExpansion offset size
  let words ← wordsOf size
  chargeGas (words * gasSha3Word)
  let data ← readRange offset size
  pushWord (keccak data)

/-- A word about the frame, pushed at a price. -/
def pushing (cost : ℕ) (value : Core → Word) : CoreAct Unit := do
  chargeGas cost
  let c ← get
  pushWord (value c)

/-- `ADDRESS`. -/
def handleAddress (cx : Ctx) : CoreAct Unit := pushing gasBase fun _ => cx.frame.contract

/-- `ORIGIN`. -/
def handleOrigin (st : State) : CoreAct Unit := pushing gasBase fun _ => st.originAddr

/-- `CALLER`. -/
def handleCaller (cx : Ctx) : CoreAct Unit := pushing gasBase fun _ => cx.frame.caller

/-- A `u128` in the low half of a word. -/
def wordFromU128 (v : ℕ) : Word :=
  ⟨(List.replicate 16 0 ++ (Bytes.le 16 v).reverse).toArray, by simp⟩

/-- `CALLVALUE`. -/
def handleCallvalue (cx : Ctx) : CoreAct Unit := pushing gasBase fun _ => wordFromU128 cx.frame.value

/-- `CALLDATASIZE`. -/
def handleCalldatasize (cx : Ctx) : CoreAct Unit :=
  pushing gasBase fun _ => wordFromU64 cx.frame.input.length

/-- `CODESIZE`. -/
def handleCodesize (cx : Ctx) : CoreAct Unit := pushing gasBase fun _ => wordFromU64 cx.code.length

/-- `GASPRICE`. -/
def handleGasprice (st : State) : CoreAct Unit :=
  pushing gasBase fun _ => wordFromU64 st.gasPriceValue

/-- `RETURNDATASIZE`. -/
def handleReturndatasize : CoreAct Unit := pushing gasBase fun c => wordFromU64 c.returnData.length

/-- `MSIZE`. -/
def handleMsize : CoreAct Unit := pushing gasBase fun c => wordFromU64 (c.mem.words * 32)

/-- `GAS`. -/
def handleGas : CoreAct Unit := pushing gasBase fun c => wordFromU64 c.gas.remaining

/-- `PC`. -/
def handlePc : CoreAct Unit := do
  chargeGas gasBase
  let c ← get
  let pc ← ofOption (Checked.sub c.pc 1)
  pushU64 pc

/-- A word of the state under the key at the top. -/
def lookup (cost : ℕ) (value : Word → Word) : CoreAct Unit := do
  chargeGas cost
  let w ← popWord
  pushWord (value w)

/-- `BALANCE`. -/
def handleBalance (st : State) : CoreAct Unit :=
  lookup gasBalance fun addr => wordFromU64 (st.balance addr)

/-- `EXTCODESIZE`. -/
def handleExtcodesize (st : State) : CoreAct Unit :=
  lookup gasExtcode fun addr => wordFromU64 (st.getCode addr).length

/-- `SLOAD`. -/
def handleSload (cx : Ctx) (st : State) : CoreAct Unit :=
  lookup gasSload fun key => st.sload cx.frame.contract key

/-- The word of calldata at an offset, filled up with zeros. -/
def calldataWord (input : List UInt8) (offset : ℕ) : Option Word :=
  if offset < input.length then do
    let n := min 32 (input.length - offset)
    wordOf (List.replicate (32 - n) 0 ++ (← slice input offset (offset + n)))
  else some zero

/-- `CALLDATALOAD`. -/
def handleCalldataload (cx : Ctx) : CoreAct Unit := do
  chargeGas gasVerylow
  let offset ← popWordAsUsize
  let w ← ofOption (calldataWord cx.frame.input offset)
  pushWord w

/-- `vec![0u8; size]` panics above `isize::MAX`. -/
def allocZeros (size : ℕ) : Option (List UInt8) :=
  if size < 2 ^ 63 then some (List.replicate size 0) else none

/-- Bytes to copy, filled up with zeros. -/
def copyPadded (source : List UInt8) (src size : ℕ) : Option (List UInt8) := do
  let buf ← allocZeros size
  if src < source.length then
    splice buf 0 (← slice source src (src + min size (source.length - src)))
  else pure buf

/-- A copy into memory. -/
def copying (cost : ℕ) (popSource : CoreAct (List UInt8)) : CoreAct Unit := do
  chargeGas cost
  let size ← popWordAsUsize
  let src ← popWordAsUsize
  let dest ← popWordAsUsize
  let source ← popSource
  let words ← wordsOf size
  chargeGas (words * gasCopy)
  chargeMemoryExpansion dest size
  let buf ← ofOption (copyPadded source src size)
  writeRange dest buf

/-- `CALLDATACOPY` and `CODECOPY`. -/
def handleCopyData (cx : Ctx) (fromCode : Bool) : CoreAct Unit :=
  copying gasVerylow (pure (if fromCode then cx.code else cx.frame.input))

/-- `EXTCODECOPY`. -/
def handleExtcodecopy (st : State) : CoreAct Unit :=
  copying gasExtcode do
    let addr ← popWord
    pure (st.getCode addr)

/-- `RETURNDATACOPY`, which refuses to read past the end. -/
def handleReturndatacopy : CoreAct Unit := do
  chargeGas gasVerylow
  let size ← popWordAsUsize
  let src ← popWordAsUsize
  let dest ← popWordAsUsize
  let c ← get
  if Machine.u64Max < src + size then throw (.memoryOffsetOverflow src size)
  else if c.returnData.length < src + size then
    throw (.returnDataOob src size c.returnData.length)
  else do
    let words ← wordsOf size
    chargeGas (words * gasCopy)
    chargeMemoryExpansion dest size
    let data ← ofOption (slice c.returnData src (src + size))
    writeRange dest data

/-- `POP`. -/
def handlePop : CoreAct Unit := do
  chargeGas gasBase
  let _ ← popWord
  pure ()

/-- `MLOAD`. -/
def handleMload : CoreAct Unit := do
  chargeGas gasVerylow
  let offset ← popWordAsUsize
  chargeMemoryExpansion offset 32
  let data ← readRange offset 32
  let w ← ofOption (wordOf data)
  pushWord w

/-- A store of some bytes of a word. -/
def storing (bytes : Word → List UInt8) (size : ℕ) : CoreAct Unit := do
  chargeGas gasVerylow
  let val ← popWord
  let offset ← popWordAsUsize
  chargeMemoryExpansion offset size
  writeRange offset (bytes val)

/-- `MSTORE`. -/
def handleMstore : CoreAct Unit := storing (fun val => val.toList) 32

/-- `MSTORE8`. -/
def handleMstore8 : CoreAct Unit := storing (fun val => [val[31]]) 1

/-- The program counter set. -/
def setPc (pc : ℕ) : CoreAct Unit := modify fun c => { c with pc }

/-- A jump to a `JUMPDEST`, or an error. -/
def jumpTo (cx : Ctx) (dest : ℕ) : CoreAct Unit :=
  if dest ∈ cx.jumpdests then setPc dest else throw (.invalidJump dest)

/-- `JUMP`. -/
def handleJump (cx : Ctx) : CoreAct Unit := do
  chargeGas gasMid
  let dest ← popWordAsUsize
  jumpTo cx dest

/-- `JUMPI`. -/
def handleJumpi (cx : Ctx) : CoreAct Unit := do
  chargeGas gasHigh
  let cond ← popWord
  let dest ← popWordAsUsize
  if wordIsZero cond then pure () else jumpTo cx dest

/-- `JUMPDEST`. -/
def handleJumpdest : CoreAct Unit := chargeGas gasJumpdest

/-- The operand of a `PUSH`. -/
def immediate (code : List UInt8) (pc : ℕ) (n : ℕ) : Option Word :=
  wordOf (List.replicate (32 - n) 0 ++ (List.range n).map fun i => code.getD (pc + i) 0)

/-- `PUSH1` to `PUSH32`. -/
def handlePush (cx : Ctx) (n : ℕ) : CoreAct Unit := do
  chargeGas gasVerylow
  let c ← get
  let w ← ofOption (immediate cx.code c.pc n)
  let pc ← ofOption (fit 64 (c.pc + n))
  setPc pc
  pushWord w

/-- `DUP1` to `DUP16`. -/
def handleDup (n : ℕ) : CoreAct Unit := do
  chargeGas gasVerylow
  let c ← get
  if c.stack.length < n then throw (.stackUnderflow n c.stack.length)
  else do
    let v ← ofOption c.stack[n - 1]?
    pushWord v

/-- The top exchanged with the word `n` below it. -/
def swapTop (stack : List Word) (n : ℕ) : Option (List Word) := do
  let top ← stack[0]?
  let other ← stack[n]?
  pure ((stack.set 0 other).set n top)

/-- `SWAP1` to `SWAP16`. -/
def handleSwap (n : ℕ) : CoreAct Unit := do
  chargeGas gasVerylow
  let c ← get
  if c.stack.length < n + 1 then throw (.stackUnderflow (n + 1) c.stack.length)
  else do
    let stack ← ofOption (swapTop c.stack n)
    modify fun c => { c with stack }

/-- The bytes a frame returns. -/
def popRange : CoreAct (List UInt8) := do
  let size ← popWordAsUsize
  let offset ← popWordAsUsize
  chargeMemoryExpansion offset size
  readRange offset size

/-- `RETURN`. -/
def handleReturn : CoreAct Unit := do
  let data ← popRange
  modify fun c => { c with returnData := data, halted := true }

/-! `String::from_utf8_lossy` replaces each maximal ill-formed sequence by `U+FFFD`. -/

/-- The length of a sequence and the bounds of its second byte, by its first. -/
def utf8Lead (b : UInt8) : Option (ℕ × UInt8 × UInt8) :=
  if 0xC2 ≤ b ∧ b ≤ 0xDF then some (2, 0x80, 0xBF)
  else if b = 0xE0 then some (3, 0xA0, 0xBF)
  else if b = 0xED then some (3, 0x80, 0x9F)
  else if 0xE1 ≤ b ∧ b ≤ 0xEF then some (3, 0x80, 0xBF)
  else if b = 0xF0 then some (4, 0x90, 0xBF)
  else if 0xF1 ≤ b ∧ b ≤ 0xF3 then some (4, 0x80, 0xBF)
  else if b = 0xF4 then some (4, 0x80, 0x8F)
  else none

/-- Whether a sequence is well formed, and how many bytes it takes. -/
def utf8Head (b : UInt8) (rest : List UInt8) : Bool × ℕ :=
  if b < 0x80 then (true, 1)
  else match utf8Lead b with
    | none => (false, 1)
    | some (width, lo, hi) =>
      let second := (rest.take 1).takeWhile fun x => lo ≤ x ∧ x ≤ hi
      let others := if second = [] then [] else
        ((rest.drop 1).take (width - 2)).takeWhile fun x => 0x80 ≤ x ∧ x ≤ 0xBF
      let good := second.length + others.length
      (good == width - 1, 1 + good)

/-- The bytes with every ill-formed sequence replaced. -/
def utf8Lossy : ℕ → List UInt8 → List UInt8
  | 0, _ => []
  | _, [] => []
  | rounds + 1, b :: rest =>
    let (valid, n) := utf8Head b rest
    (if valid then (b :: rest).take n else [0xEF, 0xBF, 0xBD]) ++ utf8Lossy rounds ((b :: rest).drop n)

/-- `String::from_utf8_lossy`. -/
def fromUtf8Lossy (bytes : List UInt8) : List UInt8 := utf8Lossy bytes.length bytes

/-- `REVERT`. -/
def handleRevert : CoreAct Unit := do
  let data ← popRange
  throw (.revert (fromUtf8Lossy data))

/-! ### Handlers that write the shared state -/

/-- The core replaced. -/
def Interpreter.setCore (core : Core) (it : Interpreter) : Interpreter := { it with core }

/-- An action of the frame alone. -/
def onCore {α : Type} (m : CoreAct α) : VmAct α := m.on Interpreter.core Interpreter.setCore

/-- An action of the frame that reads the state. -/
def reading {α : Type} (m : State → CoreAct α) : VmAct α := fun it => onCore (m it.state) it

/-- A change of the state. -/
def modifyState (f : State → State) : VmAct Unit := modify fun it => { it with state := f it.state }

/-- An error in a static frame. -/
def guardStatic (cx : Ctx) (reason : String) : VmAct Unit :=
  if cx.frame.isStatic then throw (.writeProtection reason) else pure ()

/-- The price of a store, by the value that is there. -/
def chargeSstore (current val : Word) : CoreAct Unit :=
  if wordIsZero current && !wordIsZero val then chargeGas gasSstoreSet
  else if !wordIsZero current && wordIsZero val then do
    chargeGas gasSstoreReset
    let c ← get
    let gas ← ofExcept (c.gas.addRefund gasSstoreClearRefund)
    modify fun c => { c with gas }
  else if current ≠ val then chargeGas gasSstoreReset
  else chargeGas gasSload

/-- The key and the value. -/
def popSstore : CoreAct (Word × Word) := do
  let c ← get
  if c.gas.remaining ≤ gasSstoreMin then throw .outOfGas
  else do
    let val ← popWord
    let key ← popWord
    pure (key, val)

/-- `SSTORE`. -/
def handleSstore (cx : Ctx) : VmAct Unit := do
  guardStatic cx "SSTORE in static call"
  let (key, val) ← onCore popSstore
  reading fun st => chargeSstore (st.sload cx.frame.contract key) val
  modifyState fun st => st.sstore cx.frame.contract key val

/-- The data and the topics. -/
def popLog (topics : ℕ) : CoreAct (List UInt8 × List Word) := do
  chargeGas (gasLog + topics * gasLogTopic)
  let size ← popWordAsUsize
  let offset ← popWordAsUsize
  chargeMemoryExpansion offset size
  chargeGas (min (size * gasLogData) Machine.u64Max)
  let data ← readRange offset size
  let topicWords ← popWords topics
  pure (data, topicWords)

/-- `emit_log`, which panics when no log may be kept. -/
def emitLogAct (contract : Word) (topics : List Word) (data : List UInt8) : VmAct Unit := do
  let it ← get
  let st ← ofOption (it.state.emitLog contract topics data)
  modifyState fun _ => st

/-- `LOG0` to `LOG4`. -/
def handleLog (cx : Ctx) (topics : ℕ) : VmAct Unit := do
  guardStatic cx "LOG in static call"
  let (data, topicWords) ← onCore (popLog topics)
  emitLogAct cx.frame.contract topicWords data
  onCore (modify fun c => { c with logsCount := min (c.logsCount + 1) Machine.u64Max })

/-- The beneficiary. -/
def popSelfdestruct : CoreAct Word := do
  chargeGas gasSelfdestruct
  popWord

/-- `SELFDESTRUCT`. -/
def handleSelfdestruct (cx : Ctx) : VmAct Unit := do
  guardStatic cx "SELFDESTRUCT in static call"
  let dest ← onCore popSelfdestruct
  modifyState fun st =>
    (st.transferIgnored cx.frame.contract dest (st.balance cx.frame.contract)).deleteContract
      cx.frame.contract
  onCore handleStop

/-- The value and the init code. -/
def popCreate : CoreAct (ℕ × List UInt8) := do
  let value ← popU128
  let size ← popWordAsUsize
  let offset ← popWordAsUsize
  chargeMemoryExpansion offset size
  let initCode ← readRange offset size
  pure (value, initCode)

/-- An address pushed as a word. -/
def pushAddress (address : List UInt8) : CoreAct Unit := do
  let w ← ofOption (wordFromAddress20 address)
  pushWord w

/-- The address of `CREATE2`. -/
def create2Address (keccak : List UInt8 → Word) (cx : Ctx) (salt : Word) (initCode : List UInt8) :
    List UInt8 :=
  wordToAddress20 (keccak ([0xff] ++ wordToAddress20 cx.frame.contract ++ salt.toList ++
    (keccak initCode).toList))

/-- `create_contract`. -/
def createContractAct (cx : Ctx) (value : ℕ) (initCode : List UInt8) : VmAct Word := fun it =>
  let (addr, state) := it.state.createContract cx.frame.caller value initCode
  (.ok addr, { it with state })

/-- `CREATE`. -/
def handleCreate (cx : Ctx) : VmAct Unit := do
  guardStatic cx "CREATE in static call"
  onCore (chargeGas gasCreate)
  let (value, initCode) ← onCore popCreate
  let addr ← createContractAct cx value initCode
  onCore (pushAddress (wordToAddress20 addr))

/-- `CREATE2` pushes an address and creates nothing. -/
def pushCreate2 (keccak : List UInt8 → Word) (cx : Ctx) : CoreAct Unit := do
  chargeGas gasCreate
  let salt ← popWord
  let (_, initCode) ← popCreate
  pushAddress (create2Address keccak cx salt initCode)

/-- `CREATE2`. -/
def handleCreate2 (keccak : List UInt8 → Word) (cx : Ctx) : VmAct Unit := do
  guardStatic cx "CREATE in static call"
  onCore (pushCreate2 keccak cx)

/-! ### The call family -/

/-- A nested frame, with where its return data goes. -/
structure Subcall where
  frame : Frame
  code : List UInt8
  retOffset : ℕ
  retSize : ℕ
  deriving DecidableEq

/-- The operands of a call. -/
structure CallArgs where
  retSize : ℕ
  retOffset : ℕ
  argsSize : ℕ
  argsOffset : ℕ
  value : ℕ
  address : Word
  gasForward : ℕ

/-- At most 63 parts in 64 of the gas that is left. -/
def eip150Gas (gas : GasMeter) (requested : ℕ) : ℕ :=
  min requested (gas.remaining - gas.remaining / 64)

/-- The operands of a call, and the memory for its two ranges. -/
def popCall (popValue : CoreAct ℕ) : CoreAct CallArgs := do
  chargeGas gasCall
  let retSize ← popWordAsUsize
  let retOffset ← popWordAsUsize
  let argsSize ← popWordAsUsize
  let argsOffset ← popWordAsUsize
  let value ← popValue
  let address ← popWord
  let gasArg ← popWordAsU64
  chargeMemoryExpansion argsOffset argsSize
  chargeMemoryExpansion retOffset retSize
  let c ← get
  pure { retSize, retOffset, argsSize, argsOffset, value, address,
         gasForward := eip150Gas c.gas gasArg }

/-- The nested frame of a call. -/
def subcall (cx : Ctx) (st : State) (args : CallArgs) (contract caller : Word) (value : ℕ)
    (isStatic : Bool) : CoreAct (Option Subcall) := do
  let input ← readRange args.argsOffset args.argsSize
  pure (some {
    frame := { contract, caller, value, input, gasLimit := args.gasForward,
               depth := cx.frame.depth + 1, isStatic }
    code := st.getCode args.address
    retOffset := args.retOffset
    retSize := args.retSize })

/-- The surcharges of a call with value. -/
def chargeCallValue (st : State) (args : CallArgs) (newAccount : Bool) : CoreAct Unit :=
  if args.value = 0 then pure ()
  else do
    chargeGas gasCallValue
    if newAccount && st.balance args.address == 0 then chargeGas gasNewAccount else pure ()

/-- A call whose value the caller does not have pushes 0. -/
def refuseUnpaid (cx : Ctx) (st : State) (args : CallArgs) (call : CoreAct (Option Subcall)) :
    CoreAct (Option Subcall) :=
  if st.balance cx.frame.contract < args.value then do
    pushWord (wordFromU64 0)
    pure none
  else call

/-- `CALL` up to the nested frame. -/
def setupCall (cx : Ctx) (st : State) : CoreAct (Option Subcall) := do
  let args ← popCall popU128
  chargeCallValue st args true
  refuseUnpaid cx st args
    (subcall cx st args args.address cx.frame.contract args.value cx.frame.isStatic)

/-- `CALLCODE` up to the nested frame. -/
def setupCallcode (cx : Ctx) (st : State) : CoreAct (Option Subcall) := do
  let args ← popCall popU128
  chargeCallValue st args false
  refuseUnpaid cx st args
    (subcall cx st args cx.frame.contract cx.frame.contract args.value cx.frame.isStatic)

/-- `DELEGATECALL` up to the nested frame. -/
def setupDelegatecall (cx : Ctx) (st : State) : CoreAct (Option Subcall) := do
  let args ← popCall (pure 0)
  subcall cx st args cx.frame.contract cx.frame.caller cx.frame.value cx.frame.isStatic

/-- `STATICCALL` up to the nested frame. -/
def setupStaticcall (cx : Ctx) (st : State) : CoreAct (Option Subcall) := do
  let args ← popCall (pure 0)
  subcall cx st args args.address cx.frame.contract 0 true

/-- The execution of a nested frame. -/
abbrev Child := Frame → List UInt8 → State → Res VmError ExecutionResult × State

/-- As much of the return data as the range takes. -/
def writeReturn (retOffset retSize : ℕ) (data : List UInt8) : CoreAct Unit :=
  writeRange retOffset (data.take (min retSize data.length))

/-- The rest of the range filled with zeros. -/
def writeZeros (retOffset retSize writeLen : ℕ) : CoreAct Unit :=
  if writeLen < retSize then do
    let zeros ← ofOption (allocZeros (retSize - writeLen))
    writeRange (retOffset + writeLen) zeros
  else pure ()

/-- The return data replaced. -/
def setReturnData (data : List UInt8) : CoreAct Unit := modify fun c => { c with returnData := data }

/-- What the caller does with the end of the nested frame. -/
def finishSubcall (sub : Subcall) : Res VmError ExecutionResult → CoreAct Unit
  | .ok result => do
    setReturnData result.returnData
    writeReturn sub.retOffset sub.retSize result.returnData
    writeZeros sub.retOffset sub.retSize (min sub.retSize result.returnData.length)
    pushWord (wordFromU64 (if result.reverted then 0 else 1))
  | .error (.revert reason) => do
    setReturnData reason
    writeReturn sub.retOffset sub.retSize reason
    pushWord (wordFromU64 0)
  | .error e => throw e
  | .abort why => abort why

/-- The nested frame on the state of the caller. -/
def runChild (child : Child) (sub : Subcall) : VmAct (Res VmError ExecutionResult) := fun it =>
  let (res, state) := child sub.frame sub.code it.state
  (.ok res, { it with state })

/-- `run_subcall`. -/
def runSubcall (child : Child) (sub : Subcall) : VmAct Unit := do
  onCore (chargeGas sub.frame.gasLimit)
  let res ← runChild child sub
  onCore (finishSubcall sub res)

/-- A call, if it gets as far as a nested frame. -/
def calling (child : Child) (setup : State → CoreAct (Option Subcall)) : VmAct Unit := do
  let sub ← reading setup
  match sub with
  | none => pure ()
  | some sub => runSubcall child sub

/-- `CALL`. -/
def handleCall (child : Child) (cx : Ctx) : VmAct Unit := do
  guardStatic cx "CALL in static call"
  calling child (setupCall cx)

/-- `CALLCODE`. -/
def handleCallcode (child : Child) (cx : Ctx) : VmAct Unit := do
  guardStatic cx "CALLCODE in static call"
  calling child (setupCallcode cx)

/-- `DELEGATECALL`. -/
def handleDelegatecall (child : Child) (cx : Ctx) : VmAct Unit := do
  guardStatic cx "DELEGATECALL in static call"
  calling child (setupDelegatecall cx)

/-- `STATICCALL`. -/
def handleStaticcall (child : Child) (cx : Ctx) : VmAct Unit := calling child (setupStaticcall cx)

/-! ### Dispatch and the loop -/

variable (keccak : List UInt8 → Word)

/-- `execute_opcode`. -/
def executeOpcode (child : Child) (cx : Ctx) (opcode : UInt8) : VmAct Unit :=
  match decode opcode with
  | .stop => onCore handleStop
  | .invalid => throw (.invalidOpcode opcode)
  | .add => onCore (binop wordAdd gasVerylow)
  | .mul => onCore (binop wordMul gasLow)
  | .sub => onCore (binop wordSub gasVerylow)
  | .div => onCore (binop wordDiv gasLow)
  | .sdiv => onCore (binop wordSdiv gasLow)
  | .mod => onCore (binop wordMod gasLow)
  | .smod => onCore (binop wordSmod gasLow)
  | .addmod => onCore (triop wordAddmod gasMid)
  | .mulmod => onCore (triop wordMulmod gasMid)
  | .exp => onCore handleExp
  | .signextend => onCore (binop wordSignextend gasLow)
  | .lt => onCore (binopBool fun a b => wordLt a b)
  | .gt => onCore (binopBool fun a b => wordLt b a)
  | .slt => onCore (binopSigned fun a b => wordLt a b)
  | .sgt => onCore (binopSigned fun a b => wordLt b a)
  | .eq => onCore (binopBool fun a b => a == b)
  | .iszero => onCore handleIszero
  | .and => onCore (binopByte (· &&& ·))
  | .or => onCore (binopByte (· ||| ·))
  | .xor => onCore (binopByte (· ^^^ ·))
  | .not => onCore handleNot
  | .byte => onCore handleByte
  | .shl => onCore (binop wordShl gasVerylow)
  | .shr => onCore (binop wordShr gasVerylow)
  | .sar => onCore (binop wordSar gasVerylow)
  | .sha3 => onCore (handleSha3 keccak)
  | .address => onCore (handleAddress cx)
  | .balance => reading handleBalance
  | .origin => reading handleOrigin
  | .caller => onCore (handleCaller cx)
  | .callvalue => onCore (handleCallvalue cx)
  | .calldataload => onCore (handleCalldataload cx)
  | .calldatasize => onCore (handleCalldatasize cx)
  | .calldatacopy => onCore (handleCopyData cx false)
  | .codesize => onCore (handleCodesize cx)
  | .codecopy => onCore (handleCopyData cx true)
  | .gasprice => reading handleGasprice
  | .extcodesize => reading handleExtcodesize
  | .extcodecopy => reading handleExtcodecopy
  | .returndatasize => onCore handleReturndatasize
  | .returndatacopy => onCore handleReturndatacopy
  | .pop => onCore handlePop
  | .mload => onCore handleMload
  | .mstore => onCore handleMstore
  | .mstore8 => onCore handleMstore8
  | .sload => reading (handleSload cx)
  | .sstore => handleSstore cx
  | .jump => onCore (handleJump cx)
  | .jumpi => onCore (handleJumpi cx)
  | .pc => onCore handlePc
  | .msize => onCore handleMsize
  | .gas => onCore handleGas
  | .jumpdest => onCore handleJumpdest
  | .push n => onCore (handlePush cx (n + 1))
  | .dup n => onCore (handleDup (n + 1))
  | .swap n => onCore (handleSwap (n + 1))
  | .log n => handleLog cx (n + 1)
  | .create => handleCreate cx
  | .create2 => handleCreate2 keccak cx
  | .call => handleCall child cx
  | .callcode => handleCallcode child cx
  | .delegatecall => handleDelegatecall child cx
  | .staticcall => handleStaticcall child cx
  | .return_ => onCore handleReturn
  | .revert => onCore handleRevert
  | .selfdestruct => handleSelfdestruct cx

/-- `Interpreter::new`: a frame at its first opcode. -/
def start (frame : Frame) (code : List UInt8) : Except VmError (Ctx × Core) :=
  if maxCodeSize < code.length then .error (.codeTooLarge code.length maxCodeSize)
  else if maxCallDepth < frame.depth then .error (.callDepth maxCallDepth)
  else .ok ({ frame, code, jumpdests := buildJumpdestSet code },
    { gas := GasMeter.new frame.gasLimit })

/-- The program counter moved on, and the opcode executed. -/
def stepOpcode (child : Child) (cx : Ctx) (opcode : UInt8) : VmAct Unit := do
  let it ← get
  let pc ← ofOption (fit 64 (it.core.pc + 1))
  onCore (setPc pc)
  executeOpcode keccak child cx opcode

/-- The result of a frame that has halted. -/
def Core.result (c : Core) : ExecutionResult where
  returnData := c.returnData
  gasUsed := c.gas.used
  reverted := c.reverted
  logsCount := c.logsCount

/-- `Interpreter::run`. -/
def run : ℕ → Ctx → Interpreter → Res VmError ExecutionResult × State
  | 0, _, it => (.abort .outOfFuel, it.state)
  | fuel + 1, cx, it =>
    if it.core.halted then (.ok it.core.result, it.state)
    else match cx.code[it.core.pc]? with
      | none => run fuel cx { it with core := { it.core with halted := true } }
      | some opcode =>
        let child : Child := fun frame code state =>
          match start frame code with
          | .error e => (.error e, state)
          | .ok (cx, core) => run fuel cx { core, state }
        match stepOpcode keccak child cx opcode it with
        | (.ok (), it) => run fuel cx it
        | (.error (.revert reason), it) =>
          run fuel cx { it with core := { it.core with reverted := true, returnData := reason, halted := true } }
        | (.error e, it) => (.error e, it.state)
        | (.abort why, it) => (.abort why, it.state)

/-- A frame from its start. -/
def runFrame (fuel : ℕ) : Child := fun frame code state =>
  match start frame code with
  | .error e => (.error e, state)
  | .ok (cx, core) => run keccak fuel cx { core, state }

/-- `execute`. -/
def execute (fuel : ℕ) (state : State) (contract : Word) (code calldata : List UInt8) (caller : Word)
    (callValue gasLimit depth : ℕ) (isStatic : Bool) : Res VmError ExecutionResult × State :=
  runFrame keccak fuel
    { contract, caller, value := callValue, input := calldata, gasLimit, depth, isStatic } code state

end Iona.Vm
