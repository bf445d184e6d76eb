import Iona.Vm.Run
import Iona.Vm.StorageCache

/-! # The interpreter on a cached state -/

namespace Iona.Vm

structure Store (config : StateConfig) where
  state : State
  cache : Option (StorageCache config)
  reads : ℕ := 0

structure CachedInterpreter (config : StateConfig) where
  core : Core
  store : Store config

abbrev CachedAct (config : StateConfig) := Act (CachedInterpreter config) VmError

abbrev CachedChild (config : StateConfig) :=
  Frame → List UInt8 → Store config → Res VmError ExecutionResult × Store config

section

variable {config : StateConfig} (keccak : List UInt8 → Word) (lastInstant : ℕ) (clock : ℕ → ℕ)

/-! ### What goes through the cache -/

def CachedInterpreter.plain (it : CachedInterpreter config) : Interpreter where
  core := it.core
  state := it.store.state

def CachedInterpreter.setPlain (plain : Interpreter) (it : CachedInterpreter config) :
    CachedInterpreter config where
  core := plain.core
  store := { it.store with state := plain.state }

def uncached {α : Type} (m : VmAct α) : CachedAct config α :=
  m.on CachedInterpreter.plain CachedInterpreter.setPlain

def loadAct (contract key : Word) : CachedAct config Word := fun it =>
  match sloadCached lastInstant it.store.cache it.store.state contract key (clock it.store.reads)
      (clock (it.store.reads + 1)) with
  | some (value, cache) =>
    (.ok value, { it with store := { it.store with cache, reads := it.store.reads + 2 } })
  | none => (.abort .panic, it)

def storeAct (contract key value : Word) : CachedAct config Unit :=
  Act.modify fun it => { it with store := { it.store with
    state := it.store.state.sstore contract key value
    cache := invalidateCacheKey it.store.cache (contract, key) } }

def deleteAct (contract : Word) : CachedAct config Unit :=
  Act.modify fun it => { it with store := { it.store with
    state := it.store.state.deleteContract contract
    cache := invalidateCacheContract it.store.cache contract } }

def handleSloadCached (cx : Ctx) : CachedAct config Unit := do
  uncached (onCore (chargeGas gasSload))
  let key ← uncached (onCore popWord)
  let value ← loadAct lastInstant clock cx.frame.contract key
  uncached (onCore (pushWord value))

def handleSstoreCached (cx : Ctx) : CachedAct config Unit := do
  uncached (guardStatic cx "SSTORE in static call")
  let (key, val) ← uncached (onCore popSstore)
  let current ← loadAct lastInstant clock cx.frame.contract key
  uncached (onCore (chargeSstore current val))
  storeAct cx.frame.contract key val

def handleSelfdestructCached (cx : Ctx) : CachedAct config Unit := do
  uncached (guardStatic cx "SELFDESTRUCT in static call")
  let dest ← uncached (onCore popSelfdestruct)
  uncached (modifyState fun st =>
    st.transferIgnored cx.frame.contract dest (st.balance cx.frame.contract))
  deleteAct cx.frame.contract
  uncached (onCore handleStop)

/-! ### Nested frames -/

def runChildCached (child : CachedChild config) (sub : Subcall) :
    CachedAct config (Res VmError ExecutionResult) := fun it =>
  let (res, store) := child sub.frame sub.code it.store
  (.ok res, { it with store })

def runSubcallCached (child : CachedChild config) (sub : Subcall) : CachedAct config Unit := do
  uncached (onCore (chargeGas sub.frame.gasLimit))
  let res ← runChildCached child sub
  uncached (onCore (finishSubcall sub res))

def callingCached (child : CachedChild config) (setup : State → CoreAct (Option Subcall)) :
    CachedAct config Unit := do
  let sub ← uncached (reading setup)
  match sub with
  | none => pure ()
  | some sub => runSubcallCached child sub

def noChild : Child := fun _ _ state => (.abort .panic, state)

def executeOpcodeCached (child : CachedChild config) (cx : Ctx) (opcode : UInt8) :
    CachedAct config Unit :=
  match decode opcode with
  | .sload => handleSloadCached lastInstant clock cx
  | .sstore => handleSstoreCached lastInstant clock cx
  | .selfdestruct => handleSelfdestructCached cx
  | .call => do
    uncached (guardStatic cx "CALL in static call")
    callingCached child (setupCall cx)
  | .callcode => do
    uncached (guardStatic cx "CALLCODE in static call")
    callingCached child (setupCallcode cx)
  | .delegatecall => do
    uncached (guardStatic cx "DELEGATECALL in static call")
    callingCached child (setupDelegatecall cx)
  | .staticcall => callingCached child (setupStaticcall cx)
  | _ => uncached (executeOpcode keccak noChild cx opcode)

def stepOpcodeCached (child : CachedChild config) (cx : Ctx) (opcode : UInt8) :
    CachedAct config Unit := do
  let it ← Act.get
  let pc ← Act.ofOption (Checked.fit 64 (it.core.pc + 1))
  uncached (onCore (setPc pc))
  executeOpcodeCached keccak lastInstant clock child cx opcode

def startCached (loop : Ctx → CachedInterpreter config → Res VmError ExecutionResult × Store config) :
    CachedChild config := fun frame code store =>
  match start frame code with
  | .error e => (.error e, store)
  | .ok (cx, core) => loop cx { core, store }

def afterOpcode (loop : CachedInterpreter config → Res VmError ExecutionResult × Store config) :
    Res VmError Unit × CachedInterpreter config → Res VmError ExecutionResult × Store config
  | (.ok (), it) => loop it
  | (.error (.revert reason), it) =>
    loop { it with core := { it.core with reverted := true, returnData := reason, halted := true } }
  | (.error e, it) => (.error e, it.store)
  | (.abort why, it) => (.abort why, it.store)

def runCached : ℕ → Ctx → CachedInterpreter config → Res VmError ExecutionResult × Store config
  | 0, _, it => (.abort .outOfFuel, it.store)
  | fuel + 1, cx, it =>
    if it.core.halted then (.ok it.core.result, it.store)
    else match cx.code[it.core.pc]? with
      | none => runCached fuel cx { it with core := { it.core with halted := true } }
      | some opcode =>
        afterOpcode (runCached fuel cx)
          (stepOpcodeCached keccak lastInstant clock (startCached (runCached fuel)) cx opcode it)

def executeCached (fuel : ℕ) (store : Store config) (contract : Word) (code calldata : List UInt8)
    (caller : Word) (callValue gasLimit depth : ℕ) (isStatic : Bool) :
    Res VmError ExecutionResult × Store config :=
  startCached (runCached keccak lastInstant clock fuel)
    { contract, caller, value := callValue, input := calldata, gasLimit, depth, isStatic } code store

end

/-! ### What a run keeps true of the cache -/

section

variable {config : StateConfig} {keccak : List UInt8 → Word} {lastInstant : ℕ} {clock : ℕ → ℕ}
  {J : Option (StorageCache config) → ℕ → Prop}

structure CacheInvariant (lastInstant : ℕ) (clock : ℕ → ℕ)
    (J : Option (StorageCache config) → ℕ → Prop) : Prop where
  load : ∀ {cache reads st contract key value cache'}, J cache reads →
    sloadCached lastInstant cache st contract key (clock reads) (clock (reads + 1)) =
      some (value, cache') → J cache' (reads + 2)
  key : ∀ {cache reads} slot, J cache reads → J (invalidateCacheKey cache slot) reads
  contract : ∀ {cache reads} contract, J cache reads →
    J (invalidateCacheContract cache contract) reads

def OnStore (J : Option (StorageCache config) → ℕ → Prop) (it : CachedInterpreter config) : Prop :=
  J it.store.cache it.store.reads

lemma uncached_preserves {α : Type} (m : VmAct α) :
    Act.Preserves (OnStore J) (uncached m : CachedAct config α) := fun _ h => h

lemma loadAct_preserves (hJ : CacheInvariant lastInstant clock J) (contract key : Word) :
    Act.Preserves (OnStore J) (loadAct lastInstant clock contract key) := by
  intro it h
  unfold loadAct
  split
  · rename_i value cache hload
    exact hJ.load h hload
  · exact h

lemma handleSloadCached_preserves (hJ : CacheInvariant lastInstant clock J) (cx : Ctx) :
    Act.Preserves (OnStore J) (handleSloadCached lastInstant clock cx) :=
  (uncached_preserves _).bind fun _ => (uncached_preserves _).bind fun _ =>
    (loadAct_preserves hJ _ _).bind fun _ => uncached_preserves _

lemma handleSstoreCached_preserves (hJ : CacheInvariant lastInstant clock J) (cx : Ctx) :
    Act.Preserves (OnStore J) (handleSstoreCached lastInstant clock cx) := by
  refine (uncached_preserves _).bind fun _ => (uncached_preserves _).bind fun ⟨key, val⟩ => ?_
  refine (loadAct_preserves hJ _ _).bind fun _ => (uncached_preserves _).bind fun _ => ?_
  exact fun it h => hJ.key _ h

lemma handleSelfdestructCached_preserves (hJ : CacheInvariant lastInstant clock J) (cx : Ctx) :
    Act.Preserves (OnStore J) (handleSelfdestructCached cx) := by
  refine (uncached_preserves _).bind fun _ => (uncached_preserves _).bind fun _ => ?_
  refine (uncached_preserves _).bind fun _ => Act.Preserves.bind ?_ fun _ => uncached_preserves _
  exact fun it h => hJ.contract _ h

variable {child : CachedChild config}

lemma callingCached_preserves (hchild : ∀ frame code store, J store.cache store.reads →
      J (child frame code store).2.cache (child frame code store).2.reads)
    (setup : State → CoreAct (Option Subcall)) :
    Act.Preserves (OnStore J) (callingCached child setup) := by
  refine (uncached_preserves _).bind fun sub => ?_
  cases sub with
  | none => exact fun _ h => h
  | some sub =>
    refine (uncached_preserves _).bind fun _ => Act.Preserves.bind ?_ fun _ => uncached_preserves _
    exact fun it h => hchild _ _ _ h

lemma executeOpcodeCached_preserves (hJ : CacheInvariant lastInstant clock J)
    (hchild : ∀ frame code store, J store.cache store.reads →
      J (child frame code store).2.cache (child frame code store).2.reads) (cx : Ctx) (opcode : UInt8) :
    Act.Preserves (OnStore J) (executeOpcodeCached keccak lastInstant clock child cx opcode) := by
  unfold executeOpcodeCached
  split
  · exact handleSloadCached_preserves hJ cx
  · exact handleSstoreCached_preserves hJ cx
  · exact handleSelfdestructCached_preserves hJ cx
  · exact (uncached_preserves _).bind fun _ => callingCached_preserves hchild _
  · exact (uncached_preserves _).bind fun _ => callingCached_preserves hchild _
  · exact (uncached_preserves _).bind fun _ => callingCached_preserves hchild _
  · exact callingCached_preserves hchild _
  · exact uncached_preserves _

lemma stepOpcodeCached_preserves (hJ : CacheInvariant lastInstant clock J)
    (hchild : ∀ frame code store, J store.cache store.reads →
      J (child frame code store).2.cache (child frame code store).2.reads) (cx : Ctx) (opcode : UInt8) :
    Act.Preserves (OnStore J) (stepOpcodeCached keccak lastInstant clock child cx opcode) := by
  refine Act.Preserves.bind (fun _ h => h) fun it => Act.Preserves.bind ?_ fun _ => ?_
  · intro it' h
    cases Checked.fit 64 (it.core.pc + 1) <;> exact h
  · exact (uncached_preserves _).bind fun _ => executeOpcodeCached_preserves hJ hchild cx opcode

lemma startCached_preserves
    {loop : Ctx → CachedInterpreter config → Res VmError ExecutionResult × Store config}
    (hloop : ∀ cx it, OnStore J it → J (loop cx it).2.cache (loop cx it).2.reads)
    (frame : Frame) (code : List UInt8) (store : Store config) (h : J store.cache store.reads) :
    J (startCached loop frame code store).2.cache (startCached loop frame code store).2.reads := by
  unfold startCached
  split
  · exact h
  · exact hloop _ _ h

lemma afterOpcode_preserves
    {loop : CachedInterpreter config → Res VmError ExecutionResult × Store config}
    (hloop : ∀ it, OnStore J it → J (loop it).2.cache (loop it).2.reads)
    (res : Res VmError Unit × CachedInterpreter config) (h : OnStore J res.2) :
    J (afterOpcode loop res).2.cache (afterOpcode loop res).2.reads := by
  unfold afterOpcode
  split
  · exact hloop _ h
  · exact hloop _ h
  · exact h
  · exact h

lemma runCached_preserves (hJ : CacheInvariant lastInstant clock J) {fuel : ℕ} {cx : Ctx}
    {it : CachedInterpreter config} (h : OnStore J it) :
    J (runCached keccak lastInstant clock fuel cx it).2.cache
      (runCached keccak lastInstant clock fuel cx it).2.reads := by
  induction fuel generalizing cx it with
  | zero => exact h
  | succ fuel ih =>
    rw [runCached]
    split
    · exact h
    split
    · exact ih h
    · refine afterOpcode_preserves (fun it' h' => ih h') _ ?_
      exact stepOpcodeCached_preserves hJ (startCached_preserves fun cx' it' h' => ih h') cx _ it h

lemma executeCached_preserves (hJ : CacheInvariant lastInstant clock J) {fuel : ℕ}
    {store tmp : Store config} (h : J store.cache store.reads) {contract caller : Word}
    {code calldata : List UInt8} {callValue gasLimit depth : ℕ} {isStatic : Bool}
    {res : Res VmError ExecutionResult}
    (hexec : executeCached keccak lastInstant clock fuel store contract code calldata caller callValue
      gasLimit depth isStatic = (res, tmp)) : J tmp.cache tmp.reads := by
  have hstore : tmp = (executeCached keccak lastInstant clock fuel store contract code calldata caller
      callValue gasLimit depth isStatic).2 := by
    rw [hexec]
  rw [hstore]
  exact startCached_preserves (fun _ _ h' => runCached_preserves hJ h') _ _ _ h

end

end Iona.Vm
