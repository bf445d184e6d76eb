import Iona.Vm.CachedRun
import Iona.Vm.Executor

/-! # Failed deployments and calls on a cached state -/

namespace Iona.Vm

open Option

section

variable {config : StateConfig} (C : Crypto) (keccak : List UInt8 → Word) (lastInstant : ℕ)
  (clock : ℕ → ℕ) (fuel : ℕ) (cfg : VmExecutorConfig)

def Store.dropCopy (store copy : Store config) : Store config := { copy with state := store.state }

def deployCached (store : Store config) (sender : Word) (initCode : List UInt8)
    (gasLimit : Option UInt64) : Res VmExecutorError DeploySuccess × Store config :=
  let gasLimit := gasLimit.getD cfg.defaultDeployGasLimit
  if gasLimit < minGasLimit then (.error (.gasLimitTooLow gasLimit minGasLimit), store)
  else if initCode = [] then (.error .emptyInitCode, store)
  else
    let contract := deriveContractAddress C sender (store.state.getNonce sender)
    if store.state.getCode contract ≠ [] then (.error (.contractAlreadyExists contract), store)
    else match executeCached keccak lastInstant clock fuel store contract initCode [] sender 0
        gasLimit.toNat 0 false with
      | (.error e, tmp) => (.error (.vmError e), store.dropCopy tmp)
      | (.abort why, tmp) => (.abort why, store.dropCopy tmp)
      | (.ok r, tmp) =>
        if r.reverted then (.error (.constructorRevert r.returnData), store.dropCopy tmp)
        else if cfg.maxCodeSize < r.returnData.length then
          (.error (.codeTooLarge r.returnData.length cfg.maxCodeSize), store.dropCopy tmp)
        else
          let state := tmp.state.setCode contract r.returnData
          match Machine.checked ((state.getNonce sender).toNat + 1) with
          | none => (.abort .panic, { tmp with state })
          | some nonce =>
            (.ok { contract, gasUsed := r.gasUsed, logs := state.logs, returnData := r.returnData },
              { tmp with
                state := { state with nonces := state.nonces.insert sender nonce, logs := [] } })

def callCached (store : Store config) (sender contract : Word) (calldata : List UInt8)
    (gasLimit : Option UInt64) : Res VmExecutorError CallSuccess × Store config :=
  let gasLimit := gasLimit.getD cfg.defaultGasLimit
  if gasLimit < minGasLimit then (.error (.gasLimitTooLow gasLimit minGasLimit), store)
  else
    let code := store.state.getCode contract
    if code = [] then (.error (.noCodeAtAddress contract), store)
    else match executeCached keccak lastInstant clock fuel store contract code calldata sender 0
        gasLimit.toNat 0 false with
      | (.error e, tmp) => (.error (.vmError e), store.dropCopy tmp)
      | (.abort why, tmp) => (.abort why, store.dropCopy tmp)
      | (.ok r, tmp) =>
        if r.reverted then (.error (.callRevert r.gasUsed r.returnData), store.dropCopy tmp)
        else
          (.ok { gasUsed := r.gasUsed, logs := tmp.state.logs, returnData := r.returnData },
            { tmp with state := { tmp.state with logs := [] } })

inductive VmOperation where
  | deploy (sender : Word) (initCode : List UInt8) (gasLimit : Option UInt64)
  | call (sender contract : Word) (calldata : List UInt8) (gasLimit : Option UInt64)

def FailsWith (store : Store config) : VmOperation → VmExecutorError → Store config → Prop
  | .deploy sender initCode gasLimit, e, after =>
    deployCached C keccak lastInstant clock fuel cfg store sender initCode gasLimit = (.error e, after)
  | .call sender contract calldata gasLimit, e, after =>
    callCached keccak lastInstant clock fuel cfg store sender contract calldata gasLimit =
      (.error e, after)

def Unchanged (before after : Store config) : Prop :=
  after.state = before.state ∧ ∀ contract key m m', after.reads ≤ m → m ≤ m' →
    (sloadCached lastInstant after.cache after.state contract key (clock m) (clock m')).map Prod.fst =
      (sloadCached lastInstant before.cache before.state contract key (clock m) (clock m')).map Prod.fst

def Atomic (since : ℕ) (store : Store config) : Prop :=
  ∀ clock, Monotone clock → since ≤ clock store.reads → (∀ n, clock n + config.ttl ≤ lastInstant) →
    ∀ fuel op e after, FailsWith C keccak lastInstant clock fuel cfg store op e after →
      Unchanged lastInstant clock store after

structure Store.Valid (since : ℕ) (store : Store config) : Prop where
  size_ne_zero : store.cache ≠ none → config.storageCacheSize ≠ 0
  bounded : CacheBounded (since + config.ttl) store.cache

end

/-! ### The stores that are reached -/

section

variable {config : StateConfig} {C : Crypto} {keccak : List UInt8 → Word} {lastInstant : ℕ}
  {clock : ℕ → ℕ} {fuel : ℕ} {cfg : VmExecutorConfig} {store : Store config}

variable {horizon : ℕ} {w₀ w w' : Clones config} {ops : List StorageOp} {op : StorageOp}

end

/-! ### What a failure leaves -/

section

variable {config : StateConfig} {C : Crypto} {keccak : List UInt8 → Word} {lastInstant : ℕ}
  {clock : ℕ → ℕ} {fuel : ℕ} {cfg : VmExecutorConfig} {store after : Store config} {op : VmOperation}
  {e : VmExecutorError}

variable {it : CachedInterpreter config}

lemma FailsWith.keeps (h : FailsWith C keccak lastInstant clock fuel cfg store op e after)
    {J : Option (StorageCache config) → ℕ → Prop} (hJ : CacheInvariant lastInstant clock J)
    (hstore : J store.cache store.reads) :
    after.state = store.state ∧ J after.cache after.reads := by
  cases op with
  | deploy sender initCode gasLimit =>
    unfold FailsWith deployCached at h
    simp only at h
    split at h
    · cases h
      exact ⟨rfl, hstore⟩
    split at h
    · cases h
      exact ⟨rfl, hstore⟩
    split at h
    · cases h
      exact ⟨rfl, hstore⟩
    split at h
    · rename_i hexec
      cases h
      have hrun := executeCached_preserves hJ hstore hexec
      exact ⟨rfl, hrun⟩
    · cases h
    rename_i hexec
    have hrun := executeCached_preserves hJ hstore hexec
    split at h
    · cases h
      exact ⟨rfl, hrun⟩
    split at h
    · cases h
      exact ⟨rfl, hrun⟩
    -- the copy has been taken over: from here on it succeeds or panics
    split at h
    · cases h
    · cases h
  | call sender contract calldata gasLimit =>
    unfold FailsWith callCached at h
    simp only at h
    split at h
    · cases h
      exact ⟨rfl, hstore⟩
    split at h
    · cases h
      exact ⟨rfl, hstore⟩
    split at h
    · rename_i hexec
      cases h
      have hrun := executeCached_preserves hJ hstore hexec
      exact ⟨rfl, hrun⟩
    · cases h
    rename_i hexec
    have hrun := executeCached_preserves hJ hstore hexec
    split at h
    · cases h
      exact ⟨rfl, hrun⟩
    · cases h

/-! ### When nothing stays in the cache -/

lemma none_invariant :
    CacheInvariant lastInstant clock fun (cache : Option (StorageCache config)) _ => cache = none where
  load := by
    rintro cache reads st contract key value cache' rfl hload
    cases hload
    rfl
  key := by
    rintro cache reads slot rfl
    rfl
  contract := by
    rintro cache reads contract rfl
    rfl

lemma bounded_invariant (hclock : Monotone clock) (first : ℕ) :
    CacheInvariant lastInstant clock fun (cache : Option (StorageCache config)) reads =>
      first ≤ reads ∧ CacheBounded (clock reads + config.ttl) cache where
  load := by
    rintro cache reads st contract key value cache' ⟨hfirst, hbound⟩ hload
    have hnow : clock reads ≤ clock (reads + 2) := hclock (by omega)
    have hlater : clock (reads + 1) ≤ clock (reads + 2) := hclock (by omega)
    exact ⟨by omega, (hbound.mono (by omega)).sload (by omega) hload⟩
  key := by
    rintro cache reads slot ⟨hfirst, hbound⟩
    exact ⟨hfirst, hbound.invalidateKey slot⟩
  contract := by
    rintro cache reads contract ⟨hfirst, hbound⟩
    exact ⟨hfirst, hbound.invalidateContract contract⟩

lemma atomic_of_none {since : ℕ} (hnone : store.cache = none) :
    Atomic C keccak lastInstant cfg since store := by
  intro clock _ _ _ fuel op e after hfail
  obtain ⟨hstate, hafter⟩ := hfail.keeps none_invariant hnone
  refine ⟨hstate, fun contract key m m' _ _ => ?_⟩
  rw [hafter, hnone, hstate]

lemma atomic_of_ttl {since : ℕ} (hvalid : store.Valid since) (httl : config.ttl = 0) :
    Atomic C keccak lastInstant cfg since store := by
  intro clock hclock hsince hroom fuel op e after hfail
  have hbefore : CacheBounded (clock store.reads + config.ttl) store.cache :=
    hvalid.bounded.mono (by omega)
  obtain ⟨hstate, hreads, hafter⟩ :=
    hfail.keeps (bounded_invariant hclock store.reads) ⟨le_rfl, hbefore⟩
  refine ⟨hstate, fun contract key m m' hm hm' => ?_⟩
  have hold : clock store.reads ≤ clock m := hclock (by omega)
  have hnew : clock after.reads ≤ clock m := hclock hm
  have hown : ∀ {s : Store config}, CacheBounded (clock m) s.cache →
      (sloadCached lastInstant s.cache s.state contract key (clock m) (clock m')).map Prod.fst =
        some (s.state.sload contract key) := fun hbound =>
    sloadCached_eq (P := fun _ _ => False) hbound.live (fun _ hfalse => hfalse.elim) (.inr (hroom m'))
  rw [hown (hafter.mono (by omega)), hown (hbefore.mono (by omega)), hstate]

/-! ### What a failed constructor leaves in the cache -/

def poison (v : UInt8) : List UInt8 := [0x60, 0, 0x60, v, 0x55, 0x60, 0, 0x54, 0xFE]

def poisonCx (v : UInt8) (contract sender : Word) : Ctx where
  frame := {
    contract := contract
    caller := sender
    value := 0
    input := []
    gasLimit := 1000000
    depth := 0
    isStatic := false }
  code := poison v
  jumpdests := []

def atOpcode (used pc : ℕ) (stack : List Word) (store : Store config) :
    CachedInterpreter config where
  core := {
    gas := { limit := 1000000, used := used, maxRefundCache := used / 2 }
    pc := pc
    stack := stack }
  store := store

def byteWord (v : UInt8) : Word := ⟨(List.replicate 31 0 ++ [v]).toArray, by simp⟩

lemma uncached_onCore {α : Type} {m : CoreAct α} {res : Res VmError α} {core : Core}
    (h : m it.core = (res, core)) :
    (uncached (onCore m) : CachedAct config α) it = (res, { it with core }) := by
  unfold uncached onCore Act.on
  simp only [CachedInterpreter.plain, CachedInterpreter.setPlain, h]
  rfl

lemma loadAct_of_some {contract key value : Word} {cache : Option (StorageCache config)}
    (h : sloadCached lastInstant it.store.cache it.store.state contract key (clock it.store.reads)
      (clock (it.store.reads + 1)) = some (value, cache)) :
    loadAct lastInstant clock contract key it =
      (.ok value, { it with store := { it.store with cache, reads := it.store.reads + 2 } }) := by
  rw [loadAct, h]

lemma chargeGas_atOpcode {used amount : ℕ} (hpos : amount ≠ 0) (hfits : used + amount ≤ 1000000)
    (pc : ℕ) (stack : List Word) (store : Store config) :
    chargeGas amount (atOpcode used pc stack store).core =
      (.ok (), (atOpcode (used + amount) pc stack store).core) := by
  have hu64 : ¬ Machine.u64Max < used + amount := by
    have : 1000000 < Machine.u64Max := by decide
    omega
  have hlimit : ¬ 1000000 < used + amount := by omega
  simp [chargeGas, GasMeter.charge, GasMeter.setUsed, atOpcode, hpos, hu64, hlimit]

lemma chargeSstore_atOpcode {val : Word} (hval : wordIsZero val = false) (current : Word)
    {used : ℕ} (hused : used ≤ 100000) (pc : ℕ) (store : Store config) :
    ∃ k ≤ 20000, chargeSstore current val (atOpcode used pc [] store).core =
      (.ok (), (atOpcode (used + k) pc [] store).core) := by
  have hset : gasSstoreSet = 20000 := rfl
  have hreset : gasSstoreReset = 5000 := rfl
  have hsload : gasSload = 100 := rfl
  unfold chargeSstore
  split
  · exact ⟨gasSstoreSet, by omega, chargeGas_atOpcode (by omega) (by omega) pc [] store⟩
  split
  · -- a refund is for clearing a slot
    rename_i hclears
    simp [hval] at hclears
  split
  · exact ⟨gasSstoreReset, by omega, chargeGas_atOpcode (by omega) (by omega) pc [] store⟩
  · exact ⟨gasSload, by omega, chargeGas_atOpcode (by omega) (by omega) pc [] store⟩

section

variable (keccak) (child : CachedChild config) (v : UInt8) (contract sender : Word)

variable {lru : StorageCache config} {cache : Option (StorageCache config)}

lemma step_sstore (hv : wordIsZero (byteWord v) = false) {current : Word}
    (h : sloadCached lastInstant store.cache store.state contract (byteWord 0) (clock store.reads)
      (clock (store.reads + 1)) = some (current, cache)) :
    ∃ k ≤ 20000, stepOpcodeCached keccak lastInstant clock child (poisonCx v contract sender) 0x55
      (atOpcode 6 4 [byteWord v, byteWord 0] store) =
      (.ok (), atOpcode (6 + k) 5 [] {
        state := store.state.sstore contract (byteWord 0) (byteWord v)
        cache := invalidateCacheKey cache (contract, byteWord 0)
        reads := store.reads + 2 }) := by
  obtain ⟨k, hk, hcharge⟩ := chargeSstore_atOpcode hv current (show 6 ≤ 100000 by omega) 5
    ({ store with cache, reads := store.reads + 2 } : Store config)
  have hguard : (uncached (guardStatic (poisonCx v contract sender) "SSTORE in static call") :
      CachedAct config Unit) (atOpcode 6 5 [byteWord v, byteWord 0] store) =
        (.ok (), atOpcode 6 5 [byteWord v, byteWord 0] store) := rfl
  have hpop : (uncached (onCore popSstore) : CachedAct config (Word × Word))
      (atOpcode 6 5 [byteWord v, byteWord 0] store) =
        (.ok (byteWord 0, byteWord v), atOpcode 6 5 [] store) := rfl
  have hload : loadAct lastInstant clock contract (byteWord 0) (atOpcode 6 5 [] store) =
      (.ok current, atOpcode 6 5 [] { store with cache, reads := store.reads + 2 }) :=
    loadAct_of_some h
  refine ⟨k, hk, ?_⟩
  change handleSstoreCached lastInstant clock (poisonCx v contract sender)
    (atOpcode 6 5 [byteWord v, byteWord 0] store) = _
  unfold handleSstoreCached
  rw [Act.bind_of_ok hguard, Act.bind_of_ok hpop]
  exact (Act.bind_of_ok hload).trans (Act.bind_of_ok (uncached_onCore hcharge))

lemma step_push {used : ℕ} (hused : used ≤ 100000) :
    stepOpcodeCached keccak lastInstant clock child (poisonCx v contract sender) 0x60
      (atOpcode used 5 [] store) =
      (.ok (), atOpcode (used + gasVerylow) 7 [byteWord 0] store) := by
  have hcharge : chargeGas gasVerylow (atOpcode used 6 [] store).core =
      (.ok (), (atOpcode (used + gasVerylow) 6 [] store).core) :=
    chargeGas_atOpcode (by decide) (by unfold gasVerylow; omega) 6 [] store
  exact uncached_onCore (Act.bind_of_ok hcharge)

lemma step_sload {used : ℕ} (hused : used ≤ 100000) {value : Word}
    (h : sloadCached lastInstant store.cache store.state contract (byteWord 0) (clock store.reads)
      (clock (store.reads + 1)) = some (value, cache)) :
    stepOpcodeCached keccak lastInstant clock child (poisonCx v contract sender) 0x54
      (atOpcode used 7 [byteWord 0] store) =
      (.ok (), atOpcode (used + gasSload) 8 [value]
        { store with cache, reads := store.reads + 2 }) := by
  have hcharge : chargeGas gasSload (atOpcode used 8 [byteWord 0] store).core =
      (.ok (), (atOpcode (used + gasSload) 8 [byteWord 0] store).core) :=
    chargeGas_atOpcode (by decide) (by unfold gasSload; omega) 8 [byteWord 0] store
  have hpop : (uncached (onCore popWord) : CachedAct config Word)
      (atOpcode (used + gasSload) 8 [byteWord 0] store) =
        (.ok (byteWord 0), atOpcode (used + gasSload) 8 [] store) := rfl
  have hload : loadAct lastInstant clock contract (byteWord 0)
      (atOpcode (used + gasSload) 8 [] store) = (.ok value,
        atOpcode (used + gasSload) 8 [] { store with cache, reads := store.reads + 2 }) :=
    loadAct_of_some h
  change handleSloadCached lastInstant clock (poisonCx v contract sender)
    (atOpcode used 8 [byteWord 0] store) = _
  unfold handleSloadCached
  exact (Act.bind_of_ok (uncached_onCore hcharge)).trans
    ((Act.bind_of_ok hpop).trans (Act.bind_of_ok hload))

lemma runCached_of_step {cx : Ctx} {it it' : CachedInterpreter config} {opcode : UInt8}
    (hhalted : it.core.halted = false) (hop : cx.code[it.core.pc]? = some opcode)
    (hstep : stepOpcodeCached keccak lastInstant clock
      (startCached (runCached keccak lastInstant clock fuel)) cx opcode it = (.ok (), it')) :
    runCached keccak lastInstant clock (fuel + 1) cx it =
      runCached keccak lastInstant clock fuel cx it' := by
  rw [runCached, hhalted, if_neg Bool.false_ne_true, hop]
  simp only [hstep, afterOpcode]

lemma executeCached_poison (hv : wordIsZero (byteWord v) = false)
    (hcache : store.cache = some lru) (hroom : ∀ n, clock n + config.ttl ≤ lastInstant) :
    ∃ lru' : StorageCache config,
      executeCached keccak lastInstant clock 7 store contract (poison v) [] sender 0 1000000 0 false =
        (.error (.invalidOpcode 0xFE), {
          state := store.state.sstore contract (byteWord 0) (byteWord v)
          cache := some (lru'.put (contract, byteWord 0)
            (byteWord v, clock (store.reads + 3) + config.ttl))
          reads := store.reads + 4 }) := by
  obtain ⟨current, lru₁, hcurrent⟩ := exists_sloadCached store.state contract (byteWord 0)
    (clock store.reads) lru (hroom (store.reads + 1))
  rw [← hcache] at hcurrent
  obtain ⟨k, hk, hsstore⟩ := step_sstore keccak (startCached (runCached keccak lastInstant clock 4))
    v contract sender hv hcurrent
  -- the store has dropped the entry, so the load misses and stores the value of the copy
  have hown := sloadCached_of_miss (store.state.sstore contract (byteWord 0) (byteWord v))
    (hroom (store.reads + 3))
    (Expiring.lookup_pop (contract, byteWord 0) (clock (store.reads + 2)) lru₁)
  rw [State.sload_sstore, if_pos rfl] at hown
  refine ⟨(Expiring.lookup (contract, byteWord 0) (clock (store.reads + 2))
    (lru₁.pop (contract, byteWord 0))).2, ?_⟩
  have hpush₀ : stepOpcodeCached keccak lastInstant clock
      (startCached (runCached keccak lastInstant clock 6)) (poisonCx v contract sender) 0x60
      (atOpcode 0 0 [] store) = (.ok (), atOpcode 3 2 [byteWord 0] store) := rfl
  have hpush₁ : stepOpcodeCached keccak lastInstant clock
      (startCached (runCached keccak lastInstant clock 5)) (poisonCx v contract sender) 0x60
      (atOpcode 3 2 [byteWord 0] store) =
        (.ok (), atOpcode 6 4 [byteWord v, byteWord 0] store) := rfl
  change runCached keccak lastInstant clock 7 (poisonCx v contract sender) (atOpcode 0 0 [] store) = _
  rw [runCached_of_step keccak rfl rfl hpush₀, runCached_of_step keccak rfl rfl hpush₁,
    runCached_of_step keccak rfl rfl hsstore,
    runCached_of_step keccak rfl rfl (step_push keccak _ v contract sender (by omega)),
    runCached_of_step keccak rfl rfl
      (step_sload keccak _ v contract sender (by unfold gasVerylow; omega) hown)]
  rfl

lemma deployCached_poison (hv : wordIsZero (byteWord v) = false) (hcache : store.cache = some lru)
    (hroom : ∀ n, clock n + config.ttl ≤ lastInstant)
    (hcontract : deriveContractAddress C sender (store.state.getNonce sender) = contract)
    (hfree : store.state.getCode contract = []) :
    ∃ lru' : StorageCache config,
      FailsWith C keccak lastInstant clock 7 cfg store (.deploy sender (poison v) (some 1000000))
        (.vmError (.invalidOpcode 0xFE)) {
          state := store.state
          cache := some (lru'.put (contract, byteWord 0)
            (byteWord v, clock (store.reads + 3) + config.ttl))
          reads := store.reads + 4 } := by
  obtain ⟨lru', hexec⟩ := executeCached_poison keccak v contract sender hv hcache hroom
  refine ⟨lru', ?_⟩
  have hgas : (1000000 : UInt64).toNat = 1000000 := rfl
  unfold FailsWith deployCached
  simp only [getD_some, hgas, hcontract, hfree, hexec]
  rfl

lemma Atomic.load_eq {since : ℕ} (hatomic : Atomic C keccak lastInstant cfg since store)
    (hvalid : store.Valid since) (hcache : store.cache = some lru) (httl : config.ttl ≠ 0)
    (hroom : since + config.ttl ≤ lastInstant)
    (hcontract : deriveContractAddress C sender (store.state.getNonce sender) = contract)
    (hfree : store.state.getCode contract = []) (hv : wordIsZero (byteWord v) = false) :
    (sloadCached lastInstant store.cache store.state contract (byteWord 0) since since).map Prod.fst =
      some (byteWord v) := by
  -- the clock may stand still
  obtain ⟨lru', hfail⟩ := deployCached_poison keccak v contract sender hv hcache
    (fun _ => hroom : ∀ n, (fun _ => since) n + config.ttl ≤ lastInstant) hcontract hfree
  have hsame := (hatomic (fun _ => since) monotone_const le_rfl (fun _ => hroom) 7 _ _ _ hfail).2
    contract (byteWord 0) _ _ le_rfl le_rfl
  have hsize := hvalid.size_ne_zero (by rw [hcache]; exact some_ne_none lru)
  have hlive : since < since + config.ttl := by omega
  rw [← hsame]
  exact sloadCached_of_hit (Expiring.lookup_put (Nat.pos_of_ne_zero hsize) hlive lru')

end

end

/-- **When failed deployments and calls leave everything as it was.** -/
theorem failures_atomic_iff (C : Crypto) (keccak : List UInt8 → Word) (lastInstant : ℕ)
    (cfg : VmExecutorConfig) {config : StateConfig} {since : ℕ} {store : Store config}
    (hvalid : store.Valid since) :
    ((store.cache = none ∨ config.ttl = 0 ∨ lastInstant < since + config.ttl) →
      Atomic C keccak lastInstant cfg since store) ∧
    ((∃ sender, store.state.getCode
        (deriveContractAddress C sender (store.state.getNonce sender)) = []) →
      Atomic C keccak lastInstant cfg since store →
      store.cache = none ∨ config.ttl = 0 ∨ lastInstant < since + config.ttl) := by
  constructor
  · rintro (hnone | httl | hlast)
    · exact atomic_of_none hnone
    · exact atomic_of_ttl hvalid httl
    · intro clock _ hsince hroom
      have := hroom store.reads
      omega
  · rintro ⟨sender, hfree⟩ hatomic
    by_contra! h
    obtain ⟨hsome, httl, hroom⟩ := h
    obtain ⟨lru, hcache⟩ := Option.ne_none_iff_exists'.mp hsome
    -- two payloads, and one value that was there before
    have hone := hatomic.load_eq keccak 1 _ sender hvalid hcache httl hroom rfl hfree (by decide)
    have htwo := hatomic.load_eq keccak 2 _ sender hvalid hcache httl hroom rfl hfree (by decide)
    rw [hone] at htwo
    exact absurd (Option.some.inj htwo) (by decide)

/-- A new state without a cache, and one with the default configuration. -/
theorem failures_atomic_new :
    Atomic Crypto.demo (fun _ => zero) (10 ^ 20) {} 0
      ({ state := {}, cache := none } : Store {}) ∧
    ¬ Atomic Crypto.demo (fun _ => zero) (10 ^ 20) {} 0
      ({ state := {}, cache := cacheOf {} } : Store {}) := by
  constructor
  · refine (failures_atomic_iff _ _ _ _ ⟨fun h => absurd rfl h, ?_⟩).1 (.inl rfl)
    intro lru hlru
    cases hlru
  · intro hatomic
    have h := (failures_atomic_iff _ _ _ _ ⟨fun _ => by decide, ?_⟩).2 ⟨zero, by decide +kernel⟩
      hatomic
    · revert h
      decide
    · intro lru hlru e he
      cases hlru
      cases he

/-- A constructor stores one, loads it and fails. -/
theorem failed_deploy_is_read :
    let store : Store {} := { state := {}, cache := cacheOf {} }
    let contract := deriveContractAddress Crypto.demo zero 0
    ∃ e after, FailsWith Crypto.demo (fun _ => zero) (10 ^ 20) (fun _ => 0) 7 {} store
        (.deploy zero (poison 1) (some 1000000)) e after ∧
      (sloadCached (10 ^ 20) store.cache store.state contract zero 0 0).map Prod.fst = some zero ∧
      (sloadCached (10 ^ 20) after.cache after.state contract zero 0 0).map Prod.fst =
        some (wordFromU64 1) := by
  intro store contract
  have hroom : 0 + ({} : StateConfig).ttl ≤ 10 ^ 20 := by decide
  obtain ⟨lru, hfail⟩ := deployCached_poison (C := Crypto.demo) (fun _ => zero) 1 contract zero
    (by decide) (show store.cache = some _ from rfl) (fun _ => hroom) rfl (by decide +kernel)
  refine ⟨_, _, hfail, by decide +kernel, ?_⟩
  exact sloadCached_of_hit (Expiring.lookup_put (by decide) (by decide) lru)

end Iona.Vm
