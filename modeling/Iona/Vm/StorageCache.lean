import Iona.Lib.Expiring
import Iona.Lib.Trace
import Iona.Vm.State

/-!
# The storage cache

From `vm/state.rs`.
-/

namespace Iona.Vm

open Expiring Option

structure StateConfig where
  enableStorageCache : Bool := true
  storageCacheSize : ℕ := 1024
  storageCacheTtlSecs : UInt64 := 60
  deriving DecidableEq

def StateConfig.ttl (config : StateConfig) : ℕ := config.storageCacheTtlSecs.toNat * 10 ^ 9

abbrev StorageCache (config : StateConfig) :=
  Expiring.Cache (Word × Word) Word config.storageCacheSize

variable {config : StateConfig} (lastInstant : ℕ)

def cacheOf (config : StateConfig) : Option (StorageCache config) :=
  if config.enableStorageCache ∧ config.storageCacheSize ≠ 0 then some (Lru.Cache.empty _ _ _)
  else none

def invalidateCacheKey (cache : Option (StorageCache config)) (key : Word × Word) :
    Option (StorageCache config) :=
  cache.map fun lru => lru.pop key

def invalidateCacheContract (cache : Option (StorageCache config)) (contract : Word) :
    Option (StorageCache config) :=
  cache.map fun lru => lru.popWhere fun key => key.1 = contract

/-- `sload` with the two instants it reads: one to see whether an entry has expired, one for the
expiry of a new entry, which panics past the last instant of the clock. -/
def sloadCached (cache : Option (StorageCache config)) (st : State) (contract key : Word)
    (now later : ℕ) : Option (Word × Option (StorageCache config)) :=
  match cache with
  | none => some (st.sload contract key, none)
  | some lru =>
    match Expiring.lookup (contract, key) now lru with
    | (some value, lru) => some (value, some lru)
    | (none, lru) =>
      if later + config.ttl ≤ lastInstant then
        some (st.sload contract key,
          some (lru.put (contract, key) (st.sload contract key, later + config.ttl)))
      else none

/-! ### What the cache holds -/

def CacheLive (P : Word × Word → Word → Prop) (now : ℕ) (cache : Option (StorageCache config)) :
    Prop :=
  ∀ lru, cache = some lru → Expiring.Live P now lru

section

variable {lastInstant} {P Q : Word × Word → Word → Prop} {cache cache' : Option (StorageCache config)}
  {st : State} {contract key value : Word} {now later : ℕ}

variable {limit : ℕ} {lru : StorageCache config}

lemma CacheLive.mono (h : CacheLive P now cache) (hle : now ≤ later)
    (hPQ : ∀ slot value, P slot value → Q slot value) : CacheLive Q later cache :=
  fun lru hlru => ((h lru hlru).later hle).imp hPQ

lemma sloadCached_cases
    (h : sloadCached lastInstant cache st contract key now later = some (value, cache')) :
    (cache = none ∧ cache' = none ∧ value = st.sload contract key) ∨
    (∃ lru, cache = some lru ∧ (Expiring.lookup (contract, key) now lru).1 = some value ∧
      cache' = some (Expiring.lookup (contract, key) now lru).2) ∨
    (∃ lru, cache = some lru ∧ (Expiring.lookup (contract, key) now lru).1 = none ∧
      later + config.ttl ≤ lastInstant ∧ value = st.sload contract key ∧
      cache' = some ((Expiring.lookup (contract, key) now lru).2.put (contract, key)
        (value, later + config.ttl))) := by
  unfold sloadCached at h
  split at h
  · cases h
    exact .inl ⟨rfl, rfl, rfl⟩
  · rename_i lru
    split at h
    · rename_i hit lru' hlookup
      cases h
      exact .inr (.inl ⟨lru, rfl, by rw [hlookup], by rw [hlookup]⟩)
    · rename_i lru' hlookup
      split at h
      · rename_i hroom
        cases h
        exact .inr (.inr ⟨lru, rfl, by rw [hlookup], hroom, rfl, by rw [hlookup]⟩)
      · cases h

lemma CacheLive.sload (h : CacheLive P now cache) (hle : now ≤ later)
    (hown : config.ttl ≠ 0 → P (contract, key) (st.sload contract key))
    (hload : sloadCached lastInstant cache st contract key now later = some (value, cache')) :
    CacheLive P later cache' := by
  obtain ⟨-, hnone, -⟩ | ⟨lru, hsome, -, hcache⟩ | ⟨lru, hsome, -, -, hvalue, hcache⟩ :=
    sloadCached_cases hload
  · intro lru hlru
    rw [hnone] at hlru
    cases hlru
  · intro lru' hlru'
    rw [hcache] at hlru'
    cases hlru'
    exact ((h lru hsome).lookup _ _).later hle
  · intro lru' hlru'
    rw [hcache] at hlru'
    cases hlru'
    refine (((h lru hsome).lookup _ _).later hle).put fun hlive => ?_
    rw [hvalue]
    exact hown (by omega)

lemma CacheLive.invalidateKey (h : CacheLive P now cache) {slot : Word × Word}
    (hPQ : ∀ slot' value, slot' ≠ slot → P slot' value → Q slot' value) :
    CacheLive Q now (invalidateCacheKey cache slot) := by
  intro lru hlru
  obtain ⟨lru₀, hlru₀, rfl⟩ := map_eq_some_iff.mp hlru
  exact (h lru₀ hlru₀).pop hPQ

lemma CacheLive.invalidateContract (h : CacheLive P now cache)
    (hPQ : ∀ slot value, slot.1 ≠ contract → P slot value → Q slot value) :
    CacheLive Q now (invalidateCacheContract cache contract) := by
  intro lru hlru
  obtain ⟨lru₀, hlru₀, rfl⟩ := map_eq_some_iff.mp hlru
  refine (h lru₀ hlru₀).popWhere fun slot value hne => hPQ slot value ?_
  simpa using hne

def CacheBounded (limit : ℕ) (cache : Option (StorageCache config)) : Prop :=
  ∀ lru, cache = some lru → ∀ e ∈ lru.entries, e.2.2 ≤ limit

lemma CacheBounded.mono {limit' : ℕ} (h : CacheBounded limit cache) (hle : limit ≤ limit') :
    CacheBounded limit' cache :=
  fun lru hlru e he => (h lru hlru e he).trans hle

lemma CacheBounded.sload (h : CacheBounded limit cache) (hle : later + config.ttl ≤ limit)
    (hload : sloadCached lastInstant cache st contract key now later = some (value, cache')) :
    CacheBounded limit cache' := by
  intro lru' hlru' e he
  obtain ⟨-, hnone, -⟩ | ⟨lru, hsome, -, hcache⟩ | ⟨lru, hsome, -, -, -, hcache⟩ :=
    sloadCached_cases hload
  · rw [hnone] at hlru'
    cases hlru'
  · rw [hcache] at hlru'
    cases hlru'
    exact h lru hsome e (mem_of_mem_lookup he)
  · rw [hcache] at hlru'
    cases hlru'
    rcases Lru.Cache.mem_of_mem_put he with rfl | he
    · exact hle
    · exact h lru hsome e (mem_of_mem_lookup he)

lemma CacheBounded.invalidateKey (h : CacheBounded limit cache) (slot : Word × Word) :
    CacheBounded limit (invalidateCacheKey cache slot) := by
  intro lru hlru e he
  obtain ⟨lru₀, hlru₀, rfl⟩ := map_eq_some_iff.mp hlru
  exact h lru₀ hlru₀ e (Lru.Cache.mem_of_mem_pop he)

lemma CacheBounded.invalidateContract (h : CacheBounded limit cache) (contract : Word) :
    CacheBounded limit (invalidateCacheContract cache contract) := by
  intro lru hlru e he
  obtain ⟨lru₀, hlru₀, rfl⟩ := map_eq_some_iff.mp hlru
  exact h lru₀ hlru₀ e (Lru.Cache.mem_popWhere.mp he).1

lemma CacheBounded.live (h : CacheBounded now cache) : CacheLive P now cache :=
  fun lru hlru e he hlive => absurd (h lru hlru e he) (Nat.not_le.mpr hlive)

lemma sloadCached_eq (h : CacheLive P now cache)
    (hown : ∀ value, P (contract, key) value → st.sload contract key = value)
    (hroom : cache = none ∨ later + config.ttl ≤ lastInstant) :
    (sloadCached lastInstant cache st contract key now later).map Prod.fst =
      some (st.sload contract key) := by
  unfold sloadCached
  split
  · rfl
  · rename_i lru
    have hroom := hroom.resolve_left (by simp)
    split
    · rename_i hit lru' hlookup
      have hP := (h lru rfl).of_hit (k := (contract, key)) (v := hit) (by rw [hlookup])
      rw [hown hit hP]
      rfl
    · rw [if_pos hroom]
      rfl

variable (st contract key now) in
lemma exists_sloadCached (lru : StorageCache config) (hroom : later + config.ttl ≤ lastInstant) :
    ∃ value lru', sloadCached lastInstant (some lru) st contract key now later =
      some (value, some lru') := by
  unfold sloadCached
  simp only
  split
  · exact ⟨_, _, rfl⟩
  · rw [if_pos hroom]
    exact ⟨_, _, rfl⟩

variable (st) in
lemma sloadCached_of_miss (hroom : later + config.ttl ≤ lastInstant)
    (hmiss : (Expiring.lookup (contract, key) now lru).1 = none) :
    sloadCached lastInstant (some lru) st contract key now later = some (st.sload contract key,
      some ((Expiring.lookup (contract, key) now lru).2.put (contract, key)
        (st.sload contract key, later + config.ttl))) := by
  unfold sloadCached
  simp only
  split
  · rename_i v lru' hlookup
    rw [hlookup] at hmiss
    cases hmiss
  · rename_i lru' hlookup
    rw [if_pos hroom, hlookup]

lemma sloadCached_of_hit (hit : (Expiring.lookup (contract, key) now lru).1 = some value) :
    (sloadCached lastInstant (some lru) st contract key now later).map Prod.fst = some value := by
  unfold sloadCached
  simp only
  split
  · rename_i v lru' hlookup
    rw [hlookup] at hit
    cases hit
    rfl
  · rename_i lru' hlookup
    rw [hlookup] at hit
    cases hit

end

/-! ### Clones -/

structure Clones (config : StateConfig) where
  cache : Option (StorageCache config)
  instances : List State
  clock : ℕ := 0

inductive StorageOp where
  | sload (i : ℕ) (contract key : Word) (now later : ℕ)
  | sstore (i : ℕ) (contract key value : Word)
  | deleteContract (i : ℕ) (contract : Word)
  | clone (i : ℕ)
  | snapshot (i : ℕ)
  | applySnapshot (i j : ℕ)

namespace Clones

def withConfig (config : StateConfig) (st : State) : Clones config where
  cache := cacheOf config
  instances := [st]

variable (horizon : ℕ)

def step (w : Clones config) : StorageOp → Option (Clones config)
  | .sload i contract key now later => do
    let st ← w.instances[i]?
    if w.clock ≤ now ∧ now ≤ later ∧ later ≤ horizon then
      let (_, cache) ← sloadCached lastInstant w.cache st contract key now later
      some { w with cache, clock := later }
    else none
  | .sstore i contract key value => do
    let st ← w.instances[i]?
    some { w with
      cache := invalidateCacheKey w.cache (contract, key)
      instances := w.instances.set i (st.sstore contract key value) }
  | .deleteContract i contract => do
    let st ← w.instances[i]?
    some { w with
      cache := invalidateCacheContract w.cache contract
      instances := w.instances.set i (st.deleteContract contract) }
  | .clone i => do
    let st ← w.instances[i]?
    some { w with instances := w.instances ++ [st] }
  | .snapshot i => do
    let st ← w.instances[i]?
    some { w with instances := w.instances ++ [st] }
  | .applySnapshot i j => do
    let st ← w.instances[i]?
    let snap ← w.instances[j]?
    -- the snapshot is passed by value: the caller has it no more
    if i = j then none
    else some { w with instances := (w.instances.set i { snap with maxLogs := st.maxLogs }).eraseIdx j }

def AnswersOwn (w : Clones config) : Prop :=
  ∀ st ∈ w.instances, ∀ contract key now later, w.clock ≤ now → now ≤ later → later ≤ horizon →
    (sloadCached lastInstant w.cache st contract key now later).map Prod.fst =
      some (st.sload contract key)

def Shared (w : Clones config) : StorageOp → Prop
  | .sload _ contract key _ _ =>
    ∀ st ∈ w.instances, ∀ st' ∈ w.instances, st.sload contract key = st'.sload contract key
  | _ => True

instance (w : Clones config) : (op : StorageOp) → Decidable (w.Shared op)
  | .sload _ contract key _ _ => inferInstanceAs (Decidable (∀ st ∈ w.instances,
      ∀ st' ∈ w.instances, st.sload contract key = st'.sload contract key))
  | .sstore .. => .isTrue trivial
  | .deleteContract .. => .isTrue trivial
  | .clone _ => .isTrue trivial
  | .snapshot _ => .isTrue trivial
  | .applySnapshot .. => .isTrue trivial

structure Fresh (w : Clones config) : Prop where
  one : ∃ st, w.instances = [st]
  cache_eq : w.cache = none ∨ config.storageCacheSize ≠ 0 ∧ w.cache = some (Lru.Cache.empty _ _ _)
  clock_eq : w.clock = 0

lemma withConfig_fresh (config : StateConfig) (st : State) : (withConfig config st).Fresh := by
  refine ⟨⟨st, rfl⟩, ?_, rfl⟩
  unfold withConfig cacheOf
  split
  · rename_i h
    exact .inr ⟨h.2, rfl⟩
  · exact .inl rfl

/-! ### The invariant -/

def Coherent (w : Clones config) : Prop :=
  CacheLive (fun slot value => ∀ st ∈ w.instances, st.sload slot.1 slot.2 = value) w.clock w.cache

variable {lastInstant horizon} {w w' : Clones config} {op : StorageOp}

lemma Fresh.coherent (h : w.Fresh) : w.Coherent := by
  intro lru hlru
  rcases h.cache_eq with hnone | ⟨-, hsome⟩
  · rw [hnone] at hlru
    cases hlru
  · rw [hsome] at hlru
    cases hlru
    exact Expiring.Live.empty _

lemma Coherent.answersOwn (h : w.Coherent)
    (hroom : w.cache = none ∨ horizon + config.ttl ≤ lastInstant) :
    w.AnswersOwn lastInstant horizon := by
  intro st hst contract key now later hnow hlater hhor
  refine sloadCached_eq (CacheLive.mono h hnow fun _ _ hP => hP) (fun value hP => hP st hst) ?_
  exact hroom.imp_right fun hle => by omega

lemma forall_set {P : State → Prop} {l : List State} {i : ℕ} {st st' : State}
    (hst : l[i]? = some st) (h : ∀ s ∈ l, P s) (hnew : P st → P st') : ∀ s ∈ l.set i st', P s := by
  intro s hs
  rcases List.mem_or_eq_of_mem_set hs with hmem | rfl
  · exact h s hmem
  · exact hnew (h st (List.mem_of_getElem? hst))

lemma Coherent.copies (h : w.Coherent) {instances : List State}
    (hcopy : ∀ s ∈ instances, ∃ s' ∈ w.instances, ∀ contract key,
      s.sload contract key = s'.sload contract key) :
    Coherent { w with instances := instances } := by
  refine CacheLive.mono h le_rfl fun slot value hP s hs => ?_
  obtain ⟨s', hs', heq⟩ := hcopy s hs
  rw [heq]
  exact hP s' hs'

lemma copies_append {st : State} {i : ℕ} (hst : w.instances[i]? = some st) :
    ∀ s ∈ w.instances ++ [st], ∃ s' ∈ w.instances, ∀ contract key,
      s.sload contract key = s'.sload contract key := by
  intro s hs
  rcases List.mem_append.mp hs with hs | hs
  · exact ⟨s, hs, fun _ _ => rfl⟩
  · rw [List.mem_singleton.mp hs]
    exact ⟨st, List.mem_of_getElem? hst, fun _ _ => rfl⟩

lemma Coherent.step (h : w.Coherent) (hstep : w.step lastInstant horizon op = some w')
    (hload : config.ttl ≠ 0 → w.Shared op) : w'.Coherent := by
  cases op with
  | sload i contract key now later =>
    obtain ⟨st, hst, hstep⟩ := bind_eq_some_iff.mp hstep
    split at hstep
    · rename_i hclock
      obtain ⟨⟨value, cache⟩, hsload, hw'⟩ := bind_eq_some_iff.mp hstep
      cases hw'
      have hnow := CacheLive.mono h hclock.1 fun _ _ hP => hP
      refine hnow.sload hclock.2.1 (fun httl st' hst' => ?_) hsload
      exact hload httl st' hst' st (List.mem_of_getElem? hst)
    · cases hstep
  | sstore i contract key value =>
    obtain ⟨st, hst, hw'⟩ := bind_eq_some_iff.mp hstep
    cases hw'
    refine CacheLive.invalidateKey h fun slot v hne hP => ?_
    refine forall_set hst hP fun hs => ?_
    rw [State.sload_sstore, if_neg hne]
    exact hs
  | deleteContract i contract =>
    obtain ⟨st, hst, hw'⟩ := bind_eq_some_iff.mp hstep
    cases hw'
    refine CacheLive.invalidateContract h fun slot v hne hP => ?_
    refine forall_set hst hP fun hs => ?_
    rw [State.sload_deleteContract, if_neg hne]
    exact hs
  | clone i =>
    obtain ⟨st, hst, hw'⟩ := bind_eq_some_iff.mp hstep
    cases hw'
    exact h.copies (copies_append hst)
  | snapshot i =>
    obtain ⟨st, hst, hw'⟩ := bind_eq_some_iff.mp hstep
    cases hw'
    exact h.copies (copies_append hst)
  | applySnapshot i j =>
    obtain ⟨st, hst, hstep⟩ := bind_eq_some_iff.mp hstep
    obtain ⟨snap, hsnap, hstep⟩ := bind_eq_some_iff.mp hstep
    split at hstep
    · cases hstep
    cases hstep
    refine h.copies fun s hs => ?_
    rcases List.mem_or_eq_of_mem_set (List.mem_of_mem_eraseIdx hs) with hmem | rfl
    · exact ⟨s, hmem, fun _ _ => rfl⟩
    · exact ⟨snap, List.mem_of_getElem? hsnap, fun _ _ => rfl⟩

lemma step_sload {i : ℕ} {contract key : Word} {now later : ℕ}
    (h : w.step lastInstant horizon (.sload i contract key now later) = some w') :
    ∃ st value, w.instances[i]? = some st ∧ (w.clock ≤ now ∧ now ≤ later ∧ later ≤ horizon) ∧
      sloadCached lastInstant w.cache st contract key now later = some (value, w'.cache) ∧
      w'.instances = w.instances ∧ w'.clock = later := by
  obtain ⟨st, hst, h⟩ := bind_eq_some_iff.mp h
  split at h
  · rename_i hclock
    obtain ⟨⟨value, cache⟩, hsload, hw'⟩ := bind_eq_some_iff.mp h
    cases hw'
    exact ⟨st, value, hst, hclock, hsload, rfl, rfl⟩
  · cases h

lemma step_keeps (h : w.step lastInstant horizon op = some w') :
    w'.cache.isSome = w.cache.isSome ∧ (w.clock ≤ horizon → w'.clock ≤ horizon) := by
  cases op with
  | sload i contract key now later =>
    obtain ⟨st, value, -, hclock, hload, -, hlater⟩ := step_sload h
    refine ⟨?_, fun _ => hlater.trans_le hclock.2.2⟩
    obtain ⟨hnone, hnone', -⟩ | ⟨lru, hsome, -, hcache⟩ | ⟨lru, hsome, -, -, -, hcache⟩ :=
      sloadCached_cases hload
    · rw [hnone, hnone']
    · rw [hsome, hcache]
      rfl
    · rw [hsome, hcache]
      rfl
  | sstore i contract key value =>
    obtain ⟨st, hst, hw'⟩ := bind_eq_some_iff.mp h
    cases hw'
    exact ⟨isSome_map, id⟩
  | deleteContract i contract =>
    obtain ⟨st, hst, hw'⟩ := bind_eq_some_iff.mp h
    cases hw'
    exact ⟨isSome_map, id⟩
  | clone i =>
    obtain ⟨st, hst, hw'⟩ := bind_eq_some_iff.mp h
    cases hw'
    exact ⟨rfl, id⟩
  | snapshot i =>
    obtain ⟨st, hst, hw'⟩ := bind_eq_some_iff.mp h
    cases hw'
    exact ⟨rfl, id⟩
  | applySnapshot i j =>
    obtain ⟨st, hst, h⟩ := bind_eq_some_iff.mp h
    obtain ⟨snap, hsnap, h⟩ := bind_eq_some_iff.mp h
    split at h
    · cases h
    · cases h
      exact ⟨rfl, id⟩

/-! ### Loads that other instances see -/

lemma shared_of_answersOwn (hbefore : w.AnswersOwn lastInstant horizon)
    (hafter : w'.AnswersOwn lastInstant horizon) (hsize : config.storageCacheSize ≠ 0)
    (httl : config.ttl ≠ 0) (hcache : w.cache.isSome = true)
    (hstep : w.step lastInstant horizon op = some w') : w.Shared op := by
  cases op with
  | sload i contract key now later =>
    obtain ⟨st, value, hst, ⟨hnow, hlater, hhor⟩, hload, hinst, hclock⟩ := step_sload hstep
    have hown : ∀ st ∈ w.instances, st.sload contract key = value := by
      intro st' hst'
      obtain ⟨hnone, -⟩ | ⟨lru, hsome, hit, -⟩ | ⟨lru, -, -, -, -, hput⟩ := sloadCached_cases hload
      · rw [hnone] at hcache
        cases hcache
      · have hans := hbefore st' hst' contract key now later hnow hlater hhor
        rw [hsome, sloadCached_of_hit hit] at hans
        exact (Option.some.inj hans).symm
      · -- the new entry counts for every instance from the moment it is there
        have hlive : later < later + config.ttl := by omega
        have hans := hafter st' (hinst ▸ hst') contract key later later hclock.le le_rfl hhor
        rw [hput, sloadCached_of_hit
          (lookup_put (Nat.pos_of_ne_zero hsize) hlive _)] at hans
        exact (Option.some.inj hans).symm
    intro st₁ h₁ st₂ h₂
    rw [hown st₁ h₁, hown st₂ h₂]
  | _ => trivial

end Clones

/-! ### Whole runs -/

namespace Clones

variable {lastInstant horizon : ℕ} {w₀ w : Clones config} {ops : List StorageOp}

lemma run_cache (h : Trace.run (step lastInstant horizon) w₀ ops = some w) :
    w.cache.isSome = w₀.cache.isSome :=
  Trace.run_invariant (P := fun w => w.cache.isSome = w₀.cache.isSome)
    (fun _ _ _ hP hstep => (step_keeps hstep).1.trans hP) rfl h

lemma Coherent.run (h₀ : w₀.Coherent)
    (hops : config.ttl = 0 ∨ Trace.Along (Clones.step lastInstant horizon)
      (fun w op => (w.step lastInstant horizon op).isSome → w.Shared op) w₀ ops)
    (h : Trace.run (Clones.step lastInstant horizon) w₀ ops = some w) : w.Coherent := by
  have halong : Trace.Along (Clones.step lastInstant horizon) (fun w op =>
      config.ttl ≠ 0 → (w.step lastInstant horizon op).isSome → w.Shared op) w₀ ops := by
    rcases hops with httl | hops
    · exact fun _ _ _ _ _ _ hne => absurd httl hne
    · exact hops.imp fun _ _ hC _ => hC
  refine Trace.run_history (P := fun _ w => w.Coherent) h₀ ?_ halong h
  intro _ w op w' hw hC hstep
  exact hw.step hstep fun httl => hC httl (by rw [hstep]; rfl)

lemma Fresh.room (h₀ : w₀.Fresh) (hcache : w₀.cache ≠ none)
    (hans : w₀.AnswersOwn lastInstant horizon) : horizon + config.ttl ≤ lastInstant := by
  obtain ⟨st, hone⟩ := h₀.one
  obtain ⟨-, hempty⟩ := h₀.cache_eq.resolve_left hcache
  have hload := hans st (by rw [hone]; exact List.mem_singleton_self st) zero zero horizon horizon
    (by rw [h₀.clock_eq]; exact Nat.zero_le _) le_rfl le_rfl
  by_contra hroom
  rw [hempty] at hload
  have hmiss : Expiring.lookup (zero, zero) horizon
      (Lru.Cache.empty _ _ _ : StorageCache config) = (none, Lru.Cache.empty _ _ _) := rfl
  rw [sloadCached, hmiss] at hload
  simp only [if_neg hroom] at hload
  cases hload

end Clones

/-- **When the clones of an instance are answered with what they hold.** -/
theorem clones_answer_own_iff (lastInstant horizon : ℕ) {w₀ : Clones config} (h₀ : w₀.Fresh)
    (ops : List StorageOp) :
    (∀ pre post w, ops = pre ++ post →
      Trace.run (Clones.step lastInstant horizon) w₀ pre = some w → w.AnswersOwn lastInstant horizon) ↔
    w₀.cache = none ∨ horizon + config.ttl ≤ lastInstant ∧
      (config.ttl = 0 ∨ Trace.Along (Clones.step lastInstant horizon)
        (fun w op => (w.step lastInstant horizon op).isSome → w.Shared op) w₀ ops) := by
  constructor
  · intro hall
    by_cases hcache : w₀.cache = none
    · exact .inl hcache
    have hsize := (h₀.cache_eq.resolve_left hcache).1
    refine .inr ⟨h₀.room hcache (hall [] ops w₀ rfl rfl), ?_⟩
    by_cases httl : config.ttl = 0
    · exact .inl httl
    refine .inr fun pre op post hsplit w hw hsome => ?_
    obtain ⟨w', hstep⟩ := Option.isSome_iff_exists.mp hsome
    have hbefore := hall pre (op :: post) w hsplit hw
    have hafter := hall (pre ++ [op]) post w' (by rw [hsplit, List.append_assoc]; rfl)
      (by rw [Trace.run_snoc, hw, Option.bind_some, hstep])
    refine Clones.shared_of_answersOwn hbefore hafter hsize httl ?_ hstep
    rw [Clones.run_cache hw]
    exact Option.isSome_iff_ne_none.mpr hcache
  · rintro (hnone | ⟨hroom, hops⟩) pre post w hsplit hw
    · have hw_none : w.cache = none := by
        have hsome := Clones.run_cache hw
        rw [hnone] at hsome
        exact Option.not_isSome_iff_eq_none.mp (by rw [hsome]; exact Bool.false_ne_true)
      refine Clones.Coherent.answersOwn (fun lru hlru => ?_) (.inl hw_none)
      rw [hw_none] at hlru
      cases hlru
    · refine (h₀.coherent.run ?_ hw).answersOwn (.inr hroom)
      rw [hsplit] at hops
      exact hops.imp_right fun halong => halong.append

/-- A load through the instance and one through its clone, before a store. -/
theorem clones_answer_own_reads :
    (Clones.withConfig {} {}).Fresh ∧ ∀ pre post w,
      [.clone 0, .sload 0 zero zero 1 2, .sload 1 zero zero 3 4,
        .sstore 1 zero zero (wordFromU64 1)] = pre ++ post →
      Trace.run (Clones.step (10 ^ 20) 10) (Clones.withConfig {} {}) pre = some w →
        w.AnswersOwn (10 ^ 20) 10 := by
  have hfresh := Clones.withConfig_fresh {} {}
  refine ⟨hfresh, (clones_answer_own_iff (10 ^ 20) 10 hfresh _).mpr ?_⟩
  have htest : Trace.alongTest (Clones.step (10 ^ 20) 10)
      (fun w op => decide ((w.step (10 ^ 20) 10 op).isSome → w.Shared op)) (Clones.withConfig {} {})
      [.clone 0, .sload 0 zero zero 1 2, .sload 1 zero zero 3 4,
        .sstore 1 zero zero (wordFromU64 1)] = true := by
    decide +kernel
  exact .inr ⟨by decide, .inr (Trace.along_of_alongTest (fun _ _ h => of_decide_eq_true h) htest)⟩

/-- A clone stores one and loads it: the instance, whose slot is empty, is answered with one. So it is
when the instance stores and loads one itself and is then rolled back to a snapshot. -/
theorem clone_answers_for_instance :
    let held (ops : List StorageOp) := (Trace.run (Clones.step (10 ^ 20) 10) (Clones.withConfig {} {}) ops).bind
      fun w => w.instances[0]?.map fun st => st.sload zero zero
    let answered (ops : List StorageOp) :=
      (Trace.run (Clones.step (10 ^ 20) 10) (Clones.withConfig {} {}) ops).bind fun w =>
        w.instances[0]?.bind fun st => (sloadCached (10 ^ 20) w.cache st zero zero 3 4).map Prod.fst
    let cloned : List StorageOp := [.clone 0, .sstore 1 zero zero (wordFromU64 1), .sload 1 zero zero 1 2]
    let rolledBack : List StorageOp := [.snapshot 0, .sstore 0 zero zero (wordFromU64 1),
      .sload 0 zero zero 1 2, .applySnapshot 0 1]
    held cloned = some zero ∧ answered cloned = some (wordFromU64 1) ∧
      held rolledBack = some zero ∧ answered rolledBack = some (wordFromU64 1) := by
  decide +kernel

end Iona.Vm
