import Iona.Vm.CachedRun

/-!
# How an execution on a cached state ends

The interpreter reads storage through a cache that may answer with an old value, and whose expiry times
are instants of the clock. An opcode on such a state does to the frame what the opcode without a cache
does on some state (`executeOpcodeCached_mirrors`), so what `Vm.Step` shows of one opcode holds here.

## Main definitions

* `VisitsCached`: the opcodes that an execution comes to, nested frames included.
* `Roomy`: there is no cache, or every instant of the clock leaves room for an expiry.

## Main results

* `execute_never_panics`: an execution does not panic if its opcodes are benign and there is room.
* `run_terminates`: gas and depth decrease, so every run ends.
-/

namespace Iona.Vm

variable {config : StateConfig} (keccak : List UInt8 → Word) (lastInstant : ℕ) (clock : ℕ → ℕ)

/-! ### One opcode -/

/-- There is no cache, or every instant of the clock leaves room for the expiry of a new entry. -/
def Roomy (cache : Option (StorageCache config)) : Prop :=
  cache = none ∨ ∀ n, clock n + config.ttl ≤ lastInstant

variable {keccak lastInstant clock} {cx : Ctx} {opcode : UInt8} {it it₁ : CachedInterpreter config}
  {child : CachedChild config}

lemma roomy_invariant : CacheInvariant lastInstant clock
    fun (cache : Option (StorageCache config)) _ => Roomy lastInstant clock cache := by
  refine ⟨fun h hload => ?_, fun _ h => ?_, fun _ h => ?_⟩
  · refine h.imp_left fun hnone => ?_
    subst hnone
    cases hload
    rfl
  · exact h.imp_left fun hnone => by rw [hnone]; rfl
  · exact h.imp_left fun hnone => by rw [hnone]; rfl

lemma Roomy.load {cache : Option (StorageCache config)} (h : Roomy lastInstant clock cache) (st : State)
    (contract key : Word) (now n : ℕ) :
    ∃ value cache', sloadCached lastInstant cache st contract key now (clock n) = some (value, cache') := by
  unfold sloadCached
  split
  · exact ⟨_, _, rfl⟩
  · rename_i lru
    split
    · exact ⟨_, _, rfl⟩
    · rw [if_pos (h.resolve_left (by simp) n)]
      exact ⟨_, _, rfl⟩

/-- A cached outcome and a plain one agree on the result and on the frame. -/
def Mirrors (out : Res VmError Unit × CachedInterpreter config) (plain : Res VmError Unit × Interpreter) :
    Prop :=
  out.1 = plain.1 ∧ out.2.core = plain.2.core

/-- The nested frames of a cached opcode, as children of a plain one. -/
def CachedChild.plain (child : CachedChild config) (store : Store config) : Child := fun frame code st =>
  ((child frame code store).1, st)

/-- What a load leaves. -/
def loaded (it : CachedInterpreter config) (cache : Option (StorageCache config)) : CachedInterpreter config :=
  { it with store := { it.store with cache, reads := it.store.reads + 2 } }

lemma uncached_onCore_apply {α : Type} (m : CoreAct α) (it : CachedInterpreter config) :
    (uncached (onCore m) : CachedAct config α) it = ((m it.core).1, { it with core := (m it.core).2 }) := rfl

lemma onCore_apply {α : Type} (m : CoreAct α) (it : Interpreter) :
    onCore m it = ((m it.core).1, { it with core := (m it.core).2 }) := rfl

/-- The outcome of a cached action is that of the plain action on some state that keeps as many logs,
or it is the panic of a load that found no room. -/
def Mirrored (room : Prop) (maxLogs : ℕ) (out : Res VmError Unit × CachedInterpreter config)
    (plain : State → Res VmError Unit × Interpreter) : Prop :=
  ¬ room ∧ out.1 = .abort .panic ∨ ∃ st : State, st.maxLogs = maxLogs ∧ Mirrors out (plain st)

namespace Mirrored

variable {room : Prop} {maxLogs : ℕ}

lemma of_any {out : Res VmError Unit × CachedInterpreter config}
    {plain : State → Res VmError Unit × Interpreter} (h : ∀ st, Mirrors out (plain st)) :
    Mirrored room maxLogs out plain :=
  .inr ⟨{ maxLogs }, rfl, h _⟩

lemma bind (it : CachedInterpreter config) {α : Type} {m : CoreAct α} {f : α → CachedAct config Unit}
    {f' : State → α → VmAct Unit}
    (h : ∀ a c, Mirrored room maxLogs (f a { it with core := c }) fun st => f' st a ⟨c, st⟩) :
    Mirrored room maxLogs ((uncached (onCore m) >>= f) it) fun st => (onCore m >>= f' st) ⟨it.core, st⟩ := by
  simp only [Act.bind_apply, uncached_onCore_apply, onCore_apply]
  rcases m it.core with ⟨a | e | why, c⟩
  · exact h a c
  · exact of_any fun _ => ⟨rfl, rfl⟩
  · exact of_any fun _ => ⟨rfl, rfl⟩

lemma guard {reason : String} {f : Unit → CachedAct config Unit} {f' : State → Unit → VmAct Unit}
    (h : Mirrored room maxLogs (f () it) fun st => f' st () ⟨it.core, st⟩) :
    Mirrored room maxLogs ((uncached (guardStatic cx reason) >>= f) it)
      fun st => (guardStatic cx reason >>= f' st) ⟨it.core, st⟩ := by
  unfold guardStatic
  split
  · exact of_any fun _ => ⟨rfl, rfl⟩
  · exact h

/-- A load answers as a state does that holds the answer. -/
lemma load (it : CachedInterpreter config) (h : room → Roomy lastInstant clock it.store.cache)
    {contract key : Word} {f : Word → CachedAct config Unit} {f' : State → VmAct Unit}
    (hf : ∀ value cache st, st.sload contract key = value →
      Mirrors (f value (loaded it cache)) (f' st ⟨it.core, st⟩)) :
    Mirrored room maxLogs ((loadAct lastInstant clock contract key >>= f) it)
      fun st => f' st ⟨it.core, st⟩ := by
  cases hload : sloadCached lastInstant it.store.cache it.store.state contract key (clock it.store.reads)
      (clock (it.store.reads + 1)) with
  | none =>
    refine .inl ⟨fun hroom => ?_, ?_⟩
    · obtain ⟨value, cache, hsome⟩ := (h hroom).load it.store.state contract key (clock it.store.reads)
        (it.store.reads + 1)
      rw [hload] at hsome
      cases hsome
    · simp only [Act.bind_apply, loadAct, hload]
  | some out =>
    obtain ⟨value, cache⟩ := out
    refine .inr ⟨({ maxLogs } : State).sstore contract key value, ?_, ?_⟩
    · unfold State.sstore
      split <;> rfl
    · simp only [Act.bind_apply, loadAct, hload]
      exact hf value cache _ (by rw [State.sload_sstore, if_pos rfl])

lemma handleSload (h : room → Roomy lastInstant clock it.store.cache) :
    Mirrored room maxLogs (handleSloadCached lastInstant clock cx it)
      fun st => reading (Vm.handleSload cx) ⟨it.core, st⟩ := by
  have hplain : ∀ st : State, reading (Vm.handleSload cx) ⟨it.core, st⟩ = (do
      onCore (chargeGas gasSload)
      let key ← onCore popWord
      onCore (pushWord (st.sload cx.frame.contract key))) ⟨it.core, st⟩ := by
    intro st
    simp only [reading, onCore_apply, Vm.handleSload, lookup, Act.bind_apply]
    split <;> rename_i hcharge <;> simp only [hcharge]
    split <;> rename_i hpop <;> simp only [hpop]
  simp only [hplain]
  refine bind it fun _ c₁ => bind { it with core := c₁ } fun key c₂ => ?_
  refine load { it with core := c₂ } h fun value cache st hvalue => ?_
  rw [hvalue]
  exact ⟨rfl, rfl⟩

lemma handleSstore (h : room → Roomy lastInstant clock it.store.cache) :
    Mirrored room maxLogs (handleSstoreCached lastInstant clock cx it)
      fun st => Vm.handleSstore cx ⟨it.core, st⟩ := by
  refine guard (bind it fun ⟨key, val⟩ c₁ => ?_)
  refine load { it with core := c₁ } h fun value cache st hvalue => ?_
  simp only [Act.bind_apply, uncached_onCore_apply, reading, onCore_apply, hvalue, loaded]
  rcases chargeSstore value val c₁ with ⟨u | e | why, c₂⟩ <;> exact ⟨rfl, rfl⟩

lemma handleSelfdestruct : Mirrored room maxLogs (handleSelfdestructCached cx it)
    fun st => Vm.handleSelfdestruct cx ⟨it.core, st⟩ :=
  guard (bind it fun _ _ => of_any fun _ => ⟨rfl, rfl⟩)

end Mirrored

lemma uncached_mirrors (m : VmAct Unit) : Mirrors ((uncached m : CachedAct config Unit) it) (m it.plain) :=
  ⟨rfl, rfl⟩

lemma uncached_reading_apply {α : Type} (m : State → CoreAct α) (it : CachedInterpreter config) :
    (uncached (reading m) : CachedAct config α) it =
      ((m it.store.state it.core).1, { it with core := (m it.store.state it.core).2 }) := rfl

lemma callingCached_mirrors (setup : State → CoreAct (Option Subcall)) :
    Mirrors (callingCached child setup it) (calling (child.plain it.store) setup it.plain) := by
  simp only [callingCached, calling, Act.bind_apply, uncached_reading_apply, reading, onCore_apply,
    CachedInterpreter.plain]
  rcases setup it.store.state it.core with ⟨sub | e | why, c₁⟩
  · cases sub with
    | none => exact ⟨rfl, rfl⟩
    | some sub =>
      simp only [runSubcallCached, runSubcall, Act.bind_apply, uncached_onCore_apply, onCore_apply]
      rcases chargeGas sub.frame.gasLimit c₁ with ⟨u | e | why, c₂⟩ <;> exact ⟨rfl, rfl⟩
  · exact ⟨rfl, rfl⟩
  · exact ⟨rfl, rfl⟩

lemma guardedCall_mirrors {reason : String} (setup : State → CoreAct (Option Subcall)) :
    Mirrors ((do uncached (guardStatic cx reason); callingCached child setup : CachedAct config Unit) it)
      ((do guardStatic cx reason; calling (child.plain it.store) setup : VmAct Unit) it.plain) := by
  unfold guardStatic
  split
  · exact ⟨rfl, rfl⟩
  · exact callingCached_mirrors setup

/-- **One opcode**: unless it is a load that finds no room, it does to the frame what it does without a
cache on some state, and that is the state itself if the opcode starts a nested frame. -/
lemma executeOpcodeCached_mirrors :
    ¬ Roomy lastInstant clock it.store.cache ∧
        (executeOpcodeCached keccak lastInstant clock child cx opcode it).1 = .abort .panic ∨
      ∃ st : State, st.maxLogs = it.store.state.maxLogs ∧
        (setupOf cx (decode opcode) ≠ none → st = it.store.state) ∧
        Mirrors (executeOpcodeCached keccak lastInstant clock child cx opcode it)
          (executeOpcode keccak (child.plain it.store) cx opcode ⟨it.core, st⟩) := by
  have hquiet : ∀ {op : Op} {plain : State → Res VmError Unit × Interpreter}
      {out : Res VmError Unit × CachedInterpreter config}, setupOf cx op = none →
      Mirrored (Roomy lastInstant clock it.store.cache) it.store.state.maxLogs out plain →
      ¬ Roomy lastInstant clock it.store.cache ∧ out.1 = .abort .panic ∨
        ∃ st : State, st.maxLogs = it.store.state.maxLogs ∧
          (setupOf cx op ≠ none → st = it.store.state) ∧ Mirrors out (plain st) := by
    rintro op plain out hnone (hcramped | ⟨st, hlogs, hmirrors⟩)
    · exact .inl hcramped
    · exact .inr ⟨st, hlogs, fun hsome => absurd hnone hsome, hmirrors⟩
  unfold executeOpcodeCached executeOpcode
  cases decode opcode with
  | sload => exact hquiet rfl (.handleSload id)
  | sstore => exact hquiet rfl (.handleSstore id)
  | selfdestruct => exact hquiet rfl .handleSelfdestruct
  | call => exact .inr ⟨it.store.state, rfl, fun _ => rfl, guardedCall_mirrors _⟩
  | callcode => exact .inr ⟨it.store.state, rfl, fun _ => rfl, guardedCall_mirrors _⟩
  | delegatecall => exact .inr ⟨it.store.state, rfl, fun _ => rfl, guardedCall_mirrors _⟩
  | staticcall => exact .inr ⟨it.store.state, rfl, fun _ => rfl, callingCached_mirrors _⟩
  -- no other opcode reads storage or starts a frame
  | _ => exact .inr ⟨it.store.state, rfl, fun _ => rfl, uncached_mirrors _⟩

def CachedInterpreter.moved (it : CachedInterpreter config) : CachedInterpreter config :=
  { it with core := { it.core with pc := it.core.pc + 1 } }

lemma stepOpcodeCached_apply (hpc : it.core.pc < maxCodeSize) :
    stepOpcodeCached keccak lastInstant clock child cx opcode it =
      executeOpcodeCached keccak lastInstant clock child cx opcode it.moved := by
  have hfit : it.core.pc + 1 < 2 ^ 64 := lt_trans (Nat.succ_lt_succ hpc) (by decide)
  have hnext : (Act.ofOption (Checked.fit 64 (it.core.pc + 1)) : CachedAct config ℕ) it =
      (.ok (it.core.pc + 1), it) := by
    rw [Checked.fit_of_lt hfit]
    rfl
  exact Act.bind_of_ok hnext

variable {B : Abort → Prop}

/-- What one opcode guarantees, as `stepOpcode_sat` says it without a cache. -/
lemma stepOpcodeCached_meets (hcx : cx.Sound) (hit : it.core.Sound)
    (hcode : cx.code[it.core.pc]? = some opcode)
    (hroom : B .panic → Roomy lastInstant clock it.store.cache)
    (hB : B .panic → (decode opcode).Benign it.store.state.maxLogs it.core.stack)
    (hchild : ∀ sub, Starts cx (decode opcode) it.store.state it.moved.core sub →
      ResFine B (child sub.frame sub.code it.store).1) :
    Act.Meets B (fun e (it' : CachedInterpreter config) => Allowed it.moved.core e it'.core)
      (fun _ it' => After cx (decode opcode) it.moved.core it'.core)
      (stepOpcodeCached keccak lastInstant clock child cx opcode it) := by
  have hpc := hcx.pc_lt hcode
  rw [stepOpcodeCached_apply hpc]
  obtain ⟨hcramped, hpanic⟩ | ⟨st, hlogs, hsame, hres, hcore⟩ :=
    @executeOpcodeCached_mirrors config keccak lastInstant clock cx opcode it.moved child
  · rw [Act.Meets, hpanic]
    refine ⟨fun why hwhy heq => ?_, fun e he => (by cases he), fun a ha => (by cases ha)⟩
    cases heq
    exact hcramped (hroom hwhy)
  have hplain := @stepOpcode_sat cx B ⟨it.core, st⟩ (child.plain it.store) keccak opcode hit hpc
    (fun hb => by rw [hlogs]; exact hB hb)
    (fun sub hstarts => by
      obtain ⟨setup, c₁, hsetup, hrun, hpay⟩ := hstarts
      obtain rfl := hsame (by rw [hsetup]; simp)
      exact hchild sub ⟨setup, c₁, hsetup, hrun, hpay⟩) _ rfl
  rw [stepOpcode_apply keccak _ cx opcode hpc] at hplain
  obtain ⟨habort, herror, hok⟩ := hplain
  refine ⟨fun why hwhy => ?_, fun e he => ?_, fun a ha => ?_⟩
  · rw [hres]
    exact habort why hwhy
  · rw [hres] at he
    rw [hcore]
    exact herror e he
  · rw [hres] at ha
    rw [hcore]
    exact hok a ha

/-! ### A whole run -/

variable (keccak lastInstant clock) in
/-- The opcodes that an execution comes to, in this frame and in the frames it starts. -/
inductive VisitsCached : Ctx → CachedInterpreter config → Ctx → CachedInterpreter config → UInt8 → Prop
  | here {cx : Ctx} {it : CachedInterpreter config} {opcode : UInt8} (hlive : it.core.halted = false)
      (hcode : cx.code[it.core.pc]? = some opcode) : VisitsCached cx it cx it opcode
  | next {cx cx' : Ctx} {it it₁ it' : CachedInterpreter config} {opcode opcode' : UInt8} (fuel : ℕ)
      (hlive : it.core.halted = false) (hcode : cx.code[it.core.pc]? = some opcode)
      (hstep : stepOpcodeCached keccak lastInstant clock
        (startCached (runCached keccak lastInstant clock fuel)) cx opcode it = (.ok (), it₁))
      (hrest : VisitsCached cx it₁ cx' it' opcode') : VisitsCached cx it cx' it' opcode'
  | child {cx cx₁ cx' : Ctx} {it it' : CachedInterpreter config} {core₁ : Core} {opcode opcode' : UInt8}
      {sub : Subcall} (hlive : it.core.halted = false) (hcode : cx.code[it.core.pc]? = some opcode)
      (hstarts : Starts cx (decode opcode) it.store.state it.moved.core sub)
      (hstart : start sub.frame sub.code = .ok (cx₁, core₁))
      (hrest : VisitsCached cx₁ { core := core₁, store := it.store } cx' it' opcode') :
      VisitsCached cx it cx' it' opcode'

variable (keccak lastInstant clock) in
/-- Every opcode the execution comes to is benign. -/
def AllBenignCached (cx : Ctx) (it : CachedInterpreter config) : Prop :=
  ∀ cx' it' opcode, VisitsCached keccak lastInstant clock cx it cx' it' opcode →
    (decode opcode).Benign it'.store.state.maxLogs it'.core.stack

variable {fuel : ℕ}

lemma runCached_halted_fine (hhalt : it.core.halted = true)
    (hreturn : it.core.returnData.length ≤ maxReturn) (hfuel : B .outOfFuel → 1 ≤ fuel) :
    ResFine B (runCached keccak lastInstant clock fuel cx it).1 := by
  cases fuel with
  | zero => exact .of_abort fun hB => absurd (hfuel hB) (by decide)
  | succ fuel =>
    rw [runCached, if_pos hhalt]
    exact .of_ok hreturn

lemma startCached_fine {frame : Frame} {code : List UInt8} {store : Store config}
    (h : ∀ cx core, start frame code = .ok (cx, core) →
      ResFine B (runCached keccak lastInstant clock fuel cx { core, store }).1) :
    ResFine B (startCached (runCached keccak lastInstant clock fuel) frame code store).1 := by
  unfold startCached
  rcases hstart : start frame code with e | ⟨cx, core⟩
  · exact .of_error (start_error hstart)
  · exact h cx core hstart

lemma stepOpcodeCached_roomy (h : Roomy lastInstant clock it.store.cache)
    (hstep : stepOpcodeCached keccak lastInstant clock
      (startCached (runCached keccak lastInstant clock fuel)) cx opcode it = (.ok (), it₁)) :
    Roomy lastInstant clock it₁.store.cache := by
  have hkept : Act.Preserves
      (OnStore fun (cache : Option (StorageCache config)) _ => Roomy lastInstant clock cache)
      (stepOpcodeCached keccak lastInstant clock (startCached (runCached keccak lastInstant clock fuel))
        cx opcode) :=
    stepOpcodeCached_preserves roomy_invariant (startCached_preserves fun _ _ h' =>
      runCached_preserves roomy_invariant h') cx opcode
  have hroom := hkept it h
  rwa [hstep] at hroom

lemma runCached_fine (hcx : cx.Sound) (hit : it.core.Sound)
    (hroom : B .panic → Roomy lastInstant clock it.store.cache)
    (hfuel : B .outOfFuel → fuelBound cx it.core ≤ fuel)
    (hpanic : B .panic → AllBenignCached keccak lastInstant clock cx it) :
    ResFine B (runCached keccak lastInstant clock fuel cx it).1 := by
  -- one induction for both recursions, as without a cache
  induction fuel generalizing cx it with
  | zero =>
    refine .of_abort fun hB => ?_
    have := hfuel hB
    unfold fuelBound at this
    omega
  | succ fuel ih =>
    have hrest : B .outOfFuel → 1 ≤ fuel := fun hB => by
      have := hfuel hB
      unfold fuelBound at this
      omega
    cases hlive : it.core.halted with
    | true => exact runCached_halted_fine hlive hit.return_le fun _ => Nat.succ_pos fuel
    | false =>
      rw [runCached, if_neg (by simp [hlive])]
      rcases hcode : cx.code[it.core.pc]? with _ | opcode
      · exact runCached_halted_fine rfl hit.return_le hrest
      · have hchild : ∀ sub, Starts cx (decode opcode) it.store.state it.moved.core sub → ResFine B
            (startCached (runCached keccak lastInstant clock fuel) sub.frame sub.code it.store).1 := by
          intro sub hstarts
          refine startCached_fine fun cx₁ core₁ hstart =>
            ih (start_ok hstart).1 (start_ok hstart).2.1 hroom ?_ ?_
          · intro hB
            have hlt : fuelBound cx₁ core₁ < fuelBound cx it.core :=
              fuelBound_nested hstart hstarts.nested
            have := hfuel hB
            change fuelBound cx₁ core₁ ≤ fuel
            omega
          · exact fun hB cx' it' op hvisit => hpanic hB cx' it' op
              (.child hlive hcode hstarts hstart hvisit)
        obtain ⟨habort, herror, hret⟩ :=
          @stepOpcodeCached_meets config keccak lastInstant clock cx opcode it
            (startCached (runCached keccak lastInstant clock fuel)) B hcx hit hcode hroom
          (fun hB => hpanic hB cx it opcode (.here hlive hcode)) hchild
        dsimp only
        rcases hstep : stepOpcodeCached keccak lastInstant clock
          (startCached (runCached keccak lastInstant clock fuel)) cx opcode it with ⟨u | e | why, it₁⟩
        · rw [hstep] at hret
          have hafter : After cx (decode opcode) it.plain.moved.core it₁.core := hret () rfl
          change ResFine B (runCached keccak lastInstant clock fuel cx it₁).1
          cases hlive₁ : it₁.core.halted with
          | true => exact runCached_halted_fine hlive₁ hafter.sound.return_le hrest
          | false =>
            refine ih hcx hafter.sound (fun hB => stepOpcodeCached_roomy (hroom hB) hstep) (fun hB => ?_)
              fun hB cx' it' op hvisit => ?_
            · have hlt := fuelBound_after hafter hlive₁
              have := hfuel hB
              change fuelBound cx it.core ≤ fuel + 1 at this
              change fuelBound cx it₁.core < fuelBound cx it.core at hlt
              omega
            · exact hpanic hB cx' it' op (.next fuel hlive hcode hstep hvisit)
        · rw [hstep] at herror
          cases e with
          | revert reason =>
            refine @runCached_halted_fine config keccak lastInstant clock cx { it₁ with core :=
              { it₁.core with reverted := true, returnData := reason, halted := true } } B fuel rfl ?_ hrest
            exact (herror _ rfl reason rfl).1
          | _ => exact .of_error (by simp)
        · rw [hstep] at habort
          exact .of_abort fun hB => habort why hB rfl

variable (keccak lastInstant clock) in
lemma stepOpcodeCached_after (hcx : cx.Sound) (hit : it.core.Sound)
    (hcode : cx.code[it.core.pc]? = some opcode)
    (hstep : stepOpcodeCached keccak lastInstant clock
      (startCached (runCached keccak lastInstant clock fuel)) cx opcode it = (.ok (), it₁)) :
    After cx (decode opcode) it.plain.moved.core it₁.core := by
  have hmeets := @stepOpcodeCached_meets config keccak lastInstant clock cx opcode it
    (startCached (runCached keccak lastInstant clock fuel)) (fun _ => False) hcx hit hcode
    (fun hB => hB.elim) (fun hB => hB.elim) fun _ _ =>
      startCached_fine fun _ _ hstart => runCached_fine (start_ok hstart).1 (start_ok hstart).2.1
        (fun hB => hB.elim) (fun hB => hB.elim) fun hB => hB.elim
  rw [hstep] at hmeets
  exact hmeets.2.2 () rfl

lemma VisitsCached.sound {cx' : Ctx} {it' : CachedInterpreter config}
    (h : VisitsCached keccak lastInstant clock cx it cx' it' opcode) (hcx : cx.Sound)
    (hit : it.core.Sound) :
    cx'.Sound ∧ it'.core.Sound ∧ cx'.code[it'.core.pc]? = some opcode := by
  induction h with
  | here hlive hcode => exact ⟨hcx, hit, hcode⟩
  | next fuel hlive hcode hstep hrest ih =>
    exact ih hcx (stepOpcodeCached_after keccak lastInstant clock hcx hit hcode hstep).sound
  | child hlive hcode hstarts hstart hrest ih => exact ih (start_ok hstart).1 (start_ok hstart).2.1

/-! ### Executions -/

def executionBound : ℕ := maxGasPerTx + 2 + maxCallDepth * (maxGasPerTx + 1)

lemma fuelBound_le {c : Core} (hc : c.Sound) : fuelBound cx c ≤ executionBound := by
  have hlimit := hc.limit_le
  have hdepth : (maxCallDepth - cx.frame.depth) * (maxGasPerTx + 1) ≤ maxCallDepth * (maxGasPerTx + 1) :=
    Nat.mul_le_mul_right _ (Nat.sub_le _ _)
  unfold fuelBound executionBound
  omega

/-- **An execution does not panic**, on any fuel, if every opcode it comes to is benign and there is no
cache or room for every expiry; and then it returns or fails. -/
theorem execute_never_panics (keccak : List UInt8 → Word) (lastInstant : ℕ) (clock : ℕ → ℕ)
    (store : Store config) (contract : Word) (code calldata : List UInt8) (caller : Word)
    (callValue gasLimit depth : ℕ) (isStatic : Bool) (hroom : Roomy lastInstant clock store.cache)
    (h : ∀ cx core,
      start ⟨contract, caller, callValue, calldata, gasLimit, depth, isStatic⟩ code = .ok (cx, core) →
        AllBenignCached keccak lastInstant clock cx { core, store }) (fuel : ℕ) :
    let res := (executeCached keccak lastInstant clock fuel store contract code calldata caller callValue
      gasLimit depth isStatic).1
    res ≠ .abort .panic ∧
      (executionBound ≤ fuel → (∃ result, res = .ok result) ∨ ∃ e, res = .error e) := by
  refine ⟨?_, fun hfuel => ResFine.ends (startCached_fine fun cx core hstart => ?_)⟩
  · have hfine : ResFine (· = .panic) (executeCached keccak lastInstant clock fuel store contract code
        calldata caller callValue gasLimit depth isStatic).1 :=
      startCached_fine fun cx core hstart => runCached_fine (start_ok hstart).1 (start_ok hstart).2.1
        (fun _ => hroom) (fun hB => by cases hB) fun _ => h cx core hstart
    exact hfine.abort .panic rfl
  · exact runCached_fine (start_ok hstart).1 (start_ok hstart).2.1 (fun _ => hroom)
      (fun _ => (fuelBound_le (start_ok hstart).2.1).trans hfuel) fun _ => h cx core hstart

/-- A new state, as `with_config` makes it. -/
def Store.new (config : StateConfig) : Store config := { state := {}, cache := cacheOf config }

/-- The clock of the examples: `Instant` ends after 2^63 seconds. -/
def lastNano : ℕ := 2 ^ 63 * 10 ^ 9

lemma default_roomy : Roomy lastNano (fun _ => 0) (Store.new {}).cache :=
  .inr fun _ => show 0 + ({} : StateConfig).ttl ≤ lastNano by decide

lemma VisitsCached.of_no_calls {cx' : Ctx} {it' : CachedInterpreter config}
    (h : VisitsCached keccak lastInstant clock cx it cx' it' opcode)
    (hcalls : ∀ opcode ∈ cx.code, setupOf cx (decode opcode) = none) : opcode ∈ cx.code := by
  induction h with
  | here hlive hcode => exact List.mem_of_getElem? hcode
  | next fuel hlive hcode hstep hrest ih => exact ih hcalls
  | child hlive hcode hstarts hstart hrest ih =>
    obtain ⟨setup, c₁, hsetup, -⟩ := hstarts
    rw [hcalls _ (List.mem_of_getElem? hcode)] at hsetup
    cases hsetup

lemma allBenignCached_of_plain (h : ∀ opcode ∈ cx.code, (decode opcode).plain = true)
    (it : CachedInterpreter config) : AllBenignCached keccak lastInstant clock cx it := by
  intro cx' it' opcode hvisit
  have hmem := hvisit.of_no_calls fun opcode hmem => setupOf_of_plain (h opcode hmem) cx
  exact Op.benign_of_plain (h opcode hmem) _ _

def loadProgram : List UInt8 := [0x60, 0, 0x54]

/-- A load from a new state with the default configuration. -/
theorem loadProgram_never_panics :
    (executeCached (fun _ => zero) lastNano (fun _ => 0) executionBound (Store.new {}) zero loadProgram []
      zero 0 100000 0 false).1 ≠ .abort .panic := by
  refine (execute_never_panics (fun _ => zero) lastNano (fun _ => 0) (Store.new {}) zero loadProgram [] zero 0
    100000 0 false default_roomy ?_ _).1
  rintro cx core hstart
  cases hstart
  exact allBenignCached_of_plain (show ∀ opcode ∈ loadProgram, _ by decide +kernel) _

def farLoad : List UInt8 := [0x67, 0xFF, 0xFF, 0xFF, 0xFF, 0xFF, 0xFF, 0xFF, 0xD8, 0x51]

def endlessTtl : StateConfig := { storageCacheTtlSecs := .ofNat Machine.u64Max }

/-- A load of memory next to the end of `usize`, and a load of storage whose entry expires past the last
instant, although every opcode of it is benign. -/
theorem farLoad_panics :
    (executeCached (fun _ => zero) lastNano (fun _ => 0) executionBound (Store.new {}) zero farLoad [] zero 0
      100000 0 false).1 = .abort .panic ∧
    (executeCached (fun _ => zero) lastNano (fun _ => 0) executionBound (Store.new endlessTtl) zero loadProgram
      [] zero 0 100000 0 false).1 = .abort .panic := by
  decide +kernel

/-- **The run of a frame terminates.** On every state, with a cache or without: each opcode that does not
halt the frame lowers the remaining gas, each nested frame the remaining depth, and so a fuel that depends on
those two only is enough. The run ends with a result or an error if, besides, its opcodes are benign and
there is room for every expiry. -/
theorem run_terminates (keccak : List UInt8 → Word) (lastInstant : ℕ) (clock : ℕ → ℕ) {frame : Frame}
    {code : List UInt8} {cx : Ctx} {core : Core} (store : Store config)
    (hstart : start frame code = .ok (cx, core)) :
    (∀ cx' it' opcode, VisitsCached keccak lastInstant clock cx { core, store } cx' it' opcode →
      (∀ fuel it₁, stepOpcodeCached keccak lastInstant clock
          (startCached (runCached keccak lastInstant clock fuel)) cx' opcode it' = (.ok (), it₁) →
        it₁.core.halted = true ∨ remaining cx' it₁.core < remaining cx' it'.core) ∧
      ∀ sub cx₁ core₁, Starts cx' (decode opcode) it'.store.state it'.moved.core sub →
        start sub.frame sub.code = .ok (cx₁, core₁) → remaining cx₁ core₁ < remaining cx' it'.core) ∧
    (∀ fuel, fuelBound cx core ≤ fuel →
      (runCached keccak lastInstant clock fuel cx { core, store }).1 ≠ .abort .outOfFuel) ∧
    (Roomy lastInstant clock store.cache → AllBenignCached keccak lastInstant clock cx { core, store } →
      ∀ fuel, fuelBound cx core ≤ fuel →
        (∃ result, (runCached keccak lastInstant clock fuel cx { core, store }).1 = .ok result) ∨
          ∃ e, (runCached keccak lastInstant clock fuel cx { core, store }).1 = .error e) := by
  obtain ⟨hcx, hcore, -⟩ := start_ok hstart
  have hit : (⟨core, store⟩ : CachedInterpreter config).core.Sound := hcore
  refine ⟨fun cx' it' opcode hvisit => ?_, fun fuel hfuel => ?_, fun hroom hbenign fuel hfuel => ?_⟩
  · obtain ⟨hcx', hit', hcode⟩ := hvisit.sound hcx hit
    refine ⟨fun fuel it₁ hstep => ?_, fun sub cx₁ core₁ hstarts hstart₁ => ?_⟩
    · exact remaining_after (stepOpcodeCached_after keccak lastInstant clock hcx' hit' hcode hstep)
    · exact remaining_nested hstart₁ hstarts.nested
  · have hfine : ResFine (· = .outOfFuel)
        (runCached keccak lastInstant clock fuel cx { core, store }).1 :=
      runCached_fine hcx hit (fun hB => by cases hB) (fun _ => hfuel) fun hB => by cases hB
    exact hfine.abort .outOfFuel rfl
  · exact (runCached_fine hcx hit (fun _ => hroom) (fun _ => hfuel) fun _ => hbenign).ends

def loopProgram : List UInt8 := [0x5B, 0x60, 0, 0x54, 0x50, 0x60, 0, 0x56]

/-- A loop that loads ends when its gas does. -/
theorem loopProgram_terminates :
    let cx : Ctx := ⟨outerFrame, loopProgram, buildJumpdestSet loopProgram⟩
    let core : Core := { gas := GasMeter.new outerFrame.gasLimit }
    let res := (runCached (fun _ => zero) lastNano (fun _ => 0) executionBound cx
      { core, store := Store.new {} }).1
    (∃ result, res = .ok result) ∨ ∃ e, res = .error e := by
  intro cx core res
  have hstart : start outerFrame loopProgram = .ok (cx, core) := rfl
  refine (run_terminates (fun _ => zero) lastNano (fun _ => 0) (Store.new {}) hstart).2.2
    default_roomy ?_ _ (fuelBound_le (start_ok hstart).2.1)
  exact allBenignCached_of_plain (show ∀ opcode ∈ loopProgram, _ by decide +kernel) _

theorem farLoad_neither_halts_nor_fails :
    let res := (startCached (runCached (fun _ => zero) lastNano (fun _ => 0) executionBound) outerFrame farLoad
      (Store.new {})).1
    (∀ result, res ≠ .ok result) ∧ ∀ e, res ≠ .error e := by
  intro res
  have hres : res = .abort .panic := by decide +kernel
  rw [hres]
  exact ⟨fun result h => (by cases h), fun e h => (by cases h)⟩

end Iona.Vm
