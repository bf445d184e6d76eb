import Iona.Consensus.Quorum
import Iona.Lib.Lru
import Iona.Lib.Trace

/-!
# The proposer cache

From `consensus/validator_set.rs`.
-/

namespace Iona

structure ValidatorSetConfig where
  enableCache : Bool := true
  cacheSize : ℕ := 128
  cacheTtlSecs : UInt64 := 60
  validateOnCreate : Bool := true

def ValidatorSetConfig.ttl (config : ValidatorSetConfig) : ℕ := config.cacheTtlSecs.toNat * 10 ^ 9

structure ProposerCacheEntry where
  validator : Validator
  expiresAt : ℕ
  version : ℕ

structure ProposerCall where
  height : Height
  round : Round
  now : ℕ
  since : ℕ
  deriving DecidableEq

abbrev ProposerCall.key (call : ProposerCall) : Height × Round := (call.height, call.round)

inductive CallPhase where
  | idle
  | lookup (call : ProposerCall)
  | compute (call : ProposerCall)
  | store (call : ProposerCall) (val : Validator) (version : ℕ)
  | swap (newVset : ValidatorSet)
  | clear (version : ℕ)
  | finish (version : ℕ)

def CallPhase.storing : CallPhase → Option ℕ
  | store _ _ version => some version
  | _ => none

structure ProposerAnswer where
  call : ProposerCall
  upto : ℕ
  proposer : Option Validator
  deriving DecidableEq

structure Manager (cap : ℕ) where
  vset : ValidatorSet
  cache : Option (Lru.Cache (Height × Round) ProposerCacheEntry cap)
  phase : ℕ → CallPhase := fun _ => .idle
  older : List ValidatorSet := []
  cleared : ℕ := 0
  returned : ℕ := 0
  answers : List ProposerAnswer := []

namespace Manager

variable {cap : ℕ} (m : Manager cap) (t : ℕ)

def version : ℕ := m.older.length

def history : List ValidatorSet := m.older ++ [m.vset]

def goto (phase : CallPhase) : Manager cap := { m with phase := Function.update m.phase t phase }

def answer (call : ProposerCall) (proposer : Option Validator) : Manager cap :=
  { m.goto t .idle with answers := ⟨call, m.version, proposer⟩ :: m.answers }

/-! ### The sections -/

def lookup (call : ProposerCall) : Manager cap :=
  match m.cache with
  | none => m.goto t (.compute call)
  | some cache => match cache.get call.key with
    | (some entry, cache) =>
      if entry.expiresAt > call.now then
        { m with cache := some cache }.answer t call (some entry.validator)
      else { m with cache := some (cache.pop call.key) }.goto t (.compute call)
    | (none, cache) => { m with cache := some cache }.goto t (.compute call)

def compute (config : ValidatorSetConfig) (call : ProposerCall) : Manager cap :=
  match m.vset.proposerFor call.height call.round with
  | none => m.answer t call none
  | some val =>
    if config.enableCache then m.goto t (.store call val m.version) else m.answer t call (some val)

def store (config : ValidatorSetConfig) (lastInstant : ℕ) (call : ProposerCall) (val : Validator)
    (version : ℕ) : Manager cap :=
  match m.cache with
  | none => m.answer t call (some val)
  | some cache =>
    if call.now + config.ttl ≤ lastInstant then
      { m with
        cache := some (cache.put call.key ⟨val, call.now + config.ttl, version⟩) }.answer t call
          (some val)
    else m.goto t .idle

def swap (newVset : ValidatorSet) : Manager cap :=
  { m with older := m.older ++ [m.vset], vset := newVset }.goto t (.clear (m.version + 1))

def clear (version : ℕ) : Manager cap :=
  { m with
    cache := m.cache.map fun _ => Lru.Cache.empty _ _ cap
    cleared := max m.cleared version }.goto t (.finish version)

def finish (version : ℕ) : Manager cap :=
  { m with returned := max m.returned version }.goto t .idle

end Manager

inductive ManagerAction where
  | callProposer (height : Height) (round : Round) (now : ℕ)
  | callUpdate (newVset : ValidatorSet)
  | next

def Manager.new (config : ValidatorSetConfig) (vset : ValidatorSet) : Manager config.cacheSize where
  vset := vset
  cache := if config.enableCache then some (Lru.Cache.empty _ _ _) else none

section Machine

variable (config : ValidatorSetConfig) (lastInstant : ℕ)

def Manager.step (m : Manager config.cacheSize) (act : ℕ × ManagerAction) :
    Option (Manager config.cacheSize) :=
  match m.phase act.1, act.2 with
  | .idle, .callProposer height round now =>
    let call := ⟨height, round, now, m.returned⟩
    some (m.goto act.1 (if config.enableCache then .lookup call else .compute call))
  | .idle, .callUpdate newVset =>
    if config.validateOnCreate then
      match ValidatorSet.new newVset.vals Machine.u64Max with
      | .error _ => some m
      | .ok _ => some (m.goto act.1 (.swap newVset))
    else some (m.goto act.1 (.swap newVset))
  | .lookup call, .next => some (m.lookup act.1 call)
  | .compute call, .next => some (m.compute act.1 config call)
  | .store call val version, .next => some (m.store act.1 config lastInstant call val version)
  | .swap newVset, .next => some (m.swap act.1 newVset)
  | .clear version, .next => some (m.clear act.1 version)
  | .finish version, .next => some (m.finish act.1 version)
  | _, _ => none

end Machine

/-! ### Freshness -/

namespace Manager

variable {cap : ℕ}

def Proposes (m : Manager cap) (version : ℕ) (call : Height × Round) (proposer : Option Validator) :
    Prop :=
  ∃ vset, m.history[version]? = some vset ∧ vset.proposerFor call.1 call.2 = proposer

def Fresh (m : Manager cap) (a : ProposerAnswer) : Prop :=
  ∃ version, a.call.since ≤ version ∧ version ≤ a.upto ∧ m.Proposes version a.call.key a.proposer

def PhaseOk (m : Manager cap) : CallPhase → Prop
  | .idle => True
  | .lookup call => call.since ≤ m.cleared
  | .compute call => call.since ≤ m.cleared
  | .store call val version => call.since ≤ version ∧ m.Proposes version call.key (some val)
  | .swap _ => True
  | .clear version => version ≤ m.version
  | .finish version => version ≤ m.cleared

structure Inv (m : Manager cap) : Prop where
  returned_le : m.returned ≤ m.cleared
  cleared_le : m.cleared ≤ m.version
  entries : ∀ cache, m.cache = some cache → ∀ e ∈ cache.entries,
    m.cleared ≤ e.2.version ∧ m.Proposes e.2.version e.1 (some e.2.validator)
  phases : ∀ t, m.PhaseOk (m.phase t)
  answers : ∀ a ∈ m.answers, m.Fresh a

variable {m m' : Manager cap} {t : ℕ}

variable {key : Height × Round} {p : Option Validator}

lemma Proposes.le_version {version : ℕ} (h : m.Proposes version key p) : version ≤ m.version := by
  obtain ⟨vset, hvset, _⟩ := h
  obtain ⟨hlt, _⟩ := List.getElem?_eq_some_iff.mp hvset
  rw [history, List.length_append, List.length_singleton] at hlt
  exact Nat.lt_succ_iff.mp hlt

lemma proposes_version (m : Manager cap) (key : Height × Round) :
    m.Proposes m.version key (m.vset.proposerFor key.1 key.2) := by
  refine ⟨m.vset, ?_, rfl⟩
  rw [history, version, List.getElem?_append_right le_rfl, Nat.sub_self]
  rfl

lemma Proposes.mono (hhistory : m.history <+: m'.history) {version : ℕ}
    (h : m.Proposes version key p) : m'.Proposes version key p := by
  obtain ⟨vset, hvset, hp⟩ := h
  obtain ⟨rest, hrest⟩ := hhistory
  obtain ⟨hlt, _⟩ := List.getElem?_eq_some_iff.mp hvset
  refine ⟨vset, ?_, hp⟩
  rw [← hrest, List.getElem?_append_left hlt, hvset]

lemma Fresh.mono (hhistory : m.history <+: m'.history) {a : ProposerAnswer} (h : m.Fresh a) :
    m'.Fresh a := by
  obtain ⟨version, hsince, hupto, hp⟩ := h
  exact ⟨version, hsince, hupto, hp.mono hhistory⟩

lemma PhaseOk.mono (hhistory : m.history <+: m'.history) (hcleared : m.cleared ≤ m'.cleared)
    {phase : CallPhase} (h : m.PhaseOk phase) : m'.PhaseOk phase := by
  have hversion : m.version ≤ m'.version := by
    have hlen := hhistory.length_le
    simp only [history, List.length_append, List.length_singleton] at hlen
    exact Nat.le_of_succ_le_succ hlen
  cases phase with
  | idle => trivial
  | lookup call => exact le_trans h hcleared
  | compute call => exact le_trans h hcleared
  | store call val version => exact ⟨h.1, h.2.mono hhistory⟩
  | swap newVset => trivial
  | clear version => exact le_trans h hversion
  | finish version => exact le_trans h hcleared

/-! ### Each section keeps the invariant -/

namespace Inv

variable {call : ProposerCall} {version : ℕ}

lemma goto (h : m.Inv) {phase : CallPhase} (hphase : m.PhaseOk phase) : (m.goto t phase).Inv where
  returned_le := h.returned_le
  cleared_le := h.cleared_le
  entries := h.entries
  phases := by
    intro t'
    change m.PhaseOk (Function.update m.phase t phase t')
    by_cases ht : t' = t
    · rw [ht, Function.update_self]
      exact hphase
    · rw [Function.update_of_ne ht]
      exact h.phases t'
  answers := h.answers

lemma answer (h : m.Inv) (hsince : call.since ≤ version) (hp : m.Proposes version call.key p) :
    (m.answer t call p).Inv := by
  have hidle : (m.goto t .idle).Inv := h.goto trivial
  exact
    { returned_le := hidle.returned_le
      cleared_le := hidle.cleared_le
      entries := hidle.entries
      phases := hidle.phases
      answers := by
        intro a ha
        rcases List.mem_cons.mp ha with rfl | ha
        · exact ⟨version, hsince, hp.le_version, hp⟩
        · exact h.answers a ha }

lemma withCache (h : m.Inv) {cache : Lru.Cache (Height × Round) ProposerCacheEntry cap}
    (hcache : ∀ e ∈ cache.entries,
      m.cleared ≤ e.2.version ∧ m.Proposes e.2.version e.1 (some e.2.validator)) :
    Inv { m with cache := some cache } where
  returned_le := h.returned_le
  cleared_le := h.cleared_le
  entries := by
    rintro _ ⟨⟩
    exact hcache
  phases := h.phases
  answers := h.answers

lemma lookup (h : m.Inv) (hcall : call.since ≤ m.cleared) : (m.lookup t call).Inv := by
  unfold Manager.lookup
  split
  · exact h.goto hcall
  rename_i cache hsome
  have hget : ∀ e ∈ (cache.get call.key).2.entries,
      m.cleared ≤ e.2.version ∧ m.Proposes e.2.version e.1 (some e.2.validator) :=
    fun e he => h.entries cache hsome e (Lru.Cache.mem_of_mem_get he)
  split
  · rename_i entry cache' heq
    rw [heq] at hget
    split
    · -- a hit: the entry is no older than the last clearing, and the call started before that
      have hfound : Lru.Cache.find? call.key cache.entries = some entry := by
        rw [← Lru.Cache.get_fst, heq]
      obtain ⟨hcleared, hproposes⟩ := h.entries cache hsome _ (Lru.Cache.mem_of_find? hfound)
      exact (h.withCache hget).answer (hcall.trans hcleared) hproposes
    · exact (h.withCache fun e he => hget e (Lru.Cache.mem_of_mem_pop he)).goto hcall
  · rename_i cache' heq
    rw [heq] at hget
    exact (h.withCache hget).goto hcall

lemma compute (h : m.Inv) (config : ValidatorSetConfig) (hcall : call.since ≤ m.cleared) :
    (m.compute t config call).Inv := by
  have hsince : call.since ≤ m.version := hcall.trans h.cleared_le
  have hproposes := m.proposes_version call.key
  unfold Manager.compute
  split
  · rename_i hnone
    rw [hnone] at hproposes
    exact h.answer hsince hproposes
  · rename_i val hval
    rw [hval] at hproposes
    split
    · exact h.goto ⟨hsince, hproposes⟩
    · exact h.answer hsince hproposes

lemma store (h : m.Inv) (config : ValidatorSetConfig) (lastInstant : ℕ) {val : Validator}
    (hsince : call.since ≤ version) (hproposes : m.Proposes version call.key (some val))
    (htimely : m.cleared ≤ version) : (m.store t config lastInstant call val version).Inv := by
  unfold Manager.store
  split
  · exact h.answer hsince hproposes
  rename_i cache hsome
  split
  · have hput : ∀ e ∈ (cache.put call.key ⟨val, call.now + config.ttl, version⟩).entries,
        m.cleared ≤ e.2.version ∧ m.Proposes e.2.version e.1 (some e.2.validator) := by
      intro e he
      rcases Lru.Cache.mem_of_mem_put he with rfl | he
      · exact ⟨htimely, hproposes⟩
      · exact h.entries cache hsome e he
    exact (h.withCache hput).answer hsince hproposes
  · exact h.goto trivial

lemma install (h : m.Inv) (newVset : ValidatorSet) :
    Inv { m with older := m.older ++ [m.vset], vset := newVset } := by
  have hhistory : m.history <+:
      Manager.history { m with older := m.older ++ [m.vset], vset := newVset } :=
    List.prefix_append _ _
  have hversion : Manager.version { m with older := m.older ++ [m.vset], vset := newVset } =
      m.version + 1 := by
    simp [Manager.version]
  exact
    { returned_le := h.returned_le
      cleared_le := by
        rw [hversion]
        exact h.cleared_le.trans (Nat.le_succ _)
      entries := fun cache hcache e he =>
        ⟨(h.entries cache hcache e he).1, (h.entries cache hcache e he).2.mono hhistory⟩
      phases := fun t => (h.phases t).mono hhistory le_rfl
      answers := fun a ha => (h.answers a ha).mono hhistory }

lemma swap (h : m.Inv) (newVset : ValidatorSet) : (m.swap t newVset).Inv := by
  refine (h.install newVset).goto ?_
  simp [PhaseOk, Manager.version]

lemma clear (h : m.Inv) (hversion : version ≤ m.version) : (m.clear t version).Inv := by
  have hempty : Inv { m with
      cache := m.cache.map fun _ => Lru.Cache.empty _ _ cap
      cleared := max m.cleared version } :=
    { returned_le := h.returned_le.trans (le_max_left _ _)
      cleared_le := max_le h.cleared_le hversion
      entries := by
        intro cache hcache e he
        obtain ⟨_, _, rfl⟩ := Option.map_eq_some_iff.mp hcache
        cases he
      phases := by
        intro t
        refine (h.phases t).mono ?_ ?_
        · exact List.prefix_rfl
        · exact le_max_left _ _
      answers := h.answers }
  exact hempty.goto (le_max_right _ _)

lemma finish (h : m.Inv) (hversion : version ≤ m.cleared) : (m.finish t version).Inv := by
  have hret : Inv { m with returned := max m.returned version } :=
    { returned_le := max_le h.returned_le hversion
      cleared_le := h.cleared_le
      entries := h.entries
      phases := h.phases
      answers := h.answers }
  exact hret.goto trivial

end Inv

def Timely (m : Manager cap) (act : ℕ × ManagerAction) : Prop :=
  ∀ version ∈ (m.phase act.1).storing, m.cleared ≤ version

instance (m : Manager cap) (act : ℕ × ManagerAction) : Decidable (m.Timely act) :=
  inferInstanceAs (Decidable (∀ version ∈ (m.phase act.1).storing, m.cleared ≤ version))

end Manager

section Runs

variable {config : ValidatorSetConfig} {lastInstant : ℕ}

lemma Manager.inv_new (config : ValidatorSetConfig) (vset : ValidatorSet) :
    (Manager.new config vset).Inv where
  returned_le := le_rfl
  cleared_le := le_rfl
  entries := by
    intro cache hcache e he
    unfold Manager.new at hcache
    dsimp only at hcache
    split at hcache
    · cases hcache
      cases he
    · cases hcache
  phases := fun _ => trivial
  answers := fun a ha => nomatch ha

lemma Manager.Inv.step {m m' : Manager config.cacheSize} {act : ℕ × ManagerAction} (h : m.Inv)
    (htimely : m.Timely act) (hstep : m.step config lastInstant act = some m') : m'.Inv := by
  have hphase := h.phases act.1
  unfold Manager.step at hstep
  split at hstep
  · cases hstep
    refine h.goto ?_
    split
    · exact h.returned_le
    · exact h.returned_le
  · split at hstep
    · split at hstep
      · cases hstep
        exact h
      · cases hstep
        exact h.goto trivial
    · cases hstep
      exact h.goto trivial
  · rename_i call heq _
    cases hstep
    rw [heq] at hphase
    exact h.lookup hphase
  · rename_i call heq _
    cases hstep
    rw [heq] at hphase
    exact h.compute config hphase
  · rename_i call val version heq _
    cases hstep
    rw [heq] at hphase
    exact h.store config lastInstant hphase.1 hphase.2 (htimely version (by rw [heq]; rfl))
  · cases hstep
    exact h.swap _
  · rename_i version heq _
    cases hstep
    rw [heq] at hphase
    exact h.clear hphase
  · rename_i version heq _
    cases hstep
    rw [heq] at hphase
    exact h.finish hphase
  · cases hstep

/-- **Every answer is fresh**, in a run in which the cache is never filled too late. -/
theorem answers_fresh (config : ValidatorSetConfig) (lastInstant : ℕ) (vset : ValidatorSet)
    (acts : List (ℕ × ManagerAction)) (m : Manager config.cacheSize)
    (hacts : Trace.Along (Manager.step config lastInstant) Manager.Timely (.new config vset) acts)
    (hrun : Trace.run (Manager.step config lastInstant) (.new config vset) acts = some m) :
    ∀ a ∈ m.answers, m.Fresh a := by
  have hinv : m.Inv := Trace.run_history (P := fun _ m => m.Inv) (Manager.inv_new config vset)
    (fun _ _ _ _ h htimely hstep => h.step htimely hstep) hacts hrun
  exact hinv.answers

end Runs

def stockConfig : ValidatorSetConfig := {}

def firstSet : ValidatorSet := ⟨[⟨[1], 5⟩]⟩

def secondSet : ValidatorSet := ⟨[⟨[2], 5⟩]⟩

def updating : List (ℕ × ManagerAction) :=
  [(2, .callUpdate secondSet), (2, .next), (2, .next), (2, .next)]

def proceed (sections : ℕ) : List (ℕ × ManagerAction) := List.replicate sections (1, .next)

def asking (now sections : ℕ) : List (ℕ × ManagerAction) :=
  (1, .callProposer 7 0 now) :: proceed sections

def inTime : List (ℕ × ManagerAction) := asking 0 3 ++ updating ++ asking 1 3

theorem answers_fresh_inTime :
    ∃ m, Trace.run (Manager.step stockConfig (10 ^ 18)) (.new stockConfig firstSet) inTime =
        some m ∧
      m.answers.map ProposerAnswer.proposer = [some ⟨[2], 5⟩, some ⟨[1], 5⟩] ∧
      ∀ a ∈ m.answers, m.Fresh a := by
  have hrun : (Trace.run (Manager.step stockConfig (10 ^ 18)) (.new stockConfig firstSet)
      inTime).map (fun m => m.answers.map ProposerAnswer.proposer) =
        some [some ⟨[2], 5⟩, some ⟨[1], 5⟩] ∧
      Trace.alongTest (Manager.step stockConfig (10 ^ 18)) (fun m act => decide (m.Timely act))
        (.new stockConfig firstSet) inTime = true := by decide +kernel
  obtain ⟨m, hm, hanswers⟩ := Option.map_eq_some_iff.mp hrun.1
  refine ⟨m, hm, hanswers, answers_fresh stockConfig (10 ^ 18) firstSet inTime m ?_ hm⟩
  exact Trace.along_of_alongTest (fun _ _ hact => of_decide_eq_true hact) hrun.2

def overtaken : List (ℕ × ManagerAction) := asking 0 2 ++ updating ++ proceed 1 ++ asking 1 1

def staleAnswer : ProposerAnswer := ⟨⟨7, 0, 1, 1⟩, 1, some ⟨[1], 5⟩⟩

/-- It is answered for the set before the update. -/
theorem stale_proposer :
    ∃ m, Trace.run (Manager.step stockConfig (10 ^ 18)) (.new stockConfig firstSet) overtaken =
        some m ∧
      m.history[1]? = some secondSet ∧ staleAnswer ∈ m.answers ∧ ¬ m.Fresh staleAnswer := by
  have hrun : (Trace.run (Manager.step stockConfig (10 ^ 18)) (.new stockConfig firstSet)
      overtaken).map (fun m => (m.history[1]?, decide (staleAnswer ∈ m.answers))) =
      some (some secondSet, true) := by decide +kernel
  obtain ⟨m, hm, hres⟩ := Option.map_eq_some_iff.mp hrun
  obtain ⟨hsecond, hmem⟩ := Prod.mk.inj hres
  refine ⟨m, hm, hsecond, of_decide_eq_true hmem, ?_⟩
  rintro ⟨version, hge, hle, vset, hvset, hp⟩
  obtain rfl : version = 1 := le_antisymm hle hge
  cases hsecond.symm.trans hvset
  exact absurd hp (by decide +kernel)

end Iona
