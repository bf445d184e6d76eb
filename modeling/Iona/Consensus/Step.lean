import Iona.Consensus.Engine

/-!
# What an engine can do

`Micro` lists every change one move of the engine can make, with what held before it; the programs
of the engine are shown to move by these alone, and every invariant of runs is checked against them.
-/

namespace Iona

namespace Engine

/-- The checks that a counted vote has passed. -/
structure Accepts (C : Crypto) (engine : Engine) (v : Vote) : Prop where
  member : engine.vset.contains v.voter = true
  height : v.height = engine.state.height
  round : v.round = engine.state.round
  signed : C.verify v.voter v.signBytes v.signature = true

lemma accepts_of_verifyVote {C : Crypto} {engine : Engine} {v : Vote}
    (h : engine.verifyVote C v = .ok ()) : engine.Accepts C v := by
  unfold verifyVote at h
  split at h
  · cases h
  · rename_i hmember
    split at h
    · cases h
    · rename_i hstep
      split at h
      · cases h
      · rename_i hsig
        simp only [ne_eq, Bool.or_eq_true, decide_eq_true_eq, not_or, Decidable.not_not] at hstep
        exact ⟨by simpa using hmember, hstep.1, hstep.2, by simpa using hsig⟩

/-- The votes for `id` make a quorum. -/
def Quorum (E : Env) (engine : Engine) (vt : VoteType) (id : Option Hash32) : Prop :=
  ∃ pow threshold, engine.tally E engine.state.round vt = some (id, pow) ∧
    quorumThreshold engine.vset.totalPower = some threshold ∧ threshold.toNat ≤ pow

/-- The guard, if there is one, has the vote. -/
def CoversVote (engine : Engine) (vt : VoteType) (id : Option Hash32) : Prop :=
  ∀ g, engine.dsGuard = some g → g.HasVote vt engine.state.height engine.state.round id

/-- The guard, if there is one, has the proposal. -/
def CoversProposal (engine : Engine) (id : Hash32) : Prop :=
  ∀ g, engine.dsGuard = some g → g.HasProposal engine.state.height engine.state.round id

/-- The block extends the chain of the engine. -/
structure OnChain (engine : Engine) (block : Block) : Prop where
  height : block.header.height = engine.state.height
  prev : block.header.prev = engine.prevBlockId
  baseFee : block.header.baseFeePerGas = engine.baseFeePerGas

/-- The vote conflicts with the one on file. -/
def Detects (engine : Engine) (v : Vote) (evidence : Evidence) : Prop :=
  ∃ prevBid prevVote, engine.state.voteIndex[indexKey v]? = some (prevBid, prevVote) ∧
    prevBid ≠ v.blockId ∧
    evidence = .doubleVote v.voter v.height v.round v.voteType prevBid v.blockId prevVote v

end Engine

def ConsensusState.MayVote (loose : Prop) (state : ConsensusState) :
    VoteType → Option Hash32 → Prop
  | .precommit, id => id ≠ none ∧ state.lockedValue = id ∧ state.lockedRound = some state.round
  | .prevote, none => True
  | .prevote, some id => loose ∨ state.lockedValue = none ∨ state.lockedValue = some id

/-- The event carries the block. -/
def Event.Brings (ev : Event) (b : Block) : Prop :=
  ev = .block b ∨ ∃ p, ev = .message (.proposal p) ∧ p.block = some b

/-- The effect carries no signature. -/
def Effect.Unsigned : Effect → Prop
  | .persist _ => False
  | .broadcast (.proposal _) => False
  | .broadcast (.vote _) => False
  | _ => True

/-- **The steps of an engine** that handles the event `ev`. -/
inductive Micro (E : Env) (S : Signer) (ev : Event) (loose : Prop) : Node → Node → Prop
  | turn (n : Node) (step : Step) (elapsed : UInt64) (proposal : Option Proposal)
      (proposalBlock : Option Block) (cache : Merkle.RootCache) :
    Micro E S ev loose n { n with
      state.step := step, state.proposal := proposal, state.proposalBlock := proposalBlock
      stepElapsedMs := elapsed, cache := cache }
  | put (n : Node) (b : Block)
      (hsource : ev.Brings b ∨ (n.state.decided = none ∧ n.OnChain b)) :
    Micro E S ev loose n { n with store := n.store.insert (b.id E.crypto) b }
  | advance (n : Node) (hopen : n.state.decided = none)
      (hround : n.state.round.toNat + 1 ≠ UInt32.size) :
    Micro E S ev loose n { n with
      state.round := n.state.round + 1, state.proposal := none, state.proposalBlock := none
      state.step := .propose, stepElapsedMs := 0 }
  | save (n : Node) (g st : GuardState) (hguard : n.dsGuard = some g) (hext : g.Extends st) :
    Micro E S ev loose n { n with dsGuard := some st, trace := .persist st :: n.trace }
  | vote (n : Node) (vt : VoteType) (id : Option Hash32) (hopen : n.state.decided = none)
      (hguard : n.CoversVote vt id) (hrule : n.state.MayVote loose vt id) :
    Micro E S ev loose n { n with trace := .broadcast (.vote
      { voteType := vt, height := n.state.height, round := n.state.round, voter := S.publicKey
        blockId := id
        signature := S.sign (voteSignBytes vt n.state.height n.state.round id) }) :: n.trace }
  | propose (n : Node) (id : Hash32) (block : Option Block) (hguard : n.CoversProposal id) :
    Micro E S ev loose n { n with trace := .broadcast (.proposal
      { height := n.state.height, round := n.state.round, proposer := S.publicKey, blockId := id
        block := block, polRound := n.state.validRound
        signature := S.sign
          (proposalSignBytes n.state.height n.state.round id n.state.validRound) }) :: n.trace }
  | tell (n : Node) (effect : Effect) (hunsigned : effect.Unsigned) :
    Micro E S ev loose n { n with trace := effect :: n.trace }
  | slash (n : Node) (evidence : Evidence) (res : Except SlashingError Unit) (stakes : StakeLedger)
      (hsource : ev = .message (.evidence evidence) ∨
        ∃ v, ev = .message (.vote v) ∧ n.Accepts E.crypto v ∧ n.Detects v evidence)
      (happly : n.stakes.applyEvidence evidence n.state.height = some (res, stakes)) :
    Micro E S ev loose n { n with stakes := stakes }
  | index (n : Node) (v : Vote) (hev : ev = .message (.vote v)) (haccept : n.Accepts E.crypto v) :
    Micro E S ev loose n { n with
      state.voteIndex := n.state.voteIndex.insert (Engine.indexKey v) (v.blockId, v) }
  | collect (n : Node) (v : Vote) (hev : ev = .message (.vote v)) (hopen : n.state.decided = none)
      (haccept : n.Accepts E.crypto v) :
    Micro E S ev loose n { n with state.votes := Engine.storeVote n.state.votes v }
  | lock (n : Node) (id : Hash32) (hev : ∃ v, ev = .message (.vote v))
      (hopen : n.state.decided = none)
      (hquorum : n.Quorum E .prevote (some id)) :
    Micro E S ev loose n { n with
      state.validRound := some n.state.round, state.validValue := some id
      state.lockedRound := some n.state.round, state.lockedValue := some id
      state.step := .precommit, stepElapsedMs := 0 }
  | decide (n : Node) (id : Hash32) (block : Block) (proposer : Validator) (newState : KvState)
      (receipts : List Receipt) (cache cache' : Merkle.RootCache)
      (hev : ∃ v, ev = .message (.vote v)) (hopen : n.state.decided = none)
      (hquorum : n.Quorum E .precommit (some id))
      (hblock : n.store[id]? = some block)
      (hproposer : n.vset.proposerFor n.state.height n.state.round = some proposer)
      (hverify : verifyBlockWithVset E.crypto E.handlers n.appState block
        (Engine.proposerAddrString E.crypto block.header.proposerPk) proposer.pk E.maxGas
        E.execution cache = some (some (newState, receipts), cache')) :
    Micro E S ev loose n { n with
      state.decided := some (n.certificate id n.state.round), state.step := .commit
      stepElapsedMs := 0, appState := newState, prevBlockId := id }
  | settle (n : Node) (fee : UInt64) (hev : ∃ v, ev = .message (.vote v))
      (hdecided : n.state.decided ≠ none) :
    Micro E S ev loose n { n with baseFeePerGas := fee }
  | newHeight (n : Node) (hev : ev = .nextHeight) (hdecided : n.state.decided ≠ none)
      (hheight : n.state.height.toNat + 1 ≠ UInt64.size) :
    Micro E S ev loose n { n with
      state := { height := n.state.height + 1 }, stepElapsedMs := 0 }

lemma Micro.vset_eq {E : Env} {S : Signer} {ev : Event} {loose : Prop} {n m : Node}
    (h : Micro E S ev loose n m) : m.vset = n.vset ∧ m.cfg = n.cfg := by
  cases h <;> exact ⟨rfl, rfl⟩

namespace Engine

open Prog

variable {E : Env} {S : Signer} {io : Io} {ev : Event} {loose : Prop}

/-! ### The guard -/

section Guard

variable {n : Node} {P : Node → Prop}

lemma answered_runs {answer : Bool} (hP : answer = true → P n) :
    Runs (Micro E S ev loose) (· = n) (Pure.pure answer) fun ok m =>
      m.toEngine = { n.toEngine with dsGuard := m.dsGuard } ∧ (ok = true → P m) := by
  refine .pure ?_
  intro m hm
  rw [hm]
  exact ⟨rfl, hP⟩

lemma recorded_runs {g st : GuardState} (hg : n.dsGuard = some g) (hext : g.Extends st)
    (hP : P { n with dsGuard := some st, trace := .persist st :: n.trace }) :
    Runs (Micro E S ev loose) (· = n) (persist st >>= fun _ => Pure.pure true) fun ok m =>
      m.toEngine = { n.toEngine with dsGuard := m.dsGuard } ∧ (ok = true → P m) := by
  refine .modify_bind (.save _ g st hg hext) (.pure ?_)
  intro m hm
  rw [hm]
  exact ⟨rfl, fun _ => hP⟩

end Guard

lemma guardProposal_runs (n : Node) (id : Hash32) :
    Runs (Micro E S ev loose) (· = n) (guardProposal E io id) fun ok m =>
      m.toEngine = { n.toEngine with dsGuard := m.dsGuard } ∧
        (ok = true → m.CoversProposal id) := by
  unfold guardProposal
  refine .get_known ?_
  split
  · rename_i hnone
    refine answered_runs fun _ g hg => ?_
    rw [hnone] at hg
    cases hg
  · rename_i g hg
    split
    · exact answered_runs fun h => absurd h Bool.false_ne_true
    · rename_i hcheck
      split
      · exact answered_runs fun h => absurd h Bool.false_ne_true
      · rename_i st hrecord
        obtain ⟨hext, hhas⟩ := GuardState.recordProposal_spec hcheck hrecord
        refine recorded_runs hg hext fun g' hg' => ?_
        cases hg'
        exact hhas

lemma guardVote_runs (n : Node) (vt : VoteType) (id : Option Hash32) :
    Runs (Micro E S ev loose) (· = n) (guardVote E io vt id) fun ok m =>
      m.toEngine = { n.toEngine with dsGuard := m.dsGuard } ∧ (ok = true → m.CoversVote vt id) := by
  unfold guardVote
  refine .get_known ?_
  split
  · rename_i hnone
    refine answered_runs fun _ g hg => ?_
    rw [hnone] at hg
    cases hg
  · rename_i g hg
    split
    · exact answered_runs fun h => absurd h Bool.false_ne_true
    · rename_i hcheck
      split
      · exact answered_runs fun h => absurd h Bool.false_ne_true
      · rename_i st hrecord
        obtain ⟨hext, hhas⟩ := GuardState.recordVote_spec hcheck hrecord
        refine recorded_runs hg hext fun g' hg' => ?_
        cases hg'
        exact hhas

/-! ### Voting and proposing -/

lemma broadcastVote_runs (vt : VoteType) (id : Option Hash32) :
    Runs (Micro E S ev loose) (fun n => n.state.MayVote loose vt id) (broadcastVote E S io vt id)
      fun _ _ => True := by
  unfold broadcastVote
  refine .get_bind fun n hrule => ?_
  split
  · exact .pure fun _ _ => trivial
  · rename_i hdecided
    refine .bind (guardVote_runs n vt id) fun ok => ?_
    split
    · rename_i hok
      unfold sendVote
      refine .get_bind ?_
      rintro m ⟨hsame, hcovers⟩
      have hstate : m.state = n.state := by rw [hsame]
      refine .modify ?_ fun _ _ => trivial
      rintro _ rfl
      refine .vote _ vt id ?_ (hcovers hok) (hstate ▸ hrule)
      rw [hstate]
      simpa using hdecided
    · exact .pure fun _ _ => trivial

/-- The key is that of the proposer of the round. -/
def IsProposer (engine : Engine) (pk : PublicKeyBytes) : Prop :=
  ∃ w, engine.vset.proposerFor engine.state.height engine.state.round = some w ∧ w.pk = pk

/-- What no event changes. -/
structure Kept (n m : Node) : Prop where
  cfg : m.cfg = n.cfg
  decided : m.state.decided = n.state.decided
  locked : m.state.lockedValue = n.state.lockedValue

lemma sendProposal_runs (n : Node) (block : Block) (hopen : n.state.decided = none)
    (hchain : n.OnChain block) (hcovers : n.CoversProposal (block.id E.crypto)) :
    Runs (Micro E S ev loose) (· = n) (sendProposal E S block) fun _ m => Kept n m := by
  unfold sendProposal
  refine .get_known ?_
  refine .modify_bind (.put _ block (.inr ⟨hopen, hchain⟩)) ?_
  refine .modify_bind (.turn _ n.state.step n.stepElapsedMs _ (some block) n.cache) ?_
  refine .modify ?_ ?_
  · rintro _ rfl
    exact .propose _ (block.id E.crypto) _ hcovers
  · rintro _ rfl
    exact ⟨rfl, rfl, rfl⟩

lemma maybePropose_runs (n : Node) (drain : ℕ → List Tx) (hopen : n.state.decided = none) :
    Runs (Micro E S ev loose) (· = n) (maybePropose E S io drain) fun _ m =>
      Kept n m ∧ (m.state.proposal ≠ n.state.proposal →
        n.state.proposal = none ∧ n.IsProposer S.publicKey) := by
  have hstay : ∀ m, m = n → Kept n m ∧ (m.state.proposal ≠ n.state.proposal →
      n.state.proposal = none ∧ n.IsProposer S.publicKey) := by
    rintro _ rfl
    exact ⟨⟨rfl, rfl, rfl⟩, fun h => absurd rfl h⟩
  unfold maybePropose
  refine .get_known ?_
  split
  · exact .pure hstay
  · rename_i hnone
    refine .ofOption_bind fun w hw => ?_
    split
    · exact .pure hstay
    · rename_i hpk
      have hturn : n.state.proposal = none ∧ n.IsProposer S.publicKey :=
        ⟨by simpa using hnone, w, hw, by simpa using hpk⟩
      refine .ofOption_bind fun built hbuilt => ?_
      obtain ⟨⟨block, st, receipts⟩, cache⟩ := built
      obtain ⟨_, _, _, _, _, _, _, _, _, _, _, hfee, _, hheight, hprev⟩ :=
        buildBlock_spec _ _ hbuilt
      refine .modify_bind (.turn _ n.state.step n.stepElapsedMs n.state.proposal
        n.state.proposalBlock cache) ?_
      refine .bind (guardProposal_runs _ (block.id E.crypto)) fun ok => ?_
      split
      · rename_i hok
        refine .of_known ?_
        rintro m ⟨hsame, hcovers⟩
        have hchain : m.OnChain block := by
          rw [hsame]
          exact ⟨hheight, hprev, hfee⟩
        have hopen' : m.state.decided = none := by rw [hsame, hopen]
        refine (sendProposal_runs m block hopen' hchain (hcovers hok)).weaken (fun _ h => h) ?_
        rintro _ m' ⟨hcfg, hdecided, hlocked⟩
        rw [hsame] at hcfg hdecided hlocked
        exact ⟨⟨hcfg, hdecided, hlocked⟩, fun _ => hturn⟩
      · refine .pure ?_
        rintro m ⟨hsame, -⟩
        refine ⟨⟨?_, ?_, ?_⟩, fun _ => hturn⟩ <;> rw [hsame]

lemma advanceRound_runs :
    Runs (Micro E S ev loose) (fun n => n.state.decided = none) (advanceRound E S io)
      fun _ _ => True := by
  unfold advanceRound
  refine .get_bind fun n hopen => ?_
  split
  · exact .abort
  · rename_i hround
    split
    · exact .pure fun _ _ => trivial
    · refine .modify_bind (.advance n hopen hround) ?_
      exact (maybePropose_runs _ _ (by exact hopen)).weaken (fun _ h => h) fun _ _ _ => trivial

end Engine

/-! ### Events -/

def Event.LockSafe (S : Signer) (n : Node) : Event → Prop
  | tick dt _ => n.state.decided = none → n.state.step = .propose → n.cfg.fastQuorum = true →
      ∀ v, n.state.lockedValue = some v →
        (∀ p, n.state.proposal = some p → p.blockId = v) ∧
          (n.state.proposal = none → Machine.satAdd n.stepElapsedMs dt = dt →
            ¬ n.IsProposer S.publicKey)
  | _ => True

namespace Engine

open Prog

variable {E : Env} {S : Signer} {io : Io} {ev : Event} {loose : Prop}

lemma mayVote_of_tick {n m : Node} {dt : UInt64} {drain : ℕ → List Tx}
    (hloose : ¬ Event.LockSafe S n (.tick dt drain) → loose) (hopen : n.state.decided = none)
    (hstep : n.state.step = .propose) (hkept : Kept n m)
    (hproposal : m.state.proposal ≠ n.state.proposal → n.state.proposal = none ∧
      Machine.satAdd n.stepElapsedMs dt = dt ∧ n.IsProposer S.publicKey)
    (hfast : m.cfg.fastQuorum = true) {p : Proposal} (hp : m.state.proposal = some p) :
    m.state.MayVote loose .prevote (some p.blockId) := by
  show loose ∨ m.state.lockedValue = none ∨ m.state.lockedValue = some p.blockId
  rw [hkept.locked]
  by_cases hsafe : Event.LockSafe S n (.tick dt drain)
  · cases hlocked : n.state.lockedValue with
    | none => exact .inr (.inl rfl)
    | some v =>
      obtain ⟨hheld, hmade⟩ := hsafe hopen hstep (hkept.cfg ▸ hfast) v hlocked
      by_cases hsame : m.state.proposal = n.state.proposal
      · rw [hheld p (hsame ▸ hp)]
        exact .inr (.inr rfl)
      · obtain ⟨hnone, hfirst, hturn⟩ := hproposal hsame
        exact absurd hturn (hmade hnone hfirst)
  · exact .inl (hloose hsafe)

lemma tick_runs (n : Node) (dt : UInt64) (drain : ℕ → List Tx)
    (hloose : ¬ Event.LockSafe S n (.tick dt drain) → loose) :
    Runs (Micro E S ev loose) (· = n) (tick E S io dt drain) fun _ _ => True := by
  unfold tick
  refine .get_known ?_
  split
  · exact .pure fun _ _ => trivial
  · rename_i hdecided
    have hopen : n.state.decided = none := by simpa using hdecided
    refine .modify_bind (.turn n n.state.step _ n.state.proposal n.state.proposalBlock n.cache) ?_
    refine .get_known ?_
    split
    · rename_i hstep
      -- the proposal this tick may make
      refine .bind (Q := fun _ m => Kept n m ∧ (m.state.proposal ≠ n.state.proposal →
        n.state.proposal = none ∧ Machine.satAdd n.stepElapsedMs dt = dt ∧
          n.IsProposer S.publicKey)) ?_ fun _ => ?_
      · split
        · rename_i hfirst
          refine (maybePropose_runs _ _ (by exact hopen)).weaken (fun _ h => h) ?_
          rintro _ m ⟨⟨hcfg, hdec, hlocked⟩, hchange⟩
          refine ⟨⟨hcfg, hdec, hlocked⟩, fun hne => ?_⟩
          obtain ⟨hnone, hturn⟩ := hchange hne
          exact ⟨hnone, hfirst.1, hturn⟩
        · refine .pure ?_
          rintro _ rfl
          exact ⟨⟨rfl, rfl, rfl⟩, fun h => absurd rfl h⟩
      · refine .get_bind ?_
        rintro m ⟨hkept, hproposal⟩
        dsimp only
        split
        · refine .modify_bind (.turn m .prevote 0 m.state.proposal m.state.proposalBlock m.cache) ?_
          refine (broadcastVote_runs .prevote _).pre ?_
          rintro _ rfl
          split
          · rename_i hvalid
            simp only [Bool.and_eq_true] at hvalid
            obtain ⟨p, hp⟩ := Option.isSome_iff_exists.mp hvalid.1.2
            rw [hp]
            exact mayVote_of_tick hloose hopen hstep hkept hproposal hvalid.1.1 hp
          · trivial
        · exact .pure fun _ _ => trivial
    · split
      · exact advanceRound_runs.pre fun _ h => h ▸ hopen
      · exact .pure fun _ _ => trivial
    · split
      · exact advanceRound_runs.pre fun _ h => h ▸ hopen
      · exact .pure fun _ _ => trivial
    · exact .pure fun _ _ => trivial

lemma mayVote_prevoteChoice (engine : Engine) (id : Hash32) :
    engine.state.MayVote loose .prevote (engine.prevoteChoice id) := by
  unfold prevoteChoice
  split
  · rename_i locked hlocked
    split
    · trivial
    · rename_i heq
      exact .inr (.inr (by rw [hlocked, not_not.mp heq]))
  · rename_i hnone
    exact .inr (.inl hnone)

lemma acceptProposal_runs (p : Proposal) (hev : ev = .message (.proposal p)) :
    Runs (Micro E S ev loose) (fun _ => True) (acceptProposal E S io p) fun _ _ => True := by
  have hnil : Runs (Micro E S ev loose) (fun _ => True) (broadcastVote E S io .prevote none)
      fun _ _ => True := (broadcastVote_runs .prevote none).anyway
  unfold acceptProposal
  refine .bind (Q := fun _ _ => True) ?_ fun _ => ?_
  · split
    · rename_i b hb
      exact .modify (fun n _ => .put n b (.inl (.inr ⟨p, hev, hb⟩))) fun _ _ => trivial
    · exact .pure fun _ _ => trivial
  · refine .get_bind fun n _ => ?_
    split
    · -- the block is not there yet
      refine .modify_bind (.tell n _ trivial) ?_
      refine .modify_bind (.turn _ .prevote 0 n.state.proposal n.state.proposalBlock n.cache) ?_
      refine .bind hnil.anyway fun _ => ?_
      exact .modify (fun m _ => .turn m m.state.step m.stepElapsedMs (some p) none m.cache)
        fun _ _ => trivial
    · rename_i block hblock
      refine .ofOption_bind ?_
      rintro ⟨verified, cache⟩ -
      refine .modify_bind (.turn n n.state.step n.stepElapsedMs n.state.proposal
        n.state.proposalBlock cache) ?_
      split
      · refine .modify_bind (.turn _ .prevote 0 n.state.proposal n.state.proposalBlock cache) ?_
        exact hnil.anyway
      · refine .modify_bind (.turn _ n.state.step n.stepElapsedMs (some p) (some block) cache) ?_
        refine .modify_bind (.turn _ .prevote 0 (some p) (some block) cache) ?_
        refine .get_known ?_
        refine (broadcastVote_runs .prevote _).pre ?_
        rintro _ rfl
        exact mayVote_prevoteChoice _ p.blockId

lemma onProposal_runs (p : Proposal) (hev : ev = .message (.proposal p)) :
    Runs (Micro E S ev loose) (fun _ => True) (onProposal E S io p) fun _ _ => True := by
  unfold onProposal
  refine .get_bind fun n _ => ?_
  split
  · exact .pure fun _ _ => trivial
  · refine .ofOption_bind fun checked _ => ?_
    split
    · exact .pure fun _ _ => trivial
    · exact .bind (acceptProposal_runs p hev).anyway fun _ => .pure fun _ _ => trivial

lemma onBlockReceived_runs (b : Block) (hev : ev = .block b) :
    Runs (Micro E S ev loose) (fun _ => True) (onBlockReceived E S io b) fun _ _ => True := by
  unfold onBlockReceived
  refine .bind (Q := fun _ _ => True)
    (.modify (fun n _ => .put n b (.inl (.inl hev))) fun _ _ => trivial) fun _ => ?_
  refine .get_bind fun n _ => ?_
  split
  · exact .pure fun _ _ => trivial
  · rename_i prop hprop
    split
    · refine .modify_bind (.turn n n.state.step n.stepElapsedMs n.state.proposal (some b)
        n.cache) ?_
      refine .bind (Q := fun _ _ => True) ?_ fun _ => .pure fun _ _ => trivial
      split
      · refine (broadcastVote_runs .prevote _).pre ?_
        rintro _ rfl
        exact mayVote_prevoteChoice n.toEngine prop.blockId
      · exact .pure fun _ _ => trivial
    · exact .pure fun _ _ => trivial

lemma nextHeight_runs (hev : ev = .nextHeight) :
    Runs (Micro E S ev loose) (fun _ => True) (nextHeight E S io) fun _ _ => True := by
  unfold nextHeight
  refine .get_bind fun n _ => ?_
  split
  · exact .pure fun _ _ => trivial
  · rename_i hdecided
    split
    · exact .abort
    · rename_i hheight
      refine .modify_bind (.newHeight n hev (by simpa using hdecided) hheight) ?_
      exact .bind ((maybePropose_runs _ _ rfl).weaken (fun _ h => h) fun _ _ _ => trivial)
        fun _ => .pure fun _ _ => trivial

/-! ### Votes -/

lemma applyEvidence_runs (evidence : Evidence) {P : Node → Prop}
    (hsource : ∀ n, P n → ev = .message (.evidence evidence) ∨
      ∃ v, ev = .message (.vote v) ∧ n.Accepts E.crypto v ∧ n.Detects v evidence)
    (hstakes : ∀ n stakes, P n → P { n with stakes := stakes }) :
    Runs (Micro E S ev loose) P (applyEvidence evidence) fun _ => P := by
  unfold applyEvidence
  refine .get_bind fun n hn => ?_
  refine .ofOption_bind ?_
  rintro ⟨res, stakes⟩ happly
  refine .modify ?_ ?_
  · rintro n rfl
    exact .slash n evidence res stakes (hsource n hn) happly
  · rintro n rfl
    exact hstakes n stakes hn

def Open (C : Crypto) (v : Vote) (n : Node) : Prop :=
  n.state.decided = none ∧ n.Accepts C v

lemma recordVoteAndDetectEvidence_runs (v : Vote) (hev : ev = .message (.vote v)) :
    Runs (Micro E S ev loose) (Open E.crypto v) (recordVoteAndDetectEvidence v) fun found n =>
      Open E.crypto v n ∧ ∀ evidence, found = some evidence → n.Detects v evidence := by
  unfold recordVoteAndDetectEvidence
  refine .get_bind ?_
  rintro n ⟨hopen, haccept⟩
  split
  · rename_i prevBid prevVote hindex
    split
    · rename_i hne
      refine .pure ?_
      rintro _ rfl
      refine ⟨⟨hopen, haccept⟩, ?_⟩
      rintro evidence heq
      exact ⟨prevBid, prevVote, hindex, hne, (Option.some.inj heq).symm⟩
    · refine .pure ?_
      rintro _ rfl
      exact ⟨⟨hopen, haccept⟩, fun _ h => nomatch h⟩
  · refine .modify_bind (.index n v hev haccept) (.pure ?_)
    rintro _ rfl
    exact ⟨⟨hopen, haccept.member, haccept.height, haccept.round, haccept.signed⟩,
      fun _ h => nomatch h⟩

lemma onPrevoteQuorum_runs (n : Node) (id : Option Hash32)
    (hev : ∃ v, ev = .message (.vote v)) (hopen : n.state.decided = none)
    (hquorum : n.Quorum E .prevote id) :
    Runs (Micro E S ev loose) (· = n) (onPrevoteQuorum E S io id) fun _ _ => True := by
  cases id with
  | none => exact advanceRound_runs.pre fun _ h => h ▸ hopen
  | some id =>
    refine .modify_bind (.lock n id hev hopen hquorum) ?_
    refine (broadcastVote_runs .precommit (some id)).pre ?_
    rintro _ rfl
    exact ⟨Option.some_ne_none id, rfl, rfl⟩

lemma onPrecommitQuorum_runs (n : Node) (id : Option Hash32)
    (hev : ∃ v, ev = .message (.vote v)) (hopen : n.state.decided = none)
    (hquorum : n.Quorum E .precommit id) :
    Runs (Micro E S ev loose) (· = n) (onPrecommitQuorum E S io id n.state.round)
      fun _ _ => True := by
  cases id with
  | none =>
    exact .bind (advanceRound_runs.pre (fun _ h => h ▸ hopen))
      fun _ => .pure fun _ _ => trivial
  | some id =>
    unfold onPrecommitQuorum
    refine .get_known ?_
    split
    · exact .modify_bind (.tell n _ trivial) (.pure fun _ _ => trivial)
    · rename_i block hblock
      refine .ofOption_bind fun proposer hproposer => ?_
      refine .ofOption_bind ?_
      rintro ⟨verified, cache⟩ hverify
      refine .modify_bind (.turn n n.state.step n.stepElapsedMs n.state.proposal
        n.state.proposalBlock cache) ?_
      split
      · exact .pure fun _ _ => trivial
      · rename_i newState receipts
        refine .modify_bind (.decide { n with cache := cache } id block proposer newState receipts
          n.cache cache hev hopen hquorum hblock hproposer hverify) ?_
        refine .ofOption_bind fun newBase _ => ?_
        refine .modify_bind (.settle _ newBase hev (Option.some_ne_none _)) ?_
        exact .modify_bind (.tell _ _ trivial) (.pure fun _ _ => trivial)

lemma countVotes_runs (v : Vote) (hev : ev = .message (.vote v)) :
    Runs (Micro E S ev loose) (Open E.crypto v) (countVotes E S io v) fun _ _ => True := by
  unfold countVotes
  refine .get_bind ?_
  rintro n ⟨hopen, haccept⟩
  split
  · exact .pure fun _ _ => trivial
  · split
    · exact .pure fun _ _ => trivial
    · rename_i id pow htally
      refine .ofOption_bind fun threshold hthreshold => ?_
      split
      · exact .pure fun _ _ => trivial
      · rename_i hreach
        have hquorum : n.Quorum E v.voteType id :=
          ⟨pow, threshold, haccept.round ▸ htally, hthreshold, Nat.not_lt.mp hreach⟩
        split
        · rename_i htype
          exact .bind (onPrevoteQuorum_runs n id ⟨v, hev⟩ hopen (htype ▸ hquorum))
            fun _ => .pure fun _ _ => trivial
        · rename_i htype
          rw [haccept.round]
          exact onPrecommitQuorum_runs n id ⟨v, hev⟩ hopen (htype ▸ hquorum)

lemma onVote_runs (v : Vote) (hev : ev = .message (.vote v)) :
    Runs (Micro E S ev loose) (fun _ => True) (onVote E S io v) fun _ _ => True := by
  unfold onVote
  refine .get_bind fun n _ => ?_
  split
  · exact .pure fun _ _ => trivial
  · rename_i hdecided
    split
    · exact .pure fun _ _ => trivial
    · rename_i hverify
      have hn : Open E.crypto v n := ⟨by simpa using hdecided, accepts_of_verifyVote hverify⟩
      refine .bind ((recordVoteAndDetectEvidence_runs v hev).pre (fun _ h => h ▸ hn)) fun found => ?_
      refine .bind (Q := fun _ => Open E.crypto v) ?_ fun _ => ?_
      · split
        · rename_i evidence
          refine .bind (Q := fun _ => Open E.crypto v) ?_ fun _ => ?_
          · refine (applyEvidence_runs (P := fun m => Open E.crypto v m ∧ m.Detects v evidence)
              evidence ?_ ?_).weaken ?_ fun _ _ h => h.1
            · rintro m ⟨⟨-, haccept⟩, hdetect⟩
              exact .inr ⟨v, hev, haccept, hdetect⟩
            · rintro m stakes ⟨⟨hopen, haccept⟩, hdetect⟩
              exact ⟨⟨hopen, haccept.member, haccept.height, haccept.round, haccept.signed⟩,
                hdetect⟩
            · rintro m ⟨hm, hdetect⟩
              exact ⟨hm, hdetect evidence rfl⟩
          · exact .modify (fun m _ => .tell m _ trivial)
              fun m hm => ⟨hm.1, hm.2.member, hm.2.height, hm.2.round, hm.2.signed⟩
        · exact .pure fun _ h => h.1
      · refine .bind (Q := fun _ => Open E.crypto v) ?_ fun _ => countVotes_runs v hev
        exact .modify (fun m hm => .collect m v hev hm.1 hm.2)
          fun m hm => ⟨hm.1, hm.2.member, hm.2.height, hm.2.round, hm.2.signed⟩

end Engine

lemma Event.runs (E : Env) (S : Signer) (io : Io) (ev : Event) (n : Node) :
    Prog.Runs (Micro E S ev (¬ ev.LockSafe S n)) (· = n) (ev.prog E S io) fun _ _ => True := by
  cases ev with
  | tick dt drain =>
    exact .bind (Engine.tick_runs n dt drain id) fun _ => .pure fun _ _ => trivial
  | message msg =>
    cases msg with
    | proposal p => exact (Engine.onProposal_runs p rfl).anyway
    | vote v => exact (Engine.onVote_runs v rfl).anyway
    | evidence evidence =>
      refine .bind (Engine.applyEvidence_runs (P := fun _ => True) evidence (fun _ _ => .inl rfl)
        fun _ _ _ => trivial).anyway fun _ => ?_
      exact .pure fun _ _ => trivial
  | block b => exact (Engine.onBlockReceived_runs b rfl).anyway
  | nextHeight => exact (Engine.nextHeight_runs rfl).anyway

end Iona
