import Iona.Consensus.BlockProducer
import Iona.Consensus.Certificate

/-! # Prevote quorums -/

namespace Iona

open List

/-! ### What a run receives -/

def Drive.heard : Drive → List Vote
  | event (.message (.vote v)) => [v]
  | _ => []

def heardIn (turns : List (Io × Drive)) : List Vote := turns.flatMap fun turn => turn.2.heard

variable {id : Hash32} {vset : ValidatorSet}

@[simp] lemma heardIn_append (turns turns' : List (Io × Drive)) :
    heardIn (turns ++ turns') = heardIn turns ++ heardIn turns' := flatMap_append

@[simp] lemma heardIn_singleton (io : Io) (drive : Drive) :
    heardIn [(io, drive)] = drive.heard := by
  simp [heardIn]

lemma Drive.mem_heard (v : Vote) : v ∈ (Drive.event (.message (.vote v))).heard :=
  mem_singleton_self v

/-! ### What a turn sends -/

def Node.Adds (P : Effect → Prop) (n m : Node) : Prop :=
  ∃ new, m.trace = new ++ n.trace ∧ ∀ effect ∈ new, P effect

def Drive.Sends (E : Env) (S : Signer) (io : Io) (n : Node) (drive : Drive) (msg : ConsensusMsg) :
    Prop :=
  ∃ new, ((drive.prog E S io).exec n).trace = new ++ n.trace ∧ .broadcast msg ∈ new

section Adds

variable {P : Effect → Prop} {n m m' : Node}

variable {msg : ConsensusMsg}

lemma Node.Adds.refl (P : Effect → Prop) (n : Node) : n.Adds P n :=
  ⟨[], rfl, fun _ h => nomatch h⟩

lemma Node.Adds.mono {Q : Effect → Prop} (h : n.Adds P m) (hsub : ∀ effect, P effect → Q effect) :
    n.Adds Q m := by
  obtain ⟨new, htrace, hnew⟩ := h
  exact ⟨new, htrace, fun effect heffect => hsub effect (hnew effect heffect)⟩

lemma Node.Adds.cons (h : n.Adds P m) {effect : Effect} (heffect : P effect)
    (heq : m'.trace = effect :: m.trace) : n.Adds P m' := by
  obtain ⟨new, htrace, hnew⟩ := h
  refine ⟨effect :: new, by rw [heq, htrace, cons_append], ?_⟩
  rintro e he
  rcases mem_cons.mp he with rfl | he
  · exact heffect
  · exact hnew e he

lemma Drive.Sends.of_adds {E : Env} {S : Signer} {io : Io} {drive : Drive}
    (h : drive.Sends E S io n msg) (hadds : n.Adds P ((drive.prog E S io).exec n)) :
    P (.broadcast msg) := by
  obtain ⟨new, htrace, hmem⟩ := h
  obtain ⟨new', htrace', hnew⟩ := hadds
  have hsame : new = new' := append_cancel_right (htrace.symm.trans htrace')
  exact hnew _ (hsame ▸ hmem)

def sentMessages (trace : List Effect) : List ConsensusMsg :=
  trace.filterMap fun
    | .broadcast msg => some msg
    | _ => none

lemma Drive.sends_of_mem_take {E : Env} {S : Signer} {io : Io} {drive : Drive} (k : ℕ)
    (h : k + n.trace.length = ((drive.prog E S io).exec n).trace.length ∧ msg ∈ sentMessages
      (((drive.prog E S io).exec n).trace.take k)) : drive.Sends E S io n msg := by
  obtain ⟨hlength, hmem⟩ := h
  obtain ⟨new, hnew⟩ := drive.trace_suffix E S io n
  refine ⟨new, hnew.symm, ?_⟩
  -- the latest `k` effects are those of the turn
  have hk : k = new.length := by
    rw [← hnew, length_append] at hlength
    omega
  rw [← hnew, hk, take_left] at hmem
  obtain ⟨effect, heffect, heq⟩ := mem_filterMap.mp hmem
  split at heq
  · cases heq
    exact heffect
  · cases heq

end Adds

/-! ### Turns -/

section Turns

variable (E : Env) (S : Signer) (io : Io) (n : Node)

lemma ProduceCall.exec_state (call : ProduceCall) :
    ((call.tryProduce E S io).exec n).vset = n.vset ∧ ∃ proposal proposalBlock,
      ((call.tryProduce E S io).exec n).state =
        { n.state with proposal := proposal, proposalBlock := proposalBlock } := by
  rcases call.tryProduce_exec_cases E S io n with
    ⟨cache, hexec⟩ | ⟨block, newState, cache, -, hexec | ⟨newBase, hexec⟩⟩
  · rw [hexec]
    exact ⟨rfl, _, _, rfl⟩
  · rw [hexec]
    exact ⟨rfl, _, _, rfl⟩
  · rw [hexec]
    exact ⟨rfl, _, _, rfl⟩

lemma ProduceCall.exec_adds (call : ProduceCall) :
    n.Adds (fun effect => ∃ block newState cache, call.Builds E S io n block newState cache ∧
      effect = .broadcast (.proposal (call.proposal E S n block)))
      ((call.tryProduce E S io).exec n) := by
  rcases call.tryProduce_exec_cases E S io n with
    ⟨cache, hexec⟩ | ⟨block, newState, cache, hbuilds, hexec | ⟨newBase, hexec⟩⟩
  · rw [hexec]
    exact .refl _ n
  · rw [hexec]
    exact .refl _ n
  · rw [hexec]
    exact (Node.Adds.refl _ n).cons ⟨block, newState, cache, hbuilds, rfl⟩ rfl

variable {E S io n}

lemma Drive.exec_invariant {I : Node → Prop} (drive : Drive)
    (hmicro : ∀ ev, drive = .event ev →
      ∀ m m', Micro E S ev (¬ ev.LockSafe S n) m m' → I m → I m')
    (hproduce : ∀ call, drive = .produce call → I ((call.tryProduce E S io).exec n)) (hn : I n) :
    I ((drive.prog E S io).exec n) := by
  cases drive with
  | event ev =>
    rw [Drive.prog, Prog.exec_bind_pure]
    exact Event.exec_invariant (hmicro ev rfl) hn
  | produce call =>
    rw [Drive.prog, Prog.exec_bind_pure]
    exact hproduce call rfl

end Turns

/-! ### Quorums of prevotes -/

structure IsPrevoteQuorum (C : Crypto) (vset : ValidatorSet) (height : Height) (round : Round)
    (id : Hash32) (votes : List Vote) : Prop where
  verified : ∀ v ∈ votes, v.voteType = .prevote ∧ v.height = height ∧ v.round = round ∧
    v.blockId = some id ∧ vset.contains v.voter = true ∧
    C.verify v.voter v.signBytes v.signature = true
  distinct : (votes.map Vote.voter).Nodup
  quorum : ∃ threshold, quorumThreshold vset.totalPower = some threshold ∧
    threshold.toNat ≤ (votes.map fun v => (vset.powerOf v.voter).toNat).sum

def PrevoteQuorum (C : Crypto) (vset : ValidatorSet) (height : Height) (heard : List Vote)
    (round : Round) (id : Hash32) : Prop :=
  ∃ votes ⊆ heard, IsPrevoteQuorum C vset height round id votes

lemma PrevoteQuorum.mono {C : Crypto} {height : Height} {heard heard' : List Vote} {round : Round}
    (h : PrevoteQuorum C vset height heard round id) (hsub : heard ⊆ heard') :
    PrevoteQuorum C vset height heard' round id := by
  obtain ⟨votes, hvotes, hquorum⟩ := h
  exact ⟨votes, List.Subset.trans hvotes hsub, hquorum⟩

lemma PrevoteQuorum.exists_vote {C : Crypto} {height : Height} {heard : List Vote} {round : Round}
    (h : PrevoteQuorum C vset height heard round id) :
    ∃ v ∈ heard, v.voteType = .prevote ∧ v.round = round ∧ v.blockId = some id := by
  obtain ⟨votes, hsub, hverified, -, threshold, hthreshold, hle⟩ := h
  have hpos := quorumThreshold_eq_some hthreshold
  cases votes with
  | nil =>
    rw [map_nil, sum_nil] at hle
    omega
  | cons v rest =>
    obtain ⟨htype, -, hround, hid, -, -⟩ := hverified v mem_cons_self
    exact ⟨v, hsub mem_cons_self, htype, hround, hid⟩

lemma Engine.Quorum.isPrevoteQuorum {E : Env} {engine : Engine}
    (hquorum : engine.Quorum E .prevote (some id))
    (hsound : VotesSound E.crypto engine.vset engine.state.height engine.state.votes) :
    IsPrevoteQuorum E.crypto engine.vset engine.state.height engine.state.round id
      (engine.collectVotes engine.state.round .prevote (some id)) where
  verified _ hv := collected_filed hsound hv
  distinct := nodup_voters hsound
  quorum := hquorum.le_sum hsound

/-! ### What an engine knows -/

structure Heard (C : Crypto) (vset : ValidatorSet) (heard : List Vote) (n : Node) : Prop where
  same : n.vset = vset
  sound : Engine.VotesSound C n.vset n.state.height n.state.votes
  stored : ∀ r vt pk v, Engine.lookupVote n.state.votes r vt pk = some v → v ∈ heard
  valid : n.state.validRound = n.state.lockedRound ∧ n.state.validValue = n.state.lockedValue
  locked : ∀ r, n.state.lockedRound = some r → r ≤ n.state.round ∧
    ∃ id, n.state.lockedValue = some id ∧ PrevoteQuorum C vset n.state.height heard r id

section Heard

variable {E : Env} {S : Signer} {io : Io} {vset : ValidatorSet} {heard heard' : List Vote}
  {n m : Node}

lemma Heard.mono (h : Heard E.crypto vset heard n) (hsub : heard ⊆ heard') :
    Heard E.crypto vset heard' n := by
  refine ⟨h.same, h.sound, fun r vt pk v hv => hsub (h.stored r vt pk v hv), h.valid, ?_⟩
  intro r hr
  obtain ⟨hle, id, hid, hquorum⟩ := h.locked r hr
  exact ⟨hle, id, hid, hquorum.mono hsub⟩

lemma Heard.of_state (h : Heard E.crypto vset heard n) (hvset : m.vset = n.vset)
    (hstate : ∃ proposal proposalBlock, m.state =
      { n.state with proposal := proposal, proposalBlock := proposalBlock }) :
    Heard E.crypto vset heard m := by
  obtain ⟨proposal, proposalBlock, hstate⟩ := hstate
  refine ⟨hvset.trans h.same, ?_, ?_, ?_, ?_⟩
  · rw [hvset, hstate]
    exact h.sound
  · rw [hstate]
    exact h.stored
  · rw [hstate]
    exact h.valid
  · rw [hstate]
    exact h.locked

lemma Heard.quorum (h : Heard E.crypto vset heard n) {id : Hash32}
    (hquorum : n.Quorum E .prevote (some id)) :
    PrevoteQuorum E.crypto vset n.state.height heard n.state.round id := by
  refine ⟨n.collectVotes n.state.round .prevote (some id), ?_, ?_⟩
  · intro v hv
    obtain ⟨-, pk, hlookup⟩ := Engine.mem_collectVotes hv
    exact h.stored _ _ _ v hlookup
  · have hvotes := hquorum.isPrevoteQuorum h.sound
    rwa [h.same] at hvotes

lemma Heard.micro {ev : Event} {loose : Prop} (hstep : Micro E S ev loose n m)
    (hev : ∀ v, ev = .message (.vote v) → v ∈ heard) (h : Heard E.crypto vset heard n) :
    Heard E.crypto vset heard m := by
  cases hstep with
  | advance hopen hround =>
    refine ⟨h.same, h.sound, h.stored, h.valid, ?_⟩
    intro r hr
    obtain ⟨hle, hid⟩ := h.locked r hr
    refine ⟨UInt32.le_trans hle ?_, hid⟩
    show n.state.round ≤ n.state.round + 1
    rw [UInt32.le_iff_toNat_le, Machine.toNat_add_one_u32 hround]
    exact Nat.le_succ _
  | collect v hvote hopen haccept =>
    refine ⟨h.same, h.sound.storeVote haccept, ?_, h.valid, h.locked⟩
    intro r vt pk x hx
    rw [Engine.lookupVote_storeVote] at hx
    split at hx
    · cases hx
      exact hev v hvote
    · exact h.stored r vt pk x hx
  | lock id hvote hopen hquorum =>
    -- the lock and the valid value are set together, in the round of the quorum
    refine ⟨h.same, h.sound, h.stored, ⟨rfl, rfl⟩, ?_⟩
    rintro r hr
    cases hr
    exact ⟨UInt32.le_refl _, id, rfl, h.quorum hquorum⟩
  | newHeight =>
    refine ⟨h.same, Engine.votesSound_empty _ _ _, ?_, ⟨rfl, rfl⟩, fun r hr => nomatch hr⟩
    intro r vt pk v hv
    simp [Engine.lookupVote] at hv
  | _ => exact ⟨h.same, h.sound, h.stored, h.valid, h.locked⟩

lemma Heard.drive (h : Heard E.crypto vset heard n) {drive : Drive}
    (hsub : drive.heard ⊆ heard) : Heard E.crypto vset heard ((drive.prog E S io).exec n) := by
  refine drive.exec_invariant ?_ ?_ h
  · rintro ev rfl m m' hstep
    refine Heard.micro hstep ?_
    rintro v rfl
    exact hsub (Drive.mem_heard v)
  · rintro call -
    obtain ⟨hvset, hstate⟩ := call.exec_state E S io n
    exact h.of_state hvset hstate

lemma Heard.run {turns : List (Io × Drive)} (hn : Heard E.crypto vset heard n)
    (hrun : Trace.run (Drive.step E S) n turns = some m) :
    Heard E.crypto vset (heard ++ heardIn turns) m := by
  refine Trace.run_history (C := fun _ _ => True)
    (P := fun turns m => Heard E.crypto vset (heard ++ heardIn turns) m) ?_ ?_
    (fun _ _ _ _ _ _ => trivial) hrun
  · simpa [heardIn] using hn
  · rintro pre m ⟨io, drive⟩ m' hm - hstep
    rw [← Drive.exec_of_step hstep, heardIn_append, heardIn_singleton, ← append_assoc]
    exact (hm.mono (subset_append_left _ _)).drive (subset_append_right _ _)

lemma heard_start (cfg : Config) (height : Height) (prev : Hash32) (app : KvState)
    (stakes : StakeLedger) (guard : Option GuardState) (store : BTreeMap Hash32 Block)
    (cache : Merkle.RootCache) :
    Heard E.crypto vset []
      (.start (.new cfg vset height prev app stakes guard) store cache) := by
  refine ⟨rfl, Engine.votesSound_empty _ _ _, ?_, ⟨rfl, rfl⟩, fun r hr => nomatch hr⟩
  intro r vt pk v hv
  simp [Node.start, Engine.new, Engine.lookupVote] at hv

end Heard

end Iona
