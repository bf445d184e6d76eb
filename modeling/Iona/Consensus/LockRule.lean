import Iona.Consensus.Polka

/-! # The lock rule -/

namespace Iona

open Trace

def Drive.LockSafe (S : Signer) (n : Node) : Drive → Prop
  | event ev => ev.LockSafe S n
  | produce _ => True

structure LockedSince (C : Crypto) (vset : ValidatorSet) (heard : List Vote) (height : Height)
    (r : Round) (v : Hash32) (n : Node) : Prop where
  known : Heard C vset heard n
  reached : height ≤ n.state.height
  locked : n.state.height = height → ∃ ρ id, n.state.lockedRound = some ρ ∧
    n.state.lockedValue = some id ∧ r ≤ ρ ∧ (ρ = r → id = v)

def Vote.Justified (C : Crypto) (vset : ValidatorSet) (heard : List Vote) (height : Height)
    (r : Round) (v : Hash32) (w : Vote) : Prop :=
  w.voteType = .prevote → w.height = height → r < w.round → ∀ id, w.blockId = some id → id ≠ v →
    ∃ ρ, r < ρ ∧ ρ ≤ w.round ∧ PrevoteQuorum C vset height heard ρ id

section Steps

variable {E : Env} {S : Signer} {io : Io} {vset : ValidatorSet} {heard : List Vote}
  {height : Height} {r : Round} {v : Hash32} {n m : Node}

lemma LockedSince.micro {ev : Event} {loose : Prop}
    (hunique : ∀ id, PrevoteQuorum E.crypto vset height heard r id → id = v)
    (hev : ∀ v, ev = .message (.vote v) → v ∈ heard) (hstep : Micro E S ev loose n m)
    (h : LockedSince E.crypto vset heard height r v n) :
    LockedSince E.crypto vset heard height r v m := by
  have hknown := h.known.micro hstep hev
  cases hstep with
  | lock id hvote hopen hquorum =>
    refine ⟨hknown, h.reached, fun hheight => ?_⟩
    obtain ⟨ρ, _, hρ, -, hle, -⟩ := h.locked hheight
    refine ⟨n.state.round, id, rfl, rfl, ?_, fun hround => ?_⟩
    · exact UInt32.le_trans hle (h.known.locked ρ hρ).1
    · -- a quorum of the round of the first lock
      have hnew := h.known.quorum hquorum
      rw [show n.state.height = height from hheight, hround] at hnew
      exact hunique id hnew
  | newHeight hev' hdecided hsize =>
    -- the lock is dropped, and no vote of the old height is signed any more
    have hlt : height < n.state.height + 1 := by
      have hle := UInt64.le_iff_toNat_le.mp h.reached
      rw [UInt64.lt_iff_toNat_lt, Machine.toNat_add_one hsize]
      exact Nat.lt_succ_of_le hle
    exact ⟨hknown, UInt64.le_of_lt hlt, fun hheight => absurd hheight.symm (UInt64.ne_of_lt hlt)⟩
  | _ => exact ⟨hknown, h.reached, h.locked⟩

lemma LockedSince.produce (h : LockedSince E.crypto vset heard height r v n) (call : ProduceCall) :
    LockedSince E.crypto vset heard height r v ((call.tryProduce E S io).exec n) := by
  obtain ⟨hvset, hstate⟩ := call.exec_state E S io n
  have hknown := h.known.of_state hvset hstate
  obtain ⟨proposal, proposalBlock, hstate⟩ := hstate
  refine ⟨hknown, ?_, ?_⟩
  · rw [hstate]
    exact h.reached
  · rw [hstate]
    exact h.locked

lemma LockedSince.run (hunique : ∀ id, PrevoteQuorum E.crypto vset height heard r id → id = v)
    {turns : List (Io × Drive)} (hsub : heardIn turns ⊆ heard)
    (h : LockedSince E.crypto vset heard height r v n)
    (hrun : run (Drive.step E S) n turns = some m) :
    LockedSince E.crypto vset heard height r v m := by
  refine run_history (C := fun _ _ => True) (P := fun turns m => heardIn turns ⊆ heard →
    LockedSince E.crypto vset heard height r v m) (fun _ => h) ?_ (fun _ _ _ _ _ _ => trivial)
    hrun hsub
  rintro pre m ⟨io, drive⟩ m' ih - hstep hsub
  rw [heardIn_append, heardIn_singleton, List.append_subset] at hsub
  rw [← Drive.exec_of_step hstep]
  refine drive.exec_invariant ?_ (fun call _ => (ih hsub.1).produce call) (ih hsub.1)
  rintro ev rfl m m' hstep
  refine LockedSince.micro hunique ?_ hstep
  rintro v rfl
  exact hsub.2 (Drive.mem_heard v)

lemma LockedSince.justified {loose : Prop} (hsafe : ¬ loose)
    (h : LockedSince E.crypto vset heard height r v n) {w : Vote}
    (hheight : w.height = n.state.height) (hround : w.round = n.state.round)
    (hrule : n.state.MayVote loose w.voteType w.blockId) :
    w.Justified E.crypto vset heard height r v := by
  intro htype hheight' hlater id hid hne
  rw [hheight] at hheight'
  obtain ⟨ρ, id', hρ, hid', hle, hfirst⟩ := h.locked hheight'
  obtain ⟨hle', id'', hid'', hquorum⟩ := h.known.locked ρ hρ
  cases hid'.symm.trans hid''
  -- the lock is on the block that is prevoted
  rw [htype, hid] at hrule
  rcases hrule with hloose | hnone | hsame
  · exact absurd hloose hsafe
  · rw [hid'] at hnone
    cases hnone
  · cases hid'.symm.trans hsame
    have hlt : r < ρ := UInt32.lt_of_le_of_ne hle fun heq => hne (hfirst heq.symm)
    exact ⟨ρ, hlt, hround ▸ hle', hheight' ▸ hquorum⟩

lemma LockedSince.adds {drive : Drive} (hsafe : drive.LockSafe S n)
    (hunique : ∀ id, PrevoteQuorum E.crypto vset height heard r id → id = v)
    (hsub : drive.heard ⊆ heard) (h : LockedSince E.crypto vset heard height r v n) :
    n.Adds (fun effect => ∀ w, effect = .broadcast (.vote w) →
      w.Justified E.crypto vset heard height r v) ((drive.prog E S io).exec n) := by
  refine (drive.exec_invariant (I := fun m => LockedSince E.crypto vset heard height r v m ∧
    n.Adds (fun effect => ∀ w, effect = .broadcast (.vote w) →
      w.Justified E.crypto vset heard height r v) m) ?_ ?_ ⟨h, .refl _ n⟩).2
  · rintro ev rfl m m' hstep ⟨hm, hadds⟩
    have hev : ∀ v, ev = .message (.vote v) → v ∈ heard := by
      rintro v rfl
      exact hsub (Drive.mem_heard v)
    refine ⟨hm.micro hunique hev hstep, ?_⟩
    cases hstep with
    | vote vt id hopen hguard hrule =>
      refine hadds.cons ?_ rfl
      rintro w heq
      cases heq
      exact hm.justified (not_not_intro hsafe) rfl rfl hrule
    | save =>
      refine hadds.cons ?_ rfl
      rintro w heq
      cases heq
    | propose =>
      refine hadds.cons ?_ rfl
      rintro w heq
      cases heq
    | tell effect hunsigned =>
      refine hadds.cons ?_ rfl
      rintro w rfl
      exact hunsigned.elim
    | _ => exact hadds
  · rintro call rfl
    refine ⟨h.produce call, (call.exec_adds E S io n).mono ?_⟩
    -- the producer sends no vote
    rintro effect ⟨block, newState, cache, -, rfl⟩ w heq
    cases heq

end Steps

/-- **The lock rule.** A prevote against the lock is justified by a later quorum, unless a tick
passes over the lock or the prevotes of the round have another quorum. -/
theorem prevote_justified (E : Env) (S : Signer) (cfg : Config) (vset : ValidatorSet)
    (height : Height) (prev : Hash32) (app : KvState) (stakes : StakeLedger)
    (guard : Option GuardState) (store : BTreeMap Hash32 Block) (cache : Merkle.RootCache)
    (turns turns' : List (Io × Drive)) (io : Io) (drive : Drive) {n m : Node} {r : Round}
    {v id : Hash32} {w : Vote}
    (hrun : run (Drive.step E S)
      (.start (.new cfg vset height prev app stakes guard) store cache) turns = some n)
    (hround : n.state.lockedRound = some r) (hvalue : n.state.lockedValue = some v)
    (hrun' : run (Drive.step E S) n turns' = some m)
    (hsafe : drive.LockSafe S m)
    (hunique : ∀ id, PrevoteQuorum E.crypto vset n.state.height
      (heardIn (turns ++ turns' ++ [(io, drive)])) r id → id = v)
    (hsends : drive.Sends E S io m (.vote w)) (htype : w.voteType = .prevote)
    (hheight : w.height = n.state.height) (hlater : r < w.round) (hid : w.blockId = some id)
    (hne : id ≠ v) :
    ∃ ρ, r < ρ ∧ ρ ≤ w.round ∧ PrevoteQuorum E.crypto vset n.state.height
      (heardIn (turns ++ turns' ++ [(io, drive)])) ρ id := by
  have hknown : Heard E.crypto vset (heardIn turns) n :=
    (heard_start cfg height prev app stakes guard store cache).run hrun
  simp only [heardIn_append, heardIn_singleton, List.append_assoc] at hunique ⊢
  have hn : LockedSince E.crypto vset (heardIn turns ++ (heardIn turns' ++ drive.heard))
      n.state.height r v n :=
    ⟨hknown.mono (List.subset_append_left _ _), UInt64.le_refl _, fun _ =>
      ⟨r, v, hround, hvalue, UInt32.le_refl _, fun _ => rfl⟩⟩
  have hm := hn.run hunique (by simp) hrun'
  exact hsends.of_adds (hm.adds hsafe hunique (by simp)) w rfl htype hheight hlater id hid hne

/-! ### Two runs -/

def tickTurn (dt : UInt64) : Io × Drive := ({}, .event (.tick dt fun _ => []))

def messageTurn (msg : ConsensusMsg) : Io × Drive := ({}, .event (.message msg))

def otherPk : PublicKeyBytes := List.replicate 32 2

def lightHeavy : List Validator := [⟨demoPk, 1⟩, ⟨otherPk, 3⟩]

def unguarded : Node :=
  .start (.new {} ⟨lightHeavy⟩ 2 (.ofNat 0) {} {} none) ∅ (.empty _ _ _)

def roundZero : Proposal :=
  ((runEvents .demo (.demo demoPk) unguarded [({}, .tick 1 fun _ => [])]).state.proposal).getD
    ⟨0, 0, [], .ofNat 0, none, none, []⟩

def roundOne : Proposal :=
  ((runEvents .demo (.demo otherPk) unguarded
    [({}, .tick 300 fun _ => []), ({}, .tick 200 fun _ => [])]).state.proposal).getD
    ⟨0, 0, [], .ofNat 0, none, none, []⟩

def lockingTurns : List (Io × Drive) :=
  [tickTurn 1, messageTurn (.vote (.demo otherPk .prevote 0 (some roundZero.blockId)))]

def relockingTurns : List (Io × Drive) :=
  [tickTurn 200, messageTurn (.proposal roundOne),
    messageTurn (.vote (.demo otherPk .prevote 1 (some roundOne.blockId)))]

def lockedNode : Node :=
  (run (Drive.step .demo (.demo demoPk)) unguarded lockingTurns).getD unguarded

def relockedNode : Node :=
  (run (Drive.step .demo (.demo demoPk)) lockedNode relockingTurns).getD unguarded

/-- The proposal comes once more, and now it is prevoted. -/
theorem prevote_justified_relocked : ∃ ρ, 0 < ρ ∧ ρ ≤ 1 ∧
    PrevoteQuorum Crypto.demo ⟨lightHeavy⟩ 2
      (heardIn (lockingTurns ++ relockingTurns ++ [messageTurn (.proposal roundOne)])) ρ
      roundOne.blockId := by
  have hstates : (run (Drive.step .demo (.demo demoPk)) unguarded lockingTurns).isSome = true ∧
      (run (Drive.step .demo (.demo demoPk)) lockedNode relockingTurns).isSome = true ∧
      lockedNode.state.height = 2 ∧ lockedNode.state.lockedRound = some 0 ∧
      lockedNode.state.lockedValue = some roundZero.blockId ∧
      roundOne.blockId ≠ roundZero.blockId := by decide +kernel
  obtain ⟨hsome, hsome', hheight, hround, hvalue, hne⟩ := hstates
  have hunique : ∀ id, PrevoteQuorum Crypto.demo ⟨lightHeavy⟩ lockedNode.state.height
      (heardIn (lockingTurns ++ relockingTurns ++ [messageTurn (.proposal roundOne)])) 0 id →
        id = roundZero.blockId := by
    intro id hquorum
    obtain ⟨v, hv, -, hround, hid⟩ := hquorum.exists_vote
    have hall : ∀ v ∈ heardIn (lockingTurns ++ relockingTurns ++
        [messageTurn (.proposal roundOne)]), v.round = 0 → v.blockId = some roundZero.blockId := by
      decide +kernel
    exact Option.some.inj (hid.symm.trans (hall v hv hround))
  have hrun : run (Drive.step .demo (.demo demoPk)) unguarded lockingTurns =
      some lockedNode := (Option.getD_of_ne_none (Option.isSome_iff_ne_none.mp hsome) unguarded).symm
  have hrun' : run (Drive.step .demo (.demo demoPk)) lockedNode relockingTurns =
      some relockedNode :=
    (Option.getD_of_ne_none (Option.isSome_iff_ne_none.mp hsome') unguarded).symm
  have hsends : Drive.Sends .demo (.demo demoPk) {} relockedNode
      (.event (.message (.proposal roundOne)))
      (.vote (.demo demoPk .prevote 1 (some roundOne.blockId))) :=
    Drive.sends_of_mem_take 1 (by decide +kernel)
  rw [← hheight]
  exact prevote_justified .demo (.demo demoPk) {} ⟨lightHeavy⟩ 2 (.ofNat 0) {} {} none ∅
    (.empty _ _ _) lockingTurns relockingTurns {} (.event (.message (.proposal roundOne))) hrun
    hround hvalue hrun' trivial hunique hsends rfl hheight.symm (by decide) rfl hne

def soloLocking : List (Io × Drive) :=
  [tickTurn 1, messageTurn (.vote (.demo demoPk .prevote 0 (some demoId)))]

def soloTurns : List (Io × Drive) := soloLocking ++ [tickTurn 200]

def soloLocked : Node :=
  (run (Drive.step .demo (.demo demoPk)) (.demo [⟨demoPk, 1⟩]) soloLocking).getD
    (.demo [⟨demoPk, 1⟩])

def soloNode : Node :=
  (run (Drive.step .demo (.demo demoPk)) (.demo [⟨demoPk, 1⟩]) soloTurns).getD
    (.demo [⟨demoPk, 1⟩])

def soloId : Hash32 := (soloNode.state.proposal.map Proposal.blockId).getD (.ofNat 0)

/-- **A tick prevotes against the lock**: the engine is locked on one block, and prevotes another
one in the next round, for which it received no prevote at all. -/
theorem prevote_unjustified : ∃ (turns : List (Io × Drive)) (n : Node) (io : Io) (drive : Drive)
    (v id : Hash32) (w : Vote),
    run (Drive.step .demo (.demo demoPk)) (.demo [⟨demoPk, 1⟩]) turns = some n ∧
      n.state.lockedRound = some 0 ∧ n.state.lockedValue = some v ∧
      drive.Sends .demo (.demo demoPk) io n (.vote w) ∧ w.voteType = .prevote ∧
      w.height = n.state.height ∧ 0 < w.round ∧ w.blockId = some id ∧ id ≠ v ∧
      ∀ ρ, 0 < ρ → ¬ PrevoteQuorum Crypto.demo ⟨[⟨demoPk, 1⟩]⟩ n.state.height
        (heardIn (turns ++ [(io, drive)])) ρ id := by
  have hstates : (run (Drive.step .demo (.demo demoPk)) (.demo [⟨demoPk, 1⟩])
      soloTurns).isSome = true ∧ soloNode.state.lockedRound = some 0 ∧
      soloNode.state.lockedValue = some demoId ∧ 2 = soloNode.state.height ∧ soloId ≠ demoId := by
    decide +kernel
  obtain ⟨hsome, hround, hvalue, hheight, hne⟩ := hstates
  have hrun : run (Drive.step .demo (.demo demoPk)) (.demo [⟨demoPk, 1⟩]) soloTurns =
      some soloNode :=
    (Option.getD_of_ne_none (Option.isSome_iff_ne_none.mp hsome) (Node.demo [⟨demoPk, 1⟩])).symm
  have hsends : Drive.Sends .demo (.demo demoPk) {} soloNode (.event (.tick 1 fun _ => []))
      (.vote (.demo demoPk .prevote 1 (some soloId))) :=
    Drive.sends_of_mem_take 2 (by decide +kernel)
  refine ⟨soloTurns, soloNode, {}, .event (.tick 1 fun _ => []), demoId, soloId, _, hrun, hround,
    hvalue, hsends, rfl, hheight, by decide, rfl, hne, ?_⟩
  intro ρ hpos hquorum
  obtain ⟨v, hv, -, hround, -⟩ := hquorum.exists_vote
  -- the only vote it received is of round 0
  have hall : ∀ v ∈ heardIn (soloTurns ++ [(({} : Io), Drive.event (.tick 1 fun _ => []))]),
      v.round = 0 := by decide +kernel
  rw [← hround, hall v hv] at hpos
  exact absurd hpos (by decide)

end Iona
