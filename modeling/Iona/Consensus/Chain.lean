import Iona.Consensus.Certificate

/-! # Committed blocks and the chain -/

namespace Iona

structure Event.Fits (n : Node) (ev : Event) : Prop where
  blocks : ∀ b, ev.Brings b → n.OnChain b
  precommits : ∀ v id b, ev = .message (.vote v) → v.voteType = .precommit →
    v.blockId = some id → n.store[id]? = some b → b.header.height = n.state.height

structure ChainInv (n : Node) : Prop where
  bound : ∀ (id : Hash32) b, n.store[id]? = some b → b.header.height ≤ n.state.height
  chain : n.state.decided = none → ∀ (id : Hash32) b, n.store[id]? = some b →
    b.header.height = n.state.height →
    b.header.prev = n.prevBlockId ∧ b.header.baseFeePerGas = n.baseFeePerGas
  votes : ∀ r pk v id b, Engine.lookupVote n.state.votes r .precommit pk = some v →
    v.blockId = some id → n.store[id]? = some b → b.header.height = n.state.height

variable {ev : Event}

lemma Event.Brings.not_vote {b : Block} (h : ev.Brings b) (v : Vote) :
    ev ≠ .message (.vote v) := by
  rcases h with rfl | ⟨p, rfl, -⟩ <;> exact fun h => nomatch h

lemma Event.Brings.not_nextHeight {b : Block} (h : ev.Brings b) : ev ≠ .nextHeight := by
  rcases h with rfl | ⟨p, rfl, -⟩ <;> exact fun h => nomatch h

section Steps

variable {E : Env} {S : Signer} {ev : Event} {loose : Prop} {n m : Node}

lemma getElem?_put {store : BTreeMap Hash32 Block} {b b' : Block} {id id' : Hash32}
    (h : (store.insert id b)[id']? = some b') : b' = b ∨ store[id']? = some b' := by
  rw [Std.ExtTreeMap.getElem?_insert] at h
  split at h
  · exact .inl (Option.some.inj h).symm
  · exact .inr h

lemma Event.Fits.micro (hstep : Micro E S ev loose n m) (h : ev.Fits n) : ev.Fits m := by
  cases hstep with
  | put b hsource =>
    refine ⟨fun b' hb' => ⟨(h.blocks b' hb').height, (h.blocks b' hb').prev,
      (h.blocks b' hb').baseFee⟩, fun v id b' hev htype hid hb' => ?_⟩
    rcases getElem?_put hb' with rfl | hold
    · rcases hsource with hbrings | ⟨-, hchain⟩
      · exact absurd hev (hbrings.not_vote v)
      · exact hchain.height
    · exact h.precommits v id b' hev htype hid hold
  | decide id block proposer newState receipts cache cache' hev =>
    obtain ⟨v, hev⟩ := hev
    exact ⟨fun b hb => absurd hev (hb.not_vote v), h.precommits⟩
  | settle fee hev =>
    obtain ⟨v, hev⟩ := hev
    exact ⟨fun b hb => absurd hev (hb.not_vote v), h.precommits⟩
  | newHeight hev =>
    refine ⟨fun b hb => absurd hev hb.not_nextHeight, fun v id b hvote => ?_⟩
    exact nomatch hev.symm.trans hvote
  | _ => exact ⟨fun b hb => ⟨(h.blocks b hb).height, (h.blocks b hb).prev, (h.blocks b hb).baseFee⟩,
      h.precommits⟩

lemma Engine.Quorum.exists_vote {engine : Engine} {vt : VoteType} {id : Option Hash32}
    (hsound : VotesSound E.crypto engine.vset engine.state.height engine.state.votes)
    (h : engine.Quorum E vt id) :
    ∃ pk v, lookupVote engine.state.votes engine.state.round vt pk = some v ∧ v.blockId = id := by
  obtain ⟨threshold, hthreshold, hle⟩ := h.le_sum hsound
  have hpos := quorumThreshold_eq_some hthreshold
  cases hvotes : engine.collectVotes engine.state.round vt id with
  | nil =>
    rw [hvotes, List.map_nil, List.sum_nil] at hle
    omega
  | cons v rest =>
    have hmem : v ∈ engine.collectVotes engine.state.round vt id := by
      rw [hvotes]
      exact List.mem_cons_self
    obtain ⟨hid, pk, hlookup⟩ := mem_collectVotes hmem
    exact ⟨pk, v, hlookup, hid⟩

lemma ChainInv.onChain (h : ChainInv n)
    (hsound : Engine.VotesSound E.crypto n.vset n.state.height n.state.votes)
    (hopen : n.state.decided = none) {id : Hash32} (hquorum : n.Quorum E .precommit (some id))
    {block : Block} (hblock : n.store[id]? = some block) : n.OnChain block := by
  obtain ⟨pk, v, hlookup, hid⟩ := hquorum.exists_vote hsound
  have hheight := h.votes _ _ _ _ _ hlookup hid hblock
  obtain ⟨hprev, hfee⟩ := h.chain hopen id block hblock hheight
  exact ⟨hheight, hprev, hfee⟩

lemma ChainInv.micro (hstep : Micro E S ev loose n m) (hfits : ev.Fits n) (h : ChainInv n) :
    ChainInv m := by
  cases hstep with
  | put b hsource =>
    -- the new block extends the chain, whoever supplied it
    have hb : n.OnChain b := by
      rcases hsource with hbrings | ⟨-, hchain⟩
      · exact hfits.blocks b hbrings
      · exact hchain
    refine ⟨fun id b' hb' => ?_, fun hopen id b' hb' hheight => ?_,
      fun r pk v id b' hlookup hid hb' => ?_⟩
    · rcases getElem?_put hb' with rfl | hold
      · exact UInt64.le_of_eq hb.height
      · exact h.bound id b' hold
    · rcases getElem?_put hb' with rfl | hold
      · exact ⟨hb.prev, hb.baseFee⟩
      · exact h.chain hopen id b' hold hheight
    · rcases getElem?_put hb' with rfl | hold
      · exact hb.height
      · exact h.votes r pk v id b' hlookup hid hold
  | collect v hev hopen haccept =>
    refine ⟨h.bound, h.chain, fun r pk x id b hx hid hb => ?_⟩
    rw [Engine.lookupVote_storeVote] at hx
    split at hx
    · rename_i hkey
      cases hx
      exact hfits.precommits _ id b hev hkey.2.1.symm hid hb
    · exact h.votes r pk x id b hx hid hb
  | decide => exact ⟨h.bound, (fun hopen => nomatch hopen), h.votes⟩
  | settle fee hev hdecided => exact ⟨h.bound, fun hopen => absurd hopen hdecided, h.votes⟩
  | newHeight hev hdecided hheight =>
    have hlt : ∀ b : Block, b.header.height ≤ n.state.height →
        b.header.height < n.state.height + 1 := by
      intro b hb
      rw [UInt64.le_iff_toNat_le] at hb
      rw [UInt64.lt_iff_toNat_lt, Machine.toNat_add_one hheight]
      exact Nat.lt_succ_of_le hb
    refine ⟨fun id b hb => ?_, fun _ id b hb heq => ?_, fun r pk v id b hlookup => ?_⟩
    · exact UInt64.le_of_lt (hlt b (h.bound id b hb))
    · exact absurd heq (UInt64.ne_of_lt (hlt b (h.bound id b hb)))
    · simp [Engine.lookupVote] at hlookup
  | _ => exact ⟨h.bound, h.chain, h.votes⟩

end Steps

def CommitsOnChain (E : Env) (S : Signer) (n : Node) (io : Io) (ev : Event) : Prop :=
  ∀ cert, n.state.decided = none → ((ev.prog E S io).exec n).state.decided = some cert →
    ∃ block, ((ev.prog E S io).exec n).store[cert.blockId]? = some block ∧ n.OnChain block

structure Deciding (ev : Event) (n m : Node) : Prop where
  undecided : m.state.decided = none → m.state.height = n.state.height ∧
    m.prevBlockId = n.prevBlockId ∧ m.baseFeePerGas = n.baseFeePerGas
  decided : ∀ cert, m.state.decided = some cert → (∃ v, ev = .message (.vote v)) ∧
    ∃ block, m.store[cert.blockId]? = some block ∧ n.OnChain block

lemma Deciding.micro {E : Env} {S : Signer} {loose : Prop} {n m m' : Node}
    (hstep : Micro E S ev loose m m') (hchain : ChainInv m)
    (hsound : Engine.VotesSound E.crypto m.vset m.state.height m.state.votes) (h : Deciding ev n m) :
    Deciding ev n m' := by
  cases hstep with
  | put b hsource =>
    refine ⟨h.undecided, fun cert hcert => ?_⟩
    -- after a decision nothing is brought in
    obtain ⟨⟨v, hev⟩, -⟩ := h.decided cert hcert
    rcases hsource with hbrings | ⟨hopen, -⟩
    · exact absurd hev (hbrings.not_vote v)
    · exact nomatch hopen.symm.trans hcert
  | decide id block proposer newState receipts cache cache' hev hopen hquorum hblock =>
    refine ⟨(fun hnone => nomatch hnone), fun cert hcert => ⟨hev, block, ?_, ?_⟩⟩
    · cases hcert
      exact hblock
    · obtain ⟨hheight, hprev, hfee⟩ := hchain.onChain hsound hopen hquorum hblock
      obtain ⟨hheight', hprev', hfee'⟩ := h.undecided hopen
      exact ⟨hheight.trans hheight', hprev.trans hprev', hfee.trans hfee'⟩
  | settle fee hev hdecided => exact ⟨fun hnone => absurd hnone hdecided, h.decided⟩
  | newHeight hev hdecided =>
    obtain ⟨cert, hcert⟩ := Option.ne_none_iff_exists'.mp hdecided
    obtain ⟨⟨v, hev'⟩, -⟩ := h.decided cert hcert
    exact nomatch hev.symm.trans hev'
  | _ => exact ⟨h.undecided, h.decided⟩

structure Handling (C : Crypto) (vset : ValidatorSet) (ev : Event) (n m : Node) : Prop where
  fits : ev.Fits m
  chain : ChainInv m
  cert : CertInv C vset m
  deciding : n.state.decided = none → Deciding ev n m

lemma Handling.micro {E : Env} {S : Signer} {vset : ValidatorSet} {loose : Prop} {n m m' : Node}
    (hstep : Micro E S ev loose m m') (h : Handling E.crypto vset ev n m) :
    Handling E.crypto vset ev n m' where
  fits := h.fits.micro hstep
  chain := h.chain.micro hstep h.fits
  cert := h.cert.micro hstep
  deciding hopen := (h.deciding hopen).micro hstep h.chain h.cert.votes

/-- **Committed blocks extend the chain, if nothing foreign is handed in.** -/
theorem commits_onChain (E : Env) (S : Signer) (cfg : Config) (vset : ValidatorSet)
    (height : Height) (prev : Hash32) (app : KvState) (stakes : StakeLedger)
    (guard : Option GuardState) (store : BTreeMap Hash32 Block) (cache : Merkle.RootCache)
    (evs : List (Io × Event))
    (hstore : ∀ (id : Hash32) b, store[id]? = some b → b.header.height < height)
    (hfits : Along E S (fun n _ ev => ev.Fits n)
      (.start (.new cfg vset height prev app stakes guard) store cache) evs) :
    Along E S (CommitsOnChain E S)
      (.start (.new cfg vset height prev app stakes guard) store cache) evs := by
  have hstart : ChainInv (.start (.new cfg vset height prev app stakes guard) store cache) := by
    refine ⟨fun id b hb => UInt64.le_of_lt (hstore id b hb), fun _ id b hb heq => ?_,
      fun r pk v id b hlookup => ?_⟩
    · exact absurd heq (UInt64.ne_of_lt (hstore id b hb))
    · simp [Engine.lookupVote, Node.start, Engine.new] at hlookup
  have hstart' : CertInv E.crypto vset
      (.start (.new cfg vset height prev app stakes guard) store cache) :=
    ⟨rfl, Engine.votesSound_empty _ _ _, fun cert h => absurd h.symm (Option.some_ne_none cert)⟩
  refine hfits.imp (I := fun n => ChainInv n ∧ CertInv E.crypto vset n) ?_ ⟨hstart, hstart'⟩
  rintro n io ev hev ⟨hchain, hcert⟩
  have hfirst : Handling E.crypto vset ev n n :=
    ⟨hev, hchain, hcert, fun hopen => ⟨fun _ => ⟨rfl, rfl, rfl⟩,
      fun cert h => absurd (h.symm.trans hopen) (Option.some_ne_none cert)⟩⟩
  have hexec : Handling E.crypto vset ev n ((ev.prog E S io).exec n) :=
    Event.exec_invariant (fun _ _ => Handling.micro) hfirst
  exact ⟨fun cert hopen hdecided => ((hexec.deciding hopen).decided cert hdecided).2,
    hexec.chain, hexec.cert⟩

lemma fits_of_vote {n : Node} {v : Vote} (h : ∀ (id : Hash32) b, v.blockId = some id →
    n.store[id]? = some b → b.header.height = n.state.height) :
    (Event.message (.vote v)).Fits n where
  blocks b hb := absurd rfl (hb.not_vote v)
  precommits v' id b hev _ hid hb := by
    cases hev
    exact h id b hid hb

theorem commits_onChain_single :
    (runEvents .demo (.demo demoPk) (.demo [⟨demoPk, 1⟩]) demoEvents).state.decided.isSome = true ∧
      Along .demo (.demo demoPk) (CommitsOnChain .demo (.demo demoPk)) (.demo [⟨demoPk, 1⟩])
        demoEvents := by
  refine ⟨by decide +kernel, ?_⟩
  have hheight : ∀ n : Node, n.state.height = 2 ∧ n.store[demoId]?.all (·.header.height = 2) →
      ∀ vt, (Event.message (.vote (.demo demoPk vt 0 (some demoId)))).Fits n := by
    rintro n ⟨hn, hall⟩ vt
    refine fits_of_vote fun id b hid hb => ?_
    cases hid
    rw [hb] at hall
    exact (of_decide_eq_true hall).trans hn.symm
  have htick : ((Event.tick 1 fun _ => []).Fits (.demo [⟨demoPk, 1⟩])) := by
    refine ⟨?_, fun v id b h => nomatch h⟩
    rintro b (h | ⟨p, h, -⟩) <;> cases h
  exact commits_onChain .demo (.demo demoPk) {} ⟨[⟨demoPk, 1⟩]⟩ 2 (.ofNat 0) {} {}
    (some { lastModified := 0 }) ∅ (.empty _ _ _) demoEvents (fun id b hb => by simp at hb)
    (.cons htick (.cons (hheight _ (by decide +kernel) _)
      (.cons (hheight _ (by decide +kernel) _) trivial)))

/-! ### A foreign block -/

def validatorKey (i : ℕ) : PublicKeyBytes := List.replicate 32 (UInt8.ofNat i)

def demoVals : List Validator := [1, 2, 3, 4].map fun i => ⟨validatorKey i, 1⟩

def foreignBlock : Block where
  header :=
    { height := 9, round := 0, prev := .ofNat 99, proposerPk := validatorKey 3
      txRoot := txRoot .demo [], receiptsRoot := receiptsRoot .demo []
      stateRoot := (({} : KvState).root .demo (.empty _ _ _)).1
      baseFeePerGas := 5, gasUsed := 0, intrinsicGasUsed := 0, execGasUsed := 0, vmGasUsed := 0
      evmGasUsed := 0, chainId := defaultChainId, timestamp := 0, protocolVersion := 1 }
  txs := []

def foreignId : Hash32 := foreignBlock.id .demo

def foreignEvents : List Event :=
  [.message (.proposal
    { height := 2, round := 0, proposer := validatorKey 3, blockId := foreignId
      block := some foreignBlock, polRound := none
      signature := validatorKey 3 ++ proposalSignBytes 2 0 foreignId none })] ++
  ([1, 2, 3].map fun i => .message (.vote (.demo (validatorKey i) .prevote 0 (some foreignId)))) ++
  ([2, 3].map fun i => .message (.vote (.demo (validatorKey i) .precommit 0 (some foreignId))))

def foreignRun : Node :=
  runEvents .demo (.demo (validatorKey 1)) (.demo demoVals) (foreignEvents.map fun ev => ({}, ev))

def foreignVote : Event :=
  .message (.vote (.demo (validatorKey 1) .precommit 0 (some foreignId)))

/-- **A block off the chain is committed**: at height 2, on block 0 and at a base fee of 1, the
engine decides a block of height 9 with another parent and a base fee of 5. -/
theorem commits_foreign_block :
    (foreignRun.state.height = 2 ∧ foreignRun.prevBlockId = .ofNat 0 ∧
      foreignRun.baseFeePerGas = 1) ∧
    ¬ CommitsOnChain .demo (.demo (validatorKey 1)) foreignRun {} foreignVote := by
  have hrun : (foreignRun.state.height = 2 ∧ foreignRun.prevBlockId = .ofNat 0 ∧
      foreignRun.baseFeePerGas = 1) ∧ foreignRun.state.decided = none ∧
      (((foreignVote.prog .demo (.demo (validatorKey 1)) {}).exec foreignRun).state.decided.map
        (·.blockId) = some foreignId ∧
      ((foreignVote.prog .demo (.demo (validatorKey 1)) {}).exec foreignRun).store[foreignId]? =
        some foreignBlock) := by decide +kernel
  obtain ⟨hengine, hopen, hdecides, hstored⟩ := hrun
  refine ⟨hengine, fun hcommits => ?_⟩
  obtain ⟨cert, hcert, hid⟩ := Option.map_eq_some_iff.mp hdecides
  obtain ⟨block, hblock, hchain⟩ := hcommits cert hopen hcert
  rw [hid, hstored] at hblock
  cases hblock
  exact absurd (hchain.height.trans hengine.1) (by decide)

end Iona
