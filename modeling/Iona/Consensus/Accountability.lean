import Iona.Consensus.Run

/-! # Who is slashed -/

namespace Iona

structure Vote.Conflicts (C : Crypto) (pk : PublicKeyBytes) (v v' : Vote) : Prop where
  voter : v.voter = pk
  voter' : v'.voter = pk
  signed : C.verify pk v.signBytes v.signature = true
  signed' : C.verify pk v'.signBytes v'.signature = true
  voteType : v.voteType = v'.voteType
  height : v.height = v'.height
  round : v.round = v'.round
  blockId : v.blockId ≠ v'.blockId

structure Proposal.Conflicts (C : Crypto) (pk : PublicKeyBytes) (p p' : Proposal) : Prop where
  proposer : p.proposer = pk
  proposer' : p'.proposer = pk
  signed : C.verify pk p.signBytes p.signature = true
  signed' : C.verify pk p'.signBytes p'.signature = true
  height : p.height = p'.height
  round : p.round = p'.round
  blockId : p.blockId ≠ p'.blockId

def ConsensusMsg.votes : ConsensusMsg → List Vote
  | .vote v => [v]
  | .evidence (.doubleVote _ _ _ _ _ _ voteA voteB) => [voteA, voteB]
  | _ => []

def ConsensusMsg.proposals : ConsensusMsg → List Proposal
  | .proposal p => [p]
  | .evidence (.doubleProposal _ _ _ _ _ proposalA proposalB) => [proposalA, proposalB]
  | _ => []

def Equivocated (C : Crypto) (seen : ConsensusMsg → Prop) (pk : PublicKeyBytes) : Prop :=
  (∃ v v' msg msg', seen msg ∧ seen msg' ∧ v ∈ msg.votes ∧ v' ∈ msg'.votes ∧
    Vote.Conflicts C pk v v') ∨
  ∃ p p' msg msg', seen msg ∧ seen msg' ∧ p ∈ msg.proposals ∧ p' ∈ msg'.proposals ∧
    Proposal.Conflicts C pk p p'

def Evidence.Genuine (C : Crypto) : Evidence → Prop
  | .doubleVote voter _ _ _ _ _ voteA voteB => Vote.Conflicts C voter voteA voteB
  | .doubleProposal proposer _ _ _ _ proposalA proposalB =>
    Proposal.Conflicts C proposer proposalA proposalB

def StakeLedger.Harmless (C : Crypto) (ledger : StakeLedger) (evidence : Evidence) : Prop :=
  evidence.Genuine C ∨ evidence.offender ∉ ledger.validators ∨
    (evidence.height, evidence.offender) ∈ ledger.processedEvidence

def Event.Harmless (C : Crypto) (n : Node) (ev : Event) : Prop :=
  ∀ evidence, ev = .message (.evidence evidence) → n.stakes.Harmless C evidence

lemma StakeLedger.Harmless.applyEvidence {C : Crypto} {ledger ledger' : StakeLedger}
    {evidence other : Evidence} {h : Height} {res : Except SlashingError Unit}
    (hharmless : ledger.Harmless C evidence)
    (happ : ledger.applyEvidence other h = some (res, ledger')) : ledger'.Harmless C evidence := by
  rcases hharmless with hgenuine | hunknown | hdone
  · exact .inl hgenuine
  · refine .inr (.inl fun hmem => hunknown ?_)
    -- only records that are there change
    by_contra hnot
    have hne : ledger'.validators[evidence.offender]? ≠ ledger.validators[evidence.offender]? := by
      rw [Std.ExtTreeMap.getElem?_eq_none hnot]
      intro hnone
      rw [Std.ExtTreeMap.mem_iff_isSome_getElem?, hnone] at hmem
      cases hmem
    exact hnot (applyEvidence_changes happ hne).2.1
  · exact .inr (.inr (mem_processedEvidence_of_applyEvidence happ hdone))

structure SlashInv (C : Crypto) (seen : ConsensusMsg → Prop) (ledger : StakeLedger) (n : Node) :
    Prop where
  index : ∀ key bid v, n.state.voteIndex[key]? = some (bid, v) → Engine.indexKey v = key ∧
    v.blockId = bid ∧ C.verify v.voter v.signBytes v.signature = true ∧
    ∃ msg, seen msg ∧ v ∈ msg.votes
  records : ∀ pk : PublicKeyBytes,
    n.stakes.validators[pk]? = ledger.validators[pk]? ∨ Equivocated C seen pk

section Steps

variable {E : Env} {S : Signer} {ev : Event} {loose : Prop} {n m : Node}
  {seen : ConsensusMsg → Prop} {ledger : StakeLedger}

variable {evidence : Evidence}

lemma Event.Harmless.micro (hstep : Micro E S ev loose n m) (h : ev.Harmless E.crypto n) :
    ev.Harmless E.crypto m := by
  cases hstep with
  | slash evidence res stakes hsource happly =>
    exact fun evidence' hev => (h evidence' hev).applyEvidence happly
  | _ => exact h

lemma SlashInv.equivocated_of_detects (h : SlashInv E.crypto seen ledger n) {v : Vote}
    (hseen : seen (.vote v)) (haccept : n.Accepts E.crypto v) (hdetect : n.Detects v evidence) :
    Equivocated E.crypto seen evidence.offender := by
  obtain ⟨prevBid, prevVote, hindex, hne, rfl⟩ := hdetect
  obtain ⟨hkey, rfl, hsigned, msg, hmsg, hprev⟩ := h.index _ _ _ hindex
  simp only [Engine.indexKey, Prod.mk.injEq] at hkey
  obtain ⟨hvoter, hheight, hround, htype⟩ := hkey
  exact .inl ⟨prevVote, v, msg, .vote v, hmsg, hseen, hprev, List.mem_singleton_self v,
    hvoter, rfl, hvoter ▸ hsigned, haccept.signed, htype, hheight, hround, hne⟩

lemma Evidence.Genuine.equivocated {C : Crypto} (h : evidence.Genuine C)
    (hseen : seen (.evidence evidence)) : Equivocated C seen evidence.offender := by
  cases evidence with
  | doubleVote voter _ _ _ _ _ voteA voteB =>
    exact .inl ⟨voteA, voteB, _, _, hseen, hseen, by simp [ConsensusMsg.votes],
      by simp [ConsensusMsg.votes], h⟩
  | doubleProposal proposer _ _ _ _ proposalA proposalB =>
    exact .inr ⟨proposalA, proposalB, _, _, hseen, hseen, by simp [ConsensusMsg.proposals],
      by simp [ConsensusMsg.proposals], h⟩

lemma SlashInv.micro (hseen : ∀ msg, ev = .message msg → seen msg)
    (hharmless : ev.Harmless E.crypto n) (hstep : Micro E S ev loose n m)
    (h : SlashInv E.crypto seen ledger n) : SlashInv E.crypto seen ledger m := by
  cases hstep with
  | slash evidence res stakes hsource happly =>
    refine ⟨h.index, fun pk => ?_⟩
    by_cases hsame : stakes.validators[pk]? = n.stakes.validators[pk]?
    · rcases h.records pk with hold | hequiv
      · exact .inl (hsame.trans hold)
      · exact .inr hequiv
    · obtain ⟨rfl, hmember, hfresh⟩ := StakeLedger.applyEvidence_changes happly hsame
      right
      rcases hsource with hev | ⟨v, hev, haccept, hdetect⟩
      · rcases hharmless evidence hev with hgenuine | hunknown | hdone
        · exact hgenuine.equivocated (hseen _ hev)
        · exact absurd hmember hunknown
        · exact absurd hdone hfresh
      · exact h.equivocated_of_detects (hseen _ hev) haccept hdetect
  | index v hev haccept =>
    refine ⟨fun key bid v' hv' => ?_, h.records⟩
    rw [Std.ExtTreeMap.getElem?_insert] at hv'
    split at hv'
    · rename_i hkey
      cases hv'
      exact ⟨Std.LawfulEqOrd.eq_of_compare hkey, rfl, haccept.signed, _, hseen _ hev,
        List.mem_singleton_self _⟩
    · exact h.index key bid v' hv'
  | newHeight =>
    refine ⟨fun key bid v hv => ?_, h.records⟩
    simp at hv
  | _ => exact ⟨h.index, h.records⟩

end Steps

def Delivered (evs : List (Io × Event)) (msg : ConsensusMsg) : Prop :=
  ∃ io, (io, .message msg) ∈ evs

/-- **Only equivocators are slashed, if the evidence handed in is harmless.** -/
theorem record_unchanged_or_equivocated (E : Env) (S : Signer) (cfg : Config) (vset : ValidatorSet)
    (height : Height) (prev : Hash32) (app : KvState) (stakes : StakeLedger)
    (guard : Option GuardState) (store : BTreeMap Hash32 Block) (cache : Merkle.RootCache)
    (evs : List (Io × Event))
    (hharmless : Along E S (fun n _ ev => ev.Harmless E.crypto n)
      (.start (.new cfg vset height prev app stakes guard) store cache) evs)
    (pk : PublicKeyBytes) :
    (runEvents E S (.start (.new cfg vset height prev app stakes guard) store cache)
        evs).stakes.validators[pk]? = stakes.validators[pk]? ∨
      Equivocated E.crypto (Delivered evs) pk := by
  have hinv : SlashInv E.crypto (Delivered evs) stakes
      (runEvents E S (.start (.new cfg vset height prev app stakes guard) store cache) evs) := by
    refine runEvents_invariant ?_ (hharmless.mem fun _ h => h) ?_
    · rintro n io ev ⟨hev, hmem⟩ hn
      have hseen : ∀ msg, ev = .message msg → Delivered evs msg := by
        rintro msg rfl
        exact ⟨io, hmem⟩
      -- the evidence is harmless in every state the event passes through
      refine (Event.exec_invariant (I := fun m => ev.Harmless E.crypto m ∧
        SlashInv E.crypto (Delivered evs) stakes m) ?_ ⟨hev, hn⟩).2
      rintro m m' hstep ⟨hm, hinv⟩
      exact ⟨hm.micro hstep, hinv.micro hseen hm hstep⟩
    · refine ⟨fun key bid v hv => ?_, fun _ => .inl rfl⟩
      simp [Node.start, Engine.new] at hv
  exact hinv.records pk

def demoStaked : Node :=
  .start (.new {} ⟨[⟨demoPk, 1⟩]⟩ 2 (.ofNat 0) {}
    { validators := (∅ : BTreeMap PublicKeyBytes ValidatorRecord).insert demoPk { stake := 100 } }
    none) ∅ (.empty _ _ _)

def demoEvidence (sign : List UInt8 → SignatureBytes) : Evidence :=
  let vote (id : Option Hash32) : Vote :=
    { voteType := .prevote, height := 1, round := 0, voter := demoPk, blockId := id
      signature := sign (voteSignBytes .prevote 1 0 id) }
  .doubleVote demoPk 1 0 .prevote (some (.ofNat 7)) none (vote (some (.ofNat 7))) (vote none)

/-- Genuine evidence slashes its offender, who equivocated. -/
theorem slashed_for_genuine_evidence : Equivocated .demo
    (Delivered [({}, .message (.evidence (demoEvidence (demoPk ++ ·))))]) demoPk := by
  refine (record_unchanged_or_equivocated .demo (.demo demoPk) {} ⟨[⟨demoPk, 1⟩]⟩ 2 (.ofNat 0) {}
    { validators := (∅ : BTreeMap PublicKeyBytes ValidatorRecord).insert demoPk { stake := 100 } }
    none ∅ (.empty _ _ _) _ ?_ demoPk).resolve_left (by decide +kernel)
  refine ⟨?_, ?_⟩
  · rintro evidence hev
    cases hev
    exact .inl ⟨rfl, rfl, by decide +kernel, by decide +kernel, rfl, rfl, rfl, by decide⟩
  · split <;> trivial

/-- **A validator is slashed for nothing**: one message of evidence that nobody signed takes a
twentieth of its stake and jails it, though no two of its messages conflict. -/
theorem forged_evidence_slashes :
    (runEvents .demo (.demo demoPk) demoStaked
        [({}, .message (.evidence (demoEvidence fun _ => [])))]).stakes.validators[demoPk]? =
      some { stake := 95, slashedTotal := 5, status := .jailed 2 1, jailedAt := some 2 } ∧
    ¬ Equivocated .demo (Delivered [({}, .message (.evidence (demoEvidence fun _ => [])))])
      demoPk := by
  refine ⟨by decide +kernel, ?_⟩
  rintro (⟨v, v', msg, msg', ⟨io, hmsg⟩, -, hv, -, hconf⟩ | ⟨p, p', msg, msg', ⟨io, hmsg⟩, -, hp, -⟩)
  · simp only [List.mem_singleton, Prod.mk.injEq, Event.message.injEq] at hmsg
    obtain ⟨-, rfl⟩ := hmsg
    have hsig : v.signature = [] := by
      simp only [demoEvidence, ConsensusMsg.votes, List.mem_cons, List.not_mem_nil, or_false] at hv
      rcases hv with rfl | rfl <;> rfl
    have hverify := hconf.signed
    rw [hsig] at hverify
    simp [Crypto.demo, demoPk] at hverify
  · simp only [List.mem_singleton, Prod.mk.injEq, Event.message.injEq] at hmsg
    obtain ⟨-, rfl⟩ := hmsg
    simp [demoEvidence, ConsensusMsg.proposals] at hp

end Iona
