import Iona.Consensus.Run

/-! # Commit certificates -/

namespace Iona

open Std.ExtTreeMap

namespace Engine

open MapSum

/-! ### The vote maps -/

def lookupVote (votes : Votes) (r : Round) (vt : VoteType) (pk : PublicKeyBytes) : Option Vote := do
  let rt ← votes[r]?
  let vs ← rt[vt]?
  vs[pk]?

variable {engine : Engine}

lemma lookupVote_of_votesOf {r : Round} {vt : VoteType} {vs : BTreeMap PublicKeyBytes Vote}
    (h : engine.votesOf r vt = some vs) (pk : PublicKeyBytes) :
    lookupVote engine.state.votes r vt pk = vs[pk]? := by
  obtain ⟨rt, hrt, hvs⟩ := Option.bind_eq_some_iff.mp h
  simp [lookupVote, hrt, hvs]

lemma lookupVote_storeVote (votes : Votes) (v : Vote) (r : Round) (vt : VoteType)
    (pk : PublicKeyBytes) : lookupVote (storeVote votes v) r vt pk =
      if r = v.round ∧ vt = v.voteType ∧ pk = v.voter then some v
      else lookupVote votes r vt pk := by
  unfold lookupVote storeVote
  by_cases hr : v.round = r
  · subst hr
    by_cases hvt : v.voteType = vt
    · subst hvt
      by_cases hpk : v.voter = pk
      · subst hpk
        simp
      · cases hrt : votes[v.round]? with
        | none => simp [hpk, Ne.symm hpk]
        | some rt =>
          cases hvs : rt[v.voteType]? <;>
            simp [getElem?_insert, hpk, Ne.symm hpk, hvs]
    · cases hrt : votes[v.round]? <;> simp [getElem?_insert, hvt, Ne.symm hvt]
  · simp [getElem?_insert, hr, Ne.symm hr]

structure Filed (C : Crypto) (vset : ValidatorSet) (height : Height) (r : Round) (vt : VoteType)
    (pk : PublicKeyBytes) (v : Vote) : Prop where
  voter : v.voter = pk
  round : v.round = r
  voteType : v.voteType = vt
  height : v.height = height
  member : vset.contains v.voter = true
  signed : C.verify v.voter v.signBytes v.signature = true

def VotesSound (C : Crypto) (vset : ValidatorSet) (height : Height) (votes : Votes) : Prop :=
  ∀ r vt pk v, lookupVote votes r vt pk = some v → Filed C vset height r vt pk v

lemma votesSound_empty (C : Crypto) (vset : ValidatorSet) (height : Height) :
    VotesSound C vset height ∅ := by
  intro r vt pk v h
  simp [lookupVote] at h

lemma VotesSound.storeVote {C : Crypto} {v : Vote}
    (h : VotesSound C engine.vset engine.state.height engine.state.votes)
    (haccept : engine.Accepts C v) :
    VotesSound C engine.vset engine.state.height (storeVote engine.state.votes v) := by
  intro r vt pk x hx
  rw [lookupVote_storeVote] at hx
  split at hx
  · rename_i hkey
    obtain ⟨rfl, rfl, rfl⟩ := hkey
    cases hx
    exact ⟨rfl, rfl, rfl, haccept.height, haccept.member, haccept.signed⟩
  · exact h r vt pk x hx

/-! ### The tally -/

lemma getD_foldl_addVote (vset : ValidatorSet) (l : List (PublicKeyBytes × Vote))
    (t : BTreeMap (Option Hash32) ℕ) (id : Option Hash32) :
    (l.foldl (fun t e => addVote vset e.1 e.2.blockId t) t)[id]?.getD 0 =
      t[id]?.getD 0 +
        ((l.filter fun e => e.2.blockId = id).map fun e => (vset.powerOf e.1).toNat).sum := by
  induction l generalizing t with
  | nil => simp
  | cons e l ih =>
    rw [List.foldl_cons, ih, addVote, getElem?_insert]
    by_cases hid : e.2.blockId = id
    · simp [hid, Nat.add_assoc]
    · simp [hid]

lemma mem_collectVotes {r : Round} {vt : VoteType} {id : Option Hash32} {v : Vote}
    (h : v ∈ engine.collectVotes r vt id) :
    v.blockId = id ∧ ∃ pk, lookupVote engine.state.votes r vt pk = some v := by
  unfold collectVotes at h
  split at h
  · simp at h
  · rename_i vs hvs
    obtain ⟨hmem, hid⟩ := List.mem_filter.mp h
    obtain ⟨⟨pk, _⟩, hentry, rfl⟩ := List.mem_map.mp hmem
    refine ⟨by simpa using hid, pk, ?_⟩
    rw [lookupVote_of_votesOf hvs]
    exact mem_toList_iff_getElem?_eq_some.mp hentry

section Sound

variable {E : Env} {engine : Engine} {r : Round} {vt : VoteType} {id : Option Hash32}
  (hsound : VotesSound E.crypto engine.vset engine.state.height engine.state.votes)

include hsound

lemma collected_filed {v : Vote} (hv : v ∈ engine.collectVotes r vt id) :
    v.voteType = vt ∧ v.height = engine.state.height ∧ v.round = r ∧ v.blockId = id ∧
      engine.vset.contains v.voter = true ∧ E.crypto.verify v.voter v.signBytes v.signature = true := by
  obtain ⟨hid, pk, hlookup⟩ := mem_collectVotes hv
  obtain ⟨-, hround, htype, hheight, hmember, hsigned⟩ := hsound _ _ _ _ hlookup
  exact ⟨htype, hheight, hround, hid, hmember, hsigned⟩

lemma key_eq_voter {vs : BTreeMap PublicKeyBytes Vote} (hvs : engine.votesOf r vt = some vs)
    {e : PublicKeyBytes × Vote} (he : e ∈ vs.toList) : e.1 = e.2.voter := by
  obtain ⟨pk, v⟩ := e
  refine (hsound r vt pk v ?_).voter.symm
  rw [lookupVote_of_votesOf hvs]
  exact mem_toList_iff_getElem?_eq_some.mp he

lemma tally_eq_sum_collectVotes {pow : ℕ} (h : engine.tally E r vt = some (id, pow)) :
    pow = ((engine.collectVotes r vt id).map fun v => (engine.vset.powerOf v.voter).toNat).sum := by
  obtain ⟨vs, hvs, hbest⟩ := Option.bind_eq_some_iff.mp h
  have hentry := E.tally.best_mem hbest
  rw [foldl_eq_foldl_toList] at hentry
  have hsum := getD_foldl_addVote engine.vset vs.toList ∅ id
  rw [hentry] at hsum
  rw [collectVotes, hvs]
  dsimp only
  rw [List.filter_map, List.map_map]
  simp only [Option.getD_some, getElem?_empty, Option.getD_none, zero_add] at hsum
  rw [hsum]
  refine congrArg List.sum (List.map_congr_left fun e he => ?_)
  rw [key_eq_voter hsound hvs (List.mem_filter.mp he).1]
  rfl

lemma nodup_voters : ((engine.collectVotes r vt id).map Vote.voter).Nodup := by
  unfold collectVotes
  split
  · simp
  · rename_i vs hvs
    rw [List.filter_map, List.map_map, List.nodup_map_iff_inj_on ((nodup_toList vs).filter _)]
    rintro ⟨pk, v⟩ he ⟨pk', v'⟩ he' hvoter
    have hmem := (List.mem_filter.mp he).1
    have hmem' := (List.mem_filter.mp he').1
    -- one voter, so one key, so one entry
    have hkey : pk = pk' :=
      (key_eq_voter hsound hvs hmem).trans (hvoter.trans (key_eq_voter hsound hvs hmem').symm)
    subst hkey
    rw [mem_toList_iff_getElem?_eq_some] at hmem hmem'
    rw [Option.some.inj (hmem.symm.trans hmem')]

lemma Quorum.le_sum (h : engine.Quorum E vt id) :
    ∃ threshold, quorumThreshold engine.vset.totalPower = some threshold ∧ threshold.toNat ≤
      ((engine.collectVotes engine.state.round vt id).map fun v =>
        (engine.vset.powerOf v.voter).toNat).sum := by
  obtain ⟨pow, threshold, htally, hthreshold, hle⟩ := h
  exact ⟨threshold, hthreshold, tally_eq_sum_collectVotes hsound htally ▸ hle⟩

end Sound

end Engine

/-! ### Certificates -/

structure CommitCertificate.Valid (C : Crypto) (vset : ValidatorSet) (cert : CommitCertificate) :
    Prop where
  votes : ∃ round, ∀ v ∈ cert.precommits, v.voteType = .precommit ∧ v.height = cert.height ∧
    v.round = round ∧ v.blockId = some cert.blockId ∧ vset.contains v.voter = true ∧
    C.verify v.voter v.signBytes v.signature = true
  distinct : (cert.precommits.map Vote.voter).Nodup
  quorum : ∃ threshold, quorumThreshold vset.totalPower = some threshold ∧
    threshold.toNat ≤ (cert.precommits.map fun v => (vset.powerOf v.voter).toNat).sum

lemma Engine.certificate_valid {E : Env} {engine : Engine} {id : Hash32}
    (hsound : VotesSound E.crypto engine.vset engine.state.height engine.state.votes)
    (hquorum : engine.Quorum E .precommit (some id)) :
    (engine.certificate id engine.state.round).Valid E.crypto engine.vset where
  votes := ⟨engine.state.round, fun _ hv => collected_filed hsound hv⟩
  distinct := nodup_voters hsound
  quorum := hquorum.le_sum hsound

structure CertInv (C : Crypto) (vset : ValidatorSet) (n : Node) : Prop where
  same : n.vset = vset
  votes : Engine.VotesSound C n.vset n.state.height n.state.votes
  decided : ∀ cert, n.state.decided = some cert → cert.height = n.state.height ∧ cert.Valid C n.vset

lemma CertInv.micro {E : Env} {S : Signer} {vset : ValidatorSet} {ev : Event} {loose : Prop}
    {n m : Node} (hstep : Micro E S ev loose n m) (h : CertInv E.crypto vset n) :
    CertInv E.crypto vset m := by
  refine ⟨hstep.vset_eq.1.trans h.same, ?_, ?_⟩
  · cases hstep with
    | collect v hev hopen haccept => exact h.votes.storeVote haccept
    | newHeight => exact Engine.votesSound_empty _ _ _
    | _ => exact h.votes
  · cases hstep with
    | decide id block proposer newState receipts cache cache' hev hopen hquorum =>
      rintro cert hcert
      cases hcert
      exact ⟨rfl, Engine.certificate_valid h.votes hquorum⟩
    | newHeight => exact fun _ hcert => nomatch hcert
    | _ => exact h.decided

/-- **Commit certificates are valid**: whatever the events, the certificate of a decided engine is
one for its height and validator set. -/
theorem decided_valid (E : Env) (S : Signer) (cfg : Config) (vset : ValidatorSet) (height : Height)
    (prev : Hash32) (app : KvState) (stakes : StakeLedger) (guard : Option GuardState)
    (store : BTreeMap Hash32 Block) (cache : Merkle.RootCache) (evs : List (Io × Event))
    {n : Node} {cert : CommitCertificate}
    (hrun : runEvents E S (.start (.new cfg vset height prev app stakes guard) store cache) evs = n)
    (hcert : n.state.decided = some cert) :
    cert.height = n.state.height ∧ cert.Valid E.crypto vset := by
  have hstart : CertInv E.crypto vset
      (.start (.new cfg vset height prev app stakes guard) store cache) :=
    ⟨rfl, Engine.votesSound_empty _ _ _, fun _ h => nomatch h⟩
  have hinv : CertInv E.crypto vset n :=
    hrun ▸ runEvents_micro (fun _ _ _ _ => CertInv.micro) hstart evs
  obtain ⟨hheight, hvalid⟩ := hinv.decided cert hcert
  exact ⟨hheight, hinv.same ▸ hvalid⟩

theorem decided_valid_single : ∃ n cert,
    runEvents .demo (.demo demoPk) (.demo [⟨demoPk, 1⟩]) demoEvents = n ∧
      n.state.decided = some cert ∧ cert.height = n.state.height ∧
      cert.Valid .demo ⟨[⟨demoPk, 1⟩]⟩ := by
  have hsome : (runEvents .demo (.demo demoPk) (.demo [⟨demoPk, 1⟩])
      demoEvents).state.decided.isSome = true := by decide +kernel
  obtain ⟨cert, hcert⟩ := Option.isSome_iff_exists.mp hsome
  exact ⟨_, cert, rfl, hcert, decided_valid .demo (.demo demoPk) {} ⟨[⟨demoPk, 1⟩]⟩ 2 (.ofNat 0) {} {}
    (some { lastModified := 0 }) ∅ (.empty _ _ _) demoEvents rfl hcert⟩

end Iona
