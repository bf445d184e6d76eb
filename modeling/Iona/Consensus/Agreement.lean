import Iona.Consensus.Certificate

/-!
# Agreement between honest engines

A run of several engines gives a log of ballots that is legal in the sense of `Lib.VoteLog`, whose
`Legal.agreement` then gives `engines_agree`.
-/

namespace Iona

open VoteLog Engine List

/-! ### Votes and ballots -/

def VoteType.phase : VoteType → Phase
  | .prevote => .prevote
  | .precommit => .precommit

lemma VoteType.phase_injective : Function.Injective VoteType.phase := by
  rintro (_ | _) (_ | _) h <;> first | rfl | cases h

def Vote.ballot (v : Vote) : Ballot PublicKeyBytes Hash32 where
  voter := v.voter
  phase := v.voteType.phase
  round := v.round.toNat
  value := v.blockId

section Height

variable {E : Env} {S : Signer} {vset : ValidatorSet} {faulty : Finset PublicKeyBytes}
  (hfaulty : 3 * vset.powerWhere (· ∈ faulty) < vset.power)
  {log : List (Ballot PublicKeyBytes Hash32)}

lemma hasQuorum_of_quorum (hpower : vset.power ≤ Machine.u64Max) {engine : Engine}
    (hvset : engine.vset = vset)
    (hsound : VotesSound E.crypto engine.vset engine.state.height engine.state.votes)
    (hstored : ∀ r vt pk v, lookupVote engine.state.votes r vt pk = some v → v.voter ∉ faulty →
      v.ballot ∈ log)
    {vt : VoteType} {id : Hash32} (hquorum : engine.Quorum E vt (some id)) :
    HasQuorum (vset.quorumSystem faulty hfaulty) log vt.phase engine.state.round.toNat id := by
  subst hvset
  obtain ⟨threshold, hthreshold, hle⟩ := hquorum.le_sum hsound
  refine ⟨((engine.collectVotes engine.state.round vt (some id)).map Vote.voter).toFinset,
    ⟨?_, ?_⟩, ?_⟩
  · intro pk hpk
    obtain ⟨v, hv, rfl⟩ := mem_map.mp (mem_toFinset.mp hpk)
    obtain ⟨-, pk, hlookup⟩ := mem_collectVotes hv
    exact ValidatorSet.mem_of_contains (hsound _ _ _ _ hlookup).member
  · -- the threshold of the engine is that of the system, the total power being in range
    have htotal := quorumThreshold_eq_some hthreshold
    rw [ValidatorSet.toNat_totalPower, min_eq_left hpower] at htotal
    rw [sum_toFinset _ (nodup_voters hsound), map_map]
    show engine.vset.power * 2 / 3 + 1 ≤ _
    rw [← htotal]
    exact hle
  · intro pk hpk hhonest
    obtain ⟨v, hv, rfl⟩ := mem_map.mp (mem_toFinset.mp hpk)
    obtain ⟨hid, pk, hlookup⟩ := mem_collectVotes hv
    obtain ⟨-, hround, htype, -, -, -⟩ := hsound _ _ _ _ hlookup
    have hmem := hstored _ _ _ _ hlookup hhonest
    rwa [Vote.ballot, htype, hround, hid] at hmem

/-! ### One engine and the log -/

structure VoterInv (C : Crypto) (height : Height) (k : PublicKeyBytes)
    (log : List (Ballot PublicKeyBytes Hash32)) (n : Node) : Prop where
  sameSet : n.vset = vset
  sameHeight : n.state.height = height
  sound : VotesSound C n.vset n.state.height n.state.votes
  stored : ∀ r vt pk v, lookupVote n.state.votes r vt pk = some v → v.voter ∉ faulty →
    v.ballot ∈ log
  guard : ∃ g, n.dsGuard = some g ∧ ∀ v, .broadcast (.vote v) ∈ n.trace →
    g.HasVote v.voteType v.height v.round v.blockId
  sent : ∀ v, .broadcast (.vote v) ∈ n.trace → v.voter = k ∧ v.height = height ∧
    v.round.toNat ≤ n.state.round.toNat ∧ v.ballot ∈ log
  logged : ∀ b ∈ log, b.voter = k → ∃ v, .broadcast (.vote v) ∈ n.trace ∧ v.ballot = b
  locked : ∀ id, n.state.lockedValue = some id → ∃ r, n.state.lockedRound = some r ∧
    HasQuorum (vset.quorumSystem faulty hfaulty) log .prevote r.toNat id
  precommitted : ∀ v, .broadcast (.vote v) ∈ n.trace → v.voteType = .precommit →
    ∃ r id, n.state.lockedRound = some r ∧ n.state.lockedValue = some id ∧
      v.round.toNat ≤ r.toNat
  decided : ∀ cert, n.state.decided = some cert → ∃ r : ℕ,
    HasQuorum (vset.quorumSystem faulty hfaulty) log .precommit r cert.blockId

variable {hfaulty} {C : Crypto} {height : Height} {k : PublicKeyBytes} {n m : Node}

lemma VoterInv.mono {log' : List (Ballot PublicKeyBytes Hash32)}
    (h : VoterInv hfaulty C height k log n) (hsub : log ⊆ log')
    (hnew : ∀ b ∈ log', b.voter = k → b ∈ log) : VoterInv hfaulty C height k log' n where
  sameSet := h.sameSet
  sameHeight := h.sameHeight
  sound := h.sound
  stored r vt pk v hv hhonest := hsub (h.stored r vt pk v hv hhonest)
  guard := h.guard
  sent v hv := by
    obtain ⟨hvoter, hheight, hround, hmem⟩ := h.sent v hv
    exact ⟨hvoter, hheight, hround, hsub hmem⟩
  logged b hb hvoter := h.logged b (hnew b hb hvoter) hvoter
  locked id hid := by
    obtain ⟨r, hr, hquorum⟩ := h.locked id hid
    exact ⟨r, hr, hquorum.mono hsub⟩
  precommitted := h.precommitted
  decided cert hcert := by
    obtain ⟨r, hquorum⟩ := h.decided cert hcert
    exact ⟨r, hquorum.mono hsub⟩

lemma VoterInv.rules (h : VoterInv hfaulty C height k log n) {vt : VoteType} {id : Option Hash32}
    (hguard : n.CoversVote vt id) (hrule : n.state.MayVote False vt id) :
    Rules (vset.quorumSystem faulty hfaulty) log
      ⟨k, vt.phase, n.state.round.toNat, id⟩ where
  once b hb hvoter hphase hround := by
    obtain ⟨v, hv, rfl⟩ := h.logged b hb hvoter
    obtain ⟨-, hheight, -, -⟩ := h.sent v hv
    obtain ⟨g, hg, hrecords⟩ := h.guard
    have hnew := hguard g hg
    have hold := hrecords v hv
    rw [VoteType.phase_injective hphase, hheight, UInt32.toNat_inj.mp hround, ← h.sameHeight] at hold
    exact hold.unique hnew
  forward b hb hvoter := by
    obtain ⟨v, hv, rfl⟩ := h.logged b hb hvoter
    exact (h.sent v hv).2.2.1
  supported v hphase hvalue := by
    have htype : vt = .precommit := VoteType.phase_injective hphase
    subst htype hvalue
    obtain ⟨-, hvalue, hround⟩ := hrule
    obtain ⟨r, hr, hquorum⟩ := h.locked v hvalue
    cases hr.symm.trans hround
    exact hquorum
  locked v w r hphase hvalue hmem hne := by
    have htype : vt = .prevote := VoteType.phase_injective hphase
    subst htype hvalue
    -- the precommit for `v` was sent, so the lock is at least as new
    obtain ⟨x, hx, hballot⟩ := h.logged _ hmem rfl
    have hxtype : x.voteType = .precommit := VoteType.phase_injective (congrArg Ballot.phase hballot)
    obtain ⟨r', id', hr', hid', hle⟩ := h.precommitted x hx hxtype
    have hround : x.round.toNat = r := congrArg Ballot.round hballot
    rcases hrule with hfalse | hnone | hw
    · exact hfalse.elim
    · exact nomatch hnone.symm.trans hid'
    · obtain ⟨r'', hr'', hquorum⟩ := h.locked w hw
      cases hr'.symm.trans hr''
      exact ⟨r'.toNat, w, hround ▸ hle, hne, hquorum⟩

lemma VoterInv.effect (h : VoterInv hfaulty C height k log n) {effect : Effect}
    {guard : Option GuardState} (hne : ∀ v, effect ≠ .broadcast (.vote v))
    (hguard : ∀ g, n.dsGuard = some g → ∃ st, guard = some st ∧ g.Extends st) :
    VoterInv hfaulty C height k log { n with dsGuard := guard, trace := effect :: n.trace } := by
  have hold : ∀ v, .broadcast (.vote v) ∈ effect :: n.trace → .broadcast (.vote v) ∈ n.trace := by
    intro v hv
    rcases mem_cons.mp hv with heq | hv
    · exact absurd heq.symm (hne v)
    · exact hv
  refine ⟨h.sameSet, h.sameHeight, h.sound, h.stored, ?_, fun v hv => h.sent v (hold v hv), ?_,
    h.locked, fun v hv => h.precommitted v (hold v hv), h.decided⟩
  · obtain ⟨g, hg, hrecords⟩ := h.guard
    obtain ⟨st, hst, hext⟩ := hguard g hg
    exact ⟨st, hst, fun v hv => hext.votes _ _ (hrecords v (hold v hv))⟩
  · intro b hb hvoter
    obtain ⟨v, hv, hballot⟩ := h.logged b hb hvoter
    exact ⟨v, mem_cons_of_mem _ hv, hballot⟩

lemma VoterInv.send (h : VoterInv hfaulty C height k log n) {v : Vote} (hvoter : v.voter = k)
    (hheight : v.height = n.state.height) (hround : v.round = n.state.round)
    (hguard : n.CoversVote v.voteType v.blockId)
    (hrule : n.state.MayVote False v.voteType v.blockId) :
    VoterInv hfaulty C height k (v.ballot :: log)
      { n with trace := .broadcast (.vote v) :: n.trace } := by
  have hmono : log ⊆ v.ballot :: log := subset_cons_self _ _
  -- a vote that was sent is the new one or an old one
  have hcases : ∀ x : Vote, .broadcast (.vote x) ∈ Effect.broadcast (.vote v) :: n.trace →
      x = v ∨ .broadcast (.vote x) ∈ n.trace := by
    intro x hx
    rcases mem_cons.mp hx with heq | hx
    · cases heq
      exact .inl rfl
    · exact .inr hx
  obtain ⟨g, hg, hrecords⟩ := h.guard
  refine ⟨h.sameSet, h.sameHeight, h.sound, fun r vt pk x hx hf => hmono (h.stored r vt pk x hx hf),
    ⟨g, hg, fun x hx => ?_⟩, fun x hx => ?_, fun b hb hk => ?_, fun id hid => ?_, fun x hx htype => ?_,
    fun cert hcert => ?_⟩
  · rcases hcases x hx with rfl | hold
    · rw [hheight, hround]
      exact hguard g hg
    · exact hrecords x hold
  · rcases hcases x hx with rfl | hold
    · exact ⟨hvoter, hheight.trans h.sameHeight, Nat.le_of_eq (congrArg _ hround), mem_cons_self⟩
    · obtain ⟨hvoter', hheight', hle, hmem⟩ := h.sent x hold
      exact ⟨hvoter', hheight', hle, hmono hmem⟩
  · rcases mem_cons.mp hb with rfl | hb
    · exact ⟨v, mem_cons_self, rfl⟩
    · obtain ⟨x, hx, hballot⟩ := h.logged b hb hk
      exact ⟨x, mem_cons_of_mem _ hx, hballot⟩
  · obtain ⟨r, hr, hquorum⟩ := h.locked id hid
    exact ⟨r, hr, hquorum.mono hmono⟩
  · rcases hcases x hx with rfl | hold
    · rw [htype] at hrule
      obtain ⟨hsome, hvalue, hlocked⟩ := hrule
      obtain ⟨id, hid⟩ := Option.ne_none_iff_exists'.mp hsome
      exact ⟨n.state.round, id, hlocked, hvalue.trans hid, Nat.le_of_eq (congrArg _ hround)⟩
    · exact h.precommitted x hold htype
  · obtain ⟨r, hquorum⟩ := h.decided cert hcert
    exact ⟨r, hquorum.mono hmono⟩

lemma VoterInv.micro {ev : Event} (hpower : vset.power ≤ Machine.u64Max)
    (hheight : ev ≠ .nextHeight)
    (hauth : ∀ v, ev = .message (.vote v) → v.voter ∉ faulty →
      E.crypto.verify v.voter v.signBytes v.signature = true → v.height = height → v.ballot ∈ log)
    (hkey : S.publicKey = k) (hstep : Micro E S ev False n m)
    (hlegal : Legal (vset.quorumSystem faulty hfaulty) log)
    (h : VoterInv hfaulty E.crypto height k log n) :
    ∃ new, (∀ b ∈ new, b.voter = k) ∧ Legal (vset.quorumSystem faulty hfaulty) (new ++ log) ∧
      VoterInv hfaulty E.crypto height k (new ++ log) m := by
  -- all steps but one leave the log as it is
  have hsame : VoterInv hfaulty E.crypto height k log m →
      ∃ new, (∀ b ∈ new, b.voter = k) ∧ Legal (vset.quorumSystem faulty hfaulty) (new ++ log) ∧
        VoterInv hfaulty E.crypto height k (new ++ log) m :=
    fun hm => ⟨[], by simp, hlegal, hm⟩
  cases hstep with
  | vote vt id hopen hguard hrule =>
    refine ⟨[⟨k, vt.phase, n.state.round.toNat, id⟩], by simp, ?_, ?_⟩
    · exact ⟨fun _ => h.rules hguard hrule, hlegal⟩
    · subst hkey
      exact h.send (v := ⟨vt, n.state.height, n.state.round, S.publicKey, id, _⟩) rfl rfl rfl hguard
        hrule
  | save g st hg hext =>
    refine hsame (h.effect (fun _ => Effect.noConfusion) fun g' hg' => ⟨st, rfl, ?_⟩)
    cases hg.symm.trans hg'
    exact hext
  | propose id block hguard =>
    refine hsame (h.effect (fun _ heq => ?_) fun g hg => ⟨g, hg, .refl g⟩)
    cases heq
  | tell effect hunsigned =>
    refine hsame (h.effect (fun v heq => ?_) fun g hg => ⟨g, hg, .refl g⟩)
    rw [heq] at hunsigned
    exact hunsigned
  | collect v hev hopen haccept =>
    refine hsame ⟨h.sameSet, h.sameHeight, h.sound.storeVote haccept, ?_, h.guard, h.sent, h.logged,
      h.locked, h.precommitted, h.decided⟩
    intro r vt pk x hx hhonest
    rw [lookupVote_storeVote] at hx
    split at hx
    · cases hx
      exact hauth _ hev hhonest haccept.signed (haccept.height.trans h.sameHeight)
    · exact h.stored r vt pk x hx hhonest
  | lock id hev hopen hquorum =>
    have hlog := hasQuorum_of_quorum hfaulty hpower h.sameSet h.sound h.stored hquorum
    refine hsame ⟨h.sameSet, h.sameHeight, h.sound, h.stored, h.guard, h.sent, h.logged, ?_, ?_,
      h.decided⟩
    · rintro id' hid'
      cases hid'
      exact ⟨n.state.round, rfl, hlog⟩
    · intro v hv htype
      exact ⟨n.state.round, id, rfl, rfl, (h.sent v hv).2.2.1⟩
  | decide id block proposer newState receipts cache cache' hev hopen hquorum =>
    have hlog := hasQuorum_of_quorum hfaulty hpower h.sameSet h.sound h.stored hquorum
    refine hsame ⟨h.sameSet, h.sameHeight, h.sound, h.stored, h.guard, h.sent, h.logged, h.locked,
      h.precommitted, ?_⟩
    rintro cert hcert
    cases hcert
    exact ⟨_, hlog⟩
  | advance hopen hround =>
    refine hsame ⟨h.sameSet, h.sameHeight, h.sound, h.stored, h.guard, ?_, h.logged, h.locked,
      h.precommitted, h.decided⟩
    intro v hv
    obtain ⟨hvoter, hheight', hle, hmem⟩ := h.sent v hv
    refine ⟨hvoter, hheight', hle.trans ?_, hmem⟩
    rw [Machine.toNat_add_one_u32 hround]
    exact Nat.le_succ _
  | newHeight hev => exact absurd hev hheight
  | _ => exact hsame ⟨h.sameSet, h.sameHeight, h.sound, h.stored, h.guard, h.sent, h.logged,
      h.locked, h.precommitted, h.decided⟩

lemma VoterInv.exec (io : Io) {ev : Event} (hpower : vset.power ≤ Machine.u64Max)
    (hheight : ev ≠ .nextHeight) (hsafe : ev.LockSafe S n)
    (hauth : ∀ v, ev = .message (.vote v) → v.voter ∉ faulty →
      E.crypto.verify v.voter v.signBytes v.signature = true → v.height = height → v.ballot ∈ log)
    (hkey : S.publicKey = k) (hlegal : Legal (vset.quorumSystem faulty hfaulty) log)
    (h : VoterInv hfaulty E.crypto height k log n) :
    ∃ new, (∀ b ∈ new, b.voter = k) ∧ Legal (vset.quorumSystem faulty hfaulty) (new ++ log) ∧
      VoterInv hfaulty E.crypto height k (new ++ log) ((ev.prog E S io).exec n) := by
  refine Event.exec_invariant (I := fun m => ∃ new, (∀ b ∈ new, b.voter = k) ∧
    Legal (vset.quorumSystem faulty hfaulty) (new ++ log) ∧
    VoterInv hfaulty E.crypto height k (new ++ log) m) ?_ ⟨[], by simp, hlegal, h⟩
  rintro m m' hstep ⟨new, hnew, hlegal', hm⟩
  rw [eq_false (not_not_intro hsafe)] at hstep
  obtain ⟨new', hnew', hlegal'', hm'⟩ := hm.micro hpower hheight
    (fun v hev hf hsig hh => mem_append_right _ (hauth v hev hf hsig hh)) hkey hstep hlegal'
  rw [← append_assoc] at hlegal'' hm'
  refine ⟨new' ++ new, fun b hb => ?_, hlegal'', hm'⟩
  rcases mem_append.mp hb with hb | hb
  · exact hnew' b hb
  · exact hnew b hb

end Height

/-! ### Networks -/

structure Network where
  node : PublicKeyBytes → Node
  stopped : PublicKeyBytes → Bool

structure Delivery where
  target : PublicKeyBytes
  io : Io := {}
  event : Event

def Node.Signed (n : Node) (bytes : List UInt8) : Prop :=
  (∃ v : Vote, .broadcast (.vote v) ∈ n.trace ∧ v.signBytes = bytes) ∨
    ∃ p : Proposal, .broadcast (.proposal p) ∈ n.trace ∧ p.signBytes = bytes

namespace Network

variable (E : Env) (sign : PublicKeyBytes → List UInt8 → SignatureBytes)

def deliver (net : Network) (d : Delivery) : Network :=
  if net.stopped d.target then net
  else
    let res := d.event.prog E ⟨d.target, sign d.target⟩ d.io (net.node d.target)
    { node := Function.update net.node d.target res.2
      stopped := Function.update net.stopped d.target res.1.isNone }

def run (net : Network) : List Delivery → Network
  | [] => net
  | d :: ds => (net.deliver E sign d).run ds

def Along (P : Network → Delivery → Prop) (net : Network) : List Delivery → Prop
  | [] => True
  | d :: ds => P net d ∧ (net.deliver E sign d).Along P ds

def Starts (vset : ValidatorSet) (height : Height) (faulty : Finset PublicKeyBytes)
    (net : Network) : Prop :=
  ∀ k ∉ faulty, ∃ cfg prev app stakes g store cache,
    net.node k = .start (.new cfg vset height prev app stakes (some g)) store cache

structure Possible (faulty : Finset PublicKeyBytes) (net : Network) (d : Delivery) : Prop where
  honest : d.target ∉ faulty
  sameHeight : d.event ≠ .nextHeight
  unforged : ∀ v, d.event = .message (.vote v) → v.voter ∉ faulty →
    E.crypto.verify v.voter v.signBytes v.signature = true →
    (net.node v.voter).Signed v.signBytes

def LockSafe (net : Network) (d : Delivery) : Prop :=
  d.event.LockSafe ⟨d.target, sign d.target⟩ (net.node d.target)

section Proof

variable {E sign} {vset : ValidatorSet} {faulty : Finset PublicKeyBytes}
  {hfaulty : 3 * vset.powerWhere (· ∈ faulty) < vset.power} {height : Height} {net : Network}

def Inv (hfaulty : 3 * vset.powerWhere (· ∈ faulty) < vset.power) (C : Crypto) (height : Height)
    (net : Network) : Prop :=
  ∃ log, Legal (vset.quorumSystem faulty hfaulty) log ∧
    ∀ k ∉ faulty, VoterInv hfaulty C height k log (net.node k)

lemma Starts.inv (h : net.Starts vset height faulty) (C : Crypto) :
    Inv hfaulty C height net := by
  refine ⟨[], trivial, fun k hk => ?_⟩
  obtain ⟨cfg, prev, app, stakes, g, store, cache, hnode⟩ := h k hk
  rw [hnode]
  exact
    { sameSet := rfl
      sameHeight := rfl
      sound := votesSound_empty _ _ _
      stored := fun r vt pk v hv => by simp [lookupVote, Node.start, Engine.new] at hv
      guard := ⟨g, rfl, fun v hv => by simp [Node.start] at hv⟩
      sent := fun v hv => by simp [Node.start] at hv
      logged := fun b hb => by simp at hb
      locked := fun id hid => by simp [Node.start, Engine.new] at hid
      precommitted := fun v hv => by simp [Node.start] at hv
      decided := fun cert hcert => by simp [Node.start, Engine.new] at hcert }

lemma ballot_mem_of_signed {C : Crypto} {log : List (Ballot PublicKeyBytes Hash32)}
    (hinv : ∀ k ∉ faulty, VoterInv hfaulty C height k log (net.node k)) {v : Vote}
    (hhonest : v.voter ∉ faulty) (hsigned : (net.node v.voter).Signed v.signBytes) :
    v.ballot ∈ log := by
  rcases hsigned with ⟨x, hx, hbytes⟩ | ⟨p, -, hbytes⟩
  · obtain ⟨hvoter, -, -, hmem⟩ := (hinv _ hhonest).sent x hx
    obtain ⟨htype, -, hround, hid⟩ := voteSignBytes_inj hbytes
    rwa [Vote.ballot, hvoter, htype, hround, hid] at hmem
  · exact (proposalSignBytes_ne_voteSignBytes _ _ _ _ _ _ _ _ hbytes).elim

lemma Inv.deliver (hpower : vset.power ≤ Machine.u64Max) {d : Delivery}
    (hposs : Possible E faulty net d) (hsafe : LockSafe sign net d)
    (h : Inv hfaulty E.crypto height net) :
    Inv hfaulty E.crypto height (net.deliver E sign d) := by
  obtain ⟨log, hlegal, hinv⟩ := h
  unfold Network.deliver
  split
  · exact ⟨log, hlegal, hinv⟩
  · have hexec := VoterInv.exec d.io hpower hposs.sameHeight hsafe
      (fun v hev hf hsig _ => ballot_mem_of_signed hinv hf (hposs.unforged v hev hf hsig)) rfl hlegal
      (hinv d.target hposs.honest)
    obtain ⟨new, hnew, hlegal', hto⟩ := hexec
    refine ⟨new ++ log, hlegal', fun k hk => ?_⟩
    by_cases hkd : k = d.target
    · subst hkd
      simpa [Prog.exec] using hto
    · -- another engine: the new votes are not its own
      have hother := (hinv k hk).mono (subset_append_right new log) fun b hb hvoter => by
        rcases mem_append.mp hb with hb | hb
        · exact absurd (hvoter.symm.trans (hnew b hb)) hkd
        · exact hb
      simpa [Function.update_of_ne hkd] using hother

lemma Inv.run (hpower : vset.power ≤ Machine.u64Max) {ds : List Delivery}
    (hposs : net.Along E sign (fun net d => Possible E faulty net d ∧ LockSafe sign net d) ds)
    (h : Inv hfaulty E.crypto height net) : Inv hfaulty E.crypto height (net.run E sign ds) := by
  induction ds generalizing net with
  | nil => exact h
  | cons d ds ih =>
    obtain ⟨⟨hd, hsafe⟩, hrest⟩ := hposs
    exact ih hrest (h.deliver hpower hd hsafe)

end Proof

end Network

/-- **Agreement.** Correct engines that decide at one height decide the same block, in every run in
which no tick of an engine with a fast quorum passes over its lock. -/
theorem engines_agree (E : Env) (sign : PublicKeyBytes → List UInt8 → SignatureBytes)
    (vset : ValidatorSet) (faulty : Finset PublicKeyBytes) (height : Height) (net : Network)
    (ds : List Delivery) (hpower : vset.power ≤ Machine.u64Max)
    (hfaulty : 3 * vset.powerWhere (· ∈ faulty) < vset.power)
    (hstart : net.Starts vset height faulty)
    (hruns : net.Along E sign
      (fun net d => net.Possible E faulty d ∧ net.LockSafe sign d) ds)
    {k k' : PublicKeyBytes} (hk : k ∉ faulty) (hk' : k' ∉ faulty) {c c' : CommitCertificate}
    (hc : ((net.run E sign ds).node k).state.decided = some c)
    (hc' : ((net.run E sign ds).node k').state.decided = some c') : c.blockId = c'.blockId := by
  have hinit : Network.Inv hfaulty E.crypto height net := hstart.inv E.crypto
  obtain ⟨log, hlegal, hinv⟩ := hinit.run hpower hruns
  obtain ⟨r, hquorum⟩ := (hinv k hk).decided c hc
  obtain ⟨r', hquorum'⟩ := (hinv k' hk').decided c' hc'
  exact hlegal.agreement hquorum hquorum'

/-! ### Two engines, with and without a tick against the lock -/

namespace Network

variable {E : Env} {sign : PublicKeyBytes → List UInt8 → SignatureBytes}

def credible (careful : Bool) (net : Network) (d : Delivery) : Bool :=
  match d.event with
  | .message (.vote v) => (net.node v.voter).trace.any fun
    | .broadcast (.vote x) => x = v
    | _ => false
  | .tick .. => !careful || (net.node d.target).state.lockedValue.isNone
  | .nextHeight => false
  | _ => true

variable {net : Network}

lemma possible_of_credible {careful : Bool} {d : Delivery} (h : net.credible careful d = true) :
    net.Possible E ∅ d := by
  refine ⟨Finset.notMem_empty _, ?_, ?_⟩
  · intro hev
    simp [credible, hev] at h
  · rintro v hev - -
    simp only [credible, hev, any_eq_true] at h
    obtain ⟨effect, hmem, heq⟩ := h
    split at heq
    · cases of_decide_eq_true heq
      exact .inl ⟨_, hmem, rfl⟩
    · cases heq

lemma lockSafe_of_credible {d : Delivery} (h : net.credible true d = true) :
    net.LockSafe sign d := by
  unfold LockSafe
  cases hev : d.event with
  | tick dt drain =>
    intro _ _ _ v hv
    simp [credible, hev, hv] at h
  | message msg => trivial
  | block b => trivial
  | nextHeight => trivial

def check (E : Env) (sign : PublicKeyBytes → List UInt8 → SignatureBytes)
    (p : Network → Delivery → Bool) (net : Network) : List Delivery → Bool
  | [] => true
  | d :: ds => p net d && (net.deliver E sign d).check E sign p ds

lemma along_of_check {p : Network → Delivery → Bool} {P : Network → Delivery → Prop}
    (hp : ∀ net d, p net d = true → P net d) {ds : List Delivery} (h : net.check E sign p ds = true) :
    net.Along E sign P ds := by
  induction ds generalizing net with
  | nil => trivial
  | cons d ds ih =>
    obtain ⟨hd, hds⟩ := Bool.and_eq_true_iff.mp h
    exact ⟨hp net d hd, ih hds⟩

end Network

def lightKey : PublicKeyBytes := replicate 32 1

def heavyKey : PublicKeyBytes := replicate 32 2

def pairVset : ValidatorSet := ⟨[⟨lightKey, 1⟩, ⟨heavyKey, 3⟩]⟩

def pairNet : Network where
  node _ := .demo pairVset.vals
  stopped _ := false

def demoSign (k : PublicKeyBytes) (msg : List UInt8) : SignatureBytes := k ++ msg

def proposalOf (n : Node) : Proposal :=
  n.state.proposal.getD ⟨0, 0, [], .ofNat 0, none, none, []⟩

def firstProposal : Proposal :=
  proposalOf ((pairNet.run .demo demoSign [{ target := lightKey, event := .tick 1 fun _ => [] }]).node
    lightKey)

def heavyVote (target : PublicKeyBytes) (vt : VoteType) (round : Round) (id : Hash32) : Delivery where
  target := target
  event := .message (.vote (.demo heavyKey vt round (some id)))

def firstRound : List Delivery :=
  [{ target := lightKey, event := .tick 1 fun _ => [] },
    { target := heavyKey, event := .message (.proposal firstProposal) },
    heavyVote heavyKey .prevote 0 firstProposal.blockId,
    heavyVote lightKey .prevote 0 firstProposal.blockId,
    heavyVote lightKey .precommit 0 firstProposal.blockId]

def agreeingRun : List Delivery :=
  firstRound ++ [heavyVote heavyKey .precommit 0 firstProposal.blockId]

lemma starts_pairNet : pairNet.Starts pairVset 2 ∅ := fun _ _ =>
  ⟨{}, _, {}, {}, { lastModified := 0 }, ∅, .empty _ _ _, rfl⟩

theorem engines_agree_pair : ∃ c c',
    ((pairNet.run .demo demoSign agreeingRun).node lightKey).state.decided = some c ∧
    ((pairNet.run .demo demoSign agreeingRun).node heavyKey).state.decided = some c' ∧
    c.blockId = c'.blockId := by
  have hrun : pairNet.check .demo demoSign (Network.credible true) agreeingRun = true ∧
      ((pairNet.run .demo demoSign agreeingRun).node lightKey).state.decided.isSome = true ∧
      ((pairNet.run .demo demoSign agreeingRun).node heavyKey).state.decided.isSome = true := by
    decide +kernel
  obtain ⟨hcheck, hlight, hheavy⟩ := hrun
  obtain ⟨c, hc⟩ := Option.isSome_iff_exists.mp hlight
  obtain ⟨c', hc'⟩ := Option.isSome_iff_exists.mp hheavy
  refine ⟨c, c', hc, hc', ?_⟩
  exact engines_agree .demo demoSign pairVset ∅ 2 pairNet agreeingRun (by decide +kernel)
    (by decide +kernel) starts_pairNet
    (Network.along_of_check (fun net d h => ⟨Network.possible_of_credible h,
      Network.lockSafe_of_credible h⟩) hcheck)
    (Finset.notMem_empty _) (Finset.notMem_empty _) hc hc'

def secondProposal : Proposal :=
  proposalOf ((pairNet.run .demo demoSign
    (firstRound ++ [{ target := heavyKey, event := .tick 200 fun _ => [] }])).node heavyKey)

def splitRun : List Delivery :=
  firstRound ++
    [{ target := heavyKey, event := .tick 200 fun _ => [] },
      { target := heavyKey, event := .tick 1 fun _ => [] },
      heavyVote heavyKey .prevote 1 secondProposal.blockId,
      heavyVote heavyKey .precommit 1 secondProposal.blockId]

/-- Without the condition on ticks, two honest engines decide differently although no validator is
faulty. -/
theorem split_decision : pairVset.power ≤ Machine.u64Max ∧
    3 * pairVset.powerWhere (· ∈ (∅ : Finset PublicKeyBytes)) < pairVset.power ∧
    pairNet.Starts pairVset 2 ∅ ∧
    pairNet.Along .demo demoSign (Network.Possible .demo ∅) splitRun ∧
    ∃ c c', ((pairNet.run .demo demoSign splitRun).node lightKey).state.decided = some c ∧
      ((pairNet.run .demo demoSign splitRun).node heavyKey).state.decided = some c' ∧
      c.blockId ≠ c'.blockId := by
  have hrun : pairNet.check .demo demoSign (Network.credible false) splitRun = true ∧
      ∃ c ∈ ((pairNet.run .demo demoSign splitRun).node lightKey).state.decided,
        ∃ c' ∈ ((pairNet.run .demo demoSign splitRun).node heavyKey).state.decided,
          c.blockId ≠ c'.blockId := by
    decide +kernel
  obtain ⟨hcheck, c, hc, c', hc', hne⟩ := hrun
  exact ⟨by decide +kernel, by decide +kernel, starts_pairNet,
    Network.along_of_check (fun _ _ => Network.possible_of_credible) hcheck, c, c', hc, hc', hne⟩

end Iona
