import Iona.Lib.Floats
import Iona.Slashing

/-!
# Evidence of equivocation

From `evidence.rs`.
-/

namespace Iona

/-! ### Messages with their figures -/

structure SentVote (F : Type) extends Vote where
  purity : F
  entanglementFidelity : F

structure SentProposal (F : Type) extends Proposal where
  purity : F
  entanglementFidelity : F

instance {F : Type} [BEq F] : BEq (SentVote F) where
  beq v w := decide (v.toVote = w.toVote) && v.purity == w.purity &&
    v.entanglementFidelity == w.entanglementFidelity

instance {F : Type} [BEq F] : BEq (SentProposal F) where
  beq p q := decide (p.toProposal = q.toProposal) && p.purity == q.purity &&
    p.entanglementFidelity == q.entanglementFidelity

/-! ### Records -/

inductive EvidenceError (F : Type) where
  | duplicateMessages
  | mismatchedHeightRound
  | voteTypeMismatch
  | proposerMismatch
  | invalidSignature (e : String)
  | missingBlockHash
  | decoherence (fidelity : F)
  | witnessBelowThreshold (value threshold : F)
  | alreadyVerified
  | invalidCoherence (reason : String)
  deriving DecidableEq

structure EvidenceConfig (F : Type) [F64 F] where
  witnessThreshold : F := F64.lit (99 / 100)
  maxCoherenceLoss : F := F64.lit (1 / 10)
  verifySignatures : Bool := true
  autoVerifyOnCreate : Bool := true

inductive FaultEvidence (F : Type) where
  | doubleVote (voter : PublicKeyBytes) (height : Height) (round : Round) (voteType : VoteType)
      (a b : Option Hash32) (voteA voteB : SentVote F) (coherence witnessValue : F)
      (verified : Bool)
  | doubleProposal (proposer : PublicKeyBytes) (height : Height) (round : Round)
      (a b : Option Hash32) (proposalA proposalB : SentProposal F) (coherence witnessValue : F)
      (verified : Bool)

abbrev SignatureCheck := List UInt8 → SignatureBytes → PublicKeyBytes → Except String Unit

namespace FaultEvidence

variable {F : Type}

def toEvidence : FaultEvidence F → Evidence
  | doubleVote voter height round voteType a b voteA voteB _ _ _ =>
    .doubleVote voter height round voteType a b voteA.toVote voteB.toVote
  | doubleProposal proposer height round a b proposalA proposalB _ _ _ =>
    .doubleProposal proposer height round a b proposalA.toProposal proposalB.toProposal

def offender (ev : FaultEvidence F) : PublicKeyBytes := ev.toEvidence.offender

def isVerified : FaultEvidence F → Bool
  | doubleVote _ _ _ _ _ _ _ _ _ _ verified => verified
  | doubleProposal _ _ _ _ _ _ _ _ _ verified => verified

def validate [BEq F] : FaultEvidence F → Except (EvidenceError F) Unit
  | doubleVote _ height round voteType _ _ voteA voteB _ _ _ =>
    if voteA == voteB then .error .duplicateMessages
    else if voteA.voter ≠ voteB.voter then .error .proposerMismatch
    else if voteA.height ≠ height ∨ voteB.height ≠ height ∨ voteA.round ≠ round ∨
        voteB.round ≠ round ∨ voteA.voteType ≠ voteType ∨ voteB.voteType ≠ voteType then
      .error .mismatchedHeightRound
    else .ok ()
  | doubleProposal _ height round _ _ proposalA proposalB _ _ _ =>
    if proposalA == proposalB then .error .duplicateMessages
    else if proposalA.proposer ≠ proposalB.proposer then .error .proposerMismatch
    else if proposalA.height ≠ height ∨ proposalB.height ≠ height ∨ proposalA.round ≠ round ∨
        proposalB.round ≠ round then
      .error .mismatchedHeightRound
    else .ok ()

end FaultEvidence

/-! ### The witness -/

def matchingBytes (a b : List UInt8) : ℕ := (a.zip b).countP fun p => p.1 = p.2

section Witness

variable {F : Type} [F64 F]

def computeWitness (a b : List UInt8) : F :=
  F64.lit 1 - F64.ofNat (matchingBytes a b) / F64.ofNat (max a.length 1)

def witnessCheck (a b : List UInt8) (config : EvidenceConfig F) :
    Except (EvidenceError F) (F × F) :=
  let witness : F := computeWitness a b
  if F64.lt config.witnessThreshold witness then
    let coherence : F := F64.lit 1 * F64.exp (-F64.lit (1 / 1000))
    if F64.lt coherence (F64.lit 1 - config.maxCoherenceLoss) then
      .error (.decoherence (F64.sqrt coherence))
    else .ok (witness, coherence)
  else .error (.witnessBelowThreshold witness config.witnessThreshold)

end Witness

namespace FaultEvidence

variable {F : Type} [F64 F] [BEq F]

def verifyQuantum (ev : FaultEvidence F) (config : EvidenceConfig F) :
    Except (EvidenceError F) (FaultEvidence F) :=
  if ev.isVerified then .error .alreadyVerified
  else do
    ev.validate
    match ev with
    | doubleVote voter height round voteType a b voteA voteB _ _ _ =>
      let (witness, coherence) ← witnessCheck voteA.signBytes voteB.signBytes config
      return doubleVote voter height round voteType a b voteA voteB coherence witness false
    | doubleProposal proposer height round a b proposalA proposalB _ _ _ =>
      let (witness, coherence) ← witnessCheck proposalA.signBytes proposalB.signBytes config
      return doubleProposal proposer height round a b proposalA proposalB coherence witness false

def newDoubleVote (voteA voteB : SentVote F) (config : EvidenceConfig F) :
    Except (EvidenceError F) (FaultEvidence F) :=
  if voteA == voteB then .error .duplicateMessages
  else if voteA.voter ≠ voteB.voter then .error .proposerMismatch
  else if voteA.height ≠ voteB.height ∨ voteA.round ≠ voteB.round then .error .mismatchedHeightRound
  else if voteA.voteType ≠ voteB.voteType then .error .voteTypeMismatch
  else
    let ev := doubleVote voteA.voter voteA.height voteA.round voteA.voteType voteA.blockId
      voteB.blockId voteA voteB (F64.lit 1) (F64.lit 0) false
    if config.autoVerifyOnCreate then ev.verifyQuantum config else .ok ev

end FaultEvidence

/-! ### Signatures -/

section Signatures

variable {F : Type} (check : SignatureCheck)

def verifyMessageSignature (word : String) (bytes : List UInt8) (signature : SignatureBytes)
    (key : PublicKeyBytes) : Except (EvidenceError F) Unit :=
  (check bytes signature key).mapError fun e => .invalidSignature (word ++ ": " ++ e)

def verifyVoteSignature (vote : SentVote F) : Except (EvidenceError F) Unit :=
  verifyMessageSignature check "vote" vote.signBytes vote.signature vote.voter

def verifyProposalSignature (proposal : SentProposal F) : Except (EvidenceError F) Unit :=
  verifyMessageSignature check "proposal" proposal.signBytes proposal.signature proposal.proposer

namespace FaultEvidence

def verifySignatures : FaultEvidence F → Except (EvidenceError F) Unit
  | doubleVote _ _ _ _ _ _ voteA voteB _ _ _ => do
    verifyVoteSignature check voteA
    verifyVoteSignature check voteB
  | doubleProposal _ _ _ _ _ proposalA proposalB _ _ _ => do
    verifyProposalSignature check proposalA
    verifyProposalSignature check proposalB

def verify [BEq F] (ev : FaultEvidence F) : Except (EvidenceError F) Unit := do
  ev.validate
  ev.verifySignatures check

end FaultEvidence

end Signatures

/-! ### What `verify` establishes -/

namespace FaultEvidence

variable {F : Type} [BEq F] {check : SignatureCheck}

def signer : FaultEvidence F → PublicKeyBytes
  | doubleVote _ _ _ _ _ _ voteA _ _ _ _ => voteA.voter
  | doubleProposal _ _ _ _ _ proposalA _ _ _ _ => proposalA.proposer

def BlocksDiffer : FaultEvidence F → Prop
  | doubleVote _ _ _ _ _ _ voteA voteB _ _ _ => voteA.blockId ≠ voteB.blockId
  | doubleProposal _ _ _ _ _ proposalA proposalB _ _ _ => proposalA.blockId ≠ proposalB.blockId

def Sound (check : SignatureCheck) (ev : FaultEvidence F) : Prop :=
  ev.BlocksDiffer ∧
  match ev with
  | doubleVote voter _ _ _ _ _ voteA voteB _ _ _ =>
    check voteA.signBytes voteA.signature voter = .ok () ∧
    check voteB.signBytes voteB.signature voter = .ok () ∧
    voteA.voter = voter ∧ voteB.voter = voter ∧ voteA.voteType = voteB.voteType ∧
    voteA.height = voteB.height ∧ voteA.round = voteB.round
  | doubleProposal proposer _ _ _ _ proposalA proposalB _ _ _ =>
    check proposalA.signBytes proposalA.signature proposer = .ok () ∧
    check proposalB.signBytes proposalB.signature proposer = .ok () ∧
    proposalA.proposer = proposer ∧ proposalB.proposer = proposer ∧
    proposalA.height = proposalB.height ∧ proposalA.round = proposalB.round

end FaultEvidence

section Soundness

variable {F : Type} {check : SignatureCheck}

lemma then_eq_ok_iff {ε : Type} {a b : Except ε Unit} :
    (do a; b : Except ε Unit) = .ok () ↔ a = .ok () ∧ b = .ok () := by
  cases a with
  | error e => exact iff_of_false (fun h => nomatch h) fun h => nomatch h.1
  | ok u => exact (and_iff_right rfl).symm

lemma verifyMessageSignature_eq_ok_iff {word : String} {bytes : List UInt8}
    {signature : SignatureBytes} {key : PublicKeyBytes} :
    (verifyMessageSignature check word bytes signature key : Except (EvidenceError F) Unit) =
        .ok () ↔ check bytes signature key = .ok () := by
  unfold verifyMessageSignature
  cases check bytes signature key with
  | error e => exact iff_of_false (fun h => nomatch h) fun h => nomatch h
  | ok u => exact iff_of_true rfl rfl

namespace FaultEvidence

variable [BEq F]

lemma validate_doubleVote {voter : PublicKeyBytes} {height : Height} {round : Round}
    {voteType : VoteType} {a b : Option Hash32} {voteA voteB : SentVote F} {coherence witness : F}
    {verified : Bool}
    (h : (doubleVote voter height round voteType a b voteA voteB coherence witness
      verified).validate = .ok ()) :
    voteA.voter = voteB.voter ∧ voteA.voteType = voteB.voteType ∧ voteA.height = voteB.height ∧
      voteA.round = voteB.round := by
  rw [validate] at h
  split at h
  · cases h
  split at h
  · cases h
  rename_i hvoter
  split at h
  · cases h
  rename_i hsame
  push Not at hsame
  obtain ⟨hheightA, hheightB, hroundA, hroundB, htypeA, htypeB⟩ := hsame
  exact ⟨not_not.mp hvoter, htypeA.trans htypeB.symm, hheightA.trans hheightB.symm,
    hroundA.trans hroundB.symm⟩

lemma validate_doubleProposal {proposer : PublicKeyBytes} {height : Height} {round : Round}
    {a b : Option Hash32} {proposalA proposalB : SentProposal F} {coherence witness : F}
    {verified : Bool}
    (h : (doubleProposal proposer height round a b proposalA proposalB coherence witness
      verified).validate = .ok ()) :
    proposalA.proposer = proposalB.proposer ∧ proposalA.height = proposalB.height ∧
      proposalA.round = proposalB.round := by
  rw [validate] at h
  split at h
  · cases h
  split at h
  · cases h
  rename_i hproposer
  split at h
  · cases h
  rename_i hsame
  push Not at hsame
  obtain ⟨hheightA, hheightB, hroundA, hroundB⟩ := hsame
  exact ⟨not_not.mp hproposer, hheightA.trans hheightB.symm, hroundA.trans hroundB.symm⟩

end FaultEvidence

open FaultEvidence in
/-- **A verified record proves an equivocation of the validator it names if and only if** that is
the key its messages carry, and they name different blocks. -/
theorem evidence_sound_iff [BEq F] (check : SignatureCheck) (ev : FaultEvidence F)
    (h : ev.verify check = .ok ()) :
    ev.Sound check ↔ ev.offender = ev.signer ∧ ev.BlocksDiffer := by
  obtain ⟨hvalid, hsigs⟩ := then_eq_ok_iff.mp h
  cases ev with
  | doubleVote voter height round voteType a b voteA voteB coherence witness verified =>
    obtain ⟨hvoter, htype, hheight, hround⟩ := validate_doubleVote hvalid
    obtain ⟨hsigA, hsigB⟩ := then_eq_ok_iff.mp hsigs
    have hcheckA := verifyMessageSignature_eq_ok_iff.mp hsigA
    have hcheckB := verifyMessageSignature_eq_ok_iff.mp hsigB
    constructor
    · rintro ⟨hdiffer, _, _, hnamed, _⟩
      exact ⟨hnamed.symm, hdiffer⟩
    · rintro ⟨hnamed, hdiffer⟩
      obtain rfl : voter = voteA.voter := hnamed
      refine ⟨hdiffer, hcheckA, ?_, rfl, hvoter.symm, htype, hheight, hround⟩
      rwa [hvoter]
  | doubleProposal proposer height round a b proposalA proposalB coherence witness verified =>
    obtain ⟨hproposer, hheight, hround⟩ := validate_doubleProposal hvalid
    obtain ⟨hsigA, hsigB⟩ := then_eq_ok_iff.mp hsigs
    have hcheckA := verifyMessageSignature_eq_ok_iff.mp hsigA
    have hcheckB := verifyMessageSignature_eq_ok_iff.mp hsigB
    constructor
    · rintro ⟨hdiffer, _, _, hnamed, _⟩
      exact ⟨hnamed.symm, hdiffer⟩
    · rintro ⟨hnamed, hdiffer⟩
      obtain rfl : proposer = proposalA.proposer := hnamed
      refine ⟨hdiffer, hcheckA, ?_, rfl, hproposer.symm, hheight, hround⟩
      rwa [hproposer]

end Soundness

def plainCheck : SignatureCheck := fun bytes signature key =>
  if signature = key ++ bytes then .ok () else .error "signature mismatch"

def signedVote (key : PublicKeyBytes) (byte : UInt8) : SentVote ℚ where
  voteType := .prevote
  height := 5
  round := 0
  voter := key
  blockId := some (Vector.replicate 32 byte)
  signature := key ++ voteSignBytes .prevote 5 0 (some (Vector.replicate 32 byte))
  purity := 1
  entanglementFidelity := 1

def accusing (voter : PublicKeyBytes) : FaultEvidence ℚ :=
  .doubleVote voter 5 0 .prevote (some (Vector.replicate 32 1)) (some (Vector.replicate 32 2))
    (signedVote [9] 1) (signedVote [9] 2) 1 0 false

variable {check : SignatureCheck} {key : PublicKeyBytes}

theorem evidence_sound_accusing :
    (accusing [9]).verify plainCheck = .ok () ∧ (accusing [9]).Sound plainCheck := by
  have hverify : (accusing [9]).verify plainCheck = .ok () := by decide +kernel
  refine ⟨hverify, (evidence_sound_iff plainCheck _ hverify).mpr ⟨rfl, ?_⟩⟩
  have hbytes : (some (Vector.replicate 32 1) : Option Hash32) ≠ some (Vector.replicate 32 2) := by
    decide +kernel
  exact hbytes

/-- The record names a validator that signed nothing, passes, and costs it a part of its stake. -/
theorem evidence_frames :
    (accusing [1]).verify plainCheck = .ok () ∧ (accusing [1]).offender = [1] ∧
      (StakeLedger.applyEvidence { validators := .ofList [([1], { stake := 100 })] compare }
          (accusing [1]).toEvidence 9).map
        (fun res => res.2.validators[([1] : PublicKeyBytes)]?.map ValidatorRecord.stake) =
        some (some 95) ∧
      ¬ (accusing [1]).Sound plainCheck := by
  refine ⟨by decide +kernel, rfl, by decide +kernel, ?_⟩
  rintro ⟨_, _, _, hnamed, _⟩
  exact absurd hnamed (by decide)

/-! ### What the witness asks for -/

lemma matchingBytes_cons_self (x : UInt8) (a b : List UInt8) :
    0 < matchingBytes (x :: a) (x :: b) := by
  simp [matchingBytes]

lemma computeWitness_le {x : UInt8} {a b : List UInt8} (hlen : a.length < 100) :
    (computeWitness (x :: a) (x :: b) : ℚ) ≤ 99 / 100 := by
  have hmatch : (1 : ℚ) ≤ matchingBytes (x :: a) (x :: b) := by
    exact_mod_cast matchingBytes_cons_self x a b
  have hmax : max (x :: a).length 1 = a.length + 1 := by simp
  have hle : ((a.length + 1 : ℕ) : ℚ) ≤ 100 := by exact_mod_cast hlen
  have hpos : (0 : ℚ) < ((a.length + 1 : ℕ) : ℚ) := by positivity
  have hover : (1 : ℚ) / 100 ≤ matchingBytes (x :: a) (x :: b) / ((a.length + 1 : ℕ) : ℚ) := by
    rw [div_le_div_iff₀ (by norm_num) hpos]
    linarith
  change (1 : ℚ) - (matchingBytes (x :: a) (x :: b) : ℚ) / ((max (x :: a).length 1 : ℕ) : ℚ) ≤ _
  rw [hmax]
  linarith

lemma voteSignBytes_eq_cons (vt : VoteType) (h : Height) (r : Round) (id : Option Hash32) :
    ∃ rest, voteSignBytes vt h r id = 0x56 :: rest ∧ rest.length = 48 := by
  have htag : ∃ tl, voteTag vt id.isSome = 0x56 :: tl ∧ tl.length = 3 := by
    cases vt <;> cases id.isSome <;> exact ⟨_, rfl, rfl⟩
  obtain ⟨tl, htl, hlen⟩ := htag
  unfold voteSignBytes
  rw [← voteTag, htl]
  refine ⟨_, rfl, ?_⟩
  cases id <;> simp [hlen]

lemma witnessCheck_default {x : UInt8} {a b : List UInt8} (hlen : a.length < 100) :
    witnessCheck (x :: a) (x :: b) ({} : EvidenceConfig ℚ) =
      .error (.witnessBelowThreshold (computeWitness (x :: a) (x :: b)) (99 / 100)) := by
  have hnot : F64.lt (99 / 100 : ℚ) (computeWitness (x :: a) (x :: b)) = false :=
    decide_eq_false (not_lt.mpr (computeWitness_le hlen))
  unfold witnessCheck
  dsimp only
  rw [if_neg]
  · rfl
  · exact fun htrue => Bool.false_ne_true (hnot.symm.trans htrue)

lemma witnessCheck_votes (v w : Vote) :
    witnessCheck v.signBytes w.signBytes ({} : EvidenceConfig ℚ) =
      .error (.witnessBelowThreshold (computeWitness v.signBytes w.signBytes) (99 / 100)) := by
  obtain ⟨restV, hv, hlen⟩ := voteSignBytes_eq_cons v.voteType v.height v.round v.blockId
  obtain ⟨restW, hw, _⟩ := voteSignBytes_eq_cons w.voteType w.height w.round w.blockId
  rw [Vote.signBytes, Vote.signBytes, hv, hw]
  exact witnessCheck_default (by omega)

structure Equivocation (check : SignatureCheck) (key : PublicKeyBytes) (voteA voteB : SentVote ℚ) :
    Prop where
  voterA : voteA.voter = key
  voterB : voteB.voter = key
  signedA : check voteA.signBytes voteA.signature key = .ok ()
  signedB : check voteB.signBytes voteB.signature key = .ok ()
  voteType : voteA.voteType = voteB.voteType
  height : voteA.height = voteB.height
  round : voteA.round = voteB.round
  blockId : voteA.blockId ≠ voteB.blockId

lemma Equivocation.bne {voteA voteB : SentVote ℚ} (h : Equivocation check key voteA voteB) :
    (voteA == voteB) = false := by
  have hvote : voteA.toVote ≠ voteB.toVote := fun heq => h.blockId (congrArg Vote.blockId heq)
  change (decide (voteA.toVote = voteB.toVote) && _ && _) = false
  rw [decide_eq_false hvote]
  rfl

lemma newDoubleVote_eq_error {voteA voteB : SentVote ℚ} (h : Equivocation check key voteA voteB) :
    FaultEvidence.newDoubleVote voteA voteB {} = .error
      (.witnessBelowThreshold (computeWitness voteA.signBytes voteB.signBytes) (99 / 100)) := by
  have hne : (voteA == voteB) = false := h.bne
  have hvoter : ¬ voteA.voter ≠ voteB.voter := not_not.mpr (h.voterA.trans h.voterB.symm)
  have hslot : ¬ (voteA.height ≠ voteB.height ∨ voteA.round ≠ voteB.round) := by
    simp [h.height, h.round]
  have hrecord : (FaultEvidence.doubleVote voteA.voter voteA.height voteA.round voteA.voteType
      voteA.blockId voteB.blockId voteA voteB (1 : ℚ) 0 false).validate = .ok () := by
    simp [FaultEvidence.validate, hne, h.voterA, h.voterB, h.height, h.round, h.voteType]
  rw [FaultEvidence.newDoubleVote, if_neg (by simp [hne]), if_neg hvoter, if_neg hslot,
    if_neg (not_not.mpr h.voteType)]
  change FaultEvidence.verifyQuantum (FaultEvidence.doubleVote voteA.voter voteA.height voteA.round
    voteA.voteType voteA.blockId voteB.blockId voteA voteB (1 : ℚ) 0 false) {} = _
  rw [FaultEvidence.verifyQuantum, if_neg (by simp [FaultEvidence.isVerified]), hrecord]
  change (witnessCheck voteA.signBytes voteB.signBytes {} >>= _) = _
  rw [witnessCheck_votes]
  rfl

/-- **Two votes that prove an equivocation never make a record** under the default configuration,
let alone one that passes `verify`. -/
theorem newDoubleVote_default (check : SignatureCheck) (key : PublicKeyBytes)
    (voteA voteB : SentVote ℚ) (h : Equivocation check key voteA voteB) :
    ¬ ∃ ev, FaultEvidence.newDoubleVote voteA voteB {} = .ok ev ∧ ev.verify check = .ok () := by
  rintro ⟨ev, hev, _⟩
  rw [newDoubleVote_eq_error h] at hev
  cases hev

lemma equivocation_signedVote :
    Equivocation plainCheck [9] (signedVote [9] 1) (signedVote [9] 2) where
  voterA := rfl
  voterB := rfl
  signedA := by decide +kernel
  signedB := by decide +kernel
  voteType := rfl
  height := rfl
  round := rfl
  blockId := by decide +kernel

theorem newDoubleVote_signedVote :
    ¬ ∃ ev, FaultEvidence.newDoubleVote (signedVote [9] 1) (signedVote [9] 2) {} = .ok ev ∧
      ev.verify plainCheck = .ok () :=
  newDoubleVote_default plainCheck [9] _ _ equivocation_signedVote

/-- Two votes for different blocks: seventeen of forty-nine bytes agree. -/
theorem newDoubleVote_refused :
    Equivocation plainCheck [9] (signedVote [9] 1) (signedVote [9] 2) ∧
      FaultEvidence.newDoubleVote (signedVote [9] 1) (signedVote [9] 2) {} =
        .error (.witnessBelowThreshold (32 / 49) (99 / 100)) := by
  have hvalue : (computeWitness (signedVote [9] 1).signBytes (signedVote [9] 2).signBytes : ℚ) =
      32 / 49 := by decide +kernel
  refine ⟨equivocation_signedVote, ?_⟩
  rw [newDoubleVote_eq_error equivocation_signedVote, hvalue]

end Iona
