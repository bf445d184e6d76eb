import Iona.Types

/-!
# Consensus messages

From `consensus/messages.rs` and `evidence.rs`.
-/

namespace Iona

open Bytes List

/-- The two types of votes. -/
inductive VoteType where
  | prevote
  | precommit
  deriving DecidableEq

namespace VoteType

instance : Ord VoteType where
  compare
    | prevote, precommit => .lt
    | precommit, prevote => .gt
    | _, _ => .eq

instance : Std.TransOrd VoteType where
  eq_swap {a b} := by cases a <;> cases b <;> rfl
  isLE_trans {a b c} := by cases a <;> cases b <;> cases c <;> decide

instance : Std.LawfulEqOrd VoteType where
  eq_of_compare {a b} h := by cases a <;> cases b <;> first | rfl | cases h

/-- The name of a type. -/
def text : VoteType → String
  | prevote => "Prevote"
  | precommit => "Precommit"

/-- The tag of a vote for a block. -/
def domainTag : VoteType → List UInt8
  | prevote => utf8 "VTPY"
  | precommit => utf8 "VTCX"

/-- The tag of a vote for none. -/
def nilDomainTag : VoteType → List UInt8
  | prevote => utf8 "VNPY"
  | precommit => utf8 "VNCX"

end VoteType

/-- A proposal. -/
structure Proposal where
  height : Height
  round : Round
  proposer : PublicKeyBytes
  blockId : Hash32
  block : Option Block
  polRound : Option Round
  signature : SignatureBytes
  deriving DecidableEq

/-- A vote. -/
structure Vote where
  voteType : VoteType
  height : Height
  round : Round
  voter : PublicKeyBytes
  blockId : Option Hash32
  signature : SignatureBytes
  deriving DecidableEq

/-- Two conflicting messages. -/
inductive Evidence where
  | doubleVote (voter : PublicKeyBytes) (height : Height) (round : Round) (voteType : VoteType)
      (a b : Option Hash32) (voteA voteB : Vote)
  | doubleProposal (proposer : PublicKeyBytes) (height : Height) (round : Round)
      (a b : Option Hash32) (proposalA proposalB : Proposal)
  deriving DecidableEq

/-- What engines send. -/
inductive ConsensusMsg where
  | proposal (p : Proposal)
  | vote (v : Vote)
  | evidence (ev : Evidence)
  deriving DecidableEq

/-! ### Signed bytes -/

/-- A field that is there. -/
def flagPresent : UInt8 := 0x01

/-- A field that is not. -/
def flagAbsent : UInt8 := 0x00

/-- What the signature of a proposal is over. -/
def proposalSignBytes (height : Height) (round : Round) (blockId : Hash32)
    (polRound : Option Round) : List UInt8 :=
  utf8 "PROP" ++ ofU64 height ++ ofU32 round ++ blockId.toList ++
    match polRound with
    | none => [flagAbsent]
    | some r => flagPresent :: ofU32 r

/-- What the signature of a vote is over. -/
def voteSignBytes (voteType : VoteType) (height : Height) (round : Round)
    (blockId : Option Hash32) : List UInt8 :=
  (if blockId.isSome then voteType.domainTag else voteType.nilDomainTag) ++
    ofU64 height ++ ofU32 round ++
    match blockId with
    | some id => flagPresent :: id.toList
    | none => flagAbsent :: replicate 32 0

def Proposal.signBytes (p : Proposal) : List UInt8 :=
  proposalSignBytes p.height p.round p.blockId p.polRound

def Vote.signBytes (v : Vote) : List UInt8 :=
  voteSignBytes v.voteType v.height v.round v.blockId

/-- The tag of a vote. -/
def voteTag (voteType : VoteType) (hasBlock : Bool) : List UInt8 :=
  if hasBlock then voteType.domainTag else voteType.nilDomainTag

lemma length_voteTag (vt : VoteType) (b : Bool) : (voteTag vt b).length = 4 := by
  cases vt <;> cases b <;> decide

lemma voteTag_inj {vt vt' : VoteType} {b b' : Bool} (h : voteTag vt b = voteTag vt' b') :
    vt = vt' ∧ b = b' := by
  revert h
  cases vt <;> cases vt' <;> cases b <;> cases b' <;> decide

lemma voteTag_ne_proposal (vt : VoteType) (b : Bool) : voteTag vt b ≠ utf8 "PROP" := by
  cases vt <;> cases b <;> decide

lemma voteSignBytes_inj {vt vt' : VoteType} {h h' : Height} {r r' : Round}
    {id id' : Option Hash32} (heq : voteSignBytes vt h r id = voteSignBytes vt' h' r' id') :
    vt = vt' ∧ h = h' ∧ r = r' ∧ id = id' := by
  unfold voteSignBytes at heq
  rw [append_assoc, append_assoc, append_assoc, append_assoc] at heq
  obtain ⟨htag, hrest⟩ := append_inj heq
    ((length_voteTag vt id.isSome).trans (length_voteTag vt' id'.isSome).symm)
  obtain ⟨hheight, hrest⟩ := append_inj hrest (by simp)
  obtain ⟨hround, hid⟩ := append_inj hrest (by simp)
  obtain ⟨rfl, -⟩ := voteTag_inj htag
  refine ⟨rfl, ofU64_injective hheight, ofU32_injective hround, ?_⟩
  -- the flag byte tells a block id from its absence
  cases id <;> cases id'
  · rfl
  · exact absurd (List.cons.inj hid).1 (by decide)
  · exact absurd (List.cons.inj hid).1 (by decide)
  · rw [Vector.toList_inj.mp (List.cons.inj hid).2]

lemma proposalSignBytes_ne_voteSignBytes (h h' : Height) (r r' : Round) (id : Hash32)
    (pol : Option Round) (vt : VoteType) (id' : Option Hash32) :
    proposalSignBytes h r id pol ≠ voteSignBytes vt h' r' id' := by
  intro heq
  unfold proposalSignBytes voteSignBytes at heq
  rw [append_assoc, append_assoc, append_assoc, append_assoc,
    append_assoc] at heq
  have hlen : (utf8 "PROP").length = 4 := by decide
  exact voteTag_ne_proposal vt id'.isSome
    (append_inj heq (hlen.trans (length_voteTag vt id'.isSome).symm)).1.symm

lemma proposalSignBytes_inj {h h' : Height} {r r' : Round} {id id' : Hash32}
    {pol pol' : Option Round}
    (heq : proposalSignBytes h r id pol = proposalSignBytes h' r' id' pol') :
    h = h' ∧ r = r' ∧ id = id' ∧ pol = pol' := by
  unfold proposalSignBytes at heq
  simp only [append_assoc, append_cancel_left_eq] at heq
  obtain ⟨hheight, hrest⟩ := append_inj heq (by simp)
  obtain ⟨hround, hrest⟩ := append_inj hrest (by simp)
  obtain ⟨hid, hpol⟩ := append_inj hrest (by simp)
  refine ⟨ofU64_injective hheight, ofU32_injective hround, Vector.toList_inj.mp hid, ?_⟩
  -- the flag byte tells a round from its absence
  cases pol <;> cases pol'
  · rfl
  · exact absurd (List.cons.inj hpol).1 (by decide)
  · exact absurd (List.cons.inj hpol).1 (by decide)
  · rw [ofU32_injective (List.cons.inj hpol).2]

/-! ### Payloads -/

/-- What is signed. -/
inductive Payload where
  | proposal (height : Height) (round : Round) (blockId : Hash32) (polRound : Option Round)
  | vote (voteType : VoteType) (height : Height) (round : Round) (blockId : Option Hash32)
  deriving DecidableEq

def Payload.signBytes : Payload → List UInt8
  | proposal height round blockId polRound => proposalSignBytes height round blockId polRound
  | vote voteType height round blockId => voteSignBytes voteType height round blockId

/-- **The signed bytes are unambiguous**: no two payloads share them, of one kind or of two. -/
theorem Payload.signBytes_eq_iff (p q : Payload) : p.signBytes = q.signBytes ↔ p = q := by
  refine ⟨fun heq => ?_, fun heq => heq ▸ rfl⟩
  cases p with
  | proposal h r id pol =>
    cases q with
    | proposal h' r' id' pol' =>
      obtain ⟨rfl, rfl, rfl, rfl⟩ := proposalSignBytes_inj heq
      rfl
    | vote vt h' r' id' =>
      exact absurd heq (proposalSignBytes_ne_voteSignBytes h h' r r' id pol vt id')
  | vote vt h r id =>
    cases q with
    | proposal h' r' id' pol' =>
      exact absurd heq.symm (proposalSignBytes_ne_voteSignBytes h' h r' r id' pol' vt id)
    | vote vt' h' r' id' =>
      obtain ⟨rfl, rfl, rfl, rfl⟩ := voteSignBytes_inj heq
      rfl

end Iona
