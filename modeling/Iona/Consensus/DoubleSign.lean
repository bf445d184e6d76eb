import Iona.Consensus.Messages
import Iona.Lib.Machine

/-!
# The double-sign guard

`DoubleSignGuard` of `consensus/double_sign.rs`.
-/

namespace Iona

structure GuardState where
  version : UInt32 := 1
  proposals : BTreeMap String String := ∅
  votes : BTreeMap String String := ∅
  chainHash : String := ""
  purity : UInt64 := 0x3FF0000000000000
  entropy : UInt64 := 0
  totalOperations : UInt64 := 0
  doubleSignDetections : UInt64 := 0
  lastModified : UInt64
  deriving DecidableEq

structure GuardFormat where
  canonical : GuardState → List UInt8
  encode : GuardState → List UInt8
  decode : List UInt8 → Option GuardState
  decay : UInt64 → UInt64
  entropyOf : UInt64 → UInt64

def GuardFormat.KeepsRecords (F : GuardFormat) : Prop :=
  ∀ st st', F.decode (F.encode st) = some st' →
    st'.proposals = st.proposals ∧ st'.votes = st.votes

def h32Hex (id : Hash32) : String := Bytes.hexEncode id.toList

def voteText (blockId : Option Hash32) : String := (blockId.map h32Hex).getD "nil"

def proposalGuardKey (height : Height) (round : Round) : String :=
  "proposal:" ++ toString height ++ ":" ++ toString round

def voteGuardKey (vt : VoteType) (height : Height) (round : Round) : String :=
  "vote:" ++ vt.text ++ ":" ++ toString height ++ ":" ++ toString round

namespace GuardState

section State

variable (C : Crypto) (F : GuardFormat)

def computeHash (st : GuardState) : String :=
  Bytes.hexEncode (C.blake3 (F.canonical { st with chainHash := "" })).toList

def verifyChain (st : GuardState) : Except String Unit :=
  if st.chainHash = "" then .ok ()
  else if st.chainHash = st.computeHash C F then .ok ()
  else .error ("double-sign guard chain integrity FAILED: stored=" ++ st.chainHash ++
    " computed=" ++ st.computeHash C F)

def buildPersistedState (now : UInt64) (st : GuardState) : GuardState :=
  let purity := F.decay st.purity
  let next := { st with
    totalOperations := Machine.satAdd st.totalOperations 1
    purity := purity
    entropy := F.entropyOf purity
    lastModified := now }
  { next with chainHash := next.computeHash C F }

@[simp] lemma buildPersistedState_votes (now : UInt64) (st : GuardState) :
    (st.buildPersistedState C F now).votes = st.votes := rfl

@[simp] lemma buildPersistedState_proposals (now : UInt64) (st : GuardState) :
    (st.buildPersistedState C F now).proposals = st.proposals := rfl

def saveState (now : UInt64) (failure : Option String) (st : GuardState) :
    Except String GuardState :=
  match failure with
  | some e => .error e
  | none => .ok (st.buildPersistedState C F now)

def loadState (now : UInt64) : Option (List UInt8) → Except String GuardState
  | none => .ok { lastModified := now }
  | some bytes =>
    match F.decode bytes with
    | none => .error "parse error"
    | some st =>
      if st.version ≠ 1 then
        .error ("unsupported guard version: " ++ toString st.version ++ " (expected 1)")
      else do
        st.verifyChain C F
        return st

def withConfig (now : UInt64) (failure : Option String) (file : Option (List UInt8)) :
    Except String (GuardState × Option (List UInt8)) := do
  let (st, recovered) := match loadState C F now file with
    | .ok st => (st, false)
    | .error _ => ({ lastModified := now }, true)
  if file.isNone || recovered then
    let st ← st.saveState C F now failure
    st.verifyChain C F
    return (st, some (F.encode st))
  else
    st.verifyChain C F
    return (st, file)

/-! ### Checking and recording -/

def checkProposal (st : GuardState) (height : Height) (round : Round) (blockId : Hash32) :
    Except String Unit :=
  let want := h32Hex blockId
  match st.proposals[proposalGuardKey height round]? with
  | some existing =>
    if existing ≠ want then
      .error ("DOUBLE-PROPOSAL REFUSED height=" ++ toString height ++ " round=" ++ toString round ++
        " existing=" ++ existing ++ " attempted=" ++ want)
    else .ok ()
  | none => .ok ()

def recordProposal (now : UInt64) (failure : Option String) (st : GuardState) (height : Height)
    (round : Round) (blockId : Hash32) : Except String GuardState :=
  { st with
    proposals := st.proposals.insert (proposalGuardKey height round) (h32Hex blockId)
  }.saveState C F now failure

def checkVote (st : GuardState) (vt : VoteType) (height : Height) (round : Round)
    (blockId : Option Hash32) : Except String Unit :=
  let want := voteText blockId
  match st.votes[voteGuardKey vt height round]? with
  | some existing =>
    if existing ≠ want then
      .error ("DOUBLE-VOTE REFUSED type=" ++ vt.text ++ " height=" ++ toString height ++ " round=" ++
        toString round ++ " existing=" ++ existing ++ " attempted=" ++ want)
    else .ok ()
  | none => .ok ()

def recordVote (now : UInt64) (failure : Option String) (st : GuardState) (vt : VoteType)
    (height : Height) (round : Round) (blockId : Option Hash32) : Except String GuardState :=
  { st with
    votes := st.votes.insert (voteGuardKey vt height round) (voteText blockId)
  }.saveState C F now failure

end State

/-! ### What the guard remembers -/

structure Extends (st st' : GuardState) : Prop where
  proposals : ∀ (key val : String), st.proposals[key]? = some val → st'.proposals[key]? = some val
  votes : ∀ (key val : String), st.votes[key]? = some val → st'.votes[key]? = some val

lemma Extends.refl (st : GuardState) : Extends st st := ⟨fun _ _ h => h, fun _ _ h => h⟩

def HasProposal (st : GuardState) (height : Height) (round : Round) (blockId : Hash32) : Prop :=
  st.proposals[proposalGuardKey height round]? = some (h32Hex blockId)

def HasVote (st : GuardState) (vt : VoteType) (height : Height) (round : Round)
    (blockId : Option Hash32) : Prop :=
  st.votes[voteGuardKey vt height round]? = some (voteText blockId)

lemma h32Hex_injective : Function.Injective h32Hex := fun _ _ h =>
  Vector.toList_inj.mp (Bytes.hexEncode_injective h)

lemma h32Hex_ne_nil (id : Hash32) : h32Hex id ≠ "nil" := by
  intro h
  have hlen := congrArg String.length h
  rw [h32Hex, Bytes.length_hexEncode, show "nil".length = 3 by decide] at hlen
  omega

lemma voteText_injective : Function.Injective voteText := by
  intro a b h
  cases a with
  | none =>
    cases b with
    | none => rfl
    | some b => exact absurd h.symm (h32Hex_ne_nil b)
  | some a =>
    cases b with
    | none => exact absurd h (h32Hex_ne_nil a)
    | some b => rw [h32Hex_injective h]

lemma HasProposal.unique {st : GuardState} {h : Height} {r : Round} {id id' : Hash32}
    (h₁ : st.HasProposal h r id) (h₂ : st.HasProposal h r id') : id = id' :=
  h32Hex_injective (Option.some.inj (h₁.symm.trans h₂))

lemma HasVote.unique {st : GuardState} {vt : VoteType} {h : Height} {r : Round}
    {id id' : Option Hash32} (h₁ : st.HasVote vt h r id) (h₂ : st.HasVote vt h r id') : id = id' :=
  voteText_injective (Option.some.inj (h₁.symm.trans h₂))

section Record

variable {C : Crypto} {F : GuardFormat} {now : UInt64} {failure : Option String}
  {st st' : GuardState} {height : Height} {round : Round}

variable {id : Option Hash32}

lemma saveState_eq_ok (h : saveState C F now failure st = .ok st') :
    st' = st.buildPersistedState C F now := by
  cases failure with
  | none => exact (Except.ok.inj h).symm
  | some e => cases h

lemma getElem?_insert_of_agrees {m : BTreeMap String String} {key val : String}
    (hcheck : ∀ existing, m[key]? = some existing → existing = val) {key' val' : String}
    (h : m[key']? = some val') : (m.insert key val)[key']? = some val' := by
  rw [Std.ExtTreeMap.getElem?_insert]
  split
  · rename_i heq
    obtain rfl := Std.LawfulEqOrd.eq_of_compare heq
    rw [hcheck val' h]
  · exact h

lemma checkProposal_eq_ok {id : Hash32} (h : st.checkProposal height round id = .ok ())
    {existing : String} (he : st.proposals[proposalGuardKey height round]? = some existing) :
    existing = h32Hex id := by
  simp only [checkProposal, he] at h
  by_contra hne
  rw [if_pos hne] at h
  cases h

lemma checkVote_eq_ok {vt : VoteType} (h : st.checkVote vt height round id = .ok ())
    {existing : String} (he : st.votes[voteGuardKey vt height round]? = some existing) :
    existing = voteText id := by
  simp only [checkVote, he] at h
  by_contra hne
  rw [if_pos hne] at h
  cases h

lemma recordProposal_spec {id : Hash32} (hcheck : st.checkProposal height round id = .ok ())
    (h : st.recordProposal C F now failure height round id = .ok st') :
    Extends st st' ∧ st'.HasProposal height round id := by
  obtain rfl := saveState_eq_ok h
  refine ⟨⟨fun key val hval => ?_, fun _ _ hval => hval⟩, ?_⟩
  · exact getElem?_insert_of_agrees (fun _ he => checkProposal_eq_ok hcheck he) hval
  · rw [HasProposal, buildPersistedState_proposals, Std.ExtTreeMap.getElem?_insert_self]

lemma recordVote_spec {vt : VoteType} (hcheck : st.checkVote vt height round id = .ok ())
    (h : st.recordVote C F now failure vt height round id = .ok st') :
    Extends st st' ∧ st'.HasVote vt height round id := by
  obtain rfl := saveState_eq_ok h
  refine ⟨⟨fun _ _ hval => hval, fun key val hval => ?_⟩, ?_⟩
  · exact getElem?_insert_of_agrees (fun _ he => checkVote_eq_ok hcheck he) hval
  · rw [HasVote, buildPersistedState_votes, Std.ExtTreeMap.getElem?_insert_self]

structure SameRecords (st st' : GuardState) : Prop where
  proposals : st'.proposals = st.proposals
  votes : st'.votes = st.votes

lemma decode_of_loadState {bytes : List UInt8}
    (h : loadState C F now (some bytes) = .ok st) : F.decode bytes = some st := by
  unfold loadState at h
  cases hdec : F.decode bytes with
  | none => simp [hdec] at h
  | some st₁ =>
    simp only [hdec] at h
    split at h
    · cases h
    · cases hchain : st₁.verifyChain C F with
      | error e => simp [hchain, bind, Except.bind] at h
      | ok _ =>
        have : st₁ = st := by simpa [hchain, bind, Except.bind, pure, Except.pure] using h
        rw [this]

lemma loadState_encode (hF : F.KeepsRecords)
    (h : loadState C F now (some (F.encode st)) = .ok st') : SameRecords st st' := by
  obtain ⟨hproposals, hvotes⟩ := hF st st' (decode_of_loadState h)
  exact ⟨hproposals, hvotes⟩

lemma loadState_again {now' : UInt64} {file : Option (List UInt8)}
    (h : loadState C F now file = .ok st) (h' : loadState C F now' file = .ok st') :
    SameRecords st st' := by
  cases file with
  | none =>
    cases h
    cases h'
    exact ⟨rfl, rfl⟩
  | some bytes =>
    have := (decode_of_loadState h).symm.trans (decode_of_loadState h')
    cases this
    exact ⟨rfl, rfl⟩

lemma withConfig_intact {file file' : Option (List UInt8)}
    (hload : loadState C F now file = .ok st)
    (h : withConfig C F now failure file = .ok (st', file')) :
    SameRecords st st' ∧ file' = if file.isNone then some (F.encode st') else file := by
  unfold withConfig at h
  simp only [hload, Bool.or_false] at h
  split at h
  · rename_i hnone
    cases hsave : st.saveState C F now failure with
    | error e => simp [hsave, bind, Except.bind] at h
    | ok st₁ =>
      obtain rfl := saveState_eq_ok hsave
      simp only [hsave, bind, Except.bind] at h
      split at h
      · cases h
      · cases h
        exact ⟨⟨rfl, rfl⟩, by rw [if_pos hnone]⟩
  · rename_i hsome
    simp only [bind, Except.bind] at h
    split at h
    · cases h
    · cases h
      exact ⟨⟨rfl, rfl⟩, by rw [if_neg hsome]⟩

end Record

end GuardState

end Iona
