import Iona.Lib.Search
import Iona.Lib.Text
import Iona.Lib.Trace
import Iona.Storage.Delta

/-!
# State sync

`net/state_sync.rs` restores a missing `state_full.json` from peers: along a chain of deltas from a
local snapshot if there is one, and from a whole snapshot otherwise. What the peers answer is data.

## Main definitions

* `Peers`: all answers of an exchange.
* `findDeltaPath`, `deltaSync`: the chain of deltas.
* `downloadSnapshot`, `fullSync`: the whole snapshot, chunk by chunk.
* `restore`: the exchange.
-/

namespace Iona.StateSync

open Snapshots (StateDelta plainRoot)

/-! ### Messages -/

/-- What a peer says about its snapshot. -/
structure StateManifest where
  height : ℕ
  totalBytes : ℕ
  blake3Hex : String
  chunkSize : ℕ
  chunkHashes : List String
  stateRootHex : Option String := none
deriving DecidableEq, Repr

/-- What a peer says about a delta. -/
structure DeltaManifest where
  totalBytes : ℕ
  chunkSize : ℕ
  chunkHashes : List String
  toStateRootHex : String
deriving DecidableEq, Repr

/-- A piece of a file, and whether the peer calls it the last. -/
structure Chunk where
  data : List UInt8
  done : Bool
deriving DecidableEq, Repr

/-- A manifest with the peer it came from. -/
structure Offer where
  peer : ℕ
  mani : StateManifest
  rttMs : ℕ
deriving DecidableEq, Repr

/-- What the peer that was asked for a delta answers. -/
structure EdgeAnswer where
  manifest : Option DeltaManifest := none
  chunks : List (Option Chunk) := []
deriving DecidableEq, Repr

/-- What the outside does in one call: which peers can be dialled, what they answer to each kind of
request, in the order in which it is asked, and when. `started` and `lastWait` are the seconds on the
clock when the first and the last deadline of the call are set. -/
structure Peers where
  dialled : ℕ
  started : ℕ := 0
  lastWait : ℕ := 0
  offers : List Offer
  probes : List ℕ := []
  indexes : List (Option (List (ℕ × ℕ))) := []
  deltas : List EdgeAnswer := []
  tail : List (Option Chunk) := []
  chunks : List (Option Chunk) := []
deriving DecidableEq, Repr

/-- The local snapshots. -/
structure LocalDir where
  stateFull : Bool := false
  names : Option (List String) := some []
  snapshot : ℕ → Option (List UInt8) := fun _ => none
  begun : ℕ → Option (List UInt8) := fun _ => none

/-- Compression and JSON, as functions. -/
structure SyncFormat where
  decompress : List UInt8 → Except String (List UInt8)
  decodeState : List UInt8 → Except String KvState
  encodeState : KvState → Except String (List UInt8)
  decodeDelta : List UInt8 → Except String StateDelta
  decodeState_encodeState : ∀ {st bytes}, encodeState st = .ok bytes → decodeState bytes = .ok st

/-- The configuration. -/
structure StateSyncConfig where
  requestTimeoutSecs : ℕ := 30
  maxChunkBytes : ℕ := 1024 * 1024
  maxCandidates : ℕ := 6
  probeLen : ℕ := 262144
deriving DecidableEq, Repr

/-- `validate`. -/
def StateSyncConfig.validate (config : StateSyncConfig) : Except String Unit :=
  if config.requestTimeoutSecs = 0 then .error "request_timeout_secs must be > 0"
  else if config.maxChunkBytes = 0 then .error "max_chunk_bytes must be > 0"
  else if config.maxCandidates = 0 then .error "max_candidates must be > 0"
  else if config.probeLen = 0 then .error "probe_len must be > 0"
  else .ok ()

/-! ### Candidates -/

/-- A peer with its offer and its measured speed. -/
structure Candidate where
  peer : ℕ
  mani : StateManifest
  rttMs : ℕ
  throughputBps : ℕ := 0
deriving DecidableEq, Repr

/-- The manifests that are considered at all. -/
def Offer.usable (o : Offer) : Bool :=
  decide (0 < o.mani.height ∧ 0 < o.mani.totalBytes ∧ 0 < o.mani.chunkSize ∧ o.mani.chunkHashes ≠ [])

/-- The candidates, as many as the configuration allows. -/
def collect (config : StateSyncConfig) (offers : List Offer) : List Candidate :=
  ((offers.filter Offer.usable).take config.maxCandidates).map fun o =>
    { peer := o.peer, mani := o.mani, rttMs := o.rttMs }

/-- The order by height. -/
def higher (a b : Candidate) : Prop :=
  b.mani.height < a.mani.height ∨ a.mani.height = b.mani.height ∧ a.rttMs ≤ b.rttMs

instance : DecidableRel higher := fun _ _ => inferInstanceAs (Decidable (_ ∨ _))

/-- The order by speed. -/
def faster (a b : Candidate) : Prop :=
  b.throughputBps < a.throughputBps ∨ a.throughputBps = b.throughputBps ∧ a.rttMs ≤ b.rttMs

instance : DecidableRel faster := fun _ _ => inferInstanceAs (Decidable (_ ∨ _))

/-- The candidates of the greatest height, the fastest first. -/
def rank (probes : List ℕ) (candidates : List Candidate) : List Candidate :=
  let sorted := candidates.insertionSort higher
  let bestHeight := (sorted.head?.map fun c => c.mani.height).getD 0
  let best := sorted.filter fun c => c.mani.height == bestHeight
  (best.mapIdx fun i c => if i < 3 then { c with throughputBps := probes.getD i 0 } else c).insertionSort
    faster

/-- The candidates of an exchange. -/
def best (config : StateSyncConfig) (peers : Peers) : List Candidate :=
  rank peers.probes (collect config peers.offers)

/-- The manifest that is restored from. -/
def chosen (config : StateSyncConfig) (peers : Peers) : Option StateManifest :=
  (best config peers).head?.map fun c => c.mani

/-! ### The path of deltas -/

/-- The newest local snapshot. -/
def latestSnapshotHeight (names : List String) : Option ℕ :=
  (names.filterMap fun name =>
    (Text.stripPrefix "state_" name).bind fun rest =>
      Text.parseUnsigned (2 ^ 64 - 1) (String.ofList (rest.toList.takeWhile (· != '.')))).max?

/-- The edges that the candidates offer. -/
def advertised (candidates : List Candidate) (indexes : List (Option (List (ℕ × ℕ)))) :
    List ((ℕ × ℕ) × ℕ) :=
  ((candidates.take 6).zip indexes).flatMap fun x =>
    (x.2.getD []).map fun edge => (edge, x.1.peer)

/-- The order in which edges are tried. -/
def edgeOrder (a b : ℕ × ℕ) : Prop := a.1 < b.1 ∨ a.1 = b.1 ∧ a.2 ≤ b.2

instance : DecidableRel edgeOrder := fun _ _ => inferInstanceAs (Decidable (_ ∨ _))

/-- The edges without repetition, in order. -/
def allEdges (edges : List (ℕ × ℕ)) : List (ℕ × ℕ) := edges.dedup.insertionSort edgeOrder

/-- The heights that an edge leads to. -/
def neighbours (edges : List (ℕ × ℕ)) (height : ℕ) : List ℕ :=
  (edges.filter fun e => e.1 == height).map Prod.snd

/-- `find_delta_path`, a breadth-first search. -/
def findDeltaPath (edges : List (ℕ × ℕ)) (fromH toH : ℕ) : Option (List (ℕ × ℕ)) :=
  Search.findPath (neighbours edges) toH (edges.length + 1) fromH

/-- The fastest candidate that offers an edge; a peer that is no candidate takes its place. -/
def choosePeer (candidates : List Candidate) (peersForEdge : List ℕ) : Option ℕ :=
  (peersForEdge.foldl (fun (acc : Option ℕ × ℕ × ℕ) p =>
    match candidates.find? fun c => c.peer == p with
    | some c =>
      if acc.2.1 < c.throughputBps ∨ c.throughputBps = acc.2.1 ∧ c.rttMs < acc.2.2 then
        (some p, c.throughputBps, c.rttMs)
      else acc
    | none => (some p, acc.2)) (none, 0, 2 ^ 64 - 1)).1

/-! ### A chain of deltas -/

/-- Why a chain of deltas ends early. -/
inductive Stop
  | fallback
  | failed (reason : String)
  | panicked
deriving DecidableEq, Repr

/-- The state reached, and the cache of roots. -/
structure Chain where
  state : KvState
  cache : Merkle.RootCache

/-- One edge of the path with the answer to it. -/
structure Hop where
  edge : ℕ × ℕ
  peer : Option ℕ
  answer : EdgeAnswer
deriving DecidableEq, Repr

section Deltas

variable (C : Crypto) (K : SyncFormat)

/-- The hash of a file as it stands in manifests. -/
def blake3Hex (bytes : List UInt8) : String := Bytes.hexEncode (C.blake3 bytes).toList

/-- `verify_delta_chunk_hash`. -/
def verifyDeltaChunkHash (dm : DeltaManifest) (offset : ℕ) (data : List UInt8) : Bool :=
  dm.chunkHashes[offset / dm.chunkSize]? == some (blake3Hex C data)

/-- The loop over the chunks of a delta. -/
def fetchDelta (dm : DeltaManifest) : List (Option Chunk) → ℕ → List UInt8 →
    Except Stop (List UInt8)
  | answers, off, file =>
    if dm.totalBytes ≤ off then .ok file
    else
      match answers with
      | [] => .error .fallback
      | none :: _ => .error .fallback
      | some chunk :: answers =>
        if dm.chunkSize = 0 then .error .panicked
        else if verifyDeltaChunkHash C dm off chunk.data = false then .error .fallback
        else if chunk.done then .ok (file ++ chunk.data)
        else fetchDelta dm answers (off + chunk.data.length) (file ++ chunk.data)

/-- What becomes of the file of a delta. -/
def decodeDeltaFile (dm : DeltaManifest) : Except Stop (List UInt8) → Except Stop (StateDelta × String)
  | .error stop => .error stop
  | .ok file =>
    match K.decompress file with
    | .error e => .error (.failed ("delta decode: " ++ e))
    | .ok json =>
      match K.decodeDelta json with
      | .error e => .error (.failed ("delta json: " ++ e))
      | .ok delta => .ok (delta, dm.toStateRootHex)

/-- A delta and the root it is said to lead to. -/
def fetchEdge (answer : EdgeAnswer) : Except Stop (StateDelta × String) :=
  match answer.manifest with
  | none => .error .fallback
  | some dm =>
    if dm.totalBytes = 0 ∨ dm.chunkHashes = [] then .error .fallback
    else decodeDeltaFile K dm (fetchDelta C dm answer.chunks 0 [])

/-- A root as it stands in manifests. -/
def rootHex (root : Hash32) : String := Bytes.hexEncode root.toList

/-- The chain after a delta, whose root must be the one that its manifest gives. -/
def land (c : Chain) : Except Stop (StateDelta × String) → Except Stop Chain
  | .error stop => .error stop
  | .ok (delta, toStateRootHex) =>
    let next := Snapshots.applyDelta c.state delta
    if rootHex (next.root C c.cache).1 ≠ toStateRootHex then .error .fallback
    else .ok { state := next, cache := (next.root C c.cache).2 }

/-- One delta fetched, applied and compared. -/
def hop (c : Chain) (h : Hop) : Except Stop Chain :=
  match h.peer with
  | none => .error .fallback
  | some _ => land C c (fetchEdge C K h.answer)

/-- The deltas of a path in turn. -/
def runHops : Chain → List Hop → Except Stop Chain
  | c, [] => .ok c
  | c, h :: hops =>
    match hop C K c h with
    | .error stop => .error stop
    | .ok c => runHops c hops

end Deltas

/-! ### The whole snapshot -/

section Snapshot

variable (C : Crypto)

/-- `verify_full_chunk_hash`: only the last chunk may be shorter than the chunk size. -/
def verifyFullChunkHash (m : StateManifest) (chunkStart : ℕ) (data : List UInt8) : Bool :=
  match m.chunkHashes[chunkStart / m.chunkSize]? with
  | none => false
  | some hash =>
    if data.length ≠ m.chunkSize ∧ chunkStart + data.length < m.totalBytes then false
    else hash == blake3Hex C data

/-- The first chunk of a download begun earlier that does not verify. -/
def firstBadChunk (m : StateManifest) (file : List UInt8) : ℕ → ℕ → Option ℕ
  | 0, _ => none
  | k + 1, off =>
    if verifyFullChunkHash C m off ((file.drop off).take m.chunkSize) then
      firstBadChunk m file k (off + m.chunkSize)
    else some off

/-- Where a download begun earlier goes on. -/
structure ResumeInfo where
  chunkStart : ℕ
  partialLen : ℕ
deriving DecidableEq, Repr

/-- What is kept of a download begun earlier. -/
def resumeInfo (m : StateManifest) (begun : Option (List UInt8)) : List UInt8 × ResumeInfo :=
  match begun with
  | none => ([], ⟨0, 0⟩)
  | some file =>
    if file.length = 0 then (file, ⟨0, 0⟩)
    else
      match firstBadChunk C m file (file.length / m.chunkSize) 0 with
      | some off => (file.take off, ⟨off, 0⟩)
      | none => (file, ⟨file.length / m.chunkSize * m.chunkSize, file.length % m.chunkSize⟩)

/-- The file with `data` written at an offset. -/
def writeAt (file : List UInt8) (off : ℕ) (data : List UInt8) : List UInt8 :=
  if data = [] then file
  else
    file.take off ++ List.replicate (off - file.length) 0 ++ data ++ file.drop (off + data.length)

/-- The loop over the chunk a download stopped in. -/
def tailLoop (m : StateManifest) (peerCount : ℕ) (resume : ResumeInfo) :
    List (Option Chunk) → ℕ → List UInt8 → Option (List UInt8)
  | [], _, _ => none
  | none :: answers, peerIdx, file =>
    if peerCount ≤ peerIdx then none else tailLoop m peerCount resume answers (peerIdx + 1) file
  | some chunk :: answers, peerIdx, file =>
    if peerCount ≤ peerIdx then none
    else
      let tailOff := resume.chunkStart + resume.partialLen
      let written := writeAt file tailOff chunk.data
      let wantLen := min (m.totalBytes - resume.chunkStart) m.chunkSize
      if min (resume.chunkStart + m.chunkSize) m.totalBytes ≤ tailOff + chunk.data.length ∧
          wantLen = m.chunkSize ∧
          verifyFullChunkHash C m resume.chunkStart ((written.drop resume.chunkStart).take wantLen) =
            false then
        tailLoop m peerCount resume answers (peerIdx + 1) written
      else some written

/-- The loop over whole chunks. -/
def chunkLoop (m : StateManifest) (peerCount : ℕ) :
    List (Option Chunk) → ℕ → ℕ → List UInt8 → Option (List UInt8)
  | answers, peerIdx, offset, file =>
    if m.totalBytes ≤ offset then some file
    else if peerCount ≤ peerIdx then none
    else
      match answers with
      | [] => none
      | none :: answers => chunkLoop m peerCount answers (peerIdx + 1) offset file
      | some chunk :: answers =>
        if min (m.totalBytes - offset) m.chunkSize = m.chunkSize ∧
            verifyFullChunkHash C m offset chunk.data = false then
          chunkLoop m peerCount answers (peerIdx + 1) offset file
        else if chunk.done then some (writeAt file offset chunk.data)
        else
          chunkLoop m peerCount answers 0 (offset + chunk.data.length)
            (writeAt file offset chunk.data)

/-- The file put together from the chunks. -/
def downloadSnapshot (m : StateManifest) (peerCount : ℕ) (begun : Option (List UInt8))
    (tail chunks : List (Option Chunk)) : Option (List UInt8) :=
  let (file, resume) := resumeInfo C m begun
  let resume : ResumeInfo :=
    if file.length < resume.chunkStart + resume.partialLen then
      ⟨file.length / m.chunkSize * m.chunkSize, file.length % m.chunkSize⟩
    else resume
  if 0 < resume.partialLen ∧ resume.chunkStart < m.totalBytes then
    (tailLoop C m peerCount resume tail 0 file).bind fun file =>
      let offset := resume.chunkStart + min m.chunkSize (m.totalBytes - resume.chunkStart)
      chunkLoop C m peerCount chunks 0 offset file
  else chunkLoop C m peerCount chunks 0 resume.chunkStart file

end Snapshot

/-! ### Restoring the state -/

/-- The two ways to a state. -/
inductive Source
  | deltas
  | snapshot
deriving DecidableEq, Repr

/-- What an exchange comes to. -/
inductive Outcome
  | notRestored
  | restored (source : Source) (file : List UInt8)
  | failed (reason : String)
  | panicked
deriving DecidableEq, Repr

section Restore

variable (C : Crypto) (K : SyncFormat)

/-- The state of a local snapshot. -/
def readSnapshotState (dir : LocalDir) (height : ℕ) : Except String KvState :=
  match dir.snapshot height with
  | none => .error "I/O error: No such file or directory (os error 2)"
  | some compressed =>
    match K.decompress compressed with
    | .error e => .error ("zstd error: " ++ e)
    | .ok json => (K.decodeState json).mapError ("JSON error: " ++ ·)

/-- The edges of a path with the answers to them. -/
def hopsAlong (candidates : List Candidate) (peers : Peers) (path : List (ℕ × ℕ)) : List Hop :=
  path.mapIdx fun i edge =>
    { edge
      peer := choosePeer candidates
        (((advertised candidates peers.indexes).filter fun x => x.1 == edge).map Prod.snd)
      answer := peers.deltas.getD i {} }

/-- The start and the edges of a chain, if there is one. -/
def deltaPlan (candidates : List Candidate) (m : StateManifest) (dir : LocalDir) (peers : Peers) :
    Option (Except String (KvState × List Hop)) :=
  match dir.names.bind latestSnapshotHeight with
  | none => none
  | some localH =>
    if 0 < localH ∧ localH < m.height then
      match findDeltaPath (allEdges ((advertised candidates peers.indexes).map Prod.fst)) localH
          m.height with
      | none => none
      | some path =>
        some ((readSnapshotState K dir localH).map fun base =>
          (base, hopsAlong candidates peers path))
    else none

/-- What becomes of a chain of deltas that was run. -/
def deltaOutcome (m : StateManifest) : Except Stop Chain → Option Outcome
  | .error .fallback => none
  | .error (.failed e) => some (.failed e)
  | .error .panicked => some .panicked
  | .ok c =>
    if m.stateRootHex.all fun r => rootHex (c.state.root C c.cache).1 == r then
      match K.encodeState c.state with
      | .error e => some (.failed e)
      | .ok file => some (.restored .deltas file)
    else none

/-- The way by deltas. -/
def deltaSync (candidates : List Candidate) (m : StateManifest) (dir : LocalDir) (peers : Peers)
    (cache : Merkle.RootCache) : Option Outcome :=
  match deltaPlan K candidates m dir peers with
  | none => none
  | some (.error e) => some (.failed e)
  | some (.ok (base, hops)) => deltaOutcome C K m (runHops C K { state := base, cache } hops)

/-- What becomes of a file that was downloaded. -/
def fullOutcome (m : StateManifest) : Option (List UInt8) → Outcome
  | none => .notRestored
  | some file =>
    if m.blake3Hex ≠ "" ∧ m.blake3Hex ≠ blake3Hex C file then .notRestored
    else
      match K.decompress file with
      | .error e => .failed e
      | .ok json =>
        match K.decodeState json with
        | .error e => .failed e
        | .ok _ => .restored .snapshot json

/-- The way by a whole snapshot. -/
def fullSync (candidates : List Candidate) (m : StateManifest) (dir : LocalDir) (peers : Peers) :
    Outcome :=
  fullOutcome C K m
    (downloadSnapshot C m candidates.length (dir.begun m.height) peers.tail peers.chunks)

/-- The last second that an `Instant` can hold. -/
def lastInstant : ℕ := 2 ^ 63 - 1

/-- The longest time that is waited for an answer, in seconds. -/
def StateSyncConfig.patience (config : StateSyncConfig) : ℕ := max config.requestTimeoutSecs 3

/-- The deadline for manifests is twice the timeout away: a product of `u64`, added to an `Instant`. -/
def CollectFits (config : StateSyncConfig) (peers : Peers) : Prop :=
  config.patience * 2 ≤ Machine.u64Max ∧ peers.started + config.patience * 2 ≤ lastInstant

/-- Every later deadline is the timeout away, and the last of them is the latest. -/
def WaitsFit (config : StateSyncConfig) (peers : Peers) : Prop :=
  peers.lastWait + config.patience ≤ lastInstant

instance decidableCollectFits (config : StateSyncConfig) (peers : Peers) :
    Decidable (CollectFits config peers) :=
  inferInstanceAs (Decidable (_ ∧ _))

instance decidableWaitsFit (config : StateSyncConfig) (peers : Peers) :
    Decidable (WaitsFit config peers) :=
  inferInstanceAs (Decidable (_ ≤ _))

/-- `try_p2p_restore_state_with_config`. -/
def restore (config : StateSyncConfig) (dir : LocalDir) (peers : Peers) (cache : Merkle.RootCache) :
    Outcome :=
  match config.validate with
  | .error e => .failed ("invalid state sync config: " ++ e)
  | .ok () =>
    if dir.stateFull then .notRestored
    else if peers.dialled = 0 then .notRestored
    else if ¬ CollectFits config peers then .panicked
    else
      match chosen config peers with
      | none => .notRestored
      | some m =>
        if ¬ WaitsFit config peers then .panicked
        else
          (deltaSync C K (best config peers) m dir peers cache).getD
            (fullSync C K (best config peers) m dir peers)

end Restore

end Iona.StateSync
