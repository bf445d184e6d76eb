import Iona.Net.SyncedRoot

/-!
# State sync with hostile peers

## Main definitions

* `restoreCounted` and the functions it calls: those of the exchange with a counter of the chunk
  requests; each has the value of the one it counts for.
* `Progressing`: peers whose deltas have a chunk size and whose chunks bring a byte or are the last.

## Main results

* `restore_survives`: with such peers the exchange does not panic, and the number of requests is
  bounded by the sizes in the manifests and the number of peers.
* `restore_hostile`: three exchanges that panic or go on for as long as the peer likes.
-/

namespace Iona.StateSync

open List

/-! ### Counting requests -/

section Count

variable (C : Crypto) (K : SyncFormat)

/-- `fetchDelta` with the number of requests. -/
def fetchDeltaCounted (dm : DeltaManifest) : List (Option Chunk) → ℕ → List UInt8 →
    Except Stop (List UInt8) × ℕ
  | answers, off, file =>
    if dm.totalBytes ≤ off then (.ok file, 0)
    else
      match answers with
      | [] => (.error .fallback, 1)
      | none :: _ => (.error .fallback, 1)
      | some chunk :: answers =>
        if dm.chunkSize = 0 then (.error .panicked, 1)
        else if verifyDeltaChunkHash C dm off chunk.data = false then (.error .fallback, 1)
        else if chunk.done then (.ok (file ++ chunk.data), 1)
        else
          let next := fetchDeltaCounted dm answers (off + chunk.data.length) (file ++ chunk.data)
          (next.1, next.2 + 1)

/-- `hop` with the number of requests. -/
def hopCounted (c : Chain) (h : Hop) : Except Stop Chain × ℕ :=
  match h.peer, h.answer.manifest with
  | some _, some dm =>
    if dm.totalBytes = 0 ∨ dm.chunkHashes = [] then (.error .fallback, 0)
    else
      let fetched := fetchDeltaCounted C dm h.answer.chunks 0 []
      (land C c (decodeDeltaFile K dm fetched.1), fetched.2)
  | _, _ => (.error .fallback, 0)

/-- `runHops` with the number of requests. -/
def runHopsCounted : Chain → List Hop → Except Stop Chain × ℕ
  | c, [] => (.ok c, 0)
  | c, h :: hops =>
    match hopCounted C K c h with
    | (.error stop, n) => (.error stop, n)
    | (.ok c, n) =>
      let next := runHopsCounted c hops
      (next.1, n + next.2)

/-- `tailLoop` with the number of requests. -/
def tailLoopCounted (m : StateManifest) (peerCount : ℕ) (resume : ResumeInfo) :
    List (Option Chunk) → ℕ → List UInt8 → Option (List UInt8) × ℕ
  | [], peerIdx, _ => (none, peerCount - peerIdx)
  | none :: answers, peerIdx, file =>
    if peerCount ≤ peerIdx then (none, 0)
    else
      let next := tailLoopCounted m peerCount resume answers (peerIdx + 1) file
      (next.1, next.2 + 1)
  | some chunk :: answers, peerIdx, file =>
    if peerCount ≤ peerIdx then (none, 0)
    else
      let tailOff := resume.chunkStart + resume.partialLen
      let written := writeAt file tailOff chunk.data
      let wantLen := min (m.totalBytes - resume.chunkStart) m.chunkSize
      if min (resume.chunkStart + m.chunkSize) m.totalBytes ≤ tailOff + chunk.data.length ∧
          wantLen = m.chunkSize ∧
          verifyFullChunkHash C m resume.chunkStart ((written.drop resume.chunkStart).take wantLen) =
            false then
        let next := tailLoopCounted m peerCount resume answers (peerIdx + 1) written
        (next.1, next.2 + 1)
      else (some written, 1)

/-- `chunkLoop` with the number of requests. -/
def chunkLoopCounted (m : StateManifest) (peerCount : ℕ) :
    List (Option Chunk) → ℕ → ℕ → List UInt8 → Option (List UInt8) × ℕ
  | answers, peerIdx, offset, file =>
    if m.totalBytes ≤ offset then (some file, 0)
    else if peerCount ≤ peerIdx then (none, 0)
    else
      match answers with
      | [] => (none, peerCount - peerIdx)
      | none :: answers =>
        let next := chunkLoopCounted m peerCount answers (peerIdx + 1) offset file
        (next.1, next.2 + 1)
      | some chunk :: answers =>
        if min (m.totalBytes - offset) m.chunkSize = m.chunkSize ∧
            verifyFullChunkHash C m offset chunk.data = false then
          let next := chunkLoopCounted m peerCount answers (peerIdx + 1) offset file
          (next.1, next.2 + 1)
        else if chunk.done then (some (writeAt file offset chunk.data), 1)
        else
          let next := chunkLoopCounted m peerCount answers 0 (offset + chunk.data.length)
            (writeAt file offset chunk.data)
          (next.1, next.2 + 1)

/-- `downloadSnapshot` with the number of requests. -/
def downloadCounted (m : StateManifest) (peerCount : ℕ) (begun : Option (List UInt8))
    (tail chunks : List (Option Chunk)) : Option (List UInt8) × ℕ :=
  let (file, resume) := resumeInfo C m begun
  let resume : ResumeInfo :=
    if file.length < resume.chunkStart + resume.partialLen then
      ⟨file.length / m.chunkSize * m.chunkSize, file.length % m.chunkSize⟩
    else resume
  if 0 < resume.partialLen ∧ resume.chunkStart < m.totalBytes then
    let first := tailLoopCounted C m peerCount resume tail 0 file
    match first.1 with
    | none => (none, first.2)
    | some file =>
      let offset := resume.chunkStart + min m.chunkSize (m.totalBytes - resume.chunkStart)
      let next := chunkLoopCounted C m peerCount chunks 0 offset file
      (next.1, first.2 + next.2)
  else chunkLoopCounted C m peerCount chunks 0 resume.chunkStart file

/-- `deltaSync` with the number of requests. -/
def deltaSyncCounted (candidates : List Candidate) (m : StateManifest) (dir : LocalDir) (peers : Peers)
    (cache : Merkle.RootCache) : Option Outcome × ℕ :=
  match deltaPlan K candidates m dir peers with
  | none => (none, 0)
  | some (.error e) => (some (.failed e), 0)
  | some (.ok (base, hops)) =>
    let run := runHopsCounted C K { state := base, cache } hops
    (deltaOutcome C K m run.1, run.2)

/-- A call with the number of its chunk requests: up to three probes, the chunks of the deltas and those of
the snapshot. -/
def restoreCounted (config : StateSyncConfig) (dir : LocalDir) (peers : Peers)
    (cache : Merkle.RootCache) : Outcome × ℕ :=
  match config.validate with
  | .error e => (.failed ("invalid state sync config: " ++ e), 0)
  | .ok () =>
    if dir.stateFull then (.notRestored, 0)
    else if peers.dialled = 0 then (.notRestored, 0)
    else if ¬ CollectFits config peers then (.panicked, 0)
    else
      match chosen config peers with
      | none => (.notRestored, 0)
      | some m =>
        let candidates := best config peers
        let probes := min 3 candidates.length
        let deltas := deltaSyncCounted C K candidates m dir peers cache
        let sent := match deltas.1 with
          | some outcome => (outcome, probes + deltas.2)
          | none =>
            let file := downloadCounted C m candidates.length (dir.begun m.height) peers.tail peers.chunks
            (fullOutcome C K m file.1, probes + deltas.2 + file.2)
        if ¬ WaitsFit config peers then (.panicked, sent.2) else sent

end Count

/-! ### The loops are those of the client -/

section Value

variable {C : Crypto} {K : SyncFormat}

lemma fetchDeltaCounted_value (dm : DeltaManifest) (answers : List (Option Chunk)) (off : ℕ)
    (file : List UInt8) :
    (fetchDeltaCounted C dm answers off file).1 = fetchDelta C dm answers off file := by
  induction answers generalizing off file with
  | nil =>
    unfold fetchDeltaCounted fetchDelta
    split <;> rfl
  | cons answer answers ih =>
    unfold fetchDeltaCounted fetchDelta
    split
    · rfl
    · cases answer with
      | none => rfl
      | some chunk =>
        dsimp only
        split
        · rfl
        · split
          · rfl
          · split
            · rfl
            · exact ih _ _

lemma hopCounted_value (c : Chain) (h : Hop) : (hopCounted C K c h).1 = hop C K c h := by
  unfold hopCounted hop fetchEdge
  cases h.peer with
  | none => rfl
  | some peer =>
    cases h.answer.manifest with
    | none => rfl
    | some dm =>
      dsimp only
      split
      · rfl
      · rw [← fetchDeltaCounted_value]

lemma runHopsCounted_value (c : Chain) (hops : List Hop) :
    (runHopsCounted C K c hops).1 = runHops C K c hops := by
  induction hops generalizing c with
  | nil => rfl
  | cons h hops ih =>
    rw [runHopsCounted, runHops, ← hopCounted_value]
    rcases hopCounted C K c h with ⟨stop | c', n⟩
    · rfl
    · exact ih c'

lemma tailLoopCounted_value (m : StateManifest) (peerCount : ℕ) (resume : ResumeInfo)
    (answers : List (Option Chunk)) (peerIdx : ℕ) (file : List UInt8) :
    (tailLoopCounted C m peerCount resume answers peerIdx file).1 =
      tailLoop C m peerCount resume answers peerIdx file := by
  induction answers generalizing peerIdx file with
  | nil => rfl
  | cons answer answers ih =>
    cases answer with
    | none =>
      rw [tailLoopCounted, tailLoop]
      split
      · rfl
      · exact ih _ _
    | some chunk =>
      rw [tailLoopCounted, tailLoop]
      split
      · rfl
      · dsimp only
        split
        · exact ih _ _
        · rfl

lemma chunkLoopCounted_value (m : StateManifest) (peerCount : ℕ) (answers : List (Option Chunk))
    (peerIdx offset : ℕ) (file : List UInt8) :
    (chunkLoopCounted C m peerCount answers peerIdx offset file).1 =
      chunkLoop C m peerCount answers peerIdx offset file := by
  induction answers generalizing peerIdx offset file with
  | nil =>
    unfold chunkLoopCounted chunkLoop
    split
    · rfl
    · split <;> rfl
  | cons answer answers ih =>
    unfold chunkLoopCounted chunkLoop
    split
    · rfl
    · split
      · rfl
      · cases answer with
        | none => exact ih _ _ _
        | some chunk =>
          dsimp only
          split
          · exact ih _ _ _
          · split
            · rfl
            · exact ih _ _ _

lemma downloadCounted_value (m : StateManifest) (peerCount : ℕ) (begun : Option (List UInt8))
    (tail chunks : List (Option Chunk)) :
    (downloadCounted C m peerCount begun tail chunks).1 = downloadSnapshot C m peerCount begun tail chunks := by
  unfold downloadCounted downloadSnapshot
  obtain ⟨file, start⟩ := resumeInfo C m begun
  dsimp only
  generalize (if file.length < start.chunkStart + start.partialLen then
    ResumeInfo.mk (file.length / m.chunkSize * m.chunkSize) (file.length % m.chunkSize)
    else start) = resume
  split
  · rw [← tailLoopCounted_value]
    split
    · rename_i hnone
      rw [hnone, Option.bind_none]
    · rename_i hsome
      rw [hsome, Option.bind_some]
      exact chunkLoopCounted_value _ _ _ _ _ _
  · exact chunkLoopCounted_value _ _ _ _ _ _

lemma deltaSyncCounted_value (candidates : List Candidate) (m : StateManifest) (dir : LocalDir)
    (peers : Peers) (cache : Merkle.RootCache) :
    (deltaSyncCounted C K candidates m dir peers cache).1 = deltaSync C K candidates m dir peers cache := by
  unfold deltaSyncCounted deltaSync
  rcases deltaPlan K candidates m dir peers with _ | e | ⟨base, hops⟩
  · rfl
  · rfl
  · exact congrArg (deltaOutcome C K m) (runHopsCounted_value _ _)

/-- The call that is counted is the call. -/
lemma restoreCounted_value (config : StateSyncConfig) (dir : LocalDir) (peers : Peers)
    (cache : Merkle.RootCache) :
    (restoreCounted C K config dir peers cache).1 = restore C K config dir peers cache := by
  unfold restoreCounted restore
  cases config.validate with
  | error e => rfl
  | ok =>
    dsimp only
    split
    · rfl
    split
    · rfl
    split
    · rfl
    cases chosen config peers with
    | none => rfl
    | some m =>
      dsimp only
      split
      · rfl
      rw [← deltaSyncCounted_value]
      cases (deltaSyncCounted C K (best config peers) m dir peers cache).1 with
      | some outcome => rfl
      | none => exact congrArg (fullOutcome C K m) (downloadCounted_value _ _ _ _ _)

end Value

/-! ### Peers that make progress -/

/-- Every chunk brings a byte or is the last. -/
def Moves (answers : List (Option Chunk)) : Prop :=
  ∀ chunk, some chunk ∈ answers → chunk.done = true ∨ chunk.data ≠ []

/-- The peers keep the loops going. -/
structure Progressing (peers : Peers) : Prop where
  sizes : ∀ answer ∈ peers.deltas, ∀ dm, answer.manifest = some dm → dm.chunkSize ≠ 0
  deltas : ∀ answer ∈ peers.deltas, Moves answer.chunks
  chunks : Moves peers.chunks

/-- The size a peer gives for a delta. -/
def deltaBytes (answer : EdgeAnswer) : ℕ := (answer.manifest.map DeltaManifest.totalBytes).getD 0

variable {answers : List (Option Chunk)}

lemma Moves.of_cons {answer : Option Chunk} (h : Moves (answer :: answers)) : Moves answers :=
  fun chunk hchunk => h chunk (mem_cons_of_mem _ hchunk)

lemma Moves.length_pos {chunk : Chunk} (h : Moves (some chunk :: answers))
    (hdone : chunk.done ≠ true) : 0 < chunk.data.length := by
  rcases h chunk mem_cons_self with hlast | hdata
  · exact absurd hlast hdone
  · exact length_pos_iff.mpr hdata

section Bounds

variable {C : Crypto} {K : SyncFormat}

variable {chunks : List (Option Chunk)}

lemma fetchDeltaCounted_requests (dm : DeltaManifest) (hmoves : Moves answers) (off : ℕ)
    (file : List UInt8) : (fetchDeltaCounted C dm answers off file).2 ≤ dm.totalBytes - off := by
  induction answers generalizing off file with
  | nil =>
    unfold fetchDeltaCounted
    split
    · exact Nat.zero_le _
    · dsimp only
      omega
  | cons answer answers ih =>
    unfold fetchDeltaCounted
    split
    · exact Nat.zero_le _
    · cases answer with
      | none =>
        dsimp only
        omega
      | some chunk =>
        dsimp only
        split
        · dsimp only
          omega
        · split
          · dsimp only
            omega
          · split
            · dsimp only
              omega
            · rename_i hdone
              have hpos := hmoves.length_pos hdone
              -- the offset moves by what was received
              have hnext := ih hmoves.of_cons (off + chunk.data.length) (file ++ chunk.data)
              omega

lemma tailLoopCounted_requests (m : StateManifest) (peerCount : ℕ) (resume : ResumeInfo)
    (answers : List (Option Chunk)) (peerIdx : ℕ) (file : List UInt8) :
    (tailLoopCounted C m peerCount resume answers peerIdx file).2 ≤ peerCount - peerIdx := by
  induction answers generalizing peerIdx file with
  | nil => exact Nat.le_refl _
  | cons answer answers ih =>
    cases answer with
    | none =>
      rw [tailLoopCounted]
      split
      · exact Nat.zero_le _
      · have hnext := ih (peerIdx + 1) file
        dsimp only
        omega
    | some chunk =>
      rw [tailLoopCounted]
      split
      · exact Nat.zero_le _
      · dsimp only
        split
        · have hnext := ih (peerIdx + 1)
            (writeAt file (resume.chunkStart + resume.partialLen) chunk.data)
          omega
        · dsimp only
          omega

lemma chunkLoopCounted_requests (m : StateManifest) (peerCount : ℕ) (hmoves : Moves answers)
    (peerIdx offset : ℕ) (file : List UInt8) :
    (chunkLoopCounted C m peerCount answers peerIdx offset file).2 ≤
      (m.totalBytes - offset) * peerCount - peerIdx := by
  have hround : ∀ {offset}, offset < m.totalBytes → peerCount ≤ (m.totalBytes - offset) * peerCount :=
    fun hoffset => Nat.le_mul_of_pos_left _ (Nat.sub_pos_of_lt hoffset)
  induction answers generalizing peerIdx offset file with
  | nil =>
    unfold chunkLoopCounted
    split
    · exact Nat.zero_le _
    · rename_i hoffset
      split
      · exact Nat.zero_le _
      · have hround := hround (Nat.lt_of_not_ge hoffset)
        dsimp only
        omega
  | cons answer answers ih =>
    unfold chunkLoopCounted
    split
    · exact Nat.zero_le _
    · rename_i hoffset
      split
      · exact Nat.zero_le _
      · rename_i hpeer
        have hround := hround (Nat.lt_of_not_ge hoffset)
        -- the next peer is asked for the same chunk
        have hretry := ih hmoves.of_cons (peerIdx + 1) offset file
        cases answer with
        | none =>
          dsimp only
          omega
        | some chunk =>
          dsimp only
          split
          · dsimp only
            omega
          · split
            · dsimp only
              omega
            · rename_i hdone
              have hpos := hmoves.length_pos hdone
              have hnext := ih hmoves.of_cons 0 (offset + chunk.data.length)
                (writeAt file offset chunk.data)
              -- a byte less to fetch pays for asking all peers again
              have hless : (m.totalBytes - (offset + chunk.data.length)) * peerCount + peerCount ≤
                  (m.totalBytes - offset) * peerCount := by
                rw [← Nat.succ_mul]
                exact Nat.mul_le_mul_right _ (by omega)
              dsimp only
              omega

lemma downloadCounted_le (m : StateManifest) (peerCount : ℕ) (begun : Option (List UInt8))
    (tail : List (Option Chunk)) (hmoves : Moves chunks) :
    (downloadCounted C m peerCount begun tail chunks).2 ≤ peerCount * (m.totalBytes + 1) := by
  have hchunks : ∀ offset file, (chunkLoopCounted C m peerCount chunks 0 offset file).2 ≤
      peerCount * m.totalBytes := by
    intro offset file
    calc (chunkLoopCounted C m peerCount chunks 0 offset file).2
        ≤ (m.totalBytes - offset) * peerCount := chunkLoopCounted_requests m peerCount hmoves 0 offset file
      _ ≤ m.totalBytes * peerCount := Nat.mul_le_mul_right _ (Nat.sub_le _ _)
      _ = peerCount * m.totalBytes := Nat.mul_comm _ _
  have htail : ∀ resume file, (tailLoopCounted C m peerCount resume tail 0 file).2 ≤ peerCount :=
    fun resume file => tailLoopCounted_requests m peerCount resume tail 0 file
  rw [Nat.mul_succ]
  unfold downloadCounted
  obtain ⟨file, start⟩ := resumeInfo C m begun
  dsimp only
  generalize (if file.length < start.chunkStart + start.partialLen then
    ResumeInfo.mk (file.length / m.chunkSize * m.chunkSize) (file.length % m.chunkSize)
    else start) = resume
  split
  · split
    · exact (htail _ _).trans (Nat.le_add_left _ _)
    · rw [Nat.add_comm (peerCount * m.totalBytes)]
      exact Nat.add_le_add (htail _ _) (hchunks _ _)
  · exact (hchunks _ _).trans (Nat.le_add_right _ _)

/-! ### Deltas -/

lemma fetchDelta_ne_panicked {dm : DeltaManifest} (hsize : dm.chunkSize ≠ 0)
    (answers : List (Option Chunk)) (off : ℕ) (file : List UInt8) :
    fetchDelta C dm answers off file ≠ .error .panicked := by
  induction answers generalizing off file with
  | nil =>
    unfold fetchDelta
    split <;> simp
  | cons answer answers ih =>
    unfold fetchDelta
    split
    · simp
    · cases answer with
      | none => simp
      | some chunk =>
        dsimp only
        split
        · simp
        · split
          · simp
          · exact ih _ _

/-- The answer to one edge keeps its loop going. -/
def Hop.Progressing (h : Hop) : Prop :=
  (∀ dm, h.answer.manifest = some dm → dm.chunkSize ≠ 0) ∧ Moves h.answer.chunks

lemma hopCounted_spec {h : Hop} (hp : h.Progressing) (c : Chain) :
    (hopCounted C K c h).1 ≠ .error .panicked ∧ (hopCounted C K c h).2 ≤ deltaBytes h.answer := by
  unfold hopCounted deltaBytes
  split
  · rename_i dm _ hdm
    rw [hdm]
    split
    · exact ⟨by simp, Nat.zero_le _⟩
    · refine ⟨?_, fetchDeltaCounted_requests dm hp.2 0 []⟩
      have hfetch := fetchDelta_ne_panicked (C := C) (hp.1 dm hdm) h.answer.chunks 0 []
      dsimp only
      rw [fetchDeltaCounted_value]
      unfold land decodeDeltaFile
      split
      · rename_i stop hstop
        rintro heq
        cases heq
        split at hstop
        · rename_i hpanic
          cases hstop
          exact hfetch hpanic
        · split at hstop
          · cases hstop
          · split at hstop <;> cases hstop
      · dsimp only
        split <;> simp
  · exact ⟨by simp, Nat.zero_le _⟩

lemma runHopsCounted_spec {hops : List Hop} (hp : ∀ h ∈ hops, h.Progressing) (c : Chain) :
    (runHopsCounted C K c hops).1 ≠ .error .panicked ∧
      (runHopsCounted C K c hops).2 ≤ (hops.map fun h => deltaBytes h.answer).sum := by
  induction hops generalizing c with
  | nil => exact ⟨nofun, Nat.le_refl _⟩
  | cons h hops ih =>
    obtain ⟨hone, hcount⟩ := hopCounted_spec (C := C) (K := K) (hp h mem_cons_self) c
    rw [runHopsCounted, map_cons, sum_cons]
    rcases hhop : hopCounted C K c h with ⟨stop | c', n⟩
    · rw [hhop] at hone hcount
      exact ⟨hone, hcount.trans (Nat.le_add_right _ _)⟩
    · rw [hhop] at hcount
      obtain ⟨hrest, hbytes⟩ := ih (fun h hh => hp h (mem_cons_of_mem _ hh)) c'
      exact ⟨hrest, Nat.add_le_add hcount hbytes⟩

lemma sum_map_mapIdx_le {α β γ : Type*} (w : α → ℕ) {d : α} (hd : w d = 0) (f : γ → ℕ)
    (path : List β) (l : List α) (g : ℕ → β → γ) (hg : ∀ i x, f (g i x) = w (l.getD i d)) :
    ((path.mapIdx g).map f).sum ≤ (l.map w).sum := by
  induction path generalizing l g with
  | nil => exact Nat.zero_le _
  | cons x path ih =>
    rw [mapIdx_cons, map_cons, sum_cons, hg]
    cases l with
    | nil =>
      rw [getD_nil, hd, Nat.zero_add]
      exact ih [] (fun i => g (i + 1)) fun i x => hg (i + 1) x
    | cons a l =>
      rw [map_cons, sum_cons]
      exact Nat.add_le_add_left (ih l (fun i => g (i + 1)) fun i x => hg (i + 1) x) _

variable {config : StateSyncConfig} {dir : LocalDir} {peers : Peers} {cache : Merkle.RootCache}
  {candidates : List Candidate} {m : StateManifest}

lemma deltaPlan_progressing (hp : Progressing peers) {base : KvState} {hops : List Hop}
    (h : deltaPlan K candidates m dir peers = some (.ok (base, hops))) :
    (∀ h ∈ hops, h.Progressing) ∧
      (hops.map fun h => deltaBytes h.answer).sum ≤ (peers.deltas.map deltaBytes).sum := by
  obtain ⟨path, rfl⟩ : ∃ path, hops = hopsAlong candidates peers path := by
    unfold deltaPlan at h
    split at h
    · cases h
    · split at h
      · split at h
        · cases h
        · rename_i path _
          obtain ⟨base', -, heq⟩ := Trace.exists_of_map_eq_ok (Option.some.inj h)
          exact ⟨path, (congrArg Prod.snd heq).symm⟩
      · cases h
  unfold hopsAlong
  constructor
  · intro h hh
    obtain ⟨i, hi, rfl⟩ := mem_mapIdx.mp hh
    have hanswer : peers.deltas.getD i {} ∈ peers.deltas ∨ peers.deltas.getD i {} = {} := by
      rw [getD_eq_getElem?_getD]
      cases hget : peers.deltas[i]? with
      | none => exact .inr rfl
      | some answer => exact .inl (mem_of_getElem? hget)
    rcases hanswer with hmem | hnone
    · exact ⟨hp.sizes _ hmem, hp.deltas _ hmem⟩
    · -- an edge beyond the answers is not answered
      unfold Hop.Progressing
      rw [hnone]
      exact ⟨nofun, nofun⟩
  · exact sum_map_mapIdx_le deltaBytes rfl _ path peers.deltas _ fun _ _ => rfl

lemma deltaSync_spec (candidates : List Candidate) (m : StateManifest) (dir : LocalDir)
    (cache : Merkle.RootCache) (hp : Progressing peers) :
    (deltaSyncCounted C K candidates m dir peers cache).1 ≠ some .panicked ∧
      (deltaSyncCounted C K candidates m dir peers cache).2 ≤ (peers.deltas.map deltaBytes).sum := by
  unfold deltaSyncCounted
  cases hplan : deltaPlan K candidates m dir peers with
  | none => exact ⟨nofun, Nat.zero_le _⟩
  | some plan =>
    cases plan with
    | error e => exact ⟨nofun, Nat.zero_le _⟩
    | ok plan =>
      obtain ⟨base, hops⟩ := plan
      obtain ⟨hhops, hbytes⟩ := deltaPlan_progressing hp hplan
      obtain ⟨hrun, hcount⟩ := runHopsCounted_spec (C := C) (K := K) hhops { state := base, cache }
      refine ⟨?_, hcount.trans hbytes⟩
      dsimp only
      unfold deltaOutcome
      split
      · simp
      · simp
      · rename_i hpanic
        exact absurd hpanic hrun
      · split
        · split <;> simp
        · simp

lemma fullOutcome_ne_panicked (file : Option (List UInt8)) : fullOutcome C K m file ≠ .panicked := by
  unfold fullOutcome
  split
  · simp
  · split
    · simp
    · split
      · simp
      · split <;> simp

lemma length_best_le (config : StateSyncConfig) (peers : Peers) :
    (best config peers).length ≤ peers.offers.length := by
  unfold best rank
  rw [length_insertionSort, length_mapIdx]
  refine (length_filter_le _ _).trans ?_
  rw [length_insertionSort, collect, length_map]
  exact (length_take_le' _ _).trans (length_filter_le _ _)

/-- **State sync survives peers that make progress.** Whatever the peers answer and whenever: if every
delta manifest has a chunk size, every chunk brings a byte or is the last, and every deadline can be
represented, then the call does not panic, and the chunk requests that it sends are bounded by the bytes
that the manifests announce and the number of peers. -/
theorem restore_survives (C : Crypto) (K : SyncFormat) (config : StateSyncConfig) (dir : LocalDir)
    (peers : Peers) (cache : Merkle.RootCache) (hp : Progressing peers)
    (hcollect : CollectFits config peers) (hwaits : WaitsFit config peers) :
    restore C K config dir peers cache ≠ .panicked ∧
      ∃ requests, restoreCounted C K config dir peers cache = (restore C K config dir peers cache, requests) ∧
        requests ≤ 3 + (peers.deltas.map deltaBytes).sum +
          peers.offers.length * (((chosen config peers).map StateManifest.totalBytes).getD 0 + 1) := by
  rw [← restoreCounted_value]
  suffices hcounted : (restoreCounted C K config dir peers cache).1 ≠ .panicked ∧
      (restoreCounted C K config dir peers cache).2 ≤ 3 + (peers.deltas.map deltaBytes).sum +
        peers.offers.length * (((chosen config peers).map StateManifest.totalBytes).getD 0 + 1) from
    ⟨hcounted.1, _, rfl, hcounted.2⟩
  unfold restoreCounted
  cases config.validate with
  | error e => exact ⟨fun heq => (by cases heq), Nat.zero_le _⟩
  | ok =>
    by_cases hfile : dir.stateFull = true
    · simp [hfile]
    · by_cases hdialled : peers.dialled = 0
      · simp [hfile, hdialled]
      · simp only [hfile, hdialled, if_false, Bool.false_eq_true, hcollect, hwaits, not_true]
        cases hm : chosen config peers with
        | none => exact ⟨fun heq => (by cases heq), Nat.zero_le _⟩
        | some m =>
          obtain ⟨hdelta, hbytes⟩ :=
            deltaSync_spec (C := C) (K := K) (best config peers) m dir cache hp
          have hfull := (downloadCounted_le (C := C) m (best config peers).length
            (dir.begun m.height) peers.tail hp.chunks).trans
              (Nat.mul_le_mul_right _ (length_best_le config peers))
          have hprobes : min 3 (best config peers).length ≤ 3 := Nat.min_le_left _ _
          dsimp only
          cases hsync : (deltaSyncCounted C K (best config peers) m dir peers cache).1 with
          | none =>
            exact ⟨fullOutcome_ne_panicked _, Nat.add_le_add (Nat.add_le_add hprobes hbytes) hfull⟩
          | some outcome =>
            rw [hsync] at hdelta
            exact ⟨fun heq => hdelta (congrArg some heq),
              (Nat.add_le_add hprobes hbytes).trans (Nat.le_add_right _ _)⟩

end Bounds

theorem restore_survives_deltas : Progressing deltaPeers ∧
    restore .demo demoFormat {} oldDir deltaPeers (Lru.Cache.empty _ _ _) ≠ .panicked ∧
    (restoreCounted .demo demoFormat {} oldDir deltaPeers (Lru.Cache.empty _ _ _)).2 ≤ 6 := by
  have hp : Progressing deltaPeers := by
    refine ⟨?_, ?_, nofun⟩
    · rintro answer hanswer dm hdm
      obtain rfl := List.mem_singleton.mp hanswer
      cases hdm
      exact Nat.one_ne_zero
    · rintro answer hanswer chunk hchunk
      obtain rfl := List.mem_singleton.mp hanswer
      obtain rfl := Option.some.inj (List.mem_singleton.mp hchunk)
      exact .inl rfl
  obtain ⟨hpanic, requests, hcounted, hcount⟩ := restore_survives .demo demoFormat {} oldDir deltaPeers
    (Lru.Cache.empty _ _ _) hp (by decide) (by decide)
  have hchosen : chosen {} deltaPeers = some greetedManifest := by decide +kernel
  rw [hchosen] at hcount
  rw [hcounted]
  exact ⟨hp, hpanic, hcount⟩

/-! ### Two hostile peers -/

/-- A delta with chunks of size 0. -/
def zeroSizePeers : Peers where
  dialled := 1
  offers := [{ peer := 7, mani := greetedManifest, rttMs := 10 }]
  indexes := [some [(1, 2)]]
  deltas := [{
    manifest := some {
      totalBytes := 1
      chunkSize := 0
      chunkHashes := [blake3Hex .demo [0]]
      toStateRootHex := rootHex (Snapshots.plainRoot .demo greeted) }
    chunks := [some { data := [0], done := true }] }]

/-- A peer that sends `k` empty chunks. -/
def stallingPeers (k : ℕ) : Peers where
  dialled := 1
  offers := [{ peer := 7, mani := greetedManifest, rttMs := 10 }]
  chunks := replicate k (some { data := [], done := false })

lemma chunkLoopCounted_stalling (C : Crypto) (k : ℕ) (file : List UInt8) :
    (chunkLoopCounted C greetedManifest 1 (replicate k (some { data := [], done := false })) 0 0
      file).2 = k + 1 := by
  induction k with
  | zero => rfl
  | succ k ih => exact congrArg (· + 1) ih

/-- A timeout that no instant can be moved on by. -/
def endless : StateSyncConfig := { requestTimeoutSecs := Machine.u64Max }

/-- **Hostile peers**: a delta manifest without a chunk size makes the client panic, and there is no
bound on the chunk requests one peer draws for one manifest of one byte. A timeout whose double is no
`u64` makes it panic before it has asked any peer. -/
theorem restore_hostile :
    restore .demo demoFormat {} oldDir zeroSizePeers (Lru.Cache.empty _ _ _) = .panicked ∧
    (endless.validate = .ok () ∧
      restore .demo demoFormat endless oldDir deltaPeers (Lru.Cache.empty _ _ _) = .panicked) ∧
    ∀ k, (stallingPeers k).dialled = 1 ∧ (stallingPeers k).deltas = [] ∧
      (stallingPeers k).offers.map Offer.mani = [greetedManifest] ∧ greetedManifest.totalBytes = 1 ∧
      k < (restoreCounted .demo demoFormat {} {} (stallingPeers k) (Lru.Cache.empty _ _ _)).2 := by
  refine ⟨by decide +kernel, ⟨rfl, by decide +kernel⟩, fun k => ⟨rfl, rfl, rfl, rfl, ?_⟩⟩
  have hbest : best {} (stallingPeers k) = best {} swappingPeers := rfl
  have hcount : (best {} swappingPeers).length = 1 := by decide +kernel
  have hchosen : chosen {} (stallingPeers k) = some greetedManifest := by
    unfold chosen
    rw [hbest]
    decide +kernel
  have hvalid : ({} : StateSyncConfig).validate = .ok () := rfl
  have hcollect : CollectFits {} (stallingPeers k) := show CollectFits {} deltaPeers by decide
  have hwaits : WaitsFit {} (stallingPeers k) := show WaitsFit {} deltaPeers by decide
  -- without a local snapshot there is no delta sync, and the download starts at the first byte
  have hdelta : deltaSyncCounted .demo demoFormat (best {} (stallingPeers k)) greetedManifest {}
      (stallingPeers k) (Lru.Cache.empty _ _ _) = (none, 0) := rfl
  have hdownload : (downloadCounted .demo greetedManifest (best {} (stallingPeers k)).length none []
      (stallingPeers k).chunks).2 = k + 1 := by
    rw [hbest, hcount]
    exact chunkLoopCounted_stalling .demo k []
  have hcall : (restoreCounted .demo demoFormat {} {} (stallingPeers k) (Lru.Cache.empty _ _ _)).2 =
      min 3 (best {} (stallingPeers k)).length + 0 +
        (downloadCounted .demo greetedManifest (best {} (stallingPeers k)).length none []
          (stallingPeers k).chunks).2 := by
    unfold restoreCounted
    rw [hvalid, hchosen]
    simp only [hcollect, hwaits, not_true, if_false]
    rw [hdelta]
    rfl
  rw [hcall, hdownload]
  omega

end Iona.StateSync
