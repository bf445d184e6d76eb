import Iona.Net.StateSync

/-!
# The root of a synced state

## Main definitions

* `Fresh`: the root cache does not answer for another state before a delta's state is hashed.
* `Binding`: the hash in the manifest is that of a file with the advertised root, and the file that
  was put together does not collide with it.

## Main results

* `restore_installs_advertised`: under these the state that is installed has the advertised root.
* `swapped_snapshot_installed`: a whole snapshot of another state is installed.
-/

namespace Iona.StateSync

open Snapshots (StateDelta plainRoot)

/-! ### Paths -/

lemma mem_neighbours {edges : List (ℕ × ℕ)} {a b : ℕ} :
    b ∈ neighbours edges a ↔ (a, b) ∈ edges := by
  simp [neighbours]

lemma findDeltaPath_spec {edges path : List (ℕ × ℕ)} {fromH toH : ℕ}
    (h : findDeltaPath edges fromH toH = some path) :
    ∃ heights : List ℕ, path = heights.zip heights.tail ∧ heights.head? = some fromH ∧
      heights.getLast? = some toH ∧ heights.IsChain fun a b => (a, b) ∈ edges := by
  obtain ⟨heights, hpath, hhead, hlast, hchain⟩ := Search.findPath_spec h
  exact ⟨heights, hpath, hhead, hlast, hchain.imp fun a b hab => mem_neighbours.mp hab⟩

lemma findDeltaPath_ne_nil {edges path : List (ℕ × ℕ)} {fromH toH : ℕ}
    (h : findDeltaPath edges fromH toH = some path) (hne : fromH ≠ toH) : path ≠ [] := by
  obtain ⟨heights, rfl, hhead, hlast, -⟩ := findDeltaPath_spec h
  match heights with
  | [] => cases hhead
  | [height] =>
    cases hhead
    cases hlast
    exact absurd rfl hne
  | a :: b :: heights => simp

lemma findDeltaPath_fuel (edges : List (ℕ × ℕ)) (fromH toH : ℕ) {fuel : ℕ}
    (h : edges.length + 1 ≤ fuel) :
    Search.findPath (neighbours edges) toH fuel fromH = findDeltaPath edges fromH toH := by
  have hnodes : ∀ a, ∀ b ∈ neighbours edges a, b ∈ (edges.map Prod.snd).toFinset := by
    intro a b hb
    exact List.mem_toFinset.mpr (List.mem_map_of_mem (mem_neighbours.mp hb))
  have hcard : (Search.unseen (edges.map Prod.snd).toFinset [(fromH, fromH)]).card ≤ edges.length :=
    (Finset.card_filter_le _ _).trans ((List.toFinset_card_le _).trans (List.length_map _).le)
  have hsearch : Search.search (neighbours edges) toH fuel [fromH] [(fromH, fromH)] =
      Search.search (neighbours edges) toH (edges.length + 1) [fromH] [(fromH, fromH)] :=
    Search.search_fuel hnodes (by rw [List.length_singleton]; omega)
      (by rw [List.length_singleton]; omega)
  rw [findDeltaPath, Search.findPath, Search.findPath, hsearch]

/-! ### Roots along a chain -/

section Roots

variable {C : Crypto} {K : SyncFormat}

/-- The root that the cache has under the key of a state. -/
def cachedRoot (C : Crypto) (st : KvState) (cache : Merkle.RootCache) : Option Hash32 :=
  Lru.Cache.find? (Merkle.computeCacheKey C (st.combined C)) cache.entries

lemma root_eq_plainRoot {st : KvState} {cache : Merkle.RootCache}
    (h : ∀ v ∈ cachedRoot C st cache, v = plainRoot C st) :
    (st.root C cache).1 = plainRoot C st := by
  cases hempty : (st.combined C).isEmpty with
  | true =>
    simp only [plainRoot, KvState.root, Merkle.stateMerkleRoot,
      Merkle.stateMerkleRootWithConfig_of_isEmpty C hempty]
  | false =>
    have hfetch : (st.root C cache).1 =
        (cachedRoot C st cache).getD (Merkle.merkleRoot C (st.combined C)) := by
      rw [KvState.root, Merkle.stateMerkleRoot,
        Merkle.stateMerkleRootWithConfig_of_not_isEmpty C hempty, Lru.Cache.fetch_fst]
      rfl
    have hplain : plainRoot C st = Merkle.merkleRoot C (st.combined C) := by
      rw [plainRoot, KvState.root, Merkle.stateMerkleRoot,
        Merkle.stateMerkleRootWithConfig_of_not_isEmpty C hempty, Lru.Cache.fetch_fst]
      rfl
    rw [hfetch]
    cases hcached : cachedRoot C st cache with
    | none => exact hplain.symm
    | some v => exact h v hcached

/-- The root cache has nothing, or the right root, for the state a hop leads to. -/
def Fresh (C : Crypto) (K : SyncFormat) (c : Chain) (h : Hop) : Prop :=
  ∀ c', hop C K c h = .ok c' → ∀ v ∈ cachedRoot C c'.state c.cache, v = plainRoot C c'.state

lemma hop_eq_ok {c c' : Chain} {h : Hop} (hok : hop C K c h = .ok c') :
    c'.cache = (c'.state.root C c.cache).2 := by
  unfold hop at hok
  split at hok
  · cases hok
  · unfold land at hok
    split at hok
    · cases hok
    · simp only at hok
      split at hok
      · cases hok
      · cases hok
        rfl

lemma run_of_runHops {c c' : Chain} {hops : List Hop} (h : runHops C K c hops = .ok c') :
    Trace.run (fun c h => (hop C K c h).toOption) c hops = some c' := by
  induction hops generalizing c with
  | nil =>
    cases h
    rfl
  | cons e hops ih =>
    unfold runHops at h
    split at h
    · cases h
    · rename_i next hnext
      rw [Trace.run_cons, hnext]
      exact ih h

lemma runHops_root {c c' : Chain} {hops : List Hop}
    (hfresh : Trace.Along (fun c h => (hop C K c h).toOption) (Fresh C K) c hops) (hne : hops ≠ [])
    (h : runHops C K c hops = .ok c') : (c'.state.root C c'.cache).1 = plainRoot C c'.state := by
  refine Trace.run_history
    (P := fun pre c => pre ≠ [] → (c.state.root C c.cache).1 = plainRoot C c.state)
    (fun hnil => absurd rfl hnil) ?_ hfresh (run_of_runHops h) hne
  intro _ c e c' _ he hstep _
  have hok : hop C K c e = .ok c' := Trace.eq_ok_of_toOption hstep
  -- the state was hashed just before, and its root is still in the cache
  rw [hop_eq_ok hok]
  exact (Merkle.stateMerkleRoot_twice C _ _).trans (root_eq_plainRoot (he c' hok))

end Roots

/-! ### The state that is restored -/

/-- The manifest was made for a file whose state has the root `r`, and the file that was put together does
not collide with it. -/
def Binding (C : Crypto) (K : SyncFormat) (m : StateManifest) (r : String) (assembled : List UInt8) : Prop :=
  m.blake3Hex ≠ "" ∧ ∃ honest json st, blake3Hex C honest = m.blake3Hex ∧
    K.decompress honest = .ok json ∧ K.decodeState json = .ok st ∧ rootHex (plainRoot C st) = r ∧
    (blake3Hex C assembled = blake3Hex C honest → assembled = honest)

/-- When the client's trust is warranted: on the path of deltas no state is hashed while the cache holds
another root under its key, on the path of the snapshot the hash of the manifest binds the file. -/
def Warranted (C : Crypto) (K : SyncFormat) (config : StateSyncConfig) (m : StateManifest)
    (dir : LocalDir) (peers : Peers) (cache : Merkle.RootCache) (r : String) : Source → Prop
  | .deltas => ∀ base hops, deltaPlan K (best config peers) m dir peers = some (.ok (base, hops)) →
      Trace.Along (fun c h => (hop C K c h).toOption) (Fresh C K) { state := base, cache } hops
  | .snapshot => ∀ assembled, downloadSnapshot C m (best config peers).length (dir.begun m.height)
      peers.tail peers.chunks = some assembled → Binding C K m r assembled

section Restored

variable {C : Crypto} {K : SyncFormat} {config : StateSyncConfig} {dir : LocalDir} {peers : Peers}
  {cache : Merkle.RootCache} {candidates : List Candidate} {m : StateManifest} {source : Source}
  {file : List UInt8}

lemma deltaPlan_ne_nil {base : KvState} {hops : List Hop}
    (h : deltaPlan K candidates m dir peers = some (.ok (base, hops))) : hops ≠ [] := by
  unfold deltaPlan at h
  split at h
  · cases h
  · split at h
    · rename_i hheight
      split at h
      · cases h
      · rename_i path hpath
        have hne := findDeltaPath_ne_nil hpath hheight.2.ne
        obtain ⟨state, -, hplan⟩ := Trace.exists_of_map_eq_ok (Option.some.inj h)
        obtain ⟨-, rfl⟩ := Prod.mk.inj hplan
        rw [hopsAlong, Ne, List.mapIdx_eq_nil_iff]
        exact hne
    · cases h

lemma deltaSync_restored (h : deltaSync C K candidates m dir peers cache = some (.restored source file)) :
    source = .deltas ∧ ∃ base hops c, deltaPlan K candidates m dir peers = some (.ok (base, hops)) ∧
      runHops C K { state := base, cache } hops = .ok c ∧
      (∀ r ∈ m.stateRootHex, rootHex (c.state.root C c.cache).1 = r) ∧
      K.encodeState c.state = .ok file := by
  unfold deltaSync at h
  split at h
  · cases h
  · cases h
  · rename_i base hops hplan
    unfold deltaOutcome at h
    split at h
    · cases h
    · cases h
    · cases h
    · rename_i c hrun
      split at h
      · rename_i hroot
        split at h
        · cases h
        · rename_i bytes hencode
          cases h
          refine ⟨rfl, base, hops, c, hplan, hrun, fun r hr => ?_, hencode⟩
          rw [Option.mem_def.mp hr, Option.all_some] at hroot
          exact beq_iff_eq.mp hroot
      · cases h

lemma fullSync_restored (h : fullSync C K candidates m dir peers = .restored source file) :
    source = .snapshot ∧ ∃ bytes st, downloadSnapshot C m candidates.length (dir.begun m.height)
        peers.tail peers.chunks = some bytes ∧ K.decompress bytes = .ok file ∧
      K.decodeState file = .ok st ∧ (m.blake3Hex ≠ "" → blake3Hex C bytes = m.blake3Hex) := by
  unfold fullSync fullOutcome at h
  split at h
  · cases h
  · rename_i bytes hbytes
    split at h
    · cases h
    · rename_i hhash
      split at h
      · cases h
      · rename_i json hjson
        split at h
        · cases h
        · rename_i st hst
          cases h
          refine ⟨rfl, bytes, st, hbytes, hjson, hst, fun hne => ?_⟩
          by_contra hdiff
          exact hhash ⟨hne, Ne.symm hdiff⟩

lemma restore_cases (h : restore C K config dir peers cache = .restored source file) :
    ∃ m, chosen config peers = some m ∧
      (deltaSync C K (best config peers) m dir peers cache = some (.restored source file) ∨
        fullSync C K (best config peers) m dir peers = .restored source file) := by
  unfold restore at h
  split at h
  · cases h
  · split at h
    · cases h
    · split at h
      · cases h
      split at h
      · cases h
      · split at h
        · cases h
        · rename_i m hm
          refine ⟨m, hm, ?_⟩
          split at h
          · cases h
          cases hdelta : deltaSync C K (best config peers) m dir peers cache with
          | none =>
            rw [hdelta] at h
            exact .inr h
          | some outcome =>
            rw [hdelta] at h
            exact .inl (congrArg some h)

/-- **Only the advertised state is installed**, as far as the client's trust is warranted: a state
that is restored has the root of the chosen manifest. -/
theorem restore_installs_advertised {r : String} (hm : chosen config peers = some m)
    (hr : m.stateRootHex = some r)
    (h : restore C K config dir peers cache = .restored source file)
    (hwarranted : Warranted C K config m dir peers cache r source) :
    ∃ st, K.decodeState file = .ok st ∧ rootHex (plainRoot C st) = r := by
  obtain ⟨m', hm', hdelta | hfull⟩ := restore_cases h
  · obtain rfl : m' = m := Option.some.inj (hm'.symm.trans hm)
    obtain ⟨rfl, base, hops, c, hplan, hrun, hroot, hencode⟩ := deltaSync_restored hdelta
    refine ⟨c.state, K.decodeState_encodeState hencode, ?_⟩
    rw [← hroot r hr, runHops_root (hwarranted base hops hplan) (deltaPlan_ne_nil hplan) hrun]
  · obtain rfl : m' = m := Option.some.inj (hm'.symm.trans hm)
    obtain ⟨rfl, bytes, st, hbytes, hjson, hst, hhash⟩ := fullSync_restored hfull
    obtain ⟨hset, honest, json, st', hmade, hjson', hst', hroot, hsame⟩ := hwarranted bytes hbytes
    -- the file that was put together is the one that the manifest was made for
    obtain rfl := hsame ((hhash hset).trans hmade.symm)
    cases hjson.symm.trans hjson'
    cases hst.symm.trans hst'
    exact ⟨st, hst, hroot⟩

end Restored

/-! ### Two exchanges -/

/-- A format for a few states and deltas, by their place in a list. -/
def SyncFormat.table (states : List KvState) (deltas : List StateDelta) : SyncFormat where
  decompress file := .ok file
  decodeState bytes :=
    match states[bytes.length - 1]? with
    | some st => .ok st
    | none => .error "not a state"
  encodeState st :=
    if st ∈ states then .ok (List.replicate (states.idxOf st + 1) 0) else .error "not in the table"
  decodeDelta bytes :=
    match deltas[bytes.length - 1]? with
    | some delta => .ok delta
    | none => .error "not a delta"
  decodeState_encodeState := by
    intro st bytes h
    split at h
    · rename_i hmem
      cases h
      have hidx : states[states.idxOf st]? = some st := List.getElem?_idxOf hmem
      simp [hidx]
    · cases h

/-- A state with one entry. -/
def greeted : KvState := { kv := (∅ : BTreeMap String String).insert "hello" "world" }

/-- The delta that leads to it. -/
def greeting : StateDelta :=
  Snapshots.computeDelta .demo (Lru.Cache.empty _ _ _) 1 2 {} greeted

/-- A format for the two states and the delta. -/
def demoFormat : SyncFormat := .table [{}, greeted] [greeting]

/-- The manifest for a chain of deltas. -/
def greetedManifest : StateManifest where
  height := 2
  totalBytes := 1
  blake3Hex := blake3Hex .demo [0]
  chunkSize := 4
  chunkHashes := [blake3Hex .demo [0]]
  stateRootHex := some (rootHex (plainRoot .demo greeted))

/-- A directory with a snapshot of height 1. -/
def oldDir : LocalDir where
  names := some ["state_00000000000000000001.json.zst"]
  snapshot height := if height = 1 then some [0] else none

/-- A peer with the delta. -/
def deltaPeers : Peers where
  dialled := 1
  offers := [{ peer := 7, mani := greetedManifest, rttMs := 10 }]
  indexes := [some [(1, 2)]]
  deltas := [{
    manifest := some {
      totalBytes := 1
      chunkSize := 1
      chunkHashes := [blake3Hex .demo [0]]
      toStateRootHex := rootHex (plainRoot .demo greeted) }
    chunks := [some { data := [0], done := true }] }]

/-- The manifest for the whole snapshot. -/
def snapshotManifest : StateManifest where
  height := 2
  totalBytes := 2
  blake3Hex := blake3Hex .demo [0, 0]
  chunkSize := 4
  chunkHashes := [blake3Hex .demo [0, 0]]
  stateRootHex := some (rootHex (plainRoot .demo greeted))

/-- A peer with the whole snapshot. -/
def snapshotPeers : Peers where
  dialled := 1
  offers := [{ peer := 7, mani := snapshotManifest, rttMs := 10 }]
  chunks := [some { data := [0, 0], done := true }]

/-- One exchange along a delta, and one with a whole snapshot. -/
theorem restore_installs_advertised_deltas :
    (∃ file, restore .demo demoFormat {} oldDir deltaPeers (Lru.Cache.empty _ _ _) =
        .restored .deltas file ∧
      ∃ st, demoFormat.decodeState file = .ok st ∧
        rootHex (plainRoot .demo st) = rootHex (plainRoot .demo greeted)) ∧
    ∃ file, restore .demo demoFormat {} {} snapshotPeers (Lru.Cache.empty _ _ _) =
        .restored .snapshot file ∧
      ∃ st, demoFormat.decodeState file = .ok st ∧
        rootHex (plainRoot .demo st) = rootHex (plainRoot .demo greeted) := by
  have hdeltas : restore .demo demoFormat {} oldDir deltaPeers (Lru.Cache.empty _ _ _) =
      .restored .deltas [0, 0] := by decide +kernel
  have hsnapshot : restore .demo demoFormat {} {} snapshotPeers (Lru.Cache.empty _ _ _) =
      .restored .snapshot [0, 0] := by decide +kernel
  have hchosen : chosen {} deltaPeers = some greetedManifest := by decide +kernel
  have hchosen' : chosen {} snapshotPeers = some snapshotManifest := by decide +kernel
  refine ⟨⟨_, hdeltas, restore_installs_advertised hchosen rfl hdeltas ?_⟩,
    _, hsnapshot, restore_installs_advertised hchosen' rfl hsnapshot ?_⟩
  · intro base hops hplan pre h post hsplit c hrun c' _ v hv
    -- there is one edge, and the cache is empty before it
    have hone : (deltaPlan demoFormat (best {} deltaPeers) greetedManifest oldDir deltaPeers).map
        (fun plan => plan.map fun x => x.2.length) = some (.ok 1) := by decide +kernel
    rw [hplan] at hone
    have hlength : hops.length = 1 := Except.ok.inj (Option.some.inj hone)
    obtain rfl : pre = [] := by
      rw [hsplit, List.length_append, List.length_cons] at hlength
      exact List.length_eq_zero_iff.mp (by omega)
    cases hrun
    cases hv
  · intro assembled hassembled
    have hfile : downloadSnapshot .demo snapshotManifest (best {} snapshotPeers).length none [] snapshotPeers.chunks =
        some [0, 0] := by decide +kernel
    cases hassembled.symm.trans hfile
    exact ⟨by decide +kernel, [0, 0], [0, 0], greeted, rfl, rfl, by decide +kernel, rfl, fun _ => rfl⟩

/-- A peer whose file holds another state than it advertises. -/
def swappingPeers : Peers where
  dialled := 1
  offers := [{ peer := 7, mani := greetedManifest, rttMs := 10 }]
  chunks := [some { data := [0], done := true }]

/-- **The root of a snapshot is never looked at**: the chunk and the file have the hashes that the
manifest gives for them, the state has not the root it gives, and is installed. -/
theorem swapped_snapshot_installed :
    chosen {} swappingPeers = some greetedManifest ∧
      greetedManifest.stateRootHex = some (rootHex (plainRoot .demo greeted)) ∧
      restore .demo demoFormat {} {} swappingPeers (Lru.Cache.empty _ _ _) =
        .restored .snapshot [0] ∧
      ∃ st, demoFormat.decodeState [0] = .ok st ∧
        rootHex (plainRoot .demo st) ≠ rootHex (plainRoot .demo greeted) := by
  refine ⟨by decide +kernel, rfl, by decide +kernel, {}, rfl, by decide +kernel⟩

end Iona.StateSync
