import Iona.Lib.Lines
import Iona.Lib.Posting
import Iona.Lib.Trace

/-!
# The chain database of the RPC server

From `rpc/chain_store.rs`: blocks are kept up to a number, their logs stand in one file, a line each,
and index files hold for an address or a topic where in that file its logs begin.

## Main definitions

* `ChainDb`: the log file, the index files and the blocks.
* `persistBlockBundle`, `compact`: the calls that change them.
* `Indexed`: every entry of an index leads to its log.

## Main results

* `run_indexed`: the index stays right along runs in which every compaction clears the old index.
-/

namespace Iona.ChainStore

open Trace

/-! ### Logs and their index -/

/-- A log of a transaction. -/
structure Log where
  address : String
  topics : List String
  data : String
  blockNumber : ℕ
  txHash : String
  logIndex : ℕ
deriving DecidableEq, Repr

/-- A line of an index file. -/
structure LogIndexEntry where
  blockNumber : ℕ
  txHash : String
  logIndex : ℕ
  offset : Option ℕ
deriving DecidableEq, Repr

/-- The index file of an address or of a topic. -/
inductive IndexPath
  | byAddress (name : String)
  | byTopic (name : String)
deriving DecidableEq, Repr

/-- The errors of the database. -/
inductive ChainDbError
  | config (reason : String)
  | lockFailed (reason : String)
  | corrupt (reason : String)
deriving DecidableEq, Repr

/-- The configuration. -/
structure ChainDbConfig where
  maxBlocks : ℕ
  enableLogIndex : Bool := true
deriving DecidableEq, Repr

/-- A digit of lower-case hex. -/
def isLowerHex (c : Char) : Bool := ('0' ≤ c ∧ c ≤ '9') ∨ ('a' ≤ c ∧ c ≤ 'f')

/-- JSON and the case of letters, as functions. -/
structure LogFormat where
  encode : Log → List UInt8
  decode : List UInt8 → Except String Log
  blank : List UInt8 → Bool
  toLowercase : String → String
  decode_encode : ∀ l, decode (encode l) = .ok l
  lf_notMem : ∀ l, Lines.lf ∉ encode l
  cr_notMem : ∀ l, Lines.cr ∉ encode l
  blank_encode : ∀ l, blank (encode l) = false
  toLowercase_hex : ∀ ds : List Char, ds.all isLowerHex = true →
    toLowercase (String.ofList ds) = String.ofList ds

/-- `trim_start_matches("0x")`. -/
def trimHexPrefix : List Char → List Char
  | '0' :: 'x' :: cs => trimHexPrefix cs
  | cs => cs

section Names

variable (F : LogFormat)

/-- The name of an index file. -/
def indexName (s : String) : String := F.toLowercase (String.ofList (trimHexPrefix s.toList))

/-- `addr_index_path`. -/
def addrIndexPath (address : String) : IndexPath := .byAddress (indexName F address)

/-- `topic_index_path`. -/
def topicIndexPath (topic : String) : IndexPath := .byTopic (indexName F topic)

/-- The index files a log belongs to. -/
def indexPaths (l : Log) : List IndexPath :=
  addrIndexPath F l.address :: l.topics.map (topicIndexPath F)

end Names

/-- The entry of a log that stands at an offset. -/
def LogIndexEntry.of (l : Log) (off : ℕ) : LogIndexEntry where
  blockNumber := l.blockNumber
  txHash := l.txHash
  logIndex := l.logIndex
  offset := some off

/-! ### The database -/

/-- The files and the blocks. -/
structure ChainDb where
  logsFile : List UInt8 := []
  indexDir : Bool
  index : IndexPath → List LogIndexEntry := fun _ => []
  blocks : List ℕ := []
  allLogs : List Log := []

/-- How far the removal of the old index files gets. -/
inductive Removal
  | complete
  | interrupted (left : List IndexPath)

namespace ChainDb

section Calls

variable (F : LogFormat) (cfg : ChainDbConfig)

/-- `append_logs_with_offsets`. -/
def appendLogsWithOffsets (file : List UInt8) : List Log → List UInt8 × List ℕ
  | [] => (file, [])
  | l :: logs =>
    let written := appendLogsWithOffsets (file ++ F.encode l ++ [Lines.lf]) logs
    (written.1, file.length :: written.2)

/-- `append_log_indices_with_offsets`. -/
def appendLogIndicesWithOffsets (indexDir : Bool) (index : IndexPath → List LogIndexEntry)
    (logs : List Log) (offsets : List ℕ) : Except ChainDbError (IndexPath → List LogIndexEntry) :=
  if cfg.enableLogIndex = false then .ok index
  else if logs.length ≠ offsets.length then .error (.config "logs/offsets mismatch")
  else if indexDir = false then
    .error (.lockFailed "cannot open lock file: No such file or directory (os error 2)")
  else
    .ok (Posting.postAll (fun x => indexPaths F x.1) (fun x => LogIndexEntry.of x.1 x.2) index
      (logs.zip offsets))

/-- The logs appended and indexed. -/
def writeLogs (logs : List Log) (db : ChainDb) : Except ChainDbError ChainDb :=
  let written := appendLogsWithOffsets F db.logsFile logs
  (appendLogIndicesWithOffsets F cfg db.indexDir db.index logs written.2).map fun index =>
    { db with logsFile := written.1, index }

/-- `persist_block_bundle`. -/
def persistBlockBundle (number : ℕ) (logs : List Log) (db : ChainDb) :
    Except ChainDbError ChainDb :=
  (if logs = [] then .ok db else db.writeLogs F cfg logs).map fun written =>
    { written with blocks := db.blocks ++ [number], allLogs := db.allLogs ++ logs }

/-- The newest blocks, as many as are kept. -/
def keptBlocks (db : ChainDb) : List ℕ := db.blocks.drop (db.blocks.length - cfg.maxBlocks)

/-- The logs of those blocks. -/
def keptLogs (db : ChainDb) : List Log :=
  db.allLogs.filter fun l => decide ((db.keptBlocks cfg).headD 0 ≤ l.blockNumber)

/-- The old index files removed. -/
def sweep (removal : Removal) (db : ChainDb) : ChainDb :=
  if db.indexDir then
    match removal with
    | .complete => { db with indexDir := false, index := fun _ => [] }
    | .interrupted left => { db with index := fun p => if p ∈ left then db.index p else [] }
  else db

/-- The log file and the index written anew. -/
def rewriteLogs (removal : Removal) (kept : List Log) (db : ChainDb) : Except ChainDbError ChainDb :=
  let rewritten := { db with logsFile := Lines.unlines F.encode kept }
  if cfg.enableLogIndex then
    if kept = [] then .ok (rewritten.sweep removal)
    else (rewritten.sweep removal).writeLogs F cfg kept
  else .ok rewritten

/-- `compact`. -/
def compact (removal : Removal) (db : ChainDb) : Except ChainDbError ChainDb :=
  if cfg.maxBlocks = 0 then .ok db
  else if db.blocks.length ≤ cfg.maxBlocks then .ok db
  else
    (db.rewriteLogs F cfg removal (db.keptLogs cfg)).map fun rewritten =>
      { rewritten with blocks := db.keptBlocks cfg, allLogs := db.keptLogs cfg }

end Calls

end ChainDb

/-- A call that changes the database. -/
inductive Call
  | persist (number : ℕ) (logs : List Log)
  | compact (removal : Removal)

/-- One call. -/
def step (F : LogFormat) (cfg : ChainDbConfig) (db : ChainDb) : Call → Option ChainDb
  | .persist number logs => (db.persistBlockBundle F cfg number logs).toOption
  | .compact removal => (db.compact F cfg removal).toOption

/-- A new database. -/
def opened (indexDir : Bool) : ChainDb := { indexDir }

/-! ### What the calls do -/

namespace ChainDb

section Spec

variable {F : LogFormat} {cfg : ChainDbConfig} {db db' : ChainDb} {logs : List Log}

lemma appendLogsWithOffsets_eq (file : List UInt8) (logs : List Log) :
    appendLogsWithOffsets F file logs =
      (file ++ Lines.unlines F.encode logs, Lines.offsets F.encode file.length logs) := by
  induction logs generalizing file with
  | nil => simp [appendLogsWithOffsets, Lines.offsets]
  | cons l logs ih => simp [appendLogsWithOffsets, ih, Lines.offsets, Nat.add_assoc]

/-- Logs with the offsets they get. -/
def placed (F : LogFormat) (db : ChainDb) (logs : List Log) : List (Log × ℕ) :=
  logs.zip (Lines.offsets F.encode db.logsFile.length logs)

lemma map_fst_placed : (db.placed F logs).map Prod.fst = logs :=
  List.map_fst_zip (by rw [Lines.length_offsets])

lemma writeLogs_eq_ok (hidx : cfg.enableLogIndex = true)
    (h : db.writeLogs F cfg logs = .ok db') :
    db.indexDir = true ∧
      db' = { db with
        logsFile := db.logsFile ++ Lines.unlines F.encode logs
        index := Posting.postAll (fun x => indexPaths F x.1) (fun x => LogIndexEntry.of x.1 x.2)
          db.index (db.placed F logs) } := by
  have hne : ¬ (cfg.enableLogIndex = false) := by simp [hidx]
  rw [writeLogs, appendLogsWithOffsets_eq, appendLogIndicesWithOffsets, if_neg hne,
    if_neg (by simp)] at h
  split at h
  · cases h
  · rename_i hdir
    exact ⟨by simpa using hdir, (Except.ok.inj h).symm⟩

end Spec

end ChainDb

/-! ### The index and the file -/

/-- Every log stands in the file where its entries say. -/
structure Located (F : LogFormat) (file : List UInt8) (index : IndexPath → List LogIndexEntry)
    (logs : List Log) (located : List (Log × ℕ)) : Prop where
  logs : located.map Prod.fst = logs
  lines : ∀ x ∈ located, Lines.Holds file x.2 (F.encode x.1)
  entries : ∀ p, index p =
    Posting.hits (fun x => indexPaths F x.1) (fun x => LogIndexEntry.of x.1 x.2) located p

section Index

variable {F : LogFormat} {cfg : ChainDbConfig} {db db' : ChainDb} {logs old : List Log}
  {located : List (Log × ℕ)}

variable {call : Call}

lemma Located.nil {file : List UInt8} {index : IndexPath → List LogIndexEntry}
    (h : ∀ p, index p = []) : Located F file index [] [] where
  logs := rfl
  lines _ hx := absurd hx List.not_mem_nil
  entries := h

lemma Located.write (hidx : cfg.enableLogIndex = true)
    (hloc : Located F db.logsFile db.index old located)
    (h : db.writeLogs F cfg logs = .ok db') :
    Located F db'.logsFile db'.index (old ++ logs) (located ++ db.placed F logs) := by
  obtain ⟨-, rfl⟩ := ChainDb.writeLogs_eq_ok hidx h
  refine ⟨by rw [List.map_append, hloc.logs, ChainDb.map_fst_placed], ?_, ?_⟩
  · intro x hx
    rcases List.mem_append.mp hx with hx | hx
    · exact (hloc.lines x hx).append _
    · exact Lines.holds_of_mem_offsets F.encode hx
  · intro p
    refine (Posting.postAll_apply _ _ _ _ p).trans ?_
    rw [hloc.entries, Posting.hits_append]

/-- The index is that of the logs in the file. -/
structure Indexed (F : LogFormat) (db : ChainDb) : Prop where
  located : ∃ located, Located F db.logsFile db.index db.allLogs located
  absent : db.indexDir = false → ∀ p, db.index p = []

lemma indexed_opened (indexDir : Bool) : Indexed F (opened indexDir) :=
  ⟨⟨[], .nil fun _ => rfl⟩, fun _ _ => rfl⟩

lemma Indexed.write (hidx : cfg.enableLogIndex = true) {number : ℕ} (hdb : Indexed F db)
    (h : db.persistBlockBundle F cfg number logs = .ok db') : Indexed F db' := by
  obtain ⟨located, hloc⟩ := hdb.located
  obtain ⟨written, hwrite, rfl⟩ := exists_of_map_eq_ok h
  split at hwrite
  · rename_i hnil
    cases hwrite
    exact ⟨⟨located, by simpa [hnil] using hloc⟩, hdb.absent⟩
  · have hnew := hloc.write hidx hwrite
    obtain ⟨htrue, rfl⟩ := ChainDb.writeLogs_eq_ok hidx hwrite
    refine ⟨⟨_, hnew⟩, fun hdir => ?_⟩
    exact absurd (hdir : db.indexDir = false) (by simp [htrue])

/-- The removal leaves no old entry. -/
def Removal.Clears : Removal → Prop
  | .complete => True
  | .interrupted left => left = []

instance decidableClears : DecidablePred Removal.Clears
  | .complete => inferInstanceAs (Decidable True)
  | .interrupted left => inferInstanceAs (Decidable (left = []))

lemma sweep_spec (removal : Removal) (db : ChainDb) :
    (db.sweep removal).logsFile = db.logsFile ∧
      (removal.Clears → (db.indexDir = false → ∀ p, db.index p = []) →
        ∀ p, (db.sweep removal).index p = []) := by
  unfold ChainDb.sweep
  split
  · cases removal with
    | complete => exact ⟨rfl, fun _ _ _ => rfl⟩
    | interrupted left => exact ⟨rfl, fun hclears _ p => by rw [hclears]; rfl⟩
  · rename_i hdir
    exact ⟨rfl, fun _ habsent => habsent (by simpa using hdir)⟩

lemma Indexed.rewrite (hidx : cfg.enableLogIndex = true) {removal : Removal}
    (hclears : removal.Clears) {kept : List Log} (hdb : Indexed F db)
    (h : db.rewriteLogs F cfg removal kept = .ok db') :
    (∃ located, Located F db'.logsFile db'.index kept located) ∧
      (db'.indexDir = false → ∀ p, db'.index p = []) := by
  obtain ⟨-, hswept⟩ := sweep_spec removal { db with logsFile := Lines.unlines F.encode kept }
  have hempty := hswept hclears hdb.absent
  rw [ChainDb.rewriteLogs, if_pos hidx] at h
  split at h
  · rename_i hnil
    cases h
    subst hnil
    exact ⟨⟨[], .nil hempty⟩, fun _ => hempty⟩
  · refine ⟨⟨_, Located.write hidx (.nil hempty) h⟩, fun hdir => ?_⟩
    obtain ⟨htrue, rfl⟩ := ChainDb.writeLogs_eq_ok hidx h
    exact absurd (hdir : ChainDb.indexDir _ = false) (by simp [htrue])

/-- A compaction has something to do. -/
def ChainDb.Overfull (cfg : ChainDbConfig) (db : ChainDb) : Prop :=
  cfg.maxBlocks ≠ 0 ∧ cfg.maxBlocks < db.blocks.length

instance (cfg : ChainDbConfig) (db : ChainDb) : Decidable (db.Overfull cfg) :=
  inferInstanceAs (Decidable (_ ∧ _))

lemma compact_eq_ok {removal : Removal} (h : db.compact F cfg removal = .ok db') :
    ¬ db.Overfull cfg ∧ db' = db ∨ db.Overfull cfg ∧ ∃ rewritten,
      db.rewriteLogs F cfg removal (db.keptLogs cfg) = .ok rewritten ∧
        db' = { rewritten with blocks := db.keptBlocks cfg, allLogs := db.keptLogs cfg } := by
  rw [ChainDb.compact] at h
  split at h
  · rename_i hmax
    exact .inl ⟨fun hover => hover.1 hmax, (Except.ok.inj h).symm⟩
  · rename_i hmax
    split at h
    · rename_i hlen
      exact .inl ⟨fun hover => absurd hover.2 (not_lt.mpr hlen), (Except.ok.inj h).symm⟩
    · rename_i hlen
      obtain ⟨rewritten, hrewrite, rfl⟩ := exists_of_map_eq_ok h
      exact .inr ⟨⟨hmax, not_le.mp hlen⟩, rewritten, hrewrite, rfl⟩

/-- A compaction that has something to do clears the old index. -/
def Clearing (cfg : ChainDbConfig) (db : ChainDb) : Call → Prop
  | .persist _ _ => True
  | .compact removal => db.Overfull cfg → removal.Clears

lemma Indexed.step (hidx : cfg.enableLogIndex = true) (hcall : Clearing cfg db call)
    (hdb : Indexed F db) (h : step F cfg db call = some db') : Indexed F db' := by
  cases call with
  | persist number logs => exact hdb.write hidx (eq_ok_of_toOption h)
  | compact removal =>
    rcases compact_eq_ok (eq_ok_of_toOption h) with
      ⟨-, rfl⟩ | ⟨hover, rewritten, hrewrite, rfl⟩
    · exact hdb
    · obtain ⟨hlocated, habsent⟩ := Indexed.rewrite hidx (hcall hover) hdb hrewrite
      exact ⟨hlocated, habsent⟩

lemma run_indexed (hidx : cfg.enableLogIndex = true) {indexDir : Bool} {calls : List Call}
    (hcalls : Trace.Along (step F cfg) (Clearing cfg) (opened indexDir) calls)
    (h : run (step F cfg) (opened indexDir) calls = some db) : Indexed F db :=
  run_history (P := fun _ db => Indexed F db) (indexed_opened indexDir)
    (fun _ _ _ _ hdb hcall hstep => hdb.step hidx hcall hstep) hcalls h

/-! ### The file and the retained logs -/

/-- The file holds the retained logs, each once. -/
def Undoubled (F : LogFormat) (db : ChainDb) : Prop :=
  db.logsFile = Lines.unlines F.encode db.allLogs

/-- A compaction that has something to do keeps no log. -/
def Emptying (cfg : ChainDbConfig) (db : ChainDb) : Call → Prop
  | .persist _ _ => True
  | .compact _ => db.Overfull cfg → db.keptLogs cfg = []

lemma undoubled_opened (indexDir : Bool) : Undoubled F (opened indexDir) := rfl

lemma Undoubled.step (hidx : cfg.enableLogIndex = true) (hcall : Emptying cfg db call)
    (hdb : Undoubled F db) (h : step F cfg db call = some db') : Undoubled F db' := by
  cases call with
  | persist number logs =>
    obtain ⟨written, hwrite, rfl⟩ := exists_of_map_eq_ok (eq_ok_of_toOption h)
    split at hwrite
    · rename_i hnil
      cases hwrite
      simpa [Undoubled, hnil] using hdb
    · obtain ⟨-, rfl⟩ := ChainDb.writeLogs_eq_ok hidx hwrite
      simp only [Undoubled, Lines.unlines_append]
      rw [hdb]
  | compact removal =>
    rcases compact_eq_ok (eq_ok_of_toOption h) with ⟨-, rfl⟩ | ⟨hover, rewritten, hrewrite, rfl⟩
    · exact hdb
    · have hnil := hcall hover
      rw [ChainDb.rewriteLogs, if_pos hidx, if_pos hnil] at hrewrite
      cases hrewrite
      exact (sweep_spec removal _).1

lemma run_undoubled (hidx : cfg.enableLogIndex = true) {indexDir : Bool} {calls : List Call}
    (hcalls : Trace.Along (step F cfg) (Emptying cfg) (opened indexDir) calls)
    (h : run (step F cfg) (opened indexDir) calls = some db) : Undoubled F db :=
  run_history (P := fun _ db => Undoubled F db) (undoubled_opened indexDir)
    (fun _ _ _ _ hdb hcall hstep => hdb.step hidx hcall hstep) hcalls h

lemma step_allLogs (h : step F cfg db call = some db') :
    (∃ number logs, call = .persist number logs ∧ db'.allLogs = db.allLogs ++ logs) ∨
      (∃ removal, call = .compact removal) ∧ db'.allLogs.Sublist db.allLogs := by
  cases call with
  | persist number logs =>
    refine .inl ⟨number, logs, rfl, ?_⟩
    obtain ⟨written, -, rfl⟩ := exists_of_map_eq_ok (eq_ok_of_toOption h)
    rfl
  | compact removal =>
    refine .inr ⟨⟨removal, rfl⟩, ?_⟩
    rcases compact_eq_ok (eq_ok_of_toOption h) with ⟨-, rfl⟩ | ⟨-, rewritten, -, rfl⟩
    · exact List.Sublist.refl _
    · exact List.filter_sublist

end Index

end Iona.ChainStore
