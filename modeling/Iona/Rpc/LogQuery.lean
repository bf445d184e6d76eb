import Iona.Lib.Bytes
import Iona.Rpc.ChainStore

/-!
# Queries for logs

`query_logs` reads the index files of an address, of a topic or of both, and fetches each log from
the place its entry names; without a filter it scans the log file.
-/

namespace Iona.ChainStore

open Trace List

structure LogQuery where
  fromBlock : ℕ
  toBlock : ℕ
  address : Option String
  topic0 : Option String
deriving DecidableEq, Repr

namespace LogQuery

def inRange (q : LogQuery) (blockNumber : ℕ) : Bool :=
  decide (q.fromBlock ≤ blockNumber ∧ blockNumber ≤ q.toBlock)

def selects (q : LogQuery) (l : Log) : Bool :=
  q.inRange l.blockNumber && q.address.all (fun a => l.address == a) &&
    q.topic0.all fun t => l.topics.any fun lt => lt == t

end LogQuery

def Log.key (l : Log) : String × ℕ := (l.txHash, l.logIndex)

def LogIndexEntry.key (e : LogIndexEntry) : String × ℕ := (e.txHash, e.logIndex)

def logOrder (a b : Log) : Prop :=
  a.blockNumber < b.blockNumber ∨ a.blockNumber = b.blockNumber ∧ a.logIndex ≤ b.logIndex

instance : DecidableRel logOrder := fun _ _ => inferInstanceAs (Decidable (_ ∨ _))

section Query

variable (F : LogFormat) (cfg : ChainDbConfig)

def loadLines : ℕ → List (List UInt8) → Except ChainDbError (List Log)
  | _, [] => .ok []
  | lineno, line :: rest =>
    if F.blank line then loadLines (lineno + 1) rest
    else
      match F.decode line with
      | .error e => .error (.corrupt ("line " ++ toString (lineno + 1) ++ ": " ++ e))
      | .ok l => (loadLines (lineno + 1) rest).map (l :: ·)

def loadJsonl (file : List UInt8) : Except ChainDbError (List Log) :=
  loadLines F 0 (Lines.lines file)

def queryLogsScan (db : ChainDb) (q : LogQuery) : Except ChainDbError (List Log) :=
  (loadJsonl F db.logsFile).map (filter q.selects)

def fetchLogByOffset (file : List UInt8) (offset : ℕ) : Except ChainDbError (Option Log) :=
  match Lines.lineAt file offset with
  | none => .ok none
  | some line =>
    match F.decode line with
    | .error e => .error (.corrupt e)
    | .ok l => .ok (some l)

def fetchLogByTxHashIndex (key : String × ℕ) : List (List UInt8) → Except ChainDbError (Option Log)
  | [] => .ok none
  | line :: rest =>
    if F.blank line then fetchLogByTxHashIndex key rest
    else
      match F.decode line with
      | .error e => .error (.corrupt e)
      | .ok l => if l.key = key then .ok (some l) else fetchLogByTxHashIndex key rest

def fetchLog (file : List UInt8) (e : LogIndexEntry) : Except ChainDbError (Option Log) :=
  match e.offset with
  | some off => fetchLogByOffset F file off
  | none => fetchLogByTxHashIndex F e.key (Lines.lines file)

def fetchAll (file : List UInt8) : List LogIndexEntry → Except ChainDbError (List Log)
  | [] => .ok []
  | e :: es =>
    match fetchLog F file e with
    | .error err => .error err
    | .ok got => (fetchAll file es).map (got.toList ++ ·)

def readIndexFile (db : ChainDb) (p : IndexPath) (q : LogQuery) : List LogIndexEntry :=
  (db.index p).filter fun e => q.inRange e.blockNumber

def candidates (db : ChainDb) (q : LogQuery) : Option (List LogIndexEntry) :=
  match q.address, q.topic0 with
  | some a, some t =>
    some ((readIndexFile db (topicIndexPath F t) q).filter fun e =>
      decide (e.key ∈ (readIndexFile db (addrIndexPath F a) q).map LogIndexEntry.key))
  | some a, none => some (readIndexFile db (addrIndexPath F a) q)
  | none, some t => some (readIndexFile db (topicIndexPath F t) q)
  | none, none => none

def queryLogs (db : ChainDb) (q : LogQuery) : Except ChainDbError (List Log) :=
  if cfg.enableLogIndex = false then queryLogsScan F db q
  else
    match candidates F db q with
    | none => queryLogsScan F db { q with address := none, topic0 := none }
    | some es => (fetchAll F db.logsFile es).map (insertionSort logOrder)

end Query

/-! ### Reading what was written -/

section Reading

variable {F : LogFormat} {file : List UInt8}

lemma loadLines_encode (lineno : ℕ) (logs : List Log) :
    loadLines F lineno (logs.map F.encode) = .ok logs := by
  induction logs generalizing lineno with
  | nil => rfl
  | cons l logs ih => simp [loadLines, F.blank_encode, F.decode_encode, ih, Except.map]

lemma loadJsonl_unlines (logs : List Log) :
    loadJsonl F (Lines.unlines F.encode logs) = .ok logs := by
  rw [loadJsonl, Lines.lines_unlines F.lf_notMem F.cr_notMem, loadLines_encode]

lemma fetchLog_of_holds {l : Log} {off : ℕ} (h : Lines.Holds file off (F.encode l)) :
    fetchLog F file (.of l off) = .ok (some l) := by
  have hline := Lines.lineAt_of_holds (F.lf_notMem l) h
  simp [fetchLog, LogIndexEntry.of, fetchLogByOffset, hline, F.decode_encode]

lemma fetchAll_located {xs : List (Log × ℕ)}
    (h : ∀ x ∈ xs, Lines.Holds file x.2 (F.encode x.1)) :
    fetchAll F file (xs.map fun x => LogIndexEntry.of x.1 x.2) = .ok (xs.map Prod.fst) := by
  induction xs with
  | nil => rfl
  | cons x xs ih =>
    have hx := fetchLog_of_holds (h x mem_cons_self)
    have htail := ih fun y hy => h y (mem_cons_of_mem x hy)
    simp [fetchAll, hx, htail, Except.map]

end Reading

/-! ### Names in the index -/

def isHex (s : String) : Bool :=
  match s.toList with
  | '0' :: 'x' :: ds => ds.all isLowerHex
  | _ => false

lemma trimHexPrefix_of_hex {ds : List Char} (h : ds.all isLowerHex = true) :
    trimHexPrefix ds = ds := by
  unfold trimHexPrefix
  split
  · -- `x` is no hexadecimal digit
    exact absurd h (by simp [isLowerHex])
  · rfl

lemma exists_of_isHex {s : String} (h : isHex s = true) :
    ∃ ds, ds.all isLowerHex = true ∧ s = String.ofList ('0' :: 'x' :: ds) := by
  unfold isHex at h
  split at h
  · rename_i ds hds
    exact ⟨ds, h, by rw [← hds, String.ofList_toList]⟩
  · cases h

section Names

variable {F : LogFormat} {s t : String}

lemma indexName_hex {ds : List Char} (h : ds.all isLowerHex = true) :
    indexName F (String.ofList ('0' :: 'x' :: ds)) = String.ofList ds := by
  rw [indexName, String.toList_ofList, trimHexPrefix, trimHexPrefix_of_hex h, F.toLowercase_hex ds h]

lemma indexName_inj (hs : isHex s = true) (ht : isHex t = true)
    (h : indexName F s = indexName F t) : s = t := by
  obtain ⟨ds, hds, rfl⟩ := exists_of_isHex hs
  obtain ⟨es, hes, rfl⟩ := exists_of_isHex ht
  rw [indexName_hex hds, indexName_hex hes] at h
  rw [String.ofList_injective h]

end Names

def Log.Canonical (l : Log) : Prop := isHex l.address = true ∧ ∀ t ∈ l.topics, isHex t = true

def LogQuery.Canonical (q : LogQuery) : Prop :=
  (∀ a ∈ q.address, isHex a = true) ∧ ∀ t ∈ q.topic0, isHex t = true

section Paths

variable {F : LogFormat} {l : Log} {s : String}

lemma addrIndexPath_mem (hl : l.Canonical) (hs : isHex s = true) :
    addrIndexPath F s ∈ indexPaths F l ↔ l.address = s := by
  constructor
  · intro h
    rcases mem_cons.mp h with heq | hmem
    · exact indexName_inj hl.1 hs (IndexPath.byAddress.inj heq).symm
    · obtain ⟨t, -, ht⟩ := mem_map.mp hmem
      cases ht
  · rintro rfl
    exact mem_cons_self

lemma topicIndexPath_mem (hl : l.Canonical) (hs : isHex s = true) :
    topicIndexPath F s ∈ indexPaths F l ↔ s ∈ l.topics := by
  constructor
  · intro h
    rcases mem_cons.mp h with heq | hmem
    · cases heq
    · obtain ⟨t, hmem, ht⟩ := mem_map.mp hmem
      rwa [← indexName_inj (hl.2 t hmem) hs (IndexPath.byTopic.inj ht)]
  · intro h
    exact mem_cons_of_mem _ (mem_map_of_mem h)

lemma count_addrIndexPath : (indexPaths F l).count (addrIndexPath F s) ≤ 1 := by
  have hrest : (l.topics.map (topicIndexPath F)).count (addrIndexPath F s) = 0 := by
    refine count_eq_zero.mpr fun h => ?_
    obtain ⟨t, -, ht⟩ := mem_map.mp h
    cases ht
  rw [indexPaths, count_cons, hrest]
  split <;> omega

lemma count_map_topicIndexPath {ts : List String} (hts : ∀ t ∈ ts, isHex t = true)
    (hs : isHex s = true) :
    (ts.map (topicIndexPath F)).count (topicIndexPath F s) = ts.count s := by
  induction ts with
  | nil => rfl
  | cons t ts ih =>
    have hiff : topicIndexPath F t = topicIndexPath F s ↔ t = s :=
      ⟨fun h => indexName_inj (hts t mem_cons_self) hs (IndexPath.byTopic.inj h),
        fun h => h ▸ rfl⟩
    rw [map_cons, count_cons, count_cons,
      ih fun t' ht' => hts t' (mem_cons_of_mem t ht')]
    simp [hiff]

lemma count_topicIndexPath (hl : l.Canonical) (hs : isHex s = true) :
    (indexPaths F l).count (topicIndexPath F s) = l.topics.count s := by
  have hfirst : addrIndexPath F l.address ≠ topicIndexPath F s := nofun
  rw [indexPaths, count_cons_of_ne hfirst, count_map_topicIndexPath hl.2 hs]

end Paths

/-! ### What a query finds -/

structure Keyed (q : LogQuery) (db : ChainDb) : Prop where
  unique : (db.allLogs.map Log.key).Nodup
  canonical : ∀ l ∈ db.allLogs, l.Canonical
  single : ∀ l ∈ db.allLogs, ∀ t ∈ q.topic0, l.topics.count t ≤ 1

section Finding

variable {F : LogFormat} {cfg : ChainDbConfig} {db : ChainDb} {q : LogQuery}
  {located : List (Log × ℕ)}

variable {es : List LogIndexEntry}

lemma Located.mem (hloc : Located F db.logsFile db.index db.allLogs located) {x : Log × ℕ}
    (hx : x ∈ located) : x.1 ∈ db.allLogs :=
  hloc.logs ▸ mem_map_of_mem hx

lemma readIndexFile_eq (hloc : Located F db.logsFile db.index db.allLogs located) {p : IndexPath}
    (test : Log → Bool) (hcount : ∀ l ∈ db.allLogs, (indexPaths F l).count p ≤ 1)
    (htest : ∀ l ∈ db.allLogs, (p ∈ indexPaths F l ↔ test l = true)) :
    readIndexFile db p q = (located.filter fun x => q.inRange x.1.blockNumber && test x.1).map
      fun x => LogIndexEntry.of x.1 x.2 := by
  rw [readIndexFile, hloc.entries,
    Posting.hits_eq_filter fun x hx => hcount x.1 (hloc.mem hx), filter_map,
    filter_filter]
  refine congrArg _ (filter_congr fun x hx => ?_)
  have hdecide : decide (p ∈ indexPaths F x.1) = test x.1 := by
    rw [Bool.eq_iff_iff, decide_eq_true_iff]
    exact htest x.1 (hloc.mem hx)
  rw [hdecide]
  rfl

lemma readIndexFile_address (hloc : Located F db.logsFile db.index db.allLogs located)
    (hkeyed : Keyed q db) {a : String} (ha : isHex a = true) :
    readIndexFile db (addrIndexPath F a) q =
      (located.filter fun x => q.inRange x.1.blockNumber && (x.1.address == a)).map
        fun x => LogIndexEntry.of x.1 x.2 := by
  refine readIndexFile_eq hloc (fun l => l.address == a) (fun _ _ => count_addrIndexPath) ?_
  intro l hl
  rw [addrIndexPath_mem (hkeyed.canonical l hl) ha, beq_iff_eq]

lemma readIndexFile_topic (hloc : Located F db.logsFile db.index db.allLogs located)
    (hkeyed : Keyed q db) {t : String} (ht : isHex t = true) (hq : q.topic0 = some t) :
    readIndexFile db (topicIndexPath F t) q =
      (located.filter fun x => q.inRange x.1.blockNumber && x.1.topics.any fun lt => lt == t).map
        fun x => LogIndexEntry.of x.1 x.2 := by
  refine readIndexFile_eq hloc (fun l => l.topics.any fun lt => lt == t) ?_ ?_
  · intro l hl
    rw [count_topicIndexPath (hkeyed.canonical l hl) ht]
    exact hkeyed.single l hl t hq
  · intro l hl
    rw [topicIndexPath_mem (hkeyed.canonical l hl) ht]
    simp

lemma key_mem_address (hloc : Located F db.logsFile db.index db.allLogs located)
    (hkeyed : Keyed q db) {a : String} {x : Log × ℕ} (hx : x ∈ located)
    (hrange : q.inRange x.1.blockNumber = true) :
    x.1.key ∈ (located.filter fun y => q.inRange y.1.blockNumber && (y.1.address == a)).map
        (fun y => y.1.key) ↔ x.1.address = a := by
  constructor
  · intro h
    obtain ⟨y, hy, hkey⟩ := mem_map.mp h
    obtain ⟨hy, hsel⟩ := mem_filter.mp hy
    have heq := inj_on_of_nodup_map hkeyed.unique (hloc.mem hy) (hloc.mem hx) hkey
    rw [← heq]
    exact beq_iff_eq.mp (Bool.and_eq_true_iff.mp hsel).2
  · rintro rfl
    exact mem_map.mpr ⟨x, mem_filter.mpr ⟨hx, by simp [hrange]⟩, rfl⟩

lemma candidates_spec (hloc : Located F db.logsFile db.index db.allLogs located)
    (hkeyed : Keyed q db) (hq : q.Canonical) (h : candidates F db q = some es) :
    es = (located.filter fun x => q.selects x.1).map fun x => LogIndexEntry.of x.1 x.2 := by
  unfold candidates at h
  split at h <;> rename_i ha ht
  · rename_i a t
    cases h
    rw [readIndexFile_address hloc hkeyed (hq.1 a ha),
      readIndexFile_topic hloc hkeyed (hq.2 t ht) ht, filter_map, filter_filter,
      map_map]
    refine congrArg _ (filter_congr fun x hx => ?_)
    -- out of the range both sides are false
    cases hrange : q.inRange x.1.blockNumber with
    | false => simp [LogQuery.selects, hrange]
    | true =>
      have hkey := key_mem_address hloc hkeyed (a := a) hx hrange
      have hdecide : decide (x.1.key ∈ (located.filter fun y =>
          q.inRange y.1.blockNumber && (y.1.address == a)).map fun y => y.1.key) =
          (x.1.address == a) := by
        rw [Bool.eq_iff_iff, decide_eq_true_iff, beq_iff_eq]
        exact hkey
      simp only [LogQuery.selects, hrange, ha, ht, Option.all_some, Bool.true_and]
      exact congrArg (· && _) hdecide
  · rename_i a
    cases h
    rw [readIndexFile_address hloc hkeyed (hq.1 a ha)]
    simp [LogQuery.selects, ha, ht]
  · rename_i t
    cases h
    rw [readIndexFile_topic hloc hkeyed (hq.2 t ht) ht]
    simp [LogQuery.selects, ha, ht]
  · cases h

lemma candidates_eq_none (h : candidates F db q = none) : q.address = none ∧ q.topic0 = none := by
  unfold candidates at h
  split at h
  · cases h
  · cases h
  · cases h
  · rename_i ha ht
    exact ⟨ha, ht⟩

lemma queryLogs_of_none (hidx : cfg.enableLogIndex = true) (h : candidates F db q = none) :
    queryLogs F cfg db q = queryLogsScan F db q := by
  obtain ⟨ha, ht⟩ := candidates_eq_none h
  rw [queryLogs, if_neg (by simp [hidx]), h]
  cases q
  cases ha
  cases ht
  rfl

lemma queryLogs_of_some (hidx : cfg.enableLogIndex = true) (h : candidates F db q = some es) :
    queryLogs F cfg db q = (fetchAll F db.logsFile es).map (insertionSort logOrder) := by
  rw [queryLogs, if_neg (by simp [hidx]), h]

lemma queryLogs_spec (hidx : cfg.enableLogIndex = true) (hdb : Indexed F db)
    (hkeyed : Keyed q db) (hq : q.Canonical)
    (hscan : q.address = none → q.topic0 = none → Undoubled F db) :
    ∃ logs, queryLogs F cfg db q = .ok logs ∧ logs.Perm (db.allLogs.filter q.selects) := by
  obtain ⟨located, hloc⟩ := hdb.located
  cases hcand : candidates F db q with
  | none =>
    obtain ⟨ha, ht⟩ := candidates_eq_none hcand
    have hfile := hscan ha ht
    refine ⟨_, ?_, List.Perm.refl _⟩
    rw [queryLogs_of_none hidx hcand, queryLogsScan, hfile, loadJsonl_unlines]
    rfl
  | some es =>
    have hfetch : fetchAll F db.logsFile es = .ok (db.allLogs.filter q.selects) := by
      rw [candidates_spec hloc hkeyed hq hcand,
        fetchAll_located fun x hx => hloc.lines x (mem_filter.mp hx).1, ← hloc.logs,
        filter_map]
      rfl
    refine ⟨_, ?_, perm_insertionSort logOrder _⟩
    rw [queryLogs_of_some hidx hcand, hfetch]
    rfl

end Finding

/-! ### Queries after any calls -/

def Wellformed (db : ChainDb) : Call → Prop
  | .persist _ logs => (∀ l ∈ logs, l.Canonical) ∧ ((db.allLogs ++ logs).map Log.key).Nodup
  | .compact _ => True

def Answerable (cfg : ChainDbConfig) (q : LogQuery) (db : ChainDb) : Call → Prop
  | .persist _ logs => ∀ l ∈ logs, ∀ t ∈ q.topic0, l.topics.count t ≤ 1
  | .compact removal =>
    db.Overfull cfg → removal.Clears ∧
      (q.address = none → q.topic0 = none → db.keptLogs cfg = [])

instance (l : Log) : Decidable l.Canonical := inferInstanceAs (Decidable (_ ∧ _))

instance (q : LogQuery) : Decidable q.Canonical := inferInstanceAs (Decidable (_ ∧ _))

instance decidableWellformed (db : ChainDb) : DecidablePred (Wellformed db)
  | .persist _ logs => inferInstanceAs
      (Decidable ((∀ l ∈ logs, l.Canonical) ∧ ((db.allLogs ++ logs).map Log.key).Nodup))
  | .compact _ => inferInstanceAs (Decidable True)

instance decidableAnswerable (cfg : ChainDbConfig) (q : LogQuery) (db : ChainDb) :
    DecidablePred (Answerable cfg q db)
  | .persist _ logs => inferInstanceAs
      (Decidable (∀ l ∈ logs, ∀ t ∈ q.topic0, l.topics.count t ≤ 1))
  | .compact removal => inferInstanceAs (Decidable (db.Overfull cfg → removal.Clears ∧
      (q.address = none → q.topic0 = none → db.keptLogs cfg = [])))

def retained (cfg : ChainDbConfig) (calls : List Call) : List ℕ × List Log :=
  calls.foldl (fun r call =>
    match call with
    | .persist number logs => (r.1 ++ [number], r.2 ++ logs)
    | .compact _ =>
      if cfg.maxBlocks ≠ 0 ∧ cfg.maxBlocks < r.1.length then
        let kept := r.1.drop (r.1.length - cfg.maxBlocks)
        (kept, r.2.filter fun l => decide (kept.headD 0 ≤ l.blockNumber))
      else r) ([], [])

section Runs

variable {F : LogFormat} {cfg : ChainDbConfig} {indexDir : Bool} {calls : List Call}
  {db db' : ChainDb} {q : LogQuery}

lemma Keyed.step {call : Call} (hwf : Wellformed db call) (hans : Answerable cfg q db call)
    (hdb : Keyed q db) (h : step F cfg db call = some db') : Keyed q db' := by
  rcases step_allLogs h with ⟨number, logs, rfl, hlogs⟩ | ⟨-, hsub⟩
  · refine ⟨hlogs ▸ hwf.2, ?_, ?_⟩
    · intro l hl
      rcases mem_append.mp (hlogs ▸ hl) with hl | hl
      · exact hdb.canonical l hl
      · exact hwf.1 l hl
    · intro l hl
      rcases mem_append.mp (hlogs ▸ hl) with hl | hl
      · exact hdb.single l hl
      · exact hans l hl
  · exact ⟨hdb.unique.sublist (hsub.map _), fun l hl => hdb.canonical l (hsub.subset hl),
      fun l hl => hdb.single l (hsub.subset hl)⟩

lemma run_keyed (hwf : Trace.Along (step F cfg) Wellformed (opened indexDir) calls)
    (hans : Trace.Along (step F cfg) (Answerable cfg q) (opened indexDir) calls)
    (h : run (step F cfg) (opened indexDir) calls = some db) : Keyed q db := by
  have hboth : Trace.Along (step F cfg) (fun db call => Wellformed db call ∧ Answerable cfg q db call)
      (opened indexDir) calls := fun pre call post hsplit s hs =>
    ⟨hwf pre call post hsplit s hs, hans pre call post hsplit s hs⟩
  refine run_history (P := fun _ db => Keyed q db) ?_ ?_ hboth h
  · exact ⟨nodup_nil, nofun, nofun⟩
  · intro _ db call db' hdb hcall hstep
    exact hdb.step hcall.1 hcall.2 hstep

lemma run_retained (h : run (step F cfg) (opened indexDir) calls = some db) :
    (db.blocks, db.allLogs) = retained cfg calls := by
  refine run_history (C := fun _ _ => True)
    (P := fun calls db => (db.blocks, db.allLogs) = retained cfg calls) rfl ?_ ?_ h
  · intro pre db call db' hdb _ hstep
    rw [retained, foldl_append, ← retained, ← hdb]
    cases call with
    | persist number logs =>
      obtain ⟨written, -, rfl⟩ := exists_of_map_eq_ok (eq_ok_of_toOption hstep)
      rfl
    | compact removal =>
      rcases compact_eq_ok (eq_ok_of_toOption hstep) with ⟨hfits, rfl⟩ | ⟨hover, rewritten, -, rfl⟩
      · exact (if_neg hfits).symm
      · exact (if_pos hover).symm
  · exact fun _ _ _ _ _ _ => trivial

/-- **Queries are exact**: after every run of successful calls in which no log has the topic twice
and compactions clear the index, a query for canonical texts finds each retained log that the scan
filter selects, once, and nothing else. -/
theorem queries_exact (hidx : cfg.enableLogIndex = true)
    (h : run (step F cfg) (opened indexDir) calls = some db)
    (hwf : Trace.Along (step F cfg) Wellformed (opened indexDir) calls)
    (hans : Trace.Along (step F cfg) (Answerable cfg q) (opened indexDir) calls)
    (hq : q.Canonical) :
    ∃ logs, queryLogs F cfg db q = .ok logs ∧ logs.Nodup ∧
      ∀ l, l ∈ logs ↔ l ∈ (retained cfg calls).2 ∧ q.selects l = true := by
  have hindexed : Indexed F db := by
    refine run_indexed hidx (hans.imp fun db call hcall => ?_) h
    cases call with
    | persist number logs => exact trivial
    | compact removal => exact fun hover => (hcall hover).1
  have hscan : q.address = none → q.topic0 = none → Undoubled F db := by
    intro ha ht
    refine run_undoubled hidx (hans.imp fun db call hcall => ?_) h
    cases call with
    | persist number logs => exact trivial
    | compact removal => exact fun hover => (hcall hover).2 ha ht
  have hkeyed := run_keyed hwf hans h
  obtain ⟨logs, hlogs, hperm⟩ := queryLogs_spec hidx hindexed hkeyed hq hscan
  refine ⟨logs, hlogs, ?_, fun l => ?_⟩
  · exact hperm.nodup_iff.mpr (hkeyed.unique.of_map.filter _)
  · rw [hperm.mem_iff, List.mem_filter, ← run_retained h]

end Runs

/-! ### A format -/

namespace LogFormat

def unary (rows : List (List ℕ)) : List UInt8 :=
  rows.flatMap fun row => row.flatMap (fun n => replicate n 49 ++ [44]) ++ [59]

def readUnary : List (List ℕ) → List ℕ → ℕ → List UInt8 → List (List ℕ)
  | rows, _, _, [] => rows.reverse
  | rows, row, n, b :: bytes =>
    if b = 49 then readUnary rows row (n + 1) bytes
    else if b = 44 then readUnary rows (n :: row) 0 bytes
    else readUnary (row.reverse :: rows) [] 0 bytes

lemma readUnary_number (rows : List (List ℕ)) (row : List ℕ) (m n : ℕ) (bytes : List UInt8) :
    readUnary rows row m (replicate n 49 ++ 44 :: bytes) =
      readUnary rows ((m + n) :: row) 0 bytes := by
  induction n generalizing m with
  | zero => rfl
  | succ n ih =>
    rw [replicate_succ, cons_append, readUnary, if_pos rfl, ih]
    congr 2
    omega

lemma readUnary_row (rows : List (List ℕ)) (done row : List ℕ) (bytes : List UInt8) :
    readUnary rows done 0 (row.flatMap (fun n => replicate n 49 ++ [44]) ++ 59 :: bytes) =
      readUnary ((done.reverse ++ row) :: rows) [] 0 bytes := by
  induction row generalizing done with
  | nil => simp [readUnary]
  | cons n row ih =>
    rw [flatMap_cons, append_assoc, append_assoc, singleton_append,
      readUnary_number, ih]
    simp

lemma readUnary_unary (done rows : List (List ℕ)) :
    readUnary done [] 0 (unary rows) = done.reverse ++ rows := by
  induction rows generalizing done with
  | nil => simp [unary, readUnary]
  | cons row rows ih =>
    rw [unary, flatMap_cons, append_assoc, singleton_append, readUnary_row, ← unary, ih]
    simp

lemma mem_unary {b : UInt8} {rows : List (List ℕ)} (h : b ∈ unary rows) :
    b = 49 ∨ b = 44 ∨ b = 59 := by
  obtain ⟨row, -, hrow⟩ := mem_flatMap.mp h
  rcases mem_append.mp hrow with hrow | hrow
  · obtain ⟨n, -, hn⟩ := mem_flatMap.mp hrow
    rcases mem_append.mp hn with hn | hn
    · exact .inl (eq_of_mem_replicate hn)
    · exact .inr (.inl (mem_singleton.mp hn))
  · exact .inr (.inr (mem_singleton.mp hrow))

def codes (s : String) : List ℕ := s.toList.map Char.toNat

def text (cs : List ℕ) : String := String.ofList (cs.map Char.ofNat)

@[simp] lemma text_codes (s : String) : text (codes s) = s := by
  simp [text, codes, Function.comp_def]

def rows (l : Log) : List (List ℕ) :=
  [l.blockNumber, l.logIndex] :: codes l.address :: codes l.data :: codes l.txHash ::
    l.topics.map codes

def ofRows : List (List ℕ) → Except String Log
  | [blockNumber, logIndex] :: address :: data :: txHash :: topics =>
    .ok { address := text address, topics := topics.map text, data := text data, blockNumber,
          txHash := text txHash, logIndex }
  | _ => .error "not a log"

lemma lowerChar_of_isLowerHex {c : Char} (h : isLowerHex c = true) : Bytes.lowerChar c = c := by
  refine if_neg fun hupper => ?_
  rcases of_decide_eq_true h with hdigit | hletter
  · exact absurd (hupper.1.trans hdigit.2) (by decide)
  · exact absurd (hletter.1.trans hupper.2) (by decide)

def plain : LogFormat where
  encode l := unary (rows l)
  decode bytes := ofRows (readUnary [] [] 0 bytes)
  blank bytes := bytes.isEmpty
  toLowercase := Bytes.lowercase
  decode_encode l := by simp [readUnary_unary, rows, ofRows, Function.comp_def]
  lf_notMem l h := by simpa [Lines.lf] using mem_unary h
  cr_notMem l h := by simpa [Lines.cr] using mem_unary h
  blank_encode l := by simp [unary, rows]
  toLowercase_hex ds h := by
    rw [Bytes.lowercase, String.toList_ofList]
    refine congrArg String.ofList ((map_congr_left fun c hc => ?_).trans (map_id ds))
    exact lowerChar_of_isLowerHex (all_eq_true.mp h c hc)

end LogFormat

/-! ### Compaction, and a topic that is there twice -/

def transferLog (number : ℕ) (topics : List String) : Log :=
  { address := "0xa", topics, data := "0x", blockNumber := number, txHash := "0xf", logIndex := number }

def compactedRun : List Call :=
  [.persist 1 [transferLog 1 ["0xb", "0xc"]], .persist 2 [transferLog 2 ["0xb"]],
    .compact (.interrupted [])]

def byTopic (topic : String) : LogQuery :=
  { fromBlock := 0, toBlock := 9, address := none, topic0 := some topic }

theorem queries_exact_compacted :
    ∃ db, run (step .plain { maxBlocks := 1 }) (opened true) compactedRun = some db ∧
      ∃ logs, queryLogs .plain { maxBlocks := 1 } db (byTopic "0xb") = .ok logs ∧ logs.Nodup ∧
        ∀ l, l ∈ logs ↔ l ∈ (retained { maxBlocks := 1 } compactedRun).2 ∧
          (byTopic "0xb").selects l = true := by
  have hsome : (run (step .plain { maxBlocks := 1 }) (opened true) compactedRun).isSome = true := by
    decide +kernel
  obtain ⟨db, hdb⟩ := Option.isSome_iff_exists.mp hsome
  have hwf : alongTest (step .plain { maxBlocks := 1 })
      (fun db call => decide (Wellformed db call)) (opened true) compactedRun = true := by
    decide +kernel
  have hans : alongTest (step .plain { maxBlocks := 1 })
      (fun db call => decide (Answerable { maxBlocks := 1 } (byTopic "0xb") db call)) (opened true)
      compactedRun = true := by
    decide +kernel
  exact ⟨db, hdb, queries_exact rfl hdb (along_of_alongTest (fun _ _ h => of_decide_eq_true h) hwf)
    (along_of_alongTest (fun _ _ h => of_decide_eq_true h) hans) (by decide +kernel)⟩

def twiceRun : List Call := [.persist 1 [transferLog 1 ["0xb", "0xb"]]]

/-- **A log with a topic twice** is entered twice under it: the scan finds one log, the query returns
it two times. -/
theorem repeated_topic_found_twice :
    alongTest (step .plain { maxBlocks := 0 }) (fun db call => decide (Wellformed db call))
        (opened true) twiceRun = true ∧
      (byTopic "0xb").Canonical ∧
      ∃ db, run (step .plain { maxBlocks := 0 }) (opened true) twiceRun = some db ∧
        (retained { maxBlocks := 0 } twiceRun).2 = [transferLog 1 ["0xb", "0xb"]] ∧
        queryLogsScan .plain db (byTopic "0xb") = .ok [transferLog 1 ["0xb", "0xb"]] ∧
        queryLogs .plain { maxBlocks := 0 } db (byTopic "0xb") =
          .ok [transferLog 1 ["0xb", "0xb"], transferLog 1 ["0xb", "0xb"]] := by
  refine ⟨by decide +kernel, by decide +kernel, ?_⟩
  have hanswers : (run (step .plain { maxBlocks := 0 }) (opened true) twiceRun).map
      (fun db => (queryLogsScan .plain db (byTopic "0xb"),
        queryLogs .plain { maxBlocks := 0 } db (byTopic "0xb"))) =
      some (.ok [transferLog 1 ["0xb", "0xb"]],
        .ok [transferLog 1 ["0xb", "0xb"], transferLog 1 ["0xb", "0xb"]]) := by
    decide +kernel
  obtain ⟨db, hdb, hboth⟩ := Option.map_eq_some_iff.mp hanswers
  exact ⟨db, hdb, by decide +kernel, congrArg Prod.fst hboth, congrArg Prod.snd hboth⟩

end Iona.ChainStore
