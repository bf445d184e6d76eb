import Iona.Lib.Lru
import Iona.Lib.MapSum
import Iona.Types

/-!
# The block store

`storage/block_store.rs`.
-/

namespace Iona.Storage

open Function

structure Bincode (File : Type) where
  serialize : Block → File
  deserialize : File → Option Block
  deserialize_serialize : ∀ block, deserialize (serialize block) = some block

inductive BlockStoreError where
  | io
  | serialization
  | idMismatch (expected actual : String)
  deriving DecidableEq

structure IndexFile where
  byHeight : BTreeMap Height String := ∅
  bestHeight : Height := 0

structure TxLocation where
  blockHeight : Height
  blockId : String
  txIndex : ℕ
  deriving DecidableEq

structure TxIndexFile where
  locs : BTreeMap String TxLocation := ∅

structure Directory (File : Type) where
  blocks : BTreeMap String File := ∅
  index : Option IndexFile := none
  txIndex : Option TxIndexFile := none

structure FsBlockStore (File : Type) where
  dir : Directory File
  idx : IndexFile
  txIdx : TxIndexFile
  cap : ℕ
  cache : Lru.Cache Hash32 Block cap

variable {File : Type} (C : Crypto) (B : Bincode File)

def hex (h : Hash32) : String := Bytes.hexEncode h.toList

def pathFor (id : Hash32) : String := hex id ++ ".bin"

def defaultCacheSize : ℕ := 256

def openWithOptions (dir : Directory File) (cacheSize : Option ℕ) : FsBlockStore File where
  dir
  idx := dir.index.getD {}
  txIdx := dir.txIndex.getD {}
  cap := max (cacheSize.getD defaultCacheSize) 1
  cache := .empty Hash32 Block _

def Directory.readBlockFile (dir : Directory File) (path : String) (expectedId : Hash32) :
    Except BlockStoreError Block :=
  match dir.blocks[path]? with
  | none => .error .io
  | some buf =>
    match B.deserialize buf with
    | none => .error .serialization
    | some block =>
      if block.id C ≠ expectedId then .error (.idMismatch (hex expectedId) (hex (block.id C)))
      else .ok block

namespace FsBlockStore

variable (s : FsBlockStore File)

def persistIndex : FsBlockStore File := { s with dir.index := some s.idx }

def persistTxIndex : FsBlockStore File := { s with dir.txIndex := some s.txIdx }

def getBlock (id : Hash32) : Option Block × FsBlockStore File :=
  match s.cache.get id with
  | (some block, cache) => (some block, { s with cache })
  | (none, cache) =>
    match s.dir.readBlockFile C B (pathFor id) id with
    | .error _ => (none, { s with cache })
    | .ok block => (some block, { s with cache := cache.put id block })

def indexTxs (locs : BTreeMap String TxLocation) (block : Block) : BTreeMap String TxLocation :=
  block.txs.zipIdx.foldl (fun locs tx =>
    locs.insert (hex (txHash C tx.1))
      { blockHeight := block.header.height, blockId := hex (block.id C), txIndex := tx.2 }) locs

def indexHeight (idx : IndexFile) (block : Block) : IndexFile where
  byHeight := idx.byHeight.insert block.header.height (hex (block.id C))
  bestHeight := if idx.bestHeight < block.header.height then block.header.height else idx.bestHeight

def putBlock (block : Block) : FsBlockStore File :=
  let id := block.id C
  let s := { s with dir.blocks := s.dir.blocks.insert (pathFor id) (B.serialize block) }
  let s := persistTxIndex { s with txIdx.locs := indexTxs C s.txIdx.locs block }
  let s := persistIndex { s with idx := indexHeight C s.idx block }
  { s with cache := s.cache.put id block }

def unindexHeight (idx : IndexFile) (idHex : String) : IndexFile :=
  match idx.byHeight.toList.find? fun entry => entry.2 = idHex with
  | none => idx
  | some (h, _) =>
    let byHeight := idx.byHeight.erase h
    { byHeight, bestHeight := if h = idx.bestHeight then byHeight.keys.max?.getD 0 else idx.bestHeight }

def removeBlock (id : Hash32) : Bool × FsBlockStore File :=
  let existed := s.dir.blocks.contains (pathFor id)
  let s := { s with dir.blocks := s.dir.blocks.erase (pathFor id) }
  let s := persistIndex { s with idx := unindexHeight s.idx (hex id) }
  let s := persistTxIndex
    { s with txIdx.locs := s.txIdx.locs.filter fun _ loc => loc.blockId ≠ hex id }
  (existed, { s with cache := s.cache.pop id })

end FsBlockStore

/-! ### Contents -/

abbrev Contents := Hash32 → Option Block

inductive StoreOp where
  | put (block : Block)
  | get (id : Hash32)
  | remove (id : Hash32)
  | reopen (cacheSize : Option ℕ)

def Contents.step (m : Contents) : StoreOp → Contents
  | .put block => update m (block.id C) (some block)
  | .remove id => update m id none
  | .get _ | .reopen _ => m

def FsBlockStore.step (s : FsBlockStore File) : StoreOp → FsBlockStore File
  | .put block => s.putBlock C B block
  | .get id => (s.getBlock C B id).2
  | .remove id => (s.removeBlock id).2
  | .reopen cacheSize => openWithOptions s.dir cacheSize

def Directory.contents (dir : Directory File) : Contents := fun id =>
  (dir.readBlockFile C B (pathFor id) id).toOption

/-! ### Files -/

section Files

variable {C B} {dir : Directory File}

variable {dir' : Directory File}

lemma hex_injective : Function.Injective hex := fun _ _ h =>
  Vector.toList_inj.mp (Bytes.hexEncode_injective h)

lemma pathFor_injective : Function.Injective pathFor := fun _ _ h =>
  hex_injective ((String.append_left_inj ".bin").mp h)

lemma id_of_contents {id : Hash32} {block : Block} (h : dir.contents C B id = some block) :
    block.id C = id := by
  unfold Directory.contents Directory.readBlockFile at h
  split at h
  · cases h
  · split at h
    · cases h
    · split at h
      · cases h
      · rename_i hid
        cases h
        exact not_not.mp hid

lemma contents_congr {id : Hash32} (h : dir'.blocks[pathFor id]? = dir.blocks[pathFor id]?) :
    dir'.contents C B id = dir.contents C B id := by
  unfold Directory.contents Directory.readBlockFile
  rw [h]

lemma contents_insert (block : Block)
    (h : dir'.blocks = dir.blocks.insert (pathFor (block.id C)) (B.serialize block)) :
    dir'.contents C B = (dir.contents C B).step C (.put block) := by
  funext id
  by_cases hid : id = block.id C
  · -- the file that was written reads back, and its header has the hash of its name
    subst hid
    rw [Contents.step, update_self, Directory.contents, Directory.readBlockFile, h,
      Std.ExtTreeMap.getElem?_insert_self]
    simp only [B.deserialize_serialize, ne_eq, not_true_eq_false, if_false]
    rfl
  · -- another hash is another file
    rw [Contents.step, update_of_ne hid]
    refine contents_congr ?_
    rw [h, Std.ExtTreeMap.getElem?_insert, if_neg]
    rw [Std.LawfulEqCmp.compare_eq_iff_eq]
    exact fun heq => hid (pathFor_injective heq).symm

lemma contents_erase (id : Hash32) (h : dir'.blocks = dir.blocks.erase (pathFor id)) :
    dir'.contents C B = (dir.contents C B).step C (.remove id) := by
  funext k
  by_cases hk : k = id
  · subst hk
    rw [Contents.step, update_self, Directory.contents, Directory.readBlockFile, h,
      Std.ExtTreeMap.getElem?_erase_self]
    rfl
  · rw [Contents.step, update_of_ne hk]
    refine contents_congr ?_
    rw [h, Std.ExtTreeMap.getElem?_erase, if_neg]
    rw [Std.LawfulEqCmp.compare_eq_iff_eq]
    exact fun heq => hk (pathFor_injective heq).symm

end Files

/-! ### The store refines its contents -/

namespace FsBlockStore

variable {C B} {s : FsBlockStore File}

def Coherent (C : Crypto) (B : Bincode File) (s : FsBlockStore File) : Prop :=
  s.cache.Coherent (s.dir.contents C B)

lemma coherent_open (dir : Directory File) (cacheSize : Option ℕ) :
    (openWithOptions dir cacheSize).Coherent C B := Lru.Cache.coherent_empty _ _

lemma getBlock_eq (h : s.Coherent C B) (id : Hash32) :
    (s.getBlock C B id).1 = s.dir.contents C B id ∧ (s.getBlock C B id).2.Coherent C B ∧
      (s.getBlock C B id).2.dir = s.dir := by
  have hget : (s.cache.get id).2.Coherent (s.dir.contents C B) := Lru.Cache.Coherent.get h id
  unfold getBlock
  split
  · -- a hit
    rename_i block cache hcache
    have hhit : (s.cache.get id).1 = some block := by rw [hcache]
    rw [hcache] at hget
    exact ⟨(Lru.Cache.Coherent.of_hit h hhit).symm, hget, rfl⟩
  · -- a miss: the file decides, and a block that was read goes into the cache
    rename_i cache hcache
    rw [hcache] at hget
    split
    · rename_i e hread
      exact ⟨by rw [Directory.contents, hread]; rfl, hget, rfl⟩
    · rename_i block hread
      have hfile : s.dir.contents C B id = some block := by rw [Directory.contents, hread]; rfl
      exact ⟨hfile.symm, hget.fill hfile, rfl⟩

lemma step_contents (h : s.Coherent C B) (op : StoreOp) :
    (s.step C B op).Coherent C B ∧
      (s.step C B op).dir.contents C B = (s.dir.contents C B).step C op := by
  cases op with
  | put block =>
    have hfiles : (s.step C B (.put block)).dir.contents C B = (s.dir.contents C B).step C (.put block) :=
      contents_insert block rfl
    refine ⟨?_, hfiles⟩
    change (s.cache.put (block.id C) block).Coherent _
    rw [hfiles]
    exact Lru.Cache.Coherent.put h _ _
  | get id =>
    obtain ⟨-, hcoherent, hdir⟩ := getBlock_eq h id
    refine ⟨hcoherent, ?_⟩
    change (s.getBlock C B id).2.dir.contents C B = _
    rw [hdir]
    rfl
  | remove id =>
    have hfiles : (s.step C B (.remove id)).dir.contents C B = (s.dir.contents C B).step C (.remove id) :=
      contents_erase id rfl
    refine ⟨?_, hfiles⟩
    change (s.cache.pop id).Coherent _
    rw [hfiles]
    exact Lru.Cache.Coherent.pop h _
  | reopen cacheSize => exact ⟨coherent_open s.dir cacheSize, rfl⟩

lemma run_contents (h : s.Coherent C B) (ops : List StoreOp) :
    (ops.foldl (step C B) s).Coherent C B ∧
      (ops.foldl (step C B) s).dir.contents C B = ops.foldl (Contents.step C) (s.dir.contents C B) := by
  induction ops generalizing s with
  | nil => exact ⟨h, rfl⟩
  | cons op ops ih =>
    obtain ⟨hcoherent, hstep⟩ := step_contents h op
    rw [List.foldl_cons, List.foldl_cons, ← hstep]
    exact ih hcoherent

end FsBlockStore

/-! ### What `get_block` returns -/

def BodyMatches (block : Block) : Prop := txRoot C block.txs = block.header.txRoot

instance (block : Block) : Decidable (BodyMatches C block) := instDecidableEqVector _ _

variable {C} in
lemma contents_forall {P : Block → Prop} {m : Contents} {ops : List StoreOp}
    (hm : ∀ id block, m id = some block → P block) (hops : ∀ block, .put block ∈ ops → P block) :
    ∀ id block, ops.foldl (Contents.step C) m id = some block → P block := by
  induction ops generalizing m with
  | nil => exact hm
  | cons op ops ih =>
    refine ih (fun id block hblock => ?_) fun block hmem => hops block (List.mem_cons_of_mem op hmem)
    cases op with
    | put stored =>
      by_cases hid : id = stored.id C
      · rw [hid, Contents.step, update_self] at hblock
        exact Option.some.inj hblock ▸ hops stored List.mem_cons_self
      · rw [Contents.step, update_of_ne hid] at hblock
        exact hm id block hblock
    | remove removed =>
      by_cases hid : id = removed
      · rw [hid, Contents.step, update_self] at hblock
        cases hblock
      · rw [Contents.step, update_of_ne hid] at hblock
        exact hm id block hblock
    | get _ => exact hm id block hblock
    | reopen _ => exact hm id block hblock

/-- **The store is addressed by headers**: a block that is returned was stored last under its id,
whatever its body. -/
theorem getBlock_last_stored (C : Crypto) (B : Bincode File) (dir : Directory File)
    (cacheSize : Option ℕ) (ops : List StoreOp) :
    let s := ops.foldl (FsBlockStore.step C B) (openWithOptions dir cacheSize)
    (∀ id block, (s.getBlock C B id).1 = some block → block.id C = id) ∧
      (∀ id, (s.getBlock C B id).1 = ops.foldl (Contents.step C) (dir.contents C B) id) ∧
      ((∀ id block, dir.contents C B id = some block → BodyMatches C block) →
        (∀ block, .put block ∈ ops → BodyMatches C block) →
          ∀ id block, (s.getBlock C B id).1 = some block → BodyMatches C block) ∧
      ∀ block, ((s.putBlock C B block).getBlock C B (block.id C)).1 = some block := by
  intro s
  obtain ⟨hcoherent, hrun⟩ := FsBlockStore.run_contents (C := C) (B := B)
    (FsBlockStore.coherent_open dir cacheSize) ops
  have hget : ∀ id, (s.getBlock C B id).1 = s.dir.contents C B id := fun id =>
    (FsBlockStore.getBlock_eq hcoherent id).1
  refine ⟨fun id block h => ?_, fun id => ?_, fun hdir hops id block h => ?_, fun block => ?_⟩
  · rw [hget] at h
    exact id_of_contents h
  · rw [hget, hrun]
    rfl
  · rw [hget, hrun] at h
    exact contents_forall hdir hops id block h
  · -- one more operation at the end of the run
    obtain ⟨hcoherent', hput⟩ := FsBlockStore.step_contents hcoherent (.put block)
    have hget' := (FsBlockStore.getBlock_eq hcoherent' (block.id C)).1
    rw [hput, Contents.step, Function.update_self] at hget'
    exact hget'

def Bincode.demo : Bincode Block where
  serialize := id
  deserialize := some
  deserialize_serialize := fun _ => rfl

def headerWithRoot (root : Hash32) : BlockHeader where
  height := 1
  round := 0
  prev := .ofNat 0
  proposerPk := []
  txRoot := root
  receiptsRoot := .ofNat 0
  stateRoot := .ofNat 0
  baseFeePerGas := 1
  gasUsed := 0
  intrinsicGasUsed := 0
  execGasUsed := 0
  vmGasUsed := 0
  evmGasUsed := 0
  chainId := 1
  timestamp := 0
  protocolVersion := 1

def emptyBlock : Block := ⟨headerWithRoot (txRoot .demo []), []⟩

theorem emptyBlock_returned :
    let s := [StoreOp.put emptyBlock, .reopen (some 4)].foldl (FsBlockStore.step .demo .demo)
      (openWithOptions {} none)
    (s.getBlock .demo .demo (emptyBlock.id .demo)).1 = some emptyBlock ∧
      ∀ id block, (s.getBlock .demo .demo id).1 = some block → BodyMatches .demo block := by
  refine ⟨by decide +kernel, ?_⟩
  refine (getBlock_last_stored .demo .demo {} none [.put emptyBlock, .reopen (some 4)]).2.2.1 ?_ ?_
  · intro id block h
    cases h
  · intro block h
    have hblock : block = emptyBlock := by simpa using h
    rw [hblock]
    exact rfl

/-- The header states the root of an empty body, and the block comes with a transaction: it is stored
over the block with the empty body, and returned in its place. -/
theorem other_body_returned :
    let tx : Tx := ⟨[], "", 0, 1, 1, 21000, "set k v", [], 1⟩
    let other : Block := ⟨emptyBlock.header, [tx]⟩
    let s := (openWithOptions {} none).putBlock .demo .demo emptyBlock
    let s' := s.putBlock .demo .demo other
    other.id .demo = emptyBlock.id .demo ∧
      (s.getBlock .demo .demo (emptyBlock.id .demo)).1 = some emptyBlock ∧
      (s'.getBlock .demo .demo (emptyBlock.id .demo)).1 = some other ∧ ¬ BodyMatches .demo other := by
  decide +kernel

end Iona.Storage
