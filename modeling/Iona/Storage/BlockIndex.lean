import Iona.Lib.MapDiff
import Iona.Lib.Trace
import Iona.Storage.BlockStore

/-!
# The indices of the block store

From `storage/block_store.rs`.
-/

namespace Iona.Storage

open Std ExtTreeMap

def parseHash32Hex (s : String) : Option Hash32 :=
  (Bytes.hexDecode s).bind fun bytes =>
    if h : bytes.length = 32 then some ⟨bytes.toArray, h⟩ else none

variable {File : Type} (C : Crypto) (B : Bincode File)

namespace FsBlockStore

variable (s : FsBlockStore File)

def blockIdByHeight (height : Height) : Option Hash32 :=
  s.idx.byHeight[height]?.bind parseHash32Hex

def pruneHeights (s : FsBlockStore File) : List Height → ℕ × FsBlockStore File
  | [] => (0, s)
  | h :: heights =>
    match s.blockIdByHeight h with
    | none => pruneHeights s heights
    | some id =>
      let out := s.removeBlock id
      let rest := pruneHeights out.2 heights
      (out.1.toNat + rest.1, rest.2)

def pruned (keep : ℕ) : List Height := s.idx.byHeight.keys.take (s.idx.byHeight.keys.length - keep)

def prune (keep : ℕ) : ℕ × FsBlockStore File := s.pruneHeights (s.pruned keep)

/-! ### Calls that are cut off -/

def putCut (block : Block) : ℕ → Directory File
  | 0 => s.dir
  | 1 => { s.dir with blocks := s.dir.blocks.insert (pathFor (block.id C)) (B.serialize block) }
  | 2 =>
    { s.dir with
      blocks := s.dir.blocks.insert (pathFor (block.id C)) (B.serialize block)
      txIndex := some { locs := indexTxs C s.txIdx.locs block } }
  | _ => (s.putBlock C B block).dir

def removeCut (id : Hash32) : ℕ → Directory File
  | 0 => s.dir
  | 1 => { s.dir with blocks := s.dir.blocks.erase (pathFor id) }
  | 2 =>
    { s.dir with
      blocks := s.dir.blocks.erase (pathFor id)
      index := some (unindexHeight s.idx (hex id)) }
  | _ => (s.removeBlock id).2.dir

def pruneCut (s : FsBlockStore File) : List Height → ℕ → Directory File
  | [], _ => s.dir
  | h :: heights, writes =>
    match s.blockIdByHeight h with
    | none => pruneCut s heights writes
    | some id =>
      if writes < 3 then s.removeCut id writes else pruneCut (s.removeBlock id).2 heights (writes - 3)

end FsBlockStore

inductive IndexCall where
  | put (block : Block)
  | remove (id : Hash32)
  | prune (keep : ℕ)

inductive IndexEvent where
  | call (call : IndexCall)
  | crash (call : IndexCall) (writes : ℕ) (cacheSize : Option ℕ)

namespace FsBlockStore

def perform (s : FsBlockStore File) : IndexCall → FsBlockStore File
  | .put block => s.putBlock C B block
  | .remove id => (s.removeBlock id).2
  | .prune keep => (s.prune keep).2

def cut (s : FsBlockStore File) (writes : ℕ) : IndexCall → Directory File
  | .put block => s.putCut C B block writes
  | .remove id => s.removeCut id writes
  | .prune keep => s.pruneCut (s.pruned keep) writes

def indexStep (s : FsBlockStore File) : IndexEvent → Option (FsBlockStore File)
  | .call call => some (s.perform C B call)
  | .crash call writes cacheSize => some (openWithOptions (s.cut C B writes call) cacheSize)

end FsBlockStore

/-! ### Consistent indices -/

def Listed (m : Contents) (idx : IndexFile) (block : Block) : Prop :=
  idx.byHeight[block.header.height]? = some (hex (block.id C)) ∧ m (block.id C) = some block

structure Consistent (m : Contents) (idx : IndexFile) (locs : BTreeMap String TxLocation) : Prop where
  stored : ∀ (h : Height) x, idx.byHeight[h]? = some x →
    ∃ block, Listed C m idx block ∧ block.header.height = h ∧ hex (block.id C) = x
  best_le : ∀ h ∈ idx.byHeight, h ≤ idx.bestHeight
  best_mem : idx.bestHeight ∈ idx.byHeight ∨ (∀ h, h ∉ idx.byHeight) ∧ idx.bestHeight = 0
  located : ∀ (h : Hash32) loc, locs[hex h]? = some loc →
    ∃ block tx, Listed C m idx block ∧ loc.blockHeight = block.header.height ∧
      loc.blockId = hex (block.id C) ∧ block.txs[loc.txIndex]? = some tx ∧ txHash C tx = h
  complete : ∀ block tx, Listed C m idx block → tx ∈ block.txs →
    ∃ loc, locs[hex (txHash C tx)]? = some loc

def Overlap (block block' : Block) : Prop :=
  ∃ tx ∈ block.txs, ∃ tx' ∈ block'.txs, txHash C tx = txHash C tx'

def Fresh (m : Contents) (idx : IndexFile) (block : Block) : Prop :=
  ∀ other, Listed C m idx other →
    other.header.height = block.header.height ∨ other.id C = block.id C ∨ Overlap C other block →
      other = block

structure Sound (m : Contents) (idx : IndexFile) (locs : BTreeMap String TxLocation) : Prop
    extends Consistent C m idx locs where
  apart : ∀ block block', Listed C m idx block → Listed C m idx block' → Overlap C block block' →
    block = block'

section Steps

variable {C} {m : Contents} {idx : IndexFile} {locs : BTreeMap String TxLocation}

variable {block : Block}

lemma sound_empty : Sound C (fun _ => none) {} ∅ where
  stored h x hx := by simp at hx
  best_le h hh := by simp at hh
  best_mem := .inr ⟨fun h => by simp, rfl⟩
  located h loc hloc := by simp at hloc
  complete block tx hlisted := by cases hlisted.2
  apart block block' hlisted := by cases hlisted.2

/-! ### Putting a block -/

lemma listed_put (hfresh : Fresh C m idx block) (other : Block) :
    Listed C (m.step C (.put block)) (FsBlockStore.indexHeight C idx block) other ↔
      other = block ∨ Listed C m idx other := by
  simp only [Listed, Contents.step, FsBlockStore.indexHeight, MapSum.getElem?_insert_ite]
  constructor
  · rintro ⟨hheight, hfile⟩
    by_cases hid : other.id C = block.id C
    · rw [hid, Function.update_self] at hfile
      exact .inl (Option.some.inj hfile).symm
    · rw [Function.update_of_ne hid] at hfile
      split at hheight
      · exact absurd (hex_injective (Option.some.inj hheight)).symm hid
      · exact .inr ⟨hheight, hfile⟩
  · rintro (rfl | hother)
    · exact ⟨if_pos rfl, Function.update_self _ _ _⟩
    · by_cases heq : other = block
      · subst heq
        exact ⟨if_pos rfl, Function.update_self _ _ _⟩
      · have hheight := mt (fun h => hfresh other hother (.inl h)) heq
        have hid := mt (fun h => hfresh other hother (.inr (.inl h))) heq
        rw [if_neg hheight, Function.update_of_ne hid]
        exact hother

lemma indexTxs_cases {key : String} {loc : TxLocation}
    (h : (FsBlockStore.indexTxs C locs block)[key]? = some loc) :
    (∃ tx, block.txs[loc.txIndex]? = some tx ∧ hex (txHash C tx) = key ∧
      loc.blockHeight = block.header.height ∧ loc.blockId = hex (block.id C)) ∨
        locs[key]? = some loc := by
  rw [FsBlockStore.indexTxs, MapDiff.getElem?_insertAll, Option.or_eq_some_iff] at h
  rcases h with h | ⟨-, h⟩
  · obtain ⟨e, hfind, rfl⟩ := Option.map_eq_some_iff.mp h
    have hmem := List.mem_reverse.mp (List.mem_of_find?_eq_some hfind)
    have hkey := List.find?_some hfind
    exact .inl ⟨e.1, List.mem_zipIdx_iff_getElem?.mp hmem, of_decide_eq_true hkey, rfl, rfl⟩
  · exact .inr h

lemma indexTxs_complete {key : String}
    (h : (∃ tx ∈ block.txs, hex (txHash C tx) = key) ∨ ∃ loc, locs[key]? = some loc) :
    ∃ loc, (FsBlockStore.indexTxs C locs block)[key]? = some loc := by
  rw [FsBlockStore.indexTxs, MapDiff.getElem?_insertAll]
  cases hfind : block.txs.zipIdx.reverse.find? fun e => decide (hex (txHash C e.1) = key) with
  | some e => exact ⟨_, rfl⟩
  | none =>
    refine h.resolve_left ?_
    rintro ⟨tx, htx, hkey⟩
    obtain ⟨i, hi⟩ := List.getElem?_of_mem htx
    have hmem := List.mem_reverse.mpr (List.mem_zipIdx_iff_getElem?.mpr hi : (tx, i) ∈ _)
    exact List.find?_eq_none.mp hfind _ hmem (decide_eq_true hkey)

lemma Sound.put (h : Sound C m idx locs) (hfresh : Fresh C m idx block) :
    Sound C (m.step C (.put block)) (FsBlockStore.indexHeight C idx block)
      (FsBlockStore.indexTxs C locs block) where
  stored height x hx := by
    rcases MapSum.getElem?_insert_eq_some_iff.mp hx with ⟨rfl, rfl⟩ | ⟨-, hx⟩
    · exact ⟨block, (listed_put hfresh block).mpr (.inl rfl), rfl, rfl⟩
    · obtain ⟨other, hother, hheight, hid⟩ := h.stored height x hx
      exact ⟨other, (listed_put hfresh other).mpr (.inr hother), hheight, hid⟩
  best_le height hmem := by
    simp only [FsBlockStore.indexHeight]
    rcases (mem_insert (k := block.header.height)).mp hmem with heq | hmem
    · rw [← LawfulEqCmp.eq_of_compare heq]
      split
      · exact le_refl _
      · rename_i hle
        exact UInt64.not_lt.mp hle
    · have hle := h.best_le height hmem
      split
      · rename_i hlt
        exact UInt64.le_trans hle (UInt64.le_of_lt hlt)
      · exact hle
  best_mem := by
    refine .inl ?_
    simp only [FsBlockStore.indexHeight]
    split
    · exact mem_insert_self
    · rename_i hle
      rw [mem_insert]
      rcases h.best_mem with hmem | ⟨-, hzero⟩
      · exact .inr hmem
      · left
        have heq : block.header.height = idx.bestHeight := by
          rw [hzero] at hle ⊢
          exact UInt64.le_zero_iff.mp (UInt64.not_lt.mp hle)
        rw [heq]
        exact ReflCmp.compare_self
  located t loc hloc := by
    rcases indexTxs_cases hloc with ⟨tx, htx, hhash, hheight, hid⟩ | hloc
    · exact ⟨block, tx, (listed_put hfresh block).mpr (.inl rfl), hheight, hid, htx,
        hex_injective hhash⟩
    · obtain ⟨other, tx, hother, hrest⟩ := h.located t loc hloc
      exact ⟨other, tx, (listed_put hfresh other).mpr (.inr hother), hrest⟩
  complete other tx hother htx := by
    rcases (listed_put hfresh other).mp hother with rfl | hother
    · exact indexTxs_complete (.inl ⟨tx, htx, rfl⟩)
    · exact indexTxs_complete (.inr (h.complete other tx hother htx))
  apart b b' hb hb' hover := by
    rcases (listed_put hfresh b).mp hb with hnew | hold
    · subst hnew
      rcases (listed_put hfresh b').mp hb' with rfl | hold'
      · rfl
      · obtain ⟨tx, htx, tx', htx', heq⟩ := hover
        exact (hfresh b' hold' (.inr (.inr ⟨tx', htx', tx, htx, heq.symm⟩))).symm
    · rcases (listed_put hfresh b').mp hb' with rfl | hold'
      · exact hfresh b hold (.inr (.inr hover))
      · exact h.apart b b' hold hold' hover

/-! ### Removing a block -/

lemma Listed.eq_of_id {other : Block} (h : Listed C m idx block) (h' : Listed C m idx other)
    (hid : block.id C = other.id C) : block = other := by
  have hfile := h.2
  rw [hid, h'.2] at hfile
  exact (Option.some.inj hfile).symm

lemma unindexHeight_cases (h : Consistent C m idx locs) (id : Hash32) :
    (FsBlockStore.unindexHeight idx (hex id) = idx ∧
      ∀ height : Height, idx.byHeight[height]? ≠ some (hex id)) ∨
    ∃ height : Height, idx.byHeight[height]? = some (hex id) ∧
      (∀ height' : Height, idx.byHeight[height']? = some (hex id) → height' = height) ∧
      FsBlockStore.unindexHeight idx (hex id) =
        { byHeight := idx.byHeight.erase height
          bestHeight := if height = idx.bestHeight then
            (idx.byHeight.erase height).keys.max?.getD 0 else idx.bestHeight } := by
  unfold FsBlockStore.unindexHeight
  split
  · rename_i hfind
    refine .inl ⟨rfl, fun height hheight => ?_⟩
    have hmem := mem_toList_iff_getElem?_eq_some.mpr hheight
    exact List.find?_eq_none.mp hfind _ hmem (decide_eq_true rfl)
  · rename_i height x hfind
    have hmem := mem_toList_iff_getElem?_eq_some.mp (List.mem_of_find?_eq_some hfind)
    have hx : decide (x = hex id) = true := by simpa using List.find?_some hfind
    rw [of_decide_eq_true hx] at hmem
    refine .inr ⟨height, hmem, fun height' hheight' => ?_, rfl⟩
    obtain ⟨block, hblock, rfl, hid⟩ := h.stored height _ hmem
    obtain ⟨other, hother, rfl, hid'⟩ := h.stored height' _ hheight'
    rw [hblock.eq_of_id hother (hex_injective (hid.trans hid'.symm))]

lemma getElem?_unindexHeight (h : Consistent C m idx locs) (id : Hash32) (height : Height)
    (x : String) :
    (FsBlockStore.unindexHeight idx (hex id)).byHeight[height]? = some x ↔
      idx.byHeight[height]? = some x ∧ x ≠ hex id := by
  rcases unindexHeight_cases h id with ⟨hsame, hnone⟩ | ⟨found, hfound, honly, hgone⟩
  · rw [hsame]
    refine ⟨fun hx => ⟨hx, ?_⟩, And.left⟩
    rintro rfl
    exact hnone height hx
  · rw [hgone]
    simp only [MapSum.getElem?_erase_eq_some_iff]
    constructor
    · rintro ⟨hne, hx⟩
      refine ⟨hx, ?_⟩
      rintro rfl
      exact hne (honly height hx)
    · rintro ⟨hx, hne⟩
      refine ⟨?_, hx⟩
      rintro rfl
      exact hne (Option.some.inj (hx.symm.trans hfound))

lemma listed_remove (h : Consistent C m idx locs) (id : Hash32) (block : Block) :
    Listed C (m.step C (.remove id)) (FsBlockStore.unindexHeight idx (hex id)) block ↔
      Listed C m idx block ∧ block.id C ≠ id := by
  simp only [Listed, getElem?_unindexHeight h, Contents.step, hex_injective.ne_iff]
  constructor
  · rintro ⟨⟨hheight, hne⟩, hfile⟩
    rw [Function.update_of_ne hne] at hfile
    exact ⟨⟨hheight, hfile⟩, hne⟩
  · rintro ⟨⟨hheight, hfile⟩, hne⟩
    rw [Function.update_of_ne hne]
    exact ⟨⟨hheight, hne⟩, hfile⟩

lemma max_le_iff_height {a b c : Height} : max a b ≤ c ↔ a ≤ c ∧ b ≤ c := by
  change (if a ≤ b then b else a) ≤ c ↔ _
  split
  · rename_i hle
    exact ⟨fun h => ⟨UInt64.le_trans hle h, h⟩, And.right⟩
  · rename_i hle
    have hlt := UInt64.le_of_lt (UInt64.not_le.mp hle)
    exact ⟨fun h => ⟨h, UInt64.le_trans hlt h⟩, And.left⟩

instance : LawfulOrderMax Height where
  max_eq_or a b := by
    change (if a ≤ b then b else a) = a ∨ (if a ≤ b then b else a) = b
    split
    · exact .inr rfl
    · exact .inl rfl
  max_le_iff _ _ _ := max_le_iff_height

lemma Consistent.best_remove (h : Consistent C m idx locs) (id : Hash32) :
    let idx' := FsBlockStore.unindexHeight idx (hex id)
    (∀ height ∈ idx'.byHeight, height ≤ idx'.bestHeight) ∧
      (idx'.bestHeight ∈ idx'.byHeight ∨
        (∀ height, height ∉ idx'.byHeight) ∧ idx'.bestHeight = 0) := by
  rcases unindexHeight_cases h id with ⟨hsame, -⟩ | ⟨found, hfound, -, hgone⟩
  · rw [hsame]
    exact ⟨h.best_le, h.best_mem⟩
  · rw [hgone]
    split
    · -- the largest height goes, and the largest of the rest takes its place
      cases hmax : (idx.byHeight.erase found).keys.max? with
      | none =>
        have hempty : ∀ height, height ∉ idx.byHeight.erase found := by
          intro height hheight
          rw [← mem_keys, List.max?_eq_none_iff.mp hmax] at hheight
          cases hheight
        exact ⟨fun height hheight => absurd hheight (hempty height), .inr ⟨hempty, rfl⟩⟩
      | some top =>
        obtain ⟨hmem, hle⟩ := List.max?_eq_some_iff.mp hmax
        refine ⟨fun height hheight => hle height (mem_keys.mpr hheight),
          .inl (mem_keys.mp hmem)⟩
    · rename_i hne
      have hbest : idx.bestHeight ∈ idx.byHeight := by
        refine h.best_mem.resolve_right ?_
        rintro ⟨hempty, -⟩
        exact hempty found (mem_iff_isSome_getElem?.mpr (by rw [hfound]; rfl))
      refine ⟨fun height hheight => h.best_le height (mem_of_mem_erase hheight), .inl ?_⟩
      exact mem_erase.mpr ⟨fun heq => hne (LawfulEqCmp.eq_of_compare heq), hbest⟩

lemma Sound.remove (h : Sound C m idx locs) (id : Hash32) :
    Sound C (m.step C (.remove id)) (FsBlockStore.unindexHeight idx (hex id))
      (locs.filter fun _ loc => loc.blockId ≠ hex id) where
  stored height x hx := by
    obtain ⟨hx, hne⟩ := (getElem?_unindexHeight h.toConsistent id height x).mp hx
    obtain ⟨block, hblock, hheight, rfl⟩ := h.stored height x hx
    exact ⟨block, (listed_remove h.toConsistent id block).mpr ⟨hblock, hex_injective.ne_iff.mp hne⟩,
      hheight, rfl⟩
  best_le := (h.best_remove id).1
  best_mem := (h.best_remove id).2
  located t loc hloc := by
    rw [getElem?_filter'] at hloc
    obtain ⟨hloc, hne⟩ := Option.filter_eq_some_iff.mp hloc
    obtain ⟨block, tx, hblock, hheight, hid, htx⟩ := h.located t loc hloc
    rw [hid] at hne
    exact ⟨block, tx, (listed_remove h.toConsistent id block).mpr
      ⟨hblock, hex_injective.ne_iff.mp (of_decide_eq_true hne)⟩, hheight, hid, htx⟩
  complete block tx hblock htx := by
    obtain ⟨hblock, hne⟩ := (listed_remove h.toConsistent id block).mp hblock
    obtain ⟨loc, hloc⟩ := h.complete block tx hblock htx
    -- the location names this block, since no other has the transaction
    obtain ⟨other, tx', hother, -, hid, htx', hhash⟩ := h.located _ loc hloc
    have hsame := h.apart block other hblock hother
      ⟨tx, htx, tx', List.mem_of_getElem? htx', hhash.symm⟩
    refine ⟨loc, ?_⟩
    rw [getElem?_filter', hloc, Option.filter_some, hid, ← hsame,
      if_pos (decide_eq_true (hex_injective.ne hne))]
  apart b b' hb hb' := h.apart b b' ((listed_remove h.toConsistent id b).mp hb).1
    ((listed_remove h.toConsistent id b').mp hb').1

/-! ### Putting a block that is cut off after its file -/

lemma listed_write (h : Consistent C m idx locs) (hfresh : Fresh C m idx block) (other : Block) :
    Listed C (m.step C (.put block)) idx other ↔ Listed C m idx other := by
  by_cases hid : other.id C = block.id C
  · constructor
    · rintro ⟨hheight, hfile⟩
      rw [Contents.step, hid, Function.update_self] at hfile
      -- the hash is listed, and no other block has it
      obtain ⟨listed, hlisted, -, hhex⟩ := h.stored _ _ hheight
      have heq := hfresh listed hlisted (.inr (.inl ((hex_injective hhex).trans hid)))
      rwa [heq, Option.some.inj hfile] at hlisted
    · intro hother
      refine ⟨hother.1, ?_⟩
      rw [Contents.step, hid, Function.update_self, hfresh other hother (.inr (.inl hid))]
  · rw [Listed, Contents.step, Function.update_of_ne hid]
    rfl

lemma Sound.congr {m' : Contents} (h : Sound C m idx locs)
    (hlisted : ∀ block, Listed C m' idx block ↔ Listed C m idx block) : Sound C m' idx locs where
  stored height x hx := by
    obtain ⟨block, hblock, hrest⟩ := h.stored height x hx
    exact ⟨block, (hlisted block).mpr hblock, hrest⟩
  best_le := h.best_le
  best_mem := h.best_mem
  located t loc hloc := by
    obtain ⟨block, tx, hblock, hrest⟩ := h.located t loc hloc
    exact ⟨block, tx, (hlisted block).mpr hblock, hrest⟩
  complete block tx hblock := h.complete block tx ((hlisted block).mp hblock)
  apart b b' hb hb' := h.apart b b' ((hlisted b).mp hb) ((hlisted b').mp hb')

end Steps

/-! ### The store -/

namespace FsBlockStore

variable {C B} {s : FsBlockStore File}

structure Synced (C : Crypto) (B : Bincode File) (s : FsBlockStore File) : Prop where
  sound : Sound C (s.dir.contents C B) s.idx s.txIdx.locs
  index_eq : s.dir.index.getD {} = s.idx
  txIndex_eq : s.dir.txIndex.getD {} = s.txIdx

variable (C B) in
def Orderly (s : FsBlockStore File) : IndexEvent → Prop
  | .call (.put block) => Fresh C (s.dir.contents C B) s.idx block
  | .call _ => True
  | .crash (.put block) writes _ =>
    writes = 0 ∨ writes ≠ 2 ∧ Fresh C (s.dir.contents C B) s.idx block
  | .crash _ writes _ => 3 ∣ writes

variable {writes : ℕ}

lemma synced_open (cacheSize : Option ℕ) : (openWithOptions {} cacheSize).Synced C B where
  sound := sound_empty
  index_eq := rfl
  txIndex_eq := rfl

lemma Synced.reopen (h : s.Synced C B) (cacheSize : Option ℕ) :
    (openWithOptions s.dir cacheSize).Synced C B where
  sound := by
    have hsound := h.sound
    rw [← h.index_eq, ← h.txIndex_eq] at hsound
    exact hsound
  index_eq := rfl
  txIndex_eq := rfl

lemma Synced.put (h : s.Synced C B) {block : Block}
    (hfresh : Fresh C (s.dir.contents C B) s.idx block) : (s.putBlock C B block).Synced C B where
  sound := by
    have hfiles : (s.putBlock C B block).dir.contents C B =
        (s.dir.contents C B).step C (.put block) := contents_insert block rfl
    rw [hfiles]
    exact h.sound.put hfresh
  index_eq := rfl
  txIndex_eq := rfl

lemma Synced.remove (h : s.Synced C B) (id : Hash32) : (s.removeBlock id).2.Synced C B where
  sound := by
    have hfiles : (s.removeBlock id).2.dir.contents C B =
        (s.dir.contents C B).step C (.remove id) := contents_erase id rfl
    rw [hfiles]
    exact h.sound.remove id
  index_eq := rfl
  txIndex_eq := rfl

lemma Synced.pruneHeights (h : s.Synced C B) (heights : List Height) :
    (s.pruneHeights heights).2.Synced C B := by
  induction heights generalizing s with
  | nil => exact h
  | cons height heights ih =>
    rw [FsBlockStore.pruneHeights]
    split
    · exact ih h
    · exact ih (h.remove _)

lemma Synced.putCut (h : s.Synced C B) {block : Block}
    (hfresh : Fresh C (s.dir.contents C B) s.idx block) (hwrites : writes ≠ 2)
    (cacheSize : Option ℕ) :
    (openWithOptions (s.putCut C B block writes) cacheSize).Synced C B := by
  unfold FsBlockStore.putCut
  split
  · exact h.reopen cacheSize
  · -- the file is there, and neither index knows of it
    have hwritten : Synced C B
        { s with dir.blocks := s.dir.blocks.insert (pathFor (block.id C)) (B.serialize block) } := by
      refine ⟨?_, h.index_eq, h.txIndex_eq⟩
      refine h.sound.congr fun other => ?_
      rw [contents_insert block rfl]
      exact listed_write h.sound.toConsistent hfresh other
    exact hwritten.reopen cacheSize
  · exact absurd rfl hwrites
  · exact (h.put hfresh).reopen cacheSize

lemma Synced.removeCut (h : s.Synced C B) (id : Hash32) (hwrites : 3 ∣ writes)
    (cacheSize : Option ℕ) : (openWithOptions (s.removeCut id writes) cacheSize).Synced C B := by
  unfold FsBlockStore.removeCut
  split
  · exact h.reopen cacheSize
  · omega
  · omega
  · exact (h.remove id).reopen cacheSize

lemma Synced.pruneCut (h : s.Synced C B) (heights : List Height) (hwrites : 3 ∣ writes)
    (cacheSize : Option ℕ) :
    (openWithOptions (s.pruneCut heights writes) cacheSize).Synced C B := by
  induction heights generalizing s writes with
  | nil => exact h.reopen cacheSize
  | cons height heights ih =>
    rw [FsBlockStore.pruneCut]
    split
    · exact ih h hwrites
    · split
      · exact h.removeCut _ hwrites cacheSize
      · exact ih (h.remove _) (Nat.dvd_sub hwrites (dvd_refl 3))

lemma indexStep_synced {event : IndexEvent} {s' : FsBlockStore File} (h : s.Synced C B)
    (horderly : s.Orderly C B event) (hstep : s.indexStep C B event = some s') :
    s'.Synced C B := by
  cases event with
  | call call =>
    cases hstep
    cases call with
    | put block => exact h.put horderly
    | remove id => exact h.remove id
    | prune keep => exact h.pruneHeights _
  | crash call writes cacheSize =>
    cases hstep
    cases call with
    | put block =>
      rcases horderly with rfl | ⟨hwrites, hfresh⟩
      · exact h.reopen cacheSize
      · exact h.putCut hfresh hwrites cacheSize
    | remove id => exact h.removeCut id horderly cacheSize
    | prune keep => exact h.pruneCut _ horderly cacheSize

/-- **The indices stay consistent in every orderly run** from an empty directory: every entry of the
height index refers to a stored block of that height, the best height is the largest of them, and a
transaction is located if and only if a listed block has it, in such a block and at its place there. -/
theorem run_consistent {cacheSize : Option ℕ} {events : List IndexEvent} {s : FsBlockStore File}
    (horderly : Trace.Along (indexStep C B) (Orderly C B) (openWithOptions {} cacheSize) events)
    (h : Trace.run (indexStep C B) (openWithOptions {} cacheSize) events = some s) :
    Consistent C (s.dir.contents C B) s.idx s.txIdx.locs := by
  have hsynced : s.Synced C B :=
    Trace.run_history (P := fun _ s => s.Synced C B) (synced_open cacheSize)
      (fun _ _ _ _ hs hC hstep => indexStep_synced hs hC hstep) horderly h
  exact hsynced.sound.toConsistent

def transfer : Tx := ⟨[], "", 0, 1, 1, 21000, "set k v", [], 1⟩

def oneTx : Block := ⟨headerWithRoot (txRoot .demo [transfer]), [transfer]⟩

/-- A block is stored and removed, a pruning that has nothing to do crashes, and the block is stored
again. -/
def briefRun : List IndexEvent :=
  [.call (.put oneTx), .call (.remove (oneTx.id .demo)), .crash (.prune 0) 3 none, .call (.put oneTx)]

theorem run_consistent_brief : ∃ s,
    Trace.run (indexStep .demo .demo) (openWithOptions {} none) briefRun = some s ∧
      (s.txIdx.locs[hex (txHash .demo transfer)]?).isSome = true ∧
      Consistent .demo (s.dir.contents .demo .demo) s.idx s.txIdx.locs := by
  have horderly : Trace.Along (indexStep .demo .demo) (Orderly .demo .demo)
      (openWithOptions {} none) briefRun := by
    refine (Trace.along_cons rfl).mpr ⟨fun other hother => ?_, (Trace.along_cons rfl).mpr ⟨trivial,
      (Trace.along_cons rfl).mpr ⟨dvd_refl 3, (Trace.along_cons rfl).mpr
        ⟨fun other hother => ?_, Trace.along_nil _⟩⟩⟩⟩
    · cases hother.2
    · -- nothing is listed after the removal
      have hnone : ((Trace.run (indexStep .demo .demo) (openWithOptions {} none)
          (briefRun.take 3)).map fun s => s.idx.byHeight.toList) = some [] := by decide +kernel
      have hempty := Std.ExtTreeMap.isEmpty_toList.symm.trans
        (List.isEmpty_iff.mpr (Option.some.inj hnone))
      exact absurd hother.1 (by
        rw [Std.ExtTreeMap.isEmpty_iff.mp hempty]
        simp)
  exact ⟨_, rfl, by decide +kernel, run_consistent horderly rfl⟩

/-- **Two blocks at one height**: the second takes the place of the first in the height index, and the
transaction of the first is still located, in a block that is not listed any more. -/
theorem overwritten_block_located : ∃ s,
    Trace.run (indexStep .demo .demo) (openWithOptions {} none)
        [.call (.put oneTx), .call (.put emptyBlock)] = some s ∧
      ¬ Consistent .demo (s.dir.contents .demo .demo) s.idx s.txIdx.locs := by
  refine ⟨_, rfl, fun h => ?_⟩
  obtain ⟨block, tx, hblock, hheight, hid, -, -⟩ := h.located (txHash .demo transfer)
    { blockHeight := 1, blockId := hex (oneTx.id .demo), txIndex := 0 } (by decide +kernel)
  have hlisted := hblock.1
  rw [← hheight, ← hid] at hlisted
  revert hlisted
  decide +kernel

end FsBlockStore

end Iona.Storage
