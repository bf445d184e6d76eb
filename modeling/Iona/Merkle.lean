import Iona.Prim
import Iona.Lib.Bytes
import Iona.Lib.Lru

/-! # The Merkle root of the key-value state and its cache -/

namespace Iona

open Bytes List
namespace Merkle

def leafDomain : List UInt8 := [0x00]

def internalDomain : List UInt8 := [0x01]

def defaultCacheSize : ℕ := 1024

def defaultBatchSize : ℕ := 4096

def emptyTreeRoot : Hash32 :=
  #v[0x88, 0xbd, 0x0e, 0x82, 0x6b, 0xc2, 0xac, 0x62,
     0xd8, 0xe5, 0xcc, 0xc2, 0x5c, 0x09, 0x50, 0x68,
     0xbe, 0x83, 0x35, 0x16, 0xe9, 0x78, 0x54, 0x9c,
     0xd1, 0xfa, 0xed, 0xdd, 0xf4, 0x1c, 0x11, 0x47]

structure MerkleConfig where
  batchSize : ℕ := defaultBatchSize
  parallelEnabled : Bool := true

variable (C : Crypto)

/-! ### The tree -/

def leafHash (key value : List UInt8) : Hash32 :=
  C.sha256 (leafDomain ++ le 4 key.length ++ key ++ le 4 value.length ++ value)

def nodeHash (left right : Hash32) : Hash32 :=
  C.sha256 (internalDomain ++ left.toList ++ right.toList)

def nextPowerOfTwo (n : ℕ) : ℕ := if n ≤ 1 then 1 else 2 ^ ((n - 1).log2 + 1)

def merkleRootAux : ℕ → List Hash32 → Hash32
  | _, [] => emptyTreeRoot
  | _, [leaf] => leaf
  | 0, _ => emptyTreeRoot
  | fuel + 1, leaves =>
    let mid := nextPowerOfTwo leaves.length / 2
    let (leftLeaves, rightLeaves) :=
      if leaves.length > mid then (leaves.take mid, leaves.drop mid) else (leaves, [])
    let left := merkleRootAux fuel leftLeaves
    let right := if rightLeaves.isEmpty then left else merkleRootAux fuel rightLeaves
    nodeHash C left right

def merkleRootOf (leaves : List Hash32) : Hash32 := merkleRootAux C leaves.length leaves

variable {kv : BTreeMap String String}

lemma lt_nextPowerOfTwo_half {n : ℕ} (hn : 2 ≤ n) : 0 < nextPowerOfTwo n / 2 ∧
    nextPowerOfTwo n / 2 < n := by
  rw [nextPowerOfTwo, if_neg (by omega), pow_succ, Nat.mul_div_cancel _ (by norm_num)]
  have hlog : 2 ^ (n - 1).log2 ≤ n - 1 := Nat.log2_self_le (by omega)
  exact ⟨by positivity, by omega⟩

lemma merkleRootAux_eq (leaves : List Hash32) (fuel fuel' : ℕ) (h : leaves.length ≤ fuel)
    (h' : leaves.length ≤ fuel') : merkleRootAux C fuel leaves = merkleRootAux C fuel' leaves := by
  induction fuel generalizing leaves fuel' with
  | zero =>
    obtain rfl : leaves = [] := length_eq_zero_iff.mp (by omega)
    cases fuel' <;> rfl
  | succ fuel ih =>
    match leaves, fuel', h, h' with
    | [], 0, _, _ | [], _ + 1, _, _ | [_], _ + 1, _, _ => rfl
    | l₁ :: l₂ :: ls, fuel' + 1, h, h' =>
      have hmid := lt_nextPowerOfTwo_half (n := (l₁ :: l₂ :: ls).length) (by simp)
      have hleft := ih ((l₁ :: l₂ :: ls).take (nextPowerOfTwo (l₁ :: l₂ :: ls).length / 2))
        fuel' (by rw [length_take]; omega) (by rw [length_take]; omega)
      have hright := ih ((l₁ :: l₂ :: ls).drop (nextPowerOfTwo (l₁ :: l₂ :: ls).length / 2))
        fuel' (by rw [length_drop]; omega) (by rw [length_drop]; omega)
      simp only [merkleRootAux, gt_iff_lt, if_pos hmid.2, hleft, hright]

lemma merkleRootOf_split {leaves : List Hash32} (h : 2 ≤ leaves.length) :
    merkleRootOf C leaves =
      nodeHash C (merkleRootOf C (leaves.take (nextPowerOfTwo leaves.length / 2)))
        (merkleRootOf C (leaves.drop (nextPowerOfTwo leaves.length / 2))) := by
  match leaves, h with
  | l₁ :: l₂ :: ls, h =>
    have hmid := lt_nextPowerOfTwo_half h
    have hne : ((l₁ :: l₂ :: ls).drop (nextPowerOfTwo (l₁ :: l₂ :: ls).length / 2)).isEmpty
        = false := by
      rw [isEmpty_eq_false_iff, ← length_pos_iff, length_drop]
      omega
    conv_lhs =>
      rw [merkleRootOf, length_cons, merkleRootAux.eq_def]
    simp only [gt_iff_lt, if_pos hmid.2, hne, Bool.false_eq_true, if_false]
    rw [merkleRootOf, merkleRootOf]
    congr 1
    · exact merkleRootAux_eq C _ _ _ (by rw [length_take]; simp at hmid ⊢; omega) le_rfl
    · exact merkleRootAux_eq C _ _ _ (by rw [length_drop]; simp at hmid ⊢; omega) le_rfl

/-! ### The cached root -/

def strHash (s : String) : List UInt8 := utf8 s ++ [0xff]

def entryHash : Option (String × String) → List UInt8
  | some (k, v) => strHash k ++ strHash v
  | none => []

def computeCacheKey (kv : BTreeMap String String) : UInt64 :=
  C.sipHash (le 8 kv.size ++ entryHash kv.toList.head? ++ entryHash kv.toList.getLast?)

def leaves (config : MerkleConfig) (kv : BTreeMap String String) : List Hash32 :=
  if config.parallelEnabled && decide (kv.size > config.batchSize) then
    kv.toList.map fun (k, v) => leafHash C (utf8 k) (utf8 v)
  else
    kv.toList.map fun (k, v) => leafHash C (utf8 k) (utf8 v)

abbrev RootCache := Lru.Cache UInt64 Hash32 defaultCacheSize

def stateMerkleRootWithConfig (config : MerkleConfig) (kv : BTreeMap String String)
    (cache : RootCache) : Hash32 × RootCache :=
  if kv.isEmpty then (emptyTreeRoot, cache)
  else cache.fetch (computeCacheKey C kv) (merkleRootOf C (leaves C config kv))

def stateMerkleRoot (kv : BTreeMap String String) (cache : RootCache) : Hash32 × RootCache :=
  stateMerkleRootWithConfig C {} kv cache

def merkleRoot (kv : BTreeMap String String) : Hash32 :=
  if kv.isEmpty then emptyTreeRoot
  else merkleRootOf C (kv.toList.map fun (k, v) => leafHash C (utf8 k) (utf8 v))

lemma stateMerkleRootWithConfig_of_isEmpty (h : kv.isEmpty = true) (config : MerkleConfig)
    (cache : RootCache) :
    stateMerkleRootWithConfig C config kv cache = (merkleRoot C kv, cache) := by
  rw [stateMerkleRootWithConfig, merkleRoot, if_pos h, if_pos h]

lemma stateMerkleRootWithConfig_of_not_isEmpty (h : kv.isEmpty = false) (config : MerkleConfig)
    (cache : RootCache) :
    stateMerkleRootWithConfig C config kv cache =
      cache.fetch (computeCacheKey C kv) (merkleRoot C kv) := by
  have hl : leaves C config kv =
      kv.toList.map fun (k, v) => leafHash C (utf8 k) (utf8 v) := by
    rw [leaves, ite_self]
  simp only [stateMerkleRootWithConfig, merkleRoot, h, hl, Bool.false_eq_true, if_false]

lemma stateMerkleRoot_twice (kv : BTreeMap String String) (cache : RootCache) :
    (stateMerkleRoot C kv (stateMerkleRoot C kv cache).2).1 = (stateMerkleRoot C kv cache).1 := by
  unfold stateMerkleRoot
  cases hne : kv.isEmpty with
  | true => rw [stateMerkleRootWithConfig_of_isEmpty C hne, stateMerkleRootWithConfig_of_isEmpty C hne]
  | false =>
    simp only [stateMerkleRootWithConfig_of_not_isEmpty C hne]
    exact Lru.Cache.fetch_fetch (by decide) _ _ _ _

/-! ### Runs of calls -/

abbrev Call := MerkleConfig × BTreeMap String String

def rootsOf : RootCache → List Call → List Hash32 × RootCache
  | cache, [] => ([], cache)
  | cache, (config, kv) :: calls =>
    let (root, cache) := stateMerkleRootWithConfig C config kv cache
    let (roots, cache) := rootsOf cache calls
    (root :: roots, cache)

variable {calls : List Call}

lemma rootsOf_concat (cache : RootCache) (calls : List Call) (call : Call) :
    rootsOf C cache (calls ++ [call]) =
      ((rootsOf C cache calls).1 ++
          [(stateMerkleRootWithConfig C call.1 call.2 (rootsOf C cache calls).2).1],
        (stateMerkleRootWithConfig C call.1 call.2 (rootsOf C cache calls).2).2) := by
  induction calls generalizing cache with
  | nil => rfl
  | cons c calls ih => simp only [cons_append, rootsOf, ih]

def slot (call : Call) : Option UInt64 :=
  if call.2.isEmpty then none else some (computeCacheKey C call.2)

structure SameSlot (a : Call) (mid : List Call) (b : Call) : Prop where
  left : slot C a = some (computeCacheKey C a.2)
  right : slot C b = some (computeCacheKey C a.2)
  unused : computeCacheKey C a.2 ∉ mid.filterMap (slot C)
  kept : (mid.filterMap (slot C)).toFinset.card < defaultCacheSize

def entry (call : Call) : Option (UInt64 × Hash32) :=
  (slot C call).map fun key => (key, merkleRoot C call.2)

def history (calls : List Call) : List (UInt64 × Hash32) := calls.reverse.filterMap (entry C)

lemma map_fst_filterMap_entry (calls : List Call) :
    (calls.filterMap (entry C)).map Prod.fst = calls.filterMap (slot C) := by
  have : (fun call => (entry C call).map Prod.fst) = slot C := by
    funext call
    simp [entry, Option.map_map, Function.comp_def]
  rw [map_filterMap, this]

lemma holds_rootsOf
    (h : (rootsOf C (Lru.Cache.empty _ _ _) calls).1 = calls.map fun c => merkleRoot C c.2) :
    Lru.Holds (rootsOf C (Lru.Cache.empty _ _ _) calls).2 (history C calls) := by
  induction calls using reverseRecOn with
  | nil => exact Lru.holds_empty _
  | append_singleton calls call ih =>
    rw [rootsOf_concat] at h ⊢
    rw [map_append, map_singleton] at h
    obtain ⟨hcalls, hcall⟩ := append_inj' h rfl
    have hc := ih hcalls
    rw [singleton_inj] at hcall
    have hhist : history C (calls ++ [call]) = (entry C call).toList ++ history C calls := by
      simp [history, filterMap_cons]
      cases entry C call <;> rfl
    rw [hhist]
    cases hne : call.2.isEmpty with
    | true =>
      simpa [stateMerkleRootWithConfig_of_isEmpty C hne, entry, slot, hne] using hc
    | false =>
      have hfetch := hc.fetch (by decide) (computeCacheKey C call.2) (merkleRoot C call.2)
      rw [stateMerkleRootWithConfig_of_not_isEmpty C hne] at hcall ⊢
      rw [hcall] at hfetch
      simpa [entry, slot, hne] using hfetch

lemma mem_history_iff {b : Call} {key : UInt64} {v : Hash32} (hb : slot C b = some key) :
    (∃ h₁ h₂, history C calls = h₁ ++ (key, v) :: h₂ ∧ key ∉ h₁.map Prod.fst ∧
        (h₁.map Prod.fst).toFinset.card < defaultCacheSize) ↔
      ∃ pre a mid, calls = pre ++ a :: mid ∧ SameSlot C a mid b ∧ merkleRoot C a.2 = v := by
  constructor
  · rintro ⟨h₁, h₂, hsplit, hkey, hcard⟩
    obtain ⟨mid, rest, hcalls, rfl, hrest⟩ := filterMap_eq_append_iff.mp hsplit
    obtain ⟨skip, a, pre, rfl, hskip, ha, rfl⟩ := filterMap_eq_cons_iff.mp hrest
    rw [map_fst_filterMap_entry] at hkey hcard
    have hskip' : skip.filterMap (slot C) = [] := by
      rw [← map_fst_filterMap_entry, filterMap_eq_nil_iff.mpr hskip, map_nil]
    have hmid : (mid ++ skip).reverse.filterMap (slot C) = (mid.filterMap (slot C)).reverse := by
      rw [filterMap_reverse, filterMap_append, hskip', append_nil]
    obtain ⟨key', hkey', heq⟩ := Option.map_eq_some_iff.mp ha
    obtain ⟨rfl, rfl⟩ := Prod.mk.inj heq
    obtain rfl : computeCacheKey C a.2 = key' := by
      unfold slot at hkey'
      split at hkey' <;> simp_all
    refine ⟨pre.reverse, a, (mid ++ skip).reverse, ?_, ⟨hkey', hb, ?_, ?_⟩, rfl⟩
    · rw [← reverse_reverse calls, hcalls]
      simp
    · rwa [hmid, mem_reverse]
    · rwa [hmid, toFinset_reverse]
  · rintro ⟨pre, a, mid, rfl, hslot, rfl⟩
    obtain rfl : computeCacheKey C a.2 = key := Option.some.inj (hslot.right.symm.trans hb)
    have ha : entry C a = some (computeCacheKey C a.2, merkleRoot C a.2) := by
      rw [entry, hslot.left, Option.map_some]
    refine ⟨history C mid, history C pre, ?_, ?_, ?_⟩
    · simp only [history, reverse_append, reverse_cons, filterMap_append,
        filterMap_cons, ha, append_assoc, singleton_append]
    · rw [history, map_fst_filterMap_entry, filterMap_reverse, mem_reverse]
      exact hslot.unused
    · rw [history, map_fst_filterMap_entry, filterMap_reverse, toFinset_reverse]
      exact hslot.kept

lemma last_root_eq_iff (b : Call)
    (h : (rootsOf C (Lru.Cache.empty _ _ _) calls).1 = calls.map fun c => merkleRoot C c.2) :
    (stateMerkleRootWithConfig C b.1 b.2 (rootsOf C (Lru.Cache.empty _ _ _) calls).2).1 =
        merkleRoot C b.2 ↔
      ∀ pre a mid, calls = pre ++ a :: mid → SameSlot C a mid b →
        merkleRoot C a.2 = merkleRoot C b.2 := by
  have hc := holds_rootsOf C h
  cases hne : b.2.isEmpty with
  | true =>
    -- an empty map never reaches the cache, and is in no slot
    have hslot : slot C b = none := by rw [slot, if_pos hne]
    refine iff_of_true (by rw [stateMerkleRootWithConfig_of_isEmpty C hne]) ?_
    intro pre a mid _ hs
    exact absurd (hslot.symm.trans hs.right) (by simp)
  | false =>
    have hslot : slot C b = some (computeCacheKey C b.2) := by simp [slot, hne]
    rw [stateMerkleRootWithConfig_of_not_isEmpty C hne, Lru.Cache.fetch_fst]
    constructor
    · intro heq pre a mid hcalls hs
      have hfind := hc.find?_eq_some_iff.mpr
        ((mem_history_iff C hslot).mpr ⟨pre, a, mid, hcalls, hs, rfl⟩)
      rwa [hfind, Option.getD_some] at heq
    · intro hcond
      cases hfind : Lru.Cache.find? (computeCacheKey C b.2)
          (rootsOf C (Lru.Cache.empty _ _ _) calls).2.entries with
      | none => rfl
      | some v =>
        obtain ⟨pre, a, mid, hcalls, hs, rfl⟩ :=
          (mem_history_iff C hslot).mp (hc.find?_eq_some_iff.mp hfind)
        exact hcond pre a mid hcalls hs

/-- **When the cached root is the root**: exactly if calls that use one cache key, with fewer than
the capacity of other keys between them, are for maps with one Merkle root. -/
theorem rootsOf_eq_iff (calls : List Call) :
    (rootsOf C (Lru.Cache.empty _ _ _) calls).1 = (calls.map fun c => merkleRoot C c.2) ↔
      ∀ pre a mid b post, calls = pre ++ a :: mid ++ b :: post → SameSlot C a mid b →
        merkleRoot C a.2 = merkleRoot C b.2 := by
  induction calls using List.reverseRecOn with
  | nil => simp [rootsOf]
  | append_singleton calls call ih =>
    rw [rootsOf_concat, List.map_append, List.map_singleton]
    constructor
    · intro h pre a mid b post hcalls hs
      obtain ⟨hroots, hlast⟩ := List.append_inj' h rfl
      -- `b` is the last call, or the pair lies within the earlier ones
      rcases List.eq_nil_or_concat post with rfl | ⟨post, c, rfl⟩
      · obtain ⟨rfl, hb⟩ := List.append_inj' hcalls rfl
        obtain rfl := List.singleton_inj.mp hb
        exact (last_root_eq_iff C call hroots).mp (List.singleton_inj.mp hlast) pre a mid rfl hs
      · have hcalls' : calls ++ [call] = (pre ++ a :: mid ++ b :: post) ++ [c] := by
          rw [hcalls]; simp
        exact ih.mp hroots pre a mid b post (List.append_inj' hcalls' rfl).1 hs
    · intro hcond
      have hroots := ih.mpr fun pre a mid b post hcalls hs =>
        hcond pre a mid b (post ++ [call]) (by rw [hcalls]; simp) hs
      have hlast := (last_root_eq_iff C call hroots).mpr fun pre a mid hcalls hs =>
        hcond pre a mid call [] (by rw [hcalls]) hs
      rw [hroots, hlast]

def staleFirst : BTreeMap String String := .ofList [("a", "1"), ("b", "2"), ("c", "3")] compare

def staleSecond : BTreeMap String String := .ofList [("a", "1"), ("b", "9"), ("c", "3")] compare

/-- Hashed one after the other, the second map gets the root of the first. -/
theorem rootsOf_stale :
    (rootsOf .demo (Lru.Cache.empty _ _ _) [({}, staleFirst), ({}, staleSecond)]).1 =
        [merkleRoot .demo staleFirst, merkleRoot .demo staleFirst] ∧
      merkleRoot .demo staleFirst ≠ merkleRoot .demo staleSecond := by
  decide +kernel

end Merkle
end Iona
