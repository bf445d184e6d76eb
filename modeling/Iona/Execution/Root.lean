import Iona.Execution.State
import Iona.Lib.Grouping
import Iona.Merkle.Binding

/-! # What the state root binds -/

namespace Iona

open Option
namespace Merkle

open HashTree

variable (C : Crypto)

/-! ### Inputs of the hash function -/

def cut (n : ℕ) : ℕ := nextPowerOfTwo n / 2

inductive TreeInput : List Hash32 → List UInt8 → Prop
  | node {leaves : List Hash32} (h : 2 ≤ leaves.length) :
    TreeInput leaves (nodeInput (merkleRootOf C (leaves.take (cut leaves.length)))
      (merkleRootOf C (leaves.drop (cut leaves.length))))
  | left {leaves : List Hash32} {x : List UInt8} (h : 2 ≤ leaves.length)
    (hx : TreeInput (leaves.take (cut leaves.length)) x) : TreeInput leaves x
  | right {leaves : List Hash32} {x : List UInt8} (h : 2 ≤ leaves.length)
    (hx : TreeInput (leaves.drop (cut leaves.length)) x) : TreeInput leaves x

lemma not_treeInput_singleton (leaf : Hash32) (x : List UInt8) : ¬ TreeInput C [leaf] x := by
  intro h
  cases h with
  | node h2 => simp at h2
  | left h2 => simp at h2
  | right h2 => simp at h2

lemma TreeInput.eq_of_pair {a b : Hash32} {x : List UInt8} (h : TreeInput C [a, b] x) :
    x = nodeInput a b := by
  have hcut : cut [a, b].length = 1 := show cut 2 = 1 by decide
  cases h with
  | node =>
    rw [hcut]
    rfl
  | left _ h =>
    rw [hcut] at h
    exact absurd h (not_treeInput_singleton C a x)
  | right _ h =>
    rw [hcut] at h
    exact absurd h (not_treeInput_singleton C b x)

/-! ### Equal roots -/

def leafHashes (es : List (List UInt8 × List UInt8)) : List Hash32 :=
  es.map fun e => leafHash C e.1 e.2

@[simp] lemma length_leafHashes (es : List (List UInt8 × List UInt8)) :
    (leafHashes C es).length = es.length :=
  List.length_map _

structure HashedIn (S : Set (List UInt8)) (es : List (List UInt8 × List UInt8)) : Prop where
  leaf : ∀ e ∈ es, leafInput e.1 e.2 ∈ S
  tree : ∀ x, TreeInput C (leafHashes C es) x → x ∈ S

section Injective

variable {C} {S : Set (List UInt8)} {es fs : List (List UInt8 × List UInt8)}

lemma HashedIn.take (h : HashedIn C S es) (h2 : 2 ≤ es.length) :
    HashedIn C S (es.take (cut es.length)) where
  leaf e he := h.leaf e (List.mem_of_mem_take he)
  tree x hx := by
    refine h.tree x (.left (by simpa using h2) ?_)
    rwa [length_leafHashes, leafHashes, ← List.map_take]

lemma HashedIn.drop (h : HashedIn C S es) (h2 : 2 ≤ es.length) :
    HashedIn C S (es.drop (cut es.length)) where
  leaf e he := h.leaf e (List.mem_of_mem_drop he)
  tree x hx := by
    refine h.tree x (.right (by simpa using h2) ?_)
    rwa [length_leafHashes, leafHashes, ← List.map_drop]

lemma HashedIn.mem_tree {fuel : ℕ} {t : LeafTree (List UInt8 × List UInt8)} (h : HashedIn C S es)
    (hfuel : es.length ≤ fuel) (ht : treeOf fuel es = some t) : ∀ x ∈ (scheme C).inputs t, x ∈ S := by
  induction fuel generalizing es t with
  | zero =>
    obtain rfl := List.length_eq_zero_iff.mp (Nat.le_zero.mp hfuel)
    cases ht
  | succ fuel ih =>
    by_cases h2 : 2 ≤ es.length
    · obtain ⟨hpos, hlt⟩ := lt_nextPowerOfTwo_half h2
      have hfuel' : (es.take (nextPowerOfTwo es.length / 2)).length ≤ fuel := by
        rw [List.length_take]
        omega
      have hfuel'' : (es.drop (nextPowerOfTwo es.length / 2)).length ≤ fuel := by
        rw [List.length_drop]
        omega
      rw [treeOf_succ h2] at ht
      obtain ⟨left, hleft, ht⟩ := bind_eq_some_iff.mp ht
      obtain ⟨right, hright, ht⟩ := bind_eq_some_iff.mp ht
      cases ht
      intro x hx
      rcases List.mem_cons.mp hx with rfl | hx
      · have hnode := h.tree _ (.node (by simpa using h2))
        rw [length_leafHashes, leafHashes, ← List.map_take, ← List.map_drop] at hnode
        rw [treeOf_root hfuel' hleft, treeOf_root hfuel'' hright]
        exact hnode
      · rcases List.mem_append.mp hx with hx | hx
        · exact ih (h.take h2) hfuel' hleft x hx
        · exact ih (h.drop h2) hfuel'' hright x hx
    · match es, ht with
      | [e], ht =>
        cases ht
        intro x hx
        rw [List.mem_singleton.mp hx]
        exact h.leaf e List.mem_cons_self
      | _ :: _ :: _, _ => exact absurd (by simp) h2

lemma HashedIn.mem_treeInputs (h : HashedIn C S es) : ∀ x ∈ treeInputs C es, x ∈ S := by
  intro x hx
  unfold treeInputs at hx
  split at hx
  · rename_i t ht
    exact h.mem_tree le_rfl ht x hx
  · cases hx

lemma merkleRootOf_inj (hfree : Set.InjOn C.sha256 S) (hes : HashedIn C S es)
    (hfs : HashedIn C S fs) (hne : es ≠ []) (hne' : fs ≠ [])
    (hroot : merkleRootOf C (leafHashes C es) = merkleRootOf C (leafHashes C fs)) :
    es.map (fun e => leafInput e.1 e.2) = fs.map fun e => leafInput e.1 e.2 :=
  leafInputs_eq (fun x hx y hy => hfree (hes.mem_treeInputs x hx) (hfs.mem_treeInputs y hy)) hne hne'
    hroot

end Injective

def rootInputs (kv : BTreeMap String String) : Set (List UInt8) :=
  {x | (∃ e ∈ entries kv, x = leafInput e.1 e.2) ∨ TreeInput C (leafHashes C (entries kv)) x}

def KeysFit (kv : BTreeMap String String) : Prop :=
  ∀ e ∈ kv.toList, (Bytes.utf8 e.1).length < 2 ^ 32

section Injective

variable {C} {S : Set (List UInt8)} {kv kv' : BTreeMap String String}

lemma hashedIn_entries (h : rootInputs C kv ⊆ S) : HashedIn C S (entries kv) where
  leaf e he := h (.inl ⟨e, he, rfl⟩)
  tree _ hx := h (.inr hx)

lemma merkleRoot_eq_entries (h : kv.isEmpty = false) :
    merkleRoot C kv = merkleRootOf C (leafHashes C (entries kv)) := by
  rw [merkleRoot, if_neg (by simp [h]), leafHashes, entries, List.map_map]
  rfl

lemma KeysFit.entries (h : KeysFit kv) : ∀ e ∈ entries kv, e.1.length < 2 ^ 32 := by
  intro e he
  obtain ⟨kv, hkv, rfl⟩ := List.mem_map.mp he
  exact h kv hkv

lemma merkleRoot_inj (hfree : Set.InjOn C.sha256 S) (hin : rootInputs C kv ⊆ S)
    (hin' : rootInputs C kv' ⊆ S) (hfit : KeysFit kv) (hfit' : KeysFit kv')
    (hne : kv.isEmpty = false) (hne' : kv'.isEmpty = false)
    (hroot : merkleRoot C kv = merkleRoot C kv') : kv = kv' := by
  rw [merkleRoot_eq_entries hne, merkleRoot_eq_entries hne'] at hroot
  have hinputs := merkleRootOf_inj hfree (hashedIn_entries hin) (hashedIn_entries hin')
    (entries_ne_nil hne) (entries_ne_nil hne') hroot
  exact entries_inj hfit.entries hfit'.entries hinputs

end Injective

end Merkle

/-! ### The combined map -/

namespace KvState

open Grouping Text

def storageKey (key : Word × Word) : String :=
  "vm_storage:" ++ Bytes.hexEncode key.1.toList ++ ":" ++ Bytes.hexEncode key.2.toList

variable {p : String}

lemma storageKey_eq (key : Word × Word) : storageKey key =
    "vm_storage:" ++ (Bytes.hexEncode key.1.toList ++ (":" ++ Bytes.hexEncode key.2.toList)) := by
  simp only [storageKey, String.append_assoc]

lemma hexEncode_word_injective :
    Function.Injective fun w : Word => Bytes.hexEncode w.toList := fun _ _ h =>
  Vector.toList_inj.mp (Bytes.hexEncode_injective h)

lemma storageKey_injective : Function.Injective storageKey := by
  intro key key' h
  rw [storageKey_eq, storageKey_eq, String.append_right_inj] at h
  have hlist := congrArg String.toList h
  simp only [String.toList_append] at hlist
  -- both contracts are written with 64 digits
  obtain ⟨hcontract, hslot⟩ := List.append_inj hlist (by
    simp only [String.length_toList, Bytes.length_hexEncode, Vector.length_toList])
  have hslot := List.append_cancel_left hslot
  exact Prod.ext (hexEncode_word_injective (String.toList_inj.mp hcontract))
    (hexEncode_word_injective (String.toList_inj.mp hslot))

lemma toString_toNat_injective : Function.Injective fun n : UInt64 => toString n.toNat := fun _ _ h =>
  UInt64.toNat_inj.mp (Nat.repr_inj.mp h)

def accountEntries (st : KvState) : BTreeMap String String :=
  let m := writeAll ("kv:" ++ ·) id st.kv ∅
  let m := writeAll ("bal:" ++ ·) (fun bal : UInt64 => toString bal.toNat) st.balances m
  let m := writeAll ("nonce:" ++ ·) (fun n : UInt64 => toString n.toNat) st.nonces m
  m.insert "burned" (toString st.burned.toNat)

variable {C : Crypto} {st st' : KvState}

lemma combined_eq : st.combined C =
    writeAll (fun contract : Word => "vm_code:" ++ Bytes.hexEncode contract.toList)
      (fun code => Bytes.hexEncode (C.sha256 code).toList) st.vm.code
      (writeAll storageKey (fun value : Word => Bytes.hexEncode value.toList) st.vm.storage
        st.accountEntries) :=
  rfl

lemma combined_of_apart (hcode : Apart "vm_code:" p) (hslot : Apart "vm_storage:" p) (x : String) :
    (st.combined C)[p ++ x]? = st.accountEntries[p ++ x]? := by
  rw [combined_eq, getElem?_writeAll_of_ne fun _ => hcode.append_ne _ x,
    getElem?_writeAll_of_ne fun key => storageKey_eq key ▸ hslot.append_ne _ x]

lemma combined_burned : (st.combined C)["burned"]? = some (toString st.burned.toNat) := by
  have h : (st.combined C)["burned" ++ ""]? = st.accountEntries["burned" ++ ""]? :=
    combined_of_apart (by decide) (by decide) ""
  rw [String.append_empty] at h
  rw [h, accountEntries, Std.ExtTreeMap.getElem?_insert_self]

lemma accountEntries_of_apart (h : Apart "burned" p) (x : String) :
    st.accountEntries[p ++ x]? =
      (writeAll ("nonce:" ++ ·) (fun n : UInt64 => toString n.toNat) st.nonces
        (writeAll ("bal:" ++ ·) (fun bal : UInt64 => toString bal.toNat) st.balances
          (writeAll ("kv:" ++ ·) id st.kv (∅ : BTreeMap String String))))[p ++ x]? := by
  have hne : compare "burned" (p ++ x) ≠ .eq := by
    rw [Ne, Std.LawfulEqCmp.compare_eq_iff_eq]
    simpa using h.append_ne "" x
  rw [accountEntries, Std.ExtTreeMap.getElem?_insert, if_neg hne]

lemma append_ne_of_apart {q : String} (h : Apart p q) (y x : String) : (p ++ ·) x ≠ q ++ y :=
  h.append_ne x y

lemma combined_nonces (a : String) :
    (st.combined C)["nonce:" ++ a]? = st.nonces[a]?.map fun n => toString n.toNat := by
  rw [combined_of_apart (by decide) (by decide), accountEntries_of_apart (by decide),
    getElem?_writeAll (f := ("nonce:" ++ ·)) fun _ _ => (String.append_right_inj _).mp,
    getElem?_writeAll_of_ne (append_ne_of_apart (by decide) a),
    getElem?_writeAll_of_ne (append_ne_of_apart (by decide) a),
    Std.ExtTreeMap.getElem?_empty, or_none]

lemma combined_balances (a : String) :
    (st.combined C)["bal:" ++ a]? = st.balances[a]?.map fun bal => toString bal.toNat := by
  rw [combined_of_apart (by decide) (by decide), accountEntries_of_apart (by decide),
    getElem?_writeAll_of_ne (append_ne_of_apart (by decide) a),
    getElem?_writeAll (f := ("bal:" ++ ·)) fun _ _ => (String.append_right_inj _).mp,
    getElem?_writeAll_of_ne (append_ne_of_apart (by decide) a),
    Std.ExtTreeMap.getElem?_empty, or_none]

lemma combined_kv (k : String) : (st.combined C)["kv:" ++ k]? = st.kv[k]? := by
  rw [combined_of_apart (by decide) (by decide), accountEntries_of_apart (by decide),
    getElem?_writeAll_of_ne (append_ne_of_apart (by decide) k),
    getElem?_writeAll_of_ne (append_ne_of_apart (by decide) k),
    getElem?_writeAll (f := ("kv:" ++ ·)) fun _ _ => (String.append_right_inj _).mp,
    Std.ExtTreeMap.getElem?_empty, or_none, map_id, id]

lemma accountEntries_eq_none (hburned : Apart "burned" p) (hnonce : Apart "nonce:" p)
    (hbal : Apart "bal:" p) (hkv : Apart "kv:" p) (x : String) :
    st.accountEntries[p ++ x]? = none := by
  rw [accountEntries_of_apart hburned, getElem?_writeAll_of_ne (append_ne_of_apart hnonce x),
    getElem?_writeAll_of_ne (append_ne_of_apart hbal x),
    getElem?_writeAll_of_ne (append_ne_of_apart hkv x), Std.ExtTreeMap.getElem?_empty]

lemma combined_storage (key : Word × Word) : (st.combined C)[storageKey key]? =
    st.vm.storage[key]?.map fun value => Bytes.hexEncode value.toList := by
  have hcode : ∀ contract : Word, "vm_code:" ++ Bytes.hexEncode contract.toList ≠ storageKey key :=
    fun _ => storageKey_eq key ▸ Apart.append_ne (by decide) _ _
  have hnone : st.accountEntries[storageKey key]? = none := by
    rw [storageKey_eq]
    exact accountEntries_eq_none (by decide) (by decide) (by decide) (by decide) _
  rw [combined_eq, getElem?_writeAll_of_ne hcode, getElem?_writeAll storageKey_injective, hnone,
    or_none]

lemma combined_code (contract : Word) :
    (st.combined C)["vm_code:" ++ Bytes.hexEncode contract.toList]? =
      st.vm.code[contract]?.map fun code => Bytes.hexEncode (C.sha256 code).toList := by
  have hinj : Function.Injective fun w : Word => "vm_code:" ++ Bytes.hexEncode w.toList :=
    fun _ _ h => hexEncode_word_injective ((String.append_right_inj _).mp h)
  have hslot : ∀ key, storageKey key ≠ "vm_code:" ++ Bytes.hexEncode contract.toList :=
    fun key => storageKey_eq key ▸ Apart.append_ne (by decide) _ _
  rw [combined_eq, getElem?_writeAll hinj, getElem?_writeAll_of_ne hslot,
    accountEntries_eq_none (by decide) (by decide) (by decide) (by decide), or_none]

/-! ### States with one root -/

lemma eq_of_map_eq {κ ν : Type} [Ord κ] [Std.TransOrd κ] [Std.LawfulEqOrd κ]
    {m m' : BTreeMap κ ν} {text : ν → String} (htext : Function.Injective text)
    (h : ∀ k : κ, m[k]?.map text = m'[k]?.map text) : m = m' := by
  refine Std.ExtTreeMap.ext_getElem? fun k => ?_
  exact map_injective htext (h k)

def hashInputs (C : Crypto) (st : KvState) : Set (List UInt8) :=
  Merkle.rootInputs C (st.combined C) ∪ {code | ∃ contract : Word, st.vm.code[contract]? = some code}

lemma code_eq (hfree : Set.InjOn C.sha256 (hashInputs C st ∪ hashInputs C st'))
    (h : ∀ contract : Word, st.vm.code[contract]?.map (fun code => Bytes.hexEncode (C.sha256 code).toList) =
      st'.vm.code[contract]?.map fun code => Bytes.hexEncode (C.sha256 code).toList) :
    st.vm.code = st'.vm.code := by
  refine Std.ExtTreeMap.ext_getElem? fun contract => ?_
  have hat := h contract
  cases hc : st.vm.code[contract]? with
  | none =>
    rw [hc, map_none] at hat
    exact (map_eq_none_iff.mp hat.symm).symm
  | some code =>
    rw [hc, map_some] at hat
    obtain ⟨code', hc', hhash⟩ := map_eq_some_iff.mp hat.symm
    rw [hc', hfree (.inr (.inr ⟨contract, hc'⟩)) (.inl (.inr ⟨contract, hc⟩))
      (hexEncode_word_injective hhash)]

lemma components_eq (hfree : Set.InjOn C.sha256 (hashInputs C st ∪ hashInputs C st'))
    (h : st.combined C = st'.combined C) :
    st.kv = st'.kv ∧ st.balances = st'.balances ∧ st.nonces = st'.nonces ∧
      st.burned = st'.burned ∧ st.vm.storage = st'.vm.storage ∧ st.vm.code = st'.vm.code := by
  refine ⟨eq_of_map_eq Function.injective_id fun k => ?_,
    eq_of_map_eq toString_toNat_injective fun a => ?_,
    eq_of_map_eq toString_toNat_injective fun a => ?_, ?_,
    eq_of_map_eq hexEncode_word_injective fun key => ?_, code_eq hfree fun contract => ?_⟩
  · rw [map_id, id, id, ← combined_kv (C := C), h, combined_kv]
  · rw [← combined_balances (C := C), h, combined_balances]
  · rw [← combined_nonces (C := C), h, combined_nonces]
  · have hburned : (st.combined C)["burned"]? = some (toString st.burned.toNat) := combined_burned
    rw [h, combined_burned, Option.some.injEq] at hburned
    exact toString_toNat_injective hburned.symm
  · rw [← combined_storage (C := C), h, combined_storage]
  · rw [← combined_code, h, combined_code]

lemma combined_isEmpty : (st.combined C).isEmpty = false := by
  have hmem : "burned" ∈ st.combined C :=
    Std.ExtTreeMap.mem_iff_isSome_getElem?.mpr (by rw [combined_burned]; rfl)
  rw [← Bool.not_eq_true, Std.ExtTreeMap.isEmpty_iff]
  exact Std.ExtTreeMap.ne_empty_of_mem hmem

lemma root_empty : (st.root C (Lru.Cache.empty _ _ _)).1 = Merkle.merkleRoot C (st.combined C) := by
  rw [root, Merkle.stateMerkleRoot, Merkle.stateMerkleRootWithConfig_of_not_isEmpty C combined_isEmpty,
    Lru.Cache.fetch_fst]
  rfl

/-- **What the state root binds**: equal roots mean equal states exactly if the states have the same
VM nonces and VM balances, which are not hashed. -/
theorem root_binds_iff (hfree : Set.InjOn C.sha256 (hashInputs C st ∪ hashInputs C st'))
    (hfit : Merkle.KeysFit (st.combined C)) (hfit' : Merkle.KeysFit (st'.combined C))
    (hroot : (st.root C (Lru.Cache.empty _ _ _)).1 = (st'.root C (Lru.Cache.empty _ _ _)).1) :
    st = st' ↔ st.vm.nonces = st'.vm.nonces ∧ st.vm.balances = st'.vm.balances := by
  constructor
  · intro heq
    rw [heq]
    exact ⟨rfl, rfl⟩
  · intro hvm
    rw [root_empty, root_empty] at hroot
    have hcombined := Merkle.merkleRoot_inj hfree (fun x hx => .inl (.inl hx))
      (fun x hx => .inr (.inl hx)) hfit hfit' combined_isEmpty combined_isEmpty hroot
    obtain ⟨hkv, hbal, hnonce, hburned, hslot, hcode⟩ := components_eq hfree hcombined
    exact KvState.ext hkv hbal hnonce hburned (VmStorage.ext hslot hcode hvm.1 hvm.2)

def quiet : KvState where
  kv := .ofList [("a", "1")] compare
  burned := 7

def busy : KvState :=
  { quiet with
    vm.nonces := .ofList [(Hash32.ofNat 5, 3)] compare
    vm.balances := .ofList [(Hash32.ofNat 5, 1000)] compare }

/-- Whatever the hash function, the two states have one root. -/
theorem root_unbound :
    (∀ C : Crypto,
      (quiet.root C (Lru.Cache.empty _ _ _)).1 = (busy.root C (Lru.Cache.empty _ _ _)).1) ∧
      quiet.vm.nonces ≠ busy.vm.nonces ∧ quiet.vm.balances ≠ busy.vm.balances := by
  refine ⟨fun C => rfl, ?_⟩
  decide +kernel

lemma entries_quiet : Merkle.entries (quiet.combined .demo) =
    [(Bytes.utf8 "burned", Bytes.utf8 "7"), (Bytes.utf8 "kv:a", Bytes.utf8 "1")] := by
  decide +kernel

def quietInputs : List (List UInt8) :=
  [Merkle.leafInput (Bytes.utf8 "burned") (Bytes.utf8 "7"),
    Merkle.leafInput (Bytes.utf8 "kv:a") (Bytes.utf8 "1"),
    Merkle.nodeInput (Merkle.leafHash .demo (Bytes.utf8 "burned") (Bytes.utf8 "7"))
      (Merkle.leafHash .demo (Bytes.utf8 "kv:a") (Bytes.utf8 "1"))]

lemma mem_hashInputs_quiet {x : List UInt8} (hx : x ∈ hashInputs .demo quiet) :
    x ∈ quietInputs := by
  unfold quietInputs
  rcases hx with (⟨e, he, rfl⟩ | htree) | ⟨contract, hcode⟩
  · rw [entries_quiet] at he
    simp only [List.mem_cons, List.not_mem_nil, or_false] at he
    rcases he with rfl | rfl <;> simp
  · rw [entries_quiet] at htree
    simp [htree.eq_of_pair]
  · have hnone : quiet.vm.code[contract]? = none := Std.ExtTreeMap.getElem?_empty
    rw [hnone] at hcode
    cases hcode

theorem root_binds_quiet :
    quiet = busy ↔ quiet.vm.nonces = busy.vm.nonces ∧ quiet.vm.balances = busy.vm.balances := by
  have hfree : ∀ x ∈ quietInputs, ∀ y ∈ quietInputs,
      Crypto.demo.sha256 x = Crypto.demo.sha256 y → x = y := by
    decide +kernel
  have hin : ∀ x ∈ hashInputs .demo quiet ∪ hashInputs .demo busy, x ∈ quietInputs := fun x hx =>
    mem_hashInputs_quiet ((Set.union_self (hashInputs .demo quiet)).subset hx)
  refine root_binds_iff (C := .demo) (fun x hx y hy => hfree x (hin x hx) y (hin y hy)) ?_ ?_ rfl
  · unfold Merkle.KeysFit
    decide +kernel
  · unfold Merkle.KeysFit
    decide +kernel

end KvState
end Iona
