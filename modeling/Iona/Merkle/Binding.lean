import Iona.Merkle
import Iona.Lib.HashTree

/-! # The Merkle root binds the map -/

namespace Iona

open List
namespace Merkle

open HashTree

/-! ### Inputs of the hash function -/

def leafInput (key value : List UInt8) : List UInt8 :=
  leafDomain ++ Bytes.le 4 key.length ++ key ++ Bytes.le 4 value.length ++ value

def nodeInput (left right : Hash32) : List UInt8 := internalDomain ++ left.toList ++ right.toList

def scheme (C : Crypto) : Scheme (List UInt8 × List UInt8) (List UInt8) Hash32 where
  hash := C.sha256
  leafInput e := leafInput e.1 e.2
  nodeInput := nodeInput

variable {es fs : List (List UInt8 × List UInt8)}

lemma nodeInput_inj {left right left' right' : Hash32}
    (h : nodeInput left right = nodeInput left' right') : left = left' ∧ right = right' := by
  unfold nodeInput at h
  rw [append_assoc, append_assoc] at h
  have hparts := append_inj (append_cancel_left h) (by simp)
  exact ⟨Vector.toList_inj.mp hparts.1, Vector.toList_inj.mp hparts.2⟩

lemma leafInput_inj {key value key' value' : List UInt8} (hk : key.length < 2 ^ 32)
    (hk' : key'.length < 2 ^ 32) (h : leafInput key value = leafInput key' value') :
    key = key' ∧ value = value' := by
  unfold leafInput at h
  simp only [append_assoc] at h
  obtain ⟨hkey, h⟩ := Bytes.framed_inj hk hk' (append_cancel_left h)
  obtain ⟨-, hvalue⟩ := append_inj h (by simp)
  exact ⟨hkey, hvalue⟩

lemma leafInput_ne_nodeInput (key value : List UInt8) (left right : Hash32) :
    leafInput key value ≠ nodeInput left right := by
  intro h
  have hhead := congrArg head? h
  simp [leafInput, nodeInput, leafDomain, internalDomain] at hhead

/-! ### The tree of a list -/

def treeOf {α : Type*} : ℕ → List α → Option (LeafTree α)
  | _, [] => none
  | _, [a] => some (.leaf a)
  | 0, _ => none
  | fuel + 1, es => do
    let mid := nextPowerOfTwo es.length / 2
    let left ← treeOf fuel (es.take mid)
    let right ← treeOf fuel (es.drop mid)
    some (.node left right)

def treeInputs (C : Crypto) (es : List (List UInt8 × List UInt8)) : List (List UInt8) :=
  match treeOf es.length es with
  | some t => (scheme C).inputs t
  | none => []

variable {C : Crypto}

lemma treeOf_succ {α : Type*} {es : List α} (h : 2 ≤ es.length) (fuel : ℕ) :
    treeOf (fuel + 1) es = (treeOf fuel (es.take (nextPowerOfTwo es.length / 2))).bind fun left =>
      (treeOf fuel (es.drop (nextPowerOfTwo es.length / 2))).bind fun right =>
        some (.node left right) := by
  match es, h with
  | _ :: _ :: _, _ => rfl

lemma treeOf_spec (fuel : ℕ) (hne : es ≠ []) (hfuel : es.length ≤ fuel) :
    ∃ t, treeOf fuel es = some t ∧ t.leaves = es ∧
      (scheme C).root t = merkleRootOf C (es.map fun e => leafHash C e.1 e.2) := by
  induction fuel generalizing es with
  | zero => exact absurd (length_eq_zero_iff.mp (Nat.le_zero.mp hfuel)) hne
  | succ fuel ih =>
    by_cases htwo : 2 ≤ es.length
    · obtain ⟨hpos, hlt⟩ := lt_nextPowerOfTwo_half htwo
      have htake : (es.take (nextPowerOfTwo es.length / 2)).length =
          nextPowerOfTwo es.length / 2 := by
        rw [length_take]
        omega
      have hdrop : (es.drop (nextPowerOfTwo es.length / 2)).length =
          es.length - nextPowerOfTwo es.length / 2 := length_drop
      obtain ⟨left, hleft, hleaves, hroot⟩ := ih (length_pos_iff.mp (htake ▸ hpos))
        (by omega)
      obtain ⟨right, hright, hleaves', hroot'⟩ := ih
        (length_pos_iff.mp (hdrop ▸ Nat.sub_pos_of_lt hlt)) (by omega)
      refine ⟨.node left right, ?_, ?_, ?_⟩
      · rw [treeOf_succ htwo, hleft, hright]
        rfl
      · rw [LeafTree.leaves, hleaves, hleaves', take_append_drop]
      · rw [merkleRootOf_split C (by rwa [length_map]), length_map, ← map_take,
          ← map_drop, ← hroot, ← hroot']
        rfl
    · obtain ⟨e, rfl⟩ := length_eq_one_iff.mp (show es.length = 1 by
        have := length_pos_iff.mpr hne
        omega)
      exact ⟨.leaf e, rfl, rfl, rfl⟩

lemma treeOf_root {fuel : ℕ} {t : LeafTree (List UInt8 × List UInt8)} (hfuel : es.length ≤ fuel)
    (ht : treeOf fuel es = some t) :
    (scheme C).root t = merkleRootOf C (es.map fun e => leafHash C e.1 e.2) := by
  have hne : es ≠ [] := by
    rintro rfl
    cases fuel <;> cases ht
  obtain ⟨t', ht', -, hroot⟩ := treeOf_spec (C := C) fuel hne hfuel
  rw [ht'] at ht
  cases ht
  exact hroot

lemma leafInputs_eq
    (hfree : ∀ x ∈ treeInputs C es, ∀ y ∈ treeInputs C fs, C.sha256 x = C.sha256 y → x = y)
    (hne : es ≠ []) (hne' : fs ≠ [])
    (hroot : merkleRootOf C (es.map fun e => leafHash C e.1 e.2) = merkleRootOf C (fs.map fun e =>
      leafHash C e.1 e.2)) :
    es.map (fun e => leafInput e.1 e.2) = fs.map fun e => leafInput e.1 e.2 := by
  obtain ⟨t, htree, rfl, htroot⟩ := treeOf_spec (C := C) _ hne le_rfl
  obtain ⟨u, hutree, rfl, huroot⟩ := treeOf_spec (C := C) _ hne' le_rfl
  have hsep : (scheme C).Separates t u := by
    intro x hx y hy
    refine hfree x ?_ y ?_
    · rw [treeInputs, htree]
      exact hx
    · rw [treeInputs, hutree]
      exact hy
  exact Scheme.leafInputs_eq (fun _ _ _ _ => nodeInput_inj)
    (fun _ _ _ => leafInput_ne_nodeInput _ _ _ _) hsep (htroot.trans (hroot.trans huroot.symm))

/-! ### Maps -/

def entries (kv : BTreeMap String String) : List (List UInt8 × List UInt8) :=
  kv.toList.map fun e => (Bytes.utf8 e.1, Bytes.utf8 e.2)

def hashedStrings (C : Crypto) (kv : BTreeMap String String) : List (List UInt8) :=
  treeInputs C (entries kv)

def Short (e : List UInt8 × List UInt8) : Prop := e.1.length < 2 ^ 32 ∧ e.2.length < 2 ^ 32

instance decidableShort (e : List UInt8 × List UInt8) : Decidable (Short e) :=
  inferInstanceAs (Decidable (_ ∧ _))

variable {kv kv' : BTreeMap String String}

lemma entries_inj (hfit : ∀ e ∈ entries kv, e.1.length < 2 ^ 32)
    (hfit' : ∀ e ∈ entries kv', e.1.length < 2 ^ 32)
    (h : (entries kv).map (fun e => leafInput e.1 e.2) =
      (entries kv').map fun e => leafInput e.1 e.2) : kv = kv' := by
  have hinj : Function.Injective fun e : String × String => (Bytes.utf8 e.1, Bytes.utf8 e.2) := by
    rintro ⟨k, v⟩ ⟨k', v'⟩ heq
    obtain ⟨hk, hv⟩ := Prod.mk.inj heq
    exact Prod.ext (Bytes.utf8_injective hk) (Bytes.utf8_injective hv)
  refine Std.ExtTreeMap.toList_inj.mp (map_injective_iff.mpr hinj ?_)
  -- position by position
  change entries kv = entries kv'
  refine ext_getElem (by simpa using congrArg List.length h) fun i hi hi' => ?_
  have hat := congrArg (fun l => l[i]?) h
  simp only [getElem?_map, getElem?_eq_getElem hi, getElem?_eq_getElem hi',
    Option.map_some, Option.some.injEq] at hat
  obtain ⟨hkey, hvalue⟩ := leafInput_inj (hfit _ (getElem_mem hi)) (hfit' _ (getElem_mem hi'))
    hat
  exact Prod.ext hkey hvalue

lemma leaves_eq (config : MerkleConfig) (kv : BTreeMap String String) :
    leaves C config kv = (entries kv).map fun e => leafHash C e.1 e.2 := by
  rw [leaves, ite_self, entries, map_map]
  rfl

lemma entries_ne_nil (h : kv.isEmpty = false) : entries kv ≠ [] := by
  intro hnil
  rw [entries, map_eq_nil_iff, ← List.isEmpty_iff, Std.ExtTreeMap.isEmpty_toList, h] at hnil
  cases hnil

/-- **The root binds the map**: without a collision among the strings that are hashed, maps with one
root are equal. -/
theorem merkleRoot_binding
    (hfree : ∀ x ∈ hashedStrings C kv, ∀ y ∈ hashedStrings C kv', C.sha256 x = C.sha256 y → x = y)
    (hne : kv.isEmpty = false) (hne' : kv'.isEmpty = false)
    (hshort : ∀ e ∈ entries kv, Short e) (hshort' : ∀ e ∈ entries kv', Short e)
    (config config' : MerkleConfig)
    (hroot : merkleRootOf C (leaves C config kv) = merkleRootOf C (leaves C config' kv')) :
    kv = kv' := by
  rw [leaves_eq, leaves_eq] at hroot
  have hinputs := leafInputs_eq hfree (entries_ne_nil hne) (entries_ne_nil hne') hroot
  exact entries_inj (fun e he => (hshort e he).1) (fun e he => (hshort' e he).1) hinputs

/-- Three entries, written in two orders. -/
theorem merkleRoot_binding_three :
    (((∅ : BTreeMap String String).insert "a" "1").insert "b" "2").insert "c" "3" =
      ((∅ : BTreeMap String String).insert "c" "3" |>.insert "a" "1").insert "b" "2" := by
  refine merkleRoot_binding (C := Crypto.demo) ?_ ?_ ?_ ?_ ?_ {} {} ?_ <;> decide +kernel

end Merkle
end Iona
