import Mathlib

/-! # Work split into groups, and results merged entry by entry -/

namespace Grouping

open Std.ExtTreeMap

/-! ### Groups of a list -/

section Groups

variable {α κ : Type*} [DecidableEq κ]

lemma flatMap_filter_perm (key : α → κ) {order : List κ} (hnd : order.Nodup) {l : List α}
    (hl : ∀ x ∈ l, key x ∈ order) :
    (order.flatMap fun s => l.filter fun x => key x = s).Perm l := by
  induction order generalizing l with
  | nil =>
    rw [List.eq_nil_iff_forall_not_mem.mpr fun x hx => List.not_mem_nil (hl x hx)]
    exact .refl _
  | cons s order ih =>
    obtain ⟨hs, hnd⟩ := List.nodup_cons.mp hnd
    -- the other groups are those of the list without the elements of `s`
    have hrest : (order.flatMap fun s' => l.filter fun x => key x = s') =
        order.flatMap fun s' => (l.filter fun x => !decide (key x = s)).filter
          fun x => key x = s' := by
      refine List.flatMap_congr fun s' hs' => ?_
      rw [List.filter_filter]
      refine List.filter_congr fun x _ => ?_
      have hne : s' ≠ s := fun h => hs (h ▸ hs')
      by_cases hx : key x = s' <;> simp [hx, hne]
    rw [List.flatMap_cons, hrest]
    have hperm := ih hnd (l := l.filter fun x => !decide (key x = s)) fun x hx => by
      have hx' := List.mem_filter.mp hx
      have := List.mem_cons.mp (hl x hx'.1)
      simpa [of_decide_eq_false (Bool.not_eq_true' _ ▸ hx'.2)] using this
    exact (hperm.append_left _).trans (List.filter_append_perm _ l)

lemma sum_groups {M : Type*} [AddCommMonoid M] (key : α → κ) (f : α → M) {order : List κ}
    (hnd : order.Nodup) {l : List α} (hl : ∀ x ∈ l, key x ∈ order) :
    (order.map fun s => ((l.filter fun x => key x = s).map f).sum).sum = (l.map f).sum := by
  rw [← ((flatMap_filter_perm key hnd hl).map f).sum_eq, List.map_flatMap, List.flatMap,
    List.sum_flatten, List.map_map]
  rfl

lemma insertionSort_eq_of_perm (index : α → ℕ) {l l' : List α} (hperm : l.Perm l')
    (hsorted : l'.Pairwise fun a b => index a < index b) :
    l.insertionSort (fun a b => index a ≤ index b) = l' := by
  have : Std.Total fun a b : α => index a ≤ index b := ⟨fun a b => Nat.le_total _ _⟩
  have : IsTrans α fun a b : α => index a ≤ index b := ⟨fun a b c => Nat.le_trans⟩
  refine List.Perm.eq_of_pairwise ?_ (List.pairwise_insertionSort _ l)
    (hsorted.imp Nat.le_of_lt) ((List.perm_insertionSort _ l).trans hperm)
  -- elements with one index are the same
  have hnd : (l'.map index).Nodup := List.pairwise_map.mpr (hsorted.imp Nat.ne_of_lt)
  intro a b ha hb hab hba
  have ha' : a ∈ l' := hperm.subset ((List.mem_insertionSort _).mp ha)
  exact List.inj_on_of_nodup_map hnd ha' hb (Nat.le_antisymm hab hba)

lemma insertionSort_congr {κ' : Type*} [Ord κ'] [Std.TransOrd κ'] [Std.LawfulEqOrd κ']
    (key : α → κ') {l l' : List α} (hperm : l.Perm l') (hkey : Set.InjOn key {a | a ∈ l}) :
    l.insertionSort (fun a b => (compare (key a) (key b)).isLE) =
      l'.insertionSort (fun a b => (compare (key a) (key b)).isLE) := by
  have htotal : Std.Total fun a b : α => (compare (key a) (key b)).isLE = true := by
    refine ⟨fun a b => ?_⟩
    cases hab : compare (key a) (key b) with
    | lt => exact .inl rfl
    | eq => exact .inl rfl
    | gt =>
      have hswap : compare (key b) (key a) = (compare (key a) (key b)).swap :=
        Std.OrientedCmp.eq_swap
      refine .inr ?_
      rw [hswap, hab]
      rfl
  have htrans : IsTrans α fun a b : α => (compare (key a) (key b)).isLE = true :=
    ⟨fun a b c => Std.TransCmp.isLE_trans⟩
  refine List.Perm.eq_of_pairwise ?_ (List.pairwise_insertionSort _ l)
    (List.pairwise_insertionSort _ l')
    ((List.perm_insertionSort _ l).trans (hperm.trans (List.perm_insertionSort _ l').symm))
  intro a b ha hb hab hba
  have ha' : a ∈ l := (List.mem_insertionSort _).mp ha
  have hb' : b ∈ l := hperm.mem_iff.mpr ((List.mem_insertionSort _).mp hb)
  exact hkey ha' hb' (Std.LawfulEqOrd.eq_of_compare (Std.OrientedCmp.isLE_antisymm hab hba))

lemma min_sum_min {ι : Type*} (f : ι → ℕ) (c : ℕ) (l : List ι) :
    min ((l.map fun i => min (f i) c).sum) c = min ((l.map f).sum) c := by
  induction l with
  | nil => rfl
  | cons i l ih =>
    simp only [List.map_cons, List.sum_cons]
    omega

end Groups

lemma foldl_eq_self {α β : Type*} {step : β → α → β} {l : List α}
    (h : ∀ s ∈ l, ∀ b, step b s = b) (b : β) : l.foldl step b = b := by
  induction l with
  | nil => rfl
  | cons s l ih =>
    rw [List.foldl_cons, h s List.mem_cons_self]
    exact ih fun s' hs' => h s' (List.mem_cons_of_mem s hs')

lemma foldl_eq_of_unique {α β : Type*} {step : β → α → β} {l : List α} {a : α}
    (hnd : l.Nodup) (ha : a ∈ l) (h : ∀ s ∈ l, s ≠ a → ∀ b, step b s = b) (b : β) :
    l.foldl step b = step b a := by
  induction l generalizing b with
  | nil => cases ha
  | cons s l ih =>
    obtain ⟨hs, hnd⟩ := List.nodup_cons.mp hnd
    rw [List.foldl_cons]
    rcases List.mem_cons.mp ha with rfl | ha
    · refine foldl_eq_self (fun s' hs' => h s' (List.mem_cons_of_mem _ hs') ?_) _
      rintro rfl
      exact hs hs'
    · rw [h s List.mem_cons_self (fun heq => hs (heq ▸ ha))]
      exact ih hnd ha (fun s' hs' => h s' (List.mem_cons_of_mem _ hs')) b

lemma mapM_eq_some_iff {α β : Type*} [Inhabited β] {f : α → Option β} {l : List α} {bs : List β} :
    l.mapM f = some bs ↔ (∀ a ∈ l, (f a).isSome = true) ∧ bs = l.map fun a => (f a).getD default := by
  induction l generalizing bs with
  | nil =>
    refine ⟨fun h => ⟨(fun a ha => nomatch ha), (Option.some.inj h).symm⟩, fun h => ?_⟩
    rw [h.2]
    rfl
  | cons a l ih =>
    rw [List.mapM_cons]
    cases ha : f a with
    | none => simp [ha]
    | some b =>
      simp only [Option.bind_eq_bind, Option.bind_some, Option.pure_def, Option.bind_eq_some_iff, ih,
        List.forall_mem_cons, List.map_cons, ha, Option.isSome_some, true_and, Option.getD_some,
        Option.some.injEq]
      constructor
      · rintro ⟨bs', ⟨hl, rfl⟩, rfl⟩
        exact ⟨hl, rfl⟩
      · rintro ⟨hl, rfl⟩
        exact ⟨_, ⟨hl, rfl⟩, rfl⟩

/-! ### Loops over a map -/

section Maps

open Std

variable {κ ν β : Type*} {cmp : κ → κ → Ordering} [TransCmp cmp] [LawfulEqCmp cmp] [DecidableEq κ]

/-- A step that changes one entry, as a function of that entry alone. -/
def Local (step : ExtTreeMap κ β cmp → κ → ν → ExtTreeMap κ β cmp)
    (entry : κ → ν → Option β → Option β) : Prop :=
  ∀ acc k v k', (step acc k v)[k']? = if k' = k then entry k v acc[k]? else acc[k']?

variable {step : ExtTreeMap κ β cmp → κ → ν → ExtTreeMap κ β cmp}
  {entry : κ → ν → Option β → Option β}

lemma Local.getElem?_foldl (h : Local step entry) (m : ExtTreeMap κ ν cmp)
    (acc : ExtTreeMap κ β cmp) (k : κ) :
    (m.foldl step acc)[k]? = m[k]?.elim acc[k]? fun v => entry k v acc[k]? := by
  have hlist : ∀ (l : List (κ × ν)) (acc : ExtTreeMap κ β cmp),
      l.Pairwise (fun a b => a.1 ≠ b.1) →
      ((∀ v, (k, v) ∉ l) → (l.foldl (fun acc e => step acc e.1 e.2) acc)[k]? = acc[k]?) ∧
      ∀ v, (k, v) ∈ l →
        (l.foldl (fun acc e => step acc e.1 e.2) acc)[k]? = entry k v acc[k]? := by
    intro l
    induction l with
    | nil => exact fun acc _ => ⟨fun _ => rfl, fun v hv => nomatch hv⟩
    | cons e l ih =>
      intro acc hl
      obtain ⟨he, hl⟩ := List.pairwise_cons.mp hl
      obtain ⟨hout, hin⟩ := ih (step acc e.1 e.2) hl
      refine ⟨fun hk => ?_, fun v hv => ?_⟩
      · rw [List.foldl_cons, hout fun v hv => hk v (List.mem_cons_of_mem e hv), h, if_neg]
        rintro rfl
        exact hk e.2 List.mem_cons_self
      · rw [List.foldl_cons]
        rcases List.mem_cons.mp hv with rfl | hv
        · rw [hout fun v' hv' => he (k, v') hv' rfl, h, if_pos rfl]
        · rw [hin v hv, h, if_neg (he (k, v) hv).symm]
  have hnd : m.toList.Pairwise fun a b => a.1 ≠ b.1 :=
    m.distinct_keys_toList.imp fun {a b} hab (heq : a.1 = b.1) =>
      hab (heq ▸ ReflCmp.compare_self)
  obtain ⟨hout, hin⟩ := hlist m.toList acc hnd
  rw [foldl_eq_foldl_toList]
  cases hk : m[k]? with
  | none =>
    refine hout fun v hv => ?_
    rw [mem_toList_iff_getElem?_eq_some, hk] at hv
    cases hv
  | some v => exact hin v (mem_toList_iff_getElem?_eq_some.mpr hk)

omit [LawfulEqCmp cmp] in
lemma local_skip : Local (fun (acc : ExtTreeMap κ β cmp) (_ : κ) (_ : ν) => acc)
    fun _ _ o => o := by
  intro acc k v k'
  split
  · rename_i hk
    rw [hk]
  · rfl

lemma local_insert (f : κ → ν → β) :
    Local (fun (acc : ExtTreeMap κ β cmp) k v => acc.insert k (f k v)) fun k v _ => some (f k v) := by
  intro acc k v k'
  rw [getElem?_insert]
  by_cases hk : k' = k
  · simp [hk]
  · simp [hk, Ne.symm hk]

lemma local_erase : Local (fun (acc : ExtTreeMap κ β cmp) k (_ : ν) => acc.erase k)
    fun _ _ _ => none := by
  intro acc k v k'
  rw [getElem?_erase]
  by_cases hk : k' = k
  · simp [hk]
  · simp [hk, Ne.symm hk]

omit [LawfulEqCmp cmp] in
lemma Local.ite {step' : ExtTreeMap κ β cmp → κ → ν → ExtTreeMap κ β cmp}
    {entry' : κ → ν → Option β → Option β} (c : κ → ν → Prop) [∀ k v, Decidable (c k v)]
    (h : Local step entry) (h' : Local step' entry') :
    Local (fun acc k v => if c k v then step acc k v else step' acc k v)
      fun k v o => if c k v then entry k v o else entry' k v o := by
  intro acc k v k'
  dsimp only
  split
  · exact h acc k v k'
  · exact h' acc k v k'

omit [LawfulEqCmp cmp] [DecidableEq κ] in
lemma getElem?_foldl_maps {γ : Type*} {run : ExtTreeMap κ β cmp → γ → ExtTreeMap κ β cmp}
    {f : γ → Option β → Option β} {k : κ} {gs : List γ}
    (h : ∀ g ∈ gs, ∀ acc, (run acc g)[k]? = f g acc[k]?) (acc : ExtTreeMap κ β cmp) :
    (gs.foldl run acc)[k]? = gs.foldl (fun o g => f g o) acc[k]? := by
  induction gs generalizing acc with
  | nil => rfl
  | cons g gs ih =>
    rw [List.foldl_cons, ih fun g' hg' => h g' (List.mem_cons_of_mem g hg'),
      h g List.mem_cons_self, List.foldl_cons]

end Maps

/-! ### Entries written under other keys -/

section Flatten

open Std

variable {κ κ' ν β : Type*} {cmp' : κ' → κ' → Ordering} [TransCmp cmp'] [LawfulEqCmp cmp']

/-- All entries of a map written into another one under new keys. -/
def writeAll {cmp : κ → κ → Ordering} [TransCmp cmp] (f : κ → κ') (g : ν → β)
    (m : ExtTreeMap κ ν cmp) (acc : ExtTreeMap κ' β cmp') : ExtTreeMap κ' β cmp' :=
  m.foldl (fun acc k v => acc.insert (f k) (g v)) acc

lemma getElem?_foldl_insert_of_ne {f : κ → κ'} (g : ν → β) {key : κ'} {l : List (κ × ν)}
    (h : ∀ e ∈ l, f e.1 ≠ key) (acc : ExtTreeMap κ' β cmp') :
    (l.foldl (fun acc e => acc.insert (f e.1) (g e.2)) acc)[key]? = acc[key]? := by
  induction l generalizing acc with
  | nil => rfl
  | cons e l ih =>
    obtain ⟨he, hl⟩ := List.forall_mem_cons.mp h
    rw [List.foldl_cons, ih hl, getElem?_insert, if_neg]
    rwa [LawfulEqCmp.compare_eq_iff_eq]

variable {cmp : κ → κ → Ordering} [TransCmp cmp] {f : κ → κ'} {g : ν → β} {m : ExtTreeMap κ ν cmp}
  {acc : ExtTreeMap κ' β cmp'}

lemma getElem?_writeAll_of_ne {key : κ'} (h : ∀ k, f k ≠ key) :
    (writeAll f g m acc)[key]? = acc[key]? := by
  rw [writeAll, foldl_eq_foldl_toList]
  exact getElem?_foldl_insert_of_ne g (fun e _ => h e.1) acc

lemma getElem?_writeAll [LawfulEqCmp cmp] (hf : Function.Injective f) (k : κ) :
    (writeAll f g m acc)[f k]? = (m[k]?.map g).or acc[f k]? := by
  rw [writeAll, foldl_eq_foldl_toList]
  cases hk : m[k]? with
  | none =>
    refine getElem?_foldl_insert_of_ne g (fun e he heq => ?_) acc
    obtain rfl := hf heq
    rw [mem_toList_iff_getElem?_eq_some.mp he] at hk
    cases hk
  | some v =>
    -- the entry of `k` is written once, and the entries after it have other keys
    obtain ⟨l₁, l₂, hsplit⟩ :=
      List.append_of_mem (mem_toList_iff_getElem?_eq_some.mpr hk)
    have hnd := m.distinct_keys_toList
    rw [hsplit, List.pairwise_append] at hnd
    have hl₂ : ∀ e ∈ l₂, f e.1 ≠ f k := by
      intro e he heq
      refine List.rel_of_pairwise_cons hnd.2.1 he ?_
      rw [hf heq]
      exact ReflCmp.compare_self
    rw [hsplit, List.foldl_append, List.foldl_cons, getElem?_foldl_insert_of_ne g hl₂,
      getElem?_insert_self, Option.map_some, Option.some_or]

end Flatten

/-! ### Encodings in a row -/

/-- Encodings of which each can be told from what follows can be told apart in a row. -/
lemma flatMap_inj {α β : Type*} {f : α → List β} {D : α → Prop}
    (hf : ∀ a b s t, D a → D b → f a ++ s = f b ++ t → a = b ∧ s = t)
    (hne : ∀ a, D a → f a ≠ []) {l l' : List α} (hl : ∀ a ∈ l, D a) (hl' : ∀ a ∈ l', D a)
    (h : l.flatMap f = l'.flatMap f) : l = l' := by
  induction l generalizing l' with
  | nil =>
    cases l' with
    | nil => rfl
    | cons b l' =>
      rw [List.flatMap_nil, List.flatMap_cons, eq_comm, List.append_eq_nil_iff] at h
      exact absurd h.1 (hne b (hl' b List.mem_cons_self))
  | cons a l ih =>
    cases l' with
    | nil =>
      rw [List.flatMap_nil, List.flatMap_cons, List.append_eq_nil_iff] at h
      exact absurd h.1 (hne a (hl a List.mem_cons_self))
    | cons b l' =>
      rw [List.flatMap_cons, List.flatMap_cons] at h
      obtain ⟨rfl, hrest⟩ := hf a b _ _ (hl a List.mem_cons_self) (hl' b List.mem_cons_self) h
      rw [ih (fun x hx => hl x (List.mem_cons_of_mem _ hx))
        (fun x hx => hl' x (List.mem_cons_of_mem _ hx)) hrest]

end Grouping
