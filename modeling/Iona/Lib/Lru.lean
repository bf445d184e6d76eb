import Mathlib

/-!
# Least-recently-used caches

## Main definitions

* `Lru.Cache`: at most `cap` entries with different keys, the most recent one first.
* `Lru.Cache.get`, `put`, `pop`, `fetch`: the operations of the `lru` crate.
* `Lru.Holds`: the cache holds the `cap` keys that were used last.
* `Lru.Cache.Coherent`: every entry agrees with a map.

## Main results

* `Lru.Holds.fetch`: a fetch keeps the account of what was used last.
* `Lru.Cache.Coherent.put`, `pop`, `fill`: how coherence goes on.
-/

namespace Lru

open List Prod

variable {κ ν : Type*} [DecidableEq κ]

/-! ### The cache -/

/-- The entries, the one used last in front. -/
structure Cache (κ ν : Type*) (cap : ℕ) where
  entries : List (κ × ν)
  nodup : (entries.map fst).Nodup
  le_cap : entries.length ≤ cap

/-- The entries under other keys. -/
def others (k : κ) (l : List (κ × ν)) : List (κ × ν) := l.filter fun e => e.1 ≠ k

variable {h h₁ l : List (κ × ν)} {k : κ}

@[simp] lemma others_nil (k : κ) : others k ([] : List (κ × ν)) = [] := rfl

@[simp] lemma mem_others {e : κ × ν} : e ∈ others k l ↔ e ∈ l ∧ e.1 ≠ k := by
  simp [others]

lemma others_append (k : κ) (l₁ l₂ : List (κ × ν)) :
    others k (l₁ ++ l₂) = others k l₁ ++ others k l₂ := filter_append _ _

lemma others_cons_of_ne {e : κ × ν} (h : e.1 ≠ k) (l : List (κ × ν)) :
    others k (e :: l) = e :: others k l := by
  simp [others, h]

@[simp] lemma others_cons_self (k : κ) (v : ν) (l : List (κ × ν)) :
    others k ((k, v) :: l) = others k l := by
  simp [others]

lemma others_eq_self (h : k ∉ l.map fst) : others k l = l := by
  refine filter_eq_self.mpr fun e he => ?_
  have : e.1 ≠ k := fun hk => h (hk ▸ mem_map_of_mem he)
  simpa using this

lemma nodup_others (h : (l.map fst).Nodup) (k : κ) : ((others k l).map fst).Nodup :=
  h.sublist (filter_sublist.map _)

lemma notMem_others (k : κ) (l : List (κ × ν)) : k ∉ (others k l).map fst := by
  simp [others]

lemma length_others (hl : (l.map fst).Nodup) {v : ν} (h : (k, v) ∈ l) :
    (others k l).length + 1 = l.length := by
  induction l with
  | nil => simp at h
  | cons e l ih =>
    obtain ⟨hel, hl'⟩ := nodup_cons.mp hl
    rcases mem_cons.mp h with rfl | h
    · rw [others_cons_self, others_eq_self hel, length_cons]
    · have hek : e.1 ≠ k := fun hk => hel (hk ▸ mem_map_of_mem h)
      rw [others_cons_of_ne hek, length_cons, length_cons, ih hl' h]

namespace Cache

variable {cap : ℕ}

/-- The empty cache. -/
def empty (κ ν : Type*) (cap : ℕ) : Cache κ ν cap := ⟨[], by simp, by simp⟩

/-- The value under a key. -/
def find? (k : κ) (l : List (κ × ν)) : Option ν := (l.find? fun e => e.1 = k).map snd

lemma mem_of_find? {v : ν} (h : find? k l = some v) : (k, v) ∈ l := by
  obtain ⟨e, he, rfl⟩ := Option.map_eq_some_iff.mp h
  have hk : e.1 = k := by simpa using find?_some he
  exact hk ▸ mem_of_find?_eq_some he

lemma find?_eq_some_iff {v : ν} (hl : (l.map fst).Nodup) :
    find? k l = some v ↔ (k, v) ∈ l := by
  refine ⟨mem_of_find?, fun h => ?_⟩
  induction l with
  | nil => simp at h
  | cons e l ih =>
    obtain ⟨hel, hl'⟩ := nodup_cons.mp hl
    rcases mem_cons.mp h with rfl | h
    · simp [find?]
    · have hek : e.1 ≠ k := fun hk => hel (hk ▸ mem_map_of_mem h)
      have := ih hl' h
      simpa [find?, hek] using this

lemma find?_eq_none_iff : find? k l = none ↔ k ∉ l.map fst := by
  simp only [find?, Option.map_eq_none_iff, find?_eq_none, mem_map, decide_eq_true_eq]
  exact ⟨fun h ⟨e, he, hk⟩ => h e he hk, fun h e he hk => h ⟨e, he, hk⟩⟩

/-- A look-up, which moves the entry to the front. -/
def get (k : κ) (c : Cache κ ν cap) : Option ν × Cache κ ν cap :=
  match h : find? k c.entries with
  | none => (none, c)
  | some v =>
    (some v,
      { entries := (k, v) :: others k c.entries
        nodup := nodup_cons.mpr ⟨notMem_others k _, nodup_others c.nodup k⟩
        le_cap := by
          rw [length_cons, length_others c.nodup (mem_of_find? h)]
          exact c.le_cap })

/-- An insertion at the front, which drops the last entry of a full cache. -/
def put (k : κ) (v : ν) (c : Cache κ ν cap) : Cache κ ν cap where
  entries := ((k, v) :: others k c.entries).take cap
  nodup :=
    (nodup_cons.mpr ⟨notMem_others k _, nodup_others c.nodup k⟩ :
      (((k, v) :: others k c.entries).map fst).Nodup).sublist ((take_sublist _ _).map _)
  le_cap := length_take_le _ _

/-- The cached value, or the computed one, which is then cached. -/
def fetch (k : κ) (compute : ν) (c : Cache κ ν cap) : ν × Cache κ ν cap :=
  match c.get k with
  | (some v, c') => (v, c')
  | (none, c') => (compute, c'.put k compute)

lemma fetch_fst (k : κ) (x : ν) (c : Cache κ ν cap) :
    (c.fetch k x).1 = (find? k c.entries).getD x := by
  unfold fetch get
  split <;> rename_i heq <;> split at heq <;> simp_all

lemma fetch_entries (hcap : 0 < cap) (k : κ) (x : ν) (c : Cache κ ν cap) :
    ∃ l, (c.fetch k x).2.entries = (k, (c.fetch k x).1) :: l := by
  obtain ⟨n, rfl⟩ := Nat.exists_eq_succ_of_ne_zero hcap.ne'
  unfold fetch get
  split <;> rename_i heq <;> split at heq <;> cases heq
  · exact ⟨_, rfl⟩
  · exact ⟨_, rfl⟩

lemma fetch_fetch (hcap : 0 < cap) (k : κ) (x y : ν) (c : Cache κ ν cap) :
    ((c.fetch k x).2.fetch k y).1 = (c.fetch k x).1 := by
  obtain ⟨l, hl⟩ := fetch_entries hcap k x c
  rw [fetch_fst, hl]
  simp [find?]

end Cache

/-! ### Histories -/

/-- The history of uses with the last use of each key only. -/
def recent : List (κ × ν) → List (κ × ν)
  | [] => []
  | e :: h => e :: others e.1 (recent h)

@[simp] lemma recent_nil : recent ([] : List (κ × ν)) = [] := rfl

@[simp] lemma recent_cons (e : κ × ν) (h : List (κ × ν)) :
    recent (e :: h) = e :: others e.1 (recent h) := rfl

lemma nodup_recent (h : List (κ × ν)) : ((recent h).map fst).Nodup := by
  induction h with
  | nil => simp
  | cons e h ih => exact nodup_cons.mpr ⟨notMem_others e.1 _, nodup_others ih e.1⟩

lemma mem_keys_recent : k ∈ (recent h).map fst ↔ k ∈ h.map fst := by
  induction h with
  | nil => simp
  | cons e h ih =>
    rw [recent_cons, map_cons, map_cons, mem_cons, mem_cons, ← ih]
    by_cases hk : k = e.1
    · simp [hk]
    · simp [others, hk]

lemma length_recent (h : List (κ × ν)) :
    (recent h).length = (h.map fst).toFinset.card := by
  have hset : ((recent h).map fst).toFinset = (h.map fst).toFinset := by
    ext k
    simp only [mem_toFinset, mem_keys_recent]
  rw [← hset, toFinset_card_of_nodup (nodup_recent h), length_map]

lemma recent_append_cons (hk : k ∉ h₁.map fst) (v : ν) (h₂ : List (κ × ν)) :
    ∃ l, recent (h₁ ++ (k, v) :: h₂) = recent h₁ ++ (k, v) :: l := by
  induction h₁ with
  | nil => exact ⟨_, rfl⟩
  | cons e h₁ ih =>
    rw [map_cons, mem_cons, not_or] at hk
    obtain ⟨l, hl⟩ := ih hk.2
    refine ⟨others e.1 l, ?_⟩
    rw [cons_append, recent_cons, hl, others_append, others_cons_of_ne hk.1, recent_cons,
      cons_append]

lemma exists_last_access (hk : k ∈ h.map fst) :
    ∃ h₁ v h₂, h = h₁ ++ (k, v) :: h₂ ∧ k ∉ h₁.map fst := by
  induction h with
  | nil => simp at hk
  | cons e h ih =>
    by_cases he : e.1 = k
    · exact ⟨[], e.2, h, by simp [← he], by simp⟩
    · have hkh : k ∈ h.map fst := by
        rcases mem_cons.mp hk with hk | hk
        · exact absurd hk.symm he
        · exact hk
      obtain ⟨h₁, v, h₂, rfl, hk₁⟩ := ih hkh
      exact ⟨e :: h₁, v, h₂, rfl, by simpa [Ne.symm he] using hk₁⟩

lemma mem_take_recent_iff {h₂ : List (κ × ν)} {v w : ν} {n : ℕ} (hk : k ∉ h₁.map fst) :
    (k, w) ∈ (recent (h₁ ++ (k, v) :: h₂)).take n ↔
      w = v ∧ (h₁.map fst).toFinset.card < n := by
  obtain ⟨l, hl⟩ := recent_append_cons hk v h₂
  have hnd : ((recent h₁ ++ (k, v) :: l).map fst).Nodup := hl ▸ nodup_recent _
  have hk₁ : k ∉ (recent h₁).map fst := fun h => hk (mem_keys_recent.mp h)
  have hkl : k ∉ l.map fst := by
    rw [map_append, map_cons] at hnd
    exact (nodup_cons.mp hnd.of_append_right).1
  rw [hl, ← length_recent, take_append, mem_append]
  constructor
  · rintro (h | h)
    · exact absurd (mem_map_of_mem (mem_of_mem_take h)) hk₁
    · obtain hn | hn := Nat.eq_zero_or_pos (n - (recent h₁).length)
      · simp [hn] at h
      · rcases mem_cons.mp (mem_of_mem_take h) with heq | hl'
        · exact ⟨(Prod.mk.inj heq).2, by omega⟩
        · exact absurd (mem_map_of_mem hl') hkl
  · rintro ⟨rfl, hn⟩
    obtain ⟨m, hm⟩ : ∃ m, n - (recent h₁).length = m + 1 := ⟨n - (recent h₁).length - 1, by omega⟩
    rw [hm, take_succ_cons]
    exact Or.inr mem_cons_self

/-! ### The cache after a history of fetches -/

/-- The cache holds what was used last. -/
def Holds {cap : ℕ} (c : Cache κ ν cap) (h : List (κ × ν)) : Prop :=
  c.entries = (recent h).take cap

lemma holds_empty (cap : ℕ) : Holds (Cache.empty κ ν cap) [] := by
  simp [Holds, Cache.empty]

lemma take_others_of_mem (hl : (l.map fst).Nodup) {n : ℕ}
    (hk : k ∈ (l.take (n + 1)).map fst) : (others k l).take n = others k (l.take (n + 1)) := by
  induction l generalizing n with
  | nil => simp
  | cons e l ih =>
    obtain ⟨hel, hl'⟩ := nodup_cons.mp hl
    obtain ⟨a, v⟩ := e
    by_cases he : a = k
    · subst he
      have hel' : a ∉ (l.take n).map fst :=
        fun h => hel (map_subset _ (take_subset n l) h)
      rw [others_cons_self, others_eq_self hel, take_succ_cons, others_cons_self,
        others_eq_self hel']
    · have hkl : k ∈ (l.take n).map fst := by
        rw [take_succ_cons, map_cons, mem_cons] at hk
        exact hk.resolve_left fun h => he h.symm
      cases n with
      | zero => simp at hkl
      | succ n =>
        rw [others_cons_of_ne he, take_succ_cons, take_succ_cons, others_cons_of_ne he,
          ih hl' hkl]

lemma take_others_of_notMem {n : ℕ} (hk : k ∉ (l.take (n + 1)).map fst) :
    (others k l).take n = l.take n := by
  induction l generalizing n with
  | nil => simp
  | cons e l ih =>
    rw [take_succ_cons, map_cons, mem_cons, not_or] at hk
    rw [others_cons_of_ne (Ne.symm hk.1)]
    cases n with
    | zero => simp
    | succ n => rw [take_succ_cons, take_succ_cons, ih hk.2]

lemma Holds.fetch {cap : ℕ} (hcap : 0 < cap) {c : Cache κ ν cap} (hc : Holds c h) (k : κ) (x : ν) :
    Holds (c.fetch k x).2 ((k, (c.fetch k x).1) :: h) := by
  obtain ⟨n, rfl⟩ := Nat.exists_eq_succ_of_ne_zero hcap.ne'
  unfold Holds at hc ⊢
  rw [recent_cons, take_succ_cons]
  unfold Cache.fetch Cache.get
  split <;> rename_i heq <;> split at heq <;> rename_i hfind <;> cases heq
  · -- hit: the entry moves to the front
    have hk := mem_map_of_mem (f := fst) (Cache.mem_of_find? hfind)
    rw [hc] at hk
    rw [take_others_of_mem (nodup_recent h) hk, ← hc]
  · -- miss: the computed value goes in front and the oldest entry falls out
    have hk := Cache.find?_eq_none_iff.mp hfind
    change ((k, x) :: others k c.entries).take (n + 1) = (k, x) :: (others k (recent h)).take n
    rw [others_eq_self hk, take_succ_cons, hc, take_take, Nat.min_eq_left (Nat.le_succ n),
      take_others_of_notMem (hc ▸ hk)]

lemma Holds.find?_eq_some_iff {cap : ℕ} {c : Cache κ ν cap} (hc : Holds c h) {v : ν} :
    Cache.find? k c.entries = some v ↔
      ∃ h₁ h₂, h = h₁ ++ (k, v) :: h₂ ∧ k ∉ h₁.map fst ∧
        (h₁.map fst).toFinset.card < cap := by
  rw [Cache.find?_eq_some_iff c.nodup, hc]
  constructor
  · intro hmem
    have hk := mem_map_of_mem (f := fst) (mem_of_mem_take hmem)
    obtain ⟨h₁, w, h₂, rfl, hk₁⟩ := exists_last_access (mem_keys_recent.mp hk)
    obtain ⟨rfl, hn⟩ := (mem_take_recent_iff hk₁).mp hmem
    exact ⟨h₁, h₂, rfl, hk₁, hn⟩
  · rintro ⟨h₁, h₂, rfl, hk₁, hn⟩
    exact (mem_take_recent_iff hk₁).mpr ⟨rfl, hn⟩

/-! ### A cache in front of a store -/

namespace Cache

variable {cap : ℕ} {c : Cache κ ν cap} {m : κ → Option ν}

/-- A removal. -/
def pop (k : κ) (c : Cache κ ν cap) : Cache κ ν cap where
  entries := others k c.entries
  nodup := nodup_others c.nodup k
  le_cap := (length_filter_le _ _).trans c.le_cap

variable {e : κ × ν}

lemma get_fst (k : κ) (c : Cache κ ν cap) : (c.get k).1 = find? k c.entries := by
  unfold get
  split <;> rename_i hfind <;> exact hfind.symm

lemma mem_of_mem_get (h : e ∈ (c.get k).2.entries) : e ∈ c.entries := by
  unfold get at h
  split at h
  · exact h
  · rename_i v hfind
    rcases mem_cons.mp h with rfl | h
    · exact mem_of_find? hfind
    · exact (mem_others.mp h).1

lemma mem_of_mem_put {v : ν} (h : e ∈ (c.put k v).entries) : e = (k, v) ∨ e ∈ c.entries := by
  rcases mem_cons.mp (mem_of_mem_take h) with rfl | h
  · exact .inl rfl
  · exact .inr (mem_others.mp h).1

lemma mem_of_mem_pop (h : e ∈ (c.pop k).entries) : e ∈ c.entries :=
  (mem_others.mp h).1

/-- The removal of all keys that meet `p`. -/
def popWhere (p : κ → Bool) (c : Cache κ ν cap) : Cache κ ν cap :=
  ((c.entries.map fst).filter p).foldl (fun c k => c.pop k) c

lemma mem_foldl_pop {ks : List κ} :
    e ∈ (ks.foldl (fun c k => c.pop k) c).entries ↔ e ∈ c.entries ∧ e.1 ∉ ks := by
  induction ks generalizing c with
  | nil => simp
  | cons k ks ih =>
    rw [foldl_cons, ih, mem_cons, not_or]
    exact ⟨fun ⟨h, hks⟩ => ⟨(mem_others.mp h).1, (mem_others.mp h).2, hks⟩,
      fun ⟨h, hk, hks⟩ => ⟨mem_others.mpr ⟨h, hk⟩, hks⟩⟩

lemma mem_popWhere {p : κ → Bool} : e ∈ (c.popWhere p).entries ↔ e ∈ c.entries ∧ ¬ p e.1 := by
  rw [popWhere, mem_foldl_pop, mem_filter]
  constructor
  · rintro ⟨h, hnot⟩
    exact ⟨h, fun hp => hnot ⟨mem_map_of_mem h, hp⟩⟩
  · rintro ⟨h, hp⟩
    exact ⟨h, fun hk => hp hk.2⟩

/-- Every entry agrees with `m`. -/
def Coherent (c : Cache κ ν cap) (m : κ → Option ν) : Prop := ∀ e ∈ c.entries, m e.1 = some e.2

omit [DecidableEq κ] in
lemma coherent_empty (cap : ℕ) (m : κ → Option ν) : (empty κ ν cap).Coherent m := fun e he => by
  cases he

lemma Coherent.get (h : c.Coherent m) (k : κ) : (c.get k).2.Coherent m := fun e he =>
  h e (mem_of_mem_get he)

lemma Coherent.of_hit (h : c.Coherent m) {v : ν} (hit : (c.get k).1 = some v) : m k = some v := by
  rw [get_fst] at hit
  exact h (k, v) (mem_of_find? hit)

lemma Coherent.put (h : c.Coherent m) (k : κ) (v : ν) :
    (c.put k v).Coherent (Function.update m k (some v)) := by
  intro e he
  rcases mem_cons.mp (mem_of_mem_take he) with rfl | he
  · exact Function.update_self k _ m
  · obtain ⟨hmem, hne⟩ := mem_others.mp he
    rw [Function.update_of_ne hne]
    exact h e hmem

lemma Coherent.fill (h : c.Coherent m) {v : ν} (hv : m k = some v) : (c.put k v).Coherent m := by
  have hput := h.put k v
  rwa [← hv, Function.update_eq_self] at hput

lemma Coherent.pop (h : c.Coherent m) (k : κ) : (c.pop k).Coherent (Function.update m k none) := by
  intro e he
  obtain ⟨hmem, hne⟩ := mem_others.mp he
  rw [Function.update_of_ne hne]
  exact h e hmem

end Cache

end Lru
