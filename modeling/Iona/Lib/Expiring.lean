import Iona.Lib.Lru

/-! # Caches whose entries expire -/

namespace Expiring

open Lru

variable {κ ν : Type*} [DecidableEq κ] {cap : ℕ}

/-- A cache whose entries have an instant at which they expire. -/
abbrev Cache (κ ν : Type*) (cap : ℕ) := Lru.Cache κ (ν × ℕ) cap

/-- A look-up at instant `now`: an entry that has expired is dropped. -/
def lookup (k : κ) (now : ℕ) (c : Cache κ ν cap) : Option ν × Cache κ ν cap :=
  match c.get k with
  | (some (v, expires), c) => if now < expires then (some v, c) else (none, c.pop k)
  | (none, c) => (none, c)

variable {k : κ} {now : ℕ} {c : Cache κ ν cap}

lemma exists_of_lookup {v : ν} (h : (lookup k now c).1 = some v) :
    ∃ expires, (k, v, expires) ∈ c.entries ∧ now < expires := by
  unfold lookup at h
  have hfst := c.get_fst k
  split at h
  · rename_i w expires c' hget
    rw [hget] at hfst
    split at h
    · rename_i hlive
      obtain rfl : w = v := Option.some.inj h
      exact ⟨expires, Cache.mem_of_find? hfst.symm, hlive⟩
    · cases h
  · cases h

lemma mem_of_mem_lookup {e : κ × ν × ℕ} (h : e ∈ (lookup k now c).2.entries) : e ∈ c.entries := by
  unfold lookup at h
  have hmem : ∀ e ∈ (c.get k).2.entries, e ∈ c.entries := fun e => Cache.mem_of_mem_get
  split at h
  · rename_i w expires c' hget
    rw [hget] at hmem
    split at h
    · exact hmem e h
    · exact hmem e (Cache.mem_of_mem_pop h)
  · rename_i c' hget
    rw [hget] at hmem
    exact hmem e h

lemma lookup_put (hcap : 0 < cap) {v : ν} {expires : ℕ} (hlive : now < expires)
    (c : Cache κ ν cap) : (lookup k now (c.put k (v, expires))).1 = some v := by
  obtain ⟨n, rfl⟩ := Nat.exists_eq_succ_of_ne_zero hcap.ne'
  have hfind : ((c.put k (v, expires)).get k).1 = some (v, expires) := by
    rw [Cache.get_fst]
    simp [Cache.put, Cache.find?]
  unfold lookup
  split
  · rename_i w expires' c' hget
    rw [hget] at hfind
    cases hfind
    rw [if_pos hlive]
  · rename_i c' hget
    rw [hget] at hfind
    cases hfind

lemma lookup_pop (k : κ) (now : ℕ) (c : Cache κ ν cap) : (lookup k now (c.pop k)).1 = none := by
  rcases hres : (lookup k now (c.pop k)).1 with _ | v
  · rfl
  · obtain ⟨expires, hmem, -⟩ := exists_of_lookup hres
    exact absurd rfl (mem_others.mp hmem).2

/-! ### The entries that count -/

/-- All entries that still count at `now` satisfy `P`. -/
def Live (P : κ → ν → Prop) (now : ℕ) (c : Cache κ ν cap) : Prop :=
  ∀ e ∈ c.entries, now < e.2.2 → P e.1 e.2.1

namespace Live

variable {P Q : κ → ν → Prop}

omit [DecidableEq κ] in
lemma empty (now : ℕ) : Live P now (Lru.Cache.empty κ (ν × ℕ) cap) := fun e he => by cases he

omit [DecidableEq κ] in
lemma later (h : Live P now c) {now' : ℕ} (hle : now ≤ now') : Live P now' c :=
  fun e he hlive => h e he (hle.trans_lt hlive)

omit [DecidableEq κ] in
lemma imp (h : Live P now c) (hPQ : ∀ k v, P k v → Q k v) : Live Q now c :=
  fun e he hlive => hPQ _ _ (h e he hlive)

lemma of_hit (h : Live P now c) {v : ν} (hit : (lookup k now c).1 = some v) : P k v := by
  obtain ⟨expires, hmem, hlive⟩ := exists_of_lookup hit
  exact h (k, v, expires) hmem hlive

lemma lookup (h : Live P now c) (k : κ) (now' : ℕ) : Live P now (lookup k now' c).2 :=
  fun e he hlive => h e (mem_of_mem_lookup he) hlive

lemma put (h : Live P now c) {v : ν} {expires : ℕ} (hnew : now < expires → P k v) :
    Live P now (c.put k (v, expires)) := by
  intro e he hlive
  rcases Cache.mem_of_mem_put he with rfl | he
  · exact hnew hlive
  · exact h e he hlive

lemma pop (h : Live P now c) (hPQ : ∀ k' v, k' ≠ k → P k' v → Q k' v) : Live Q now (c.pop k) := by
  intro e he hlive
  obtain ⟨hmem, hne⟩ := mem_others.mp he
  exact hPQ _ _ hne (h e hmem hlive)

lemma popWhere (h : Live P now c) {p : κ → Bool} (hPQ : ∀ k' v, ¬ p k' → P k' v → Q k' v) :
    Live Q now (c.popWhere p) := by
  intro e he hlive
  obtain ⟨hmem, hp⟩ := Cache.mem_popWhere.mp he
  exact hPQ _ _ hp (h e hmem hlive)

end Live

end Expiring
