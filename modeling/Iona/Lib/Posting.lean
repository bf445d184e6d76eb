import Mathlib

/-! # Posting lists -/

namespace Posting

variable {κ α ε : Type*} [DecidableEq κ]

/-- The entry appended to the list of each of its keys. -/
def post (index : κ → List ε) (keys : List κ) (entry : ε) : κ → List ε :=
  keys.foldl (fun index k => Function.update index k (index k ++ [entry])) index

/-- All values posted in turn. -/
def postAll (keys : α → List κ) (entry : α → ε) (index : κ → List ε) (xs : List α) : κ → List ε :=
  xs.foldl (fun index x => post index (keys x) (entry x)) index

/-- The entries of the values that have the key. -/
def hits (keys : α → List κ) (entry : α → ε) (xs : List α) (k : κ) : List ε :=
  xs.flatMap fun x => List.replicate ((keys x).count k) (entry x)

lemma post_apply (index : κ → List ε) (keys : List κ) (entry : ε) (k : κ) :
    post index keys entry k = index k ++ List.replicate (keys.count k) entry := by
  induction keys generalizing index with
  | nil => simp [post]
  | cons k' keys ih =>
    have hstep : post index (k' :: keys) entry =
        post (Function.update index k' (index k' ++ [entry])) keys entry := rfl
    rw [hstep, ih, List.count_cons]
    by_cases hk : k' = k
    · subst hk
      simp [List.replicate_succ]
    · simp [hk, Function.update_of_ne (Ne.symm hk)]

lemma postAll_apply (keys : α → List κ) (entry : α → ε) (index : κ → List ε) (xs : List α) (k : κ) :
    postAll keys entry index xs k = index k ++ hits keys entry xs k := by
  induction xs generalizing index with
  | nil => simp [postAll, hits]
  | cons x xs ih =>
    have hstep : postAll keys entry index (x :: xs) =
        postAll keys entry (post index (keys x) (entry x)) xs := rfl
    rw [hstep, ih, post_apply, List.append_assoc]
    rfl

lemma hits_append (keys : α → List κ) (entry : α → ε) (xs ys : List α) (k : κ) :
    hits keys entry (xs ++ ys) k = hits keys entry xs k ++ hits keys entry ys k :=
  List.flatMap_append

lemma hits_eq_filter {keys : α → List κ} {xs : List α} {k : κ}
    (h : ∀ x ∈ xs, (keys x).count k ≤ 1) (entry : α → ε) :
    hits keys entry xs k = (xs.filter fun x => decide (k ∈ keys x)).map entry := by
  induction xs with
  | nil => rfl
  | cons x xs ih =>
    have htail := ih fun y hy => h y (List.mem_cons_of_mem x hy)
    have hcons : hits keys entry (x :: xs) k =
        List.replicate ((keys x).count k) (entry x) ++ hits keys entry xs k := rfl
    rw [hcons, htail]
    by_cases hk : k ∈ keys x
    · have hone : (keys x).count k = 1 :=
        le_antisymm (h x List.mem_cons_self) (List.count_pos_iff.mpr hk)
      simp [hone, hk]
    · simp [List.count_eq_zero.mpr hk, hk]

end Posting
