import Mathlib

/-!
# Hash trees

## Main definitions

* `HashTree.Scheme`: a hash, and what it is given for a leaf and for a node.
* `HashTree.Scheme.Separates`: no two inputs of two trees collide.

## Main results

* `HashTree.Scheme.leafInputs_eq`: trees of one root without a collision have the same leaves.
-/

namespace HashTree

open List

/-- A binary tree with values at its leaves. -/
inductive LeafTree (α : Type*) where
  | leaf (a : α)
  | node (left right : LeafTree α)
  deriving DecidableEq

variable {α β δ : Type*}

/-- The values from left to right. -/
def LeafTree.leaves : LeafTree α → List α
  | .leaf a => [a]
  | .node left right => left.leaves ++ right.leaves

/-- A hash function, and what it is given for a leaf and for a node. -/
structure Scheme (α β δ : Type*) where
  hash : β → δ
  leafInput : α → β
  nodeInput : δ → δ → β

namespace Scheme

variable (S : Scheme α β δ)

/-- The hash at the top. -/
def root : LeafTree α → δ
  | .leaf a => S.hash (S.leafInput a)
  | .node left right => S.hash (S.nodeInput (root left) (root right))

/-- All that is hashed on the way to the root. -/
def inputs : LeafTree α → List β
  | .leaf a => [S.leafInput a]
  | .node left right =>
    S.nodeInput (S.root left) (S.root right) :: (inputs left ++ inputs right)

/-- The hash tells the inputs of the two trees apart. -/
def Separates (t u : LeafTree α) : Prop :=
  ∀ x ∈ S.inputs t, ∀ y ∈ S.inputs u, S.hash x = S.hash y → x = y

variable {S}

lemma Separates.left {l r l' r' : LeafTree α} (h : S.Separates (.node l r) (.node l' r')) :
    S.Separates l l' := fun x hx y hy =>
  h x (mem_cons_of_mem _ (mem_append_left _ hx)) y
    (mem_cons_of_mem _ (mem_append_left _ hy))

lemma Separates.right {l r l' r' : LeafTree α} (h : S.Separates (.node l r) (.node l' r')) :
    S.Separates r r' := fun x hx y hy =>
  h x (mem_cons_of_mem _ (mem_append_right _ hx)) y
    (mem_cons_of_mem _ (mem_append_right _ hy))

lemma leafInputs_eq
    (hnode : ∀ l r l' r', S.nodeInput l r = S.nodeInput l' r' → l = l' ∧ r = r')
    (hapart : ∀ a l r, S.leafInput a ≠ S.nodeInput l r) {t u : LeafTree α} (hsep : S.Separates t u)
    (h : S.root t = S.root u) : t.leaves.map S.leafInput = u.leaves.map S.leafInput := by
  induction t generalizing u with
  | leaf a =>
    cases u with
    | leaf b =>
      have hinput := hsep _ mem_cons_self _ mem_cons_self h
      exact congrArg (fun x => [x]) hinput
    | node l r => exact absurd (hsep _ mem_cons_self _ mem_cons_self h) (hapart a _ _)
  | node l r ihl ihr =>
    cases u with
    | leaf b =>
      exact absurd (hsep _ mem_cons_self _ mem_cons_self h).symm (hapart b _ _)
    | node l' r' =>
      obtain ⟨hl, hr⟩ := hnode _ _ _ _ (hsep _ mem_cons_self _ mem_cons_self h)
      rw [LeafTree.leaves, LeafTree.leaves, map_append, map_append, ihl hsep.left hl,
        ihr hsep.right hr]

end Scheme

end HashTree
