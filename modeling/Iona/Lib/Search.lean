import Mathlib

/-! # Breadth-first search for a path -/

namespace Search

open List

variable {α : Type*}

/-- The nodes that have been reached. -/
def seen (links : List (α × α)) : List α := links.map Prod.fst

variable {links : List (α × α)} {new queue : List α}

@[simp] lemma seen_cons (l : α × α) (links : List (α × α)) : seen (l :: links) = l.1 :: seen links :=
  rfl

variable [DecidableEq α] (adj : α → List α) (target : α)

/-- The neighbours of `x` that are new are linked to it and queued. -/
def visit (x : α) : List α → List (α × α) → List (α × α) × List α
  | [], links => (links, [])
  | n :: ns, links =>
    if n ∈ seen links then visit x ns links
    else if n = target then ((n, x) :: links, [])
    else
      let later := visit x ns ((n, x) :: links)
      (later.1, n :: later.2)

/-- The search until the queue is empty or the fuel is used up. -/
def search : ℕ → List α → List (α × α) → List (α × α)
  | 0, _, links => links
  | _, [], links => links
  | fuel + 1, x :: queue, links =>
    let visited := visit target x (adj x) links
    if target ∈ seen visited.1 then visited.1 else search fuel (queue ++ visited.2) visited.1

lemma search_cons (fuel : ℕ) (x : α) (queue : List α) (links : List (α × α)) :
    search adj target (fuel + 1) (x :: queue) links =
      if target ∈ seen (visit target x (adj x) links).1 then (visit target x (adj x) links).1
      else search adj target fuel (queue ++ (visit target x (adj x) links).2)
        (visit target x (adj x) links).1 := rfl

/-- The way back along the links. -/
def backtrack (source : α) : List (α × α) → α → List α
  | [], node => [node]
  | (n, p) :: links, node =>
    if node = source then [node]
    else if n = node then node :: backtrack source links p
    else backtrack source links node

/-- The edges of the path that was found. -/
def findPath (fuel : ℕ) (source : α) : Option (List (α × α)) :=
  if source = target then some []
  else
    let links := search adj target fuel [source] [(source, source)]
    if target ∈ seen links then
      let nodes := (backtrack source links target).reverse
      some (nodes.zip nodes.tail)
    else none

variable {adj target} {source : α}

lemma visit_spec (target x : α) (ns : List α) (links : List (α × α)) :
    ∃ new, (visit target x ns links).1 = (new.map fun n => (n, x)).reverse ++ links ∧
      (visit target x ns links).2.Sublist new ∧ new.Nodup ∧
      (∀ n ∈ new, n ∈ ns ∧ n ∉ seen links) := by
  induction ns generalizing links with
  | nil => exact ⟨[], rfl, List.Sublist.refl _, nodup_nil, nofun⟩
  | cons n ns ih =>
    unfold visit
    split
    · obtain ⟨new, hlinks, hqueue, hnodup, hnew⟩ := ih links
      exact ⟨new, hlinks, hqueue, hnodup, fun m hm =>
        ⟨mem_cons_of_mem n (hnew m hm).1, (hnew m hm).2⟩⟩
    · rename_i hunseen
      split
      · refine ⟨[n], rfl, nil_sublist _, nodup_singleton n, fun m hm => ?_⟩
        obtain rfl := mem_singleton.mp hm
        exact ⟨mem_cons_self, hunseen⟩
      · obtain ⟨new, hlinks, hqueue, hnodup, hnew⟩ := ih ((n, x) :: links)
        have hn : n ∉ new := fun hn => (hnew n hn).2 mem_cons_self
        refine ⟨n :: new, ?_, hqueue.cons_cons n, nodup_cons.mpr ⟨hn, hnodup⟩, fun m hm => ?_⟩
        · simp [hlinks]
        · rcases mem_cons.mp hm with rfl | hm
          · exact ⟨mem_cons_self, hunseen⟩
          · exact ⟨mem_cons_of_mem n (hnew m hm).1,
              fun hseen => (hnew m hm).2 (mem_cons_of_mem _ hseen)⟩

omit [DecidableEq α] in
lemma seen_visited {x : α} {y : α} :
    y ∈ seen ((new.map fun n => (n, x)).reverse ++ links) ↔ y ∈ new ∨ y ∈ seen links := by
  simp [seen]

/-! ### Links lead back along edges -/

variable (adj) in
/-- Links that lead back to the source. -/
inductive Linked (source : α) : List (α × α) → Prop
  | source : Linked source [(source, source)]
  | link {links : List (α × α)} {n p : α} (h : Linked source links) (hp : p ∈ seen links)
      (hn : n ∈ adj p) : Linked source ((n, p) :: links)

omit [DecidableEq α] in
lemma Linked.visited {x : α} (h : Linked adj source links) (hx : x ∈ seen links)
    (hnew : ∀ n ∈ new, n ∈ adj x) :
    Linked adj source ((new.map fun n => (n, x)).reverse ++ links) := by
  induction new generalizing links with
  | nil => exact h
  | cons n new ih =>
    have hlink : Linked adj source ((n, x) :: links) := h.link hx (hnew n mem_cons_self)
    have hrest := ih hlink (mem_cons_of_mem _ hx) fun m hm =>
      hnew m (mem_cons_of_mem n hm)
    simpa using hrest

lemma search_linked {fuel : ℕ} (h : Linked adj source links)
    (hqueue : ∀ x ∈ queue, x ∈ seen links) :
    Linked adj source (search adj target fuel queue links) := by
  induction fuel generalizing queue links with
  | zero => exact h
  | succ fuel ih =>
    cases queue with
    | nil => exact h
    | cons x queue =>
      obtain ⟨new, hlinks, hsub, -, hnew⟩ := visit_spec target x (adj x) links
      have hlinked := h.visited (hqueue x mem_cons_self) fun n hn => (hnew n hn).1
      rw [← hlinks] at hlinked
      rw [search_cons]
      split
      · exact hlinked
      · refine ih hlinked fun y hy => ?_
        rw [hlinks, seen_visited]
        rcases mem_append.mp hy with hy | hy
        · exact .inr (hqueue y (mem_cons_of_mem x hy))
        · exact .inl (hsub.subset hy)

lemma backtrack_spec (h : Linked adj source links) {node : α} (hnode : node ∈ seen links) :
    (backtrack source links node).head? = some node ∧
      (backtrack source links node).getLast? = some source ∧
      (backtrack source links node).IsChain fun a b => a ∈ adj b := by
  induction h generalizing node with
  | source =>
    obtain rfl := mem_singleton.mp hnode
    simp [backtrack]
  | @link links n p hlinks hp hn ih =>
    unfold backtrack
    split
    · rename_i heq
      simp [heq]
    · split
      · rename_i heq
        subst heq
        obtain ⟨hhead, hlast, hchain⟩ := ih hp
        cases hback : backtrack source links p with
        | nil =>
          rw [hback] at hhead
          cases hhead
        | cons q nodes =>
          rw [hback] at hhead hlast hchain
          obtain rfl : q = p := Option.some.inj hhead
          exact ⟨rfl, by simpa using hlast, isChain_cons_cons.mpr ⟨hn, hchain⟩⟩
      · rename_i hne
        exact ih ((mem_cons.mp hnode).resolve_left fun heq => hne heq.symm)

lemma findPath_spec {fuel : ℕ} {path : List (α × α)} (h : findPath adj target fuel source = some path) :
    ∃ nodes : List α, path = nodes.zip nodes.tail ∧ nodes.head? = some source ∧
      nodes.getLast? = some target ∧ nodes.IsChain fun a b => b ∈ adj a := by
  unfold findPath at h
  split at h
  · rename_i heq
    cases h
    exact ⟨[source], rfl, rfl, by simp [heq], isChain_singleton source⟩
  · simp only at h
    split at h
    · rename_i hfound
      cases h
      have hlinked : Linked adj source (search adj target fuel [source] [(source, source)]) :=
        search_linked .source (by simp [seen])
      obtain ⟨hhead, hlast, hchain⟩ := backtrack_spec hlinked hfound
      exact ⟨_, rfl, by rw [head?_reverse, hlast], by rw [getLast?_reverse, hhead],
        isChain_reverse.mpr hchain⟩
    · cases h

/-! ### Fuel -/

/-- The nodes that have not been reached. -/
def unseen (nodes : Finset α) (links : List (α × α)) : Finset α := nodes.filter fun n => n ∉ seen links

lemma card_unseen_visited {nodes : Finset α} {x : α} (hnodup : new.Nodup)
    (hnew : ∀ n ∈ new, n ∈ nodes ∧ n ∉ seen links) :
    (unseen nodes ((new.map fun n => (n, x)).reverse ++ links)).card + new.length ≤
      (unseen nodes links).card := by
  rw [← toFinset_card_of_nodup hnodup, ← Finset.card_union_of_disjoint]
  · refine Finset.card_le_card fun n hn => ?_
    simp only [unseen, Finset.mem_union, Finset.mem_filter, seen_visited, mem_toFinset] at hn ⊢
    rcases hn with ⟨hmem, hfresh⟩ | hn
    · exact ⟨hmem, fun hseen => hfresh (.inr hseen)⟩
    · exact hnew n hn
  · refine Finset.disjoint_left.mpr fun n hn hmem => ?_
    exact (Finset.mem_filter.mp hn).2 (seen_visited.mpr (.inl (mem_toFinset.mp hmem)))

lemma search_fuel {nodes : Finset α} (hadj : ∀ x, ∀ n ∈ adj x, n ∈ nodes) {fuel fuel' : ℕ}
    (h : queue.length + (unseen nodes links).card ≤ fuel)
    (h' : queue.length + (unseen nodes links).card ≤ fuel') :
    search adj target fuel queue links = search adj target fuel' queue links := by
  induction fuel generalizing fuel' queue links with
  | zero =>
    obtain rfl : queue = [] := length_eq_zero_iff.mp (by omega)
    cases fuel' <;> rfl
  | succ fuel ih =>
    cases queue with
    | nil => cases fuel' <;> rfl
    | cons x queue =>
      cases fuel' with
      | zero => simp at h'
      | succ fuel' =>
        obtain ⟨new, hlinks, hsub, hnodup, hnew⟩ := visit_spec target x (adj x) links
        have hcard : (unseen nodes ((new.map fun n => (n, x)).reverse ++ links)).card + new.length ≤
            (unseen nodes links).card :=
          card_unseen_visited hnodup fun n hn => ⟨hadj x n (hnew n hn).1, (hnew n hn).2⟩
        have hqueued := hsub.length_le
        rw [← hlinks] at hcard
        simp only [length_cons] at h h'
        rw [search_cons, search_cons]
        split
        · rfl
        · exact ih (by rw [length_append]; omega) (by rw [length_append]; omega)

end Search
