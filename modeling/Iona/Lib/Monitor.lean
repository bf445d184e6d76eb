import Iona.Lib.Trace

/-!
# Threads that call operations under locks

## Main definitions

* `Monitor`: for each operation the locks it takes, in a fixed order, what it does once it has them,
  and the locks it takes once more before it lets go. Locks are not reentrant.
* `Monitor.step`: one thread takes a lock, acts, or returns.
* `Monitor.Refines`: the answers so far are those of one sequential order of the calls, the steps are
  bounded, and some thread can move until every call has returned.

## Main results

* `Monitor.refines`: a run refines its operations if none of them takes a lock once more.
-/

/-- The operations of an object behind locks. -/
structure Monitor (σ ο ρ : Type*) where
  guards : ο → List ℕ
  ordered : ∀ o, (guards o).Pairwise (· < ·)
  body : ο → σ → ρ × σ
  later : ο → ρ → List ℕ

namespace Monitor

open List

variable {σ ο ρ : Type*}

/-- How far a call has come. -/
inductive Phase (ρ : Type*) where
  | entering (taken : ℕ)
  | leaving (result : ρ) (later : List ℕ)

/-- The calls a thread has still to make, and those it has made. -/
structure Thread (ο ρ : Type*) where
  todo : List ο
  done : List (ο × ρ) := []
  phase : Phase ρ := .entering 0

/-- The object and its threads. -/
structure System (σ ο ρ : Type*) where
  state : σ
  threads : List (Thread ο ρ)

/-- No thread has begun. -/
def System.start (s : σ) (calls : List (List ο)) : System σ ο ρ where
  state := s
  threads := calls.map fun todo => { todo := todo }

/-- The calls that have acted, with their answers. -/
def Thread.answered : Thread ο ρ → List (ο × ρ)
  | ⟨o :: _, done, .leaving r _⟩ => done ++ [(o, r)]
  | ⟨_, done, _⟩ => done

variable (M : Monitor σ ο ρ)

/-- The locks a thread has. -/
def Thread.holds : Thread ο ρ → List ℕ
  | ⟨[], _, _⟩ => []
  | ⟨o :: _, _, .entering k⟩ => (M.guards o).take k
  | ⟨o :: _, _, .leaving _ _⟩ => M.guards o

/-- The call that acts next, if all its locks are taken. -/
def Thread.acting : Thread ο ρ → Option ο
  | ⟨o :: _, _, .entering k⟩ => if (M.guards o).length ≤ k then some o else none
  | _ => none

/-- No thread has the lock. -/
def System.free (w : System σ ο ρ) (lock : ℕ) : Bool :=
  w.threads.all fun th => decide (lock ∉ th.holds M)

/-- What a thread does next, if it can move. -/
def Thread.advance (free : ℕ → Bool) (s : σ) : Thread ο ρ → Option (Thread ο ρ × σ)
  | ⟨[], _, _⟩ => none
  | ⟨o :: todo, done, .entering k⟩ =>
    match (M.guards o)[k]? with
    | some lock => if free lock then some (⟨o :: todo, done, .entering (k + 1)⟩, s) else none
    | none =>
      let out := M.body o s
      some (⟨o :: todo, done, .leaving out.1 (M.later o out.1)⟩, out.2)
  | ⟨o :: todo, done, .leaving r (lock :: later)⟩ =>
    if free lock then some (⟨o :: todo, done, .leaving r later⟩, s) else none
  | ⟨o :: todo, done, .leaving r []⟩ => some (⟨todo, done ++ [(o, r)], .entering 0⟩, s)

/-- Thread `t` moves. -/
def step (w : System σ ο ρ) (t : ℕ) : Option (System σ ο ρ) :=
  w.threads[t]?.bind fun th => (th.advance M (w.free M) w.state).map fun out =>
    { state := out.2, threads := w.threads.set t out.1 }

/-! ### What a step does -/

/-- The moves of a thread. -/
inductive Moves (s : σ) : Thread ο ρ → Thread ο ρ → σ → Prop
  | takes {o : ο} {todo done k} (hk : k < (M.guards o).length) :
    Moves s ⟨o :: todo, done, .entering k⟩ ⟨o :: todo, done, .entering (k + 1)⟩ s
  | acts {o : ο} {todo done k} (hk : (M.guards o).length ≤ k) :
    Moves s ⟨o :: todo, done, .entering k⟩
      ⟨o :: todo, done, .leaving (M.body o s).1 (M.later o (M.body o s).1)⟩ (M.body o s).2
  | passes {o : ο} {todo done r lock later} :
    Moves s ⟨o :: todo, done, .leaving r (lock :: later)⟩ ⟨o :: todo, done, .leaving r later⟩ s
  | returns {o : ο} {todo done r} :
    Moves s ⟨o :: todo, done, .leaving r []⟩ ⟨todo, done ++ [(o, r)], .entering 0⟩ s

variable {M}

variable {t : ℕ} {th th' : Thread ο ρ} {w w' : System σ ο ρ} {free : ℕ → Bool}

lemma Thread.advance_moves {s s' : σ} (h : th.advance M free s = some (th', s')) :
    Moves M s th th' s' := by
  obtain ⟨todo, done, phase⟩ := th
  cases todo with
  | nil => cases h
  | cons o todo =>
    cases phase with
    | entering k =>
      simp only [Thread.advance] at h
      split at h
      · rename_i lock hlock
        split at h
        · cases h
          exact .takes (List.getElem?_eq_some_iff.mp hlock).1
        · cases h
      · rename_i hlock
        cases h
        exact .acts (List.getElem?_eq_none_iff.mp hlock)
    | leaving r later =>
      cases later with
      | nil =>
        cases h
        exact .returns
      | cons lock later =>
        simp only [Thread.advance] at h
        split at h
        · cases h
          exact .passes
        · cases h

lemma step_moves (h : M.step w t = some w') :
    ∃ th th' s', w.threads[t]? = some th ∧ w' = ⟨s', w.threads.set t th'⟩ ∧
      Moves M w.state th th' s' := by
  obtain ⟨th, hth, h⟩ := Option.bind_eq_some_iff.mp h
  obtain ⟨⟨th', s'⟩, hout, rfl⟩ := Option.map_eq_some_iff.mp h
  exact ⟨th, th', s', hth, rfl, Thread.advance_moves hout⟩

/-! ### A sequential order -/

variable (M) in
/-- A sequential run of operations. -/
inductive Serial (s₀ : σ) : List (ℕ × ο × ρ) → σ → Prop
  | nil : Serial s₀ [] s₀
  | snoc {log s} (t : ℕ) (o : ο) (h : Serial s₀ log s) :
    Serial s₀ (log ++ [(t, o, (M.body o s).1)]) (M.body o s).2

/-- The part of a sequential run that one thread made. -/
def byThread (t : ℕ) (log : List (ℕ × ο × ρ)) : List (ο × ρ) :=
  (log.filter fun e => e.1 = t).map Prod.snd

lemma byThread_snoc_self (t : ℕ) (e : ο × ρ) (log : List (ℕ × ο × ρ)) :
    byThread t (log ++ [(t, e)]) = byThread t log ++ [e] := by
  simp [byThread]

lemma byThread_snoc_of_ne {t' : ℕ} (h : t ≠ t') (e : ο × ρ) (log : List (ℕ × ο × ρ)) :
    byThread t' (log ++ [(t, e)]) = byThread t' log := by
  simp [byThread, h]

variable (M) in
/-- A sequential order of the calls that explains all answers. -/
def Explained (s₀ : σ) (w : System σ ο ρ) : Prop :=
  ∃ log, Serial M s₀ log w.state ∧
    ∀ t th, w.threads[t]? = some th → byThread t log = th.answered

lemma step_explained {s₀ : σ} (hw : Explained M s₀ w) (h : M.step w t = some w') :
    Explained M s₀ w' := by
  obtain ⟨log, hserial, hlog⟩ := hw
  obtain ⟨th, th', s', hth, rfl, hmoves⟩ := step_moves h
  obtain ⟨ht, -⟩ := List.getElem?_eq_some_iff.mp hth
  -- the other threads are as they were
  have hothers : ∀ log', (∀ t', t ≠ t' → byThread t' log' = byThread t' log) →
      byThread t log' = th'.answered →
      ∀ t₁ th₁, (w.threads.set t th')[t₁]? = some th₁ → byThread t₁ log' = th₁.answered := by
    intro log' hkept hself t₁ th₁ hth₁
    by_cases heq : t = t₁
    · subst heq
      rw [getElem?_set_self ht] at hth₁
      cases hth₁
      exact hself
    · rw [getElem?_set_ne heq] at hth₁
      rw [hkept t₁ heq]
      exact hlog t₁ th₁ hth₁
  have hanswered := hlog t th hth
  cases hmoves with
  | takes _ => exact ⟨log, hserial, hothers log (fun _ _ => rfl) hanswered⟩
  | @acts o =>
    refine ⟨_, hserial.snoc t o, hothers _ (fun t' ht' => byThread_snoc_of_ne ht' _ log) ?_⟩
    rw [byThread_snoc_self, hanswered]
    rfl
  | passes => exact ⟨log, hserial, hothers log (fun _ _ => rfl) hanswered⟩
  | returns =>
    refine ⟨log, hserial, hothers log (fun _ _ => rfl) (hanswered.trans ?_)⟩
    rename_i todo _ _
    cases todo <;> rfl

/-- All calls of a thread. -/
def Thread.calls (th : Thread ο ρ) : List ο := th.done.map Prod.fst ++ th.todo

lemma step_calls (h : M.step w t = some w') :
    w'.threads.map Thread.calls = w.threads.map Thread.calls := by
  obtain ⟨th, th', s', hth, rfl, hmoves⟩ := step_moves h
  obtain ⟨ht, rfl⟩ := List.getElem?_eq_some_iff.mp hth
  have hsame : th'.calls = (w.threads[t]).calls := by
    generalize w.threads[t] = th at hmoves
    cases hmoves <;> simp [Thread.calls]
  rw [map_set, hsame, ← getElem_map Thread.calls, set_getElem_self]
  simpa using ht

/-! ### Every call returns -/

variable (M) in
/-- The moves a call takes. -/
def cost (o : ο) : ℕ := (M.guards o).length + 2

variable (M) in
/-- The moves a thread has left. -/
def Thread.left : Thread ο ρ → ℕ
  | ⟨[], _, _⟩ => 0
  | ⟨o :: todo, _, .entering k⟩ => (M.guards o).length - k + 2 + (todo.map M.cost).sum
  | ⟨_ :: todo, _, .leaving _ later⟩ => later.length + 1 + (todo.map M.cost).sum

variable (M) in
/-- The moves all threads have left. -/
def System.left (w : System σ ο ρ) : ℕ := (w.threads.map (Thread.left M)).sum

lemma Thread.left_fresh (todo : List ο) (done : List (ο × ρ)) :
    Thread.left M ⟨todo, done, .entering 0⟩ = (todo.map M.cost).sum := by
  cases todo <;> simp [Thread.left, cost]

variable (M) in
/-- If thread `t` acts now, its call meets `C` in this state. -/
def Acts (C : σ → ο → Prop) (w : System σ ο ρ) (t : ℕ) : Prop :=
  ∀ th ∈ w.threads[t]?, ∀ o ∈ th.acting M, C w.state o

variable (M) in
/-- The call takes no lock once more. -/
def Leaves (s : σ) (o : ο) : Prop := M.later o (M.body o s).1 = []

lemma Moves.left {s s' : σ} (h : Moves M s th th' s') (hcalm : ∀ o ∈ th.acting M, Leaves M s o) :
    th'.left M + 1 = th.left M := by
  cases h with
  | takes hk =>
    simp only [Thread.left]
    omega
  | acts hk =>
    have hlater : M.later _ (M.body _ s).1 = [] := hcalm _ (if_pos hk)
    simp only [Thread.left, hlater, length_nil]
    omega
  | passes => simp only [Thread.left, length_cons]; omega
  | returns =>
    rw [Thread.left_fresh]
    simp only [Thread.left, length_nil]
    omega

lemma sum_set_add {l : List ℕ} (ht : t < l.length) (n : ℕ) :
    (l.set t n).sum + l[t] = l.sum + n := by
  induction l generalizing t with
  | nil => cases ht
  | cons a l ih =>
    cases t with
    | zero =>
      simp only [set_cons_zero, sum_cons, getElem_cons_zero]
      omega
    | succ t =>
      have hrest := ih (Nat.lt_of_succ_lt_succ ht)
      simp only [set_cons_succ, sum_cons, getElem_cons_succ]
      omega

lemma step_left (hcalm : Acts M (Leaves M) w t) (h : M.step w t = some w') :
    w'.left M + 1 = w.left M := by
  obtain ⟨th, th', s', hth, rfl, hmoves⟩ := step_moves h
  have hone := hmoves.left (hcalm th hth)
  obtain ⟨ht, rfl⟩ := List.getElem?_eq_some_iff.mp hth
  have hsum := sum_set_add (l := w.threads.map (Thread.left M)) (by simpa using ht) (th'.left M)
  rw [getElem_map] at hsum
  simp only [System.left, map_set]
  omega

/-- The thread is not about to take a lock once more. -/
def Thread.Clear (th : Thread ο ρ) : Prop := ∀ r later, th.phase = .leaving r later → later = []

lemma step_clear (hw : ∀ th ∈ w.threads, th.Clear) (hcalm : Acts M (Leaves M) w t)
    (h : M.step w t = some w') : ∀ th ∈ w'.threads, th.Clear := by
  obtain ⟨th, th', s', hth, rfl, hmoves⟩ := step_moves h
  intro th₁ hth₁
  obtain hold | rfl := mem_or_eq_of_mem_set hth₁
  · exact hw th₁ hold
  have hclear := hw th (mem_of_getElem? hth)
  cases hmoves with
  | takes _ => rintro r later ⟨⟩
  | acts hk =>
    rintro r later ⟨⟩
    exact hcalm _ hth _ (if_pos hk)
  | passes => cases hclear _ _ rfl
  | returns => rintro r later ⟨⟩

variable (M) in
/-- The lock a thread asks for. -/
def Thread.awaits : Thread ο ρ → Option ℕ
  | ⟨o :: _, _, .entering k⟩ => (M.guards o)[k]?
  | _ => none

lemma Thread.awaits_of_advance {s : σ} (hclear : th.Clear) (htodo : th.todo ≠ [])
    (h : th.advance M free s = none) : ∃ lock, th.awaits M = some lock ∧ free lock = false := by
  obtain ⟨todo, done, phase⟩ := th
  cases todo with
  | nil => exact absurd rfl htodo
  | cons o todo =>
    cases phase with
    | entering k =>
      simp only [Thread.advance] at h
      split at h
      · rename_i lock hlock
        split at h
        · cases h
        · exact ⟨lock, hlock, by simpa using ‹¬ free lock = true›⟩
      · cases h
    | leaving r later =>
      cases hclear r later rfl
      cases h

lemma Thread.lt_awaits {held lock : ℕ} (hheld : held ∈ th.holds M) (h : th.awaits M = some lock) :
    held < lock := by
  obtain ⟨todo, done, phase⟩ := th
  cases todo with
  | nil => cases h
  | cons o todo =>
    cases phase with
    | leaving r later => cases h
    | entering k =>
      obtain ⟨i, hi, rfl⟩ := mem_take_iff_getElem.mp hheld
      obtain ⟨hk, rfl⟩ := List.getElem?_eq_some_iff.mp h
      exact pairwise_iff_getElem.mp (M.ordered o) i k _ hk (by omega)

lemma Thread.todo_ne_nil {lock : ℕ} (h : lock ∈ th.holds M) : th.todo ≠ [] := by
  rintro hnil
  obtain ⟨todo, done, phase⟩ := th
  cases hnil
  cases h

lemma exists_step (hclear : ∀ th ∈ w.threads, th.Clear) (htodo : ∃ th ∈ w.threads, th.todo ≠ []) :
    ∃ t w', M.step w t = some w' := by
  by_contra hstuck
  push Not at hstuck
  have hwaits : ∀ th ∈ w.threads, th.todo ≠ [] →
      ∃ lock, th.awaits M = some lock ∧ w.free M lock = false := by
    intro th hth hne
    obtain ⟨t, ht⟩ := getElem?_of_mem hth
    refine Thread.awaits_of_advance (s := w.state) (hclear th hth) hne ?_
    by_contra hsome
    obtain ⟨out, hout⟩ := Option.ne_none_iff_exists'.mp hsome
    refine hstuck t { state := out.2, threads := w.threads.set t out.1 } ?_
    rw [step, ht, Option.bind_some, hout]
    rfl
  -- whoever holds the awaited lock waits for a higher one
  have hhigher : ∀ lock ∈ w.threads.filterMap (Thread.awaits M),
      ∃ lock' ∈ w.threads.filterMap (Thread.awaits M), lock < lock' := by
    intro lock hlock
    obtain ⟨th, hth, hawaits⟩ := mem_filterMap.mp hlock
    have hne : th.todo ≠ [] := by
      rintro hnil
      obtain ⟨todo, done, phase⟩ := th
      cases hnil
      cases hawaits
    obtain ⟨lock₁, hlock₁, htaken⟩ := hwaits th hth hne
    rw [hawaits] at hlock₁
    cases hlock₁
    obtain ⟨holder, hholder, hholds⟩ : ∃ holder ∈ w.threads, lock ∈ holder.holds M := by
      simpa [System.free] using htaken
    obtain ⟨lock', hlock', -⟩ := hwaits holder hholder (Thread.todo_ne_nil hholds)
    exact ⟨lock', mem_filterMap.mpr ⟨holder, hholder, hlock'⟩,
      Thread.lt_awaits hholds hlock'⟩
  obtain ⟨th, hth, hne⟩ := htodo
  obtain ⟨lock, hlock, -⟩ := hwaits th hth hne
  have hmem := mem_filterMap.mpr ⟨th, hth, hlock⟩
  obtain ⟨top, htop⟩ := Option.ne_none_iff_exists'.mp
    (mt argmax_eq_none.mp (ne_nil_of_mem hmem) :
      (w.threads.filterMap (Thread.awaits M)).argmax id ≠ none)
  obtain ⟨above, habove, hlt⟩ := hhigher top (argmax_mem htop)
  exact absurd (le_of_mem_argmax habove htop) (Nat.not_le.mpr hlt)

/-! ### Runs -/

variable (M) in
/-- The calls refine their operations, and complete. -/
structure Refines (s₀ : σ) (calls : List (List ο)) (steps : ℕ) (w : System σ ο ρ) : Prop where
  explained : Explained M s₀ w
  calls_eq : w.threads.map Thread.calls = calls
  bounded : steps + w.left M = (calls.map fun todo => (todo.map M.cost).sum).sum
  progress : (∃ th ∈ w.threads, th.todo ≠ []) → ∃ t w', M.step w t = some w'

lemma refines {s₀ : σ} {calls : List (List ο)} {ts : List ℕ}
    (hcalm : Trace.Along M.step (Acts M (Leaves M)) (.start s₀ calls) ts)
    (h : Trace.run M.step (.start s₀ calls) ts = some w) : Refines M s₀ calls ts.length w := by
  refine (Trace.run_history (P := fun ts w =>
    (∀ th ∈ w.threads, th.Clear) ∧ Refines M s₀ calls ts.length w) ?_ ?_ hcalm h).2
  · have hclear : ∀ th ∈ (System.start (ρ := ρ) s₀ calls).threads, th.Clear := by
      intro th hth r later hphase
      obtain ⟨todo, -, rfl⟩ := mem_map.mp hth
      cases hphase
    refine ⟨hclear, ⟨[], .nil, fun t th hth => ?_⟩, ?_, ?_, exists_step hclear⟩
    · obtain ⟨todo, -, rfl⟩ := mem_map.mp (mem_of_getElem? hth)
      cases todo <;> rfl
    · simp [System.start, Function.comp_def, Thread.calls]
    · simp [System.start, System.left, Function.comp_def, Thread.left_fresh]
  · rintro pre w t w' ⟨hclear, hw⟩ hcalm hstep
    have hclear' := step_clear hclear hcalm hstep
    refine ⟨hclear', step_explained hw.explained hstep, (step_calls hstep).trans hw.calls_eq, ?_,
      exists_step hclear'⟩
    have hleft := step_left hcalm hstep
    have hbound := hw.bounded
    rw [length_append, length_singleton]
    omega

end Monitor
