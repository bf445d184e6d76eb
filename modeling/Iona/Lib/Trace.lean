import Mathlib

/-!
# Runs of a machine that may stop

## Main definitions

* `Trace.run`: a list of inputs fed to a step function; `none` once a step gives none.
* `Trace.Along`: a condition that holds at every step of a run that is reached.

## Main results

* `Trace.run_invariant`: what one step keeps, a run keeps.
* `Trace.run_history`: the same for a property of the inputs so far and the state, where the steps
  meet a condition.
-/

namespace Trace

variable {σ α : Type*} (step : σ → α → Option σ)

/-- The state after the inputs. -/
def run : σ → List α → Option σ
  | s, [] => some s
  | s, a :: as => (step s a).bind fun s => run s as

variable {as bs : List α} {s s' : σ}

@[simp] lemma run_nil (s : σ) : run step s [] = some s := rfl

lemma run_cons (s : σ) (a : α) (as : List α) :
    run step s (a :: as) = (step s a).bind fun s => run step s as := rfl

lemma run_append (s : σ) (as bs : List α) :
    run step s (as ++ bs) = (run step s as).bind fun s => run step s bs := by
  induction as generalizing s with
  | nil => rfl
  | cons a as ih =>
    rw [List.cons_append, run_cons, run_cons]
    cases step s a with
    | none => rfl
    | some s' => exact ih s'

lemma run_snoc (s : σ) (as : List α) (a : α) :
    run step s (as ++ [a]) = (run step s as).bind fun s => step s a := by
  rw [run_append]
  refine congrArg _ (funext fun s' => ?_)
  rw [run_cons]
  cases step s' a <;> rfl

/-- Every input of the run meets `C` in the state it is given to. -/
def Along (C : σ → α → Prop) (s : σ) (as : List α) : Prop :=
  ∀ pre a post, as = pre ++ a :: post → ∀ s', run step s pre = some s' → C s' a

variable {step} {C : σ → α → Prop}

lemma along_nil (s : σ) : Along step C s [] := by
  intro pre a post hsplit
  cases pre <;> cases hsplit

lemma along_cons {a : α} (hs : step s a = some s') :
    Along step C s (a :: as) ↔ C s a ∧ Along step C s' as := by
  constructor
  · intro h
    refine ⟨h [] a as rfl s rfl, fun pre b post hsplit t ht => ?_⟩
    refine h (a :: pre) b post (by rw [hsplit, List.cons_append]) t ?_
    rw [run_cons, hs]
    exact ht
  · rintro ⟨ha, has⟩ pre b post hsplit t ht
    cases pre with
    | nil =>
      cases ht
      cases hsplit
      exact ha
    | cons c pre =>
      cases hsplit
      rw [run_cons, hs] at ht
      exact has pre b post rfl t ht

/-- The decidable form of `Along`. -/
def alongTest (step : σ → α → Option σ) (test : σ → α → Bool) : σ → List α → Bool
  | _, [] => true
  | s, a :: as => test s a && (step s a).all fun s => alongTest step test s as

lemma along_cons_of_none {a : α} (hs : step s a = none) :
    Along step C s (a :: as) ↔ C s a := by
  refine ⟨fun h => h [] a as rfl s rfl, fun ha pre b post hsplit t ht => ?_⟩
  cases pre with
  | nil =>
    cases ht
    cases hsplit
    exact ha
  | cons c pre =>
    cases hsplit
    rw [run_cons, hs] at ht
    cases ht

lemma along_of_alongTest {test : σ → α → Bool} (htest : ∀ s a, test s a = true → C s a)
    (h : alongTest step test s as = true) : Along step C s as := by
  induction as generalizing s with
  | nil => exact along_nil s
  | cons a as ih =>
    rw [alongTest, Bool.and_eq_true] at h
    cases hs : step s a with
    | none => exact (along_cons_of_none hs).mpr (htest s a h.1)
    | some s' =>
      rw [hs] at h
      exact (along_cons hs).mpr ⟨htest s a h.1, ih h.2⟩

lemma Along.imp {C' : σ → α → Prop} (hC : ∀ s a, C s a → C' s a) (h : Along step C s as) :
    Along step C' s as := by
  intro pre a post hsplit s' hs'
  exact hC s' a (h pre a post hsplit s' hs')

lemma Along.append (h : Along step C s (as ++ bs)) : Along step C s as := by
  intro pre a post hsplit
  exact h pre a (post ++ bs) (by rw [hsplit, List.append_assoc, List.cons_append])

lemma Along.drop (h : Along step C s (as ++ bs)) (hs : run step s as = some s') :
    Along step C s' bs := by
  rintro pre a post rfl t ht
  refine h (as ++ pre) a post (by rw [List.append_assoc]) t ?_
  rw [run_append, hs]
  exact ht

lemma run_invariant {P : σ → Prop} (hstep : ∀ s a s', P s → step s a = some s' → P s') (hs : P s)
    (h : run step s as = some s') : P s' := by
  induction as generalizing s with
  | nil =>
    cases h
    exact hs
  | cons a as ih =>
    obtain ⟨t, ht, h⟩ := Option.bind_eq_some_iff.mp h
    exact ih (hstep s a t hs ht) h

lemma run_history {P : List α → σ → Prop} (hinit : P [] s)
    (hstep : ∀ pre s a s', P pre s → C s a → step s a = some s' → P (pre ++ [a]) s')
    (hC : Along step C s as) (h : run step s as = some s') : P as s' := by
  induction as using List.reverseRecOn generalizing s' with
  | nil =>
    cases h
    exact hinit
  | append_singleton as a ih =>
    rw [run_snoc] at h
    obtain ⟨t, ht, h⟩ := Option.bind_eq_some_iff.mp h
    exact hstep as t a s' (ih hC.append ht) (hC as a [] rfl t ht) h

lemma constant_iff_along {β : Type*} {f : σ → β}
    (hstep : ∀ s a s', step s a = some s' → (f s' = f s ↔ C s a)) {t : σ}
    (h : run step s as = some t) :
    (∀ pre post s', as = pre ++ post → run step s pre = some s' → f s' = f s) ↔
      Along step C s as := by
  constructor
  · rintro hconst pre a post rfl s' hs'
    rw [run_append, hs', Option.bind_some, run_cons] at h
    obtain ⟨s'', hs'', _⟩ := Option.bind_eq_some_iff.mp h
    have hbefore := hconst pre (a :: post) s' rfl hs'
    have hafter := hconst (pre ++ [a]) post s'' (by simp)
      (by rw [run_snoc, hs', Option.bind_some, hs''])
    exact (hstep s' a s'' hs'').mp (hafter.trans hbefore.symm)
  · rintro hC pre post s' rfl hs'
    refine run_history (P := fun _ s' => f s' = f s) rfl ?_ hC.append hs'
    intro _ s₁ a s₂ hs₁ ha hs₂
    exact ((hstep s₁ a s₂ hs₂).mpr ha).trans hs₁

/-! ### Steps that return a result -/

section Result

variable {ε β : Type*}

lemma eq_ok_of_toOption {r : Except ε α} {a : α} (h : r.toOption = some a) : r = .ok a := by
  cases r with
  | error e => cases h
  | ok b =>
    cases h
    rfl

lemma exists_some_ok {r : Option (Except ε α)} (h : (r.bind Except.toOption).isSome = true) :
    ∃ a, r = some (.ok a) := by
  obtain ⟨a, ha⟩ := Option.isSome_iff_exists.mp h
  obtain ⟨res, rfl, hres⟩ := Option.bind_eq_some_iff.mp ha
  exact ⟨a, congrArg some (eq_ok_of_toOption hres)⟩

lemma exists_of_map_eq_ok {r : Except ε α} {f : α → β} {b : β} (h : r.map f = .ok b) :
    ∃ a, r = .ok a ∧ f a = b := by
  cases r with
  | error e => cases h
  | ok a => exact ⟨a, rfl, Except.ok.inj h⟩

end Result

end Trace
