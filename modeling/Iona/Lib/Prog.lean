import Mathlib

/-!
# Programs that may abort

## Main definitions

* `Prog`: a state passed along and a value, or none after a panic; the state is kept either way.
* `Prog.Runs`: from `P` the program moves the state by steps of `R` and returns in `Q`.

## Main results

* `Prog.Runs.bind`, `modify_bind`, `ofOption_bind`: the rules for programs in sequence.
* `Prog.Runs.invariant`: what every step keeps, the program keeps.
-/

/-- A program on a state. -/
def Prog (σ α : Type) := σ → Option α × σ

namespace Prog

variable {σ α β : Type}

instance : Monad (Prog σ) where
  pure a s := (some a, s)
  bind m f s :=
    match m s with
    | (some a, s') => f a s'
    | (none, s') => (none, s')

/-- The present state. -/
def get : Prog σ σ := fun s => (some s, s)

/-- A change of the state. -/
def modify (f : σ → σ) : Prog σ Unit := fun s => (some (), f s)

/-- A panic. -/
def abort : Prog σ α := fun s => (none, s)

/-- A panic in place of `none`. -/
def ofOption : Option α → Prog σ α
  | some a => pure a
  | none => abort

/-- The state it ends in, also after a panic. -/
def exec (m : Prog σ α) (s : σ) : σ := (m s).2

@[simp] lemma exec_pure (a : α) (s : σ) : (pure a : Prog σ α).exec s = s := rfl

@[simp] lemma exec_abort (s : σ) : (abort : Prog σ α).exec s = s := rfl

@[simp] lemma exec_modify (f : σ → σ) (s : σ) : (modify f).exec s = f s := rfl

@[simp] lemma exec_get_bind (f : σ → Prog σ α) (s : σ) : (get >>= f).exec s = (f s).exec s := rfl

@[simp] lemma exec_modify_bind (g : σ → σ) (f : Unit → Prog σ α) (s : σ) :
    (modify g >>= f).exec s = (f ()).exec (g s) := rfl

@[simp] lemma exec_bind_pure (m : Prog σ α) (b : β) (s : σ) :
    (m >>= fun _ => pure b).exec s = m.exec s := by
  rcases hm : m s with ⟨_ | a, s'⟩ <;> simp [exec, Bind.bind, Pure.pure, hm]

/-! ### Running a program step by step -/

lemma get_bind_apply (f : σ → Prog σ α) (s : σ) : (get >>= f) s = f s s := rfl

lemma modify_bind_apply (g : σ → σ) (f : Unit → Prog σ α) (s : σ) :
    (modify g >>= f) s = f () (g s) := rfl

lemma ofOption_some_bind (a : α) (f : α → Prog σ β) : (ofOption (some a) >>= f) = f a := rfl

lemma ofOption_none_bind_apply (f : α → Prog σ β) (s : σ) :
    (ofOption none >>= f) s = (none, s) := rfl

/-! ### Specifications -/

/-- The program moves by steps of `R` alone. -/
def Runs (R : σ → σ → Prop) (P : σ → Prop) (m : Prog σ α) (Q : α → σ → Prop) : Prop :=
  ∀ s, P s → Relation.ReflTransGen R s (m.exec s) ∧ ∀ a, (m s).1 = some a → Q a (m.exec s)

namespace Runs

variable {R : σ → σ → Prop} {P P' : σ → Prop} {Q Q' : α → σ → Prop} {T : β → σ → Prop}

variable {m : Prog σ α} {f : α → Prog σ β}

lemma pure {a : α} (h : ∀ s, P s → Q a s) : Runs R P (Pure.pure a) Q := by
  intro s hs
  refine ⟨.refl, ?_⟩
  rintro a' heq
  cases heq
  exact h s hs

lemma abort : Runs R P (Prog.abort : Prog σ α) Q := by
  intro s _
  exact ⟨.refl, fun a h => nomatch h⟩

lemma modify {f : σ → σ} {Q : Unit → σ → Prop} (hstep : ∀ s, P s → R s (f s))
    (hpost : ∀ s, P s → Q () (f s)) : Runs R P (Prog.modify f) Q := by
  intro s hs
  exact ⟨.single (hstep s hs), fun _ _ => hpost s hs⟩

lemma bind (hm : Runs R P m Q) (hf : ∀ a, Runs R (Q a) (f a) T) : Runs R P (m >>= f) T := by
  intro s hs
  obtain ⟨hreach, hret⟩ := hm s hs
  -- the first program returned or it aborted, and then the second never starts
  rcases hres : m s with ⟨_ | a, s'⟩
  · have hexec : (m >>= f) s = (none, s') := by simp [Bind.bind, hres]
    have hm' : m.exec s = s' := by simp [exec, hres]
    simp only [exec, hexec]
    exact ⟨hm' ▸ hreach, fun _ h => nomatch h⟩
  · have hexec : (m >>= f) s = f a s' := by simp [Bind.bind, hres]
    have hm' : m.exec s = s' := by simp [exec, hres]
    obtain ⟨hreach', hret'⟩ := hf a s' (hm' ▸ hret a (by rw [hres]))
    simp only [exec, hexec]
    exact ⟨(hm' ▸ hreach).trans hreach', hret'⟩

lemma weaken (h : Runs R P m Q) (hpre : ∀ s, P' s → P s) (hpost : ∀ a s, Q a s → Q' a s) :
    Runs R P' m Q' := by
  intro s hs
  obtain ⟨hreach, hret⟩ := h s (hpre s hs)
  exact ⟨hreach, fun a ha => hpost a _ (hret a ha)⟩

lemma pre (h : Runs R P m Q) (hpre : ∀ s, P' s → P s) : Runs R P' m Q :=
  h.weaken hpre fun _ _ h => h

lemma anyway (h : Runs R (fun _ => True) m Q) : Runs R P m Q :=
  h.pre fun _ _ => trivial

lemma of_known (h : ∀ s, P s → Runs R (· = s) m Q) : Runs R P m Q :=
  fun s hs => h s hs s rfl

lemma get_bind {f : σ → Prog σ β} (h : ∀ s, P s → Runs R (· = s) (f s) T) :
    Runs R P (Prog.get >>= f) T := by
  intro s hs
  exact h s hs s rfl

lemma get_known {s : σ} {f : σ → Prog σ β} (h : Runs R (· = s) (f s) T) :
    Runs R (· = s) (Prog.get >>= f) T :=
  get_bind fun _ hs => hs ▸ h

lemma modify_bind {s : σ} {g : σ → σ} {f : Unit → Prog σ β} (hstep : R s (g s))
    (h : Runs R (· = g s) (f ()) T) : Runs R (· = s) (Prog.modify g >>= f) T := by
  rintro _ rfl
  obtain ⟨hreach, hret⟩ := h _ rfl
  exact ⟨.head hstep hreach, hret⟩

lemma ofOption_bind {o : Option α} (h : ∀ a, o = some a → Runs R P (f a) T) :
    Runs R P (ofOption o >>= f) T := by
  cases o with
  | none => exact abort
  | some a => exact h a rfl

lemma invariant (h : Runs R P m Q) {I : σ → Prop} (hstep : ∀ s s', R s s' → I s → I s') {s : σ}
    (hs : P s) (hI : I s) : I (m.exec s) := by
  obtain ⟨hreach, -⟩ := h s hs
  generalize m.exec s = s' at hreach
  induction hreach with
  | refl => exact hI
  | tail _ hlast ih => exact hstep _ _ hlast ih

end Runs

end Prog
