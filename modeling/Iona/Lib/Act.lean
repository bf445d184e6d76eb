import Mathlib

/-!
# Actions that return, fail, panic or run out of fuel

## Main definitions

* `Act`: a state passed along, and an outcome that is a value, an error or an abort.
* `Act.Sat`: the triple with one postcondition for values, one for errors and the aborts excluded.
* `Act.Preserves`: an invariant of the state, whatever the outcome.
* `Checked`: arithmetic and slicing that panic where they do not fit.

## Main results

* `Act.Sat.bind`, `Act.Sat.returns`, `Act.Preserves.bind`: the rules for actions in sequence.
-/

/-- Why an action ends without a value and without an error. -/
inductive Abort where
  | panic
  | outOfFuel
  deriving DecidableEq

/-- What an action comes to. -/
inductive Res (ε α : Type) where
  | ok (a : α)
  | error (e : ε)
  | abort (why : Abort)
  deriving DecidableEq

/-- An action on a state. -/
def Act (σ ε α : Type) := σ → Res ε α × σ

namespace Act

variable {σ τ ε α β : Type}

instance : Monad (Act σ ε) where
  pure a s := (.ok a, s)
  bind m f s :=
    match m s with
    | (.ok a, s') => f a s'
    | (.error e, s') => (.error e, s')
    | (.abort why, s') => (.abort why, s')

/-- The present state. -/
def get : Act σ ε σ := fun s => (.ok s, s)

/-- A change of the state. -/
def modify (f : σ → σ) : Act σ ε Unit := fun s => (.ok (), f s)

/-- An error, with the state as it is. -/
def throw (e : ε) : Act σ ε α := fun s => (.error e, s)

/-- An end that no caller can catch. -/
def abort (why : Abort) : Act σ ε α := fun s => (.abort why, s)

/-- A panic in place of `none`. -/
def ofOption : Option α → Act σ ε α
  | some a => pure a
  | none => abort .panic

/-- An error of the same kind. -/
def ofExcept : Except ε α → Act σ ε α
  | .ok a => pure a
  | .error e => throw e

/-- An action on a part of the state. -/
def on (get : τ → σ) (put : σ → τ → τ) (m : Act σ ε α) : Act τ ε α := fun t =>
  ((m (get t)).1, put (m (get t)).2 t)

variable {f : α → Act σ ε β} {m : Act σ ε α}

lemma bind_apply (m : Act σ ε α) (f : α → Act σ ε β) (s : σ) :
    (m >>= f) s = match m s with
      | (.ok a, s') => f a s'
      | (.error e, s') => (.error e, s')
      | (.abort why, s') => (.abort why, s') := rfl

@[simp] lemma pure_apply (a : α) (s : σ) : (pure a : Act σ ε α) s = (.ok a, s) := rfl

@[simp] lemma throw_apply (e : ε) (s : σ) : (throw e : Act σ ε α) s = (.error e, s) := rfl

lemma bind_of_ok {s s' : σ} {a : α} (h : m s = (.ok a, s')) : (m >>= f) s = f a s' := by
  rw [bind_apply, h]

lemma bind_eq_ok {s t : σ} {b : β} (h : (m >>= f) s = (.ok b, t)) :
    ∃ a s', m s = (.ok a, s') ∧ f a s' = (.ok b, t) := by
  rw [bind_apply] at h
  rcases hm : m s with ⟨a | e | why, s'⟩
  · rw [hm] at h
    exact ⟨a, s', rfl, h⟩
  · rw [hm] at h
    cases h
  · rw [hm] at h
    cases h

lemma bind_keeps (get : σ → τ) {s : σ} (hm : get (m s).2 = get s)
    (hf : ∀ a s', m s = (.ok a, s') → get (f a s').2 = get s') : get ((m >>= f) s).2 = get s := by
  rw [bind_apply]
  rcases hres : m s with ⟨a | e | why, s'⟩
  · rw [hres] at hm
    exact (hf a s' hres).trans hm
  · rw [hres] at hm
    exact hm
  · rw [hres] at hm
    exact hm

/-- The action keeps `P`, whatever it comes to. -/
def Preserves (P : σ → Prop) (m : Act σ ε α) : Prop := ∀ s, P s → P (m s).2

namespace Preserves

variable {P : σ → Prop}

lemma bind {m : Act σ ε α} (hm : Preserves P m) (hf : ∀ a, Preserves P (f a)) :
    Preserves P (m >>= f) := by
  intro s hs
  have hs' := hm s hs
  rw [bind_apply]
  rcases hres : m s with ⟨a | e | why, s'⟩
  · rw [hres] at hs'
    exact hf a s' hs'
  · rw [hres] at hs'
    exact hs'
  · rw [hres] at hs'
    exact hs'

end Preserves

/-! ### What an action guarantees -/

/-- An outcome that aborts for no reason in `B`, and meets `E` or `Q` otherwise. -/
def Meets (B : Abort → Prop) (E : ε → σ → Prop) (Q : α → σ → Prop) (out : Res ε α × σ) : Prop :=
  (∀ why, B why → out.1 ≠ .abort why) ∧ (∀ e, out.1 = .error e → E e out.2) ∧
    ∀ a, out.1 = .ok a → Q a out.2

/-- From every state in `P` the outcome meets `B`, `E` and `Q`. -/
def Sat (B : Abort → Prop) (E : ε → σ → Prop) (P : σ → Prop) (m : Act σ ε α) (Q : α → σ → Prop) :
    Prop :=
  ∀ s, P s → Meets B E Q (m s)

namespace Sat

variable {B : Abort → Prop} {E : ε → σ → Prop} {P P' : σ → Prop} {Q Q' : α → σ → Prop}
  {T : β → σ → Prop}

variable {s : σ}

lemma on_ok {a : α} (h : Q a s) : Meets B E Q (.ok a, s) := by
  refine ⟨fun why _ hres => (by cases hres), fun e hres => (by cases hres), fun a' hres => ?_⟩
  cases hres
  exact h

lemma on_error {e : ε} (h : E e s) : Meets (α := α) B E Q (.error e, s) := by
  refine ⟨fun why _ hres => (by cases hres), fun e' hres => ?_, fun a hres => (by cases hres)⟩
  cases hres
  exact h

lemma on_abort {why : Abort} (h : ¬ B why) : Meets B E Q (.abort why, s) := by
  refine ⟨fun why' hB hres => ?_, fun e hres => (by cases hres), fun a hres => (by cases hres)⟩
  cases hres
  exact h hB

lemma of_ok (h : ∀ s, P s → ∃ a s', m s = (.ok a, s') ∧ Q a s') : Sat B E P m Q := by
  intro s hs
  obtain ⟨a, s', hm, hQ⟩ := h s hs
  rw [hm]
  exact on_ok hQ

lemma pure {a : α} (h : ∀ s, P s → Q a s) : Sat B E P (Pure.pure a : Act σ ε α) Q :=
  of_ok fun s hs => ⟨a, s, rfl, h s hs⟩

lemma throw {e : ε} (h : ∀ s, P s → E e s) : Sat B E P (Act.throw e : Act σ ε α) Q := by
  intro s hs
  exact on_error (h s hs)

lemma abort {why : Abort} (h : ¬ B why) : Sat B E P (Act.abort why : Act σ ε α) Q := by
  intro s _
  exact on_abort h

lemma modify {f : σ → σ} {Q : Unit → σ → Prop} (h : ∀ s, P s → Q () (f s)) :
    Sat B E P (Act.modify f : Act σ ε Unit) Q :=
  of_ok fun s hs => ⟨(), f s, rfl, h s hs⟩

lemma bind (hm : Sat B E P m Q) (hf : ∀ a, Sat B E (Q a) (f a) T) : Sat B E P (m >>= f) T := by
  intro s hs
  have hmeets := hm s hs
  rw [bind_apply]
  rcases hres : m s with ⟨a | e | why, s'⟩
  · rw [hres] at hmeets
    exact hf a s' (hmeets.2.2 a rfl)
  · rw [hres] at hmeets
    exact on_error (hmeets.2.1 e rfl)
  · rw [hres] at hmeets
    exact on_abort fun hB => hmeets.1 why hB rfl

lemma returns (h : Sat (fun _ => True) (fun _ _ => False) P m Q) (hs : P s) :
    ∃ a s', m s = (.ok a, s') ∧ Q a s' := by
  obtain ⟨habort, herror, hret⟩ := h s hs
  rcases hres : m s with ⟨a | e | why, s'⟩
  · rw [hres] at hret
    exact ⟨a, s', rfl, hret a rfl⟩
  · exact (herror e (by rw [hres])).elim
  · exact absurd (congrArg Prod.fst hres) (habort why trivial)

lemma bind_known (hm : Sat B E (· = s) m Q)
    (hf : ∀ a s', m s = (.ok a, s') → Q a s' → Sat B E (· = s') (f a) T) :
    Sat B E (· = s) (m >>= f) T := by
  refine bind (Q := fun a s' => m s = (.ok a, s') ∧ Q a s') ?_ fun a => ?_
  · rintro s ⟨⟩
    obtain ⟨habort, herror, hret⟩ := hm s rfl
    exact ⟨habort, herror, fun a ha => ⟨Prod.ext ha rfl, hret a ha⟩⟩
  · rintro s' ⟨hrun, hQ⟩
    exact hf a s' hrun hQ s' rfl

lemma get_bind {f : σ → Act σ ε β} (h : ∀ s, P s → Sat B E (· = s) (f s) T) :
    Sat B E P (Act.get >>= f) T := by
  intro s hs
  exact h s hs s rfl

lemma weaken (h : Sat B E P m Q) (hpre : ∀ s, P' s → P s) (hpost : ∀ a s, Q a s → Q' a s) :
    Sat B E P' m Q' := by
  intro s hs
  obtain ⟨habort, herror, hret⟩ := h s (hpre s hs)
  exact ⟨habort, herror, fun a ha => hpost a _ (hret a ha)⟩

lemma pre (h : Sat B E P m Q) (hpre : ∀ s, P' s → P s) : Sat B E P' m Q :=
  h.weaken hpre fun _ _ hQ => hQ

lemma post (h : Sat B E P m Q) (hpost : ∀ a s, Q a s → Q' a s) : Sat B E P m Q' :=
  h.weaken (fun _ hP => hP) hpost

lemma errors {E' : ε → σ → Prop} (h : Sat B E P m Q) (hE : ∀ e s, E e s → E' e s) :
    Sat B E' P m Q := by
  intro s hs
  obtain ⟨habort, herror, hret⟩ := h s hs
  exact ⟨habort, fun e he => hE e _ (herror e he), hret⟩

lemma of_exists {ι : Sort*} {P : ι → σ → Prop} (h : ∀ i, Sat B E (P i) m Q) :
    Sat B E (fun s => ∃ i, P i s) m Q := by
  rintro s ⟨i, hi⟩
  exact h i s hi

lemma of_and {p : Prop} (h : p → Sat B E P m Q) : Sat B E (fun s => p ∧ P s) m Q := by
  rintro s ⟨hp, hs⟩
  exact h hp s hs

lemma of_pre {p : Prop} (hp : ∀ s, P s → p) (h : p → Sat B E P m Q) : Sat B E P m Q := by
  intro s hs
  exact h (hp s hs) s hs

lemma ite {c : Prop} [Decidable c] {m' : Act σ ε α} (h : c → Sat B E P m Q)
    (h' : ¬ c → Sat B E P m' Q) : Sat B E P (if c then m else m') Q := by
  split
  · rename_i hc
    exact h hc
  · rename_i hc
    exact h' hc

lemma option_bind {o : Option α} (hnone : B .panic → o ≠ none)
    (h : ∀ a, o = some a → Sat B E P (f a) T) : Sat B E P (ofOption o >>= f) T := by
  cases o with
  | none => exact abort fun hB => hnone hB rfl
  | some a => exact h a rfl

lemma ofExcept {r : Except ε α} (herror : ∀ e, r = .error e → ∀ s, P s → E e s)
    (h : ∀ a, r = .ok a → ∀ s, P s → Q a s) : Sat B E P (Act.ofExcept r : Act σ ε α) Q := by
  cases r with
  | error e => exact throw (herror e rfl)
  | ok a => exact pure (h a rfl)

lemma on {get : τ → σ} {put : σ → τ → τ} (hget : ∀ s t, get (put s t) = s) (h : Sat B E P m Q) :
    Sat B (fun e t => E e (get t)) (fun t => P (get t)) (m.on get put) fun a t => Q a (get t) := by
  intro t ht
  obtain ⟨habort, herror, hret⟩ := h (get t) ht
  refine ⟨habort, fun e he => ?_, fun a ha => ?_⟩
  · change E e (get (put _ t))
    rw [hget]
    exact herror e he
  · change Q a (get (put _ t))
    rw [hget]
    exact hret a ha

end Sat

end Act

/-! ### Operations that panic -/

namespace Checked

variable {α : Type*}

/-- A number of `bits` bits, or a panic. -/
def fit (bits n : ℕ) : Option ℕ := if n < 2 ^ bits then some n else none

/-- A difference that panics below zero. -/
def sub (a b : ℕ) : Option ℕ := if b ≤ a then some (a - b) else none

/-- A write that panics out of bounds. -/
def set {n : ℕ} (v : Vector α n) (i : ℕ) (a : α) : Option (Vector α n) :=
  if h : i < n then some (v.set i a) else none

/-- The bytes `a..b`, or a panic. -/
def slice (l : List α) (a b : ℕ) : Option (List α) :=
  if a ≤ b ∧ b ≤ l.length then some ((l.drop a).take (b - a)) else none

/-- The list with `data` written over it at `a`, or a panic. -/
def splice (l : List α) (a : ℕ) (data : List α) : Option (List α) :=
  if a + data.length ≤ l.length then some (l.take a ++ data ++ l.drop (a + data.length)) else none

lemma fit_of_lt {bits n : ℕ} (h : n < 2 ^ bits) : fit bits n = some n := if_pos h

lemma sub_of_le {a b : ℕ} (h : b ≤ a) : sub a b = some (a - b) := if_pos h

lemma set_of_lt {n : ℕ} {v : Vector α n} {i : ℕ} (h : i < n) (a : α) :
    set v i a = some (v.set i a) := dif_pos h

lemma length_of_slice {l s : List α} {a b : ℕ} (h : slice l a b = some s) :
    s.length = b - a := by
  unfold slice at h
  split at h
  · rename_i hab
    cases h
    rw [List.length_take, List.length_drop]
    omega
  · cases h

lemma exists_slice {l : List α} {a b : ℕ} (hab : a ≤ b) (hb : b ≤ l.length) :
    ∃ s, slice l a b = some s ∧ s.length = b - a :=
  have h : slice l a b = some ((l.drop a).take (b - a)) := if_pos ⟨hab, hb⟩
  ⟨_, h, length_of_slice h⟩

lemma exists_splice {l : List α} {a : ℕ} {data : List α} (h : a + data.length ≤ l.length) :
    ∃ l', splice l a data = some l' ∧ l'.length = l.length := by
  refine ⟨l.take a ++ data ++ l.drop (a + data.length), if_pos h, ?_⟩
  rw [List.length_append, List.length_append, List.length_take, List.length_drop]
  omega

lemma bind_ne_none {β γ : Type*} {o : Option β} {f : β → Option γ} (ho : o ≠ none)
    (hf : ∀ b, o = some b → f b ≠ none) : o.bind f ≠ none := by
  cases o with
  | none => exact absurd rfl ho
  | some b => exact hf b rfl

lemma foldlM_range'_inv {β : Type*} {f : β → ℕ → Option β} (I : ℕ → β → Prop) {s n : ℕ}
    (hstep : ∀ i, s ≤ i → i < s + n → ∀ b, I i b → ∃ b', f b i = some b' ∧ I (i + 1) b') {b : β}
    (hb : I s b) : ∃ b', (List.range' s n).foldlM f b = some b' ∧ I (s + n) b' := by
  induction n generalizing s b with
  | zero => exact ⟨b, rfl, hb⟩
  | succ n ih =>
    obtain ⟨b₁, hf, hb₁⟩ := hstep s le_rfl (by omega) b hb
    obtain ⟨b', hloop, hb'⟩ := ih (fun i hs hi => hstep i (by omega) (by omega)) hb₁
    refine ⟨b', ?_, ?_⟩
    · rw [List.range'_succ, List.foldlM_cons, hf]
      exact hloop
    · rwa [show s + (n + 1) = s + 1 + n by omega]

lemma foldlM_range'_cases {β : Type*} {f : β → ℕ → Option β} (I : ℕ → β → Prop) (C : ℕ → Prop)
    {s n : ℕ} (hstep : ∀ i, s ≤ i → i < s + n → ∀ b, I i b →
      (C i ∧ ∃ b', f b i = some b' ∧ I (i + 1) b') ∨ (¬ C i ∧ f b i = none)) {b : β} (hb : I s b) :
    ((∀ i, s ≤ i → i < s + n → C i) ∧ ∃ b', (List.range' s n).foldlM f b = some b' ∧ I (s + n) b') ∨
      ((∃ i, s ≤ i ∧ i < s + n ∧ ¬ C i) ∧ (List.range' s n).foldlM f b = none) := by
  induction n generalizing s b with
  | zero => exact .inl ⟨fun i hs hi => by omega, b, rfl, hb⟩
  | succ n ih =>
    rw [List.range'_succ, List.foldlM_cons]
    rcases hstep s le_rfl (by omega) b hb with ⟨hC, b₁, hf, hb₁⟩ | ⟨hC, hf⟩
    · rw [hf, show s + (n + 1) = s + 1 + n by omega]
      refine (ih (fun i hs hi => hstep i (by omega) (by omega)) hb₁).imp ?_ ?_
      · rintro ⟨hall, hloop⟩
        refine ⟨fun i hs hi => ?_, hloop⟩
        rcases Nat.eq_or_lt_of_le hs with rfl | hlt
        · exact hC
        · exact hall i hlt hi
      · rintro ⟨⟨i, hs, hi, hnot⟩, hloop⟩
        exact ⟨⟨i, by omega, hi, hnot⟩, hloop⟩
    · exact .inr ⟨⟨s, le_rfl, by omega, hC⟩, by rw [hf]; rfl⟩

lemma foldlM_range_inv {β : Type*} {f : β → ℕ → Option β} (I : ℕ → β → Prop) {n : ℕ}
    (hstep : ∀ i < n, ∀ b, I i b → ∃ b', f b i = some b' ∧ I (i + 1) b') {b : β} (hb : I 0 b) :
    ∃ b', (List.range n).foldlM f b = some b' ∧ I n b' := by
  obtain ⟨b', hloop, hb'⟩ := foldlM_range'_inv I (s := 0) (n := n)
    (fun i _ hi => hstep i (by omega)) hb
  rw [Nat.zero_add] at hb'
  exact ⟨b', by rw [List.range_eq_range', hloop], hb'⟩

end Checked
