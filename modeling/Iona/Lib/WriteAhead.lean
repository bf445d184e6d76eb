import Mathlib

/-! # Record before you speak -/

namespace WriteAhead

/-- A record that is saved, or a statement that is made. -/
inductive Entry (ρ α : Type*) where
  | save (record : ρ)
  | say (statement : α)

variable {ρ α : Type*}

/-- The record saved last. -/
def latest (base : ρ) : List (Entry ρ α) → ρ
  | [] => base
  | .save record :: _ => record
  | .say _ :: history => latest base history

variable {history l : List (Entry ρ α)}

@[simp] lemma latest_nil (base : ρ) : latest base ([] : List (Entry ρ α)) = base := rfl

@[simp] lemma latest_save (base record : ρ) (history : List (Entry ρ α)) :
    latest base (.save record :: history) = record := rfl

@[simp] lemma latest_say (base : ρ) (statement : α) (history : List (Entry ρ α)) :
    latest base (.say statement :: history) = latest base history := rfl

variable (extend : ρ → ρ → Prop) (covers : ρ → α → Prop)

/-- Every record extends the one before it, and every statement is covered by the record saved last.
-/
def Legal (base : ρ) : List (Entry ρ α) → Prop
  | [] => True
  | .save record :: history => extend (latest base history) record ∧ Legal base history
  | .say statement :: history => covers (latest base history) statement ∧ Legal base history

variable {extend covers} {base : ρ}

lemma Legal.tail {e : Entry ρ α} (h : Legal extend covers base (e :: history)) :
    Legal extend covers base history := by
  cases e with
  | save record => exact h.2
  | say statement => exact h.2

lemma Legal.of_suffix (h : Legal extend covers base history) (hl : l <:+ history) :
    Legal extend covers base l := by
  obtain ⟨pre, rfl⟩ := hl
  induction pre with
  | nil => exact h
  | cons e pre ih => exact ih h.tail

lemma Legal.covers_of_mem (h : Legal extend covers base history)
    (hmono : ∀ r r' a, extend r r' → covers r a → covers r' a) {a : α} (ha : .say a ∈ history) :
    covers (latest base history) a := by
  induction history with
  | nil => simp at ha
  | cons e history ih =>
    cases e with
    | save record => exact hmono _ _ _ h.1 (ih h.2 (by simpa using ha))
    | say statement =>
      rcases List.mem_cons.mp ha with heq | hmem
      · cases heq
        exact h.1
      · exact ih h.2 hmem

end WriteAhead
