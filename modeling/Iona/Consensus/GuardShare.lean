import Iona.Consensus.GuardFile
import Iona.Lib.Trace

/-! # One guard, several holders -/

namespace Iona

open GuardState

inductive HolderPhase where
  | idle
  | checked (s : Statement)
  | recorded (s : Statement)

structure Shared where
  guard : GuardState
  phase : ℕ → HolderPhase := fun _ => .idle
  signed : List Statement := []

inductive ShareOp where
  | check (who : ℕ) (s : Statement)
  | record (who : ℕ) (now : UInt64) (failure : Option String)
  | sign (who : ℕ)

namespace Shared

variable (C : Crypto) (F : GuardFormat)

def turn (st : Shared) (who : ℕ) (p : HolderPhase) : Shared :=
  { st with phase := Function.update st.phase who p }

def step (st : Shared) : ShareOp → Option Shared
  | .check who s =>
    match st.phase who, st.guard.check s with
    | .idle, .ok () => some (st.turn who (.checked s))
    | .idle, .error _ => some st
    | _, _ => none
  | .record who now failure =>
    match st.phase who with
    | .checked s =>
      match st.guard.record C F now failure s with
      | .ok g => some { st.turn who (.recorded s) with guard := g }
      | .error _ => some (st.turn who .idle)
    | _ => none
  | .sign who =>
    match st.phase who with
    | .recorded s => some { st.turn who .idle with signed := s :: st.signed }
    | _ => none

structure Covered (st : Shared) : Prop where
  recorded : ∀ who s, st.phase who = .recorded s → st.guard.Covers s
  signed : ∀ s ∈ st.signed, st.guard.Covers s

end Shared

def ShareOp.fresh (st : Shared) : ShareOp → Bool
  | .record who _ _ =>
    match st.phase who with
    | .checked s => st.guard.check s = .ok ()
    | _ => true
  | _ => true

section Step

variable {C : Crypto} {F : GuardFormat} {st st' : Shared}

lemma Shared.Covered.turn (h : st.Covered) (who : ℕ) {p : HolderPhase}
    (hp : ∀ s, p = .recorded s → st.guard.Covers s) : (st.turn who p).Covered where
  recorded who' s hs := by
    rcases eq_or_ne who' who with rfl | hne
    · exact hp s ((Function.update_self ..).symm.trans hs)
    · exact h.recorded who' s ((Function.update_of_ne hne ..).symm.trans hs)
  signed := h.signed

lemma Shared.Covered.extends (h : st.Covered) {g : GuardState} (hext : st.guard.Extends g) :
    Shared.Covered { st with guard := g } where
  recorded who s hs := hext.covers (h.recorded who s hs)
  signed s hs := hext.covers (h.signed s hs)

lemma Shared.Covered.step {op : ShareOp} (h : st.Covered) (hfresh : op.fresh st = true)
    (hstep : st.step C F op = some st') : st'.Covered := by
  cases op with
  | check who s =>
    simp only [Shared.step] at hstep
    split at hstep
    · cases hstep
      exact h.turn who fun _ hp => nomatch hp
    · cases hstep
      exact h
    · cases hstep
  | record who now failure =>
    simp only [Shared.step] at hstep
    split at hstep
    · rename_i s hphase
      split at hstep
      · rename_i g hrecord
        cases hstep
        have hcheck : st.guard.check s = .ok () := by simpa [ShareOp.fresh, hphase] using hfresh
        obtain ⟨hext, hcovers⟩ := record_spec hcheck hrecord
        refine (h.extends hext).turn who ?_
        intro s' hs'
        cases hs'
        exact hcovers
      · cases hstep
        exact h.turn who fun _ hp => nomatch hp
    · cases hstep
  | sign who =>
    simp only [Shared.step] at hstep
    split at hstep
    · rename_i s hphase
      cases hstep
      refine ⟨(h.turn (p := .idle) who fun _ hp => nomatch hp).recorded, ?_⟩
      intro s' hs'
      rcases List.mem_cons.mp hs' with rfl | hs'
      · exact h.recorded who _ hphase
      · exact h.signed s' hs'
    · cases hstep

end Step

/-- **A shared guard** lets no two holders sign different values for a key, as long as each check
would still pass at the moment its holder records. -/
theorem shared_never_conflicts (C : Crypto) (F : GuardFormat) (guard : GuardState)
    {ops : List ShareOp} {st : Shared}
    (hfresh : Trace.Along (Shared.step C F) (fun st op => op.fresh st = true)
      { guard := guard } ops)
    (hrun : Trace.run (Shared.step C F) { guard := guard } ops = some st) :
    ∀ s ∈ st.signed, ∀ s' ∈ st.signed, ¬ s.Conflicts s' := by
  have hcovered : st.Covered := by
    refine Trace.run_history (P := fun _ st => st.Covered) ?_ ?_ hfresh hrun
    · exact ⟨(fun _ _ h => nomatch h), fun _ h => nomatch h⟩
    · intro _ st op st' h hop hstep
      exact h.step hop hstep
  intro s hs s' hs'
  exact (hcovered.signed s hs).not_conflicts (hcovered.signed s' hs')

/-! ### Two holders -/

def firstVote : Statement := .vote .prevote 1 0 (some (.ofNat 1))

def otherVote : Statement := .vote .prevote 1 0 none

def waiting : List ShareOp :=
  [.check 0 firstVote, .record 0 1 none, .check 1 otherVote, .sign 0, .check 1 firstVote,
    .record 1 2 none, .sign 1]

theorem shared_never_conflicts_waiting :
    ∃ st, Trace.run (Shared.step .demo (.table [])) { guard := { lastModified := 0 } } waiting =
        some st ∧
      st.signed = [firstVote, firstVote] ∧ ∀ s ∈ st.signed, ∀ s' ∈ st.signed, ¬ s.Conflicts s' := by
  have hsigned : (Trace.run (Shared.step .demo (.table [])) { guard := { lastModified := 0 } }
      waiting).map Shared.signed = some [firstVote, firstVote] := by decide +kernel
  obtain ⟨st, hrun, hst⟩ := Option.map_eq_some_iff.mp hsigned
  refine ⟨st, hrun, hst, shared_never_conflicts .demo (.table []) _ ?_ hrun⟩
  exact Trace.along_of_alongTest (fun _ _ h => h) (by decide +kernel)

def overtaking : List ShareOp :=
  [.check 0 firstVote, .check 1 otherVote, .record 0 1 none, .record 1 2 none, .sign 0, .sign 1]

/-- Both prevotes are signed. -/
theorem shared_conflict :
    (Trace.run (Shared.step .demo (.table [])) { guard := { lastModified := 0 } } overtaking).map
        Shared.signed = some [otherVote, firstVote] ∧
      firstVote.Conflicts otherVote := by
  exact ⟨by decide +kernel, .vote .prevote 1 0 (by decide)⟩

end Iona
