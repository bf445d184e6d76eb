import Mathlib

/-!
# Two-phase voting with locks

## Main definitions

* `VoteLog.System`: weighted members, some of them honest.
* `VoteLog.Rules`: what an honest member's ballot has to meet, given the ballots before it.
* `VoteLog.Legal`: a log in which every honest ballot does.

## Main results

* `VoteLog.Legal.agreement`: in a legal log no two values have a precommit quorum.
-/

namespace VoteLog

variable {ι ν : Type*} [DecidableEq ι]

/-! ### Weighted quorums -/

/-- The members, their power and the honest ones. -/
structure System (ι : Type*) [DecidableEq ι] where
  members : Finset ι
  weight : ι → ℕ
  faulty : Finset ι
  threshold : ℕ
  intersect : ∑ i ∈ members, weight i + ∑ i ∈ members ∩ faulty, weight i < 2 * threshold

namespace System

variable (S : System ι)

/-- More than two thirds of the power. -/
structure IsQuorum (Q : Finset ι) : Prop where
  subset : Q ⊆ S.members
  reaches : S.threshold ≤ ∑ i ∈ Q, S.weight i

lemma exists_honest_inter {Q R : Finset ι} (hQ : S.IsQuorum Q) (hR : S.IsQuorum R) :
    ∃ i ∈ Q, i ∈ R ∧ i ∉ S.faulty := by
  by_contra hno
  push Not at hno
  have hsub : Q ∩ R ⊆ S.members ∩ S.faulty := by
    intro i hi
    obtain ⟨hiQ, hiR⟩ := Finset.mem_inter.mp hi
    exact Finset.mem_inter.mpr ⟨hQ.subset hiQ, hno i hiQ hiR⟩
  have hunion : ∑ i ∈ Q ∪ R, S.weight i ≤ ∑ i ∈ S.members, S.weight i :=
    Finset.sum_le_sum_of_subset (Finset.union_subset hQ.subset hR.subset)
  have hinter : ∑ i ∈ Q ∩ R, S.weight i ≤ ∑ i ∈ S.members ∩ S.faulty, S.weight i :=
    Finset.sum_le_sum_of_subset hsub
  have hsum : ∑ i ∈ Q ∪ R, S.weight i + ∑ i ∈ Q ∩ R, S.weight i =
      ∑ i ∈ Q, S.weight i + ∑ i ∈ R, S.weight i := Finset.sum_union_inter
  have h₁ := hQ.reaches
  have h₂ := hR.reaches
  have := S.intersect
  omega

lemma exists_honest {Q : Finset ι} (hQ : S.IsQuorum Q) : ∃ i ∈ Q, i ∉ S.faulty := by
  obtain ⟨i, hi, -, hf⟩ := S.exists_honest_inter hQ hQ
  exact ⟨i, hi, hf⟩

end System

/-! ### The log -/

/-- The two phases of a round. -/
inductive Phase where
  | prevote
  | precommit
  deriving DecidableEq

/-- One vote. -/
structure Ballot (ι ν : Type*) where
  voter : ι
  phase : Phase
  round : ℕ
  value : Option ν

variable (S : System ι)

/-- The votes for `v` in a phase of a round make a quorum. -/
def HasQuorum (log : List (Ballot ι ν)) (phase : Phase) (round : ℕ) (v : ν) : Prop :=
  ∃ Q, S.IsQuorum Q ∧ ∀ i ∈ Q, i ∉ S.faulty → ⟨i, phase, round, some v⟩ ∈ log

variable {l l' log pre : List (Ballot ι ν)} {m m' : Ballot ι ν} {v : ν} {r : ℕ}

lemma HasQuorum.mono {S : System ι} {phase : Phase} {round : ℕ} (h : HasQuorum S l phase round v)
    (hl : l ⊆ l') : HasQuorum S l' phase round v := by
  obtain ⟨Q, hQ, hvotes⟩ := h
  exact ⟨Q, hQ, fun i hi hf => hl (hvotes i hi hf)⟩

/-- One value to the phase and round, rounds that do not go back, precommits with a prevote quorum,
and no prevote against a lock without a later quorum for something else. -/
structure Rules (log : List (Ballot ι ν)) (m : Ballot ι ν) : Prop where
  once : ∀ m' ∈ log, m'.voter = m.voter → m'.phase = m.phase → m'.round = m.round →
    m'.value = m.value
  forward : ∀ m' ∈ log, m'.voter = m.voter → m'.round ≤ m.round
  supported : ∀ v, m.phase = .precommit → m.value = some v → HasQuorum S log .prevote m.round v
  locked : ∀ v w r, m.phase = .prevote → m.value = some w → ⟨m.voter, .precommit, r, some v⟩ ∈ log →
    w ≠ v → ∃ r' v', r ≤ r' ∧ v' ≠ v ∧ HasQuorum S log .prevote r' v'

/-- Every honest ballot of the log, newest first, follows the rules. -/
def Legal : List (Ballot ι ν) → Prop
  | [] => True
  | m :: log => (m.voter ∉ S.faulty → Rules S log m) ∧ Legal log

variable {S}

lemma Legal.tail (h : Legal S (m :: log)) : Legal S log := h.2

lemma Legal.of_suffix (h : Legal S log) (hl : l <:+ log) : Legal S l := by
  obtain ⟨pre, rfl⟩ := hl
  induction pre with
  | nil => exact h
  | cons m pre ih => exact ih h.tail

lemma Legal.rules_of_mem (h : Legal S log) (hm : m ∈ log) (hf : m.voter ∉ S.faulty) :
    ∃ l, m :: l <:+ log ∧ Rules S l m := by
  obtain ⟨pre, l, rfl⟩ := List.append_of_mem hm
  exact ⟨l, ⟨pre, rfl⟩, (h.of_suffix ⟨pre, rfl⟩).1 hf⟩

lemma Legal.once (h : Legal S log) (hm : m ∈ log) (hm' : m' ∈ log) (hf : m.voter ∉ S.faulty)
    (hvoter : m'.voter = m.voter) (hphase : m'.phase = m.phase) (hround : m'.round = m.round) :
    m'.value = m.value := by
  induction log with
  | nil => simp at hm
  | cons x log ih =>
    rcases List.mem_cons.mp hm with rfl | hml <;> rcases List.mem_cons.mp hm' with rfl | hml'
    · rfl
    · exact (h.1 hf).once m' hml' hvoter hphase hround
    · exact ((h.1 (hvoter ▸ hf)).once m hml hvoter.symm hphase.symm hround.symm).symm
    · exact ih h.tail hml hml'

lemma Legal.quorum_unique (h : Legal S log) {phase : Phase} {w : ν}
    (hv : HasQuorum S log phase r v) (hw : HasQuorum S log phase r w) : v = w := by
  obtain ⟨Q, hQ, hQv⟩ := hv
  obtain ⟨R, hR, hRw⟩ := hw
  obtain ⟨i, hiQ, hiR, hf⟩ := S.exists_honest_inter hQ hR
  have := h.once (hQv i hiQ hf) (hRw i hiR hf) hf rfl rfl rfl
  exact (Option.some.inj this).symm

lemma Legal.prevoted (h : Legal S log) (hv : HasQuorum S log .precommit r v) :
    HasQuorum S log .prevote r v := by
  obtain ⟨Q, hQ, hQv⟩ := hv
  obtain ⟨i, hi, hf⟩ := S.exists_honest hQ
  obtain ⟨l, hl, hrules⟩ := h.rules_of_mem (hQv i hi hf) hf
  exact (hrules.supported v rfl rfl).mono fun m hm => hl.subset (List.mem_cons_of_mem _ hm)

lemma Legal.round_le (h : Legal S (pre ++ m :: l)) (hm' : m' ∈ pre) (hf : m'.voter ∉ S.faulty)
    (hvoter : m.voter = m'.voter) : m.round ≤ m'.round := by
  obtain ⟨pre₁, pre₂, rfl⟩ := List.append_of_mem hm'
  have hrules := (h.of_suffix (l := m' :: (pre₂ ++ m :: l)) ⟨pre₁, by simp⟩).1 hf
  exact hrules.forward m (by simp) hvoter

lemma Legal.no_later_quorum (h : Legal S log) (hv : HasQuorum S log .precommit r v)
    (hl : l <:+ log) {r' : ℕ} {v' : ν} (hr : r ≤ r') (hne : v' ≠ v) :
    ¬ HasQuorum S l .prevote r' v' := by
  induction hn : l.length using Nat.strong_induction_on generalizing l r' v' with
  | _ n ih =>
    intro hv'
    rcases Nat.eq_or_lt_of_le hr with rfl | hlt
    · exact hne (h.quorum_unique (h.prevoted hv) (hv'.mono hl.subset)).symm
    · obtain ⟨Q, hQ, hQv⟩ := hv
      obtain ⟨R, hR, hRv⟩ := hv'
      obtain ⟨i, hiQ, hiR, hf⟩ := S.exists_honest_inter hQ hR
      have hcommit := hQv i hiQ hf
      -- the prevote against `v`, and the log at the time
      obtain ⟨l₃, hl₃, hrules⟩ := (h.of_suffix hl).rules_of_mem (hRv i hiR hf) hf
      obtain ⟨pre, hpre⟩ := hl₃.trans hl
      rw [← hpre] at h hcommit
      rcases List.mem_append.mp hcommit with hlate | hearly
      · -- a precommit after that prevote would go back to an earlier round
        exact absurd (h.round_le hlate hf rfl) (Nat.not_le.mpr hlt)
      · have hmem : (⟨i, .precommit, r, some v⟩ : Ballot ι ν) ∈ l₃ := by
          simpa using hearly
        obtain ⟨r'', v'', hr'', hne'', hquorum⟩ := hrules.locked v v' r rfl rfl hmem hne
        have hshort : l₃.length < n := by
          have := hl₃.length_le
          rw [List.length_cons] at this
          omega
        have hsuffix : l₃ <:+ log := ⟨pre ++ [⟨i, .prevote, r', some v'⟩], by simp [hpre]⟩
        exact ih _ hshort hsuffix hr'' hne'' rfl hquorum

lemma Legal.agreement (h : Legal S log) {r' : ℕ} {v' : ν} (hv : HasQuorum S log .precommit r v)
    (hv' : HasQuorum S log .precommit r' v') : v = v' := by
  by_contra hne
  rcases Nat.le_total r r' with hr | hr
  · exact h.no_later_quorum hv List.suffix_rfl hr (Ne.symm hne) (h.prevoted hv')
  · exact h.no_later_quorum hv' List.suffix_rfl hr hne (h.prevoted hv)

end VoteLog
