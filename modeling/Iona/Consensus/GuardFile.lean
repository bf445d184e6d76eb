import Iona.Consensus.NonEquivocation

/-! # Opening the guard on a damaged file -/

namespace Iona

inductive Statement.Conflicts : Statement → Statement → Prop
  | proposal (height : Height) (round : Round) {id id' : Hash32} (hne : id ≠ id') :
    Conflicts (.proposal height round id) (.proposal height round id')
  | vote (vt : VoteType) (height : Height) (round : Round) {id id' : Option Hash32}
      (hne : id ≠ id') :
    Conflicts (.vote vt height round id) (.vote vt height round id')

deriving instance DecidableEq for Statement

namespace GuardState

def check (st : GuardState) : Statement → Except String Unit
  | .proposal height round id => st.checkProposal height round id
  | .vote vt height round id => st.checkVote vt height round id

def record (C : Crypto) (F : GuardFormat) (now : UInt64) (failure : Option String)
    (st : GuardState) : Statement → Except String GuardState
  | .proposal height round id => st.recordProposal C F now failure height round id
  | .vote vt height round id => st.recordVote C F now failure vt height round id

section Calls

variable {C : Crypto} {F : GuardFormat} {now : UInt64} {failure : Option String}
  {st st' : GuardState} {s s' : Statement}

lemma Covers.not_conflicts (hs : st.Covers s) (hs' : st.Covers s') : ¬ s.Conflicts s' := by
  intro h
  cases h with
  | proposal height round hne => exact hne (HasProposal.unique hs hs')
  | vote vt height round hne => exact hne (HasVote.unique hs hs')

lemma Covers.refuses (hs : st.Covers s) (h : s.Conflicts s') : ∃ e, st.check s' = .error e := by
  cases hcheck : st.check s' with
  | error e => exact ⟨e, rfl⟩
  | ok _ =>
    cases h with
    | proposal height round hne =>
      exact absurd (h32Hex_injective (checkProposal_eq_ok hcheck hs)) hne
    | vote vt height round hne =>
      exact absurd (voteText_injective (checkVote_eq_ok hcheck hs)) hne

lemma record_spec (hcheck : st.check s = .ok ()) (h : st.record C F now failure s = .ok st') :
    Extends st st' ∧ st'.Covers s := by
  cases s with
  | proposal height round id => exact recordProposal_spec hcheck h
  | vote vt height round id => exact recordVote_spec hcheck h

end Calls

end GuardState

open GuardState

/-! ### A history of records -/

structure RecordCall where
  statement : Statement
  now : UInt64
  failure : Option String := none

section History

variable (C : Crypto) (F : GuardFormat)

def recordAll : GuardState → List RecordCall → GuardState × List Statement
  | st, [] => (st, [])
  | st, call :: calls =>
    match st.record C F call.now call.failure call.statement with
    | .error _ => recordAll st calls
    | .ok st =>
      let (st, recorded) := recordAll st calls
      (st, call.statement :: recorded)

variable {C F}

end History

/-! ### Opening a file -/

structure Readable (C : Crypto) (F : GuardFormat) (bytes : List UInt8) (st : GuardState) : Prop where
  decoded : F.decode bytes = some st
  version : st.version = 1
  chain : st.verifyChain C F = .ok ()

section Opening

variable {C : Crypto} {F : GuardFormat} {now : UInt64} {failure : Option String}
  {bytes : List UInt8} {st : GuardState}

lemma loadState_eq_ok_iff : loadState C F now (some bytes) = .ok st ↔ Readable C F bytes st := by
  constructor
  · intro h
    have hdec := decode_of_loadState h
    simp only [loadState, hdec] at h
    split at h
    · cases h
    · rename_i hversion
      cases hchain : st.verifyChain C F with
      | error e => simp [hchain, bind, Except.bind] at h
      | ok _ => exact ⟨hdec, not_not.mp hversion, hchain⟩
  · intro h
    simp [loadState, h.decoded, h.version, h.chain, bind, Except.bind, pure, Except.pure]

lemma withConfig_readable (h : Readable C F bytes st) :
    withConfig C F now failure (some bytes) = .ok (st, some bytes) := by
  simp [withConfig, loadState_eq_ok_iff.mpr h, h.chain, bind, Except.bind, pure, Except.pure]

lemma verifyChain_buildPersistedState (now : UInt64) (st : GuardState) :
    (st.buildPersistedState C F now).verifyChain C F = .ok () := by
  have hstamp : (st.buildPersistedState C F now).chainHash =
      (st.buildPersistedState C F now).computeHash C F := rfl
  rw [verifyChain, if_pos hstamp, ite_self]

lemma withConfig_unreadable (h : ∀ st, ¬ Readable C F bytes st) :
    withConfig C F now failure (some bytes) =
      match failure with
      | some e => .error e
      | none =>
        let st := buildPersistedState C F now { lastModified := now }
        .ok (st, some (F.encode st)) := by
  cases hload : loadState C F now (some bytes) with
  | ok st => exact absurd (loadState_eq_ok_iff.mp hload) (h st)
  | error e =>
    cases failure with
    | some e' => simp [withConfig, hload, saveState, bind, Except.bind]
    | none =>
      simp [withConfig, hload, saveState, verifyChain_buildPersistedState, bind, Except.bind, pure,
        Except.pure]

lemma not_covers_fresh (s : Statement) :
    ¬ (buildPersistedState C F now { lastModified := now }).Covers s := by
  intro h
  cases s with
  | proposal height round id =>
    rw [Covers, HasProposal, buildPersistedState_proposals, Std.ExtTreeMap.getElem?_empty] at h
    cases h
  | vote vt height round id =>
    rw [Covers, HasVote, buildPersistedState_votes, Std.ExtTreeMap.getElem?_empty] at h
    cases h

end Opening

def FailsClosed (opened : Except String (GuardState × Option (List UInt8)))
    (recorded : List Statement) : Prop :=
  ∀ g file, opened = .ok (g, file) → ∀ s ∈ recorded,
    g.Covers s ∧ ∀ s', s.Conflicts s' → ∃ e, g.check s' = .error e

/-- **When the guard fails closed**: a file that parses has all recorded entries, or one that does
not parse had none to lose or cannot be replaced. -/
theorem fails_closed_iff (C : Crypto) (F : GuardFormat) (start : GuardState)
    (calls : List RecordCall) (now : UInt64) (failure : Option String) (bytes : List UInt8) :
    FailsClosed (withConfig C F now failure (some bytes)) (recordAll C F start calls).2 ↔
      (∃ st, Readable C F bytes st ∧ ∀ s ∈ (recordAll C F start calls).2, st.Covers s) ∨
      (∀ st, ¬ Readable C F bytes st) ∧
        ((recordAll C F start calls).2 = [] ∨ failure ≠ none) := by
  generalize (recordAll C F start calls).2 = recorded
  unfold FailsClosed
  by_cases hread : ∃ st, Readable C F bytes st
  · obtain ⟨st, hst⟩ := hread
    rw [withConfig_readable hst]
    constructor
    · intro h
      exact .inl ⟨st, hst, fun s hs => (h st _ rfl s hs).1⟩
    · intro h g file hopened s hs
      obtain rfl : st = g := (Prod.mk.inj (Except.ok.inj hopened)).1
      rcases h with ⟨st', hst', hcovers⟩ | ⟨hnot, -⟩
      · obtain rfl : st' = st := Option.some.inj (hst'.decoded.symm.trans hst.decoded)
        exact ⟨hcovers s hs, fun s' => (hcovers s hs).refuses⟩
      · exact absurd hst (hnot st)
  · have hnot : ∀ st, ¬ Readable C F bytes st := not_exists.mp hread
    rw [withConfig_unreadable hnot]
    cases failure with
    | some e =>
      refine iff_of_true (fun g file hopened => nomatch hopened) ?_
      exact .inr ⟨hnot, .inr (Option.some_ne_none e)⟩
    | none =>
      constructor
      · intro h
        refine .inr ⟨hnot, .inl (List.eq_nil_iff_forall_not_mem.mpr fun s hs => ?_)⟩
        exact not_covers_fresh s (h _ _ rfl s hs).1
      · intro h g file hopened s hs
        rcases h with ⟨st, hst, -⟩ | ⟨-, rfl | hfail⟩
        · exact absurd hst (hnot st)
        · cases hs
        · exact absurd rfl hfail

/-! ### A file whose hash was changed -/

def tamperCall : RecordCall where
  statement := .proposal 5 0 (.ofNat 5)
  now := 1

def tampered : GuardState :=
  { (recordAll .demo (.table []) { lastModified := 0 } [tamperCall]).1 with chainHash := "00" }

/-- The guard opened on the changed file accepts another proposal for the same round. -/
theorem tampered_file_accepted :
    (recordAll .demo (.table [tampered]) { lastModified := 0 } [tamperCall]).2 =
        [tamperCall.statement] ∧
      (withConfig .demo (.table [tampered]) 9 none
          (some ((GuardFormat.table [tampered]).encode tampered))).map
        (fun opened => opened.1.check (.proposal 5 0 (.ofNat 6))) = .ok (.ok ()) ∧
      tamperCall.statement.Conflicts (.proposal 5 0 (.ofNat 6)) := by
  refine ⟨by decide +kernel, by decide +kernel, .proposal 5 0 (by decide)⟩

end Iona
