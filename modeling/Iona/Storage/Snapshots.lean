import Iona.Lib.Trace

/-! # Pruning snapshots -/

namespace Iona.Snapshots

open List

inductive FileKind where
  | state
  | manifest
  | statesync
  | attestation
  deriving DecidableEq

structure SnapshotDir (σ : Type) where
  files : List (FileKind × ℕ) := []
  states : ℕ → Option σ := fun _ => none

variable {σ : Type}

namespace SnapshotDir

def addFile (d : SnapshotDir σ) (kind : FileKind) (height : ℕ) : SnapshotDir σ :=
  { d with files := d.files.insert (kind, height) }

def writeSnapshot (d : SnapshotDir σ) (height : ℕ) (state : σ) : SnapshotDir σ :=
  let d := d.addFile .state height
  { d.addFile .manifest height with states := Function.update d.states height (some state) }

def readSnapshotState (d : SnapshotDir σ) (height : ℕ) : Option σ :=
  if (.state, height) ∈ d.files then d.states height else none

def listSnapshotHeights (d : SnapshotDir σ) : List ℕ :=
  (d.files.map Prod.snd).insertionSort (· ≤ ·)

def latestSnapshotHeight (d : SnapshotDir σ) : Option ℕ := d.listSnapshotHeights.getLast?

inductive Write (σ : Type) where
  | snapshot (height : ℕ) (state : σ)
  | file (kind : FileKind) (height : ℕ)

def write (d : SnapshotDir σ) : Write σ → Option (SnapshotDir σ)
  | .snapshot height state => some (d.writeSnapshot height state)
  | .file kind height => if (.state, height) ∈ d.files then some (d.addFile kind height) else none

/-- **The directories that writing leads to.** -/
structure Written (d : SnapshotDir σ) : Prop where
  nodup : d.files.Nodup
  manifest : ∀ height, (.state, height) ∈ d.files → (.manifest, height) ∈ d.files
  state : ∀ f ∈ d.files, (.state, f.2) ∈ d.files
  held : ∀ height, (.state, height) ∈ d.files → (d.states height).isSome

/-! ### Writing -/

section Writing

variable {d d' : SnapshotDir σ}

lemma Written.addFile (h : d.Written) (kind : FileKind) {height : ℕ}
    (hstate : (.state, height) ∈ d.files) : (d.addFile kind height).Written := by
  have hold : ∀ f, f ∈ (d.addFile kind height).files ↔ f = (kind, height) ∨ f ∈ d.files :=
    fun f => mem_insert_iff
  refine ⟨h.nodup.insert, fun k hk => ?_, fun f hf => ?_, fun k hk => ?_⟩
  · rcases (hold _).mp hk with heq | hk
    · cases heq
      exact (hold _).mpr (.inr (h.manifest _ hstate))
    · exact (hold _).mpr (.inr (h.manifest k hk))
  · rcases (hold _).mp hf with rfl | hf
    · exact (hold _).mpr (.inr hstate)
    · exact (hold _).mpr (.inr (h.state f hf))
  · rcases (hold _).mp hk with heq | hk
    · cases heq
      exact h.held _ hstate
    · exact h.held k hk

lemma Written.writeSnapshot (h : d.Written) (height : ℕ) (state : σ) :
    (d.writeSnapshot height state).Written := by
  have hold : ∀ f, f ∈ (d.writeSnapshot height state).files ↔
      f = (.manifest, height) ∨ f = (.state, height) ∨ f ∈ d.files := fun f => by
    change f ∈ (d.files.insert _).insert _ ↔ _
    rw [mem_insert_iff, mem_insert_iff]
  refine ⟨h.nodup.insert.insert, fun k hk => ?_, fun f hf => ?_, fun k hk => ?_⟩
  · rcases (hold _).mp hk with heq | heq | hk
    · cases heq
    · cases heq
      exact (hold _).mpr (.inl rfl)
    · exact (hold _).mpr (.inr (.inr (h.manifest k hk)))
  · rcases (hold _).mp hf with rfl | rfl | hf
    · exact (hold _).mpr (.inr (.inl rfl))
    · exact (hold _).mpr (.inr (.inl rfl))
    · exact (hold _).mpr (.inr (.inr (h.state f hf)))
  · change (Function.update d.states height (some state) k).isSome
    rcases eq_or_ne k height with rfl | hne
    · rw [Function.update_self]
      rfl
    · rw [Function.update_of_ne hne]
      rcases (hold _).mp hk with heq | heq | hk
      · cases heq
      · cases heq
        exact absurd rfl hne
      · exact h.held k hk

lemma Written.write {op : Write σ} (h : d.Written) (hop : d.write op = some d') : d'.Written := by
  cases op with
  | snapshot height state =>
    cases hop
    exact h.writeSnapshot height state
  | file kind height =>
    simp only [SnapshotDir.write, Option.ite_none_right_eq_some] at hop
    obtain ⟨hstate, hop⟩ := hop
    cases hop
    exact h.addFile kind hstate

end Writing

/-! ### Pruning -/

section Pruning

variable {d : SnapshotDir σ} {keep : ℕ}

end Pruning

end SnapshotDir

end Iona.Snapshots
