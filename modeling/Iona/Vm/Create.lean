import Iona.Lib.Trace
import Iona.Vm.State

/-! # Addresses of contracts -/

namespace Iona.Vm

open Option

open Std.ExtTreeMap

inductive CreateOp where
  | create (creator : Word) (value : ℕ) (initCode : List UInt8)
  | create2 (creator : Word) (value : ℕ) (initCode : List UInt8) (salt : Word)
  | delete (contract : Word)
  | setCode (contract : Word) (code : List UInt8)

namespace CreateOp

def apply (st : State) : CreateOp → Option Word × State
  | .create creator value initCode =>
    let (addr, st) := st.createContract creator value initCode
    (some addr, st)
  | .create2 creator value initCode salt =>
    let (addr, st) := st.create2Contract creator value initCode salt
    (some addr, st)
  | .delete contract => (none, st.deleteContract contract)
  | .setCode contract code => (none, st.setCode contract code)

def seed (st : State) : CreateOp → Option (List UInt8)
  | .create creator _ _ => some (creator.toList.take 8 ++ Bytes.ofU64 (st.getNonce creator))
  | .create2 creator _ _ salt => some (creator.toList.take 8 ++ salt.toList.take 8)
  | _ => none

def target : CreateOp → Option Word
  | .setCode contract _ => some contract
  | _ => none

end CreateOp

/-! ### Addresses -/

def addressOf (seed : List UInt8) : Word := Vector.ofFn fun i => seed.getD i 0

variable {st : State}

lemma addressOf_inj {s t : List UInt8} (hs : s.length = 16) (ht : t.length = 16)
    (h : addressOf s = addressOf t) : s = t := by
  refine List.ext_getElem (hs.trans ht.symm) fun i hi hi' => ?_
  have hget : (addressOf s)[i] = (addressOf t)[i] := by rw [h]
  simpa [addressOf, List.getD_eq_getElem?_getD, hi, hi'] using hget

lemma length_take_word (w : Word) : (w.toList.take 8).length = 8 := by
  rw [List.length_take, Vector.length_toList]
  rfl

lemma CreateOp.length_seed {op : CreateOp} {seed : List UInt8} (h : op.seed st = some seed) :
    seed.length = 16 := by
  cases op with
  | create creator value initCode =>
    cases h
    rw [List.length_append, length_take_word, Bytes.length_ofU64]
  | create2 creator value initCode salt =>
    cases h
    rw [List.length_append, length_take_word, length_take_word]
  | delete contract => cases h
  | setCode contract code => cases h

lemma CreateOp.apply_fst (st : State) (op : CreateOp) :
    (op.apply st).1 = (op.seed st).map addressOf := by
  cases op <;> rfl

/-! ### Code -/

lemma transferIgnored_code (st : State) (src dst : Word) (amount : ℕ) :
    (st.transferIgnored src dst amount).code = st.code := by
  unfold State.transferIgnored
  rcases Nat.lt_or_ge (st.balance src) amount with hlt | hle
  · rw [State.transferBalance_error hlt]
  · rw [State.transferBalance_ok hle]
    rfl

lemma setCode_code_of_ne {contract a : Word} (h : a ≠ contract) (code : List UInt8) :
    (st.setCode contract code).code[a]? = st.code[a]? := by
  have hne : contract ≠ a := fun hca => h hca.symm
  unfold State.setCode
  split
  · simp [getElem?_erase, hne]
  · simp [getElem?_insert, hne]

lemma CreateOp.code_of_apply {op : CreateOp} {a : Word} (h : (op.apply st).2.code[a]? ≠ none) :
    st.code[a]? ≠ none ∨ op.target = some a ∨ (op.apply st).1 = some a := by
  cases op with
  | create creator value initCode =>
    by_cases ha : a = State.deriveAddress creator (Bytes.ofU64 (st.getNonce creator))
    · exact .inr (.inr (congrArg some ha.symm))
    · -- the transfer behind the code write touches balances only
      change (State.transferIgnored _ _ _ _).code[a]? ≠ none at h
      rw [transferIgnored_code, setCode_code_of_ne ha] at h
      exact .inl h
  | create2 creator value initCode salt =>
    by_cases ha : a = State.deriveAddress creator (salt.toList.take 8)
    · exact .inr (.inr (congrArg some ha.symm))
    · change (State.transferIgnored _ _ _ _).code[a]? ≠ none at h
      rw [transferIgnored_code, setCode_code_of_ne ha] at h
      exact .inl h
  | delete contract =>
    refine .inl fun hnone => h ?_
    change (st.code.erase contract)[a]? = none
    rw [getElem?_erase, hnone]
    split <;> rfl
  | setCode contract code =>
    by_cases ha : a = contract
    · exact .inr (.inl (congrArg some ha.symm))
    · exact .inl (by rwa [← setCode_code_of_ne ha code])

/-! ### Runs -/

structure Registry where
  state : State
  seeds : List (List UInt8)
  returned : List Word
  written : List Word

namespace Registry

def init (state : State) : Registry := ⟨state, [], [], state.code.keys⟩

def step (r : Registry) (op : CreateOp) : Option Registry :=
  some ⟨(op.apply r.state).2, (op.seed r.state).toList ++ r.seeds, (op.apply r.state).1.toList ++ r.returned,
    op.target.toList ++ r.written⟩

def Fresh (r : Registry) (op : CreateOp) : Prop :=
  ∀ a, (op.apply r.state).1 = some a → a ∉ r.returned ∧ r.state.code[a]? = none

def Unused (r : Registry) (op : CreateOp) : Prop :=
  ∀ seed, op.seed r.state = some seed → seed ∉ r.seeds ∧ addressOf seed ∉ r.written

structure Recorded (r : Registry) : Prop where
  length : ∀ s ∈ r.seeds, s.length = 16
  returned : ∀ a ∈ r.returned, ∃ s ∈ r.seeds, a = addressOf s
  seeds : ∀ s ∈ r.seeds, addressOf s ∈ r.returned
  code : ∀ a, r.state.code[a]? ≠ none → a ∈ r.written ∨ a ∈ r.returned

lemma Recorded.init (st : State) : (Registry.init st).Recorded where
  length := fun s hs => absurd hs List.not_mem_nil
  returned := fun a ha => absurd ha List.not_mem_nil
  seeds := fun s hs => absurd hs List.not_mem_nil
  code := fun a ha => by
    refine .inl (mem_keys.mpr ?_)
    exact mem_iff_isSome_getElem?.mpr (isSome_iff_ne_none.mpr ha)

lemma Recorded.step {r r' : Registry} {op : CreateOp} (h : r.Recorded) (hstep : r.step op = some r') :
    r'.Recorded := by
  cases hstep
  refine ⟨fun s hs => ?_, fun a ha => ?_, fun s hs => ?_, fun a ha => ?_⟩
  · rcases List.mem_append.mp hs with hs | hs
    · exact CreateOp.length_seed (mem_toList.mp hs)
    · exact h.length s hs
  · rcases List.mem_append.mp ha with ha | ha
    · have hret : (op.apply r.state).1 = some a := mem_toList.mp ha
      rw [CreateOp.apply_fst, map_eq_some_iff] at hret
      obtain ⟨s, hs, rfl⟩ := hret
      exact ⟨s, List.mem_append_left _ (mem_toList.mpr hs), rfl⟩
    · obtain ⟨s, hs, rfl⟩ := h.returned a ha
      exact ⟨s, List.mem_append_right _ hs, rfl⟩
  · rcases List.mem_append.mp hs with hs | hs
    · refine List.mem_append_left _ (mem_toList.mpr ?_)
      rw [CreateOp.apply_fst, mem_toList.mp hs]
      rfl
    · exact List.mem_append_right _ (h.seeds s hs)
  · rcases CreateOp.code_of_apply ha with hold | htarget | hret
    · rcases h.code a hold with hw | hr
      · exact .inl (List.mem_append_right _ hw)
      · exact .inr (List.mem_append_right _ hr)
    · exact .inl (List.mem_append_left _ (mem_toList.mpr htarget))
    · exact .inr (List.mem_append_left _ (mem_toList.mpr hret))

lemma Recorded.fresh {r : Registry} {op : CreateOp} (h : r.Recorded) (hunused : r.Unused op) :
    r.Fresh op := by
  intro a ha
  rw [CreateOp.apply_fst, map_eq_some_iff] at ha
  obtain ⟨s, hs, rfl⟩ := ha
  obtain ⟨hseed, hwritten⟩ := hunused s hs
  -- an address has one seed, so an earlier creation with this address had this seed
  have hreturned : addressOf s ∉ r.returned := fun hmem => by
    obtain ⟨t, ht, heq⟩ := h.returned _ hmem
    exact hseed (addressOf_inj (CreateOp.length_seed hs) (h.length t ht) heq ▸ ht)
  refine ⟨hreturned, ?_⟩
  by_contra hcode
  rcases h.code _ hcode with hw | hr
  · exact hwritten hw
  · exact hreturned hr

end Registry

def Registry.Unrepeated (r : Registry) (op : CreateOp) : Prop :=
  ∀ seed, op.seed r.state = some seed → seed ∉ r.seeds

/-- **Addresses are fresh** in every run of creations, deletions and code writes whose creations all
have an unused seed; and in a run where they are, no seed is used twice. -/
theorem creations_fresh (st : State) (ops : List CreateOp) :
    (Trace.Along Registry.step Registry.Unused (Registry.init st) ops →
      Trace.Along Registry.step Registry.Fresh (Registry.init st) ops) ∧
    (Trace.Along Registry.step Registry.Fresh (Registry.init st) ops →
      Trace.Along Registry.step Registry.Unrepeated (Registry.init st) ops) := by
  have hrec : ∀ {pre r}, Trace.run Registry.step (Registry.init st) pre = some r → r.Recorded :=
    fun hr => Trace.run_invariant (fun _ _ _ h hstep => h.step hstep) (.init st) hr
  constructor
  · intro h pre op post hsplit r hr
    exact (hrec hr).fresh (h pre op post hsplit r hr)
  · intro h pre op post hsplit r hr seed hseed hmem
    have haddr : (op.apply r.state).1 = some (addressOf seed) := by
      rw [CreateOp.apply_fst, hseed]
      rfl
    exact (h pre op post hsplit r hr _ haddr).1 ((hrec hr).seeds seed hmem)

def someCreator : Word := addressOf (1 :: List.replicate 30 0 ++ [9])

theorem two_creations_fresh :
    Trace.Along Registry.step Registry.Fresh (Registry.init {})
      [.create someCreator 0 [1], .create someCreator 0 [2], .setCode zero [3]] := by
  let test : Registry → CreateOp → Bool := fun r op => (op.seed r.state).all fun seed =>
    !r.seeds.contains seed && !r.written.contains (addressOf seed)
  have htest : ∀ r op, test r op = true → r.Unused op := by
    intro r op h seed hseed
    simpa [test, hseed] using h
  exact (creations_fresh {} _).1 (Trace.along_of_alongTest htest (by decide +kernel))

/-- A contract creates a contract: the address is its own, and its code is replaced. -/
theorem contract_creates_itself :
    let first := (CreateOp.create someCreator 0 [1]).apply {}
    let contract := addressOf [1]
    let second := (CreateOp.create contract 0 [2]).apply first.2
    (first.1 = some contract ∧ second.1 = some contract) ∧
      (first.2.getCode contract = [1] ∧ second.2.getCode contract = [2]) := by
  decide +kernel

end Iona.Vm
