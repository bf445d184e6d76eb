import Iona.Lib.MapSum
import Iona.Vm.Subcall

/-! # Balances of the VM -/

namespace Iona.Vm

namespace State

def total (st : State) : ℕ := MapSum.sumBy id st.balances

lemma share_balance (st : State) (a : Word) : MapSum.share id st.balances[a]? = st.balance a := by
  unfold balance
  rw [Std.ExtTreeMap.getD_eq_getD_getElem?]
  cases st.balances[a]? <;> rfl

lemma balance_setBalance (st : State) (a b : Word) (v : ℕ) :
    (st.setBalance a v).balance b = if b = a then v else st.balance b := by
  unfold balance setBalance
  rw [Std.ExtTreeMap.getD_insert]
  by_cases h : b = a
  · simp [h]
  · have hne : a ≠ b := fun hab => h hab.symm
    simp [h, hne]

lemma total_setBalance (st : State) (a : Word) (v : ℕ) :
    (st.setBalance a v).total + st.balance a = st.total + v := by
  rw [← share_balance]
  exact MapSum.sumBy_insert id st.balances a v

/-- **A transfer between two accounts** fails and leaves the state as it is, or takes the amount
from the one and adds it to the other, up to the greatest balance. -/
theorem transfer_moves_amount (st : State) {src dst : Word} (hne : src ≠ dst) (amount : ℕ) :
    (st.transferBalance src dst amount = .error (.insufficientBalance (st.balance src) amount) ∧
      st.transferIgnored src dst amount = st) ∨
    ∃ st', st.transferBalance src dst amount = .ok st' ∧
      st'.balance src + amount = st.balance src ∧
      st'.balance dst = min (st.balance dst + amount) u128Max ∧
      (∀ a, a ≠ src → a ≠ dst → st'.balance a = st.balance a) ∧
      st' = { st with balances := st'.balances } ∧
      st'.total + (st.balance dst + amount - u128Max) = st.total ∧
      (st'.total = st.total ↔ st.balance dst + amount ≤ u128Max) := by
  rcases Nat.lt_or_ge (st.balance src) amount with hlt | hle
  · refine .inl ⟨transferBalance_error hlt, ?_⟩
    rw [transferIgnored, transferBalance_error hlt]
  · refine .inr ⟨_, transferBalance_ok hle, ?_, ?_, fun a hsrc hdst => ?_, rfl, ?_⟩
    · rw [balance_setBalance, if_neg hne, balance_setBalance, if_pos rfl]
      omega
    · rw [balance_setBalance, if_pos rfl]
    · rw [balance_setBalance, if_neg hdst, balance_setBalance, if_neg hsrc]
    · -- one write after the other, the second onto a balance the first left alone
      have hdebit := st.total_setBalance src (st.balance src - amount)
      have hcredit := (st.setBalance src (st.balance src - amount)).total_setBalance dst
        (min (st.balance dst + amount) u128Max)
      rw [balance_setBalance, if_neg hne.symm] at hcredit
      have hlost : ((st.setBalance src (st.balance src - amount)).setBalance dst
          (min (st.balance dst + amount) u128Max)).total + (st.balance dst + amount - u128Max) = st.total := by
        omega
      refine ⟨hlost, ?_⟩
      omega

end State

def richState (a b : ℕ) : State := (({} : State).setBalance zero a).setBalance callee b

theorem transfer_of_three :
    ∃ st', (richState 10 5).transferBalance zero callee 3 = .ok st' ∧ st'.balance zero = 7 ∧
      st'.balance callee = 8 ∧ st'.total = (richState 10 5).total := by
  have hbal : (richState 10 5).balance zero = 10 ∧ (richState 10 5).balance callee = 5 := by decide +kernel
  have hne : zero ≠ callee := by decide +kernel
  rcases State.transfer_moves_amount (richState 10 5) hne 3 with ⟨herror, -⟩ | ⟨st', hok, hsrc, hdst, -, -, -, htotal⟩
  · rw [State.transferBalance_ok (by omega)] at herror
    cases herror
  · rw [hbal.2] at hdst htotal
    refine ⟨st', hok, by omega, hdst, htotal.mpr (by decide)⟩

/-- What is not so: a credit that saturates loses value, a transfer to oneself creates it, and a `CALL`
with a value of 5 (`PUSH2 50000; PUSH1 7; PUSH1 5; PUSH1 0` four times`; CALL; STOP`) succeeds and moves
nothing. -/
theorem value_lost_created_and_not_moved :
    let out := execute (fun _ => zero) 30 (richState 10 0) zero
      [0x61, 0xC3, 0x50, 0x60, 7, 0x60, 5, 0x60, 0, 0x60, 0, 0x60, 0, 0x60, 0, 0xF1, 0x00] [] zero 0
      1000000 0 false
    (((richState 1 u128Max).transferBalance zero callee 1).toOption.map State.total = some u128Max ∧
      (richState 1 u128Max).total = u128Max + 1) ∧
    ((richState 10 0).transferBalance zero zero 3).toOption.map State.total = some 13 ∧
    (succeeded out.1 = true ∧ out.2 = richState 10 0) := by
  decide +kernel

end Iona.Vm
