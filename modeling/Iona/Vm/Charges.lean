import Iona.Vm.Subcall

/-! # Where the gas goes -/

namespace Iona.Vm

variable (keccak : List UInt8 → Word)

/-! ### Calls -/

structure CallGas where
  charged : ℕ
  used : ℕ
  deriving DecidableEq

def startedBy (cx : Ctx) (op : Op) (st : State) (c : Core) : Option Subcall := do
  let setup ← setupOf cx op
  let out := setup st c
  match out.1 with
  | .ok (some sub) => if (chargeGas sub.frame.gasLimit out.2).1 = .ok () then some sub else none
  | _ => none

def reportedGas : Res VmError ExecutionResult → Option ℕ
  | .ok result => some result.gasUsed
  | _ => none

def callOf (fuel : ℕ) (cx : Ctx) (opcode : UInt8) (it it₁ : Interpreter) : Option CallGas := do
  let sub ← startedBy cx (decode opcode) it.state it.moved.core
  let used ← reportedGas (runFrame keccak fuel sub.frame sub.code it.state).1
  pure { charged := it₁.core.gas.used - it.core.gas.used, used }

def callsOf : ℕ → Ctx → Interpreter → List CallGas
  | 0, _, _ => []
  | fuel + 1, cx, it =>
    if it.core.halted then []
    else match cx.code[it.core.pc]? with
      | none => []
      | some opcode =>
        match stepOpcode keccak (runFrame keccak fuel) cx opcode it with
        | (.ok (), it₁) => (callOf keccak fuel cx opcode it it₁).toList ++ callsOf fuel cx it₁
        | _ => []

section Calls

variable {keccak} {fuel : ℕ} {cx : Ctx} {it it₁ : Interpreter} {opcode : UInt8} {sub : Subcall}

lemma starts_of_startedBy {op : Op} {st : State} {c : Core} (h : startedBy cx op st c = some sub) :
    Starts cx op st c sub := by
  obtain ⟨setup, hsetup, h⟩ := Option.bind_eq_some_iff.mp h
  rcases hres : (setup st c).1 with (_ | sub') | e | why
  · simp [hres] at h
  · simp only [hres] at h
    split at h
    · rename_i hpay
      cases h
      exact ⟨setup, _, hsetup, Prod.ext hres rfl, hpay⟩
    · cases h
  · simp [hres] at h
  · simp [hres] at h

lemma run_of_halted (hhalt : it.core.halted = true) {r : ExecutionResult}
    (h : (run keccak fuel cx it).1 = .ok r) : r.gasUsed = it.core.gas.used := by
  cases fuel with
  | zero => cases h
  | succ fuel =>
    rw [run_halted hhalt] at h
    cases h
    rfl

lemma limit_of_start {frame : Frame} {code : List UInt8} {core : Core}
    (h : start frame code = .ok (cx, core)) : core.gas.limit ≤ max frame.gasLimit 1 := by
  unfold start at h
  split at h
  · cases h
  · split at h
    · cases h
    · cases h
      exact max_le_max_right 1 (min_le_left _ _)

lemma callOf_le (hcx : cx.Sound) (hit : it.core.Sound) (hcode : cx.code[it.core.pc]? = some opcode)
    (hstep : stepOpcode keccak (runFrame keccak fuel) cx opcode it = (.ok (), it₁))
    (hchild : ∀ (sub : Subcall) r, (runFrame keccak fuel sub.frame sub.code it.state).1 = .ok r →
      r.gasUsed ≤ max sub.frame.gasLimit 1) {call : CallGas}
    (h : callOf keccak fuel cx opcode it it₁ = some call) :
    call.used ≤ call.charged ∧ call.charged = it₁.core.gas.used - it.core.gas.used := by
  obtain ⟨sub, hsub, h⟩ := Option.bind_eq_some_iff.mp h
  obtain ⟨used, hreport, h⟩ := Option.bind_eq_some_iff.mp h
  cases h
  refine ⟨?_, rfl⟩
  rcases hres : (runFrame keccak fuel sub.frame sub.code it.state).1 with r | e | why
  · rw [hres] at hreport
    cases hreport
    obtain ⟨it₂, hstep₂, -, -, -, hgas⟩ := callee_back hcx hit hcode (starts_of_startedBy hsub)
      (show comesBack (runFrame keccak fuel sub.frame sub.code it.state).1 = true by rw [hres]; rfl)
    rw [hstep] at hstep₂
    cases hstep₂
    -- a frame may use 1 where it was given 0, but the call itself costs more
    have hone : 1 ≤ gasCall := by decide
    have hused := hchild sub r hres
    change r.gasUsed ≤ it₁.core.gas.used - it.core.gas.used
    omega
  · rw [hres] at hreport
    cases hreport
  · rw [hres] at hreport
    cases hreport

variable (keccak fuel) in
lemma run_gas (hcx : cx.Sound) (hit : it.core.Sound) :
    (∀ call ∈ callsOf keccak fuel cx it, call.used ≤ call.charged) ∧
      ∀ r, (run keccak fuel cx it).1 = .ok r →
        it.core.gas.used + ((callsOf keccak fuel cx it).map CallGas.charged).sum ≤ r.gasUsed ∧
          r.gasUsed ≤ it.core.gas.limit := by
  induction fuel generalizing cx it with
  | zero => exact ⟨fun call h => (by cases h), fun r h => (by cases h)⟩
  | succ fuel ih =>
    -- a frame that has ended reports what it has used
    have hended : ∀ it₁ : Interpreter, it₁.core.halted = true → Since it.moved.core 0 it₁.core →
        ∀ r, (run keccak fuel cx it₁).1 = .ok r →
          it.core.gas.used + 0 ≤ r.gasUsed ∧ r.gasUsed ≤ it.core.gas.limit := by
      intro it₁ hhalt hsince r h
      rw [run_of_halted hhalt h]
      exact ⟨hsince.le_used, hsince.sound.used_le.trans_eq hsince.limit_eq⟩
    cases hlive : it.core.halted with
    | true =>
      rw [callsOf, if_pos hlive, run_halted hlive]
      refine ⟨fun call h => (by cases h), fun r h => ?_⟩
      cases h
      exact ⟨le_rfl, hit.used_le⟩
    | false =>
      rw [callsOf, if_neg (by simp [hlive])]
      rcases hcode : cx.code[it.core.pc]? with _ | opcode
      · rw [run_end hlive hcode]
        exact ⟨fun call h => (by cases h),
          hended _ rfl { sound := { hit with }, limit_eq := rfl, le_used := le_rfl }⟩
      have hmeets := stepOpcode_meets keccak hcx hit hcode fuel
      rw [run_opcode hlive hcode]
      rcases hstep : stepOpcode keccak (runFrame keccak fuel) cx opcode it with ⟨u | e | why, it₁⟩
      · rw [hstep] at hmeets
        have hafter : After cx (decode opcode) it.moved.core it₁.core := hmeets.2.2 () rfl
        have hused : it.core.gas.used ≤ it₁.core.gas.used := hafter.le_used
        obtain ⟨hcalls, hrun⟩ := ih hcx hafter.sound
        have hrun' : ∀ r, (run keccak fuel cx it₁).1 = .ok r →
            it₁.core.gas.used + ((callsOf keccak fuel cx it₁).map CallGas.charged).sum ≤ r.gasUsed ∧
              r.gasUsed ≤ it.core.gas.limit := by
          intro r h
          exact ⟨(hrun r h).1, (hrun r h).2.trans_eq hafter.limit_eq⟩
        cases hcall : callOf keccak fuel cx opcode it it₁ with
        | none =>
          simp only [hstep, hcall, Option.toList_none, List.nil_append]
          exact ⟨hcalls, fun r h => ⟨(Nat.add_le_add_right hused _).trans (hrun' r h).1, (hrun' r h).2⟩⟩
        | some call =>
          have hchild : ∀ (sub : Subcall) r, (runFrame keccak fuel sub.frame sub.code it.state).1 = .ok r →
              r.gasUsed ≤ max sub.frame.gasLimit 1 := by
            intro sub r hres
            unfold runFrame at hres
            rcases hstart : start sub.frame sub.code with e | ⟨cx₁, core₁⟩
            · rw [hstart] at hres
              cases hres
            · rw [hstart] at hres
              obtain ⟨hcx₁, hcore₁, -⟩ := start_ok hstart
              exact ((ih hcx₁ hcore₁).2 r hres).2.trans (limit_of_start hstart)
          obtain ⟨hle, hcharged⟩ := callOf_le hcx hit hcode hstep hchild hcall
          simp only [hstep, hcall, Option.toList_some, List.singleton_append, List.forall_mem_cons,
            List.map_cons, List.sum_cons]
          refine ⟨⟨hle, hcalls⟩, fun r h => ⟨?_, (hrun' r h).2⟩⟩
          have := (hrun' r h).1
          omega
      · rw [hstep] at hmeets
        simp only [hstep]
        refine ⟨fun call h => (by cases h), fun r h => ?_⟩
        cases e with
        | revert reason =>
          have hsince := (hmeets.2.1 _ rfl reason rfl).2
          have hsound : { it₁.core with reverted := true, returnData := reason, halted := true }.Sound :=
            { hsince.sound with return_le := (hmeets.2.1 _ rfl reason rfl).1 }
          exact hended ⟨_, it₁.state⟩ rfl { hsince with sound := hsound } r h
        | _ => cases h
      · simp only [hstep]
        exact ⟨fun call h => (by cases h), fun r h => (by cases h)⟩

end Calls

/-- **Gas across frames**: a frame reports at most its limit (or 1), every nested frame uses at most
what the caller was charged for it, and the caller's report covers them all. -/
theorem gas_accounted_across_frames {frame : Frame} {code : List UInt8} {cx : Ctx} {core : Core}
    (hstart : start frame code = .ok (cx, core)) (state : State) (fuel : ℕ) :
    (∀ call ∈ callsOf keccak fuel cx { core, state }, call.used ≤ call.charged) ∧
      ∀ r, (run keccak fuel cx { core, state }).1 = .ok r → r.gasUsed ≤ max frame.gasLimit 1 ∧
        ((callsOf keccak fuel cx { core, state }).map CallGas.used).sum ≤ r.gasUsed := by
  obtain ⟨hcx, hcore, -, hused⟩ := start_ok hstart
  have hit : (⟨core, state⟩ : Interpreter).core.Sound := hcore
  obtain ⟨hcalls, hrun⟩ := run_gas keccak fuel hcx hit
  refine ⟨hcalls, fun r h => ⟨(hrun r h).2.trans (limit_of_start hstart), ?_⟩⟩
  exact (List.sum_le_sum hcalls).trans (Nat.le_of_add_left_le (hrun r h).1)

/-- A caller is charged 50100 for a callee that uses 6. -/
theorem gas_accounted_call :
    callsOf (fun _ => zero) 30 callerCx (callerStart revertProgram) = [⟨50100, 6⟩] ∧
      ∃ r, (run (fun _ => zero) 30 callerCx (callerStart revertProgram)).1 = .ok r ∧
        r.gasUsed ≤ 1000000 ∧ [6].sum ≤ r.gasUsed := by
  have hstart : start callerFrame callProgram =
      .ok (callerCx, { gas := GasMeter.new callerFrame.gasLimit }) := rfl
  have hcalls : callsOf (fun _ => zero) 30 callerCx (callerStart revertProgram) = [⟨50100, 6⟩] := by
    decide +kernel
  obtain ⟨-, hrun⟩ := gas_accounted_across_frames (fun _ => zero) hstart (stateWith revertProgram) 30
  have hres : (run (fun _ => zero) 30 callerCx (callerStart revertProgram)).1 =
      .ok ⟨[], 50121, false, 0⟩ := by decide +kernel
  obtain ⟨hlimit, hsum⟩ := hrun _ hres
  refine ⟨hcalls, _, hres, hlimit, ?_⟩
  change ((callsOf (fun _ => zero) 30 callerCx (callerStart revertProgram)).map CallGas.used).sum ≤ _ at hsum
  rwa [hcalls] at hsum

/-- A frame without gas is given 1, and a `JUMPDEST` uses it. -/
theorem frame_without_gas_uses_one :
    reportedGas (runFrame (fun _ => zero) 5 ⟨zero, zero, 0, [], 0, 0, false⟩ [0x5B] {}).1 = some 1 := by
  decide +kernel

/-! ### Memory -/

section Memory

variable {keccak} {cx : Ctx} {op : Op} {c c' : Core}

/-- A calling opcode finds its ranges in memory that is already there. -/
def Covered (op : Op) (c : Core) : Prop :=
  op.calls = true → ∀ range ∈ op.ranges c.stack, wordRange range.1 range.2 ≤ c.mem.words

end Memory

end Iona.Vm
