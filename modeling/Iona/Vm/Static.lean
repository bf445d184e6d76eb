import Iona.Vm.Run

/-! # Frames that do not write -/

namespace Iona.Vm

variable (keccak : List UInt8 → Word)

def Op.writes : Op → Bool
  | .sstore | .log _ | .create | .create2 | .selfdestruct => true
  | _ => false

/-! ### One opcode -/

section Opcode

variable {keccak} {cx : Ctx} {it : Interpreter} {child : Child}

lemma onCore_keeps (m : CoreAct Unit) : (onCore m it).2.state = it.state := rfl

lemma guardStatic_keeps {reason : String} {f : Unit → VmAct Unit}
    (h : cx.frame.isStatic = false → (f () it).2.state = it.state) :
    ((guardStatic cx reason >>= f) it).2.state = it.state := by
  cases hstatic : cx.frame.isStatic with
  | true =>
    have hguard : guardStatic cx reason it = (.error (.writeProtection reason), it) := by
      rw [guardStatic, if_pos hstatic]
      rfl
    rw [Act.bind_apply, hguard]
  | false =>
    have hguard : guardStatic cx reason it = (.ok (), it) := by
      rw [guardStatic, if_neg (by simp [hstatic])]
      rfl
    rw [Act.bind_of_ok hguard]
    exact h hstatic

lemma calling_keeps {setup : State → CoreAct (Option Subcall)}
    (hchild : ∀ sub c₁, setup it.state it.core = (.ok (some sub), c₁) →
      (chargeGas sub.frame.gasLimit c₁).1 = .ok () → (child sub.frame sub.code it.state).2 = it.state) :
    (calling child setup it).2.state = it.state := by
  refine Act.bind_keeps Interpreter.state rfl fun sub it₁ hsetup => ?_
  obtain ⟨hrun, hst₁⟩ := onCore_run (m := setup it.state) hsetup
  cases sub with
  | none => rfl
  | some sub =>
    refine Act.bind_keeps Interpreter.state rfl fun _ it₂ hpay => ?_
    obtain ⟨hcharge, hst₂⟩ := onCore_run hpay
    have hst : it₂.state = it.state := hst₂.trans hst₁
    refine Act.bind_keeps Interpreter.state ?_ fun res it₃ _ => rfl
    change (child sub.frame sub.code it₂.state).2 = it₂.state
    rw [hst]
    exact hchild sub it₁.core hrun (congrArg Prod.fst hcharge)

lemma executeOpcode_keeps {opcode : UInt8}
    (hwrites : (decode opcode).writes = true → cx.frame.isStatic = true)
    (hchild : ∀ sub, Starts cx (decode opcode) it.state it.core sub →
      (child sub.frame sub.code it.state).2 = it.state) :
    (executeOpcode keccak child cx opcode it).2.state = it.state := by
  have hcall : ∀ {setup}, setupOf cx (decode opcode) = some setup →
      (calling child setup it).2.state = it.state := fun hsetup =>
    calling_keeps fun sub c₁ hrun hpay => hchild sub ⟨_, c₁, hsetup, hrun, hpay⟩
  unfold executeOpcode
  generalize decode opcode = op at hwrites hcall ⊢
  have hrefused : ∀ {reason f}, op.writes = true →
      ((guardStatic cx reason >>= f) it).2.state = it.state := fun hop =>
    guardStatic_keeps fun hstatic => by simp [hwrites hop] at hstatic
  cases op with
  | sstore => exact hrefused rfl
  | log n => exact hrefused rfl
  | create => exact hrefused rfl
  | create2 => exact hrefused rfl
  | selfdestruct => exact hrefused rfl
  | call => exact guardStatic_keeps fun hstatic => hcall (by simp [setupOf, hstatic])
  | callcode => exact guardStatic_keeps fun hstatic => hcall (by simp [setupOf, hstatic])
  | delegatecall => exact guardStatic_keeps fun hstatic => hcall (by simp [setupOf, hstatic])
  | staticcall => exact hcall rfl
  | invalid => rfl
  -- the others only read the state, if that
  | _ => exact onCore_keeps _

end Opcode

/-! ### A whole run -/

def NeverWrites (cx : Ctx) (it : Interpreter) : Prop :=
  ∀ cx' it' opcode, Visits keccak cx it cx' it' opcode → (decode opcode).writes = true →
    cx'.frame.isStatic = true

section Runs

variable {keccak} {cx : Ctx} {it : Interpreter}

lemma runFrame_keeps {fuel : ℕ} {frame : Frame} {code : List UInt8} {st : State}
    (h : ∀ cx core, start frame code = .ok (cx, core) →
      (run keccak fuel cx { core, state := st }).2 = st) :
    (runFrame keccak fuel frame code st).2 = st := by
  unfold runFrame
  rcases hstart : start frame code with e | ⟨cx, core⟩
  · rfl
  · exact h cx core hstart

lemma run_keeps {fuel : ℕ} (hcx : cx.Sound) (h : NeverWrites keccak cx it) :
    (run keccak fuel cx it).2 = it.state := by
  induction fuel generalizing cx it with
  | zero => rfl
  | succ fuel ih =>
    cases hlive : it.core.halted with
    | true => rw [run_halted hlive]
    | false =>
      -- a frame that has been halted comes to no opcode
      have hdone : ∀ {it' : Interpreter}, it'.core.halted = true →
          (run keccak fuel cx it').2 = it'.state := fun hhalt =>
        ih hcx fun cx' it'' opcode hvisit => by
          cases hvisit <;> simp_all
      rcases hcode : cx.code[it.core.pc]? with _ | opcode
      · rw [run_end hlive hcode]
        exact hdone rfl
      · have hstep : (stepOpcode keccak (runFrame keccak fuel) cx opcode it).2.state = it.state := by
          rw [stepOpcode_apply keccak _ cx opcode (hcx.pc_lt hcode)]
          refine executeOpcode_keeps (h cx it opcode (.here hlive hcode)) fun sub hstarts => ?_
          refine runFrame_keeps fun cx₁ core₁ hstart => ih (start_ok hstart).1 ?_
          exact fun cx' it' op hvisit => h cx' it' op (.child hlive hcode hstarts hstart hvisit)
        rw [run_opcode hlive hcode]
        rcases hres : stepOpcode keccak (runFrame keccak fuel) cx opcode it with ⟨u | e | why, it₁⟩
        · rw [hres] at hstep
          refine (ih hcx fun cx' it' op hvisit => ?_).trans hstep
          exact h cx' it' op (.next fuel hlive hcode hres hvisit)
        · rw [hres] at hstep
          cases e with
          | revert reason => exact (hdone rfl).trans hstep
          | _ => exact hstep
        · rw [hres] at hstep
          exact hstep

lemma Visits.static {cx' : Ctx} {it' : Interpreter} {opcode : UInt8}
    (h : Visits keccak cx it cx' it' opcode) (hstatic : cx.frame.isStatic = true) :
    cx'.frame.isStatic = true := by
  induction h with
  | here hlive hcode => exact hstatic
  | next fuel hlive hcode hstep hrest ih => exact ih hstatic
  | child hlive hcode hstarts hstart hrest ih =>
    obtain ⟨-, -, hframe, -⟩ := start_ok hstart
    exact ih (hframe ▸ hstarts.nested.static hstatic)

end Runs

/-- **Static frames do not write**, and neither do the frames they start. -/
theorem execute_static_keeps (fuel : ℕ) (state : State) (contract : Word) (code calldata : List UInt8)
    (caller : Word) (callValue gasLimit depth : ℕ) :
    (execute keccak fuel state contract code calldata caller callValue gasLimit depth true).2 =
      state := by
  refine runFrame_keeps fun cx core hstart => run_keeps (start_ok hstart).1 ?_
  obtain ⟨-, -, hframe, -⟩ := start_ok hstart
  exact fun cx' it' opcode hvisit _ => hvisit.static (by rw [hframe])

end Iona.Vm
