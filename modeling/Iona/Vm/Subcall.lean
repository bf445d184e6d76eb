import Iona.Vm.Static

/-!
# Failed calls

A nested frame works on the state of its caller, and nothing is undone when it fails.

## Main results

* `failed_call_leaves_no_trace_iff`: which failed calls leave the state as it was.
-/

namespace Iona.Vm

variable (keccak : List UInt8 → Word)

/-! ### A call with its nested frame -/

section Calls

variable {keccak} {cx : Ctx} {it : Interpreter} {opcode : UInt8} {child : Child} {sub : Subcall}

/-- How many words a call pops. -/
def Op.operands : Op → ℕ
  | .call | .callcode => 7
  | _ => 6

variable {setup : State → CoreAct (Option Subcall)}

lemma executeOpcode_call (h : setupOf cx (decode opcode) = some setup) :
    executeOpcode keccak child cx opcode it = calling child setup it := by
  have hpass : ∀ {reason : String} {f : Unit → VmAct Unit}, cx.frame.isStatic = false →
      (guardStatic cx reason >>= f) it = f () it := by
    intro reason f hstatic
    refine Act.bind_of_ok ?_
    rw [guardStatic, if_neg (by simp [hstatic])]
    rfl
  unfold executeOpcode
  rcases setupOf_eq_some h with ⟨hop, hstatic, rfl⟩ | ⟨hop, hstatic, rfl⟩ | ⟨hop, hstatic, rfl⟩ | ⟨hop, rfl⟩
  · rw [hop]
    exact hpass hstatic
  · rw [hop]
    exact hpass hstatic
  · rw [hop]
    exact hpass hstatic
  · rw [hop]
    rfl

lemma setup_at {c c₁ : Core} {op : Op} {st : State} (hsetup : setupOf cx op = some setup)
    (hc : c.Sound) (hrun : setup st c = (.ok (some sub), c₁)) :
    ∃ W, rangeWords sub.retOffset sub.retSize ≤ W ∧
      At c gasCall (c.stack.drop op.operands) c.mem.words W c₁ := by
  have hranges : Op.staticcall.CallRanges := fun _ _ _ _ _ => rfl
  obtain ⟨W, hR⟩ : ∃ W, RangedCall (fun _ => False) c.mem.words W c.stack :=
    ⟨_, hranges.ranged fun hB => hB.elim⟩
  have hafter : ∀ {rest}, Act.Sat (fun _ => False) (Allowed c) (At c 0 c.stack c.mem.words c.mem.words)
      (setup st) (SetUp c (0 + gasCall) rest c.mem.words W) →
      rangeWords sub.retOffset sub.retSize ≤ W ∧ At c gasCall rest c.mem.words W c₁ := fun h => by
    have hmeets := h c hc.at
    rw [hrun, Nat.zero_add] at hmeets
    exact hmeets.2.2 (some sub) rfl
  refine ⟨W, ?_⟩
  rcases setupOf_eq_some hsetup with ⟨rfl, -, rfl⟩ | ⟨rfl, -, rfl⟩ | ⟨rfl, -, rfl⟩ | ⟨rfl, rfl⟩
  · exact hafter (setupCall_sat cx hR)
  · exact hafter (setupCallcode_sat cx hR)
  · exact hafter (setupDelegatecall_sat cx hR)
  · exact hafter (setupStaticcall_sat cx hR)

lemma calling_apply {c₁ c₂ : Core} (hsetup : setup it.state it.core = (.ok (some sub), c₁))
    (hpay : chargeGas sub.frame.gasLimit c₁ = (.ok (), c₂)) :
    calling child setup it =
      ((finishSubcall sub (child sub.frame sub.code it.state).1 c₂).1,
        { core := (finishSubcall sub (child sub.frame sub.code it.state).1 c₂).2,
          state := (child sub.frame sub.code it.state).2 }) := by
  have hread : reading setup it = (.ok (some sub), { it with core := c₁ }) := by
    change ((setup it.state it.core).1, _) = _
    rw [hsetup]
    rfl
  have hcharge : onCore (chargeGas sub.frame.gasLimit) { it with core := c₁ } =
      (.ok (), { it with core := c₂ }) := by
    change ((chargeGas sub.frame.gasLimit c₁).1, _) = _
    rw [hpay]
    rfl
  rw [calling, Act.bind_of_ok hread]
  change (runSubcall child sub) _ = _
  rw [runSubcall, Act.bind_of_ok hcharge]
  rfl

variable (keccak child) in
lemma stepOpcode_call (hcx : cx.Sound) (hit : it.core.Sound)
    (hcode : cx.code[it.core.pc]? = some opcode)
    (hstarts : Starts cx (decode opcode) it.state it.moved.core sub) :
    ∃ c₂ W, (At it.moved.core (gasCall + sub.frame.gasLimit)
        (it.core.stack.drop (decode opcode).operands) it.core.mem.words W c₂ ∧
        rangeWords sub.retOffset sub.retSize ≤ W) ∧
      stepOpcode keccak child cx opcode it =
        ((finishSubcall sub (child sub.frame sub.code it.state).1 c₂).1,
          { core := (finishSubcall sub (child sub.frame sub.code it.state).1 c₂).2,
            state := (child sub.frame sub.code it.state).2 }) := by
  have hmoved : it.moved.core.Sound := { hit with }
  obtain ⟨setup, c₁, hsetup, hrun, hpaid⟩ := hstarts
  obtain ⟨W, hret, hc₁⟩ := setup_at hsetup hmoved hrun
  obtain ⟨c₂, hpay⟩ : ∃ c₂, chargeGas sub.frame.gasLimit c₁ = (.ok (), c₂) := ⟨_, Prod.ext hpaid rfl⟩
  have hcharge := chargeGas_sat (B := fun _ => False) sub.frame.gasLimit c₁ hc₁
  rw [hpay] at hcharge
  refine ⟨c₂, W, ⟨hcharge.2.2 () rfl, hret⟩, ?_⟩
  rw [stepOpcode_apply keccak child cx opcode (hcx.pc_lt hcode), executeOpcode_call hsetup]
  exact calling_apply hrun hpay

lemma callee_back (hcx : cx.Sound) (hit : it.core.Sound)
    (hcode : cx.code[it.core.pc]? = some opcode)
    (hstarts : Starts cx (decode opcode) it.state it.moved.core sub) {fuel : ℕ}
    (hback : comesBack (runFrame keccak fuel sub.frame sub.code it.state).1 = true) :
    ∃ it₁, stepOpcode keccak (runFrame keccak fuel) cx opcode it = (.ok (), it₁) ∧
      it₁.state = (runFrame keccak fuel sub.frame sub.code it.state).2 ∧
      it₁.core.stack = wordFromU64
        (if succeeded (runFrame keccak fuel sub.frame sub.code it.state).1 then 1 else 0) ::
          it.core.stack.drop (decode opcode).operands ∧
      it₁.core.still = it.moved.core.still ∧
      it.core.gas.used + (gasCall + sub.frame.gasLimit) ≤ it₁.core.gas.used := by
  obtain ⟨c₂, W, ⟨hc₂, hret⟩, hstep⟩ :=
    stepOpcode_call keccak (runFrame keccak fuel) hcx hit hcode hstarts
  have hfine : ResFine (fun _ => False) (runFrame keccak fuel sub.frame sub.code it.state).1 :=
    runFrame_fine fun cx₁ core₁ hstart => run_fine (start_ok hstart).1 (start_ok hstart).2.1
  -- at least six words were popped, so there is room for one
  have hroom : (it.core.stack.drop (decode opcode).operands).length < stackLimit := by
    have hlen := hit.stack_le
    have hpos : 0 < stackLimit := by decide
    have hsix : 6 ≤ (decode opcode).operands := by
      unfold Op.operands
      split <;> decide
    rw [List.length_drop]
    omega
  obtain ⟨_, c₃, hfinish, hc₃⟩ := Act.Sat.returns
    (finishSubcall_back hback hfine hret fun v => pushWord_room v hroom) hc₂
  rw [hfinish] at hstep
  exact ⟨_, hstep, rfl, hc₃.stack_eq, hc₃.still_eq, hc₃.le_used⟩

variable (keccak child) in
lemma callee_failed (hcx : cx.Sound) (hit : it.core.Sound)
    (hcode : cx.code[it.core.pc]? = some opcode)
    (hstarts : Starts cx (decode opcode) it.state it.moved.core sub) {e : VmError}
    (herror : (child sub.frame sub.code it.state).1 = .error e)
    (hback : comesBack (child sub.frame sub.code it.state).1 = false) :
    (stepOpcode keccak child cx opcode it).1 = .error e ∧
      (stepOpcode keccak child cx opcode it).2.state = (child sub.frame sub.code it.state).2 := by
  obtain ⟨c₂, W, -, hstep⟩ := stepOpcode_call keccak child hcx hit hcode hstarts
  rw [hstep]
  refine ⟨?_, rfl⟩
  rw [herror] at hback ⊢
  cases e with
  | revert reason => cases hback
  | _ => rfl

end Calls

/-! ### Failures -/

/-- The frame ended by an error or a revert. -/
def failed : Res VmError ExecutionResult → Bool
  | .ok result => result.reverted
  | .error _ => true
  | .abort _ => false

/-- The caller goes on with a zero on its stack, and the state is the one before the call. -/
def LeavesNoTrace (fuel : ℕ) (cx : Ctx) (opcode : UInt8) (it : Interpreter) : Prop :=
  ∃ it₁, stepOpcode keccak (runFrame keccak fuel) cx opcode it = (.ok (), it₁) ∧
    it₁.state = it.state ∧
    it₁.core.stack = wordFromU64 0 :: it.core.stack.drop (decode opcode).operands ∧
    it₁.core.still = it.moved.core.still

/-- The nested frame is static, or none of the frames that it runs, itself included, comes to an opcode
that writes. -/
def Subcall.Quiet (sub : Subcall) (state : State) : Prop :=
  sub.frame.isStatic = true ∨ ∀ cx core, start sub.frame sub.code = .ok (cx, core) →
    NeverWrites keccak cx { core, state }

variable {keccak} in
lemma Subcall.Quiet.keeps {sub : Subcall} {state : State} (h : sub.Quiet keccak state) (fuel : ℕ) :
    (runFrame keccak fuel sub.frame sub.code state).2 = state := by
  refine runFrame_keeps fun cx core hstart => run_keeps (start_ok hstart).1 ?_
  rcases h with hstatic | hnever
  · obtain ⟨-, -, hframe, -⟩ := start_ok hstart
    exact fun cx' it' opcode hvisit _ => hvisit.static (by rw [hframe, hstatic])
  · exact hnever cx core hstart

/-- **Failed calls.** At every call that an execution comes to and whose nested frame fails: a frame that
ends by another error than a revert takes its caller with it, and one that is static or comes to no
writing opcode leaves no trace exactly if it ends by a revert. Nothing is undone, so what another frame
writes stays. -/
theorem failed_call_leaves_no_trace_iff {frame : Frame} {code : List UInt8} {cx₀ cx : Ctx}
    {core₀ : Core} {state : State} {it : Interpreter} {opcode : UInt8} {sub : Subcall}
    (hstart : start frame code = .ok (cx₀, core₀))
    (hvisit : Visits keccak cx₀ { core := core₀, state } cx it opcode)
    (hstarts : Starts cx (decode opcode) it.state it.moved.core sub) (fuel : ℕ)
    (hfailed : failed (runFrame keccak fuel sub.frame sub.code it.state).1 = true) :
    (comesBack (runFrame keccak fuel sub.frame sub.code it.state).1 = false →
      ¬ LeavesNoTrace keccak fuel cx opcode it) ∧
    (sub.Quiet keccak it.state → (LeavesNoTrace keccak fuel cx opcode it ↔
      comesBack (runFrame keccak fuel sub.frame sub.code it.state).1 = true)) := by
  obtain ⟨hcx, hit, hcode⟩ := hvisit.sound (start_ok hstart).1 (start_ok hstart).2.1
  have hlost : comesBack (runFrame keccak fuel sub.frame sub.code it.state).1 = false →
      ¬ LeavesNoTrace keccak fuel cx opcode it := by
    rintro hback ⟨it₁, hstep, -⟩
    rcases hres : (runFrame keccak fuel sub.frame sub.code it.state).1 with r | e | why
    · rw [hres] at hback
      cases hback
    · have herror := (callee_failed keccak _ hcx hit hcode hstarts hres hback).1
      rw [hstep] at herror
      cases herror
    · rw [hres] at hfailed
      cases hfailed
  refine ⟨hlost, fun hquiet => ⟨fun htrace => ?_, fun hback => ?_⟩⟩
  · exact eq_true_of_ne_false fun hback => hlost hback htrace
  · obtain ⟨it₁, hstep, hstate₁, hstack, hstill, -⟩ := callee_back hcx hit hcode hstarts hback
    refine ⟨it₁, hstep, hstate₁.trans (hquiet.keeps fuel), ?_, hstill⟩
    have hsucc : succeeded (runFrame keccak fuel sub.frame sub.code it.state).1 = false := by
      revert hfailed
      rcases (runFrame keccak fuel sub.frame sub.code it.state).1 with r | e | why
      · intro hreverted
        change (!r.reverted) = false
        rw [show r.reverted = true from hreverted]
        rfl
      · exact fun _ => rfl
      · exact fun _ => rfl
    rw [hstack, hsucc]
    rfl

/-! ### A caller and its callee -/

def callee : Word := wordFromU64 7

def callProgram : List UInt8 :=
  [0x61, 0xC3, 0x50, 0x60, 7, 0x60, 0, 0x60, 0, 0x60, 0, 0x60, 0, 0x60, 0, 0xF1, 0x00]

def revertProgram : List UInt8 := [0x60, 0, 0x60, 0, 0xFD]

def storeAndRevert : List UInt8 := [0x60, 0, 0x60, 42, 0x55] ++ revertProgram

def stateWith (code : List UInt8) : State := ({} : State).setCode callee code

def calleeFrame : Frame := ⟨callee, zero, 0, [], 50000, 1, false⟩

def callerFrame : Frame := ⟨zero, zero, 0, [], 1000000, 0, false⟩

def callerCx : Ctx := ⟨callerFrame, callProgram, buildJumpdestSet callProgram⟩

def callerStart (code : List UInt8) : Interpreter :=
  { core := { gas := GasMeter.new callerFrame.gasLimit }, state := stateWith code }

lemma atCall_isSome : (steps (fun _ => zero) 20 callerCx 7 (callerStart revertProgram)).isSome = true := by
  decide +kernel

def atCall : Interpreter := (steps (fun _ => zero) 20 callerCx 7 (callerStart revertProgram)).get atCall_isSome

/-- A callee that only reverts leaves no trace. -/
theorem plain_revert_leaves_no_trace : LeavesNoTrace (fun _ => zero) 20 callerCx 0xF1 atCall := by
  have hstart : start callerFrame callProgram =
      .ok (callerCx, { gas := GasMeter.new callerFrame.gasLimit }) := rfl
  have hvisit : Visits (fun _ => zero) callerCx (callerStart revertProgram) callerCx atCall 0xF1 :=
    .of_steps _ (Option.some_get atCall_isSome).symm (by decide +kernel) (by decide +kernel)
  have hstarts : Starts callerCx (decode 0xF1) atCall.state atCall.moved.core
      ⟨calleeFrame, revertProgram, 0, 0⟩ := by
    have hrun : (setupCall callerCx atCall.state atCall.moved.core).1 =
        .ok (some ⟨calleeFrame, revertProgram, 0, 0⟩) := by decide +kernel
    refine ⟨setupCall callerCx, _, rfl, Prod.ext hrun rfl, ?_⟩
    decide +kernel
  have hcall := failed_call_leaves_no_trace_iff (fun _ => zero) hstart hvisit hstarts 20
    (by decide +kernel)
  refine (hcall.2 (.inr fun cx₁ core₁ hstart cx' it' opcode hvisit hwrites => ?_)).mpr (by decide +kernel)
  cases hstart
  have hcode : ∀ opcode ∈ revertProgram, (decode opcode).writes = false ∧
      ∀ cx, setupOf cx (decode opcode) = none := by
    intro opcode hmem
    simp only [revertProgram, List.mem_cons, List.not_mem_nil, or_false] at hmem
    rcases hmem with rfl | rfl | rfl | rfl | rfl <;> exact ⟨rfl, fun _ => rfl⟩
  obtain ⟨-, hmem⟩ := hvisit.of_no_calls fun opcode hmem => (hcode opcode hmem).2 _
  rw [(hcode opcode hmem).1] at hwrites
  cases hwrites

/-- A callee that stores and then reverts: its caller runs to its end, and what was stored stays. -/
theorem reverted_callee_leaves_its_write :
    let keccak : List UInt8 → Word := fun _ => zero
    let out := execute keccak 30 (stateWith storeAndRevert) zero callProgram [] zero 0 1000000 0 false
    failed (runFrame keccak 20 calleeFrame storeAndRevert (stateWith storeAndRevert)).1 = true ∧
      succeeded out.1 = true ∧
      (stateWith storeAndRevert).sload callee zero = zero ∧ out.2.sload callee zero = wordFromU64 42 ∧
      (execute keccak 30 (stateWith [0xFE]) zero callProgram [] zero 0 1000000 0 false).1 =
        .error (.invalidOpcode 0xFE) := by
  decide +kernel

end Iona.Vm
