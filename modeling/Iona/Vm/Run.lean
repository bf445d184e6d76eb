import Iona.Vm.Step

/-!
# Whole executions

`Visits` says which opcodes an execution comes to, nested frames included; `run_fine` and
`stepOpcode_after` carry the facts about one opcode along a run.
-/

namespace Iona.Vm

variable (keccak : List UInt8 → Word)

/-! ### The start of a frame -/

structure Ctx.Sound (cx : Ctx) : Prop where
  code_le : cx.code.length ≤ maxCodeSize
  depth_le : cx.frame.depth ≤ maxCallDepth

variable {cx cx₁ : Ctx} {code : List UInt8} {frame : Frame} {opcode : UInt8} {op : Op}
  {it it' : Interpreter} {c core₁ : Core}

lemma Ctx.Sound.pc_lt (h : cx.Sound) {pc : ℕ} (hcode : cx.code[pc]? = some opcode) :
    pc < maxCodeSize :=
  (List.getElem?_eq_some_iff.mp hcode).1.trans_le h.code_le

lemma start_error {e : VmError} (h : start frame code = .error e) (reason : List UInt8) :
    e ≠ .revert reason := by
  unfold start at h
  split at h
  · cases h
    simp
  · split at h <;> cases h
    simp

lemma start_ok {core : Core} (h : start frame code = .ok (cx, core)) :
    cx.Sound ∧ core.Sound ∧ cx.frame = frame ∧ core.gas.used = 0 := by
  unfold start at h
  split at h
  · cases h
  · rename_i hcode
    split at h
    · cases h
    · rename_i hdepth
      cases h
      refine ⟨⟨not_lt.mp hcode, not_lt.mp hdepth⟩, ?_, rfl, rfl⟩
      exact {
        used_le := Nat.zero_le _
        limit_le := max_le (min_le_right _ _) (by decide)
        stack_le := Nat.zero_le _
        paid := show memoryCostWords (Memory.words []) ≤ 0 by decide
        return_le := Nat.zero_le _ }

/-! ### One round of the loop -/

section Rounds

variable {keccak} {fuel : ℕ} {cx : Ctx} {it it' : Interpreter} {opcode : UInt8}

lemma run_halted (h : it.core.halted = true) :
    run keccak (fuel + 1) cx it = (.ok it.core.result, it.state) := by
  rw [run, if_pos h]

lemma run_end (h : it.core.halted = false) (hcode : cx.code[it.core.pc]? = none) :
    run keccak (fuel + 1) cx it =
      run keccak fuel cx { it with core := { it.core with halted := true } } := by
  rw [run, if_neg (by simp [h]), hcode]

lemma run_opcode (h : it.core.halted = false) (hcode : cx.code[it.core.pc]? = some opcode) :
    run keccak (fuel + 1) cx it =
      match stepOpcode keccak (runFrame keccak fuel) cx opcode it with
      | (.ok (), it) => run keccak fuel cx it
      | (.error (.revert reason), it) =>
        run keccak fuel cx
          { it with core := { it.core with reverted := true, returnData := reason, halted := true } }
      | (.error e, it) => (.error e, it.state)
      | (.abort why, it) => (.abort why, it.state) := by
  rw [run, if_neg (by simp [h]), hcode]
  rfl

end Rounds

/-! ### The opcodes of an execution -/

inductive Visits : Ctx → Interpreter → Ctx → Interpreter → UInt8 → Prop
  | here {cx : Ctx} {it : Interpreter} {opcode : UInt8} (hlive : it.core.halted = false)
      (hcode : cx.code[it.core.pc]? = some opcode) : Visits cx it cx it opcode
  | next {cx cx' : Ctx} {it it₁ it' : Interpreter} {opcode opcode' : UInt8} (fuel : ℕ)
      (hlive : it.core.halted = false) (hcode : cx.code[it.core.pc]? = some opcode)
      (hstep : stepOpcode keccak (runFrame keccak fuel) cx opcode it = (.ok (), it₁))
      (hrest : Visits cx it₁ cx' it' opcode') : Visits cx it cx' it' opcode'
  | child {cx cx₁ cx' : Ctx} {it it' : Interpreter} {core₁ : Core} {opcode opcode' : UInt8}
      {sub : Subcall} (hlive : it.core.halted = false) (hcode : cx.code[it.core.pc]? = some opcode)
      (hstarts : Starts cx (decode opcode) it.state it.moved.core sub)
      (hstart : start sub.frame sub.code = .ok (cx₁, core₁))
      (hrest : Visits cx₁ { core := core₁, state := it.state } cx' it' opcode') :
      Visits cx it cx' it' opcode'

def steps (fuel : ℕ) (cx : Ctx) : ℕ → Interpreter → Option Interpreter
  | 0, it => some it
  | n + 1, it =>
    if it.core.halted then none
    else do
      let opcode ← cx.code[it.core.pc]?
      match stepOpcode keccak (runFrame keccak fuel) cx opcode it with
      | (.ok (), it) => steps fuel cx n it
      | _ => none

lemma steps_succ {fuel n : ℕ} :
    steps keccak fuel cx (n + 1) it = some it' ↔ it.core.halted = false ∧
      ∃ opcode it₁, cx.code[it.core.pc]? = some opcode ∧
        stepOpcode keccak (runFrame keccak fuel) cx opcode it = (.ok (), it₁) ∧
          steps keccak fuel cx n it₁ = some it' := by
  rw [steps]
  cases it.core.halted
  · cases cx.code[it.core.pc]? with
    | none => simp
    | some opcode =>
      rcases hstep : stepOpcode keccak (runFrame keccak fuel) cx opcode it with ⟨u | e | why, it₁⟩ <;>
        simp [hstep]
  · simp

lemma Visits.of_steps {fuel n : ℕ} (h : steps keccak fuel cx n it = some it')
    (hlive : it'.core.halted = false) (hcode : cx.code[it'.core.pc]? = some opcode) :
    Visits keccak cx it cx it' opcode := by
  induction n generalizing it with
  | zero =>
    cases h
    exact .here hlive hcode
  | succ n ih =>
    obtain ⟨hrunning, op, it₁, hop, hstep, hrest⟩ := (steps_succ keccak).mp h
    exact .next fuel hrunning hop hstep (ih hrest)

/-! ### The run of a frame -/

def fuelBound (cx : Ctx) (c : Core) : ℕ :=
  (c.gas.limit - c.gas.used) + 2 + (maxCallDepth - cx.frame.depth) * (maxGasPerTx + 1)

lemma fuelBound_nested (hstart : start frame code = .ok (cx₁, core₁)) (hnested : Nested cx frame) :
    fuelBound cx₁ core₁ < fuelBound cx c := by
  obtain ⟨hcx₁, hcore₁, hframe, hused⟩ := start_ok hstart
  have hdepth : cx₁.frame.depth = cx.frame.depth + 1 := hframe ▸ hnested.depth_eq
  have hlimit := hcore₁.limit_le
  have hle := hcx₁.depth_le
  unfold fuelBound
  rw [show maxCallDepth - cx.frame.depth = (maxCallDepth - cx₁.frame.depth) + 1 by omega, Nat.add_mul]
  omega

lemma fuelBound_after (h : After cx op it.moved.core c) (hlive : c.halted = false) :
    fuelBound cx c < fuelBound cx it.core := by
  rcases h.moves with hhalt | hgas
  · rw [hlive] at hhalt
    cases hhalt
  · have hle := h.sound.used_le
    have hlimit : c.gas.limit = it.core.gas.limit := h.limit_eq
    change it.core.gas.used < c.gas.used at hgas
    unfold fuelBound
    omega

section Fine

variable {keccak} {fuel : ℕ}

lemma run_halted_fine (hhalt : it.core.halted = true)
    (hreturn : it.core.returnData.length ≤ maxReturn) :
    ResFine (fun _ => False) (run keccak fuel cx it).1 := by
  cases fuel with
  | zero => exact .of_abort id
  | succ fuel =>
    rw [run_halted hhalt]
    exact .of_ok hreturn

lemma runFrame_fine {frame : Frame} {code : List UInt8} {st : State}
    (h : ∀ cx core, start frame code = .ok (cx, core) →
      ResFine (fun _ => False) (run keccak fuel cx { core, state := st }).1) :
    ResFine (fun _ => False) (runFrame keccak fuel frame code st).1 := by
  unfold runFrame
  rcases hstart : start frame code with e | ⟨cx, core⟩
  · exact .of_error (start_error hstart)
  · exact h cx core hstart

lemma run_fine (hcx : cx.Sound) (hit : it.core.Sound) :
    ResFine (fun _ => False) (run keccak fuel cx it).1 := by
  -- one induction for both recursions: the rest of this frame and the nested frames
  induction fuel generalizing cx it with
  | zero => exact .of_abort id
  | succ fuel ih =>
    cases hlive : it.core.halted with
    | true => exact run_halted_fine hlive hit.return_le
    | false =>
      rcases hcode : cx.code[it.core.pc]? with _ | opcode
      · rw [run_end hlive hcode]
        exact run_halted_fine rfl hit.return_le
      · obtain ⟨-, herror, hret⟩ := stepOpcode_sat keccak (B := fun _ => False) hit (hcx.pc_lt hcode)
          (fun hB => hB.elim) (fun sub _ => @runFrame_fine keccak fuel _ _ _ fun cx₁ core₁ hstart =>
            ih (start_ok hstart).1 (start_ok hstart).2.1) it rfl
        rw [run_opcode hlive hcode]
        rcases hstep : stepOpcode keccak (runFrame keccak fuel) cx opcode it with ⟨u | e | why, it₁⟩
        · rw [hstep] at hret
          have hafter : After cx (decode opcode) it.moved.core it₁.core := hret () rfl
          exact ih hcx hafter.sound
        · rw [hstep] at herror
          cases e with
          | revert reason =>
            -- the frame halts with the reason as its return data
            exact run_halted_fine rfl (herror _ rfl reason rfl).1
          | _ => exact .of_error (by simp)
        · exact .of_abort id

lemma ResFine.ends {res : Res VmError ExecutionResult} (h : ResFine (fun _ => True) res) :
    (∃ r, res = .ok r) ∨ ∃ e, res = .error e := by
  rcases res with r | e | why
  · exact .inl ⟨r, rfl⟩
  · exact .inr ⟨e, rfl⟩
  · exact absurd rfl (h.abort why trivial)

end Fine

/-! ### Programs that cannot panic -/

def Op.plain : Op → Bool
  | .sha3 | .return_ | .revert | .log _ | .mload | .mstore | .mstore8 | .calldatacopy | .codecopy
  | .extcodecopy | .returndatacopy | .create | .create2 | .call | .callcode | .delegatecall
  | .staticcall | .mulmod => false
  | _ => true

lemma Op.benign_of_plain (h : op.plain = true) (maxLogs : ℕ) (stack : List Word) :
    op.Benign maxLogs stack := by
  refine ⟨fun offset size hmem => ?_, fun size hsize => ?_, fun hop => ?_, fun n hop => ?_⟩
  · unfold Op.ranges at hmem
    split at hmem <;> first | exact absurd h Bool.false_ne_true | cases hmem
  · unfold Op.copySize at hsize
    split at hsize <;> first | exact absurd h Bool.false_ne_true | cases hsize
  · subst hop
    cases h
  · subst hop
    cases h

lemma setupOf_of_plain (h : op.plain = true) (cx : Ctx) : setupOf cx op = none := by
  cases op <;> first | rfl | exact absurd h Bool.false_ne_true

lemma Visits.of_no_calls {keccak : List UInt8 → Word} {cx' : Ctx}
    (h : Visits keccak cx it cx' it' opcode)
    (hcalls : ∀ opcode ∈ cx.code, setupOf cx (decode opcode) = none) :
    cx' = cx ∧ opcode ∈ cx.code := by
  induction h with
  | here hlive hcode => exact ⟨rfl, List.mem_of_getElem? hcode⟩
  | next fuel hlive hcode hstep hrest ih => exact ih hcalls
  | child hlive hcode hstarts hstart hrest ih =>
    obtain ⟨setup, c₁, hsetup, -⟩ := hstarts
    rw [hcalls _ (List.mem_of_getElem? hcode)] at hsetup
    cases hsetup

/-! ### The measure -/

def remaining (cx : Ctx) (c : Core) : ℕ ×ₗ ℕ :=
  toLex (maxCallDepth - cx.frame.depth, c.gas.limit - c.gas.used)

lemma remaining_nested (hstart : start frame code = .ok (cx₁, core₁)) (hnested : Nested cx frame) :
    remaining cx₁ core₁ < remaining cx c := by
  obtain ⟨hcx₁, -, hframe, -⟩ := start_ok hstart
  have hdepth : cx₁.frame.depth = cx.frame.depth + 1 := hframe ▸ hnested.depth_eq
  have hle := hcx₁.depth_le
  refine Prod.Lex.left _ _ ?_
  omega

lemma remaining_after (h : After cx op it.moved.core c) :
    c.halted = true ∨ remaining cx c < remaining cx it.core := by
  refine h.moves.imp_right fun (hgas : it.core.gas.used < c.gas.used) => Prod.Lex.right _ ?_
  have hle := h.sound.used_le
  have hlimit : c.gas.limit = it.core.gas.limit := h.limit_eq
  omega

section Measure

variable {keccak} {cx : Ctx} {it it₁ : Interpreter} {opcode : UInt8}

variable (keccak) in
lemma stepOpcode_meets (hcx : cx.Sound) (hit : it.core.Sound)
    (hcode : cx.code[it.core.pc]? = some opcode) (fuel : ℕ) :
    Act.Meets (fun _ => False) (On (Allowed it.moved.core))
      (On fun _ => After cx (decode opcode) it.moved.core)
      (stepOpcode keccak (runFrame keccak fuel) cx opcode it) :=
  stepOpcode_sat keccak hit (hcx.pc_lt hcode) (fun hB => hB.elim) (fun _ _ =>
    runFrame_fine fun _ _ hstart => run_fine (start_ok hstart).1 (start_ok hstart).2.1) it rfl

lemma stepOpcode_after (hcx : cx.Sound) (hit : it.core.Sound)
    (hcode : cx.code[it.core.pc]? = some opcode) {fuel : ℕ}
    (hstep : stepOpcode keccak (runFrame keccak fuel) cx opcode it = (.ok (), it₁)) :
    After cx (decode opcode) it.moved.core it₁.core := by
  have hmeets := stepOpcode_meets keccak hcx hit hcode fuel
  rw [hstep] at hmeets
  exact hmeets.2.2 () rfl

lemma Visits.sound {cx' : Ctx} {it' : Interpreter} (h : Visits keccak cx it cx' it' opcode)
    (hcx : cx.Sound) (hit : it.core.Sound) :
    cx'.Sound ∧ it'.core.Sound ∧ cx'.code[it'.core.pc]? = some opcode := by
  induction h with
  | here hlive hcode => exact ⟨hcx, hit, hcode⟩
  | next fuel hlive hcode hstep hrest ih =>
    exact ih hcx (stepOpcode_after hcx hit hcode hstep).sound
  | child hlive hcode hstarts hstart hrest ih => exact ih (start_ok hstart).1 (start_ok hstart).2.1

end Measure

def outerFrame : Frame := ⟨zero, zero, 0, [], 100000, 0, false⟩

end Iona.Vm
