import Iona.Vm.Handlers

/-!
# One opcode

`executeOpcode_sat` puts the handlers together: after any opcode the frame is sound again, the gas
has not gone back, the memory has grown as the opcode's ranges say (`After`), and the only panics
are those of opcodes that are not `Benign`.
-/

namespace Iona.Vm

section Lifted

variable {B : Abort → Prop} {E : VmError → Core → Prop} {st : State} {α β : Type} {P : Core → Prop}
  {Q : α → Core → Prop} {T : β → Interpreter → Prop} {c₀ : Core}

def On (Q : α → Core → Prop) (a : α) (it : Interpreter) : Prop := Q a it.core

def Over (P : Core → Prop) (st : State) (it : Interpreter) : Prop := P it.core ∧ it.state = st

variable {m : CoreAct α}

lemma onCore_sat (h : Act.Sat B E P m Q) :
    Act.Sat B (On E) (Over P st) (onCore m) fun a => Over (Q a) st := by
  rintro it ⟨hP, rfl⟩
  obtain ⟨habort, herror, hret⟩ := h it.core hP
  exact ⟨habort, herror, fun a ha => ⟨hret a ha, rfl⟩⟩

lemma onCore_frame (h : Act.Sat B E P m Q) :
    Act.Sat B (On E) (fun it => P it.core) (onCore m) (On Q) :=
  h.on fun _ _ => rfl

lemma onCore_run {it it' : Interpreter} {r : Res VmError α} (h : onCore m it = (r, it')) :
    m it.core = (r, it'.core) ∧ it'.state = it.state := by
  cases h
  exact ⟨rfl, rfl⟩

lemma reading_sat {m : State → CoreAct α} (h : Act.Sat B E P (m st) Q) :
    Act.Sat B (On E) (Over P st) (reading m) fun a => Over (Q a) st := by
  rintro it ⟨hP, rfl⟩
  exact onCore_sat h it ⟨hP, rfl⟩

lemma modifyState_sat (f : State → State) :
    Act.Sat B (On E) (Over P st) (modifyState f) fun _ => Over P (f st) := by
  refine .modify ?_
  rintro it ⟨hP, rfl⟩
  exact ⟨hP, rfl⟩

lemma guard_bind {cx : Ctx} {reason : String} {f : Unit → VmAct β} {P : Interpreter → Prop}
    (h : cx.frame.isStatic = false → Act.Sat B (On (Allowed c₀)) P (f ()) T) :
    Act.Sat B (On (Allowed c₀)) P (guardStatic cx reason >>= f) T := by
  have hguard : Act.Sat B (On (Allowed c₀)) P (guardStatic cx reason) fun _ it =>
      cx.frame.isStatic = false ∧ P it := by
    refine .ite (fun _ => .throw fun _ _ => allowed_of_ne (by simp)) fun hstatic => ?_
    exact .pure fun it hit => ⟨Bool.not_eq_true _ ▸ hstatic, hit⟩
  exact hguard.bind fun _ => .of_and h

end Lifted

section Writers

variable {B : Abort → Prop} {c₀ : Core} {k m M w W : ℕ} {stk : List Word} {st : State}

lemma addRefund_error {g : GasMeter} {amount : ℕ} {e : VmError} (h : g.addRefund amount = .error e)
    (reason : List UInt8) : e ≠ .revert reason := by
  unfold GasMeter.addRefund at h
  split at h
  · cases h
  · split at h
    · cases h
      simp
    · cases h

lemma addRefund_ok {g g' : GasMeter} {amount : ℕ} (h : g.addRefund amount = .ok g') :
    g'.limit = g.limit ∧ g'.used = g.used := by
  unfold GasMeter.addRefund at h
  split at h
  · cases h
    exact ⟨rfl, rfl⟩
  · split at h
    · cases h
    · cases h
      exact ⟨rfl, rfl⟩

lemma chargeSstore_sat (current val : Word) :
    Runs B c₀ k stk m M (chargeSstore current val) fun _ => Progress c₀ m M := by
  have hcharge : ∀ n, 0 < n →
      Runs B c₀ k stk m M (chargeGas n) fun _ => Progress c₀ m M :=
    fun n hn => (chargeGas_sat n).post fun _ _ hc => hc.progress (by omega)
  refine .ite (fun _ => hcharge _ (by decide)) fun _ => .ite (fun _ => ?_) fun _ =>
    .ite (fun _ => hcharge _ (by decide)) fun _ => hcharge _ (by decide)
  refine charge_bind <| Act.Sat.get_bind fun c hc => ?_
  refine Act.Sat.bind (Q := fun gas c' => c' = c ∧ gas.limit = c.gas.limit ∧ gas.used = c.gas.used)
    (.ofExcept (fun e he _ _ => allowed_of_ne (addRefund_error he)) fun gas hgas c' hc' =>
      ⟨hc', addRefund_ok hgas⟩) fun gas => .modify ?_
  rintro c' ⟨rfl, hlimit, hused⟩
  have hprog := hc.progress (Nat.add_pos_right k (by decide))
  exact {
    sound := {
      used_le := hused ▸ hlimit ▸ hc.sound.used_le
      limit_le := hlimit ▸ hc.sound.limit_le
      stack_le := hc.sound.stack_le
      paid := hused ▸ hc.sound.paid
      return_le := hc.sound.return_le }
    limit_eq := hlimit.trans hc.limit_eq
    le_used := hused ▸ hprog.le_used
    moves := hused ▸ hprog.moves
    pc_eq := hprog.pc_eq
    least_le := hc.least_le
    le_most := hc.le_most }

lemma popSstore_sat : Runs B c₀ k stk m M popSstore fun _ c =>
    ∃ rest, At c₀ k rest m M c := by
  refine get_bind fun c _ => .ite (fun _ => throw_sat (by simp)) fun _ => ?_
  exact pop_bind fun _ _ _ => pop_bind fun _ rest _ => .pure fun c hc => ⟨rest, hc⟩

lemma handleSstore_sat (cx : Ctx) :
    Act.Sat B (On (Allowed c₀)) (Over (At c₀ k stk m M) st) (handleSstore cx)
      (On fun _ => Progress c₀ m M) := by
  refine guard_bind fun _ => (onCore_sat popSstore_sat).bind ?_
  rintro ⟨key, val⟩
  refine Act.Sat.bind (Q := fun _ => Over (Progress c₀ m M) st) (reading_sat ?_) fun _ => ?_
  · exact .of_exists fun rest => chargeSstore_sat _ val
  · exact (modifyState_sat _).post fun _ _ h => h.1

lemma popWords_sat (n : ℕ) : Runs B c₀ k stk m M (popWords n) fun _ c =>
    ∃ rest, At c₀ k rest m M c := by
  induction n generalizing stk with
  | zero => exact .pure fun c hc => ⟨stk, hc⟩
  | succ n ih =>
    exact pop_bind fun _ rest _ => ih.bind fun _ => .pure fun c hc => hc

lemma popLog_sat (topics : ℕ)
    (hR : ∀ size offset rest, stk = size :: offset :: rest → Ranged B w W offset size) :
    Runs B c₀ k stk w w (popLog topics) fun _ => Progress c₀ W W := by
  have hpos : 0 < gasLog := by decide
  refine charge_bind <| popUsize_bind fun n size _ hsize hn =>
    popUsize_bind fun o offset rest hoffset ho => ?_
  obtain ⟨hsafe, rfl⟩ := (hR size offset rest (by rw [hsize, hoffset])).at ho hn
  refine expand_bind hsafe fun _ => charge_bind <| read_bind (le_max_right _ _) fun _ _ =>
    (popWords_sat topics).bind fun _ => .pure ?_
  rintro c ⟨rest, hc⟩
  exact hc.progress (by omega)

lemma emitLog_ne_none {contract : Word} {topics : List Word} {data : List UInt8}
    (h : 0 < st.maxLogs) : st.emitLog contract topics data ≠ none := by
  unfold State.emitLog
  split
  · have hexcess : st.logs.length + 1 - st.maxLogs ≤ st.logs.length := by omega
    simp [hexcess]
  · exact Option.some_ne_none _

lemma handleLog_sat (cx : Ctx) (topics : ℕ)
    (hR : ∀ size offset rest, stk = size :: offset :: rest → Ranged B w W offset size)
    (hlogs : B .panic → 0 < st.maxLogs) :
    Act.Sat B (On (Allowed c₀)) (Over (At c₀ k stk w w) st) (handleLog cx topics)
      (On fun _ => Progress c₀ W W) := by
  refine guard_bind fun _ => (onCore_sat (popLog_sat topics hR)).bind ?_
  rintro ⟨data, topicWords⟩
  have hemit : Act.Sat B (On (Allowed c₀)) (Over (Progress c₀ W W) st)
      (emitLogAct cx.frame.contract topicWords data) fun _ it => Progress c₀ W W it.core := by
    refine Act.Sat.get_bind ?_
    rintro it ⟨hc, rfl⟩
    refine .option_bind (fun hb => emitLog_ne_none (hlogs hb)) fun st' _ => .modify ?_
    rintro it' rfl
    exact hc
  exact hemit.bind fun _ => onCore_frame (.modify fun c hc => { hc with sound := { hc.sound with } })

lemma handleSelfdestruct_sat (cx : Ctx) :
    Act.Sat B (On (Allowed c₀)) (Over (At c₀ k stk m M) st) (handleSelfdestruct cx)
      (On fun _ => Progress c₀ m M) := by
  have hpop : Runs B c₀ k stk m M popSelfdestruct fun _ c =>
      ∃ rest, At c₀ k rest m M c := by
    refine charge_bind <| popWord_sat.post ?_
    rintro w c ⟨rest, -, hc⟩
    exact ⟨rest, hc.weaken (Nat.le_add_right _ _) le_rfl⟩
  refine guard_bind fun _ => (onCore_sat hpop).bind fun dest => (modifyState_sat _).bind fun _ => ?_
  exact (onCore_sat (.of_exists fun _ => handleStop_sat)).post fun _ _ h => h.1

lemma popU128_bind {β : Type} {T : β → Core → Prop} {f : ℕ → CoreAct β}
    (h : ∀ n w rest, stk = w :: rest → Runs B c₀ k rest m M (f n) T) :
    Runs B c₀ k stk m M (popU128 >>= f) T := by
  refine popExcept_bind (fun w e he => ?_) fun n w rest hstk _ => h n w rest hstk
  split at he <;> cases he
  simp

lemma popU64_bind {β : Type} {T : β → Core → Prop} {f : ℕ → CoreAct β}
    (h : ∀ n w rest, stk = w :: rest → Runs B c₀ k rest m M (f n) T) :
    Runs B c₀ k stk m M (popWordAsU64 >>= f) T := by
  refine popExcept_bind (fun w e he => ?_) fun n w rest hstk _ => h n w rest hstk
  split at he <;> cases he
  simp

lemma popCreate_sat
    (hR : ∀ value size offset rest, stk = value :: size :: offset :: rest → Ranged B w W offset size) :
    Runs B c₀ k stk w w popCreate fun _ c => ∃ rest, At c₀ k rest W W c := by
  refine popU128_bind fun _ value _ hvalue => popUsize_bind fun n size _ hsize hn =>
    popUsize_bind fun o offset rest hoffset ho => ?_
  obtain ⟨hsafe, rfl⟩ := (hR value size offset rest (by rw [hvalue, hsize, hoffset])).at ho hn
  exact expand_bind hsafe fun _ => read_bind (le_max_right _ _) fun _ _ => .pure fun c hc => ⟨rest, hc⟩

lemma pushAddress_sat {address : List UInt8} (hlen : address.length = 20) (hk : 0 < k) :
    Runs B c₀ k stk m M (pushAddress address) fun _ => Progress c₀ m M := by
  refine .option_bind (fun _ => ?_) fun w _ => push_progress w hk
  obtain ⟨w, hw, -⟩ := wordOf_of_length
    (show (List.replicate 12 0 ++ address).length = 32 by simp [hlen])
  rw [wordFromAddress20, hw]
  exact Option.some_ne_none w

lemma length_wordToAddress20 (w : Word) : (wordToAddress20 w).length = 20 := by
  simp [wordToAddress20]

lemma handleCreate_sat (cx : Ctx)
    (hR : ∀ value size offset rest, stk = value :: size :: offset :: rest → Ranged B w W offset size) :
    Act.Sat B (On (Allowed c₀)) (Over (At c₀ k stk w w) st) (handleCreate cx)
      (On fun _ => Progress c₀ W W) := by
  refine guard_bind fun _ => (onCore_sat (chargeGas_sat _)).bind fun _ =>
    (onCore_sat (popCreate_sat hR)).bind ?_
  rintro ⟨value, initCode⟩
  have hcreate : Act.Sat B (On (Allowed c₀)) (Over (fun c => ∃ rest, At c₀ (k + gasCreate) rest W W c) st)
      (createContractAct cx value initCode) fun _ it => ∃ rest, At c₀ (k + gasCreate) rest W W it.core :=
    .of_ok fun it hit => ⟨_, _, rfl, hit.1⟩
  exact hcreate.bind fun addr => .of_exists fun rest => onCore_frame
    (pushAddress_sat (length_wordToAddress20 addr) (Nat.add_pos_right k (by decide)))

lemma handleCreate2_sat (keccak : List UInt8 → Word) (cx : Ctx)
    (hR : ∀ salt value size offset rest, stk = salt :: value :: size :: offset :: rest →
      Ranged B w W offset size) :
    Act.Sat B (On (Allowed c₀)) (Over (At c₀ k stk w w) st) (handleCreate2 keccak cx)
      (On fun _ => Progress c₀ W W) := by
  refine guard_bind fun _ => (onCore_sat ?_).post fun _ _ h => h.1
  refine charge_bind <| pop_bind fun salt rest hsalt => (popCreate_sat (W := W) ?_).bind ?_
  · intro value size offset rest' hrest
    exact hR salt value size offset rest' (by rw [hsalt, hrest])
  · rintro ⟨value, initCode⟩
    exact .of_exists fun _ =>
      pushAddress_sat (length_wordToAddress20 _) (Nat.add_pos_right k (by decide))

end Writers

/-! ### The call family -/

section Calls

variable {B : Abort → Prop} {c₀ : Core} {k k' w W : ℕ} {stk rest : List Word} {st : State}

def RangedCall (B : Abort → Prop) (w W : ℕ) (stk : List Word) : Prop :=
  ∀ retSize retOffset argsSize argsOffset rest,
    stk = retSize :: retOffset :: argsSize :: argsOffset :: rest →
      ∃ V, Ranged B w V argsOffset argsSize ∧ Ranged B V W retOffset retSize

variable {E : VmError → Core → Prop} {res : Res VmError ExecutionResult}

lemma popCall_sat {popValue : CoreAct ℕ} {n : ℕ}
    (hvalue : ∀ stk', Runs B c₀ (k + gasCall) stk' w w popValue fun _ =>
      At c₀ (k + gasCall) (stk'.drop n) w w)
    (hR : RangedCall B w W stk) :
    Runs B c₀ k stk w w (popCall popValue) fun args c =>
      (rangeWords args.argsOffset args.argsSize ≤ W ∧ rangeWords args.retOffset args.retSize ≤ W) ∧
        At c₀ (k + gasCall) (stk.drop (6 + n)) w W c := by
  refine charge_bind <| popUsize_bind fun rn retSize _ h₁ hrn => popUsize_bind fun ro retOffset _ h₂ hro =>
    popUsize_bind fun an argsSize _ h₃ han => popUsize_bind fun ao argsOffset rest h₄ hao => ?_
  obtain ⟨V, hargs, hret⟩ := hR retSize retOffset argsSize argsOffset rest (by rw [h₁, h₂, h₃, h₄])
  obtain ⟨hsafe, rfl⟩ := hargs.at hao han
  obtain ⟨hsafe', rfl⟩ := hret.at hro hrn
  refine (hvalue rest).bind fun value => pop_bind fun address _ h₅ => popU64_bind fun gasArg _ rest' h₆ => ?_
  have hdrop : stk.drop (6 + n) = rest' := by
    have hrest : rest.drop (n + 2) = rest' := by
      rw [← List.drop_drop, h₅, h₆]
      rfl
    rw [h₁, h₂, h₃, h₄, ← hrest, show 6 + n = n + 2 + 1 + 1 + 1 + 1 by omega]
    rfl
  refine expand_bind hsafe fun _ => expand_bind hsafe' fun _ => get_bind fun c _ => .pure fun c' hc' => ?_
  exact ⟨⟨(le_max_right _ _).trans (le_max_left _ _), le_max_right _ _⟩, hdrop ▸ hc'⟩

lemma popNoValue_sat (stk' : List Word) :
    Runs B c₀ k stk' w w (pure 0) fun (_ : ℕ) => At c₀ k (stk'.drop 0) w w :=
  .pure fun _ hc => hc

lemma popU128_sat (stk' : List Word) :
    Runs B c₀ k stk' w w popU128 fun _ => At c₀ k (stk'.drop 1) w w := by
  refine pop_bind fun w rest hw => .ofExcept (fun e he _ _ => ?_) fun n _ c hc => ?_
  · split at he <;> cases he
    exact allowed_of_ne (by simp)
  · rw [hw]
    exact hc

def SetUp (c₀ : Core) (k : ℕ) (rest : List Word) (w W : ℕ) : Option Subcall → Core → Prop
  | none, c => At c₀ k (wordFromU64 0 :: rest) w W c
  | some sub, c => rangeWords sub.retOffset sub.retSize ≤ W ∧ At c₀ k rest w W c

lemma subcall_sat (cx : Ctx) {args : CallArgs} (contract caller : Word) (value : ℕ) (isStatic : Bool)
    (hargs : rangeWords args.argsOffset args.argsSize ≤ W)
    (hret : rangeWords args.retOffset args.retSize ≤ W) :
    Runs B c₀ k rest w W (subcall cx st args contract caller value isStatic)
      (SetUp c₀ k rest w W) :=
  read_bind hargs fun _ _ => .pure fun _ hc => ⟨hret, hc.weaken le_rfl (le_max_left _ _)⟩

lemma refuseUnpaid_sat (cx : Ctx) {args : CallArgs} {call : CoreAct (Option Subcall)}
    (hcall : Runs B c₀ k rest w W call (SetUp c₀ k rest w W)) :
    Runs B c₀ k rest w W (refuseUnpaid cx st args call) (SetUp c₀ k rest w W) := by
  refine .ite (fun _ => ?_) fun _ => hcall
  exact (pushWord_sat _).bind fun _ => .pure fun _ hc => hc

lemma chargeCallValue_sat (args : CallArgs) (newAccount : Bool) :
    Runs B c₀ k rest w W (chargeCallValue st args newAccount) fun _ =>
      At c₀ k rest w W := by
  have hcharge : ∀ n, Runs B c₀ k rest w W (chargeGas n) fun _ =>
      At c₀ k rest w W :=
    fun n => (chargeGas_sat n).post fun _ _ hc => hc.weaken (Nat.le_add_right _ _) le_rfl
  refine .ite (fun _ => .pure fun _ hc => hc) fun _ => (hcharge _).bind fun _ => ?_
  exact .ite (fun _ => hcharge _) fun _ => .pure fun _ hc => hc

lemma setupCall_sat (cx : Ctx) (hR : RangedCall B w W stk) :
    Runs B c₀ k stk w w (setupCall cx st)
      (SetUp c₀ (k + gasCall) (stk.drop 7) w W) := by
  refine (popCall_sat popU128_sat hR).bind fun args => .of_and ?_
  rintro ⟨hargs, hret⟩
  exact (chargeCallValue_sat args true).bind fun _ => refuseUnpaid_sat cx <|
    subcall_sat cx _ _ _ _ hargs hret

lemma setupCallcode_sat (cx : Ctx) (hR : RangedCall B w W stk) :
    Runs B c₀ k stk w w (setupCallcode cx st)
      (SetUp c₀ (k + gasCall) (stk.drop 7) w W) := by
  refine (popCall_sat popU128_sat hR).bind fun args => .of_and ?_
  rintro ⟨hargs, hret⟩
  exact (chargeCallValue_sat args false).bind fun _ => refuseUnpaid_sat cx <|
    subcall_sat cx _ _ _ _ hargs hret

lemma setupDelegatecall_sat (cx : Ctx) (hR : RangedCall B w W stk) :
    Runs B c₀ k stk w w (setupDelegatecall cx st)
      (SetUp c₀ (k + gasCall) (stk.drop 6) w W) := by
  refine (popCall_sat popNoValue_sat hR).bind fun args => .of_and ?_
  rintro ⟨hargs, hret⟩
  exact subcall_sat cx _ _ _ _ hargs hret

lemma setupStaticcall_sat (cx : Ctx) (hR : RangedCall B w W stk) :
    Runs B c₀ k stk w w (setupStaticcall cx st)
      (SetUp c₀ (k + gasCall) (stk.drop 6) w W) := by
  refine (popCall_sat popNoValue_sat hR).bind fun args => .of_and ?_
  rintro ⟨hargs, hret⟩
  exact subcall_sat cx _ _ _ _ hargs hret

structure ResFine (B : Abort → Prop) (res : Res VmError ExecutionResult) : Prop where
  abort : ∀ why, B why → res ≠ .abort why
  error : ∀ reason, res ≠ .error (.revert reason)
  ok : ∀ r, res = .ok r → r.returnData.length ≤ maxReturn

lemma ResFine.of_ok {r : ExecutionResult} (h : r.returnData.length ≤ maxReturn) : ResFine B (.ok r) := by
  refine ⟨fun why _ he => (by cases he), fun reason he => (by cases he), fun r' he => ?_⟩
  cases he
  exact h

lemma ResFine.of_error {e : VmError} (h : ∀ reason, e ≠ .revert reason) : ResFine B (.error e) := by
  refine ⟨fun why _ he => (by cases he), fun reason he => ?_, fun r he => (by cases he)⟩
  cases he
  exact h reason rfl

lemma ResFine.of_abort {why : Abort} (h : ¬ B why) : ResFine B (.abort why) := by
  refine ⟨fun why' hB he => ?_, fun reason he => (by cases he), fun r he => (by cases he)⟩
  cases he
  exact h hB

def succeeded : Res VmError ExecutionResult → Bool
  | .ok result => !result.reverted
  | _ => false

lemma setReturnData_sat {data : List UInt8} (h : data.length ≤ maxReturn) :
    Act.Sat B E (At c₀ k stk w W) (setReturnData data) fun _ => At c₀ k stk w W :=
  .modify fun _ hc => { hc with sound := { hc.sound with return_le := h } }

lemma writeReturn_sat {retOffset retSize : ℕ} (data : List UInt8)
    (h : rangeWords retOffset retSize ≤ W) :
    Act.Sat B E (At c₀ k stk w W) (writeReturn retOffset retSize data) fun _ => At c₀ k stk w W := by
  refine (writeRange_sat (le_trans (rangeWords_mono ?_ ?_) h)).post fun _ _ hc =>
    hc.weaken le_rfl (le_max_left _ _)
  · rw [List.length_take]
    omega
  · rw [List.length_take]
    omega

lemma writeZeros_sat {retOffset retSize writeLen : ℕ} (h : rangeWords retOffset retSize ≤ W) :
    Act.Sat B E (At c₀ k stk w W) (writeZeros retOffset retSize writeLen) fun _ => At c₀ k stk w W := by
  refine .ite (fun hlt => ?_) fun _ => .pure fun _ hc => hc
  refine .of_pre (fun c hc => hc.range_le h) fun hle => ?_
  rw [allocZeros_of_le (show retSize - writeLen ≤ Memory.maxSize by omega)]
  refine .option_bind (fun _ => Option.some_ne_none _) ?_
  rintro zeros ⟨⟩
  refine (writeRange_sat (le_trans (rangeWords_mono ?_ ?_) h)).post fun _ _ hc =>
    hc.weaken le_rfl (le_max_left _ _)
  · rw [List.length_replicate]
    omega
  · rw [List.length_replicate]
    omega

def comesBack : Res VmError ExecutionResult → Bool
  | .ok _ => true
  | .error (.revert _) => true
  | _ => false

lemma finishSubcall_back {B' : Abort → Prop} {sub : Subcall} (hback : comesBack res = true)
    (hres : ResFine B' res) (h : rangeWords sub.retOffset sub.retSize ≤ W)
    (hpush : ∀ v, Act.Sat B E (At c₀ k stk w W) (pushWord v) fun _ => At c₀ k (v :: stk) w W) :
    Act.Sat B E (At c₀ k stk w W) (finishSubcall sub res) fun _ =>
      At c₀ k (wordFromU64 (if succeeded res then 1 else 0) :: stk) w W := by
  rcases res with r | e | why
  · refine (setReturnData_sat (hres.ok r rfl)).bind fun _ => (writeReturn_sat _ h).bind fun _ =>
      (writeZeros_sat h).bind fun _ => (hpush _).post fun _ c hc => ?_
    cases hrev : r.reverted <;> simpa [succeeded, hrev] using hc
  · cases e with
    | revert reason => exact absurd rfl (hres.error reason)
    | _ => cases hback
  · cases hback

lemma finishSubcall_sat {sub : Subcall} (hres : ResFine B res)
    (h : rangeWords sub.retOffset sub.retSize ≤ W) :
    Runs B c₀ k stk w W (finishSubcall sub res) fun _ =>
      At c₀ k (wordFromU64 (if succeeded res then 1 else 0) :: stk) w W := by
  rcases hcase : res with r | e | why
  · exact hcase ▸ finishSubcall_back (hcase ▸ rfl) hres h pushWord_sat
  · cases e with
    | revert reason => exact absurd hcase (hres.error reason)
    | _ => exact throw_sat (by simp)
  · exact .abort fun hB => hres.abort why hB hcase

lemma calling_sat {child : Child} {setup : State → CoreAct (Option Subcall)} {it : Interpreter}
    (hit : Over (At c₀ k stk w w) st it) (hk : 0 < k')
    (hsetup : Runs B c₀ k stk w w (setup st) (SetUp c₀ k' rest w W))
    (hchild : ∀ sub c₁, setup st it.core = (.ok (some sub), c₁) →
      (chargeGas sub.frame.gasLimit c₁).1 = .ok () → ResFine B (child sub.frame sub.code st).1) :
    Act.Sat B (On (Allowed c₀)) (· = it) (calling child setup) (On fun _ => Progress c₀ w W) := by
  obtain ⟨hc, hst⟩ := hit
  have hread : Act.Sat B (On (Allowed c₀)) (· = it) (reading setup) fun sub =>
      Over (SetUp c₀ k' rest w W sub) st :=
    (reading_sat hsetup).pre fun it' (h : it' = it) => h ▸ ⟨hc, hst⟩
  refine hread.bind_known fun sub it₁ hrun hit₁ => ?_
  obtain ⟨hpost, hst₁⟩ := hit₁
  cases sub with
  | none => exact .pure fun it' (h : it' = it₁) => h ▸ hpost.progress hk
  | some sub =>
    obtain ⟨hret, hc₁⟩ := hpost
    have hcharge : Act.Sat B (On (Allowed c₀)) (· = it₁) (onCore (chargeGas sub.frame.gasLimit))
        fun _ => Over (At c₀ (k' + sub.frame.gasLimit) rest w W) st :=
      (onCore_sat (chargeGas_sat _)).pre fun it' (h : it' = it₁) => h ▸ ⟨hc₁, hst₁⟩
    refine hcharge.bind_known fun _ it₂ hpay hit₂ => ?_
    obtain ⟨hc₂, hst₂⟩ := hit₂
    have hfine : ResFine B (child sub.frame sub.code st).1 := by
      rw [reading, hst] at hrun
      exact hchild sub it₁.core (onCore_run hrun).1 (congrArg Prod.fst (onCore_run hpay).1)
    -- the nested frame runs, and its result is written into this one
    refine Act.Sat.bind (Q := fun res it' => res = (child sub.frame sub.code st).1 ∧
        At c₀ (k' + sub.frame.gasLimit) rest w W it'.core) (.of_ok fun it' (h : it' = it₂) => ?_) fun res => ?_
    · exact ⟨_, _, rfl, by rw [h, hst₂], h ▸ hc₂⟩
    · refine .of_and fun hres => (onCore_frame (finishSubcall_sat (hres ▸ hfine) hret)).post ?_
      exact fun _ it' hit' => At.progress hit' (Nat.add_pos_left hk _)

end Calls

/-! ### The dispatch -/

def Op.ranges : Op → List Word → List (Word × Word)
  | .sha3, size :: offset :: _ => [(offset, size)]
  | .return_, size :: offset :: _ => [(offset, size)]
  | .revert, size :: offset :: _ => [(offset, size)]
  | .log _, size :: offset :: _ => [(offset, size)]
  | .mload, offset :: _ => [(offset, wordFromU64 32)]
  | .mstore, _ :: offset :: _ => [(offset, wordFromU64 32)]
  | .mstore8, _ :: offset :: _ => [(offset, wordFromU64 1)]
  | .calldatacopy, size :: _ :: dest :: _ => [(dest, size)]
  | .codecopy, size :: _ :: dest :: _ => [(dest, size)]
  | .extcodecopy, size :: _ :: dest :: _ => [(dest, size)]
  | .returndatacopy, size :: _ :: dest :: _ => [(dest, size)]
  | .create, _ :: size :: offset :: _ => [(offset, size)]
  | .create2, _ :: _ :: size :: offset :: _ => [(offset, size)]
  | .call, retSize :: retOffset :: argsSize :: argsOffset :: _ =>
    [(argsOffset, argsSize), (retOffset, retSize)]
  | .callcode, retSize :: retOffset :: argsSize :: argsOffset :: _ =>
    [(argsOffset, argsSize), (retOffset, retSize)]
  | .delegatecall, retSize :: retOffset :: argsSize :: argsOffset :: _ =>
    [(argsOffset, argsSize), (retOffset, retSize)]
  | .staticcall, retSize :: retOffset :: argsSize :: argsOffset :: _ =>
    [(argsOffset, argsSize), (retOffset, retSize)]
  | _, _ => []

def Op.grown (op : Op) (stack : List Word) (words : ℕ) : ℕ :=
  (op.ranges stack).foldl (fun words range => max words (wordRange range.1 range.2)) words

def Op.copySize : Op → List Word → Option Word
  | .calldatacopy, size :: _ => some size
  | .codecopy, size :: _ => some size
  | .extcodecopy, size :: _ => some size
  | _, _ => none

/-- **The operands on which an opcode does not panic**: the end of a memory range and the size of a
copy stay clear of the last 31 numbers of `usize`, the operands of `MULMOD` leave its quotient in
32 bytes, and a log is only written where one may be kept. -/
structure Op.Benign (op : Op) (maxLogs : ℕ) (stack : List Word) : Prop where
  ranges : ∀ offset size, (offset, size) ∈ op.ranges stack → SafeWords offset size
  copySize : ∀ size, op.copySize stack = some size → ∀ n, usize size = some n → n + 31 < 2 ^ 64
  mulmod : op = .mulmod → ∀ a b m rest, stack = m :: b :: a :: rest → MulmodFits a b m
  logs : ∀ n, op = .log n → 0 < maxLogs

def setupOf (cx : Ctx) : Op → Option (State → CoreAct (Option Subcall))
  | .call => if cx.frame.isStatic then none else some (setupCall cx)
  | .callcode => if cx.frame.isStatic then none else some (setupCallcode cx)
  | .delegatecall => if cx.frame.isStatic then none else some (setupDelegatecall cx)
  | .staticcall => some (setupStaticcall cx)
  | _ => none

variable {sub : Subcall} {cx : Ctx}

lemma setupOf_eq_some {op : Op} {setup : State → CoreAct (Option Subcall)}
    (h : setupOf cx op = some setup) :
    (op = .call ∧ cx.frame.isStatic = false ∧ setup = setupCall cx) ∨
      (op = .callcode ∧ cx.frame.isStatic = false ∧ setup = setupCallcode cx) ∨
      (op = .delegatecall ∧ cx.frame.isStatic = false ∧ setup = setupDelegatecall cx) ∨
      op = .staticcall ∧ setup = setupStaticcall cx := by
  cases hstatic : cx.frame.isStatic <;> cases op <;> simp_all [setupOf]

def Starts (cx : Ctx) (op : Op) (st : State) (c : Core) (sub : Subcall) : Prop :=
  ∃ setup c₁, setupOf cx op = some setup ∧ setup st c = (.ok (some sub), c₁) ∧
    (chargeGas sub.frame.gasLimit c₁).1 = .ok ()

def Op.calls : Op → Bool
  | .call | .callcode | .delegatecall | .staticcall => true
  | _ => false

def Op.immediateLen : Op → ℕ
  | .push n => n + 1
  | _ => 0

def Op.takesJump : Op → List Word → Bool
  | .jump, _ => true
  | .jumpi, cond :: _ => !wordIsZero cond
  | _, _ => false

/-- **A frame after an opcode.** -/
structure After (cx : Ctx) (op : Op) (c₀ c : Core) : Prop extends Since c₀ 0 c where
  moves : c.halted = true ∨ c₀.gas.used < c.gas.used
  jumps : op.takesJump c₀.stack = true → c.pc ∈ cx.jumpdests
  passes : op.takesJump c₀.stack = false → c.pc = c₀.pc + op.immediateLen
  least_le : (if op.calls then c₀.mem.words else op.grown c₀.stack c₀.mem.words) ≤ c.mem.words
  le_most : c.mem.words ≤ op.grown c₀.stack c₀.mem.words

section Dispatch

variable {B : Abort → Prop} {c₀ c : Core} {k w W : ℕ} {stk : List Word} {st : State}

variable {it : Interpreter} {child : Child} {Q : Unit → Core → Prop}

lemma onCore_progress {m : CoreAct Unit} (h : Runs B c₀ k stk w w m Q) :
    Act.Sat B (On (Allowed c₀)) (Over (At c₀ k stk w w) st) (onCore m) (On Q) :=
  (onCore_sat h).post fun _ _ hit => hit.1

lemma reading_progress {m : State → CoreAct Unit}
    (h : Runs B c₀ k stk w w (m st) Q) :
    Act.Sat B (On (Allowed c₀)) (Over (At c₀ k stk w w) st) (reading m) (On Q) :=
  (reading_sat h).post fun _ _ hit => hit.1

lemma Progress.after {op : Op} {pc : ℕ}
    (h : Progress { c₀ with pc } (op.grown c₀.stack c₀.mem.words) (op.grown c₀.stack c₀.mem.words)
      c) (hcalls : op.calls = false) (hjumps : op.takesJump c₀.stack = true → pc ∈ cx.jumpdests)
    (hpasses : op.takesJump c₀.stack = false → pc = c₀.pc + op.immediateLen) : After cx op c₀ c :=
  { h with
    jumps := fun ht => h.pc_eq ▸ hjumps ht
    passes := fun ht => h.pc_eq.trans (hpasses ht)
    least_le := by rw [hcalls]; exact h.least_le }

def Op.CallRanges (op : Op) : Prop :=
  ∀ retSize retOffset argsSize argsOffset rest,
    op.ranges (retSize :: retOffset :: argsSize :: argsOffset :: rest) =
      [(argsOffset, argsSize), (retOffset, retSize)]

lemma Op.CallRanges.ranged {op : Op} (hop : op.CallRanges)
    (hB : B .panic → ∀ offset size, (offset, size) ∈ op.ranges stk → SafeWords offset size) :
    RangedCall B w (op.grown stk w) stk := by
  rintro retSize retOffset argsSize argsOffset rest rfl
  refine ⟨_, ⟨fun hb => hB hb _ _ (by simp [hop _]), rfl⟩, fun hb => hB hb _ _ (by simp [hop _]), ?_⟩
  rw [Op.grown, hop]
  rfl

lemma calling_of_starts (op : Op) {rest : List Word} {setup : State → CoreAct (Option Subcall)}
    (hit : Over (At c₀ k stk w w) st it) (hop : setupOf cx op = some setup)
    (hsetup : Runs B c₀ k stk w w (setup st) (SetUp c₀ (k + gasCall) rest w W))
    (hchild : ∀ sub, Starts cx op st it.core sub → ResFine B (child sub.frame sub.code st).1) :
    Act.Sat B (On (Allowed c₀)) (· = it) (calling child setup) (On fun _ => Progress c₀ w W) :=
  calling_sat hit (Nat.add_pos_right k (by decide)) hsetup fun sub c₁ hrun hpay =>
    hchild sub ⟨setup, c₁, hop, hrun, hpay⟩

lemma executeOpcode_sat (keccak : List UInt8 → Word) {opcode : UInt8} (hit : it.core.Sound)
    (hpc : 1 ≤ it.core.pc) (hcode : it.core.pc ≤ maxCodeSize)
    (hB : B .panic → (decode opcode).Benign it.state.maxLogs it.core.stack)
    (hchild : ∀ sub, Starts cx (decode opcode) it.state it.core sub → ResFine B (child sub.frame
      sub.code it.state).1) :
    Act.Sat B (On (Allowed it.core)) (· = it) (executeOpcode keccak child cx opcode)
      (On fun _ => After cx (decode opcode) it.core) := by
  unfold executeOpcode
  generalize decode opcode = op at hB hchild ⊢
  have hat : Over (At it.core 0 it.core.stack it.core.mem.words it.core.mem.words) it.state it :=
    ⟨hit.at, rfl⟩
  have hknown : ∀ {m : VmAct Unit} {Q : Unit → Core → Prop}, Act.Sat B (On (Allowed it.core))
      (Over (At it.core 0 it.core.stack it.core.mem.words it.core.mem.words) it.state) m (On Q) →
      Act.Sat B (On (Allowed it.core)) (· = it) m (On Q) :=
    fun h => h.pre fun it' heq => heq ▸ hat
  -- the opcodes that stay where the loop has moved them
  have hstay : (op.calls, op.takesJump it.core.stack, op.immediateLen) = (false, false, 0) →
      ∀ {m : VmAct Unit}, Act.Sat B (On (Allowed it.core))
        (Over (At it.core 0 it.core.stack it.core.mem.words it.core.mem.words) it.state) m
        (On fun _ => Progress it.core (op.grown it.core.stack it.core.mem.words)
          (op.grown it.core.stack it.core.mem.words)) →
      Act.Sat B (On (Allowed it.core)) (· = it) m (On fun _ => After cx op it.core) := by
    intro hop m h
    simp only [Prod.mk.injEq] at hop
    refine (hknown h).post fun _ it' (hprog : Progress it.core _ _ it'.core) => ?_
    have hpc : Progress { it.core with pc := it.core.pc } _ _ it'.core := hprog
    exact hpc.after hop.1 (fun ht => by simp [hop.2.1] at ht) fun _ => by
      rw [hop.2.2]
      rfl
  -- the ranges of the opcodes that take them from the top of the stack
  have hrange : ∀ {offset size stk}, it.core.stack = stk → op.ranges stk = [(offset, size)] →
      Ranged B it.core.mem.words (op.grown it.core.stack it.core.mem.words) offset size := by
    rintro offset size _ rfl hop
    refine ⟨fun hb => (hB hb).ranges _ _ (by rw [hop]; exact List.mem_singleton_self _), ?_⟩
    rw [Op.grown, hop]
    rfl
  have hcall : op.CallRanges → RangedCall B it.core.mem.words
      (op.grown it.core.stack it.core.mem.words) it.core.stack :=
    fun hop => hop.ranged fun hb => (hB hb).ranges
  have hcalling : ∀ {m : VmAct Unit}, (op.calls, op.immediateLen) = (true, 0) →
      op.takesJump it.core.stack = false → Act.Sat B (On (Allowed it.core)) (· = it) m
        (On fun _ => Progress it.core it.core.mem.words (op.grown it.core.stack it.core.mem.words)) →
      Act.Sat B (On (Allowed it.core)) (· = it) m (On fun _ => After cx op it.core) := by
    intro m hop htakes h
    simp only [Prod.mk.injEq] at hop
    refine h.post fun _ it' (hprog : Progress it.core _ _ it'.core) => ?_
    exact { hprog with
      jumps := fun ht => by simp [htakes] at ht
      passes := fun _ => by rw [hop.2]; exact hprog.pc_eq
      least_le := by rw [hop.1]; exact hprog.least_le }
  cases op with
  | stop => exact hstay rfl <| onCore_progress handleStop_sat
  | invalid => exact .throw fun _ _ => allowed_of_ne (by simp)
  | add => exact hstay rfl <| onCore_progress (binop_sat (by decide) wordAdd_ne_none)
  | mul => exact hstay rfl <| onCore_progress (binop_sat (by decide) fun a b => by
      obtain ⟨w, hw, -⟩ := mirrored_wordMul a b
      simp [hw])
  | sub | div | sdiv | mod | smod | signextend | byte | shl | shr | sar =>
    exact hstay rfl <| onCore_progress (binop_sat (by decide) fun _ _ => by
      simp [wordSub_eq, wordDiv_eq, wordSdiv_eq, wordMod_eq, wordSmod_eq, wordSignextend_eq,
        wordByte_eq, wordShl_eq, wordShr_eq, wordSar_eq])
  | addmod => exact hstay rfl <| onCore_progress (triop_sat (by decide) fun _ a b m _ _ => wordAddmod_ne_none a b m)
  | mulmod =>
    exact hstay rfl <| onCore_progress (triop_sat (by decide) fun hb a b m rest hstk =>
      wordMulmod_ne_none ((hB hb).mulmod rfl a b m rest hstk))
  | exp => exact hstay rfl <| onCore_progress handleExp_sat
  | lt | gt | slt | sgt | eq =>
    exact hstay rfl <| onCore_progress (binopBool_sat _)
  | iszero => exact hstay rfl <| onCore_progress (unop_sat fun _ => Option.some_ne_none _)
  | and | or | xor =>
    exact hstay rfl <| onCore_progress (binop_sat (by decide) (wordZip_ne_none _))
  | not => exact hstay rfl <| onCore_progress (unop_sat wordNot_ne_none)
  | sha3 =>
    refine hstay rfl <| onCore_progress (handleSha3_sat keccak ?_)
    exact fun _ _ _ hstk => hrange hstk rfl
  | address | caller | callvalue | calldatasize | codesize | returndatasize | msize | gas =>
    exact hstay rfl <| onCore_progress (pushing_sat (by decide) _)
  | balance | extcodesize | sload =>
    exact hstay rfl <| reading_progress (lookup_sat (by decide) _)
  | origin | gasprice =>
    exact hstay rfl <| reading_progress (pushing_sat (by decide) _)
  | calldataload => exact hstay rfl <| onCore_progress (handleCalldataload_sat cx)
  | calldatacopy | codecopy =>
    refine hstay rfl <| onCore_progress (handleCopyData_sat cx _ ?_ ?_)
    · rintro hb size rest hstk
      exact (hB hb).copySize size (by rw [hstk]; rfl)
    · rintro size src dest rest hstk
      exact hrange hstk rfl
  | extcodecopy =>
    refine hstay rfl <| reading_progress (handleExtcodecopy_sat it.state ?_ ?_)
    · rintro hb size rest hstk
      exact (hB hb).copySize size (by rw [hstk]; rfl)
    · rintro size src dest rest hstk
      exact hrange hstk rfl
  | returndatacopy =>
    refine hstay rfl <| onCore_progress (handleReturndatacopy_sat ?_)
    exact fun _ _ _ _ hstk => hrange hstk rfl
  | pop => exact hstay rfl <| onCore_progress handlePop_sat
  | mload =>
    refine hstay rfl <| onCore_progress (handleMload_sat ?_)
    exact fun _ _ hstk => hrange hstk rfl
  | mstore =>
    refine hstay rfl <| onCore_progress (storing_sat (fun val => length_toList val) usize_wordFromU64_32 ?_)
    exact fun _ _ _ hstk => hrange hstk rfl
  | mstore8 =>
    refine hstay rfl <| onCore_progress (storing_sat (fun _ => rfl) usize_wordFromU64_1 ?_)
    exact fun _ _ _ hstk => hrange hstk rfl
  | sstore => exact hstay rfl (handleSstore_sat cx)
  | jump =>
    refine (hknown <| onCore_progress (handleJump_sat cx)).post ?_
    rintro _ it' ⟨pc, hpc, hprog⟩
    exact hprog.after rfl (fun _ => hpc) fun ht => by cases ht
  | jumpi =>
    refine (hknown <| onCore_progress (handleJumpi_sat cx)).post ?_
    rintro _ it' ⟨cond, rest, hstk, pc, hpc, hprog⟩
    refine hprog.after rfl (fun ht => ?_) fun ht => ?_
    · rw [hstk, Op.takesJump] at ht
      simpa [show wordIsZero cond = false by simpa using ht] using hpc
    · rw [hstk, Op.takesJump] at ht
      simpa [Op.immediateLen, show wordIsZero cond = true by simpa using ht] using hpc
  | pc => exact hstay rfl <| onCore_progress (handlePc_sat hpc)
  | jumpdest => exact hstay rfl <| onCore_progress handleJumpdest_sat
  | push n =>
    refine (hknown <| onCore_progress (handlePush_sat cx hcode (by omega))).post fun _ it' hprog => ?_
    exact Progress.after hprog rfl (fun ht => by cases ht) fun _ => rfl
  | dup n => exact hstay rfl <| onCore_progress (handleDup_sat (Nat.succ_pos _))
  | swap n => exact hstay rfl <| onCore_progress (handleSwap_sat _)
  | log n =>
    refine hstay rfl (handleLog_sat cx _ ?_ fun hb => (hB hb).logs n rfl)
    exact fun _ _ _ hstk => hrange hstk rfl
  | create =>
    refine hstay rfl (handleCreate_sat cx ?_)
    exact fun _ _ _ _ hstk => hrange hstk rfl
  | create2 =>
    refine hstay rfl (handleCreate2_sat keccak cx ?_)
    exact fun _ _ _ _ _ hstk => hrange hstk rfl
  | call =>
    refine hcalling rfl rfl <| guard_bind fun hstatic => calling_of_starts .call hat
      (by simp [setupOf, hstatic]) (setupCall_sat cx (hcall fun _ _ _ _ _ => rfl)) hchild
  | callcode =>
    refine hcalling rfl rfl <| guard_bind fun hstatic => calling_of_starts .callcode hat
      (by simp [setupOf, hstatic]) (setupCallcode_sat cx (hcall fun _ _ _ _ _ => rfl)) hchild
  | delegatecall =>
    refine hcalling rfl rfl <| guard_bind fun hstatic => calling_of_starts .delegatecall hat
      (by simp [setupOf, hstatic]) (setupDelegatecall_sat cx (hcall fun _ _ _ _ _ => rfl)) hchild
  | staticcall =>
    exact hcalling rfl rfl <| calling_of_starts .staticcall hat rfl
      (setupStaticcall_sat cx (hcall fun _ _ _ _ _ => rfl)) hchild
  | return_ =>
    refine hstay rfl <| onCore_progress (handleReturn_sat ?_)
    exact fun _ _ _ hstk => hrange hstk rfl
  | revert =>
    refine hstay rfl <| onCore_progress (handleRevert_sat ?_)
    exact fun _ _ _ hstk => hrange hstk rfl
  | selfdestruct => exact hstay rfl (handleSelfdestruct_sat cx)

def Interpreter.moved (it : Interpreter) : Interpreter :=
  { it with core := { it.core with pc := it.core.pc + 1 } }

lemma stepOpcode_apply (keccak : List UInt8 → Word) (child : Child) (cx : Ctx) (opcode : UInt8)
    (h : it.core.pc < maxCodeSize) :
    stepOpcode keccak child cx opcode it = executeOpcode keccak child cx opcode it.moved := by
  have hfit : it.core.pc + 1 < 2 ^ 64 := lt_trans (Nat.succ_lt_succ h) (by decide)
  have hpc : (Act.ofOption (Checked.fit 64 (it.core.pc + 1)) : VmAct ℕ) it =
      (.ok (it.core.pc + 1), it) := by
    rw [Checked.fit_of_lt hfit]
    rfl
  exact Act.bind_of_ok hpc

lemma stepOpcode_sat (keccak : List UInt8 → Word) {opcode : UInt8} (hit : it.core.Sound)
    (hpc : it.core.pc < maxCodeSize)
    (hB : B .panic → (decode opcode).Benign it.state.maxLogs it.core.stack)
    (hchild : ∀ sub, Starts cx (decode opcode) it.state it.moved.core sub → ResFine B (child
      sub.frame sub.code it.state).1) :
    Act.Sat B (On (Allowed it.moved.core)) (· = it) (stepOpcode keccak child cx opcode)
      (On fun _ => After cx (decode opcode) it.moved.core) := by
  rintro it ⟨⟩
  have hmoved : it.moved.core.Sound := { hit with }
  rw [stepOpcode_apply keccak child cx opcode hpc]
  exact executeOpcode_sat keccak hmoved (Nat.succ_pos _) hpc hB hchild it.moved rfl

end Dispatch

/-! ### The nested frame -/

structure Nested (cx : Ctx) (frame : Frame) : Prop where
  depth_eq : frame.depth = cx.frame.depth + 1
  static : cx.frame.isStatic = true → frame.isStatic = true

lemma subcall_nested (cx : Ctx) (st : State) (args : CallArgs) (contract caller : Word)
    (value : ℕ) {isStatic : Bool} (hstatic : cx.frame.isStatic = true → isStatic = true)
    {c c₁ : Core} (h : subcall cx st args contract caller value isStatic c = (.ok (some sub), c₁)) :
    Nested cx sub.frame := by
  obtain ⟨input, c', _, hrest⟩ := Act.bind_eq_ok h
  cases hrest
  exact ⟨rfl, hstatic⟩

lemma refuseUnpaid_some {st : State} {args : CallArgs} {call : CoreAct (Option Subcall)}
    {c c₁ : Core} (h : refuseUnpaid cx st args call c = (.ok (some sub), c₁)) :
    call c = (.ok (some sub), c₁) := by
  unfold refuseUnpaid at h
  split at h
  · obtain ⟨_, c', _, hrest⟩ := Act.bind_eq_ok h
    cases hrest
  · exact h

lemma Starts.nested {op : Op} {st : State} {c : Core} (h : Starts cx op st c sub) :
    Nested cx sub.frame := by
  obtain ⟨setup, c₁, hsetup, hrun, _⟩ := h
  rcases setupOf_eq_some hsetup with ⟨-, -, rfl⟩ | ⟨-, -, rfl⟩ | ⟨-, -, rfl⟩ | ⟨-, rfl⟩
  · obtain ⟨args, c₂, _, h₂⟩ := Act.bind_eq_ok hrun
    obtain ⟨_, c₃, _, h₃⟩ := Act.bind_eq_ok h₂
    exact subcall_nested cx _ _ _ _ _ (fun hs => hs) (refuseUnpaid_some h₃)
  · obtain ⟨args, c₂, _, h₂⟩ := Act.bind_eq_ok hrun
    obtain ⟨_, c₃, _, h₃⟩ := Act.bind_eq_ok h₂
    exact subcall_nested cx _ _ _ _ _ (fun hs => hs) (refuseUnpaid_some h₃)
  · obtain ⟨args, c₂, _, h₂⟩ := Act.bind_eq_ok hrun
    exact subcall_nested cx _ _ _ _ _ (fun hs => hs) h₂
  · -- the frame of a `STATICCALL` is static whatever its caller is
    obtain ⟨args, c₂, _, h₂⟩ := Act.bind_eq_ok hrun
    exact subcall_nested cx _ _ _ _ _ (fun _ => rfl) h₂

end Iona.Vm
