import Iona.Vm.Interpreter
import Iona.Vm.ModularWords

/-!
# What the handlers do

Each handler is run from a sound frame with a known stack: `Runs` says what it leaves of the stack,
how far the gas and the memory have moved, and which aborts are excluded.
-/

namespace Iona.Vm

open Checked List Option

/-! ### The price of memory -/

lemma memoryCostWords_mono {v w : ℕ} (h : v ≤ w) : memoryCostWords v ≤ memoryCostWords w := by
  unfold memoryCostWords
  have hmul : v * v ≤ w * w := Nat.mul_le_mul h h
  have hdiv : min (v * v) Machine.u64Max / 512 ≤ min (w * w) Machine.u64Max / 512 :=
    Nat.div_le_div_right (by omega)
  omega

lemma words_le_of_cost {w : ℕ} (h : memoryCostWords w ≤ maxGasPerTx) : 32 * w ≤ Memory.maxSize := by
  by_contra hgt
  have hw : 131073 ≤ w := by
    unfold Memory.maxSize at hgt
    omega
  have hmono := memoryCostWords_mono hw
  have hcost : maxGasPerTx < memoryCostWords 131073 := by decide +kernel
  omega

def rangeWords (offset size : ℕ) : ℕ := if size = 0 then 0 else (offset + size + 31) / 32

lemma rangeWords_mono {offset offset' size size' : ℕ} (h : offset' + size' ≤ offset + size)
    (hsize : size = 0 → size' = 0) : rangeWords offset' size' ≤ rangeWords offset size := by
  unfold rangeWords
  split
  · exact Nat.zero_le _
  · rename_i hne
    rw [if_neg fun hz => hne (hsize hz)]
    omega

/-! ### The invariant of a frame -/

def maxReturn : ℕ := 3 * Memory.maxSize

/-- **The invariant of a frame.** -/
structure Core.Sound (c : Core) : Prop where
  used_le : c.gas.used ≤ c.gas.limit
  limit_le : c.gas.limit ≤ maxGasPerTx
  stack_le : c.stack.length ≤ stackLimit
  paid : memoryCostWords c.mem.words ≤ c.gas.used
  return_le : c.returnData.length ≤ maxReturn

def Core.still (c : Core) : ℕ × Bool × Bool × ℕ := (c.pc, c.halted, c.reverted, c.logsCount)

structure Since (c₀ : Core) (k : ℕ) (c : Core) : Prop where
  sound : c.Sound
  limit_eq : c.gas.limit = c₀.gas.limit
  le_used : c₀.gas.used + k ≤ c.gas.used

def Allowed (c₀ : Core) (e : VmError) (c : Core) : Prop :=
  ∀ reason, e = .revert reason → reason.length ≤ maxReturn ∧ Since c₀ 0 c

lemma allowed_of_ne {c₀ c : Core} {e : VmError} (h : ∀ reason, e ≠ .revert reason) :
    Allowed c₀ e c :=
  fun reason he => absurd he (h reason)

structure At (c₀ : Core) (k : ℕ) (stack : List Word) (least most : ℕ) (c : Core) : Prop extends
    Since c₀ k c where
  stack_eq : c.stack = stack
  still_eq : c.still = c₀.still
  least_le : least ≤ c.mem.words
  le_most : c.mem.words ≤ most
  most_paid : memoryCostWords most ≤ c.gas.used

lemma Core.Sound.at {c : Core} (h : c.Sound) : At c 0 c.stack c.mem.words c.mem.words c :=
  { sound := h, limit_eq := rfl, le_used := le_rfl, stack_eq := rfl, still_eq := rfl,
    least_le := le_rfl, le_most := le_rfl, most_paid := h.paid }

lemma Since.mono {c₀ c : Core} {k k' : ℕ} (h : Since c₀ k c) (hk : k' ≤ k) : Since c₀ k' c :=
  { h with le_used := (Nat.add_le_add_left hk _).trans h.le_used }

structure Progress (c₀ : Core) (least most : ℕ) (c : Core) : Prop extends Since c₀ 0 c where
  moves : c.halted = true ∨ c₀.gas.used < c.gas.used
  pc_eq : c.pc = c₀.pc
  least_le : least ≤ c.mem.words
  le_most : c.mem.words ≤ most

section Steps

variable {B : Abort → Prop} {c₀ c : Core} {k m M : ℕ} {stk : List Word} {α β : Type}
  {T : β → Core → Prop}

variable {amount n offset size : ℕ} {E : VmError → Core → Prop} {f : Unit → CoreAct β}

lemma At.pc_eq (hc : At c₀ k stk m M c) : c.pc = c₀.pc := congrArg Prod.fst hc.still_eq

lemma At.progress (hc : At c₀ k stk m M c) (hk : 0 < k) : Progress c₀ m M c :=
  { hc with
    toSince := hc.toSince.mono (Nat.zero_le k)
    moves := .inr (by have := hc.le_used; omega)
    pc_eq := hc.pc_eq }

lemma At.weaken (hc : At c₀ k stk m M c) {k' m' : ℕ} (hk : k' ≤ k) (hm : m' ≤ m) :
    At c₀ k' stk m' M c :=
  { hc with toSince := hc.toSince.mono hk, least_le := hm.trans hc.least_le }

lemma At.range_le (hc : At c₀ k stk m M c) (h : rangeWords offset size ≤ M) :
    size = 0 ∨ offset + size ≤ Memory.maxSize := by
  by_cases hsize : size = 0
  · exact .inl hsize
  · rw [rangeWords, if_neg hsize] at h
    have hlen := words_le_of_cost
      (hc.most_paid.trans (hc.sound.used_le.trans hc.sound.limit_le))
    exact .inr (by omega)

abbrev Runs (B : Abort → Prop) (c₀ : Core) (k : ℕ) (stk : List Word) (m M : ℕ) (act : CoreAct α)
    (Q : α → Core → Prop) : Prop :=
  Act.Sat B (Allowed c₀) (At c₀ k stk m M) act Q

lemma throw_sat {P : Core → Prop} {Q : α → Core → Prop} {e : VmError}
    (h : ∀ reason, e ≠ .revert reason) :
    Act.Sat B (Allowed c₀) P (Act.throw e : CoreAct α) Q :=
  .throw fun _ _ => allowed_of_ne h

/-! ### Gas and stack -/

lemma charge_error {g g' : GasMeter} {e : VmError} (h : g.charge amount = (.error e, g'))
    (reason : List UInt8) : e ≠ .revert reason := by
  unfold GasMeter.charge at h
  split at h
  · cases h
  · split at h
    · cases h
      simp
    · split at h
      · cases h
        simp
      · cases h

lemma charge_ok {g g' : GasMeter} (h : g.charge amount = (.ok (), g')) :
    g'.limit = g.limit ∧ g'.used = g.used + amount ∧ (g.used ≤ g.limit → g'.used ≤ g'.limit) := by
  unfold GasMeter.charge at h
  split at h
  · rename_i hzero
    cases h
    exact ⟨rfl, by omega, fun hle => hle⟩
  · split at h
    · cases h
    · split at h
      · cases h
      · rename_i hle
        cases h
        exact ⟨rfl, rfl, fun _ => not_lt.mp hle⟩

lemma chargeGas_from (hc : At c₀ k stk m M c) (n : ℕ) :
    Act.Sat B (Allowed c₀) (· = c) (chargeGas n) fun _ c' =>
      At c₀ (k + n) stk m M c' ∧ c'.mem = c.mem ∧ c'.gas.used = c.gas.used + n := by
  rintro c ⟨⟩
  unfold chargeGas
  rcases hcharge : c.gas.charge n with ⟨e | r, gas⟩
  · exact Act.Sat.on_error (allowed_of_ne (charge_error hcharge))
  · obtain ⟨hlimit, hused, hle⟩ := charge_ok hcharge
    have hgrows : c.gas.used ≤ gas.used := by omega
    have hk := hc.le_used
    refine Act.Sat.on_ok ⟨?_, rfl, hused⟩
    exact {
      sound := {
        used_le := hle hc.sound.used_le
        limit_le := hlimit ▸ hc.sound.limit_le
        stack_le := hc.sound.stack_le
        paid := hc.sound.paid.trans hgrows
        return_le := hc.sound.return_le }
      limit_eq := hlimit.trans hc.limit_eq
      le_used := by change _ ≤ gas.used; omega
      stack_eq := hc.stack_eq
      still_eq := hc.still_eq
      least_le := hc.least_le
      le_most := hc.le_most
      most_paid := hc.most_paid.trans hgrows }

lemma chargeGas_sat (n : ℕ) :
    Runs B c₀ k stk m M (chargeGas n) fun _ => At c₀ (k + n) stk m M := by
  intro c hc
  exact (chargeGas_from hc n).post (fun _ _ h => h.1) c rfl

lemma charge_bind (h : Runs B c₀ (k + n) stk m M (f ()) T) :
    Runs B c₀ k stk m M (chargeGas n >>= f) T :=
  (chargeGas_sat n).bind fun _ => h

lemma popWord_sat : Runs B c₀ k stk m M popWord fun w c =>
    ∃ rest, stk = w :: rest ∧ At c₀ k rest m M c := by
  intro c hc
  unfold popWord
  rcases hstack : c.stack with _ | ⟨w, rest⟩
  · exact Act.Sat.on_error (allowed_of_ne (by simp))
  · have hlen := hc.sound.stack_le
    rw [hstack, length_cons] at hlen
    refine Act.Sat.on_ok ⟨rest, hc.stack_eq.symm.trans hstack, { hc with sound := ?_, stack_eq := rfl }⟩
    exact { hc.sound with stack_le := by change rest.length ≤ stackLimit; omega }

lemma pop_bind {f : Word → CoreAct β}
    (h : ∀ w rest, stk = w :: rest → Runs B c₀ k rest m M (f w) T) :
    Runs B c₀ k stk m M (popWord >>= f) T :=
  popWord_sat.bind fun w => .of_exists fun rest => .of_and fun hstk => h w rest hstk

def usize (w : Word) : Option ℕ := if wordFitsU64 w then some (wordToU64Unchecked w) else none

lemma usize_of_checked {w : Word} (h : wordToUsizeChecked w = .ok n) : usize w = some n := by
  unfold wordToUsizeChecked at h
  unfold usize
  split at h
  · rename_i hfits
    cases h
    exact if_pos hfits
  · cases h

lemma popExcept_bind {γ : Type} {conv : Word → Except VmError γ} {f : γ → CoreAct β}
    (hconv : ∀ w e, conv w = .error e → ∀ reason, e ≠ .revert reason)
    (h : ∀ n w rest, stk = w :: rest → conv w = .ok n →
      Runs B c₀ k rest m M (f n) T) :
    Runs B c₀ k stk m M ((popWord >>= fun w => Act.ofExcept (conv w)) >>= f) T := by
  have hpop : Runs B c₀ k stk m M (popWord >>= fun w => Act.ofExcept (conv w))
      fun n c => ∃ w rest, (stk = w :: rest ∧ conv w = .ok n) ∧ At c₀ k rest m M c := by
    refine pop_bind fun w rest hstk => .ofExcept (fun e he _ _ => allowed_of_ne (hconv w e he)) ?_
    exact fun n hn c hc => ⟨w, rest, ⟨hstk, hn⟩, hc⟩
  refine hpop.bind fun n => .of_exists fun w => .of_exists fun rest => .of_and ?_
  rintro ⟨hstk, hn⟩
  exact h n w rest hstk hn

lemma popUsize_bind {f : ℕ → CoreAct β}
    (h : ∀ n w rest, stk = w :: rest → usize w = some n →
      Runs B c₀ k rest m M (f n) T) :
    Runs B c₀ k stk m M (popWordAsUsize >>= f) T := by
  refine popExcept_bind (fun w e he => ?_) fun n w rest hstk hn => h n w rest hstk (usize_of_checked hn)
  unfold wordToUsizeChecked at he
  split at he <;> cases he
  simp

lemma pushWord_room (w : Word) (hroom : stk.length < stackLimit) :
    Act.Sat B E (At c₀ k stk m M) (pushWord w) fun _ => At c₀ k (w :: stk) m M := by
  refine .of_ok fun c hc => ?_
  have hlt : c.stack.length < stackLimit := by
    rw [hc.stack_eq]
    exact hroom
  refine ⟨(), { c with stack := w :: c.stack }, if_neg (not_le.mpr hlt), ?_⟩
  refine { hc with sound := ?_, stack_eq := congrArg (w :: ·) hc.stack_eq }
  exact { hc.sound with stack_le := hlt }

lemma pushWord_sat (w : Word) :
    Runs B c₀ k stk m M (pushWord w) fun _ => At c₀ k (w :: stk) m M := by
  intro c hc
  by_cases hroom : stk.length < stackLimit
  · exact pushWord_room w hroom c hc
  · have hfull : stackLimit ≤ c.stack.length := by
      rw [hc.stack_eq]
      exact not_lt.mp hroom
    rw [pushWord, if_pos hfull]
    exact Act.Sat.on_error (allowed_of_ne (by simp))

lemma push_progress (w : Word) (hk : 0 < k) :
    Runs B c₀ k stk m M (pushWord w) fun _ => Progress c₀ m M :=
  (pushWord_sat w).post fun _ _ hc => hc.progress hk

lemma get_bind {f : Core → CoreAct β}
    (h : ∀ c, At c₀ k stk m M c → Runs B c₀ k stk m M (f c) T) :
    Runs B c₀ k stk m M (Act.get >>= f) T := by
  intro c hc
  exact h c hc c hc

/-! ### Memory -/

lemma wordsOf_bind {f : ℕ → CoreAct β} (hB : B .panic → n + 31 < 2 ^ 64)
    (h : n + 31 < 2 ^ 64 → Runs B c₀ k stk m M (f ((n + 31) / 32)) T) :
    Runs B c₀ k stk m M (wordsOf n >>= f) T := by
  have hwords : Runs B c₀ k stk m M (wordsOf n) fun w c =>
      (w = (n + 31) / 32 ∧ n + 31 < 2 ^ 64) ∧ At c₀ k stk m M c := by
    refine .option_bind (fun hb => ?_) fun sum hsum => ?_
    · rw [fit_of_lt (hB hb)]
      exact some_ne_none _
    · unfold fit at hsum
      split at hsum
      · rename_i hlt
        cases hsum
        exact .pure fun c hc => ⟨⟨rfl, hlt⟩, hc⟩
      · cases hsum
  refine hwords.bind fun w => .of_and ?_
  rintro ⟨rfl, hlt⟩
  exact h hlt

lemma At.setMem (hc : At c₀ k stk m M c) {mem : Memory} {m' : ℕ} (hleast : m' ≤ mem.words)
    (hmost : mem.words ≤ M) : At c₀ k stk m' M { c with mem } :=
  { sound := { hc.sound with paid := (memoryCostWords_mono hmost).trans hc.most_paid }
    limit_eq := hc.limit_eq, le_used := hc.le_used, stack_eq := hc.stack_eq
    still_eq := hc.still_eq, least_le := hleast, le_most := hmost, most_paid := hc.most_paid }

lemma growTo_length {mem mem' : Memory} (h : mem.growTo n = .ok mem') :
    mem'.length = max mem.length n := by
  unfold Memory.growTo at h
  split at h
  · cases h
  · cases h
    rw [length_append, length_replicate]
    omega

lemma words_of_length {mem mem' : Memory} (h : mem'.length = max mem.length n) :
    mem'.words = max mem.words ((n + 31) / 32) := by
  rw [Memory.words, Memory.words, h]
  omega

lemma At.raise (hc : At c₀ k stk m M c) {w : ℕ} (h : memoryCostWords w ≤ c.gas.used) :
    At c₀ k stk m (max M w) c := by
  refine { hc with le_most := hc.le_most.trans (le_max_left M w), most_paid := ?_ }
  rcases le_total M w with hle | hle
  · rw [max_eq_right hle]
    exact h
  · rw [max_eq_left hle]
    exact hc.most_paid

lemma chargeGrowth_sat (w : ℕ) :
    Runs B c₀ k stk m M (chargeGrowth w) fun _ => At c₀ k stk m (max M w) := by
  refine Act.Sat.get_bind fun c hc => .ite (fun hle => ?_) fun hgt => ?_
  · refine .pure ?_
    rintro c' ⟨⟩
    exact hc.raise ((memoryCostWords_mono hle).trans hc.sound.paid)
  · refine (chargeGas_from hc _).bind fun _ => .modify ?_
    rintro c' ⟨hc', hmem, hused⟩
    have hmono := memoryCostWords_mono (Nat.le_of_not_le hgt)
    have hpaid := hc.sound.paid
    have hraised : At c₀ k stk m (max M w) c' :=
      (hc'.weaken (Nat.le_add_right _ _) le_rfl).raise (by omega)
    -- the bytes asked for are as many as the words paid for, or too many and then none
    cases hgrow : c'.mem.growTo w with
    | error e => exact hraised.setMem hraised.least_le hraised.le_most
    | ok mem =>
      have hwords := words_of_length (growTo_length hgrow)
      have hleast := hraised.least_le
      have hmost := hraised.le_most
      refine hraised.setMem ?_ ?_
      · change m ≤ mem.words
        omega
      · change mem.words ≤ max M w
        omega

def SafeRange (offset size : ℕ) : Prop :=
  size = 0 ∨ Machine.u64Max < offset + size ∨ offset + size + 31 < 2 ^ 64

lemma expand_bind (hB : B .panic → SafeRange offset size)
    (h : size = 0 ∨ offset + size ≤ Memory.maxSize → Act.Sat B (Allowed c₀) (At c₀ k stk m (max M
      (rangeWords offset size))) (f ()) T) :
    Runs B c₀ k stk m M (chargeMemoryExpansion offset size >>= f) T := by
  have hexpand : Runs B c₀ k stk m M (chargeMemoryExpansion offset size) fun _ =>
      At c₀ k stk m (max M (rangeWords offset size)) := by
    refine .ite (fun hzero => ?_) fun hzero => .ite (fun _ => throw_sat (by simp)) fun hfits => ?_
    · rw [rangeWords, if_pos hzero, Nat.max_zero]
      exact .pure fun c hc => hc
    · refine wordsOf_bind (fun hb => ?_) fun _ => ?_
      · have hsafe := hB hb
        unfold SafeRange at hsafe
        omega
      · rw [rangeWords, if_neg hzero]
        exact chargeGrowth_sat _
  exact hexpand.bind fun _ => .of_pre (fun c hc => hc.range_le (le_max_right _ _)) h

lemma At.ensure (hc : At c₀ k stk m M c) (h : rangeWords offset size ≤ M) (hsize : size ≠ 0) :
    ∃ mem, c.mem.ensure offset size = .ok mem ∧ offset + size ≤ mem.length ∧
      mem.words = max c.mem.words (rangeWords offset size) := by
  have hend := (hc.range_le h).resolve_left hsize
  have hu64 : Memory.maxSize ≤ Machine.u64Max := by decide
  have hgrow : c.mem.growTo (offset + size) =
      .ok (c.mem ++ replicate (offset + size - c.mem.length) 0) := if_neg (by omega)
  have hlength := growTo_length hgrow
  refine ⟨c.mem ++ replicate (offset + size - c.mem.length) 0, ?_, ?_, ?_⟩
  · rw [Memory.ensure, if_neg hsize, if_neg (by omega), hgrow]
  · rw [hlength]
    exact Nat.le_max_right _ _
  · rw [words_of_length hlength, rangeWords, if_neg hsize]

lemma readRange_sat (h : rangeWords offset size ≤ M) :
    Runs B c₀ k stk m M (readRange offset size) fun data c =>
      data.length = size ∧ At c₀ k stk (max m (rangeWords offset size)) M c := by
  refine .ite (fun hzero => .pure fun c hc => ⟨hzero.symm, ?_⟩) fun hsize => ?_
  · rwa [rangeWords, if_pos hzero, Nat.max_zero]
  refine Act.Sat.get_bind fun c hc => ?_
  obtain ⟨mem, hmem, hlen, hwords⟩ := hc.ensure h hsize
  rw [hmem]
  obtain ⟨data, hslice, hdata⟩ := exists_slice (Nat.le_add_right offset size) hlen
  refine .of_ok ?_
  rintro c' ⟨⟩
  refine ⟨data, { c with mem }, ?_, by omega, hc.setMem ?_ ?_⟩
  · simp [Act.bind_apply, Act.ofExcept, Vm.setMem, Act.modify, hslice, Act.ofOption]
  · exact hwords ▸ max_le_max_right _ hc.least_le
  · exact hwords ▸ max_le hc.le_most h

lemma read_bind {f : List UInt8 → CoreAct β} (hr : rangeWords offset size ≤ M)
    (h : ∀ data, data.length = size → Act.Sat B (Allowed c₀) (At c₀ k stk (max m (rangeWords offset
      size)) M) (f data) T) :
    Runs B c₀ k stk m M (readRange offset size >>= f) T :=
  (readRange_sat hr).bind fun data => .of_and fun hlen => h data hlen

lemma writeRange_sat {data : List UInt8} (h : rangeWords offset data.length ≤ M) :
    Act.Sat B E (At c₀ k stk m M) (writeRange offset data) fun _ =>
      At c₀ k stk (max m (rangeWords offset data.length)) M := by
  refine .ite (fun hnil => ?_) fun hne => ?_
  · rw [hnil, rangeWords, if_pos length_nil, Nat.max_zero]
    exact .pure fun c hc => hc
  refine Act.Sat.get_bind fun c hc => ?_
  obtain ⟨mem, hmem, hlen, hwords⟩ := hc.ensure h (by simpa using hne)
  rw [hmem]
  obtain ⟨mem', hsplice, hlength⟩ := exists_splice hlen
  have hwords' : Memory.words mem' = max c.mem.words (rangeWords offset data.length) := by
    rw [← hwords, Memory.words, Memory.words, hlength]
  refine .of_ok ?_
  rintro c' ⟨⟩
  refine ⟨(), { c with mem := mem' }, ?_, hc.setMem ?_ ?_⟩
  · simp [Act.bind_apply, Act.ofExcept, Vm.setMem, Act.modify, hsplice, Act.ofOption]
  · exact hwords' ▸ max_le_max_right _ hc.least_le
  · exact hwords' ▸ max_le hc.le_most h

end Steps

/-! ### The handlers that write only their frame -/

section Handlers

variable {B : Abort → Prop} {c₀ : Core} {k m M w W : ℕ} {stk : List Word}

variable {cost n : ℕ}

lemma handleStop_sat :
    Runs B c₀ k stk m M handleStop fun _ => Progress c₀ m M :=
  .modify fun _ hc =>
    { sound := { hc.sound with }, limit_eq := hc.limit_eq
      le_used := (hc.toSince.mono (Nat.zero_le k)).le_used, moves := .inl rfl, pc_eq := hc.pc_eq
      least_le := hc.least_le, le_most := hc.le_most }

lemma binop_sat {f : Word → Word → Option Word} (hcost : 0 < cost) (hf : ∀ a b, f a b ≠ none) :
    Runs B c₀ k stk m M (binop f cost) fun _ => Progress c₀ m M := by
  refine charge_bind <| pop_bind fun b _ _ => pop_bind fun a _ _ => ?_
  exact .option_bind (fun _ => hf a b) fun w _ => push_progress w (by omega)

lemma triop_sat {f : Word → Word → Word → Option Word} (hcost : 0 < cost)
    (hf : B .panic → ∀ a b c rest, stk = c :: b :: a :: rest → f a b c ≠ none) :
    Runs B c₀ k stk m M (triop f cost) fun _ => Progress c₀ m M := by
  refine charge_bind <| pop_bind fun c _ hc => pop_bind fun b _ hb => pop_bind fun a rest ha => ?_
  refine .option_bind (fun hB => ?_) fun w _ => push_progress w (by omega)
  exact hf hB a b c rest (by rw [hc, hb, ha])

lemma binopBool_sat (f : Word → Word → Bool) :
    Runs B c₀ k stk m M (binopBool f) fun _ => Progress c₀ m M :=
  binop_sat (by decide) fun _ _ => some_ne_none _

lemma unop_sat {f : Word → Option Word} (hf : ∀ a, f a ≠ none) :
    Runs B c₀ k stk m M (unop f) fun _ => Progress c₀ m M := by
  refine charge_bind <| pop_bind fun a _ _ => ?_
  exact .option_bind (fun _ => hf a) fun w _ => push_progress w (Nat.add_pos_right _ (by decide))

lemma handleExp_sat :
    Runs B c₀ k stk m M handleExp fun _ => Progress c₀ m M := by
  refine charge_bind <| pop_bind fun exp _ _ => pop_bind fun base _ _ => charge_bind ?_
  obtain ⟨power, hpower, -⟩ := value_wordExp base exp
  refine .option_bind (fun _ => by simp [hpower]) fun w _ => push_progress w ?_
  exact Nat.add_pos_left (Nat.add_pos_right _ (by decide)) _

lemma pushing_sat (hcost : 0 < cost) (value : Core → Word) :
    Runs B c₀ k stk m M (pushing cost value) fun _ => Progress c₀ m M :=
  charge_bind <| get_bind fun _ _ => push_progress _ (by omega)

lemma lookup_sat (hcost : 0 < cost) (value : Word → Word) :
    Runs B c₀ k stk m M (lookup cost value) fun _ => Progress c₀ m M :=
  charge_bind <| pop_bind fun _ _ _ => push_progress _ (by omega)

lemma handlePc_sat (hpc : 1 ≤ c₀.pc) :
    Runs B c₀ k stk m M handlePc fun _ => Progress c₀ m M := by
  refine charge_bind <| get_bind fun c hc => .option_bind (fun _ => ?_) fun pc _ => ?_
  · rw [sub_of_le (hc.pc_eq ▸ hpc)]
    exact some_ne_none _
  · exact push_progress _ (Nat.add_pos_right _ (by decide))

lemma calldataWord_ne_none (input : List UInt8) (offset : ℕ) : calldataWord input offset ≠ none := by
  unfold calldataWord
  split
  · rename_i hlt
    refine bind_ne_none ?_ fun data hdata => ?_
    · obtain ⟨data, hdata, -⟩ := exists_slice (l := input)
        (Nat.le_add_right offset (min 32 (input.length - offset))) (by omega)
      rw [hdata]
      exact some_ne_none _
    · have hlen := length_of_slice hdata
      obtain ⟨w, hw, -⟩ := wordOf_of_length
        (show (replicate (32 - min 32 (input.length - offset)) 0 ++ data).length = 32 by
          rw [length_append, length_replicate, hlen]
          omega)
      rw [hw]
      exact some_ne_none w
  · exact some_ne_none _

lemma handleCalldataload_sat (cx : Ctx) :
    Runs B c₀ k stk m M (handleCalldataload cx) fun _ => Progress c₀ m M := by
  refine charge_bind <| popUsize_bind fun offset _ _ _ _ => ?_
  exact .option_bind (fun _ => calldataWord_ne_none _ offset) fun w _ =>
    push_progress w (Nat.add_pos_right _ (by decide))

lemma handlePop_sat : Runs B c₀ k stk m M handlePop fun _ => Progress c₀ m M :=
  charge_bind <| pop_bind fun _ _ _ => .pure fun _ hc => hc.progress (Nat.add_pos_right _ (by decide))

lemma handleJumpdest_sat :
    Runs B c₀ k stk m M handleJumpdest fun _ => Progress c₀ m M :=
  (chargeGas_sat _).post fun _ _ hc => hc.progress (Nat.add_pos_right _ (by decide))

lemma jumpTo_sat (hk : 0 < k) (cx : Ctx) (dest : ℕ) :
    Runs B c₀ k stk m M (jumpTo cx dest) fun _ c =>
      ∃ pc ∈ cx.jumpdests, Progress { c₀ with pc } m M c := by
  refine .ite (fun hdest => .modify fun c hc => ⟨dest, hdest, ?_⟩) fun _ => throw_sat (by simp)
  have hprog := hc.progress hk
  exact { hprog with sound := { hc.sound with }, pc_eq := rfl }

lemma handleJump_sat (cx : Ctx) :
    Runs B c₀ k stk m M (handleJump cx) fun _ c =>
      ∃ pc ∈ cx.jumpdests, Progress { c₀ with pc } m M c :=
  charge_bind <| popUsize_bind fun dest _ _ _ _ =>
    jumpTo_sat (Nat.add_pos_right _ (by decide)) cx dest

lemma handleJumpi_sat (cx : Ctx) :
    Runs B c₀ k stk m M (handleJumpi cx) fun _ c =>
      ∃ cond rest, stk = cond :: rest ∧ ∃ pc,
        (if wordIsZero cond then pc = c₀.pc else pc ∈ cx.jumpdests) ∧ Progress { c₀ with pc } m M c := by
  have hpos : 0 < k + gasHigh := Nat.add_pos_right _ (by decide)
  refine charge_bind <| pop_bind fun cond rest hcond => popUsize_bind fun dest _ _ _ _ => ?_
  refine .ite (fun hzero => .pure fun c hc => ?_) fun hzero => (jumpTo_sat hpos cx dest).post ?_
  · exact ⟨cond, rest, hcond, c₀.pc, by rw [if_pos hzero], hc.progress hpos⟩
  · rintro _ c ⟨pc, hpc, hc⟩
    exact ⟨cond, rest, hcond, pc, by rwa [if_neg hzero], hc⟩

lemma immediate_ne_none (code : List UInt8) (pc : ℕ) (hn : n ≤ 32) :
    immediate code pc n ≠ none := by
  obtain ⟨w, hw, -⟩ := wordOf_of_length (show (replicate (32 - n) 0 ++
    (List.range n).map fun i => code.getD (pc + i) 0).length = 32 by simp; omega)
  rw [immediate, hw]
  exact some_ne_none w

lemma handlePush_sat (cx : Ctx) (hpc : c₀.pc ≤ maxCodeSize) (hn : n ≤ 32) :
    Runs B c₀ k stk m M (handlePush cx n) fun _ =>
      Progress { c₀ with pc := c₀.pc + n } m M := by
  refine charge_bind <| get_bind fun c hc => ?_
  have hmax : maxCodeSize = 24576 := rfl
  rw [fit_of_lt (show c.pc + n < 2 ^ 64 by rw [hc.pc_eq]; omega), hc.pc_eq]
  refine .option_bind (fun _ => immediate_ne_none _ _ hn) fun w _ => .option_bind (by simp) ?_
  rintro pc ⟨⟩
  -- the counter is moved before the push, which leaves it as it is
  refine Act.Sat.bind (Q := fun _ => At { c₀ with pc := c₀.pc + n } (k + gasVerylow) stk m M)
    (.modify fun c hc => ?_) fun _ => ?_
  · have hstill := hc.still_eq
    simp only [Core.still, Prod.mk.injEq] at hstill
    exact { hc with sound := { hc.sound with }, still_eq := by simp [Core.still, hstill] }
  · refine (push_progress w (Nat.add_pos_right k (by decide))).errors fun e c h reason he => ?_
    obtain ⟨hlen, hsince⟩ := h reason he
    exact ⟨hlen, { hsince with }⟩

lemma handleDup_sat (hn : 0 < n) :
    Runs B c₀ k stk m M (handleDup n) fun _ => Progress c₀ m M := by
  refine charge_bind <| get_bind fun c hc => .ite (fun _ => throw_sat (by simp)) fun hlen => ?_
  refine .option_bind (fun _ => ?_) fun v _ => push_progress v (Nat.add_pos_right _ (by decide))
  rw [getElem?_eq_getElem (show n - 1 < c.stack.length by omega)]
  exact some_ne_none _

lemma swapTop_length {stack stack' : List Word} (h : swapTop stack n = some stack') :
    stack'.length = stack.length := by
  unfold swapTop at h
  obtain ⟨top, -, h⟩ := bind_eq_some_iff.mp h
  obtain ⟨other, -, h⟩ := bind_eq_some_iff.mp h
  cases h
  simp

lemma swapTop_ne_none {stack : List Word} (h : n < stack.length) : swapTop stack n ≠ none := by
  unfold swapTop
  rw [getElem?_eq_getElem (show 0 < stack.length by omega), getElem?_eq_getElem h]
  exact some_ne_none _

lemma handleSwap_sat (n : ℕ) :
    Runs B c₀ k stk m M (handleSwap n) fun _ => Progress c₀ m M := by
  refine charge_bind <| get_bind fun c hc => .ite (fun _ => throw_sat (by simp)) fun hlen => ?_
  refine .option_bind (fun _ => swapTop_ne_none (by omega)) fun stack hstack => .modify fun c' hc' => ?_
  have hprog := hc'.progress (Nat.add_pos_right _ (by decide))
  have hle := hc.sound.stack_le
  rw [← swapTop_length hstack] at hle
  exact { hprog with sound := { hc'.sound with stack_le := hle } }

/-! ### The handlers that take a range of memory -/

def SafeWords (offset size : Word) : Prop :=
  ∀ o n, usize offset = some o → usize size = some n → SafeRange o n

def wordRange (offset size : Word) : ℕ :=
  ((usize offset).bind fun o => (usize size).map (rangeWords o)).getD 0

def Ranged (B : Abort → Prop) (w W : ℕ) (offset size : Word) : Prop :=
  (B .panic → SafeWords offset size) ∧ max w (wordRange offset size) = W

lemma Ranged.at {offset size : Word} {o : ℕ} (h : Ranged B w W offset size)
    (ho : usize offset = some o) (hn : usize size = some n) :
    (B .panic → SafeRange o n) ∧ max w (rangeWords o n) = W := by
  refine ⟨fun hb => h.1 hb o n ho hn, ?_⟩
  rw [← h.2, wordRange, ho, hn]
  rfl

lemma maxSize_lt : Memory.maxSize + 31 < 2 ^ 63 := by decide

lemma handleSha3_sat (keccak : List UInt8 → Word)
    (hR : ∀ size offset rest, stk = size :: offset :: rest → Ranged B w W offset size) :
    Runs B c₀ k stk w w (handleSha3 keccak) fun _ => Progress c₀ W W := by
  have hmax := maxSize_lt
  refine charge_bind <| popUsize_bind fun n size _ hsize hn =>
    popUsize_bind fun o offset rest hoffset ho => ?_
  obtain ⟨hsafe, rfl⟩ := (hR size offset rest (by rw [hsize, hoffset])).at ho hn
  refine expand_bind hsafe fun hle => wordsOf_bind (fun _ => by omega) fun _ => charge_bind ?_
  refine read_bind (le_max_right _ _) fun data _ => push_progress _ ?_
  exact Nat.add_pos_left (Nat.add_pos_right _ (by decide)) _

lemma allocZeros_of_le (h : n ≤ Memory.maxSize) :
    allocZeros n = some (replicate n 0) := if_pos (by have := maxSize_lt; omega)

lemma copyPadded_of_le (source : List UInt8) (src : ℕ) (h : n ≤ Memory.maxSize) :
    ∃ buf, copyPadded source src n = some buf ∧ buf.length = n := by
  unfold copyPadded
  rw [allocZeros_of_le h]
  simp only [bind_eq_bind, bind_some]
  split
  · rename_i hlt
    obtain ⟨data, hslice, hlen⟩ := exists_slice (l := source)
      (Nat.le_add_right src (min n (source.length - src))) (by omega)
    obtain ⟨buf, hsplice, hbuf⟩ := exists_splice (l := replicate n 0) (a := 0)
      (show 0 + data.length ≤ (replicate n (0 : UInt8)).length by
        rw [length_replicate]
        omega)
    exact ⟨buf, by rw [hslice, bind_some, hsplice], hbuf.trans length_replicate⟩
  · exact ⟨_, rfl, length_replicate⟩

lemma copying_sat (hpos : 0 < cost) {popSource : CoreAct (List UInt8)}
    (hsource : ∀ stk', Runs B c₀ (k + cost) stk' w w popSource fun _ c => ∃
      rest, At c₀ (k + cost) rest w w c)
    (hcopy : B .panic → ∀ size rest, stk = size :: rest → ∀ n, usize size = some n → n + 31 < 2 ^
      64) (hR : ∀ size src dest rest, stk = size :: src :: dest :: rest → Ranged B w W dest size) :
    Runs B c₀ k stk w w (copying cost popSource) fun _ => Progress c₀ W W := by
  refine charge_bind <| popUsize_bind fun n size _ hsize hn => popUsize_bind fun _ src _ hsrc _ =>
    popUsize_bind fun d dest rest hdest hd => (hsource rest).bind fun source => .of_exists fun _ => ?_
  obtain ⟨hsafe, rfl⟩ := (hR size src dest rest (by rw [hsize, hsrc, hdest])).at hd hn
  refine wordsOf_bind (fun hb => hcopy hb size _ hsize n hn) fun _ => charge_bind ?_
  refine expand_bind hsafe fun hle => ?_
  obtain ⟨buf, hbuf, rfl⟩ := copyPadded_of_le source _ (show n ≤ Memory.maxSize by omega)
  rw [hbuf]
  refine .option_bind (fun _ => some_ne_none _) ?_
  rintro buf ⟨⟩
  exact (writeRange_sat (le_max_right _ _)).post fun _ c hc => hc.progress (by omega)

lemma handleCopyData_sat (cx : Ctx) (fromCode : Bool)
    (hcopy : B .panic → ∀ size rest, stk = size :: rest → ∀ n, usize size = some n → n + 31 < 2 ^ 64)
    (hR : ∀ size src dest rest, stk = size :: src :: dest :: rest → Ranged B w W dest size) :
    Runs B c₀ k stk w w (handleCopyData cx fromCode) fun _ => Progress c₀ W W :=
  copying_sat (by decide) (fun _ => .pure fun _ hc => ⟨_, hc⟩) hcopy hR

lemma handleExtcodecopy_sat (st : State)
    (hcopy : B .panic → ∀ size rest, stk = size :: rest → ∀ n, usize size = some n → n + 31 < 2 ^ 64)
    (hR : ∀ size src dest rest, stk = size :: src :: dest :: rest → Ranged B w W dest size) :
    Runs B c₀ k stk w w (handleExtcodecopy st) fun _ => Progress c₀ W W :=
  copying_sat (by decide) (fun _ => pop_bind fun _ rest _ => .pure fun _ hc => ⟨rest, hc⟩) hcopy hR

lemma handleReturndatacopy_sat
    (hR : ∀ size src dest rest, stk = size :: src :: dest :: rest → Ranged B w W dest size) :
    Runs B c₀ k stk w w handleReturndatacopy fun _ => Progress c₀ W W := by
  have hpos : 0 < gasVerylow := by decide
  have hmax : maxReturn + 31 < 2 ^ 64 := by decide
  refine charge_bind <| popUsize_bind fun n size _ hsize hn => popUsize_bind fun o src _ hsrc _ =>
    popUsize_bind fun d dest rest hdest hd => get_bind fun c hc => ?_
  obtain ⟨hsafe, rfl⟩ := (hR size src dest rest (by rw [hsize, hsrc, hdest])).at hd hn
  refine .ite (fun _ => throw_sat (by simp)) fun _ => .ite (fun _ => throw_sat (by simp)) fun hend => ?_
  -- the data returned is short, so the rounding of a size within it cannot overflow
  have hreturn := hc.sound.return_le
  refine wordsOf_bind (fun _ => by omega) fun _ => charge_bind <| expand_bind hsafe fun _ => ?_
  obtain ⟨data, hslice, hlen⟩ := exists_slice (Nat.le_add_right o n) (not_lt.mp hend)
  rw [Nat.add_sub_cancel_left] at hlen
  subst hlen
  rw [hslice]
  refine .option_bind (fun _ => some_ne_none _) ?_
  rintro data ⟨⟩
  exact (writeRange_sat (le_max_right _ _)).post fun _ c hc => hc.progress (by omega)

lemma usize_wordFromU64_32 : usize (wordFromU64 32) = some 32 := by decide +kernel

lemma usize_wordFromU64_1 : usize (wordFromU64 1) = some 1 := by decide +kernel

lemma handleMload_sat
    (hR : ∀ offset rest, stk = offset :: rest → Ranged B w W offset (wordFromU64 32)) :
    Runs B c₀ k stk w w handleMload fun _ => Progress c₀ W W := by
  refine charge_bind <| popUsize_bind fun o offset rest hoffset ho => ?_
  obtain ⟨hsafe, rfl⟩ := (hR offset rest hoffset).at ho usize_wordFromU64_32
  refine expand_bind hsafe fun _ => read_bind (le_max_right _ _) fun data hlen => ?_
  obtain ⟨v, hv, -⟩ := wordOf_of_length hlen
  rw [hv]
  exact .option_bind (fun _ => some_ne_none _) fun _ _ =>
    push_progress _ (Nat.add_pos_right _ (by decide))

lemma storing_sat {bytes : Word → List UInt8} (hbytes : ∀ val, (bytes val).length = n)
    (hsize : usize (wordFromU64 n) = some n)
    (hR : ∀ val offset rest, stk = val :: offset :: rest → Ranged B w W offset (wordFromU64 n)) :
    Runs B c₀ k stk w w (storing bytes n) fun _ => Progress c₀ W W := by
  refine charge_bind <| pop_bind fun val _ hval => popUsize_bind fun o offset rest hoffset ho => ?_
  obtain ⟨hsafe, rfl⟩ := (hR val offset rest (by rw [hval, hoffset])).at ho hsize
  refine expand_bind hsafe fun _ => ?_
  rw [← hbytes val]
  exact (writeRange_sat (le_max_right _ _)).post fun _ c hc =>
    hc.progress (Nat.add_pos_right _ (by decide))

lemma popRange_sat
    (hR : ∀ size offset rest, stk = size :: offset :: rest → Ranged B w W offset size) :
    Runs B c₀ k stk w w popRange fun data c =>
      ∃ rest, data.length ≤ Memory.maxSize ∧ At c₀ k rest W W c := by
  refine popUsize_bind fun n size _ hsize hn => popUsize_bind fun o offset rest hoffset ho => ?_
  obtain ⟨hsafe, rfl⟩ := (hR size offset rest (by rw [hsize, hoffset])).at ho hn
  refine expand_bind hsafe fun hle => (readRange_sat (le_max_right _ _)).post ?_
  rintro data c ⟨hlen, hc⟩
  exact ⟨rest, by omega, hc⟩

lemma handleReturn_sat
    (hR : ∀ size offset rest, stk = size :: offset :: rest → Ranged B w W offset size) :
    Runs B c₀ k stk w w handleReturn fun _ => Progress c₀ W W := by
  refine (popRange_sat hR).bind fun data => .of_exists fun rest => .of_and fun hlen => .modify ?_
  intro c hc
  have hreturn : data.length ≤ maxReturn := hlen.trans (by decide)
  exact { sound := { hc.sound with return_le := hreturn }, limit_eq := hc.limit_eq
          le_used := (hc.toSince.mono (Nat.zero_le k)).le_used, moves := .inl rfl
          pc_eq := hc.pc_eq, least_le := hc.least_le, le_most := hc.le_most }

lemma utf8Head_pos (b : UInt8) (rest : List UInt8) : 0 < (utf8Head b rest).2 := by
  unfold utf8Head
  split
  · exact Nat.one_pos
  · split
    · exact Nat.one_pos
    · exact Nat.add_pos_left Nat.one_pos _

lemma length_utf8Lossy_le (rounds : ℕ) (bytes : List UInt8) :
    (utf8Lossy rounds bytes).length ≤ 3 * bytes.length := by
  induction rounds generalizing bytes with
  | zero => simp [utf8Lossy]
  | succ rounds ih =>
    cases bytes with
    | nil => simp [utf8Lossy]
    | cons b rest =>
      have hpos := utf8Head_pos b rest
      have hrest := ih ((b :: rest).drop (utf8Head b rest).2)
      have hlen : (b :: rest).length = rest.length + 1 := length_cons
      rw [length_drop] at hrest
      rw [utf8Lossy, length_append]
      split
      · rw [length_take]
        omega
      · rw [show ([0xEF, 0xBF, 0xBD] : List UInt8).length = 3 from rfl]
        omega

lemma handleRevert_sat
    (hR : ∀ size offset rest, stk = size :: offset :: rest → Ranged B w W offset size) :
    Runs B c₀ k stk w w handleRevert fun _ => Progress c₀ W W := by
  refine (popRange_sat hR).bind fun data => .of_exists fun rest => .of_and fun hlen => .throw ?_
  rintro c hc reason ⟨⟩
  have hlossy := length_utf8Lossy_le data.length data
  refine ⟨?_, hc.toSince.mono (Nat.zero_le k)⟩
  unfold fromUtf8Lossy maxReturn
  omega

end Handlers

end Iona.Vm
