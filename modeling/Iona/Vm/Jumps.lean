import Iona.Vm.Run

/-! # Jumps -/

namespace Iona.Vm

/-! ### The linear decoding -/

def NextInstr (code : List UInt8) (i j : ℕ) : Prop :=
  ∃ opcode, code[i]? = some opcode ∧ j = i + 1 + pushImmediateLen opcode

def Boundary (code : List UInt8) (i : ℕ) : Prop := Relation.ReflTransGen (NextInstr code) 0 i

def InstrStart (code : List UInt8) (i : ℕ) : Prop := Boundary code i ∧ i < code.length

variable {code : List UInt8}

lemma lt_of_nextInstr {i j : ℕ} (h : NextInstr code i j) : i < j := by
  obtain ⟨opcode, -, rfl⟩ := h
  omega

lemma le_of_decoded {i j : ℕ} (h : Relation.ReflTransGen (NextInstr code) i j) : i ≤ j := by
  induction h with
  | refl => exact le_rfl
  | tail _ hstep ih => exact ih.trans (lt_of_nextInstr hstep).le

lemma decode_eq_jumpdest_iff (opcode : UInt8) : decode opcode = .jumpdest ↔ opcode = 0x5B := by
  have h : ∀ n : Fin 256, decode (UInt8.ofNat n) = .jumpdest ↔ UInt8.ofNat n = 0x5B := by
    decide +kernel
  simpa using h ⟨opcode.toNat, opcode.toNat_lt⟩

lemma pushImmediateLen_eq (opcode : UInt8) :
    pushImmediateLen opcode = (decode opcode).immediateLen := by
  have h : ∀ n : Fin 256,
      pushImmediateLen (UInt8.ofNat n) = (decode (UInt8.ofNat n)).immediateLen := by
    decide +kernel
  simpa using h ⟨opcode.toNat, opcode.toNat_lt⟩

/-! ### The scan -/

lemma boundary_of_mem_scan {rounds i d : ℕ} (hi : Boundary code i)
    (h : d ∈ jumpdestScan code rounds i) : InstrStart code d ∧ code[d]? = some 0x5B := by
  induction rounds generalizing i with
  | zero => cases h
  | succ rounds ih =>
    rw [jumpdestScan] at h
    split at h
    · cases h
    rename_i opcode hop
    have hhere : d ∈ (if decode opcode = .jumpdest then [i] else []) →
        InstrStart code d ∧ code[d]? = some 0x5B := by
      intro hd
      split at hd
      · rename_i hdest
        rw [List.mem_singleton.mp hd]
        exact ⟨⟨hi, (List.getElem?_eq_some_iff.mp hop).1⟩,
          hop.trans (congrArg some ((decode_eq_jumpdest_iff opcode).mp hdest))⟩
      · cases hd
    simp only at h
    split at h
    · exact hhere h
    · rcases List.mem_append.mp h with h | h
      · exact hhere h
      · exact ih (hi.tail ⟨opcode, hop, rfl⟩) h

lemma mem_scan_of_decoded {rounds i d : ℕ} (hrounds : code.length ≤ i + rounds)
    (hreach : Relation.ReflTransGen (NextInstr code) i d) (hd : code[d]? = some 0x5B) :
    d ∈ jumpdestScan code rounds i := by
  have hdlt : d < code.length := (List.getElem?_eq_some_iff.mp hd).1
  induction rounds generalizing i with
  | zero =>
    have := le_of_decoded hreach
    omega
  | succ rounds ih =>
    rw [jumpdestScan]
    rcases hreach.cases_head with rfl | ⟨j, ⟨opcode, hop, rfl⟩, hrest⟩
    · have hdest : decode 0x5B = .jumpdest := (decode_eq_jumpdest_iff _).mpr rfl
      simp only [hd, hdest, if_true]
      split
      · exact List.mem_singleton_self i
      · exact List.mem_append_left _ (List.mem_singleton_self i)
    · have hle := le_of_decoded hrest
      simp only [hop]
      rw [if_neg (by omega)]
      exact List.mem_append_right _ (ih (by omega) hrest)

lemma mem_buildJumpdestSet {d : ℕ} :
    d ∈ buildJumpdestSet code ↔ InstrStart code d ∧ code[d]? = some 0x5B := by
  constructor
  · exact boundary_of_mem_scan .refl
  · rintro ⟨⟨hreach, -⟩, hd⟩
    exact mem_scan_of_decoded (by omega) hreach hd

/-! ### Runs -/

section Runs

variable {keccak : List UInt8 → Word} {cx : Ctx} {it : Interpreter}

structure OnTrack (cx : Ctx) (it : Interpreter) : Prop where
  dests : cx.jumpdests = buildJumpdestSet cx.code
  boundary : Boundary cx.code it.core.pc

lemma onTrack_start {frame : Frame} {code : List UInt8} {core : Core} (state : State)
    (h : start frame code = .ok (cx, core)) : OnTrack cx { core, state } := by
  unfold start at h
  split at h
  · cases h
  split at h
  · cases h
  cases h
  exact ⟨rfl, .refl⟩

lemma OnTrack.step (h : OnTrack cx it) (hcx : cx.Sound) (hit : it.core.Sound) {opcode : UInt8}
    (hcode : cx.code[it.core.pc]? = some opcode) {fuel : ℕ} {it₁ : Interpreter}
    (hstep : stepOpcode keccak (runFrame keccak fuel) cx opcode it = (.ok (), it₁)) :
    OnTrack cx it₁ ∧ ((decode opcode).takesJump it.core.stack = true →
      cx.code[it₁.core.pc]? = some 0x5B) := by
  have hafter := stepOpcode_after hcx hit hcode hstep
  cases htakes : (decode opcode).takesJump it.core.stack with
  | true =>
    have hpc := hafter.jumps htakes
    rw [h.dests, mem_buildJumpdestSet] at hpc
    exact ⟨⟨h.dests, hpc.1.1⟩, fun _ => hpc.2⟩
  | false =>
    have hpc := hafter.passes htakes
    rw [← pushImmediateLen_eq] at hpc
    exact ⟨⟨h.dests, h.boundary.tail ⟨opcode, hcode, hpc⟩⟩, fun hjump => by cases hjump⟩

lemma Visits.onTrack {cx' : Ctx} {it' : Interpreter} {opcode : UInt8}
    (h : Visits keccak cx it cx' it' opcode) (hcx : cx.Sound) (hcore : it.core.Sound)
    (hit : OnTrack cx it) : OnTrack cx' it' := by
  induction h with
  | here hlive hcode => exact hit
  | next fuel hlive hcode hstep hrest ih =>
    exact ih hcx (stepOpcode_after hcx hcore hcode hstep).sound (hit.step hcx hcore hcode hstep).1
  | child hlive hcode hstarts hstart hrest ih =>
    exact ih (start_ok hstart).1 (start_ok hstart).2.1 (onTrack_start _ hstart)

end Runs

/-- **Jumps land only on instructions**: wherever a run comes to an opcode, in this frame or a
nested one, it is at the start of an instruction. -/
theorem jumps_land_on_instructions (keccak : List UInt8 → Word) {frame : Frame} {code : List UInt8}
    {cx : Ctx} {core : Core} (state : State) (hstart : start frame code = .ok (cx, core)) :
    (∀ (code : List UInt8) (d : ℕ),
      d ∈ buildJumpdestSet code ↔ InstrStart code d ∧ code[d]? = some 0x5B) ∧
    ∀ cx' it' opcode, Visits keccak cx { core, state } cx' it' opcode →
      InstrStart cx'.code it'.core.pc ∧
        ∀ fuel it₁, stepOpcode keccak (runFrame keccak fuel) cx' opcode it' = (.ok (), it₁) →
          (cx'.code.length ≤ it₁.core.pc ∨ InstrStart cx'.code it₁.core.pc) ∧
            ((decode opcode).takesJump it'.core.stack = true →
              cx'.code[it₁.core.pc]? = some 0x5B) := by
  refine ⟨fun code d => mem_buildJumpdestSet, fun cx' it' opcode hvisit => ?_⟩
  obtain ⟨hcx, hcore, -⟩ := start_ok hstart
  obtain ⟨hcx', hcore', hcode⟩ := hvisit.sound hcx hcore
  have htrack := hvisit.onTrack hcx hcore (onTrack_start state hstart)
  refine ⟨⟨htrack.boundary, (List.getElem?_eq_some_iff.mp hcode).1⟩, fun fuel it₁ hstep => ?_⟩
  obtain ⟨htrack₁, hjump⟩ := htrack.step hcx' hcore' hcode hstep
  refine ⟨?_, hjump⟩
  by_cases hend : cx'.code.length ≤ it₁.core.pc
  · exact .inl hend
  · exact .inr ⟨htrack₁.boundary, not_le.mp hend⟩

def dataJumpProgram : List UInt8 := [0x61, 0x5B, 0x5B, 0x5B, 0x60, 3, 0x56]

/-- The jump at the end of the program is taken, and goes to the third of them. -/
theorem jumps_land_dataJump :
    buildJumpdestSet dataJumpProgram = [3] ∧
      ¬ InstrStart dataJumpProgram 1 ∧ InstrStart dataJumpProgram 6 := by
  have hstart : start outerFrame dataJumpProgram =
      .ok (⟨outerFrame, dataJumpProgram, [3]⟩, { gas := GasMeter.new 100000 }) := rfl
  obtain ⟨hset, hrun⟩ := jumps_land_on_instructions (fun _ => zero) {} hstart
  refine ⟨rfl, fun hin => ?_, ?_⟩
  · exact absurd ((hset dataJumpProgram 1).mpr ⟨hin, rfl⟩) (by decide)
  · obtain ⟨it, hsteps, hlive, hpc⟩ : ∃ it, steps (fun _ => zero) 0
        ⟨outerFrame, dataJumpProgram, [3]⟩ 3 { core := { gas := GasMeter.new 100000 }, state := {} } =
          some it ∧ it.core.halted = false ∧ it.core.pc = 6 := ⟨_, rfl, rfl, rfl⟩
    have hvisit := Visits.of_steps _ hsteps hlive
      (show dataJumpProgram[it.core.pc]? = some 0x56 by rw [hpc]; rfl)
    have hon := (hrun _ _ _ hvisit).1
    rwa [hpc] at hon

end Iona.Vm
