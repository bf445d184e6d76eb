import Iona.Slashing.Accounting
import Iona.Tombstone

/-!
# The slashing ledger on disk and back

`from_ledger` and `into_ledger` of `slashing.rs`, one after the other.
-/

namespace Iona

open PersistentState

namespace StakeLedger

inductive Reachable : StakeLedger → Prop
  | new (config : SlashingConfig) (registered : Bool) : Reachable (.new config registered)
  | perform {ledger ledger' : StakeLedger} {op : PenaltyOp} {res : Except SlashingError Unit}
      (h : Reachable ledger) (hop : ledger.perform op = some (res, ledger')) : Reachable ledger'
  | addValidator {ledger ledger' : StakeLedger} {pk : PublicKeyBytes} {stake : UInt64}
      (h : Reachable ledger) (hop : ledger.addValidator pk stake = some ledger') : Reachable ledger'
  | removeValidator {ledger ledger' : StakeLedger} {pk : PublicKeyBytes} (h : Reachable ledger)
      (hop : ledger.removeValidator pk = some ledger') : Reachable ledger'
  | reload {ledger : StakeLedger} (h : Reachable ledger) (config : SlashingConfig) :
      Reachable ((fromLedger ledger).intoLedger config)

lemma Reachable.run {ledger ledger' : StakeLedger} {ops : List PenaltyOp} (h : Reachable ledger)
    (hrun : Trace.run penaltyStep ledger ops = some ledger') : Reachable ledger' := by
  refine Trace.run_invariant (fun l op l' hl hstep => ?_) h hrun
  obtain ⟨res, hres, rfl⟩ := Option.map_eq_some_iff.mp hstep
  exact hl.perform hres

end StakeLedger

/-! ### One record -/

def ValidatorRecord.Kept (record : ValidatorRecord) : Prop :=
  match record.status with
  | .active => True
  | .jailed _ slashCount => slashCount = 1
  | .tombstoned => record.jailedAt = none

instance decidableKept : (record : ValidatorRecord) → Decidable record.Kept
  | ⟨_, _, .active, _⟩ => isTrue trivial
  | ⟨_, _, .jailed _ slashCount, _⟩ => inferInstanceAs (Decidable (slashCount = 1))
  | ⟨_, _, .tombstoned, jailedAt⟩ => inferInstanceAs (Decidable (jailedAt = none))

lemma ValidatorRecord.reread_dated (record : ValidatorRecord) : record.reread.Dated := by
  obtain ⟨stake, total, status, jailedAt⟩ := record
  cases status with
  | active => exact rfl
  | jailed since count => exact rfl
  | tombstoned => trivial

lemma ValidatorRecord.reread_eq_iff {record : ValidatorRecord} (h : record.Dated) :
    record.reread = record ↔ record.Kept := by
  obtain ⟨stake, total, status, jailedAt⟩ := record
  cases status with
  | active =>
    cases h
    exact iff_of_true rfl trivial
  | jailed since count =>
    cases h
    simp [reread, Kept, ValidatorStatus.text, ValidatorStatus.since, ValidatorStatus.ofText,
      eq_comm]
  | tombstoned =>
    simp [reread, Kept, ValidatorStatus.text, ValidatorStatus.since, ValidatorStatus.ofText,
      eq_comm]

/-! ### The records that are read -/

lemma foldl_readValidator_forall {recs : List PersistentValidatorRecord}
    {validators : BTreeMap PublicKeyBytes ValidatorRecord} {P : ValidatorRecord → Prop}
    (hrecs : ∀ rec ∈ recs, P rec.record)
    (hvals : ∀ (pk : PublicKeyBytes) (r : ValidatorRecord), validators[pk]? = some r → P r)
    {pk : PublicKeyBytes} {r : ValidatorRecord}
    (h : (recs.foldl readValidator validators)[pk]? = some r) : P r := by
  induction recs generalizing validators with
  | nil => exact hvals pk r h
  | cons rec recs ih =>
    refine ih (fun rec' hrec' => hrecs rec' (List.mem_cons_of_mem _ hrec')) ?_ h
    intro pk' r' hr'
    unfold readValidator at hr'
    split at hr'
    · rcases MapSum.getElem?_insert_eq_some_iff.mp hr' with ⟨_, rfl⟩ | ⟨_, hr'⟩
      · exact hrecs rec List.mem_cons_self
      · exact hvals pk' r' hr'
    · exact hvals pk' r' hr'

lemma size_foldl_readValidator (recs : List PersistentValidatorRecord)
    (validators : BTreeMap PublicKeyBytes ValidatorRecord) :
    (recs.foldl readValidator validators).size ≤ validators.size + recs.length := by
  induction recs generalizing validators with
  | nil => exact le_rfl
  | cons rec recs ih =>
    have hone : (readValidator validators rec).size ≤ validators.size + 1 := by
      unfold readValidator
      split
      · exact Std.ExtTreeMap.size_insert_le
      · exact Nat.le_succ _
    have hrest := ih (readValidator validators rec)
    rw [List.foldl_cons, List.length_cons]
    omega

section Ledger

variable (config : SlashingConfig)

lemma size_intoLedger_le (ledger : StakeLedger) :
    ((fromLedger ledger).intoLedger config).validators.size ≤
      maxPersistedValidators := by
  have hsize := size_foldl_readValidator (fromLedger ledger).validators ∅
  have hlen : (fromLedger ledger).validators.length ≤ maxPersistedValidators :=
    List.length_take_le _ _
  rw [Std.ExtTreeMap.size_empty, Nat.zero_add] at hsize
  exact hsize.trans hlen

lemma processedEvidence_intoLedger (ledger : StakeLedger) :
    ((fromLedger ledger).intoLedger config).processedEvidence =
      ledger.processedEvidence := by
  have hkeys : ((fromLedger ledger).processedEvidence.map fun key =>
      (key.1, (Bytes.hexDecode key.2).getD [])) = ledger.processedEvidence.toList := by
    rw [fromLedger, List.map_map]
    refine List.map_id'' (fun key => ?_) _
    simp
  rw [intoLedger, hkeys]
  refine Std.ExtTreeSet.ext_mem fun key => ?_
  simp [Std.ExtTreeSet.mem_ofList]

end Ledger

/-! ### The round trip -/

lemma StakeLedger.Reachable.dated {ledger : StakeLedger} (h : ledger.Reachable) :
    ∀ (pk : PublicKeyBytes) (record : ValidatorRecord),
      ledger.validators[pk]? = some record → record.Dated := by
  induction h with
  | new config registered =>
    intro pk record hrecord
    simp [StakeLedger.new] at hrecord
  | perform h hop ih =>
    intro pk record hrecord
    cases StakeLedger.perform_effect hop with
    | refuse e hknown hnone => exact ih pk record hrecord
    | mark horphan hfresh hnone => exact ih pk record hrecord
    | slash hp hold hfraction hstake htotal hdated =>
      rcases MapSum.getElem?_insert_eq_some_iff.mp hrecord with ⟨_, rfl⟩ | ⟨_, hrecord⟩
      · exact hdated
      · exact ih pk record hrecord
    | release hold hnone =>
      rcases MapSum.getElem?_insert_eq_some_iff.mp hrecord with ⟨_, rfl⟩ | ⟨_, hrecord⟩
      · exact rfl
      · exact ih pk record hrecord
  | addValidator h hop ih =>
    intro pk record hrecord
    rw [StakeLedger.updateMetrics_eq_some hop] at hrecord
    rcases MapSum.getElem?_insert_eq_some_iff.mp hrecord with ⟨_, rfl⟩ | ⟨_, hrecord⟩
    · exact rfl
    · exact ih pk record hrecord
  | removeValidator h hop ih =>
    intro pk record hrecord
    rw [StakeLedger.updateMetrics_eq_some hop] at hrecord
    exact ih pk record (MapSum.getElem?_erase_eq_some_iff.mp hrecord).2
  | reload h config ih =>
    intro pk record hrecord
    refine foldl_readValidator_forall (fun rec hrec => ?_) (fun pk r hr => ?_) hrecord
    · obtain ⟨entry, _, rfl⟩ := List.mem_map.mp (List.mem_of_mem_take hrec)
      exact entry.2.reread_dated
    · simp at hr

def RoundTrips (ledger : StakeLedger) (config : SlashingConfig) : Prop :=
  ((fromLedger ledger).intoLedger config).validators = ledger.validators ∧
    ((fromLedger ledger).intoLedger config).processedEvidence =
      ledger.processedEvidence

def Storable (ledger : StakeLedger) : Prop :=
  ledger.validators.size ≤ maxPersistedValidators ∧
    ∀ (pk : PublicKeyBytes) (record : ValidatorRecord),
      ledger.validators[pk]? = some record → record.Kept

/-- **A reachable ledger survives the round trip if and only if the file can hold it.** -/
theorem roundTrips_iff (ledger : StakeLedger) (h : ledger.Reachable) (config : SlashingConfig) :
    RoundTrips ledger config ↔ Storable ledger := by
  constructor
  · rintro ⟨hvals, _⟩
    have hfit : ledger.validators.size ≤ maxPersistedValidators :=
      hvals ▸ size_intoLedger_le config ledger
    refine ⟨hfit, fun pk record hrecord => ?_⟩
    have hread := getElem?_intoLedger config hfit pk
    rw [hvals, hrecord, Option.map_some] at hread
    have hdated := h.dated pk record hrecord
    exact (ValidatorRecord.reread_eq_iff hdated).mp (Option.some.inj hread).symm
  · rintro ⟨hfit, hkept⟩
    refine ⟨Std.ExtTreeMap.ext_getElem? fun pk => ?_, processedEvidence_intoLedger config ledger⟩
    rw [getElem?_intoLedger config hfit pk]
    cases hrecord : ledger.validators[pk]? with
    | none => rfl
    | some record =>
      rw [Option.map_some, (ValidatorRecord.reread_eq_iff (h.dated pk record hrecord)).mpr
        (hkept pk record hrecord)]

def enrolled : StakeLedger :=
  { StakeLedger.new {} false with
    validators := (∅ : BTreeMap PublicKeyBytes ValidatorRecord).insert [1] { stake := 900 } }

lemma enrolled_reachable : enrolled.Reachable := by
  have hadd : (StakeLedger.new {} false).addValidator [1] 900 = some enrolled := rfl
  exact .addValidator (.new {} false) hadd

def offences (heights : List Height) : List PenaltyOp :=
  heights.map fun height => .applyEvidence (votePair [1] height) 9

theorem roundTrips_first_offence :
    ∃ ledger : StakeLedger, ledger.Reachable ∧
      ledger.validators[([1] : PublicKeyBytes)]?.map ValidatorRecord.status = some (.jailed 9 1) ∧
      RoundTrips ledger {} := by
  have hrun : (Trace.run StakeLedger.penaltyStep enrolled (offences [5])).map (fun ledger =>
      (ledger.validators[([1] : PublicKeyBytes)]?.map ValidatorRecord.status,
        decide (ledger.validators.size ≤ maxPersistedValidators ∧
          ∀ e ∈ ledger.validators.toList, e.2.Kept))) = some (some (.jailed 9 1), true) := by
    decide +kernel
  obtain ⟨ledger, hledger, hres⟩ := Option.map_eq_some_iff.mp hrun
  obtain ⟨hstatus, hdec⟩ := Prod.mk.inj hres
  obtain ⟨hfit, hkept⟩ := of_decide_eq_true hdec
  have hreach := enrolled_reachable.run hledger
  refine ⟨ledger, hreach, hstatus, (roundTrips_iff ledger hreach {}).mpr ⟨hfit, ?_⟩⟩
  intro pk record hrecord
  exact hkept (pk, record) (Std.ExtTreeMap.mem_toList_iff_getElem?_eq_some.mpr hrecord)

/-- A second offence is forgotten on the way. -/
theorem second_offence_forgotten :
    ∃ ledger : StakeLedger, ledger.Reachable ∧
      ledger.validators[([1] : PublicKeyBytes)]?.map ValidatorRecord.status = some (.jailed 9 2) ∧
      ((fromLedger ledger).intoLedger {}).validators[([1] : PublicKeyBytes)]?.map
        ValidatorRecord.status = some (.jailed 9 1) ∧
      ¬ RoundTrips ledger {} := by
  have hrun : (Trace.run StakeLedger.penaltyStep enrolled (offences [5, 6])).map (fun ledger =>
      (ledger.validators[([1] : PublicKeyBytes)]?.map ValidatorRecord.status,
        ((fromLedger ledger).intoLedger {}).validators[([1] : PublicKeyBytes)]?.map
          ValidatorRecord.status)) = some (some (.jailed 9 2), some (.jailed 9 1)) := by
    decide +kernel
  obtain ⟨ledger, hledger, hres⟩ := Option.map_eq_some_iff.mp hrun
  obtain ⟨hbefore, hafter⟩ := Prod.mk.inj hres
  refine ⟨ledger, enrolled_reachable.run hledger, hbefore, hafter, fun htrip => ?_⟩
  rw [htrip.1, hbefore] at hafter
  exact absurd hafter (by decide)

end Iona
