import Iona.Lib.Grouping
import Iona.Lib.MapSum
import Iona.Lib.Trace
import Iona.Slashing

/-! # Tombstones -/

namespace Iona

def StakeLedger.isTombstoned (ledger : StakeLedger) (pk : PublicKeyBytes) : Bool :=
  ledger.validators[pk]?.any fun record => record.status = .tombstoned

variable {ledger ledger' : StakeLedger} {pk pk' : PublicKeyBytes}
  {res : Except SlashingError Unit × StakeLedger}
  {currentHeight : Height}

lemma isTombstoned_iff :
    ledger.isTombstoned pk = true ↔
      ∃ record, ledger.validators[pk]? = some record ∧ record.status = .tombstoned := by
  unfold StakeLedger.isTombstoned
  cases ledger.validators[pk]? with
  | none => simp
  | some record => simp

/-! ### The ledger on disk -/

def maxPersistedValidators : ℕ := 10000

def currentVersion : UInt32 := 1

structure PersistentValidatorRecord where
  pubkeyHex : String
  stake : UInt64
  slashedTotal : UInt64
  status : String
  jailedAtHeight : Option Height

structure PersistentState where
  version : UInt32
  validators : List PersistentValidatorRecord
  processedEvidence : List (Height × String)

def ValidatorStatus.text : ValidatorStatus → String
  | active => "active"
  | jailed _ _ => "jailed"
  | tombstoned => "tombstoned"

def ValidatorStatus.since : ValidatorStatus → Option Height
  | jailed sinceHeight _ => some sinceHeight
  | _ => none

def ValidatorStatus.ofText (text : String) (jailedAtHeight : Option Height) : ValidatorStatus :=
  match text with
  | "active" => .active
  | "jailed" => .jailed (jailedAtHeight.getD 0) 1
  | "tombstoned" => .tombstoned
  | _ => .active

def PersistentValidatorRecord.of (entry : PublicKeyBytes × ValidatorRecord) :
    PersistentValidatorRecord where
  pubkeyHex := Bytes.hexEncode entry.1
  stake := entry.2.stake
  slashedTotal := entry.2.slashedTotal
  status := entry.2.status.text
  jailedAtHeight := entry.2.status.since

def PersistentValidatorRecord.record (rec : PersistentValidatorRecord) : ValidatorRecord where
  stake := rec.stake
  slashedTotal := rec.slashedTotal
  status := .ofText rec.status rec.jailedAtHeight
  jailedAt := rec.jailedAtHeight

def PersistentState.fromLedger (ledger : StakeLedger) : PersistentState where
  version := currentVersion
  validators := (ledger.validators.toList.map .of).take maxPersistedValidators
  processedEvidence := ledger.processedEvidence.toList.map fun key => (key.1, Bytes.hexEncode key.2)

def readValidator (validators : BTreeMap PublicKeyBytes ValidatorRecord)
    (rec : PersistentValidatorRecord) : BTreeMap PublicKeyBytes ValidatorRecord :=
  match Bytes.hexDecode rec.pubkeyHex with
  | some pk => validators.insert pk rec.record
  | none => validators

def PersistentState.intoLedger (state : PersistentState) (config : SlashingConfig) :
    StakeLedger where
  validators := state.validators.foldl readValidator ∅
  processedEvidence := .ofList
    (state.processedEvidence.map fun key => (key.1, (Bytes.hexDecode key.2).getD [])) compare
  config := config

def SlashingConfig.validate (config : SlashingConfig) : Except String Unit :=
  if config.unjailDelayBlocks = 0 then .error "unjail_delay_blocks must be > 0"
  else if config.slashFractionDoubleVote = 0 then
    .error "slash_fraction_double_vote must be > 0"
  else if config.slashFractionDowntime = 0 then .error "slash_fraction_downtime must be > 0"
  else if config.downtimeWindow = 0 then .error "downtime_window must be > 0"
  else if config.downtimeMinSigned > config.downtimeWindow then
    .error "downtime_min_signed must be <= downtime_window"
  else if config.minStakeAfterSlash = 0 then .error "min_stake_after_slash must be > 0"
  else match config.rateError with
    | some e => .error e
    | none => .ok ()

inductive LedgerFile where
  | malformed (e : String)
  | versioned (version : ℕ) (state : Except String PersistentState)
  | unversioned (ledger : Except String StakeLedger)

structure LedgerFormat (φ : Type) where
  encode : PersistentState → φ
  read : φ → LedgerFile

def LedgerFormat.RoundTrips {φ : Type} (F : LedgerFormat φ) : Prop :=
  ∀ state, F.read (F.encode state) = .versioned state.version.toNat (.ok state)

section Machine

variable {φ : Type} (F : LedgerFormat φ)

def StakeLedger.loadState (config : SlashingConfig) (failure : Option SlashingError) :
    Option φ → Except SlashingError (Option StakeLedger)
  | none => .ok none
  | some file => match failure with
    | some e => .error e
    | none => match F.read file with
      | .malformed e => .error (.serialization e)
      | .versioned version state =>
        if version ≠ currentVersion.toNat then
          .error (.config ("unsupported version: " ++ toString version ++ " (expected 1)"))
        else match state with
          | .ok state => .ok (some (state.intoLedger config))
          | .error e => .error (.serialization e)
      | .unversioned ledger => match ledger with
        | .ok ledger => .ok (some ledger)
        | .error e => .error (.serialization e)

def StakeLedger.new (config : SlashingConfig) (registered : Bool) : StakeLedger :=
  { config := config, metrics := config.enableMetrics && registered }

def StakeLedger.load (config : SlashingConfig) (registered : Bool) (failure : Option SlashingError)
    (file : Option φ) : Except SlashingError StakeLedger := do
  match config.validate with
  | .error e => .error (.config e)
  | .ok () =>
    let loaded ← StakeLedger.loadState F config failure file
    return loaded.getD (.new config registered)

/-! ### The machine -/

structure LedgerStore (φ : Type) where
  ledger : StakeLedger
  file : Option φ := none
  saved : Option StakeLedger := none

inductive LedgerOp where
  | applyEvidence (evidence : Evidence) (currentHeight : Height)
  | unjail (pk : PublicKeyBytes) (currentHeight : Height)
  | slashDowntime (pk : PublicKeyBytes) (currentHeight : Height)
  | addValidator (pk : PublicKeyBytes) (stake : UInt64)
  | save (failure : Option SlashingError)
  | load (config : SlashingConfig) (registered : Bool) (failure : Option SlashingError)

def LedgerStore.step (s : LedgerStore φ) : LedgerOp → Option (LedgerStore φ)
  | .applyEvidence evidence currentHeight =>
    (s.ledger.applyEvidence evidence currentHeight).map fun res => { s with ledger := res.2 }
  | .unjail pk currentHeight =>
    (s.ledger.unjail pk currentHeight).map fun res => { s with ledger := res.2 }
  | .slashDowntime pk currentHeight =>
    (s.ledger.slashDowntime pk currentHeight).map fun res => { s with ledger := res.2 }
  | .addValidator pk stake =>
    (s.ledger.addValidator pk stake).map fun ledger => { s with ledger := ledger }
  | .save failure => match failure with
    | some _ => some s
    | none => some { s with
        file := some (F.encode (.fromLedger s.ledger)), saved := some s.ledger }
  | .load config registered failure =>
    match StakeLedger.load F config registered failure s.file with
    | .ok ledger => some { s with ledger := ledger }
    | .error _ => some s

def LedgerStore.Synced (s : LedgerStore φ) : Prop :=
  ∀ ledger, s.saved = some ledger → s.file = some (F.encode (.fromLedger ledger))

end Machine

/-! ### The records that are read -/

def ValidatorRecord.reread (record : ValidatorRecord) : ValidatorRecord where
  stake := record.stake
  slashedTotal := record.slashedTotal
  status := .ofText record.status.text record.status.since
  jailedAt := record.status.since

lemma readValidator_of (validators : BTreeMap PublicKeyBytes ValidatorRecord)
    (entry : PublicKeyBytes × ValidatorRecord) :
    readValidator validators (.of entry) = validators.insert entry.1 entry.2.reread := by
  simp only [readValidator, PersistentValidatorRecord.of, Bytes.hexDecode_hexEncode]
  rfl

lemma validators_intoLedger (config : SlashingConfig)
    (hfit : ledger.validators.size ≤ maxPersistedValidators) :
    ((PersistentState.fromLedger ledger).intoLedger config).validators =
      Grouping.writeAll id ValidatorRecord.reread ledger.validators ∅ := by
  have hall :
      (PersistentState.fromLedger ledger).validators = ledger.validators.toList.map .of := by
    refine List.take_of_length_le ?_
    rw [List.length_map, Std.ExtTreeMap.length_toList]
    exact hfit
  rw [PersistentState.intoLedger, hall, List.foldl_map, Grouping.writeAll,
    Std.ExtTreeMap.foldl_eq_foldl_toList]
  simp only [readValidator_of, id]

lemma getElem?_intoLedger (config : SlashingConfig)
    (hfit : ledger.validators.size ≤ maxPersistedValidators) (pk : PublicKeyBytes) :
    ((PersistentState.fromLedger ledger).intoLedger config).validators[pk]? =
      ledger.validators[pk]?.map ValidatorRecord.reread := by
  rw [validators_intoLedger config hfit]
  refine (Grouping.getElem?_writeAll Function.injective_id pk).trans ?_
  rw [Std.ExtTreeMap.getElem?_empty, Option.or_none]

lemma intoLedger_tombstoned (hfit : ledger.validators.size ≤ maxPersistedValidators)
    (h : ledger.isTombstoned pk = true) (config : SlashingConfig) :
    ((PersistentState.fromLedger ledger).intoLedger config).isTombstoned pk = true := by
  obtain ⟨record, hrecord, hstatus⟩ := isTombstoned_iff.mp h
  refine isTombstoned_iff.mpr ⟨record.reread, ?_, ?_⟩
  · rw [getElem?_intoLedger config hfit, hrecord, Option.map_some]
  · rw [ValidatorRecord.reread, hstatus]
    rfl

/-! ### Operations that keep tombstones -/

lemma isTombstoned_congr (h : ledger'.validators[pk]? = ledger.validators[pk]?) :
    ledger'.isTombstoned pk = ledger.isTombstoned pk := by
  rw [StakeLedger.isTombstoned, h, StakeLedger.isTombstoned]

lemma isTombstoned_of_insert {record : ValidatorRecord}
    (hvals : ledger'.validators = ledger.validators.insert pk record)
    (hfree : ¬ ledger.isTombstoned pk = true) (h : ledger.isTombstoned pk' = true) :
    ledger'.isTombstoned pk' = true := by
  obtain ⟨record', hrecord', hstatus⟩ := isTombstoned_iff.mp h
  refine isTombstoned_iff.mpr ⟨record', ?_, hstatus⟩
  rw [hvals]
  refine MapSum.getElem?_insert_eq_some_iff.mpr (.inr ⟨?_, hrecord'⟩)
  rintro rfl
  exact hfree h

lemma not_isTombstoned {record : ValidatorRecord}
    (hrecord : ledger.validators[pk]? = some record) (hstatus : record.status ≠ .tombstoned) : ¬ ledger.isTombstoned pk = true := by
  rw [isTombstoned_iff, hrecord]
  rintro ⟨r, hr, hr'⟩
  cases hr
  exact hstatus hr'

lemma unjail_tombstoned (h : ledger.unjail pk currentHeight = some res)
    (htomb : ledger.isTombstoned pk' = true) : res.2.isTombstoned pk' = true := by
  rcases StakeLedger.unjail_cases h with ⟨_, _, hsame⟩ | ⟨record, _, _, hrecord, hstatus, _, hwrite⟩
  · rw [hsame]
    exact htomb
  · refine isTombstoned_of_insert (congrArg _ hwrite) (not_isTombstoned hrecord ?_) htomb
    rw [hstatus]
    exact fun heq => nomatch heq

lemma slashDowntime_tombstoned (h : ledger.slashDowntime pk currentHeight = some res)
    (htomb : ledger.isTombstoned pk' = true) : res.2.isTombstoned pk' = true := by
  rcases StakeLedger.slashDowntime_cases h with
    ⟨_, _, hsame, _⟩ | ⟨record, hrecord, hactive, _, _, hwrite⟩
  · rw [hsame]
    exact htomb
  · refine isTombstoned_of_insert (congrArg _ hwrite) (not_isTombstoned hrecord ?_) htomb
    rw [hactive]
    exact fun heq => nomatch heq

section Runs

variable {φ : Type} {F : LedgerFormat φ}

def Keeps (s : LedgerStore φ) : LedgerOp → Prop
  | .applyEvidence evidence _ => s.ledger.isTombstoned evidence.offender = true →
      (evidence.height, evidence.offender) ∈ s.ledger.processedEvidence
  | .addValidator pk _ => ¬ s.ledger.isTombstoned pk = true
  | .load .. => ∀ pk, s.ledger.isTombstoned pk = true → ∃ saved, s.saved = some saved ∧
      saved.isTombstoned pk = true ∧ saved.validators.size ≤ maxPersistedValidators
  | _ => True

lemma load_saved (hF : F.RoundTrips) {config : SlashingConfig} {registered : Bool}
    {failure : Option SlashingError} {saved ledger : StakeLedger}
    (h : StakeLedger.load F config registered failure (some (F.encode (.fromLedger saved))) =
      .ok ledger) : ledger = (PersistentState.fromLedger saved).intoLedger config := by
  unfold StakeLedger.load at h
  split at h
  · cases h
  cases failure with
  | some e => cases h
  | none =>
    have hload : StakeLedger.loadState F config none (some (F.encode (.fromLedger saved))) =
        .ok (some ((PersistentState.fromLedger saved).intoLedger config)) := by
      simp only [StakeLedger.loadState]
      rw [hF (.fromLedger saved)]
      rfl
    rw [hload] at h
    cases h
    rfl

lemma synced_step {s s' : LedgerStore φ} {op : LedgerOp} (hs : s.Synced F)
    (h : s.step F op = some s') : s'.Synced F := by
  cases op with
  | save failure =>
    cases failure with
    | some e =>
      cases h
      exact hs
    | none =>
      cases h
      rintro ledger ⟨⟩
      rfl
  | load config registered failure =>
    unfold LedgerStore.step at h
    simp only at h
    split at h
    all_goals
      cases h
      exact hs
  | _ =>
    obtain ⟨res, _, rfl⟩ := Option.map_eq_some_iff.mp h
    exact hs

lemma tombstoned_step (hF : F.RoundTrips) {s s' : LedgerStore φ} {op : LedgerOp} (hs : s.Synced F)
    (hop : Keeps s op) (h : s.step F op = some s') (htomb : s.ledger.isTombstoned pk = true) :
    s'.ledger.isTombstoned pk = true := by
  cases op with
  | applyEvidence evidence currentHeight =>
    obtain ⟨⟨res, ledger'⟩, happly, rfl⟩ := Option.map_eq_some_iff.mp h
    by_cases hsame : ledger'.validators[pk]? = s.ledger.validators[pk]?
    · exact (isTombstoned_congr hsame).trans htomb
    · obtain ⟨rfl, _, hfresh⟩ := StakeLedger.applyEvidence_changes happly hsame
      exact absurd (hop htomb) hfresh
  | unjail pk' currentHeight =>
    obtain ⟨res, hres, rfl⟩ := Option.map_eq_some_iff.mp h
    exact unjail_tombstoned hres htomb
  | slashDowntime pk' currentHeight =>
    obtain ⟨res, hres, rfl⟩ := Option.map_eq_some_iff.mp h
    exact slashDowntime_tombstoned hres htomb
  | addValidator pk' stake =>
    obtain ⟨ledger', hadd, rfl⟩ := Option.map_eq_some_iff.mp h
    obtain rfl := StakeLedger.updateMetrics_eq_some hadd
    exact isTombstoned_of_insert rfl hop htomb
  | save failure =>
    cases failure with
    | some e =>
      cases h
      exact htomb
    | none =>
      cases h
      exact htomb
  | load config registered failure =>
    obtain ⟨saved, hsaved, hold, hfit⟩ := hop pk htomb
    unfold LedgerStore.step at h
    simp only [hs saved hsaved] at h
    split at h
    · rename_i ledger hload
      cases h
      rw [load_saved hF hload]
      exact intoLedger_tombstoned hfit hold config
    · cases h
      exact htomb

/-- **When tombstones are permanent**: in runs in which evidence against a tombstoned validator
repeats, no tombstoned key is added again and no older file is loaded, a tombstoned validator stays
one. -/
theorem tombstone_permanent (hF : F.RoundTrips) {s₀ : LedgerStore φ} (hs₀ : s₀.Synced F)
    {ops : List LedgerOp} (hops : Trace.Along (LedgerStore.step F) Keeps s₀ ops)
    {pre mid post : List LedgerOp} (hsplit : ops = pre ++ mid ++ post) {s s' : LedgerStore φ}
    (hs : Trace.run (LedgerStore.step F) s₀ pre = some s)
    (hs' : Trace.run (LedgerStore.step F) s₀ (pre ++ mid) = some s') {pk : PublicKeyBytes}
    (htomb : s.ledger.isTombstoned pk = true) : s'.ledger.isTombstoned pk = true := by
  subst hsplit
  have hsynced : s.Synced F :=
    Trace.run_invariant (fun _ _ _ hs hstep => synced_step hs hstep) hs₀ hs
  rw [Trace.run_append, hs, Option.bind_some] at hs'
  have hmid : Trace.Along (LedgerStore.step F) Keeps s mid := hops.append.drop hs
  have hboth := Trace.run_history (C := Keeps)
    (P := fun _ s => s.Synced F ∧ s.ledger.isTombstoned pk = true) ⟨hsynced, htomb⟩ ?_ hmid hs'
  · exact hboth.2
  · rintro _ t op t' ⟨ht, htomb⟩ hop hstep
    exact ⟨synced_step ht hstep, tombstoned_step hF ht hop hstep htomb⟩

end Runs

def buriedLedger : StakeLedger :=
  { validators := .ofList [([1], { stake := 900, status := .tombstoned }), ([2], { stake := 50 })]
      compare }

def LedgerFormat.plain : LedgerFormat PersistentState where
  encode := id
  read state := .versioned state.version.toNat (.ok state)

def lateVote (id : Option Hash32) : Vote :=
  { voteType := .prevote, height := 60, round := 0, voter := [1], blockId := id, signature := [] }

def resurrection : List LedgerOp :=
  [.applyEvidence (.doubleVote [1] 60 0 .prevote none (some (.ofNat 1)) (lateVote none)
      (lateVote (some (.ofNat 1)))) 70,
    .unjail [1] 1070]

/-- The tombstoned validator is active again. -/
theorem tombstone_lifted :
    buriedLedger.isTombstoned [1] = true ∧
      ((Trace.run (LedgerStore.step .plain) ⟨buriedLedger, none, none⟩
          resurrection).map fun s =>
        s.ledger.validators[([1] : PublicKeyBytes)]?.map ValidatorRecord.status) =
      some (some .active) := by
  decide +kernel

def burial : List LedgerOp := [.save none, .load {} false none, .unjail [1] 5000]

theorem tombstone_permanent_burial :
    (Trace.run (LedgerStore.step .plain) ⟨buriedLedger, none, none⟩ burial).isSome = true ∧
      ∀ s', Trace.run (LedgerStore.step .plain) ⟨buriedLedger, none, none⟩ burial = some s' →
        s'.ledger.isTombstoned [1] = true := by
  refine ⟨by decide +kernel, fun s' hs' => ?_⟩
  have hsplit : burial = [] ++ burial ++ [] := by simp
  have hsynced : LedgerStore.Synced .plain ⟨buriedLedger, none, none⟩ := fun _ h => nomatch h
  refine tombstone_permanent (fun _ => rfl) hsynced ?_ hsplit rfl hs' (by decide +kernel)
  rintro (_ | ⟨op₁, _ | ⟨op₂, _ | ⟨op₃, pre⟩⟩⟩) op post hsplit s hs
  · cases hsplit
    trivial
  · cases hsplit
    cases hs
    intro pk htomb
    exact ⟨buriedLedger, rfl, htomb, by decide +kernel⟩
  · cases hsplit
    trivial
  · have hlen := congrArg List.length hsplit
    simp [burial] at hlen

end Iona
