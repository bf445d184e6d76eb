import Iona.Consensus.Run
import Iona.Lib.WriteAhead

/-! # One validator never equivocates -/

namespace Iona

open WriteAhead GuardState

inductive Statement where
  | proposal (height : Height) (round : Round) (id : Hash32)
  | vote (vt : VoteType) (height : Height) (round : Round) (id : Option Hash32)

def GuardState.Covers (g : GuardState) : Statement → Prop
  | .proposal height round id => g.HasProposal height round id
  | .vote vt height round id => g.HasVote vt height round id

variable {base : GuardState} {s : Statement} {n : Node}

lemma GuardState.Extends.covers {g g' : GuardState} (h : g.Extends g') (hs : g.Covers s) :
    g'.Covers s := by
  cases s with
  | proposal height round id => exact h.proposals _ _ hs
  | vote vt height round id => exact h.votes _ _ hs

def Effect.entry : Effect → Option (Entry GuardState Statement)
  | .persist st => some (.save st)
  | .broadcast (.proposal p) => some (.say (.proposal p.height p.round p.blockId))
  | .broadcast (.vote v) => some (.say (.vote v.voteType v.height v.round v.blockId))
  | _ => none

def history (trace : List Effect) : List (Entry GuardState Statement) :=
  trace.filterMap Effect.entry

lemma history_cons_of_unsigned {effect : Effect} (h : effect.Unsigned) (trace : List Effect) :
    history (effect :: trace) = history trace := by
  have hnone : effect.entry = none := by
    rcases effect with _ | (_ | _ | _) | _ | _
    · exact h.elim
    · exact h.elim
    · exact h.elim
    · rfl
    · rfl
    · rfl
  simp [history, hnone]

abbrev LegalHistory (base : GuardState) (trace : List Effect) : Prop :=
  Legal GuardState.Extends GuardState.Covers base (history trace)

structure GuardInv (base : GuardState) (n : Node) : Prop where
  legal : LegalHistory base n.trace
  guard : ∃ g, n.dsGuard = some g ∧ SameRecords (latest base (history n.trace)) g

lemma GuardState.SameRecords.extends {a b c : GuardState} (h : SameRecords a b) (hext : b.Extends c) :
    a.Extends c where
  proposals key val hval := hext.proposals key val (h.proposals ▸ hval)
  votes key val hval := hext.votes key val (h.votes ▸ hval)

lemma GuardState.SameRecords.covers {a b : GuardState} (h : SameRecords a b) (hs : b.Covers s) :
    a.Covers s := by
  cases s with
  | proposal height round id =>
    rw [GuardState.Covers, HasProposal, ← h.proposals]
    exact hs
  | vote vt height round id =>
    rw [GuardState.Covers, HasVote, ← h.votes]
    exact hs

lemma GuardInv.micro {E : Env} {S : Signer} {ev : Event} {loose : Prop} {m : Node}
    (hstep : Micro E S ev loose n m) (h : GuardInv base n) : GuardInv base m := by
  obtain ⟨hlegal, g, hg, hsame⟩ := h
  cases hstep with
  | save g' st hguard hext =>
    cases hg.symm.trans hguard
    exact ⟨⟨hsame.extends hext, hlegal⟩, st, rfl, rfl, rfl⟩
  | vote vt id hopen hguard hrule =>
    exact ⟨⟨hsame.covers (s := .vote ..) (hguard g hg), hlegal⟩, g, hg, hsame⟩
  | propose id block hguard =>
    exact ⟨⟨hsame.covers (s := .proposal ..) (hguard g hg), hlegal⟩, g, hg, hsame⟩
  | tell effect hunsigned =>
    refine ⟨?_, g, hg, ?_⟩
    · rw [LegalHistory, history_cons_of_unsigned hunsigned]
      exact hlegal
    · rw [history_cons_of_unsigned hunsigned]
      exact hsame
  | _ => exact ⟨hlegal, g, hg, hsame⟩

lemma GuardInv.covers (h : GuardInv base n) {effect : Effect} (hmem : effect ∈ n.trace)
    (hentry : effect.entry = some (.say s)) : (latest base (history n.trace)).Covers s :=
  h.legal.covers_of_mem (fun _ _ _ => Extends.covers) (List.mem_filterMap.mpr ⟨effect, hmem, hentry⟩)

lemma GuardInv.proposal_unique (h : GuardInv base n) (p p' : Proposal)
    (hp : .broadcast (.proposal p) ∈ n.trace) (hp' : .broadcast (.proposal p') ∈ n.trace)
    (hheight : p.height = p'.height) (hround : p.round = p'.round) : p.blockId = p'.blockId := by
  have hrecord := h.covers hp rfl
  rw [hheight, hround] at hrecord
  exact HasProposal.unique hrecord (h.covers hp' rfl)

/-! ### Crashes and restarts -/

def fileAfter (F : GuardFormat) (file : Option (List UInt8)) : List Effect → Option (List UInt8)
  | [] => file
  | .persist st :: _ => some (F.encode st)
  | _ :: trace => fileAfter F file trace

structure Opens (E : Env) (now : UInt64) (failure : Option String) (file : Option (List UInt8))
    (g : GuardState) (written : List Effect) : Prop where
  intact : ∃ st, loadState E.crypto E.guardFormat now file = .ok st
  opened : ∃ file', withConfig E.crypto E.guardFormat now failure file = .ok (g, file')
  written_eq : written = if file.isNone then [.persist g] else []

def Node.resume (engine : Engine) (g : GuardState) (store : BTreeMap Hash32 Block)
    (cache : Merkle.RootCache) (trace : List Effect) : Node :=
  { engine with dsGuard := some g, store := store, cache := cache, trace := trace }

/-- **The life of a validator** whose guard file is `file` at first: it is started, handles events,
and crashes, between events or in the middle of one, to be started again in any state of the
engine. -/
inductive Life (E : Env) (S : Signer) (file : Option (List UInt8)) : Node → Prop
  | start (engine : Engine) (store : BTreeMap Hash32 Block) (cache : Merkle.RootCache)
      {now : UInt64} {failure : Option String} {g : GuardState} {written : List Effect}
      (hopens : Opens E now failure file g written) :
    Life E S file (.resume engine g store cache written)
  | event {n m : Node} (hn : Life E S file n) (io : Io) (ev : Event)
      {res : Except ConsensusError Unit} (hreturns : ev.prog E S io n = (some res, m)) :
    Life E S file m
  | crash {n : Node} (hn : Life E S file n) (io : Io) (ev : Event) {trace : List Effect}
      (hbefore : n.trace <:+ trace) (hafter : trace <:+ ((ev.prog E S io).exec n).trace)
      (engine : Engine) (store : BTreeMap Hash32 Block) (cache : Merkle.RootCache)
      {now : UInt64} {failure : Option String} {g : GuardState} {written : List Effect}
      (hopens : Opens E now failure (fileAfter E.guardFormat file trace) g written) :
    Life E S file (.resume engine g store cache (written ++ trace))

lemma GuardState.SameRecords.trans {a b c : GuardState} (hab : SameRecords a b)
    (hbc : SameRecords b c) : SameRecords a c :=
  ⟨hbc.proposals.trans hab.proposals, hbc.votes.trans hab.votes⟩

section Restart

variable {E : Env} {S : Signer} {file : Option (List UInt8)} {base : GuardState}

variable {failure : Option String} {now : UInt64} {g : GuardState} {trace written : List Effect}

lemma loadState_fileAfter (hF : E.guardFormat.KeepsRecords)
    (hbase : ∀ now st, loadState E.crypto E.guardFormat now file = .ok st → SameRecords base st)
    {st : GuardState}
    (hload : loadState E.crypto E.guardFormat now (fileAfter E.guardFormat file trace) = .ok st) :
    SameRecords (latest base (history trace)) st := by
  induction trace with
  | nil => exact hbase now st hload
  | cons effect trace ih =>
    rcases effect with g | (_ | _ | _) | _ | _
    · exact loadState_encode hF hload
    all_goals exact ih hload

lemma Opens.guardInv {file' : Option (List UInt8)} (hopens : Opens E now failure file' g written)
    (hlegal : LegalHistory base trace)
    (hfile : ∀ st, loadState E.crypto E.guardFormat now file' = .ok st → SameRecords (latest base
      (history trace)) st) (engine : Engine) (store : BTreeMap Hash32 Block)
    (cache : Merkle.RootCache) :
    GuardInv base (.resume engine g store cache (written ++ trace)) := by
  obtain ⟨⟨st, hload⟩, ⟨file'', hopened⟩, rfl⟩ := hopens
  have hsame : SameRecords (latest base (history trace)) g :=
    (hfile st hload).trans (withConfig_intact hload hopened).1
  cases file' with
  | none => exact ⟨⟨hsame.extends (.refl g), hlegal⟩, g, rfl, rfl, rfl⟩
  | some bytes => exact ⟨hlegal, g, rfl, hsame⟩

lemma Opens.guardInv_start (hopens : Opens E now failure file g written)
    (hbase : ∀ now st, loadState E.crypto E.guardFormat now file = .ok st → SameRecords base st)
    (engine : Engine) (store : BTreeMap Hash32 Block) (cache : Merkle.RootCache) :
    GuardInv base (.resume engine g store cache written) := by
  have hstart : GuardInv base (.resume engine g store cache (written ++ [])) :=
    hopens.guardInv (show LegalHistory base [] from trivial) (hbase now) engine store cache
  rwa [List.append_nil] at hstart

lemma Opens.guardInv_crash (hF : E.guardFormat.KeepsRecords)
    (hbase : ∀ now st, loadState E.crypto E.guardFormat now file = .ok st → SameRecords base st)
    (hn : GuardInv base n) (hafter : trace <:+ n.trace)
    (hopens : Opens E now failure (fileAfter E.guardFormat file trace) g written) (engine : Engine)
    (store : BTreeMap Hash32 Block) (cache : Merkle.RootCache) :
    GuardInv base (.resume engine g store cache (written ++ trace)) := by
  have hlegal : LegalHistory base trace := hn.legal.of_suffix (hafter.filterMap _)
  exact hopens.guardInv hlegal (fun _ => loadState_fileAfter hF hbase) engine store cache

lemma Life.guardInv (hF : E.guardFormat.KeepsRecords)
    (hbase : ∀ now st, loadState E.crypto E.guardFormat now file = .ok st → SameRecords base st)
    (hn : Life E S file n) : GuardInv base n := by
  induction hn with
  | start engine store cache hopens => exact hopens.guardInv_start hbase engine store cache
  | event hn io ev hreturns ih =>
    have hexec : GuardInv base ((ev.prog E S io).exec _) :=
      Event.exec_invariant (fun _ _ => GuardInv.micro) ih
    rwa [Prog.exec, hreturns] at hexec
  | crash hn io ev hbefore hafter engine store cache hopens ih =>
    have hexec : GuardInv base ((ev.prog E S io).exec _) :=
      Event.exec_invariant (fun _ _ => GuardInv.micro) ih
    exact hopens.guardInv_crash hF hbase hexec hafter engine store cache

end Restart

lemma Life.loads {E : Env} {S : Signer} {file : Option (List UInt8)} (hn : Life E S file n) :
    ∃ now st, loadState E.crypto E.guardFormat now file = .ok st := by
  induction hn with
  | start engine store cache hopens =>
    obtain ⟨st, hload⟩ := hopens.intact
    exact ⟨_, st, hload⟩
  | event hn io ev hreturns ih => exact ih
  | crash hn io ev hbefore hafter engine store cache hopens ih => exact ih

/-- **A validator never equivocates**, across all its restarts: it signs no two block ids for one
vote type, height and round. -/
theorem Life.never_equivocates {E : Env} {S : Signer} {file : Option (List UInt8)} {n : Node}
    (hF : E.guardFormat.KeepsRecords) (hn : Life E S file n) :
    (∀ v v' : Vote, .broadcast (.vote v) ∈ n.trace → .broadcast (.vote v') ∈ n.trace →
      v.voteType = v'.voteType → v.height = v'.height → v.round = v'.round →
      v.blockId = v'.blockId) ∧
    ∀ p p' : Proposal, .broadcast (.proposal p) ∈ n.trace → .broadcast (.proposal p') ∈ n.trace →
      p.height = p'.height → p.round = p'.round → p.blockId = p'.blockId := by
  obtain ⟨now, base, hload⟩ := hn.loads
  have hinv := hn.guardInv hF fun _ _ => loadState_again hload
  constructor
  · intro v v' hv hv' htype hheight hround
    have hrecord := hinv.covers hv rfl
    rw [htype, hheight, hround] at hrecord
    exact HasVote.unique hrecord (hinv.covers hv' rfl)
  · exact hinv.proposal_unique

/-! ### A validator that is restarted -/

def demoGuard (F : GuardFormat) : GuardState :=
  buildPersistedState .demo F 0 { lastModified := 0 }

def demoFirst (E : Env) : Node :=
  .resume (Node.demo [⟨demoPk, 1⟩]).toEngine (demoGuard E.guardFormat) ∅ (.empty _ _ _)
    [.persist (demoGuard E.guardFormat)]

def demoSecond (E : Env) : Node :=
  ((Event.tick 1 fun _ => []).prog E (.demo demoPk) {}).exec (demoFirst E)

def demoEnv : Env :=
  { Env.demo with guardFormat := .table <| (demoSecond .demo).trace.filterMap fun
      | .persist st => some st
      | _ => none }

lemma exists_ok_of_isSome {ε α : Type} {x : Except ε α} (h : x.toOption.isSome = true) :
    ∃ a, x = .ok a := by
  cases x with
  | error e => cases h
  | ok a => exact ⟨a, rfl⟩

lemma opens_demoFirst : Opens demoEnv 0 none none (demoGuard demoEnv.guardFormat)
    [.persist (demoGuard demoEnv.guardFormat)] :=
  ⟨⟨_, rfl⟩, ⟨some (demoEnv.guardFormat.encode (demoGuard demoEnv.guardFormat)), by decide +kernel⟩,
    rfl⟩

theorem never_equivocates_restart : ∃ n, Life demoEnv (.demo demoPk) none n ∧
    (∀ v v' : Vote, .broadcast (.vote v) ∈ n.trace → .broadcast (.vote v') ∈ n.trace →
      v.voteType = v'.voteType → v.height = v'.height → v.round = v'.round →
      v.blockId = v'.blockId) ∧
    ∀ p p' : Proposal, .broadcast (.proposal p) ∈ n.trace → .broadcast (.proposal p') ∈ n.trace →
      p.height = p'.height → p.round = p'.round → p.blockId = p'.blockId := by
  have hfirst : Life demoEnv (.demo demoPk) none (demoFirst demoEnv) :=
    .start (Node.demo [⟨demoPk, 1⟩]).toEngine ∅ (.empty _ _ _) opens_demoFirst
  have hreturns : ((Event.tick 1 fun _ => []).prog demoEnv (.demo demoPk) {}
      (demoFirst demoEnv)).1 = some (.ok ()) := by decide +kernel
  have hsecond : Life demoEnv (.demo demoPk) none (demoSecond demoEnv) :=
    hfirst.event {} (.tick 1 fun _ => []) (Prod.ext hreturns rfl)
  -- it crashes and finds its file
  have hload : (withConfig demoEnv.crypto demoEnv.guardFormat 5 none
      (fileAfter demoEnv.guardFormat none (demoSecond demoEnv).trace)).toOption.isSome = true ∧
    (loadState demoEnv.crypto demoEnv.guardFormat 5
      (fileAfter demoEnv.guardFormat none (demoSecond demoEnv).trace)).toOption.isSome = true := by
    decide +kernel
  obtain ⟨⟨g, file'⟩, hg⟩ := exists_ok_of_isSome hload.1
  have hthird := hsecond.crash {} .nextHeight List.suffix_rfl (Event.trace_suffix ..)
    (Node.demo [⟨demoPk, 1⟩]).toEngine ∅ (.empty _ _ _)
    ⟨exists_ok_of_isSome hload.2, ⟨file', hg⟩, rfl⟩
  exact ⟨_, hthird, hthird.never_equivocates (GuardFormat.table_keepsRecords _)⟩

end Iona
