import Iona.Consensus.BlockProducer
import Iona.Consensus.NonEquivocation

/-! # A validator with a block producer -/

namespace Iona

open WriteAhead GuardState

/-- **The life of a validator** with a block producer: it is started, its main loop takes turns,
and it crashes between turns or in the middle of one, to be started again in any state of the
engine. -/
inductive DriveLife (E : Env) (S : Signer) (file : Option (List UInt8))
    (P : Node → Io → Drive → Prop) : Node → Prop
  | start (engine : Engine) (store : BTreeMap Hash32 Block) (cache : Merkle.RootCache)
      {now : UInt64} {failure : Option String} {g : GuardState} {written : List Effect}
      (hopens : Opens E now failure file g written) :
    DriveLife E S file P (.resume engine g store cache written)
  | turn {n m : Node} (hn : DriveLife E S file P n) (io : Io) (drive : Drive) (hP : P n io drive)
      (hreturns : Drive.step E S n (io, drive) = some m) :
    DriveLife E S file P m
  | crash {n : Node} (hn : DriveLife E S file P n) (io : Io) (drive : Drive) (hP : P n io drive)
      {trace : List Effect} (hbefore : n.trace <:+ trace)
      (hafter : trace <:+ ((drive.prog E S io).exec n).trace)
      (engine : Engine) (store : BTreeMap Hash32 Block) (cache : Merkle.RootCache)
      {now : UInt64} {failure : Option String} {g : GuardState} {written : List Effect}
      (hopens : Opens E now failure (fileAfter E.guardFormat file trace) g written) :
    DriveLife E S file P (.resume engine g store cache (written ++ trace))

def Drive.Guarded (E : Env) (S : Signer) (n : Node) (io : Io) : Drive → Prop
  | .event _ => True
  | .produce call => ∀ block newState cache, call.Builds E S io n block newState cache →
      n.CoversProposal (block.id E.crypto)

section Inv

variable {E : Env} {S : Signer} {io : Io} {base : GuardState} {n : Node}

lemma GuardInv.produced (h : GuardInv base n) (call : ProduceCall) {block : Block}
    (hcovers : n.CoversProposal (block.id E.crypto)) (newState : KvState)
    (cache : Merkle.RootCache) (newBase : UInt64) :
    GuardInv base (call.produced E S n block newState cache newBase) := by
  obtain ⟨hlegal, g, hg, hsame⟩ := h
  exact ⟨⟨hsame.covers (s := .proposal ..) (hcovers g hg), hlegal⟩, g, hg, hsame⟩

lemma GuardInv.drive (h : GuardInv base n) (drive : Drive) (hguard : drive.Guarded E S n io) :
    GuardInv base ((drive.prog E S io).exec n) := by
  cases drive with
  | event ev =>
    rw [Drive.prog, Prog.exec_bind_pure]
    exact Event.exec_invariant (fun _ _ => GuardInv.micro) h
  | produce call =>
    rw [Drive.prog, Prog.exec_bind_pure]
    rcases call.tryProduce_exec_cases E S io n with
      ⟨cache, hexec⟩ | ⟨block, newState, cache, hbuilds, hexec | ⟨newBase, hexec⟩⟩
    · rw [hexec]
      exact ⟨h.legal, h.guard⟩
    · rw [hexec]
      exact ⟨h.legal, h.guard⟩
    · rw [hexec]
      exact h.produced call (hguard block newState cache hbuilds) newState cache newBase

end Inv

section Life

variable {E : Env} {S : Signer} {file : Option (List UInt8)} {P : Node → Io → Drive → Prop} {n : Node}

lemma DriveLife.loads (hn : DriveLife E S file P n) :
    ∃ now st, loadState E.crypto E.guardFormat now file = .ok st := by
  induction hn with
  | start engine store cache hopens =>
    obtain ⟨st, hload⟩ := hopens.intact
    exact ⟨_, st, hload⟩
  | turn hn io drive hP hreturns ih => exact ih
  | crash hn io drive hP hbefore hafter engine store cache hopens ih => exact ih

lemma DriveLife.guardInv (hF : E.guardFormat.KeepsRecords) {base : GuardState}
    (hbase : ∀ now st, loadState E.crypto E.guardFormat now file = .ok st → SameRecords base st)
    (hn : DriveLife E S file (Drive.Guarded E S) n) : GuardInv base n := by
  induction hn with
  | start engine store cache hopens => exact hopens.guardInv_start hbase engine store cache
  | turn hn io drive hP hreturns ih =>
    have hexec := ih.drive drive hP
    rwa [Drive.exec_of_step hreturns] at hexec
  | crash hn io drive hP hbefore hafter engine store cache hopens ih =>
    exact hopens.guardInv_crash hF hbase (ih.drive drive hP) hafter engine store cache

/-- **One proposal for each round**, across restarts, as long as the block producer signs only
blocks the guard has recorded. -/
theorem DriveLife.never_reproposes (hF : E.guardFormat.KeepsRecords)
    (hn : DriveLife E S file (Drive.Guarded E S) n) :
    ∀ p p' : Proposal, .broadcast (.proposal p) ∈ n.trace → .broadcast (.proposal p') ∈ n.trace →
      p.height = p'.height → p.round = p'.round → p.blockId = p'.blockId := by
  obtain ⟨now, base, hload⟩ := hn.loads
  exact (hn.guardInv hF fun _ _ => loadState_again hload).proposal_unique

end Life

/-! ### A producer that is restarted -/

def demoFile : Option (List UInt8) := fileAfter demoEnv.guardFormat none (demoSecond demoEnv).trace

def reopened : GuardState :=
  ((withConfig demoEnv.crypto demoEnv.guardFormat 5 none demoFile).toOption.map Prod.fst).getD
    { lastModified := 0 }

def demoThird : Node :=
  .resume (Node.demo [⟨demoPk, 1⟩]).toEngine reopened ∅ (.empty _ _ _) (demoSecond demoEnv).trace

lemma Opens.of_isSome {E : Env} {now : UInt64} {failure : Option String}
    {file : Option (List UInt8)} {g : GuardState} (file' : Option (List UInt8))
    (h : file.isSome = true ∧ (loadState E.crypto E.guardFormat now file).toOption.isSome = true ∧
      withConfig E.crypto E.guardFormat now failure file = .ok (g, file')) :
    Opens E now failure file g [] where
  intact := exists_ok_of_isSome h.2.1
  opened := ⟨file', h.2.2⟩
  written_eq := by
    obtain ⟨bytes, rfl⟩ := Option.isSome_iff_exists.mp h.1
    rfl

lemma opens_reopened : Opens demoEnv 5 none demoFile reopened [] :=
  .of_isSome demoFile (by decide +kernel)

lemma guarded_demoThird :
    Drive.Guarded demoEnv (.demo demoPk) demoThird {} (.produce (demoCall [])) := by
  intro block newState cache hbuilds g hg
  obtain ⟨addr, receipts, haddr, hbuilt⟩ := hbuilds.built
  have haddr' : proposerAddress demoEnv.crypto (Signer.demo demoPk).publicKey =
      .ok (Engine.proposerAddrString .demo demoPk) := by decide +kernel
  cases haddr'.symm.trans haddr
  have hrecord : (((demoCall []).build demoEnv (.demo demoPk) {} demoThird
      (Engine.proposerAddrString .demo demoPk)).map fun built =>
        decide (reopened.proposals[proposalGuardKey 2 0]? =
          some (h32Hex (built.1.1.id demoEnv.crypto)))) = some true := by decide +kernel
  rw [hbuilt, Option.map_some, Option.some.injEq, decide_eq_true_eq] at hrecord
  obtain rfl : reopened = g := Option.some.inj hg
  exact hrecord

/-- The engine proposes, the validator is restarted, and the producer proposes the same block. -/
theorem never_reproposes_restart : ∃ n,
    DriveLife demoEnv (.demo demoPk) none (Drive.Guarded demoEnv (.demo demoPk)) n ∧
      ∀ p p' : Proposal, .broadcast (.proposal p) ∈ n.trace → .broadcast (.proposal p') ∈ n.trace →
        p.height = p'.height → p.round = p'.round → p.blockId = p'.blockId := by
  have hfirst : DriveLife demoEnv (.demo demoPk) none (Drive.Guarded demoEnv (.demo demoPk))
      (demoFirst demoEnv) :=
    .start (Node.demo [⟨demoPk, 1⟩]).toEngine ∅ (.empty _ _ _) opens_demoFirst
  have hthird : DriveLife demoEnv (.demo demoPk) none (Drive.Guarded demoEnv (.demo demoPk))
      demoThird := by
    refine hfirst.crash {} (.event (.tick 1 fun _ => [])) trivial (Event.trace_suffix ..) ?_
      (Node.demo [⟨demoPk, 1⟩]).toEngine ∅ (.empty _ _ _) opens_reopened
    rw [Drive.prog, Prog.exec_bind_pure]
  have hstep : (Drive.step demoEnv (.demo demoPk) demoThird
      (({} : Io), .produce (demoCall []))).isSome = true := by decide +kernel
  obtain ⟨n, hn⟩ := Option.isSome_iff_exists.mp hstep
  have hlife := hthird.turn {} (.produce (demoCall [])) guarded_demoThird hn
  exact ⟨n, hlife, hlife.never_reproposes (GuardFormat.table_keepsRecords _)⟩

/-! ### A producer that signs again -/

def sentProposals (trace : List Effect) : List Proposal :=
  trace.filterMap fun
    | .broadcast (.proposal p) => some p
    | _ => none

lemma mem_of_mem_sentProposals {trace : List Effect} {p : Proposal} (h : p ∈ sentProposals trace) :
    .broadcast (.proposal p) ∈ trace := by
  obtain ⟨effect, hmem, heq⟩ := List.mem_filterMap.mp h
  split at heq
  · cases heq
    exact hmem
  · cases heq

def emptyProposed : Node :=
  ((Drive.produce (demoCall [])).prog demoEnv (.demo demoPk) {}).exec (demoFirst demoEnv)

def restarted : Node :=
  .resume (Node.demo [⟨demoPk, 1⟩]).toEngine (demoGuard demoEnv.guardFormat) ∅ (.empty _ _ _)
    emptyProposed.trace

def proposedAgain : Node :=
  ((Drive.produce (demoCall [demoTx 1 0 "set k v"])).prog demoEnv (.demo demoPk) {}).exec restarted

lemma opens_restarted : Opens demoEnv 5 none
    (fileAfter demoEnv.guardFormat none emptyProposed.trace) (demoGuard demoEnv.guardFormat) [] :=
  .of_isSome (fileAfter demoEnv.guardFormat none emptyProposed.trace) (by decide +kernel)

/-- Two blocks are proposed for one round. -/
theorem reproposes_after_crash : ∃ n p p',
    DriveLife demoEnv (.demo demoPk) none (fun _ _ _ => True) n ∧
      .broadcast (.proposal p) ∈ n.trace ∧ .broadcast (.proposal p') ∈ n.trace ∧
      p.height = p'.height ∧ p.round = p'.round ∧ p.blockId ≠ p'.blockId := by
  have hfirst : DriveLife demoEnv (.demo demoPk) none (fun _ _ _ => True) (demoFirst demoEnv) :=
    .start (Node.demo [⟨demoPk, 1⟩]).toEngine ∅ (.empty _ _ _) opens_demoFirst
  have hrestarted : DriveLife demoEnv (.demo demoPk) none (fun _ _ _ => True) restarted := by
    exact hfirst.crash {} (.produce (demoCall [])) trivial (Drive.trace_suffix ..) List.suffix_rfl
      (Node.demo [⟨demoPk, 1⟩]).toEngine ∅ (.empty _ _ _) opens_restarted
  have hstep : (Drive.step demoEnv (.demo demoPk) restarted
      (({} : Io), .produce (demoCall [demoTx 1 0 "set k v"]))).isSome = true := by decide +kernel
  obtain ⟨n, hn⟩ := Option.isSome_iff_exists.mp hstep
  have hlife := hrestarted.turn {} (.produce (demoCall [demoTx 1 0 "set k v"])) trivial hn
  have hsent : ∃ p ∈ sentProposals proposedAgain.trace, ∃ p' ∈ sentProposals proposedAgain.trace,
      p.height = p'.height ∧ p.round = p'.round ∧ p.blockId ≠ p'.blockId := by decide +kernel
  obtain ⟨p, hp, p', hp', heq⟩ := hsent
  obtain rfl : proposedAgain = n := Drive.exec_of_step hn
  exact ⟨proposedAgain, p, p', hlife, mem_of_mem_sentProposals hp, mem_of_mem_sentProposals hp', heq⟩

end Iona
