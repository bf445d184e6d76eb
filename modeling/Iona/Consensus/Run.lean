import Iona.Consensus.Step

/-! # Runs of one engine -/

namespace Iona

open List

variable {E : Env} {S : Signer}

def runEvents (E : Env) (S : Signer) : Node → List (Io × Event) → Node
  | n, [] => n
  | n, (io, ev) :: rest =>
    match ev.prog E S io n with
    | (some _, m) => runEvents E S m rest
    | (none, m) => m

def Along (E : Env) (S : Signer) (P : Node → Io → Event → Prop) : Node → List (Io × Event) → Prop
  | _, [] => True
  | n, (io, ev) :: rest => P n io ev ∧
    match ev.prog E S io n with
    | (some _, m) => Along E S P m rest
    | (none, _) => True

variable {P Q : Node → Io → Event → Prop} {I : Node → Prop} {n : Node}
  {all evs rest : List (Io × Event)}

lemma runEvents_invariant (hstep : ∀ n io ev, P n io ev → I n → I ((ev.prog E S io).exec n))
    (halong : Along E S P n evs) (hn : I n) : I (runEvents E S n evs) := by
  induction evs generalizing n with
  | nil => exact hn
  | cons e rest ih =>
    obtain ⟨io, ev⟩ := e
    obtain ⟨hev, hrest⟩ := halong
    have hm := hstep n io ev hev hn
    rw [Prog.exec] at hm
    rw [runEvents]
    -- the event returned, and the run goes on, or it aborted
    rcases hres : ev.prog E S io n with ⟨_ | res, m⟩
    · rwa [hres] at hm
    · rw [hres] at hm hrest
      exact ih hrest hm

lemma Along.imp (hstep : ∀ n io ev, P n io ev → I n → Q n io ev ∧ I ((ev.prog E S io).exec n))
    (halong : Along E S P n evs) (hn : I n) : Along E S Q n evs := by
  induction evs generalizing n with
  | nil => trivial
  | cons e rest ih =>
    obtain ⟨io, ev⟩ := e
    obtain ⟨hev, hrest⟩ := halong
    obtain ⟨hq, hm⟩ := hstep n io ev hev hn
    refine ⟨hq, ?_⟩
    rw [Prog.exec] at hm
    rcases hres : ev.prog E S io n with ⟨_ | res, m⟩
    · trivial
    · rw [hres] at hm hrest
      exact ih hrest hm

lemma Along.cons {io : Io} {ev : Event} (hev : P n io ev)
    (hrest : Along E S P ((ev.prog E S io).exec n) rest) : Along E S P n ((io, ev) :: rest) := by
  refine ⟨hev, ?_⟩
  rw [Prog.exec] at hrest
  rcases hres : ev.prog E S io n with ⟨_ | res, m⟩
  · trivial
  · rwa [hres] at hrest

lemma Event.exec_invariant {io : Io} {ev : Event}
    (hstep : ∀ m m', Micro E S ev (¬ ev.LockSafe S n) m m' → I m → I m') (hn : I n) :
    I ((ev.prog E S io).exec n) :=
  (ev.runs E S io n).invariant hstep rfl hn

lemma Event.trace_suffix (E : Env) (S : Signer) (io : Io) (ev : Event) (n : Node) :
    n.trace <:+ ((ev.prog E S io).exec n).trace := by
  refine Event.exec_invariant (I := fun m => n.trace <:+ m.trace) ?_ suffix_rfl
  intro m m' hstep hm
  cases hstep with
  | save => exact hm.trans (suffix_cons _ _)
  | vote => exact hm.trans (suffix_cons _ _)
  | propose => exact hm.trans (suffix_cons _ _)
  | tell => exact hm.trans (suffix_cons _ _)
  | _ => exact hm

lemma along_true (n : Node) (evs : List (Io × Event)) :
    Along E S (fun _ _ _ => True) n evs := by
  induction evs generalizing n with
  | nil => trivial
  | cons e rest ih =>
    refine ⟨trivial, ?_⟩
    split
    · exact ih _
    · trivial

lemma Along.mem (h : Along E S P n evs) (hsub : evs ⊆ all) :
    Along E S (fun m io ev => P m io ev ∧ (io, ev) ∈ all) n evs := by
  induction evs generalizing n with
  | nil => trivial
  | cons e rest ih =>
    obtain ⟨io, ev⟩ := e
    obtain ⟨hev, hrest⟩ := h
    refine ⟨⟨hev, hsub mem_cons_self⟩, ?_⟩
    rcases hres : ev.prog E S io n with ⟨_ | res, m⟩
    · trivial
    · rw [hres] at hrest
      exact ih hrest fun _ he => hsub (mem_cons_of_mem _ he)

lemma runEvents_micro (hstep : ∀ ev loose m m', Micro E S ev loose m m' → I m → I m') (hn : I n)
    (evs : List (Io × Event)) : I (runEvents E S n evs) :=
  runEvents_invariant (P := fun _ _ _ => True)
    (fun _ _ _ _ h => Event.exec_invariant (fun m m' => hstep _ _ m m') h) (along_true n evs) hn

def Node.start (engine : Engine) (store : BTreeMap Hash32 Block) (cache : Merkle.RootCache) :
    Node :=
  { engine with store := store, cache := cache, trace := [] }

/-! ### An instance that can be run -/

def TallyRule.heaviest : TallyRule where
  best t := t.toList.argmax Prod.snd
  best_mem := by
    intro t id pow h
    exact Std.ExtTreeMap.mem_toList_iff_getElem?_eq_some.mp (argmax_mem h)
  best_max := by
    intro t id pow h id' pow' h'
    exact le_of_mem_argmax (Std.ExtTreeMap.mem_toList_iff_getElem?_eq_some.mpr h') h
  best_isSome := by
    intro t ht
    rw [Option.isSome_iff_ne_none, ne_eq, argmax_eq_none]
    simpa using ht

def GuardFormat.table (known : List GuardState) : GuardFormat where
  canonical _ := []
  encode st := replicate (known.idxOf st) 0
  decode bytes := known[bytes.length]?
  decay purity := purity
  entropyOf _ := 0

lemma GuardFormat.table_keepsRecords (known : List GuardState) :
    (GuardFormat.table known).KeepsRecords := by
  intro st st' h
  have hget : known[known.idxOf st]? = some st' := by
    simpa [GuardFormat.table] using h
  obtain ⟨hlt, heq⟩ := List.getElem?_eq_some_iff.mp hget
  rw [getElem_idxOf] at heq
  rw [heq]
  exact ⟨rfl, rfl⟩

def Env.demo : Env where
  crypto := .demo
  handlers := .reject
  guardFormat := .table []
  tally := .heaviest

def Signer.demo (pk : PublicKeyBytes) : Signer := ⟨pk, fun msg => pk ++ msg⟩

def Node.demo (vals : List Validator) : Node :=
  .start (.new {} ⟨vals⟩ 2 (.ofNat 0) {} {} (some { lastModified := 0 })) ∅ (.empty _ _ _)

def Vote.demo (pk : PublicKeyBytes) (vt : VoteType) (round : Round) (id : Option Hash32) : Vote where
  voteType := vt
  height := 2
  round := round
  voter := pk
  blockId := id
  signature := pk ++ voteSignBytes vt 2 round id

def demoPk : PublicKeyBytes := replicate 32 1

def demoId : Hash32 :=
  ((runEvents .demo (.demo demoPk) (.demo [⟨demoPk, 1⟩])
    [({}, .tick 1 fun _ => [])]).state.proposal.map Proposal.blockId).getD (.ofNat 0)

def demoEvents : List (Io × Event) :=
  [({}, .tick 1 fun _ => []),
    ({}, .message (.vote (.demo demoPk .prevote 0 (some demoId)))),
    ({}, .message (.vote (.demo demoPk .precommit 0 (some demoId))))]

end Iona
