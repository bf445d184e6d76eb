import Iona.Lst
import Iona.Ibc.Transfer
import Iona.Lib.Monitor

/-!
# The thread-safe managers

`LstManager` and `Ics020Manager` as monitors of `Lib.Monitor`. Both refresh their metrics under the
lock, so `managers_refine_pools` is for calls that do not come that far.
-/

namespace Iona.Lst

variable {F : Type}

inductive Reply (F : Type) where
  | shares (result : Except (LstError F) ℕ)
  | iona (result : Except (LstError F) UInt64)
  | unit (result : Except (LstError F) Unit)
  | withdrawals (paid : List (String × UInt64))
  | seen (pool : LstPool F)

inductive ManagerCall (F : Type) where
  | operation (call : Call F)
  | query

variable [F64 F]

def LstPool.call (p : LstPool F) : Call F → Reply F × LstPool F
  | .stake staker ionaAmount config => (p.stake staker ionaAmount config).map .shares id
  | .requestUnstake staker shares currentHeight unbondingBlocks config =>
    (p.requestUnstake staker shares currentHeight unbondingBlocks config).map .iona id
  | .transfer src dst shares config => (p.transfer src dst shares config).map .unit id
  | .addRewards rewardIona => (p.addRewards rewardIona).map .unit id
  | .processWithdrawals currentHeight config =>
    (p.processWithdrawals currentHeight config).map .withdrawals id

def lstManager : Monitor (LstPool F) (ManagerCall F) (Reply F) where
  guards _ := [0]
  ordered _ := List.pairwise_singleton _ 0
  body
    | .operation call, p => p.call call
    | .query, p => (.seen p, p)
  later
    | .operation _, _ => [0]
    | .query, _ => []

end Iona.Lst

namespace Iona.Ics020

variable {F : Type}

inductive Reply (F : Type) where
  | opened (result : Except (Ics020Error F) ChannelId)
  | sent (result : Except (Ics020Error F) UInt64)
  | unit (result : Except (Ics020Error F) Unit)
  | pruned (count : ℕ)
  | seen (state : Ics020State F)
  | balance (amount : UInt64)

inductive ManagerCall (F : Type) where
  | operation (call : Call F)
  | query
  | balance (addr : String)

def ManagerCall.guards : ManagerCall F → List ℕ
  | .operation (.sendTransfer _ _ _ _ _ _ _) => [0, 1]
  | .operation (.receivePacket _ _) => [0, 1]
  | .operation (.timeoutPacket _) => [0, 1]
  | .operation _ => [0]
  | .query => [0]
  | .balance _ => [1]

lemma ManagerCall.guards_ordered (call : ManagerCall F) : call.guards.Pairwise (· < ·) := by
  unfold ManagerCall.guards
  split <;> decide

def Reply.refreshes : Reply F → List ℕ
  | .opened (.ok _) => [0]
  | .sent (.ok _) => [0]
  | .unit (.ok _) => [0]
  | _ => []

variable [F64 F]

def World.reply (w : World F) : Call F → Reply F × World F
  | .openChannel portId counterpartyChannel counterpartyPort clientId ordering =>
    (w.openChannel portId counterpartyChannel counterpartyPort clientId ordering).map .opened id
  | .sendTransfer channelId sender receiver denom amount timeoutHeight timeoutTimestamp =>
    (w.sendTransfer channelId sender receiver denom amount timeoutHeight timeoutTimestamp).map
      .sent id
  | .receivePacket packet minPacketFidelity =>
    (w.receivePacket packet minPacketFidelity).map .unit id
  | .timeoutPacket seq => (w.timeoutPacket seq).map .unit id
  | .acknowledgePacket seq => (w.acknowledgePacket seq).map .unit id
  | .pruneExpired currentHeight currentTimeS =>
    (w.pruneExpired currentHeight currentTimeS).map .pruned id

def ics020Manager : Monitor (World F) (ManagerCall F) (Reply F) where
  guards := ManagerCall.guards
  ordered := ManagerCall.guards_ordered
  body
    | .operation call, w => w.reply call
    | .query, w => (.seen w.toIcs020State, w)
    | .balance addr, w => (.balance (w.balanceOf addr), w)
  later _ reply := reply.refreshes

/-! ### Operations that do not come to the refresh -/

def Releasable (w : World F) (addr : String) (denom : Denom) (amount : UInt64) : Prop :=
  amount ≤ w.escrowOf denom ∧ (w.balanceOf addr).toNat + amount.toNat ≤ Machine.u64Max

def Refused (w : World F) : ManagerCall F → Prop
  | .operation (.openChannel _ _ _ _ _) => w.nextChannelSeq.toNat = Machine.u64Max
  | .operation (.sendTransfer channelId sender _ denom amount _ _) =>
    Passes w channelId sender amount →
      Machine.u64Max < (w.escrowOf denom).toNat + amount.toNat ∨
        w.sendSequence.toNat = Machine.u64Max
  | .operation (.receivePacket packet minPacketFidelity) =>
    World.validate packet = .ok () → F64.lt packet.coherence minPacketFidelity = false →
      ∀ amount, packet.amountU64 = .ok amount →
        if Text.startsWith "transfer/" packet.denom then
          ¬ Releasable w packet.receiver (Text.lastSegment '/' packet.denom) amount
        else
          Machine.u64Max < (w.vouchers.getD (World.voucherKey packet) 0).toNat + amount.toNat
  | .operation (.timeoutPacket seq) =>
    ∀ p ∈ w.inFlight[seq]?, ∀ amount, p.data.amountU64 = .ok amount →
      ¬ Releasable w p.data.sender p.data.denom amount
  | .operation (.acknowledgePacket seq) => w.inFlight[seq]? = none
  | _ => True

omit [F64 F] in
lemma release_refused {w : World F} {addr : String} {denom : Denom} {amount : UInt64}
    (h : ¬ Releasable w addr denom amount) : ∃ e, (w.release addr denom amount).1 = .error e := by
  have hspec := release_spec w addr denom amount
  generalize w.release addr denom amount = r at hspec ⊢
  cases hspec with
  | through bal hcover hbal =>
    refine absurd ⟨hcover, ?_⟩ h
    rw [← hbal]
    exact Machine.toNat_le bal
  | short e _ => exact ⟨e, rfl⟩
  | late e _ _ => exact ⟨e, rfl⟩

lemma leaves_of_refused {w : World F} {call : ManagerCall F} (h : Refused w call) :
    ics020Manager.Leaves w call := by
  cases call with
  | query => rfl
  | balance addr => rfl
  | operation call =>
    cases call with
    | openChannel portId cpChannel cpPort clientId ordering =>
      have hfull : Machine.checked (w.nextChannelSeq.toNat + 1) = none :=
        Machine.checked_eq_none_iff.mpr (Nat.lt_succ_of_le (Nat.le_of_eq h.symm))
      simp only [Monitor.Leaves, ics020Manager, World.reply, World.openChannel, hfull]
      rfl
    | sendTransfer channelId sender receiver denom amount height time =>
      have hspec := sendTransfer_spec w channelId sender receiver denom amount height time
      simp only [Monitor.Leaves, ics020Manager, World.reply]
      generalize w.sendTransfer channelId sender receiver denom amount height time = r at hspec
      cases hspec with
      | refused e _ => rfl
      | late e escrow _ _ => rfl
      | sent escrowed next packet hpass hescrow hnext _ =>
        have hescrowed := Machine.toNat_le escrowed
        have hsequence := Machine.toNat_le next
        rcases h hpass with hover | hover <;> omega
    | receivePacket packet fidelity =>
      simp only [Monitor.Leaves, ics020Manager, World.reply, World.receivePacket]
      split
      · rfl
      rename_i hvalid
      split
      · rfl
      rename_i hcoherent
      split
      · rfl
      rename_i amount hamount
      have hrefused := h hvalid (by simpa using hcoherent) amount hamount
      split
      · rename_i hnative
        rw [if_pos hnative] at hrefused
        obtain ⟨e, he⟩ := release_refused hrefused
        simp only [Prod.map, he]
        rfl
      · rename_i hforeign
        rw [if_neg hforeign] at hrefused
        rw [Machine.checked_eq_none_iff.mpr hrefused]
        rfl
    | timeoutPacket seq =>
      simp only [Monitor.Leaves, ics020Manager, World.reply, World.timeoutPacket]
      split
      · rfl
      rename_i packet hpacket
      split
      · rfl
      rename_i amount hamount
      obtain ⟨e, he⟩ := release_refused (w := w.remove seq) (h packet hpacket amount hamount)
      simp only [Prod.map, he]
      rfl
    | acknowledgePacket seq =>
      have hnone : w.inFlight[seq]? = none := h
      simp only [Monitor.Leaves, ics020Manager, World.reply, World.acknowledgePacket, hnone]
      rfl
    | pruneExpired height time => rfl

end Iona.Ics020

namespace Iona.Managers

open Monitor (Acts Refines System)

variable {F : Type} [F64 F]

/-- **The managers refine their pools as long as no operation refreshes the metrics**: the threads
of an `LstManager` only query it, and the state of an `Ics020Manager` refuses the operations it is
asked for. -/
theorem managers_refine_pools :
    (∀ (p : Lst.LstPool F) calls ts w,
      Trace.Along Lst.lstManager.step (Acts Lst.lstManager fun _ call => call = .query)
        (.start p calls) ts →
      Trace.run Lst.lstManager.step (.start p calls) ts = some w →
        Refines Lst.lstManager p calls ts.length w) ∧
    (∀ (s : Ics020.World F) calls ts w,
      Trace.Along Ics020.ics020Manager.step (Acts Ics020.ics020Manager Ics020.Refused)
        (.start s calls) ts →
      Trace.run Ics020.ics020Manager.step (.start s calls) ts = some w →
        Refines Ics020.ics020Manager s calls ts.length w) := by
  constructor
  · intro p calls ts w hqueries hrun
    refine Monitor.refines (hqueries.imp fun w t hact th hth call hcall => ?_) hrun
    rw [hact th hth call hcall]
    rfl
  · intro s calls ts w hrefused hrun
    refine Monitor.refines (hrefused.imp fun w t hact th hth call hcall => ?_) hrun
    exact Ics020.leaves_of_refused (hact th hth call hcall)

def actsTest {σ ο ρ : Type} (M : Monitor σ ο ρ) (test : σ → ο → Bool) (w : System σ ο ρ) (t : ℕ) :
    Bool :=
  w.threads[t]?.all fun th => (th.acting M).all (test w.state)

lemma along_acts {σ ο ρ : Type} {M : Monitor σ ο ρ} {test : σ → ο → Bool} {C : σ → ο → Prop}
    (htest : ∀ s o, test s o = true → C s o) {w : System σ ο ρ} {ts : List ℕ}
    (h : Trace.alongTest M.step (actsTest M test) w ts = true) :
    Trace.Along M.step (Acts M C) w ts := by
  refine Trace.along_of_alongTest (fun w t ht th hth o ho => htest w.state o ?_) h
  rw [actsTest, Option.mem_def.mp hth, Option.all_some, Option.mem_def.mp ho] at ht
  exact ht

def isQuery : Lst.ManagerCall ℚ → Bool
  | .query => true
  | .operation _ => false

lemma eq_query {call : Lst.ManagerCall ℚ} (h : isQuery call = true) : call = .query := by
  cases call with
  | query => rfl
  | operation call => cases h

def harmless (s : Ics020.World ℚ) : Ics020.ManagerCall ℚ → Bool
  | .operation (.acknowledgePacket seq) => s.inFlight[seq]?.isNone
  | .operation (.pruneExpired _ _) => true
  | .operation _ => false
  | .query => true
  | .balance _ => true

lemma refused_of_harmless {s : Ics020.World ℚ} {call : Ics020.ManagerCall ℚ}
    (h : harmless s call = true) : Ics020.Refused s call := by
  cases call with
  | query => trivial
  | balance addr => trivial
  | operation call =>
    cases call with
    | acknowledgePacket seq => exact Option.isNone_iff_eq_none.mp h
    | pruneExpired height time => trivial
    | _ => cases h

def twoThreads : System (Ics020.World ℚ) (Ics020.ManagerCall ℚ) (Ics020.Reply ℚ) :=
  .start (.start Ics020.alice)
    [[.operation (.acknowledgePacket 7), .balance "alice"], [.operation (.pruneExpired 1 1)]]

theorem managers_refine_two_threads :
    (∃ w, Trace.run Lst.lstManager.step (.start (Lst.LstPool.empty : Lst.LstPool ℚ)
        [[.query], [.query]]) [0, 0, 0, 1, 1, 1] = some w ∧
      Refines Lst.lstManager Lst.LstPool.empty [[.query], [.query]] 6 w) ∧
    (∃ w, Trace.run Ics020.ics020Manager.step twoThreads [0, 0, 0, 1, 0, 1, 0, 1, 0] = some w ∧
      Refines Ics020.ics020Manager (.start Ics020.alice)
        [[.operation (.acknowledgePacket 7), .balance "alice"], [.operation (.pruneExpired 1 1)]]
        9 w) := by
  have hlst : Trace.Along Lst.lstManager.step (Acts Lst.lstManager fun _ call => call = .query)
      (.start (Lst.LstPool.empty : Lst.LstPool ℚ) [[.query], [.query]]) [0, 0, 0, 1, 1, 1] :=
    along_acts (fun _ _ h => eq_query h) (by decide +kernel)
  have hics : Trace.Along Ics020.ics020Manager.step (Acts Ics020.ics020Manager Ics020.Refused)
      twoThreads [0, 0, 0, 1, 0, 1, 0, 1, 0] :=
    along_acts (fun _ _ => refused_of_harmless) (by decide +kernel)
  exact ⟨⟨_, rfl, managers_refine_pools.1 _ _ _ _ hlst rfl⟩,
    ⟨_, rfl, managers_refine_pools.2 _ _ _ _ hics rfl⟩⟩

/-- **A single `stake` never returns**, and neither does a single `open_channel` that succeeds: the
thread has the mutex and waits for it. -/
theorem operation_locks_itself :
    (∃ w, Trace.run Lst.lstManager.step (.start (Lst.LstPool.empty : Lst.LstPool ℚ)
        [[.operation (.stake "alice" 1000 Lst.calm)]]) [0, 0] = some w ∧
      (∀ t, Lst.lstManager.step w t = none) ∧ ∃ th ∈ w.threads, th.todo ≠ []) ∧
    (∃ w, Trace.run Ics020.ics020Manager.step (.start (Ics020.World.start Ics020.alice : Ics020.World ℚ)
        [[.operation (.openChannel "transfer" "channel-0" "transfer" "07-iona-0" .unordered)]])
        [0, 0] = some w ∧
      (∀ t, Ics020.ics020Manager.step w t = none) ∧ ∃ th ∈ w.threads, th.todo ≠ []) := by
  refine ⟨⟨_, rfl, fun t => ?_, _, List.mem_singleton_self _, List.cons_ne_nil _ _⟩,
    ⟨_, rfl, fun t => ?_, _, List.mem_singleton_self _, List.cons_ne_nil _ _⟩⟩
  all_goals
    cases t with
    | zero => rfl
    | succ t => rfl

end Iona.Managers
