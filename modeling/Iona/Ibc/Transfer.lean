import Iona.Ibc.LightClient

/-!
# Token transfers between chains

`Ics020State` of `ics020.rs` with the balances it works on.

## Main results

* `packets_settle_once`: a packet is acknowledged or refunded, and once.
* `call_atomic_iff`: when a call moves the whole amount or nothing.
-/

namespace Iona.Ics020

open Std (ExtTreeMap LawfulEqOrd ReflCmp)
open Machine MapSum Trace
open Ibc (IbcHeight ClientId)

abbrev ChannelId := String

abbrev PortId := String

abbrev Denom := String

inductive ChannelState where
  | init | tryOpen | open_ | closed
  deriving DecidableEq

inductive ChannelOrdering where
  | unordered | ordered
  deriving DecidableEq

structure Channel where
  channelId : ChannelId
  portId : PortId
  counterpartyChannel : ChannelId
  counterpartyPort : PortId
  clientId : ClientId
  state : ChannelState
  ordering : ChannelOrdering
  deriving DecidableEq

variable {F : Type}

structure FungibleTokenPacket (F : Type) where
  denom : Denom
  amount : String
  sender : String
  receiver : String
  memo : String
  coherence : F
  deriving DecidableEq

structure Packet (F : Type) where
  sequence : UInt64
  sourcePort : PortId
  sourceChannel : ChannelId
  destinationPort : PortId
  destinationChannel : ChannelId
  data : FungibleTokenPacket F
  timeoutHeight : Option IbcHeight
  timeoutTimestamp : UInt64
  deriving DecidableEq

inductive Ics020Error (F : Type) where
  | channelNotFound (id : ChannelId)
  | channelNotOpen (state : ChannelState)
  | insufficientBalance (have_ need : UInt64)
  | packetNotFound (seq : UInt64)
  | decoherence (fidelity threshold : F)
  | invalidPacket (msg : String)
  | integerOverflow
  deriving DecidableEq

structure Ics020State (F : Type) where
  channels : BTreeMap ChannelId Channel := ∅
  escrow : BTreeMap Denom UInt64 := ∅
  inFlight : BTreeMap UInt64 (Packet F) := ∅
  sendSequence : UInt64 := 0
  vouchers : BTreeMap (Denom × String) UInt64 := ∅
  nextChannelSeq : UInt64 := 0

structure World (F : Type) extends Ics020State F where
  balances : BTreeMap String UInt64

def FungibleTokenPacket.amountU64 (packet : FungibleTokenPacket F) : Except String UInt64 :=
  match Text.parseUnsigned u64Max packet.amount with
  | none => .error "invalid amount"
  | some n => .ok (.ofNat n)

def Packet.isExpired (p : Packet F) (currentHeight currentTimeS : UInt64) : Bool :=
  p.timeoutHeight.any (fun h => currentHeight ≥ h.revisionHeight) ||
    (decide (p.timeoutTimestamp > 0) && decide (currentTimeS > p.timeoutTimestamp))

/-! ### The calls -/

namespace World

def balanceOf (w : World F) (addr : String) : UInt64 := w.balances.getD addr 0

def escrowOf (w : World F) (denom : Denom) : UInt64 := w.escrow.getD denom 0

def openChannel (w : World F) (portId : PortId) (counterpartyChannel : ChannelId)
    (counterpartyPort : PortId) (clientId : ClientId) (ordering : ChannelOrdering) :
    Except (Ics020Error F) ChannelId × World F :=
  let channelId := "channel-" ++ toString w.nextChannelSeq.toNat
  match checked (w.nextChannelSeq.toNat + 1) with
  | none => (.error .integerOverflow, w)
  | some next => (.ok channelId,
    { w with
      nextChannelSeq := next
      channels := w.channels.insert channelId
        { channelId, portId, counterpartyChannel, counterpartyPort, clientId
          state := .open_, ordering } })

def remove (w : World F) (seq : UInt64) : World F := { w with inFlight := w.inFlight.erase seq }

def acknowledgePacket (w : World F) (seq : UInt64) : Except (Ics020Error F) Unit × World F :=
  if (w.inFlight[seq]?).isSome then (.ok (), w.remove seq)
  else (.error (.packetNotFound seq), w)

def release (w : World F) (addr : String) (denom : Denom) (amount : UInt64) :
    Except (Ics020Error F) Unit × World F :=
  let escrowed := w.escrowOf denom
  if escrowed < amount then (.error (.insufficientBalance escrowed amount), w)
  else
    let w := { w with escrow := w.escrow.insert denom (escrowed - amount) }
    match checked ((w.balanceOf addr).toNat + amount.toNat) with
    | none => (.error .integerOverflow, w)
    | some bal => (.ok (), { w with balances := w.balances.insert addr bal })

def timeoutPacket (w : World F) (seq : UInt64) : Except (Ics020Error F) Unit × World F :=
  match w.inFlight[seq]? with
  | none => (.error (.packetNotFound seq), w)
  | some packet =>
    match packet.data.amountU64 with
    | .error msg => (.error (.invalidPacket msg), w.remove seq)
    | .ok amount => (w.remove seq).release packet.data.sender packet.data.denom amount

def pruneExpired (w : World F) (currentHeight currentTimeS : UInt64) : ℕ × World F :=
  let expired :=
    (w.inFlight.toList.filter fun e => e.2.isExpired currentHeight currentTimeS).map (·.1)
  (expired.length,
    { w with inFlight := expired.foldl (fun inFlight seq => inFlight.erase seq) w.inFlight })

variable [F64 F]

def newPacket (denom : Denom) (amount : UInt64) (sender receiver memo : String) :
    FungibleTokenPacket F where
  denom := denom
  amount := toString amount.toNat
  sender := sender
  receiver := receiver
  memo := memo
  coherence := F64.lit 1

def lock (w : World F) (channelId : ChannelId) (channel : Channel) (sender receiver : String)
    (denom : Denom) (amount : UInt64) (timeoutHeight : Option IbcHeight)
    (timeoutTimestamp : UInt64) : Except (Ics020Error F) UInt64 × World F :=
  match checked ((w.escrowOf denom).toNat + amount.toNat) with
  | none => (.error .integerOverflow, w)
  | some escrowed =>
    let w := { w with escrow := w.escrow.insert denom escrowed }
    match checked (w.sendSequence.toNat + 1) with
    | none => (.error .integerOverflow, w)
    | some next => (.ok w.sendSequence,
      { w with
        sendSequence := next
        inFlight := w.inFlight.insert w.sendSequence
          { sequence := w.sendSequence
            sourcePort := channel.portId
            sourceChannel := channelId
            destinationPort := channel.counterpartyPort
            destinationChannel := channel.counterpartyChannel
            data := newPacket denom amount sender receiver ""
            timeoutHeight
            timeoutTimestamp } })

def sendTransfer (w : World F) (channelId : ChannelId) (sender receiver : String) (denom : Denom)
    (amount : UInt64) (timeoutHeight : Option IbcHeight) (timeoutTimestamp : UInt64) :
    Except (Ics020Error F) UInt64 × World F :=
  match w.channels[channelId]? with
  | none => (.error (.channelNotFound channelId), w)
  | some channel =>
    let bal := w.balanceOf sender
    if channel.state ≠ .open_ then (.error (.channelNotOpen channel.state), w)
    else if amount = 0 then (.error (.invalidPacket "amount must be > 0"), w)
    else if bal < amount then (.error (.insufficientBalance bal amount), w)
    else
      lock { w with balances := w.balances.insert sender (bal - amount) } channelId channel sender
        receiver denom amount timeoutHeight timeoutTimestamp

def validate (packet : FungibleTokenPacket F) : Except String Unit :=
  if packet.denom.isEmpty then .error "denom cannot be empty"
  else if packet.sender.isEmpty then .error "sender cannot be empty"
  else if packet.receiver.isEmpty then .error "receiver cannot be empty"
  else match Text.parseUnsigned u64Max packet.amount with
    | none => .error "amount must be a valid u64"
    | some amount =>
      if amount = 0 then .error "amount must be > 0"
      else if F64.lt packet.coherence (F64.lit 0) || F64.lt (F64.lit 1) packet.coherence then
        .error "coherence must be between 0.0 and 1.0"
      else .ok ()

def voucherKey (packet : FungibleTokenPacket F) : Denom × String :=
  ("transfer/" ++ packet.denom, packet.receiver)

def receivePacket (w : World F) (packet : FungibleTokenPacket F) (minPacketFidelity : F) :
    Except (Ics020Error F) Unit × World F :=
  match validate packet with
  | .error msg => (.error (.invalidPacket msg), w)
  | .ok () =>
    if F64.lt packet.coherence minPacketFidelity then
      (.error (.decoherence packet.coherence minPacketFidelity), w)
    else match packet.amountU64 with
      | .error msg => (.error (.invalidPacket msg), w)
      | .ok amount =>
        if Text.startsWith "transfer/" packet.denom then
          w.release packet.receiver (Text.lastSegment '/' packet.denom) amount
        else
          match checked ((w.vouchers.getD (voucherKey packet) 0).toNat + amount.toNat) with
          | none => (.error .integerOverflow, w)
          | some n => (.ok (), { w with vouchers := w.vouchers.insert (voucherKey packet) n })

end World

/-! ### Calls as a machine -/

inductive Call (F : Type) where
  | openChannel (portId : PortId) (counterpartyChannel : ChannelId) (counterpartyPort : PortId)
      (clientId : ClientId) (ordering : ChannelOrdering)
  | sendTransfer (channelId : ChannelId) (sender receiver : String) (denom : Denom)
      (amount : UInt64) (timeoutHeight : Option IbcHeight) (timeoutTimestamp : UInt64)
  | receivePacket (packet : FungibleTokenPacket F) (minPacketFidelity : F)
  | timeoutPacket (seq : UInt64)
  | acknowledgePacket (seq : UInt64)
  | pruneExpired (currentHeight currentTimeS : UInt64)

def forget {ε α σ : Type} (r : Except ε α × σ) : Except ε Unit × σ := (r.1.map fun _ => (), r.2)

variable [F64 F]

def World.call (w : World F) : Call F → Except (Ics020Error F) Unit × World F
  | .openChannel portId counterpartyChannel counterpartyPort clientId ordering =>
    forget (w.openChannel portId counterpartyChannel counterpartyPort clientId ordering)
  | .sendTransfer channelId sender receiver denom amount timeoutHeight timeoutTimestamp =>
    forget (w.sendTransfer channelId sender receiver denom amount timeoutHeight timeoutTimestamp)
  | .receivePacket packet minPacketFidelity => w.receivePacket packet minPacketFidelity
  | .timeoutPacket seq => w.timeoutPacket seq
  | .acknowledgePacket seq => w.acknowledgePacket seq
  | .pruneExpired currentHeight currentTimeS =>
    (.ok (), (w.pruneExpired currentHeight currentTimeS).2)

def World.step (w : World F) (call : Call F) : Option (World F) := some (w.call call).2

def World.start (balances : BTreeMap String UInt64) : World F := { balances := balances }

/-! ### What each call does -/

inductive Released (w : World F) (addr : String) (denom : Denom) (amount : UInt64) :
    Except (Ics020Error F) Unit × World F → Prop
  | through (bal : UInt64) (hcover : amount ≤ w.escrowOf denom)
      (hbal : bal.toNat = (w.balanceOf addr).toNat + amount.toNat) :
      Released w addr denom amount (.ok (),
        { w with
          escrow := w.escrow.insert denom (w.escrowOf denom - amount)
          balances := w.balances.insert addr bal })
  | short (e : Ics020Error F) (hshort : w.escrowOf denom < amount) :
      Released w addr denom amount (.error e, w)
  | late (e : Ics020Error F) (hcover : amount ≤ w.escrowOf denom)
      (hover : u64Max < (w.balanceOf addr).toNat + amount.toNat) :
      Released w addr denom amount (.error e,
        { w with escrow := w.escrow.insert denom (w.escrowOf denom - amount) })

variable {w : World F} {amount seq : UInt64} {p : Packet F}

omit [F64 F] in
lemma release_spec (w : World F) (addr : String) (denom : Denom) (amount : UInt64) :
    Released w addr denom amount (w.release addr denom amount) := by
  unfold World.release
  simp only
  split
  · rename_i hshort
    exact .short _ hshort
  · rename_i hcover
    split
    · rename_i hchecked
      exact .late _ (UInt64.not_lt.mp hcover) (checked_eq_none_iff.mp hchecked)
    · rename_i bal hchecked
      exact .through bal (UInt64.not_lt.mp hcover) (checked_eq_some_iff.mp hchecked)

def Passes (w : World F) (channelId : ChannelId) (sender : String) (amount : UInt64) : Prop :=
  (∃ channel ∈ w.channels[channelId]?, channel.state = .open_) ∧ amount ≠ 0 ∧
    amount ≤ w.balanceOf sender

inductive SentOutcome (w : World F) (channelId : ChannelId) (sender : String) (denom : Denom)
    (amount : UInt64) : Except (Ics020Error F) UInt64 × World F → Prop
  | refused (e : Ics020Error F) (h : ¬ Passes w channelId sender amount) :
      SentOutcome w channelId sender denom amount (.error e, w)
  | late (e : Ics020Error F) (escrow : BTreeMap Denom UInt64)
      (h : Passes w channelId sender amount)
      (hover : u64Max < (w.escrowOf denom).toNat + amount.toNat ∨
        w.sendSequence.toNat = u64Max) :
      SentOutcome w channelId sender denom amount (.error e,
        { w with
          balances := w.balances.insert sender (w.balanceOf sender - amount)
          escrow := escrow })
  | sent (escrowed next : UInt64) (packet : Packet F) (h : Passes w channelId sender amount)
      (hescrow : escrowed.toNat = (w.escrowOf denom).toNat + amount.toNat)
      (hnext : next.toNat = w.sendSequence.toNat + 1)
      (hamount : packet.data.amount = toString amount.toNat) :
      SentOutcome w channelId sender denom amount (.ok w.sendSequence,
        { w with
          balances := w.balances.insert sender (w.balanceOf sender - amount)
          escrow := w.escrow.insert denom escrowed
          sendSequence := next
          inFlight := w.inFlight.insert w.sendSequence packet })

lemma sendTransfer_spec (w : World F) (channelId : ChannelId) (sender receiver : String)
    (denom : Denom) (amount : UInt64) (timeoutHeight : Option IbcHeight)
    (timeoutTimestamp : UInt64) :
    SentOutcome w channelId sender denom amount (w.sendTransfer channelId sender receiver denom
      amount timeoutHeight timeoutTimestamp) := by
  unfold World.sendTransfer
  cases hchannel : w.channels[channelId]? with
  | none =>
    refine .refused _ fun hpass => ?_
    obtain ⟨⟨channel, hmem, -⟩, -⟩ := hpass
    rw [hchannel] at hmem
    cases hmem
  | some channel =>
    simp only
    split
    · rename_i hstate
      refine .refused _ fun hpass => hstate ?_
      obtain ⟨⟨channel', hmem, hopen⟩, -⟩ := hpass
      rw [hchannel] at hmem
      cases hmem
      exact hopen
    rename_i hstate
    split
    · rename_i hzero
      exact .refused _ fun hpass => hpass.2.1 hzero
    rename_i hzero
    split
    · rename_i hshort
      exact .refused _ fun hpass => UInt64.not_lt.mpr hpass.2.2 hshort
    rename_i hcover
    have hpass : Passes w channelId sender amount :=
      ⟨⟨channel, hchannel, not_not.mp hstate⟩, hzero, UInt64.not_lt.mp hcover⟩
    unfold World.lock
    split
    · rename_i hescrow
      exact .late _ w.escrow hpass (.inl (checked_eq_none_iff.mp hescrow))
    · rename_i escrowed hescrow
      simp only
      split
      · rename_i hseq
        refine .late _ _ hpass (.inr ?_)
        have hmax := toNat_le w.sendSequence
        have hfull := checked_eq_none_iff.mp hseq
        omega
      · rename_i next hseq
        exact .sent escrowed next _ hpass (checked_eq_some_iff.mp hescrow)
          (checked_eq_some_iff.mp hseq) rfl

omit [F64 F] in
lemma getElem?_pruneExpired (w : World F) (currentHeight currentTimeS : UInt64) (seq : UInt64) :
    (w.pruneExpired currentHeight currentTimeS).2.inFlight[seq]? =
      (w.inFlight[seq]?).filter fun p => !p.isExpired currentHeight currentTimeS := by
  unfold World.pruneExpired
  rw [MapDiff.getElem?_eraseAll]
  have hmem : seq ∈ (w.inFlight.toList.filter
      fun e => e.2.isExpired currentHeight currentTimeS).map (·.1) ↔
        ∃ p, w.inFlight[seq]? = some p ∧ p.isExpired currentHeight currentTimeS = true := by
    simp only [List.mem_map, List.mem_filter]
    constructor
    · rintro ⟨e, ⟨hfound, hexp⟩, rfl⟩
      exact ⟨e.2, ExtTreeMap.mem_toList_iff_getElem?_eq_some.mp hfound, hexp⟩
    · rintro ⟨p, hfound, hexp⟩
      exact ⟨(seq, p), ⟨ExtTreeMap.mem_toList_iff_getElem?_eq_some.mpr hfound, hexp⟩, rfl⟩
  split
  · rename_i hin
    obtain ⟨p, hp, hexp⟩ := hmem.mp hin
    simp [Option.filter, hp, hexp]
  · rename_i hout
    cases hp : w.inFlight[seq]? with
    | none => rfl
    | some p =>
      have hlive : p.isExpired currentHeight currentTimeS = false := by
        by_contra hexp
        exact hout (hmem.mpr ⟨p, hp, by simpa using hexp⟩)
      simp [Option.filter, hlive]

omit [F64 F] in
lemma release_frame (w : World F) (addr : String) (denom : Denom) (amount : UInt64) :
    (w.release addr denom amount).2.inFlight = w.inFlight ∧
      (w.release addr denom amount).2.sendSequence = w.sendSequence ∧
      (w.release addr denom amount).2.vouchers = w.vouchers := by
  have hspec := release_spec w addr denom amount
  generalize w.release addr denom amount = r at hspec ⊢
  cases hspec <;> exact ⟨rfl, rfl, rfl⟩

/-! ### Packets in flight -/

structure World.Sent (w : World F) : Prop where
  used : ∀ (seq : UInt64) p, w.inFlight[seq]? = some p → seq.toNat < w.sendSequence.toNat
  readable : ∀ (seq : UInt64) p, w.inFlight[seq]? = some p →
    ∃ amount, p.data.amountU64 = .ok amount

omit [F64 F] in
lemma amountU64_toString {data : FungibleTokenPacket F} (h : data.amount = toString amount.toNat) :
    data.amountU64 = .ok amount := by
  rw [FungibleTokenPacket.amountU64, h, Text.parseUnsigned_toString (toNat_le amount)]
  exact congrArg _ (UInt64.ofNat_toNat)

inductive Flight (w : World F) : Call F → World F → Prop
  | same {call w'} (hflight : w'.inFlight = w.inFlight) (hseq : w'.sendSequence = w.sendSequence) :
    Flight w call w'
  | sent {call w'} (packet : Packet F) (amount : UInt64)
      (hflight : w'.inFlight = w.inFlight.insert w.sendSequence packet)
      (hseq : w'.sendSequence.toNat = w.sendSequence.toNat + 1)
      (hamount : packet.data.amountU64 = .ok amount) : Flight w call w'
  | left {call w'} (seq : UInt64) (hcall : call = .acknowledgePacket seq ∨ call = .timeoutPacket seq)
      (hflight : w'.inFlight = w.inFlight.erase seq) (hseq : w'.sendSequence = w.sendSequence) :
    Flight w call w'
  | pruned {w'} (height time : UInt64)
      (hflight : ∀ seq : UInt64, w'.inFlight[seq]? =
        w.inFlight[seq]?.filter fun p => !p.isExpired height time)
      (hseq : w'.sendSequence = w.sendSequence) : Flight w (.pruneExpired height time) w'

lemma call_flight (w : World F) (call : Call F) : Flight w call (w.call call).2 := by
  cases call with
  | openChannel portId cpChannel cpPort clientId ordering =>
    simp only [World.call, forget, World.openChannel]
    split <;> exact .same rfl rfl
  | sendTransfer channelId sender receiver denom amount height time =>
    have hspec := sendTransfer_spec w channelId sender receiver denom amount height time
    simp only [World.call, forget]
    generalize w.sendTransfer channelId sender receiver denom amount height time = r at hspec ⊢
    cases hspec with
    | refused e _ => exact .same rfl rfl
    | late e escrow _ _ => exact .same rfl rfl
    | sent escrowed next packet _ _ hnext hamount =>
      exact .sent packet amount rfl hnext (amountU64_toString hamount)
  | receivePacket packet fidelity =>
    simp only [World.call, World.receivePacket]
    split
    · exact .same rfl rfl
    split
    · exact .same rfl rfl
    split
    · exact .same rfl rfl
    rename_i amount _
    split
    · obtain ⟨hflight, hseq, -⟩ :=
        release_frame w packet.receiver (Text.lastSegment '/' packet.denom) amount
      exact .same hflight hseq
    · split <;> exact .same rfl rfl
  | timeoutPacket seq =>
    simp only [World.call, World.timeoutPacket]
    split
    · exact .same rfl rfl
    rename_i packet _
    split
    · exact .left seq (.inr rfl) rfl rfl
    · rename_i amount _
      obtain ⟨hflight, hseq, -⟩ :=
        release_frame (w.remove seq) packet.data.sender packet.data.denom amount
      exact .left seq (.inr rfl) hflight hseq
  | acknowledgePacket seq =>
    simp only [World.call, World.acknowledgePacket]
    split
    · exact .left seq (.inl rfl) rfl rfl
    · exact .same rfl rfl
  | pruneExpired height time =>
    exact .pruned height time (getElem?_pruneExpired w height time) rfl

lemma call_grows (w : World F) (call : Call F) :
    ((∀ (seq : UInt64) p, (w.call call).2.inFlight[seq]? = some p → w.inFlight[seq]? = some p) ∧
      (w.call call).2.sendSequence = w.sendSequence) ∨
    ∃ (packet : Packet F) (amount : UInt64),
      (w.call call).2.inFlight = w.inFlight.insert w.sendSequence packet ∧
      (w.call call).2.sendSequence.toNat = w.sendSequence.toNat + 1 ∧
      packet.data.amountU64 = .ok amount := by
  have hstep := call_flight w call
  generalize (w.call call).2 = w' at hstep ⊢
  cases hstep with
  | same hflight hseq => exact .inl ⟨fun _ _ hp => hflight ▸ hp, hseq⟩
  | sent packet amount hflight hseq hamount => exact .inr ⟨packet, amount, hflight, hseq, hamount⟩
  | left seq' _ hflight hseq =>
    refine .inl ⟨fun seq p hp => ?_, hseq⟩
    rw [hflight, getElem?_erase_ite] at hp
    split at hp
    · cases hp
    · exact hp
  | pruned height time hflight hseq =>
    refine .inl ⟨fun seq p hp => ?_, hseq⟩
    rw [hflight] at hp
    exact (Option.filter_eq_some_iff.mp hp).1

lemma call_sent (h : w.Sent) (call : Call F) : (w.call call).2.Sent := by
  obtain ⟨hsub, hseq⟩ | ⟨packet, amount, hflight, hseq, hamount⟩ := call_grows w call
  · refine ⟨fun seq p hp => ?_, fun seq p hp => h.readable seq p (hsub seq p hp)⟩
    rw [hseq]
    exact h.used seq p (hsub seq p hp)
  · refine ⟨fun seq p hp => ?_, fun seq p hp => ?_⟩
    · rw [hflight] at hp
      rcases getElem?_insert_eq_some_iff.mp hp with ⟨rfl, -⟩ | ⟨-, hp⟩
      · omega
      · have := h.used seq p hp
        omega
    · rw [hflight] at hp
      rcases getElem?_insert_eq_some_iff.mp hp with ⟨-, rfl⟩ | ⟨-, hp⟩
      · exact ⟨amount, hamount⟩
      · exact h.readable seq p hp

omit [F64 F] in
lemma sent_start (balances : BTreeMap String UInt64) : (World.start balances : World F).Sent := by
  refine ⟨fun seq p hp => ?_, fun seq p hp => ?_⟩ <;> simp [World.start] at hp

/-! ### Failed calls and the supply -/

def World.supply (w : World F) : ℕ :=
  sumBy UInt64.toNat w.balances + sumBy UInt64.toNat w.escrow

structure Kept (w w' : World F) : Prop where
  escrow_eq : w'.escrow = w.escrow
  inFlight_eq : w'.inFlight = w.inFlight
  vouchers_eq : w'.vouchers = w.vouchers
  sequence_eq : w'.sendSequence = w.sendSequence
  balances_eq : w'.balances = w.balances

def Atomic (w : World F) (r : Except (Ics020Error F) Unit × World F) : Prop :=
  (∀ e, r.1 = .error e → Kept w r.2) ∧ (r.1 = .ok () → r.2.supply = w.supply)

def NativeReturn (packet : FungibleTokenPacket F) (minPacketFidelity : F) (amount : UInt64) : Prop :=
  World.validate packet = .ok () ∧ F64.lt packet.coherence minPacketFidelity = false ∧
    packet.amountU64 = .ok amount ∧ Text.startsWith "transfer/" packet.denom = true

def Refundable (w : World F) (data : FungibleTokenPacket F) : Prop :=
  ∀ amount, data.amountU64 = .ok amount →
    amount ≤ w.escrowOf data.denom ∧
      (w.balanceOf data.sender).toNat + amount.toNat ≤ u64Max

instance decidableRefundable (w : World F) (data : FungibleTokenPacket F) :
    Decidable (Refundable w data) :=
  match h : data.amountU64 with
  | .error _ => isTrue fun amount hamount => (by rw [h] at hamount; cases hamount)
  | .ok amount => decidable_of_iff (amount ≤ w.escrowOf data.denom ∧
      (w.balanceOf data.sender).toNat + amount.toNat ≤ u64Max) (by simp [Refundable, h])

def OnTime (w : World F) : Call F → Prop
  | .sendTransfer channelId sender _ denom amount _ _ =>
    Passes w channelId sender amount →
      (w.escrowOf denom).toNat + amount.toNat ≤ u64Max ∧
        w.sendSequence.toNat < u64Max
  | .receivePacket packet minPacketFidelity =>
    ∀ amount, NativeReturn packet minPacketFidelity amount →
      amount ≤ w.escrowOf (Text.lastSegment '/' packet.denom) →
        (w.balanceOf packet.receiver).toNat + amount.toNat ≤ u64Max
  | .timeoutPacket seq => ∀ p ∈ w.inFlight[seq]?, Refundable w p.data
  | _ => True

section Atomic

variable {w : World F}

omit [F64 F]

variable {addr : String} {denom : Denom}

lemma atomic_same (e : Ics020Error F) : Atomic w (.error e, w) :=
  ⟨fun _ _ => ⟨rfl, rfl, rfl, rfl, rfl⟩, fun h => by cases h⟩

lemma atomic_ok {w' : World F} (h : w'.supply = w.supply) : Atomic w (.ok (), w') :=
  ⟨fun _ h => (by cases h), fun _ => h⟩

lemma total_insert {κ : Type} [Ord κ] [Std.TransOrd κ] [LawfulEqOrd κ] (m : BTreeMap κ UInt64)
    (k : κ) (v : UInt64) :
    sumBy UInt64.toNat (m.insert k v) + (m.getD k 0).toNat =
      sumBy UInt64.toNat m + v.toNat :=
  sumBy_insert_getD _ m k v rfl

lemma supply_move {balances : BTreeMap String UInt64} {escrow : BTreeMap Denom UInt64}
    {bal escrowed : UInt64}
    (h : bal.toNat + escrowed.toNat = (balances.getD addr 0).toNat + (escrow.getD denom 0).toNat) :
    sumBy UInt64.toNat (balances.insert addr bal) +
        sumBy UInt64.toNat (escrow.insert denom escrowed) =
      sumBy UInt64.toNat balances + sumBy UInt64.toNat escrow := by
  have hbal := total_insert balances addr bal
  have hesc := total_insert escrow denom escrowed
  omega

lemma insert_ne {κ : Type} [Ord κ] [Std.TransOrd κ] [LawfulEqOrd κ] {m : BTreeMap κ UInt64} {k : κ}
    {v : UInt64} (h : v ≠ m.getD k 0) : m.insert k v ≠ m := by
  intro heq
  refine h ?_
  rw [← heq, ExtTreeMap.getD_insert_self]

lemma sub_ne {a : UInt64} (hle : amount ≤ a) (hpos : amount ≠ 0) : a - amount ≠ a := by
  intro heq
  have hsub := UInt64.toNat_sub_of_le a amount hle
  have hle' := UInt64.le_iff_toNat_le.mp hle
  have hpos' : amount.toNat ≠ 0 := fun h => hpos (UInt64.toNat_inj.mp h)
  rw [heq] at hsub
  omega

lemma release_supply {bal : UInt64} (hcover : amount ≤ w.escrowOf denom)
    (hbal : bal.toNat = (w.balanceOf addr).toNat + amount.toNat) :
    sumBy UInt64.toNat (w.balances.insert addr bal) +
        sumBy UInt64.toNat (w.escrow.insert denom (w.escrowOf denom - amount)) =
      w.supply := by
  refine supply_move ?_
  have hle := UInt64.le_iff_toNat_le.mp hcover
  rw [UInt64.toNat_sub_of_le _ _ hcover, hbal]
  change (w.balanceOf addr).toNat + amount.toNat + ((w.escrowOf denom).toNat - amount.toNat) =
    (w.balanceOf addr).toNat + (w.escrowOf denom).toNat
  omega

lemma release_atomic_iff (hpos : amount ≠ 0) :
    Atomic w (w.release addr denom amount) ↔ (amount ≤ w.escrowOf denom →
      (w.balanceOf addr).toNat + amount.toNat ≤ u64Max) := by
  have hspec := release_spec w addr denom amount
  generalize w.release addr denom amount = r at hspec ⊢
  cases hspec with
  | through bal hcover hbal =>
    refine iff_of_true (atomic_ok (release_supply hcover hbal)) fun _ => ?_
    rw [← hbal]
    exact toNat_le bal
  | short e hshort =>
    exact iff_of_true (atomic_same e) fun hcover => absurd hshort (UInt64.not_lt.mpr hcover)
  | late e hcover hover =>
    refine iff_of_false (fun h => ?_) fun h => absurd (h hcover) (Nat.not_le.mpr hover)
    exact insert_ne (sub_ne hcover hpos) (h.1 e rfl).escrow_eq

end Atomic

lemma send_atomic_iff (w : World F) (channelId : ChannelId) (sender receiver : String)
    (denom : Denom) (amount : UInt64) (timeoutHeight : Option IbcHeight)
    (timeoutTimestamp : UInt64) :
    Atomic w (forget (w.sendTransfer channelId sender receiver denom amount timeoutHeight
      timeoutTimestamp)) ↔
      (Passes w channelId sender amount →
        (w.escrowOf denom).toNat + amount.toNat ≤ u64Max ∧
          w.sendSequence.toNat < u64Max) := by
  have hspec :=
    sendTransfer_spec w channelId sender receiver denom amount timeoutHeight timeoutTimestamp
  generalize w.sendTransfer channelId sender receiver denom amount timeoutHeight
    timeoutTimestamp = r at hspec ⊢
  cases hspec with
  | refused e hpass => exact iff_of_true (atomic_same e) fun h => absurd h hpass
  | late e escrow hpass hover =>
    refine iff_of_false (fun h => ?_) fun h => ?_
    · -- the balance of the sender is already lower
      exact insert_ne (sub_ne hpass.2.2 hpass.2.1) (h.1 e rfl).balances_eq
    · obtain ⟨hescrow, hseq⟩ := h hpass
      omega
  | sent escrowed next packet hpass hescrow hnext hamount =>
    have hcover := UInt64.le_iff_toNat_le.mp hpass.2.2
    refine iff_of_true (atomic_ok (supply_move ?_)) fun _ => ?_
    · rw [UInt64.toNat_sub_of_le _ _ hpass.2.2, hescrow]
      change (w.balanceOf sender).toNat - amount.toNat +
        ((w.escrowOf denom).toNat + amount.toNat) =
          (w.balanceOf sender).toNat + (w.escrowOf denom).toNat
      omega
    · have hmax := toNat_le escrowed
      have hmax' := toNat_le next
      omega

lemma amountU64_ne_zero {packet : FungibleTokenPacket F} (hvalid : World.validate packet = .ok ())
    (hamount : packet.amountU64 = .ok amount) : amount ≠ 0 := by
  unfold World.validate at hvalid
  unfold FungibleTokenPacket.amountU64 at hamount
  split at hvalid
  · cases hvalid
  split at hvalid
  · cases hvalid
  split at hvalid
  · cases hvalid
  cases hparse : Text.parseUnsigned u64Max packet.amount with
  | none =>
    rw [hparse] at hamount
    cases hamount
  | some n =>
    rw [hparse] at hvalid hamount
    cases hamount
    simp only at hvalid
    split at hvalid
    · cases hvalid
    rename_i hpos
    have hle : n ≤ u64Max := by
      have := (Option.filter_eq_some_iff.mp hparse).2
      simpa using this
    intro hzero
    refine hpos ?_
    rw [← toNat_ofNat hle, hzero]
    rfl

lemma receive_atomic_iff (w : World F) (packet : FungibleTokenPacket F) (minPacketFidelity : F) :
    Atomic w (w.receivePacket packet minPacketFidelity) ↔
      ∀ amount, NativeReturn packet minPacketFidelity amount →
        amount ≤ w.escrowOf (Text.lastSegment '/' packet.denom) →
          (w.balanceOf packet.receiver).toNat + amount.toNat ≤ u64Max := by
  unfold World.receivePacket
  split
  · rename_i msg hvalid
    refine iff_of_true (atomic_same _) fun amount h => ?_
    cases hvalid.symm.trans h.1
  rename_i hvalid
  split
  · rename_i hcoh
    refine iff_of_true (atomic_same _) fun amount h => ?_
    cases hcoh.symm.trans h.2.1
  rename_i hcoh
  split
  · rename_i msg hamount
    refine iff_of_true (atomic_same _) fun amount h => ?_
    cases hamount.symm.trans h.2.2.1
  rename_i amount hamount
  split
  · rename_i hnative
    rw [release_atomic_iff (amountU64_ne_zero hvalid hamount)]
    constructor
    · intro h amount' hreturn
      cases hamount.symm.trans hreturn.2.2.1
      exact h
    · intro h
      exact h amount ⟨hvalid, Bool.eq_false_iff.mpr hcoh, hamount, hnative⟩
  · rename_i hforeign
    refine iff_of_true ?_ fun amount' h => absurd h.2.2.2 hforeign
    split
    · exact atomic_same _
    · exact atomic_ok rfl

omit [F64 F] in
lemma timeout_atomic_iff (hsent : w.Sent) (seq : UInt64) :
    Atomic w (w.timeoutPacket seq) ↔ ∀ p ∈ w.inFlight[seq]?, Refundable w p.data := by
  unfold World.timeoutPacket Refundable
  cases hpacket : w.inFlight[seq]? with
  | none => exact iff_of_true (atomic_same _) fun p hp => (by cases hp)
  | some packet =>
    obtain ⟨amount, hamount⟩ := hsent.readable seq packet hpacket
    simp only [hamount, Option.mem_def, Option.some.injEq, forall_eq', Except.ok.injEq]
    -- whatever fails now fails after the packet was removed
    have hgone : ∀ w' : World F, w'.inFlight = w.inFlight.erase seq → ¬ Kept w w' := by
      intro w' hflight hkept
      have hsame := hkept.inFlight_eq
      rw [hflight] at hsame
      have hlook : (w.inFlight.erase seq)[seq]? = w.inFlight[seq]? := by rw [hsame]
      rw [ExtTreeMap.getElem?_erase_self, hpacket] at hlook
      cases hlook
    have hspec := release_spec (w.remove seq) packet.data.sender packet.data.denom amount
    generalize (w.remove seq).release packet.data.sender packet.data.denom amount = r at hspec ⊢
    cases hspec with
    | through bal hcover hbal =>
      refine iff_of_true (atomic_ok (release_supply (w := w) hcover hbal)) ⟨hcover, ?_⟩
      exact hbal ▸ toNat_le bal
    | short e hshort =>
      refine iff_of_false (fun h => hgone _ rfl (h.1 e rfl)) fun h => ?_
      exact UInt64.not_lt.mpr h.1 hshort
    | late e hcover hover =>
      refine iff_of_false (fun h => hgone _ rfl (h.1 e rfl)) fun h => ?_
      exact Nat.not_le.mpr hover h.2

lemma run_sent {balances : BTreeMap String UInt64} {calls : List (Call F)}
    (h : run World.step (World.start balances) calls = some w) : w.Sent :=
  run_invariant (P := World.Sent)
    (fun _ call _ hs hstep => Option.some.inj hstep ▸ call_sent hs call) (sent_start balances) h

/-- **Atomicity and conservation**: a call changes nothing or moves the whole amount, exactly if
none of its sums leaves `u64` once it has begun to write. -/
theorem call_atomic_iff {balances : BTreeMap String UInt64} {calls : List (Call F)} {w : World F}
    (h : run World.step (World.start balances) calls = some w) (call : Call F) :
    ((∀ e, (w.call call).1 = .error e → Kept w (w.call call).2) ∧
      ((w.call call).1 = .ok () → (w.call call).2.supply = w.supply)) ↔ OnTime w call := by
  cases call with
  | openChannel portId cpChannel cpPort clientId ordering =>
    refine iff_of_true ?_ trivial
    simp only [World.call, World.openChannel]
    split
    · exact atomic_same (w := w) .integerOverflow
    · exact atomic_ok (w := w) rfl
  | sendTransfer channelId sender receiver denom amount height time =>
    exact send_atomic_iff w channelId sender receiver denom amount height time
  | receivePacket packet fidelity => exact receive_atomic_iff w packet fidelity
  | timeoutPacket seq => exact timeout_atomic_iff (run_sent h) seq
  | acknowledgePacket seq =>
    refine iff_of_true ?_ trivial
    simp only [World.call, World.acknowledgePacket]
    split
    · exact atomic_ok (w := w) rfl
    · exact atomic_same (w := w) (.packetNotFound seq)
  | pruneExpired height time => exact iff_of_true (atomic_ok (w := w) rfl) trivial

def alice : BTreeMap String UInt64 := (∅ : BTreeMap String UInt64).insert "alice" 1000

def sentOnce : List (Call ℚ) :=
  [.openChannel "transfer" "channel-42" "transfer" "client-0" .unordered,
    .sendTransfer "channel-0" "alice" "cosmos1abc" "uiona" 100 (some ⟨1, 50⟩) 0]

theorem call_atomic_iff_sentOnce : ∃ w : World ℚ,
    run World.step (World.start alice) sentOnce = some w ∧
      (w.call (.timeoutPacket 0)).1 = .ok () ∧
      (w.call (.timeoutPacket 0)).2.supply = w.supply := by
  refine ⟨_, rfl, by decide +kernel, ?_⟩
  have hiff := call_atomic_iff (show run World.step (World.start alice) sentOnce = some _
    from rfl) (.timeoutPacket 0)
  exact (hiff.mpr (by unfold OnTime; decide +kernel)).2 (by decide +kernel)

def cameBack : List (Call ℚ) :=
  sentOnce ++ [.receivePacket ⟨"transfer/uiona", "100", "cosmos1abc", "bob", "", 1⟩ (1 / 2)]

/-- **A refund that is refused loses its packet.** -/
theorem refused_refund_drops_packet : ∃ w : World ℚ,
    run World.step (World.start alice) cameBack = some w ∧
      (w.call (.timeoutPacket 0)).1 = .error (.insufficientBalance 0 100) ∧
      w.inFlight.keys = [0] ∧ (w.call (.timeoutPacket 0)).2.inFlight.keys = [] :=
  ⟨_, rfl, by decide +kernel⟩

/-! ### Settlement -/

structure Event (F : Type) where
  height : UInt64
  time : UInt64
  call : Call F

def Event.step (w : World F) (event : Event F) : Option (World F) := w.step event.call

def Timely (w : World F) (event : Event F) : Prop :=
  match event.call with
  | .timeoutPacket seq =>
    ∀ p ∈ w.inFlight[seq]?, p.isExpired event.height event.time = true ∧ Refundable w p.data
  | .pruneExpired currentHeight currentTimeS =>
    ∀ entry ∈ w.inFlight.toList, entry.2.isExpired currentHeight currentTimeS = false
  | _ => True

instance decidableTimely (w : World F) : DecidablePred (Timely w)
  | ⟨height, time, .timeoutPacket seq⟩ => inferInstanceAs (Decidable
      (∀ p ∈ w.inFlight[seq]?, p.isExpired height time = true ∧ Refundable w p.data))
  | ⟨_, _, .pruneExpired height time⟩ => inferInstanceAs (Decidable
      (∀ entry ∈ w.inFlight.toList, entry.2.isExpired height time = false))
  | ⟨_, _, .openChannel _ _ _ _ _⟩ => inferInstanceAs (Decidable True)
  | ⟨_, _, .sendTransfer _ _ _ _ _ _ _⟩ => inferInstanceAs (Decidable True)
  | ⟨_, _, .receivePacket _ _⟩ => inferInstanceAs (Decidable True)
  | ⟨_, _, .acknowledgePacket _⟩ => inferInstanceAs (Decidable True)

def Settled (w w' : World F) (event : Event F) (seq : UInt64) (p : Packet F) : Prop :=
  event.call = .acknowledgePacket seq ∧ w'.balances = w.balances ∨
    event.call = .timeoutPacket seq ∧ p.isExpired event.height event.time = true ∧
      ∃ amount bal, p.data.amountU64 = .ok amount ∧
        bal.toNat = (w.balanceOf p.data.sender).toNat + amount.toNat ∧
        w'.balances = w.balances.insert p.data.sender bal

lemma call_leaves {call : Call F} (hp : w.inFlight[seq]? = some p)
    (hgone : (w.call call).2.inFlight[seq]? = none) :
    call = .acknowledgePacket seq ∨ call = .timeoutPacket seq ∨
      ∃ height time, call = .pruneExpired height time ∧ p.isExpired height time = true := by
  have hstep := call_flight w call
  generalize (w.call call).2 = w' at hstep hgone
  cases hstep with
  | same hflight _ =>
    rw [hflight, hp] at hgone
    cases hgone
  | sent packet amount hflight _ _ =>
    rw [hflight, getElem?_insert_ite, hp] at hgone
    split at hgone <;> cases hgone
  | left seq' hcall hflight _ =>
    rw [hflight, getElem?_erase_ite, hp] at hgone
    split at hgone
    · rename_i heq
      subst heq
      exact hcall.elim .inl fun h => .inr (.inl h)
    · cases hgone
  | pruned height time hflight _ =>
    refine .inr (.inr ⟨height, time, rfl, ?_⟩)
    rw [hflight, hp] at hgone
    simpa [Option.filter] using hgone

omit [F64 F] in
lemma timeout_refunds (hp : w.inFlight[seq]? = some p) (hamount : p.data.amountU64 = .ok amount)
    (hcover : amount ≤ w.escrowOf p.data.denom)
    (hfit : (w.balanceOf p.data.sender).toNat + amount.toNat ≤ u64Max) :
    ∃ bal : UInt64, bal.toNat = (w.balanceOf p.data.sender).toNat + amount.toNat ∧
      (w.timeoutPacket seq).2.balances = w.balances.insert p.data.sender bal := by
  simp only [World.timeoutPacket, hp, hamount]
  have hspec := release_spec (w.remove seq) p.data.sender p.data.denom amount
  generalize (w.remove seq).release p.data.sender p.data.denom amount = r at hspec ⊢
  cases hspec with
  | through bal _ hbal => exact ⟨bal, hbal, rfl⟩
  | short e hshort => exact absurd hshort (UInt64.not_lt.mpr hcover)
  | late e _ hover => exact absurd hfit (Nat.not_le.mpr hover)

lemma settled_of_timely (hsent : w.Sent) {event : Event F} (h : Timely w event)
    (hp : w.inFlight[seq]? = some p) (hgone : (w.call event.call).2.inFlight[seq]? = none) :
    Settled w (w.call event.call).2 event seq p := by
  obtain ⟨height, time, call⟩ := event
  rcases call_leaves hp hgone with rfl | rfl | ⟨height', time', rfl, hexp⟩
  · refine .inl ⟨rfl, ?_⟩
    simp only [World.call, World.acknowledgePacket]
    split <;> rfl
  · obtain ⟨hexp, hcovered⟩ := h p hp
    obtain ⟨amount, hamount⟩ := hsent.readable seq p hp
    obtain ⟨hcover, hfit⟩ := hcovered amount hamount
    obtain ⟨bal, hbal, hbalances⟩ := timeout_refunds hp hamount hcover hfit
    exact .inr ⟨rfl, hexp, amount, bal, hamount, hbal, hbalances⟩
  · -- pruning drops a packet only if it has expired, and none has
    have hlive := h (seq, p) (ExtTreeMap.mem_toList_iff_getElem?_eq_some.mpr hp)
    rw [hexp] at hlive
    cases hlive

lemma call_keeps {call : Call F} (hused : seq.toNat < w.sendSequence.toNat)
    (hp : (w.call call).2.inFlight[seq]? = some p) : w.inFlight[seq]? = some p := by
  obtain ⟨hsub, -⟩ | ⟨packet, amount, hflight, -⟩ := call_grows w call
  · exact hsub seq p hp
  · rw [hflight] at hp
    rcases getElem?_insert_eq_some_iff.mp hp with ⟨rfl, -⟩ | ⟨-, hp⟩
    · exact absurd hused (Nat.lt_irrefl _)
    · exact hp

lemma call_sequence_le (w : World F) (call : Call F) :
    w.sendSequence.toNat ≤ (w.call call).2.sendSequence.toNat := by
  obtain ⟨-, hseq⟩ | ⟨-, -, -, hseq, -⟩ := call_grows w call
  · exact hseq ▸ Nat.le_refl _
  · omega

/-- **Packets settle once** in every run in which timeouts are of expired packets that can be
refunded and nothing expired is pruned. -/
theorem packets_settle_once {balances : BTreeMap String UInt64} {events : List (Event F)}
    (htimely : Trace.Along Event.step Timely (World.start balances) events) :
    (∀ pre event post w, events = pre ++ event :: post →
      run Event.step (World.start balances) pre = some w →
        (∀ seq p, w.inFlight[seq]? = some p → (w.call event.call).2.inFlight[seq]? = none →
          Settled w (w.call event.call).2 event seq p) ∧
        (∀ seq, event.call = .timeoutPacket seq → (w.call event.call).1 = .ok () →
          ∃ p, w.inFlight[seq]? = some p ∧ p.isExpired event.height event.time = true)) ∧
      ∀ pre mid post w w', events = pre ++ mid ++ post →
        run Event.step (World.start balances) pre = some w →
        run Event.step w mid = some w' →
          ∀ seq : UInt64, seq.toNat < w.sendSequence.toNat → w.inFlight[seq]? = none →
            w'.inFlight[seq]? = none := by
  have hsent : ∀ {es : List (Event F)} {w : World F},
      run Event.step (World.start balances) es = some w → w.Sent :=
    run_invariant (P := World.Sent)
      (fun _ event _ hs hstep => Option.some.inj hstep ▸ call_sent hs event.call)
      (sent_start balances)
  constructor
  · intro pre event post w hsplit hrun
    have hcall := htimely pre event post hsplit w hrun
    refine ⟨fun seq p hp hgone => settled_of_timely (hsent hrun) hcall hp hgone, ?_⟩
    intro seq hseq hok
    obtain ⟨height, time, call⟩ := event
    simp only at hseq
    subst hseq
    cases hp : w.inFlight[seq]? with
    | none =>
      simp only [World.call, World.timeoutPacket, hp] at hok
      cases hok
    | some p => exact ⟨p, rfl, (hcall p hp).1⟩
  · intro pre mid post w w' _ _ hmid seq hused hnone
    -- the number stays used, so nothing puts a packet under it
    have hkept : seq.toNat < w'.sendSequence.toNat ∧ w'.inFlight[seq]? = none := by
      refine run_invariant
        (P := fun w : World F => seq.toNat < w.sendSequence.toNat ∧ w.inFlight[seq]? = none)
        (fun w event w' hs hstep => ?_) ⟨hused, hnone⟩ hmid
      cases Option.some.inj hstep
      refine ⟨hs.1.trans_le (call_sequence_le w event.call), ?_⟩
      by_contra hback
      obtain ⟨p, hp⟩ := Option.ne_none_iff_exists'.mp hback
      rw [call_keeps hs.1 hp] at hs
      cases hs.2
    exact hkept.2

def settledRun : List (Event ℚ) :=
  (sentOnce ++ sentOnce).map (fun call => ⟨10, 1000, call⟩) ++
    [⟨50, 2000, .timeoutPacket 0⟩, ⟨50, 2000, .acknowledgePacket 1⟩, ⟨60, 2000, .pruneExpired 60 2000⟩]

theorem packets_settle_once_settledRun : ∃ w p,
    run Event.step (World.start alice) (settledRun.take 4) = some w ∧
      w.inFlight[(0 : UInt64)]? = some p ∧
      Settled w (w.call (.timeoutPacket 0)).2 ⟨50, 2000, .timeoutPacket 0⟩ 0 p := by
  have htest : alongTest Event.step (fun w event => decide (Timely w event))
      (World.start alice) settledRun = true := by decide +kernel
  have htimely := along_of_alongTest (fun _ _ h => of_decide_eq_true h) htest
  refine ⟨_, _, rfl, rfl, ?_⟩
  exact ((packets_settle_once htimely).1 (settledRun.take 4) ⟨50, 2000, .timeoutPacket 0⟩ _ _ rfl
    rfl).1 0 _ rfl (by decide +kernel)

/-- **Pruning loses the tokens of a packet.** -/
theorem pruned_packet_not_refunded : ∃ w : World ℚ,
    run World.step (World.start alice) sentOnce = some w ∧ w.inFlight.keys = [0] ∧
      (w.call (.pruneExpired 50 2000)).2.inFlight.keys = [] ∧
      (w.call (.pruneExpired 50 2000)).2.balanceOf "alice" = 900 ∧
      (w.call (.pruneExpired 50 2000)).2.escrowOf "uiona" = 100 ∧
      ((w.call (.pruneExpired 50 2000)).2.call (.timeoutPacket 0)).1 = .error (.packetNotFound 0) :=
  ⟨_, rfl, by decide +kernel⟩

end Iona.Ics020
