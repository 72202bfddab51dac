import Finder.Radio.Deadlines
import Finder.Radio.Delivery

namespace Finder

variable {maxChannels maxNodes maxResponse slabSize : Nat} {A E D C P S : Type}

section Pass

variable [DecidableEq A] [Target] [Raptorq E D] [Postcard (NetworkProtocol maxChannels maxNodes maxResponse)]
  {espNow : EspNow} {received : Option (A × Bytes)} {now : U64} {peerCount : UInt8} {channelId : ChannelId} {sender : A} {data : Bytes}
  {client : Client maxChannels maxNodes slabSize C P S} {st st' : WireState maxChannels maxNodes maxResponse A D}
  {buffer buffer' : Bytes} {packets : List Bytes} {p : U16 × Bytes} {pubKeyId : NodeId}
  {channelInfo : HVec ChannelInfo maxChannels} {info : ChannelInfo} {infos : List ChannelInfo}
  {ch : Channel maxNodes slabSize C P}

/-- A packet that ends in an error places nothing. -/
theorem receiveData_err {e : WireError} (h : receiveData received client st = (.err e,st')) :
    st'.toSend = st.toSend := by
  cases received with
  | none => cases h
  | some packet =>
    obtain ⟨sender,data⟩ := packet
    have hreceive : WireState.receivePacket data sender client st = (.err e,st') := h
    have hstate : st' = (WireState.receivePacket data sender client st).2 := by rw [hreceive]
    obtain ⟨receivers,⟨_,hrun⟩ | ⟨p,message,_,_,hrun⟩⟩ := WireState.receivePacket_shape client st sender data
    · rw [hstate,hrun]
    · rcases WireState.processMessage_cases message client { st with receivers := receivers } with h' | h' |
        ⟨_,request,h'⟩
      all_goals rw [h',hreceive] at hrun
      · cases hrun
      · cases hrun
        rfl
      · cases hrun

/-- Nothing waits from one pass to the next. -/
theorem networkLoop_clears (hnone : st.toSend = none)
    (h : networkLoop espNow received now peerCount channelId client (st,buffer) = (.ok packets,(st',buffer'))) :
    st'.toSend = none := by
  rcases networkLoop_ok h with ⟨e,st1,hreceived,_,hsame⟩ | ⟨st1,result,_,hpoll,_⟩
  · cases hsame
    rw [receiveData_err hreceived]
    exact hnone
  · exact (WireState.poll_ok_cases hpoll).1

/-- A hello of a channel that the device has is answered with a request of its clocks, by the pass that completes it. -/
theorem takenBy_held (now : U64) (peerCount peerCount' : UInt8) (channelId : ChannelId) (hnone : st.toSend = none)
    (hpassed : WireState.passed data sender st = some p)
    (hmessage : fromBytes p.2 = .ok (.hello pubKeyId peerCount' channelInfo :
      NetworkProtocol maxChannels maxNodes maxResponse))
    (hinfos : channelInfo.toList = info::infos) (hget : client.channels.get info.channelId = some ch) :
    ∃ request : SyncRequest maxNodes, request.vectorClock.toList = ch.state.listNodes.map NodeSequence.clock ∧
      takenBy (some (sender,data)) now peerCount channelId client st = some (.syncRequest request) := by
  obtain ⟨receivers,⟨hno,_⟩ | ⟨q,message,hq,hread,hrun⟩⟩ := WireState.receivePacket_shape client st sender data
  · rw [hpassed] at hno
    cases hno
  obtain rfl : p = q := Option.some.inj (hpassed.symm.trans hq)
  cases hmessage.symm.trans hread
  have hempty : ({ st with receivers := receivers } : WireState maxChannels maxNodes maxResponse A D).toSend = none :=
    hnone
  obtain ⟨request,hclocks,hplaced⟩ := WireState.processInfos_held infos hempty hget
  rw [WireState.processMessage,hinfos,hplaced] at hrun
  refine ⟨request,hclocks,?_⟩
  rw [takenBy,receiveData,hrun]
  dsimp only
  rw [WireState.takeMessage_pending rfl]
  rfl

/-- A hello of a channel that it does not have first ends the pass. -/
theorem takenBy_unknown (now : U64) (peerCount peerCount' : UInt8) (channelId : ChannelId) (hnone : st.toSend = none)
    (hpassed : WireState.passed data sender st = some p)
    (hmessage : fromBytes p.2 = .ok (.hello pubKeyId peerCount' channelInfo :
      NetworkProtocol maxChannels maxNodes maxResponse))
    (hinfos : channelInfo.toList = info::infos) (hget : client.channels.get info.channelId = none) :
    takenBy (some (sender,data)) now peerCount channelId client st = none := by
  obtain ⟨receivers,⟨hno,_⟩ | ⟨q,message,hq,hread,hrun⟩⟩ := WireState.receivePacket_shape client st sender data
  · rw [hpassed] at hno
    cases hno
  obtain rfl : p = q := Option.some.inj (hpassed.symm.trans hq)
  cases hmessage.symm.trans hread
  have hempty : ({ st with receivers := receivers } : WireState maxChannels maxNodes maxResponse A D).toSend = none :=
    hnone
  rw [WireState.processMessage,hinfos,WireState.processInfos_unknown hempty hget] at hrun
  rw [takenBy,receiveData,hrun]

end Pass

namespace Air

variable [DecidableEq A] [Target] [Raptorq E D] [Postcard (NetworkProtocol maxChannels maxNodes maxResponse)]
  {air : Air maxChannels maxNodes maxResponse A D}

theorem Reachable.idle (h : Reachable slabSize C P S air) (a : A) :
    (air.device a).1.toSend = none ∧ (air.device a).1.mtu = espNowMtu := by
  obtain ⟨buffers,hruns⟩ := h
  induction hruns generalizing a with
  | refl => exact ⟨rfl,rfl⟩
  | tail hruns hstep ih =>
    cases hstep with
    | pass b espNow received now peerCount channelId client packets device hbrings hpass =>
    by_cases ha : a = b
    · subst ha
      obtain ⟨st,buffer⟩ := device
      have hmtu := (receiveData_settings (received.map Arrival.packet) client _).1.trans (ih a).2
      obtain ⟨hends,_⟩ := networkLoop_ends hmtu hpass
      simp only [after,Function.update_self]
      exact ⟨networkLoop_clears (ih a).1 hpass,hends.sends.2.1.trans hmtu⟩
    · simpa only [after,Function.update_of_ne ha] using ih a

/-- Between passes nothing waits to be sent. So the pass that completes a hello answers it, with a request of the clocks
of the channel that the hello names first, exactly if the device has that channel; otherwise the pass sends nothing. -/
theorem Reachable.answers_at_once (h : Reachable slabSize C P S air) {a : A} {x : Arrival A} {p : U16 × Bytes} {pubKeyId : NodeId}
    {peerCount' : UInt8} {channelInfo : HVec ChannelInfo maxChannels} {info : ChannelInfo} {infos : List ChannelInfo}
    (hcompletes : WireState.passed x.data x.sender (air.device a).1 = some p)
    (hmessage : fromBytes p.2 = .ok (.hello pubKeyId peerCount' channelInfo :
      NetworkProtocol maxChannels maxNodes maxResponse))
    (hinfos : channelInfo.toList = info::infos) (now : U64) (peerCount : UInt8) (channelId : ChannelId)
    (client : Client maxChannels maxNodes slabSize C P S) (packets : List Bytes)
    (device : WireState maxChannels maxNodes maxResponse A D × Bytes)
    (hpass : networkLoop espNow (some x.packet) now peerCount channelId client (air.device a) = (.ok packets,device)) :
    device.1.toSend = none ∧
    (∀ ch, client.channels.get info.channelId = some ch → ∃ request : SyncRequest maxNodes,
      request.vectorClock.toList = ch.state.listNodes.map NodeSequence.clock ∧
        CutInto D (air.device a).1.nextMessageNumber
          (toBytes (.syncRequest request : NetworkProtocol maxChannels maxNodes maxResponse)) packets) ∧
    (client.channels.get info.channelId = none → packets = [] ∧
      device.1.nextMessageNumber = (air.device a).1.nextMessageNumber) := by
  obtain ⟨st,buffer⟩ := device
  obtain ⟨hnone,hsame⟩ := h.idle a
  obtain ⟨hmtu,_,_,hnumber⟩ := receiveData_settings (some x.packet) client (air.device a).1
  obtain ⟨hends,_⟩ := networkLoop_ends (hmtu.trans hsame) hpass
  obtain ⟨_,_,_,hsends⟩ := hends.sends
  rw [hnumber] at hsends
  refine ⟨networkLoop_clears hnone hpass,fun ch hget => ?_,fun hget => ?_⟩
  · obtain ⟨request,hclocks,htaken⟩ := takenBy_held now peerCount peerCount' channelId hnone hcompletes hmessage hinfos hget
    rcases hsends with ⟨hno,_⟩ | ⟨m,hm,hcut,_⟩
    · cases hno.symm.trans htaken
    · cases hm.symm.trans htaken
      exact ⟨request,hclocks,hcut⟩
  · have htaken := takenBy_unknown now peerCount peerCount' channelId hnone hcompletes hmessage hinfos hget
    rcases hsends with ⟨_,hcount⟩ | ⟨m,hm,_⟩
    · refine ⟨?_,hcount⟩
      rw [show x.packet = (x.sender,x.data) from rfl,htaken] at hends
      cases hends
      rfl
    · cases hm.symm.trans htaken

end Air

section Greeted

namespace Air

open PlainCrypto

def greetingArrival : Arrival Bool := ⟨true,0,greetingPacket⟩

/-- The other device has the channel too, and asks for it. -/
theorem answers_at_once_greeting : ∃ packets device, networkLoop driver (some greetingArrival.packet) 0 1 (chatId 1)
    owner (greeting.device false) = (.ok packets,device) ∧ device.1.toSend = none ∧
    ∃ request : SyncRequest 2, CutInto BlockDecoder (greeting.device false).1.nextMessageNumber
      (toBytes (.syncRequest request : NetworkProtocol 2 2 64)) packets := by
  have hvalue : (WireState.passed greetingArrival.data greetingArrival.sender (greeting.device false).1).map Prod.snd =
      some (toBytes (.hello owner.nodeId 1 chatInfos : NetworkProtocol 2 2 64)) := by decide +kernel
  obtain ⟨p,hp,hmessage⟩ := Option.map_eq_some_iff.mp hvalue
  have hread : fromBytes p.2 = .ok (.hello owner.nodeId 1 chatInfos : NetworkProtocol 2 2 64) := by
    rw [hmessage]
    exact Postcard.fromBytes_toBytes _
  have hok : (networkLoop driver (some greetingArrival.packet) 0 1 (chatId 1) owner
      (greeting.device false)).1.value.isSome = true := by decide +kernel
  obtain ⟨⟨outcome,device⟩,hrun⟩ : ∃ r, networkLoop driver (some greetingArrival.packet) 0 1 (chatId 1) owner
    (greeting.device false) = r := ⟨_,rfl⟩
  rw [hrun] at hok
  obtain ⟨packets,hpackets⟩ := Option.isSome_iff_exists.mp hok
  obtain rfl := Outcome.value_eq_some.mp hpackets
  have hheld : (owner.channels.get (chatId 1)).isSome = true := by decide +kernel
  obtain ⟨ch,hget⟩ := Option.isSome_iff_exists.mp hheld
  obtain ⟨hnone,hheld,_⟩ := greeting_reachable.answers_at_once (x := greetingArrival) hp hread
    (show chatInfos.toList = ⟨chatId 1,0⟩::[] from rfl) 0 1 (chatId 1) owner packets device hrun
  obtain ⟨request,_,hcut⟩ := hheld ch hget
  exact ⟨packets,device,hrun,hnone,request,hcut⟩

end Air

end Greeted

end Finder
