import Finder.Client.Reachable
import Finder.Protocol.Plain
import Finder.Radio.Receiving

namespace Finder

variable {maxChannels maxNodes maxResponse slabSize : Nat} {A D C P S : Type}

namespace WireState

/-- A hello triggers a sync: the call returns, what waits to be sent still waits, and where nothing does the state
asks for the news of a listed channel that the client holds. -/
structure Answers (client : Client maxChannels maxNodes slabSize C P S) (infos : List ChannelInfo)
    (st : WireState maxChannels maxNodes maxResponse A D)
    (result : Outcome WireError Unit × WireState maxChannels maxNodes maxResponse A D) : Prop where
  returns : result.1 = .ok ()
  pending : st.toSend.isSome → result.2.toSend = st.toSend
  asks : st.toSend = none → (∃ info ∈ infos, ∃ ch, client.channels.get info.channelId = some ch) →
    ∃ info ∈ infos, ∃ ch, client.channels.get info.channelId = some ch ∧
      ∃ request : SyncRequest maxNodes, result.2.toSend = some (.syncRequest request) ∧
        request.vectorClock.toList = ch.state.listNodes.map NodeSequence.clock

variable {client : Client maxChannels maxNodes slabSize C P S}
  {st : WireState maxChannels maxNodes maxResponse A D} {infos : List ChannelInfo}

theorem processMessage_unknown {pubKeyId : NodeId} {peerCount : UInt8} {channelInfo : HVec ChannelInfo maxChannels}
    {info : ChannelInfo} (hinfo : channelInfo.toList = info::infos) (hnone : st.toSend = none)
    (hget : client.channels.get info.channelId = none) :
    processMessage (.hello pubKeyId peerCount channelInfo) client st =
      (.err (.clientError .unknownChannel),{ st with nextSessionId := st.nextSessionId+1 }) := by
  change processInfos client channelInfo.toList st = _
  rw [hinfo,processInfos_unknown hnone hget]

/-- A hello triggers a sync exactly where something waits to be sent, or the channel it lists first is known: the
others are only looked at behind it. -/
theorem hello_answers_iff (client : Client maxChannels maxNodes slabSize C P S)
    (st : WireState maxChannels maxNodes maxResponse A D) (pubKeyId : NodeId) (peerCount : UInt8)
    (channelInfo : HVec ChannelInfo maxChannels) :
    Answers client channelInfo.toList st (processMessage (.hello pubKeyId peerCount channelInfo) client st) ↔
      st.toSend.isSome ∨ ∀ info ∈ channelInfo.toList.head?, (client.channels.get info.channelId).isSome := by
  change Answers client channelInfo.toList st (processInfos client channelInfo.toList st) ↔ _
  cases hsend : st.toSend with
  | some message =>
    have hpending : st.toSend.isSome := by simp [hsend]
    rw [processInfos_pending hpending]
    refine ⟨fun _ => Or.inl rfl,fun _ => ⟨rfl,fun _ => rfl,fun hnone => ?_⟩⟩
    rw [hsend] at hnone
    cases hnone
  | none =>
    cases channelInfo.toList with
    | nil =>
      refine ⟨fun _ => Or.inr (by simp),fun _ => ⟨rfl,fun _ => rfl,fun _ hlisted => ?_⟩⟩
      obtain ⟨info,hinfo,_⟩ := hlisted
      cases hinfo
    | cons info infos =>
      cases hget : client.channels.get info.channelId with
      | none =>
        refine ⟨fun hanswers => ?_,fun h => ?_⟩
        · have hok := hanswers.returns
          rw [processInfos_unknown hsend hget] at hok
          cases hok
        · simp [hget] at h
      | some ch =>
        obtain ⟨request,hclocks,hrun⟩ := processInfos_held infos hsend hget
        refine ⟨fun _ => Or.inr (by simp [hget]),fun _ => ?_⟩
        rw [hrun]
        refine ⟨rfl,fun hpending => ?_,fun _ _ => ⟨info,List.mem_cons_self,ch,hget,request,rfl,hclocks⟩⟩
        rw [hsend] at hpending
        cases hpending

end WireState

section Greeted

open PlainCrypto

/-- A client with one channel of two. -/
def chatting : Client 2 2 256 PlainCrypto U64 U64 := (ClientCall.run (.initChat chatStr (blankIo 256 4)) (client 1)).2

/-- A channel it does not have, and the one it has. -/
def listed : HVec ChannelInfo 2 := ⟨[⟨⟨⟨0⟩⟩,0⟩,⟨chatId 1,0⟩],by decide⟩

/-- Nothing is asked for: the unknown channel comes first. -/
theorem hello_unanswered : (chatting.channels.get (chatId 1)).isSome = true ∧
    (WireState.processMessage (.hello (nodeOf 2) 1 listed) chatting
      (WireState.new 100 : WireState 2 2 8 U64 BlockDecoder)).2.toSend.isNone = true ∧
    ¬WireState.Answers chatting listed.toList (WireState.new 100 : WireState 2 2 8 U64 BlockDecoder)
      (WireState.processMessage (.hello (nodeOf 2) 1 listed) chatting (WireState.new 100)) := by
  have hunknown : chatting.channels.get ⟨⟨0⟩⟩ = none := Option.isNone_iff_eq_none.mp (by decide +kernel)
  have hrun : WireState.processMessage (.hello (nodeOf 2) 1 listed) chatting
      (WireState.new 100 : WireState 2 2 8 U64 BlockDecoder) = (.err (.clientError .unknownChannel),
        { WireState.new 100 with nextSessionId := 1 }) :=
    WireState.processMessage_unknown (show listed.toList = ⟨⟨⟨0⟩⟩,0⟩::[⟨chatId 1,0⟩] from rfl) rfl hunknown
  refine ⟨by decide +kernel,by rw [hrun]; rfl,fun hanswers => ?_⟩
  have hok := hanswers.returns
  rw [hrun] at hok
  cases hok

end Greeted

end Finder
