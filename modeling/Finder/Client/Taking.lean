import Finder.Client.Moves

namespace Finder

variable {maxChannels maxNodes slabSize : Nat} {C P S : Type}

namespace Channel

variable [Target] [Crypto C P S] [RecordCodec] [Postcard (Message (Protocol P))] [EnvelopeCodec P]
  {crypto : C} {nodeId : NodeId} {keyPair : KeyPair S P} {channelId : ChannelId} {data : Protocol P}
  {ch ch' : Channel maxNodes slabSize C P}

/-- A call that sends takes in what it has sealed. -/
theorem doSend_takes (h : doSend crypto nodeId keyPair channelId data ch = (.ok (),ch')) :
    ∃ (message : Message (Protocol P)) (envelope : ChatEnvelope P), ch.state.address nodeId data = .ok message ∧
      Crypto.sealEnvelope crypto nodeId (.channel channelId) keyPair message scratch.length = .ok envelope ∧
      take channelId nodeId message (Crypto.envelopeId crypto envelope) (toBytes envelope) ch = (.ok (),ch') := by
  rcases doSend_cases h with hsealed | ⟨hno,_⟩
  · exact hsealed
  · exact absurd rfl hno

/-- A call that receives takes in what the bytes carry. -/
theorem doReceive_takes {envelope : ChatEnvelope P} {bytes : Bytes}
    (hdecode : decodeAs (ChatEnvelope P) bytes = .ok envelope)
    (h : doReceive crypto channelId envelope bytes ch = (.ok (),ch')) :
    ∃ (sender : NodeId) (message : Message (Protocol P)) (id : EnvelopeId),
      Carries crypto ch.state bytes sender message id ∧ take channelId sender message id bytes ch = (.ok (),ch') := by
  rcases doReceive_cases h with ⟨key,message,hkey,hopen,htake⟩ | ⟨⟨hno,_⟩,_⟩
  · exact ⟨envelope.sender,message,_,⟨envelope,key,hdecode,rfl,hkey,hopen,rfl⟩,htake⟩
  · exact absurd rfl hno

end Channel

namespace Client

variable {client client' : Client maxChannels maxNodes slabSize C P S} {channelId : ChannelId}

/-- A call on a channel that succeeds puts the channel it leaves in its place. -/
theorem onChannel_makes {α : Type} {x : Call (Channel maxNodes slabSize C P) ClientError α} {a : α}
    (h : onChannel channelId x client = (.ok a,client')) : ∃ ch, client.channels.get channelId = some ch ∧
      Makes channelId (fun ch' => x ch = (.ok a,ch')) client client' := by
  rcases onChannel_cases h with ⟨_,hno,_⟩ | ⟨ch,ch',hget,hrun,rfl⟩
  · cases hno
  · exact ⟨ch,hget,rfl,rfl,ch',hrun,channels_set hget ch'⟩

variable [Target] [Crypto C P S] [RecordCodec] [Postcard (Message (Protocol P))] [EnvelopeCodec P]

theorem doSend_makes {data : Protocol P} (h : doSend channelId data client = (.ok (),client')) :
    ∃ ch, client.channels.get channelId = some ch ∧ Makes channelId (fun ch' =>
      ∃ (message : Message (Protocol P)) (envelope : ChatEnvelope P),
        ch.state.address client.nodeId data = .ok message ∧
        Crypto.sealEnvelope client.crypto client.nodeId (.channel channelId) client.keyPair message scratch.length =
          .ok envelope ∧
        Channel.take channelId client.nodeId message (Crypto.envelopeId client.crypto envelope) (toBytes envelope)
          ch = (.ok (),ch')) client client' := by
  obtain ⟨ch,hget,hmakes⟩ := onChannel_makes h
  exact ⟨ch,hget,hmakes.imp (fun _ hrun => Channel.doSend_takes hrun)⟩

theorem doReceive_makes {bytes : Bytes} (h : doReceive channelId bytes client = (.ok (),client')) :
    ∃ ch, client.channels.get channelId = some ch ∧ Makes channelId (fun ch' =>
      ∃ (sender : NodeId) (message : Message (Protocol P)) (id : EnvelopeId),
        Channel.Carries client.crypto ch.state bytes sender message id ∧
        Channel.take channelId sender message id bytes ch = (.ok (),ch')) client client' := by
  obtain ⟨envelope,_,hlift,hrest⟩ := Call.bind_eq_ok.mp h
  obtain ⟨hdecode,rfl⟩ := Call.lift_eq_ok.mp hlift
  obtain ⟨ch,hget,hmakes⟩ := onChannel_makes hrest
  exact ⟨ch,hget,hmakes.imp (fun _ hrun => Channel.doReceive_takes hdecode hrun)⟩

/-- The message that `init_chat` opens a channel with. -/
def newChannel (name : HString nameMax) (client : Client maxChannels maxNodes slabSize C P S) : NewChannel P :=
  { nonce := (Crypto.nonce client.crypto).1
    name := name
    owner := client.keyPair.pub }

/-- `init_chat` starts a channel with the client's own key and takes in a new channel that names it. -/
theorem initChat_takes [Postcard (NewChannel P)] {nameStr : Str} {io : MemIo slabSize} {id : ChannelId}
    (hio : io.Sound) (h : initChat nameStr io client = (.ok id,client')) :
    ∃ (name : HString nameMax) (serialized : Bytes) (start : Channel maxNodes slabSize C P),
      HString.tryFrom nameStr = some name ∧ serialize (client.newChannel name) scratch = .ok serialized ∧
      Crypto.channelIdFromBytes (Crypto.nonce client.crypto).2 serialized = id ∧
      freshChannel (computeId C client.keyPair.pub) client.keyPair.pub id io = .ok start ∧
      Makes id (fun ch => ∃ (message : Message (Protocol P)) (envelope : ChatEnvelope P),
        start.state.address (computeId C client.keyPair.pub) (.newChannel (client.newChannel name)) = .ok message ∧
        Crypto.sealEnvelope (Crypto.nonce client.crypto).2 (computeId C client.keyPair.pub) (.channel id)
          client.keyPair message scratch.length = .ok envelope ∧
        Channel.take id (computeId C client.keyPair.pub) message
          (Crypto.envelopeId (Crypto.nonce client.crypto).2 envelope) (toBytes envelope) start =
            (.ok (),ch)) client client' := by
  obtain ⟨nonce,drawn,hdrawn,h1⟩ := Call.bind_eq_ok.mp h
  cases hdrawn
  obtain ⟨name,_,hlift,h2⟩ := Call.bind_eq_ok.mp h1
  obtain ⟨hname,rfl⟩ := Call.lift_eq_ok.mp hlift
  obtain ⟨message,_,hread,h3⟩ := Call.bind_eq_ok.mp h2
  obtain ⟨hmessage,rfl⟩ := Call.read_eq_ok.mp hread
  obtain ⟨serialized,_,hlift,h4⟩ := Call.bind_eq_ok.mp h3
  obtain ⟨hserialized,rfl⟩ := Call.lift_eq_ok.mp hlift
  cases hmessage
  dsimp only at h4
  split at h4
  · cases h4
  · cases h4
  · rename_i start hfresh
    split at h4
    · cases h4
    · cases h4
    · rename_i ch hinit
      obtain ⟨_,c,hinsert,hpure⟩ := Call.bind_eq_ok.mp h4
      cases hpure
      have htakes := Channel.init_takes (Channel.freshChannel_sound hio hfresh) hinit
      rcases insertChannel_eq rfl hinsert with ⟨_,hmakes⟩ | ⟨hno,_⟩
      · refine ⟨name,serialized,start,Outcome.okOr_eq_ok.mp hname,hserialized,rfl,hfresh,hmakes.nodeId,
          hmakes.keyPair,ch,htakes,?_⟩
        obtain ⟨_,rfl,hget⟩ := hmakes.channels
        exact hget
      · exact absurd rfl hno

end Client

end Finder
