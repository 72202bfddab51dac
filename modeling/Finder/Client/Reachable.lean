import Finder.Client.Calls

namespace Finder

/-- The public calls that change a client. -/
inductive ClientCall (slabSize : Nat) (P : Type) where
  | initChat (nameStr : Str) (io : MemIo slabSize)
  | addChannel (sender : P) (channelId : ChannelId) (io : MemIo slabSize)
  | openChat (channelId : ChannelId) (io : MemIo slabSize)
  | sendMessage (channelId : ChannelId) (msg : Str)
  | addNode (channelId : ChannelId) (pubKey : P) (name : Str)
  | receiveBuffer (channelId : ChannelId) (buffer : Bytes) (count : Nat)

variable {maxChannels maxNodes slabSize : Nat} {C P S : Type}

namespace ClientCall

/-- The memory a call is handed, if any, is a slice that holds its counted slabs. -/
def Sound [Target] : ClientCall slabSize P → Prop
  | .initChat _ io => io.Sound
  | .addChannel _ _ io => io.Sound
  | .openChat _ io => io.Sound
  | _ => True

def run [Target] [Crypto C P S] [Postcard Record] [Postcard (Message (Protocol P))] [Postcard (ChatEnvelope P)]
    [Postcard (NewChannel P)] : ClientCall slabSize P →
      Call (Client maxChannels maxNodes slabSize C P S) ClientError Unit
  | .initChat nameStr io => do
    let _ ← Client.initChat nameStr io
    pure ()
  | .addChannel sender channelId io => Client.addChannel sender channelId io
  | .openChat channelId io => Client.openChat channelId io
  | .sendMessage channelId msg => Client.sendMessage channelId msg
  | .addNode channelId pubKey name => Client.addNode channelId pubKey name
  | .receiveBuffer channelId buffer count => Client.receiveBuffer channelId buffer count

end ClientCall

namespace Channel

variable [Target]

theorem init_keeps [Crypto C P S] [RecordCodec] [Postcard (Message (Protocol P))] [EnvelopeCodec P]
    (crypto : C) (myId : NodeId) (keyPair : KeyPair S P) (channelId : ChannelId) (data : Protocol P) :
    Call.Keeps Sound (init crypto myId keyPair channelId data :
      Call (Channel maxNodes slabSize C P) ClientError Unit) := by
  unfold init
  simp only [store_envelope]
  refine (Call.keeps_read _).bind (fun message => (Call.keeps_lift _).bind (fun envelope => ?_))
  refine (Call.keeps_read _).bind (fun _ => ?_)
  refine (onChat_keeps ((Chat.acceptMessage_keeps _ _ _).mapErr _) (fun _ hs => hs.chat)
    (fun _ _ hs hc => ⟨hs.keyed,hs.storage,hc⟩)).bind (fun _ => ?_)
  refine (onState_keeps ((ChannelState.receive_keyed _ _ _).mapErr _) (fun _ hs => hs.keyed)
    (fun _ _ hs hk => ⟨hk,hs.storage,hs.chat⟩)).bind (fun _ => ?_)
  exact (Call.keeps_read _).bind (fun _ => store_keeps)

theorem doSend_keeps [Crypto C P S] [RecordCodec] [Postcard (Message (Protocol P))] [EnvelopeCodec P]
    {crypto : C} {nodeId : NodeId} {keyPair : KeyPair S P} {channelId : ChannelId} {data : Protocol P} :
    Call.Keeps Sound (doSend crypto nodeId keyPair channelId data :
      Call (Channel maxNodes slabSize C P) ClientError Unit) := by
  unfold doSend
  simp only [store_envelope]
  refine (Call.keeps_read _).bind (fun message => (Call.keeps_lift _).bind (fun envelope => ?_))
  exact take_keeps

theorem doReceive_keeps [Crypto C P S] [RecordCodec] [Postcard (Message (Protocol P))]
    {crypto : C} {channelId : ChannelId} {envelope : ChatEnvelope P} {bytes : Bytes} :
    Call.Keeps Sound (doReceive crypto channelId envelope bytes :
      Call (Channel maxNodes slabSize C P) ClientError Unit) := by
  unfold doReceive
  refine (Call.keeps_read _).bind (fun key => (Call.keeps_lift _).bind (fun message => ?_))
  exact take_keeps

section Replay

variable [Crypto C P S] [Postcard (Message (Protocol P))] [Postcard (ChatEnvelope P)]

omit [Target] in
theorem replayRecord_keeps {crypto : C} {channelId : ChannelId} {bytes : Bytes} :
    Call.Keeps (fun st => st.1.Keyed C ∧ st.2.Ran) (replayRecord crypto channelId bytes :
      Call (ChannelState maxNodes P × Chat maxNodes C P) ClientError Unit) := by
  have hstate : ∀ {ε α : Type} {x : Call (ChannelState maxNodes P) ε α},
      Call.Keeps (fun st => st.Keyed C) x →
        Call.Keeps (fun st : ChannelState maxNodes P × Chat maxNodes C P => st.1.Keyed C ∧ st.2.Ran)
          (Call.field Prod.fst (fun state st => (state,st.2)) x) :=
    fun hx => hx.field (fun _ hs => hs.1) (fun _ _ hs hk => ⟨hk,hs.2⟩)
  unfold replayRecord
  refine (Call.keeps_lift _).bind (fun envelope => (Call.keeps_read _).bind (fun key => ?_))
  refine (Call.keeps_lift _).bind (fun message => (Call.keeps_read _).bind (fun _ => ?_))
  refine (((Chat.acceptMessage_keeps channelId envelope.sender message.data).mapErr _).field (fun _ hs => hs.2)
    (fun _ _ hs hc => ⟨hs.1,hc⟩)).bind (fun result => ?_)
  have hreceive := (hstate ((ChannelState.receive_keyed envelope.sender message
    (Crypto.envelopeId crypto envelope)).mapErr (fun _ => ClientError.unreachable))).bind
      (fun _ => Call.keeps_pure ())
  cases result with
  | addUser key => exact (hstate ((ChannelState.addNode_keyed key).mapErr _)).bind (fun _ => hreceive)
  | newMessage count => exact hreceive
  | none => exact hreceive

theorem replayFrom_keeps [Postcard Record] (crypto : C) (channelId : ChannelId) (storage : Storage slabSize)
    (fuel : Nat) (cursor : Cursor) : Call.Keeps (fun st => st.1.Keyed C ∧ st.2.Ran)
      (replayFrom crypto channelId storage fuel cursor :
        Call (ChannelState maxNodes P × Chat maxNodes C P) ClientError Unit) := by
  induction fuel generalizing cursor with
  | zero => exact Call.keeps_lift _
  | succ fuel ih =>
    refine (Call.keeps_lift _).bind (fun found => ?_)
    cases found with
    | none => exact Call.keeps_pure _
    | some p => exact replayRecord_keeps.bind (fun _ => ih _)

end Replay

section Fresh

variable [Crypto C P S] {initial : NodeId} {key : P} {channelId : ChannelId} {io : MemIo slabSize}
  {ch : Channel maxNodes slabSize C P}

omit [Target] in
theorem freshChannel_eq_ok : Client.freshChannel initial key channelId io = .ok ch ↔
    ∃ st, ChannelState.new initial key = .ok st ∧ ch = ⟨st,⟨io⟩,Chat.new channelId⟩ := by
  unfold Client.freshChannel
  rw [Outcome.bind_eq_ok]
  constructor
  · rintro ⟨st,hst,heq⟩
    cases heq
    exact ⟨st,Outcome.mapErr_eq_ok.mp hst,rfl⟩
  · rintro ⟨st,hst,rfl⟩
    exact ⟨st,Outcome.mapErr_eq_ok.mpr hst,rfl⟩

omit [Target] in
theorem freshChannel_storage (h : Client.freshChannel initial key channelId io = .ok ch) : ch.storage = ⟨io⟩ := by
  obtain ⟨st,_,rfl⟩ := freshChannel_eq_ok.mp h
  rfl

theorem freshChannel_sound (hio : io.Sound)
    (h : Client.freshChannel (computeId C key) key channelId io = .ok ch) : ch.Sound := by
  obtain ⟨st,hst,rfl⟩ := freshChannel_eq_ok.mp h
  exact ⟨ChannelState.new_keyed hst,hio,Chat.new_ran channelId⟩

end Fresh

end Channel

namespace Client

section Lookup

variable {client : Client maxChannels maxNodes slabSize C P S} {channelId : ChannelId}
  {ch : Channel maxNodes slabSize C P} {α : Type} {x : Call (Channel maxNodes slabSize C P) ClientError α}

theorem onChannel_some (h : client.channels.get channelId = some ch) : onChannel channelId x client =
    ((x ch).1,{ client with channels := client.channels.set channelId (x ch).2 }) := by
  rw [onChannel,Call.borrow_ok (t := ch) (by simp [channel,h])]

theorem onChannel_none (h : client.channels.get channelId = none) :
    onChannel channelId x client = (.err .unknownChannel,client) := by
  simp [onChannel,Call.borrow,channel,h]

/-- A call on one channel leaves the others alone. -/
theorem onChannel_get (h : client.channels.get channelId = some ch) (id : ChannelId) :
    (onChannel channelId x client).2.channels.get id =
      if id = channelId then some (x ch).2 else client.channels.get id := by
  rw [onChannel_some h]
  simp only [FnvIndexMap.set_get]
  rw [h]
  rfl

theorem channels_set (h : client.channels.get channelId = some ch) (ch' : Channel maxNodes slabSize C P)
    (id : ChannelId) : (client.channels.set channelId ch').get id =
      if id = channelId then some ch' else client.channels.get id := by
  rw [FnvIndexMap.set_get,h]
  rfl

/-- A call on a channel that is not there changes nothing, else the channel it leaves comes in its place. -/
theorem onChannel_cases {outcome : Outcome ClientError α} {client' : Client maxChannels maxNodes slabSize C P S}
    (h : onChannel channelId x client = (outcome,client')) :
    (client.channels.get channelId = none ∧ outcome = .err .unknownChannel ∧ client' = client) ∨
    ∃ ch ch', client.channels.get channelId = some ch ∧ x ch = (outcome,ch') ∧
      client' = { client with channels := client.channels.set channelId ch' } := by
  cases hget : client.channels.get channelId with
  | none =>
    rw [onChannel_none hget] at h
    cases h
    exact Or.inl ⟨rfl,rfl,rfl⟩
  | some ch =>
    rw [onChannel_some hget] at h
    cases h
    exact Or.inr ⟨ch,(x ch).2,rfl,rfl,rfl⟩

theorem insertChannel_cases (channelId : ChannelId) (ch : Channel maxNodes slabSize C P)
    (client : Client maxChannels maxNodes slabSize C P S) :
    (∃ channels, insertChannel channelId ch client = (.ok (),{ client with channels := channels }) ∧
      ∀ id, channels.get id = if id = channelId then some ch else client.channels.get id) ∨
    insertChannel channelId ch client = (.err .channelLimit,client) := by
  unfold insertChannel
  cases h : client.channels.insert channelId ch with
  | none => exact Or.inr rfl
  | some channels => exact Or.inl ⟨channels,rfl,FnvIndexMap.insert_get h⟩

end Lookup

section Keeps

/-- Every channel of the client has the property. -/
def Every (I : Channel maxNodes slabSize C P → Prop) (client : Client maxChannels maxNodes slabSize C P S) :
    Prop := ∀ id ch, client.channels.get id = some ch → I ch

variable {I : Channel maxNodes slabSize C P → Prop} {channelId : ChannelId}

theorem onChannel_keeps {α : Type} {x : Call (Channel maxNodes slabSize C P) ClientError α}
    (hx : Call.Keeps I x) : Call.Keeps (Every I) (onChannel channelId x :
      Call (Client maxChannels maxNodes slabSize C P S) ClientError α) := by
  intro client hI id ch hget
  cases h : client.channels.get channelId with
  | none =>
    rw [onChannel_none h] at hget
    exact hI id ch hget
  | some ch0 =>
    rw [onChannel_get h] at hget
    split_ifs at hget with hid
    · cases hget
      exact hx ch0 (hI channelId ch0 h)
    · exact hI id ch hget

theorem insertChannel_keeps {ch : Channel maxNodes slabSize C P} (hch : I ch) :
    Call.Keeps (Every I) (insertChannel channelId ch :
      Call (Client maxChannels maxNodes slabSize C P S) ClientError Unit) := by
  intro client hI id ch' hget
  rcases insertChannel_cases channelId ch client with ⟨channels,hins,hchannels⟩ | hfull
  · rw [hins] at hget
    simp only [hchannels] at hget
    split_ifs at hget
    · cases hget
      exact hch
    · exact hI id ch' hget
  · rw [hfull] at hget
    exact hI id ch' hget

variable [Target] [Crypto C P S] [RecordCodec] [Postcard (Message (Protocol P))] [EnvelopeCodec P]

theorem doSend_keeps {data : Protocol P} : Call.Keeps (Every Channel.Sound) (doSend channelId data :
    Call (Client maxChannels maxNodes slabSize C P S) ClientError Unit) :=
  fun client hI => onChannel_keeps Channel.doSend_keeps client hI

theorem doReceive_keeps (channelId : ChannelId) (bytes : Bytes) :
    Call.Keeps (Every Channel.Sound) (doReceive channelId bytes :
    Call (Client maxChannels maxNodes slabSize C P S) ClientError Unit) :=
  (Call.keeps_lift _).bind (fun _ client hI => onChannel_keeps Channel.doReceive_keeps client hI)

theorem receiveFrames_keeps {buffer : Bytes} {count offset : Nat} :
    Call.Keeps (Every Channel.Sound) (receiveFrames channelId buffer count offset :
      Call (Client maxChannels maxNodes slabSize C P S) ClientError Unit) := by
  induction count generalizing offset with
  | zero => exact Call.keeps_pure _
  | succ count ih =>
    refine (Call.keeps_lift _).bind (fun p => (Call.keeps_lift _).bind (fun stop => ?_))
    refine (Call.keeps_lift _).bind (fun envelopeBytes client hI => ?_)
    have hkept := doReceive_keeps channelId envelopeBytes client hI
    split
    all_goals
      rename_i h
      rw [h] at hkept
    · exact ih _ hkept
    · exact ih _ hkept
    · exact hkept
    · exact hkept

omit [RecordCodec] [Postcard (Message (Protocol P))] [EnvelopeCodec P] in
theorem addChannel_keeps {sender : P} {io : MemIo slabSize} (hio : io.Sound) :
    Call.Keeps (Every Channel.Sound) (addChannel sender channelId io :
      Call (Client maxChannels maxNodes slabSize C P S) ClientError Unit) :=
  Call.keeps_lift_bind (fun _ hch => insertChannel_keeps (Channel.freshChannel_sound hio hch))

theorem initChat_keeps [Postcard (NewChannel P)] {nameStr : Str} {io : MemIo slabSize} (hio : io.Sound) :
    Call.Keeps (Every Channel.Sound) (initChat nameStr io :
      Call (Client maxChannels maxNodes slabSize C P S) ClientError ChannelId) := by
  refine Call.Keeps.bind (fun client hI => hI) (fun nonce => (Call.keeps_lift _).bind (fun name => ?_))
  refine (Call.keeps_read _).bind (fun message => (Call.keeps_lift _).bind (fun serialized client hI => ?_))
  dsimp only
  split
  · exact hI
  · exact hI
  · rename_i ch hch
    have hkept := Channel.init_keeps client.crypto (computeId C client.keyPair.pub) client.keyPair
      (Crypto.channelIdFromBytes client.crypto serialized) (.newChannel message) ch
      (Channel.freshChannel_sound hio hch)
    split
    · exact hI
    · exact hI
    · rename_i hinit
      rw [hinit] at hkept
      exact (insertChannel_keeps hkept).bind (fun _ => Call.keeps_pure _) client hI

theorem openChat_keeps {io : MemIo slabSize} (hio : io.Sound) :
    Call.Keeps (Every Channel.Sound) (openChat channelId io :
      Call (Client maxChannels maxNodes slabSize C P S) ClientError Unit) := by
  refine (Call.keeps_read _).bind (fun myKey => Call.keeps_lift_bind (fun ch hch => ?_))
  have hsound := Channel.freshChannel_sound hio hch
  refine (Call.keeps_lift _).bind (fun start => ?_)
  cases start with
  | none => exact insertChannel_keeps hsound
  | some cursor =>
    intro client hI
    have hvalid := Channel.replayFrom_keeps client.crypto channelId ch.storage ch.storage.steps cursor
      (ch.state,ch.chat) ⟨hsound.keyed,hsound.chat⟩
    dsimp only
    split
    · exact hI
    · exact hI
    · rename_i st h
      rw [h] at hvalid
      have hopened : Channel.Sound { ch with state := st.1, chat := st.2 } := ⟨hvalid.1,hsound.storage,hvalid.2⟩
      exact insertChannel_keeps hopened client hI

variable [Postcard (NewChannel P)]

theorem run_keeps {call : ClientCall slabSize P} (h : call.Sound) : Call.Keeps (Every Channel.Sound)
    (call.run : Call (Client maxChannels maxNodes slabSize C P S) ClientError Unit) := by
  cases call with
  | initChat nameStr io => exact (initChat_keeps h).bind (fun _ => Call.keeps_pure _)
  | addChannel sender channelId io => exact addChannel_keeps h
  | openChat channelId io => exact openChat_keeps h
  | sendMessage channelId msg => exact (Call.keeps_lift _).bind (fun _ => doSend_keeps)
  | addNode channelId pubKey name => exact (Call.keeps_lift _).bind (fun _ => doSend_keeps)
  | receiveBuffer channelId buffer count => exact receiveFrames_keeps

/-- A client after any calls, whatever their outcomes. -/
inductive Reachable : Client maxChannels maxNodes slabSize C P S → Prop
  | new (keyPair : KeyPair S P) (crypto : C) : Reachable (Client.new keyPair crypto FnvIndexMap.empty)
  | call (client : Client maxChannels maxNodes slabSize C P S) (call : ClientCall slabSize P)
      (h : Reachable client) (hsound : call.Sound) : Reachable (call.run client).2

theorem Reachable.sound {client : Client maxChannels maxNodes slabSize C P S} (h : Reachable client) :
    Every Channel.Sound client := by
  induction h with
  | new keyPair crypto =>
    intro id ch hget
    simp [Client.new] at hget
  | call client call _ hsound ih => exact run_keeps hsound client ih

end Keeps

end Client

end Finder
