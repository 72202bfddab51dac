import Finder.Client.Taking
import Mathlib.Logic.Function.Basic

namespace Finder

variable {maxChannels maxNodes slabSize : Nat} {C P S : Type}

/-- A message that a channel has accepted, with the bytes it came in. -/
structure Entry (P : Type) where
  sender : NodeId
  message : Message (Protocol P)
  id : EnvelopeId
  bytes : Bytes

namespace Channel

section Entries

variable [Crypto C P S] [Postcard (Message (Protocol P))] [Postcard (ChatEnvelope P)]

/-- The message that bytes carry, where the table opens them. -/
def entryOf (crypto : C) (st : ChannelState maxNodes P) (bytes : Bytes) : Option (Entry P) := do
  let envelope ← (decodeAs (ChatEnvelope P) bytes).value
  let key ← (st.getNodeKey envelope.sender).value
  let message ← (Crypto.openEnvelope crypto key envelope).value
  some ⟨envelope.sender,message,Crypto.envelopeId crypto envelope,bytes⟩

/-- The message that a call seals for a channel with this table. -/
def sealed (crypto : C) (nodeId : NodeId) (keyPair : KeyPair S P) (channelId : ChannelId) (data : Protocol P)
    (st : ChannelState maxNodes P) : Option (Entry P) := do
  let message ← (st.address nodeId data).value
  let envelope : ChatEnvelope P ← (Crypto.sealEnvelope crypto nodeId (.channel channelId) keyPair message
    scratch.length).value
  some ⟨nodeId,message,Crypto.envelopeId crypto envelope,toBytes envelope⟩

/-- The messages in the records that the storage reads. -/
def stored [Target] [Postcard Record] (crypto : C) (ch : Channel maxNodes slabSize C P) : List (Entry P) :=
  (ch.storage.records.value.getD []).filterMap (entryOf crypto ch.state)

theorem entryOf_eq_some {crypto : C} {st : ChannelState maxNodes P} {bytes : Bytes} {e : Entry P} :
    entryOf crypto st bytes = some e ↔ e.bytes = bytes ∧ Carries crypto st bytes e.sender e.message e.id := by
  constructor
  · intro h
    obtain ⟨envelope,hdecode,h1⟩ := Option.bind_eq_some_iff.mp h
    obtain ⟨key,hkey,h2⟩ := Option.bind_eq_some_iff.mp h1
    obtain ⟨message,hopen,h3⟩ := Option.bind_eq_some_iff.mp h2
    cases h3
    exact ⟨rfl,envelope,key,Outcome.value_eq_some.mp hdecode,rfl,Outcome.value_eq_some.mp hkey,
      Outcome.value_eq_some.mp hopen,rfl⟩
  · rintro ⟨rfl,envelope,key,hdecode,hsender,hkey,hopen,hid⟩
    rw [←hsender] at hkey
    cases e
    simp_all [entryOf,Outcome.value]

theorem sealed_eq_some {crypto : C} {nodeId : NodeId} {keyPair : KeyPair S P} {channelId : ChannelId}
    {data : Protocol P} {st : ChannelState maxNodes P} {message : Message (Protocol P)} {envelope : ChatEnvelope P}
    (haddress : st.address nodeId data = .ok message)
    (hseal : Crypto.sealEnvelope crypto nodeId (.channel channelId) keyPair message scratch.length = .ok envelope) :
    sealed crypto nodeId keyPair channelId data st =
      some ⟨nodeId,message,Crypto.envelopeId crypto envelope,toBytes envelope⟩ := by
  simp [sealed,haddress,hseal,Outcome.value]

end Entries

section Takes

variable [Target] [Crypto C P S] [RecordCodec] [Postcard (Message (Protocol P))] [EnvelopeCodec P]

/-- The channel takes in the messages one after the other. -/
inductive Takes (channelId : ChannelId) :
    Channel maxNodes slabSize C P → List (Entry P) → Channel maxNodes slabSize C P → Prop
  | nil (ch : Channel maxNodes slabSize C P) : Takes channelId ch [] ch
  | cons (ch mid ch' : Channel maxNodes slabSize C P) (crypto : C) (e : Entry P) (log : List (Entry P))
      (hcarries : Carries crypto ch.state e.bytes e.sender e.message e.id)
      (htake : take channelId e.sender e.message e.id e.bytes ch = (.ok (),mid))
      (h : Takes channelId mid log ch') : Takes channelId ch (e::log) ch'

variable {channelId : ChannelId} {ch mid ch' : Channel maxNodes slabSize C P} {log log' : List (Entry P)}

theorem Takes.single {crypto : C} {e : Entry P} (hcarries : Carries crypto ch.state e.bytes e.sender e.message e.id)
    (htake : take channelId e.sender e.message e.id e.bytes ch = (.ok (),ch')) : Takes channelId ch [e] ch' :=
  .cons ch ch' ch' crypto e [] hcarries htake (.nil ch')

theorem Takes.append (h : Takes channelId ch log mid) (h' : Takes channelId mid log' ch') :
    Takes channelId ch (log ++ log') ch' := by
  induction h with
  | nil ch => exact h'
  | cons ch mid last crypto e log hcarries htake _ ih =>
    exact .cons ch mid ch' crypto e _ hcarries htake (ih h')

omit [Postcard (Message (Protocol P))] [EnvelopeCodec P] in
theorem take_sound {sender : NodeId} {message : Message (Protocol P)} {id : EnvelopeId} {bytes : Bytes}
    {outcome : Outcome ClientError Unit} (hs : ch.Sound)
    (h : take channelId sender message id bytes ch = (outcome,ch')) : ch'.Sound := by
  have hkept : (take channelId sender message id bytes ch).2.Sound := take_keeps ch hs
  rwa [h] at hkept

theorem Takes.sound (h : Takes channelId ch log ch') (hs : ch.Sound) : ch'.Sound := by
  induction h with
  | nil ch => exact hs
  | cons ch mid ch' crypto e log _ htake _ ih => exact ih (take_sound hs htake)

/-- What a channel has beside its log, each message it takes in keeps. -/
theorem Takes.rule {I : List (Entry P) → Channel maxNodes slabSize C P → Prop}
    (hI : ∀ log ch ch' (crypto : C) e, I log ch → ch.Sound →
      Carries crypto ch.state e.bytes e.sender e.message e.id →
      take channelId e.sender e.message e.id e.bytes ch = (.ok (),ch') → I (log ++ [e]) ch')
    (h : Takes channelId ch log' ch') (hs : ch.Sound) (hch : I log ch) : ch'.Sound ∧ I (log ++ log') ch' := by
  induction h generalizing log with
  | nil ch => exact ⟨hs,by rwa [List.append_nil]⟩
  | cons ch mid ch' crypto e log' hcarries htake _ ih =>
    rw [List.append_cons]
    exact ih (take_sound hs htake) (hI log ch mid crypto e hch hs hcarries htake)

end Takes

section Ideal

variable [IdealCrypto C P S] [Postcard (Message (Protocol P))] [EnvelopeCodec P]

/-- The generator of the nonces plays no part in what bytes carry. -/
theorem Carries.congr_crypto {crypto : C} {st : ChannelState maxNodes P} {bytes : Bytes} {sender : NodeId}
    {message : Message (Protocol P)} {id : EnvelopeId} (h : Carries crypto st bytes sender message id)
    (crypto' : C) : Carries crypto' st bytes sender message id := by
  obtain ⟨envelope,key,hdecode,hsender,hkey,hopen,hid⟩ := h
  refine ⟨envelope,key,hdecode,hsender,hkey,?_,?_⟩
  · rw [IdealCrypto.open_stateless crypto' crypto]
    exact hopen
  · rw [IdealCrypto.envelopeId_stateless crypto' crypto]
    exact hid

omit [IdealCrypto C P S] [Postcard (Message (Protocol P))] in
theorem decodeAs_toBytes (envelope : ChatEnvelope P) :
    decodeAs (ChatEnvelope P) (toBytes envelope) = .ok envelope := by simp [decodeAs]

/-- The bytes of an envelope a member seals carry its message: its own key is in the table. -/
theorem carries_of_sealed {crypto : C} {st : ChannelState maxNodes P} {keyPair : KeyPair S P}
    {data : Protocol P} {message : Message (Protocol P)} {recipient : Recipient} {target : Nat}
    {envelope : ChatEnvelope P} (hk : st.Keyed C) (hpaired : Paired C keyPair)
    (haddress : st.address (computeId C keyPair.pub) data = .ok message)
    (hseal : Crypto.sealEnvelope crypto (computeId C keyPair.pub) recipient keyPair message target =
      .ok envelope) :
    Carries crypto st (toBytes envelope) (computeId C keyPair.pub) message (Crypto.envelopeId crypto envelope) := by
  obtain ⟨r,_,hr,_⟩ := hk.valid.address_eq_ok.mp haddress
  have hown : r.publicKey = keyPair.pub := computeId_injective C (hk.keys _ r hr)
  refine ⟨envelope,keyPair.pub,decodeAs_toBytes envelope,IdealCrypto.seal_sender _ _ _ _ _ _ _ hseal,?_,
    IdealCrypto.open_seal _ _ _ _ _ _ _ _ hpaired hseal,rfl⟩
  rw [hk.valid.sorted.getNodeKey_record hr,hown]

end Ideal

end Channel

namespace Client

section Journal

variable [Crypto C P S] [Postcard (Message (Protocol P))] [Postcard (ChatEnvelope P)]

/-- The message that `do_send` seals. -/
def sealed (channelId : ChannelId) (data : Protocol P) (client : Client maxChannels maxNodes slabSize C P S) :
    Option (Entry P) := do
  let ch ← client.channels.get channelId
  Channel.sealed client.crypto client.nodeId client.keyPair channelId data ch.state

/-- The message that `do_receive` opens. -/
def opened (channelId : ChannelId) (bytes : Bytes) (client : Client maxChannels maxNodes slabSize C P S) :
    Option (Entry P) := do
  let ch ← client.channels.get channelId
  Channel.entryOf client.crypto ch.state bytes

/-- The message that `init_chat` seals. -/
def opening [Postcard (NewChannel P)] (nameStr : Str) (client : Client maxChannels maxNodes slabSize C P S) :
    Option (Entry P) := do
  let crypto := (Crypto.nonce client.crypto).2
  let myId := computeId C client.keyPair.pub
  let name ← HString.tryFrom nameStr
  let serialized ← (serialize (client.newChannel name) scratch).value
  let st : ChannelState maxNodes P ← (ChannelState.new myId client.keyPair.pub).value
  Channel.sealed crypto myId client.keyPair (Crypto.channelIdFromBytes crypto serialized)
    (.newChannel (client.newChannel name)) st

/-- The messages in the records that a channel of the client reads. -/
def stored [Target] [Postcard Record] (channelId : ChannelId)
    (client : Client maxChannels maxNodes slabSize C P S) : List (Entry P) :=
  match client.channels.get channelId with
  | none => []
  | some ch => ch.stored client.crypto

/-- The frames of a buffer that are new messages, where all are received. -/
def received [Target] [Postcard Record] (channelId : ChannelId) :
    List Bytes → Client maxChannels maxNodes slabSize C P S → List (Entry P)
  | [],_ => []
  | frame::frames,client =>
    match doReceive channelId frame client with
    | (.ok _,client') => (client.opened channelId frame).toList ++ received channelId frames client'
    | (_,client') => received channelId frames client'

end Journal

/-- The frames that `receive_buffer` comes to, as far as the buffer can be taken apart. -/
def framesOf [Target] (buffer : Bytes) : Nat → Nat → List Bytes
  | 0,_ => []
  | count+1,offset =>
    match (do
      let (len,start) ← (readU32 buffer offset).mapErr .storageError
      let stop ← plainAdd usizeMax start len
      let frame ← Outcome.okOr .unreachable (getRange buffer start stop)
      .ok (frame,stop) : Outcome ClientError (Bytes × Nat)) with
    | .ok (frame,stop) => frame::framesOf buffer count stop
    | _ => []

theorem framesOf_next [Target] {buffer frame : Bytes} {count offset len start stop : Nat}
    (hlen : (readU32 buffer offset).mapErr ClientError.storageError = .ok (len,start))
    (hstop : plainAdd usizeMax start len = (.ok stop : Outcome ClientError Nat))
    (hframe : Outcome.okOr ClientError.unreachable (getRange buffer start stop) = .ok frame) :
    framesOf buffer (count+1) offset = frame::framesOf buffer count stop := by
  rw [framesOf,hlen,Outcome.ok_bind]
  dsimp only at hstop ⊢
  rw [hstop,Outcome.ok_bind,hframe]
  rfl

end Client

namespace ClientCall

/-- The calls on a channel that the client has. -/
def OnHeld : ClientCall slabSize P → Prop
  | .sendMessage _ _ => True
  | .addNode _ _ _ => True
  | .receiveBuffer _ _ _ => True
  | _ => False

/-- The messages that such a call takes in where it succeeds, channel by channel. -/
def accepted [Target] [Crypto C P S] [Postcard Record] [Postcard (Message (Protocol P))]
    [Postcard (ChatEnvelope P)] (client : Client maxChannels maxNodes slabSize C P S) :
    ClientCall slabSize P → ChannelId → List (Entry P)
  | .sendMessage channelId msg => Function.update (fun _ => []) channelId
    ((HString.tryFrom msg).bind (fun text => client.sealed channelId (.chatMessage ⟨text⟩))).toList
  | .addNode channelId pubKey name => Function.update (fun _ => []) channelId
    ((HString.tryFrom name).bind (fun nameString => client.sealed channelId (.addUser ⟨nameString,pubKey⟩))).toList
  | .receiveBuffer channelId buffer count => Function.update (fun _ => []) channelId
    (client.received channelId (Client.framesOf buffer count 0))
  | _ => fun _ => []

end ClientCall

namespace Client

variable [Target] [IdealCrypto C P S] [RecordCodec] [Postcard (Message (Protocol P))] [EnvelopeCodec P]
  {client mid client' : Client maxChannels maxNodes slabSize C P S} {log log' : ChannelId → List (Entry P)}
  {channelId : ChannelId}

/-- What a call that sends or receives does where it succeeds: every channel takes in its messages. -/
structure Took (log : ChannelId → List (Entry P)) (client client' : Client maxChannels maxNodes slabSize C P S) :
    Prop where
  nodeId : client'.nodeId = client.nodeId
  keyPair : client'.keyPair = client.keyPair
  before : ∀ id ch', client'.channels.get id = some ch' →
    ∃ ch, client.channels.get id = some ch ∧ Channel.Takes id ch (log id) ch'

theorem Took.refl (client : Client maxChannels maxNodes slabSize C P S) : Took (fun _ => []) client client :=
  ⟨rfl,rfl,fun _ ch' hget => ⟨ch',hget,.nil ch'⟩⟩

theorem Took.append (h : Took log client mid) (h' : Took log' mid client') :
    Took (fun id => log id ++ log' id) client client' := by
  refine ⟨h'.nodeId.trans h.nodeId,h'.keyPair.trans h.keyPair,fun id ch' hget' => ?_⟩
  obtain ⟨ch1,hget1,hlater⟩ := h'.before id ch' hget'
  obtain ⟨ch,hget,hfirst⟩ := h.before id ch1 hget1
  exact ⟨ch,hget,hfirst.append hlater⟩

theorem Took.sound (h : Took log client client') (hs : Every Channel.Sound client) : Every Channel.Sound client' := by
  intro id ch' hget'
  obtain ⟨ch,hget,htakes⟩ := h.before id ch' hget'
  exact htakes.sound (hs id ch hget)

/-- A call on one channel. -/
theorem Makes.took {ch : Channel maxNodes slabSize C P} {entries : List (Entry P)}
    (hget : client.channels.get channelId = some ch)
    (h : Makes channelId (fun ch' => Channel.Takes channelId ch entries ch') client client') :
    Took (Function.update (fun _ => []) channelId entries) client client' := by
  obtain ⟨made,htakes,hothers⟩ := h.channels
  refine ⟨h.nodeId,h.keyPair,fun id ch' hget' => ?_⟩
  rw [hothers] at hget'
  by_cases hid : id = channelId
  · subst hid
    rw [if_pos rfl] at hget'
    cases hget'
    exact ⟨ch,hget,by rwa [Function.update_self]⟩
  · rw [if_neg hid] at hget'
    exact ⟨ch',hget',by rw [Function.update_of_ne hid]; exact .nil ch'⟩

theorem doSend_took {data : Protocol P} (hs : Every Channel.Sound client) (hpaired : Paired C client.keyPair)
    (hown : client.nodeId = computeId C client.keyPair.pub) (h : doSend channelId data client = (.ok (),client')) :
    Took (Function.update (fun _ => []) channelId (client.sealed channelId data).toList) client client' := by
  obtain ⟨ch,hget,hmakes⟩ := doSend_makes h
  refine Makes.took hget (hmakes.imp ?_)
  rintro ch' ⟨message,envelope,haddress,hseal,htake⟩
  have hsealed : client.sealed channelId data =
      some ⟨client.nodeId,message,Crypto.envelopeId client.crypto envelope,toBytes envelope⟩ := by
    rw [sealed,hget]
    exact Channel.sealed_eq_some haddress hseal
  rw [hsealed]
  rw [hown] at haddress hseal
  refine .single (?_ : Channel.Carries client.crypto _ _ _ _ _) htake
  rw [hown]
  exact Channel.carries_of_sealed (hs channelId ch hget).keyed hpaired haddress hseal

theorem doReceive_took {bytes : Bytes} (h : doReceive channelId bytes client = (.ok (),client')) :
    Took (Function.update (fun _ => []) channelId (client.opened channelId bytes).toList) client client' := by
  obtain ⟨ch,hget,hmakes⟩ := doReceive_makes h
  refine Makes.took hget (hmakes.imp ?_)
  rintro ch' ⟨sender,message,id,hcarries,htake⟩
  have hopened : client.opened channelId bytes = some ⟨sender,message,id,bytes⟩ := by
    rw [opened,hget]
    exact Channel.entryOf_eq_some.mpr ⟨rfl,hcarries⟩
  rw [hopened]
  exact .single hcarries htake

theorem receiveFrames_took {buffer : Bytes} {count offset : Nat} (hs : Every Channel.Sound client)
    (h : receiveFrames channelId buffer count offset client = (.ok (),client')) :
    Took (Function.update (fun _ => []) channelId (client.received channelId (framesOf buffer count offset)))
      client client' := by
  induction count generalizing offset client with
  | zero =>
    cases h
    rw [framesOf,received,Function.update_eq_self]
    exact .refl _
  | succ count ih =>
    rw [receiveFrames] at h
    obtain ⟨⟨len,start⟩,_,hread,h1⟩ := Call.bind_eq_ok.mp h
    obtain ⟨hlen,rfl⟩ := Call.lift_eq_ok.mp hread
    obtain ⟨stop,_,hadd,h2⟩ := Call.bind_eq_ok.mp h1
    obtain ⟨hstop,rfl⟩ := Call.lift_eq_ok.mp hadd
    obtain ⟨frame,_,hslice,h3⟩ := Call.bind_eq_ok.mp h2
    obtain ⟨hframe,rfl⟩ := Call.lift_eq_ok.mp hslice
    rw [framesOf_next hlen hstop hframe,received]
    split at h3
    · rename_i first hrun
      have hfirst := doReceive_took hrun
      have hboth := hfirst.append (ih (hfirst.sound hs) h3)
      rw [hrun]
      convert hboth using 1
      funext id
      by_cases hid : id = channelId
      · subst hid
        simp
      · simp [Function.update_of_ne hid]
    · rename_i first hrun
      rw [hrun]
      obtain rfl := doReceive_alreadyReceived hs hrun
      exact ih hs h3
    · cases h3
    · cases h3

/-- A call on a channel of the client that succeeds takes in what it accepts. -/
theorem run_took [Postcard (NewChannel P)] {call : ClientCall slabSize P} (hheld : call.OnHeld)
    (hs : Every Channel.Sound client) (hpaired : Paired C client.keyPair)
    (hown : client.nodeId = computeId C client.keyPair.pub) (h : call.run client = (.ok (),client')) :
    Took (call.accepted client) client client' := by
  cases call with
  | initChat nameStr io => exact hheld.elim
  | addChannel sender channelId io => exact hheld.elim
  | openChat channelId io => exact hheld.elim
  | sendMessage channelId msg =>
    obtain ⟨text,_,hlift,hsend⟩ := Call.bind_eq_ok.mp h
    obtain ⟨htext,rfl⟩ := Call.lift_eq_ok.mp hlift
    rw [ClientCall.accepted,Outcome.okOr_eq_ok.mp htext]
    exact doSend_took hs hpaired hown hsend
  | addNode channelId pubKey name =>
    obtain ⟨nameString,_,hlift,hsend⟩ := Call.bind_eq_ok.mp h
    obtain ⟨hname,rfl⟩ := Call.lift_eq_ok.mp hlift
    rw [ClientCall.accepted,Outcome.okOr_eq_ok.mp hname]
    exact doSend_took hs hpaired hown hsend
  | receiveBuffer channelId buffer count => exact receiveFrames_took hs h

/-- `init_chat` takes in its first message. -/
theorem initChat_took [Postcard (NewChannel P)] {nameStr : Str} {io : MemIo slabSize} {id : ChannelId}
    (hio : io.Sound) (hpaired : Paired C client.keyPair) (h : initChat nameStr io client = (.ok id,client')) :
    ∃ start : Channel maxNodes slabSize C P,
      freshChannel (computeId C client.keyPair.pub) client.keyPair.pub id io = .ok start ∧
      Makes id (fun ch => Channel.Takes id start (client.opening nameStr).toList ch) client client' := by
  obtain ⟨name,serialized,start,hname,hserialized,hid,hfresh,hmakes⟩ := initChat_takes hio h
  refine ⟨start,hfresh,hmakes.imp ?_⟩
  rintro ch ⟨message,envelope,haddress,hseal,htake⟩
  obtain ⟨st,hst,rfl⟩ := Channel.freshChannel_eq_ok.mp hfresh
  have hopening : client.opening nameStr = some ⟨computeId C client.keyPair.pub,message,
      Crypto.envelopeId (Crypto.nonce client.crypto).2 envelope,toBytes envelope⟩ := by
    rw [←hid] at hseal
    simp only [opening,hname,hserialized,hst,Outcome.value,Option.bind_eq_bind,Option.bind_some]
    exact Channel.sealed_eq_some haddress hseal
  rw [hopening]
  exact .single (Channel.carries_of_sealed (Channel.freshChannel_sound hio hfresh).keyed hpaired haddress hseal) htake

end Client

end Finder
