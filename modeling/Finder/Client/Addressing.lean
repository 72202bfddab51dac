import Finder.Client.Members

namespace Finder

variable {maxChannels maxNodes slabSize : Nat} {C P S : Type}

namespace Channel

variable [Target] [Crypto C P S] [RecordCodec] {ch : Channel maxNodes slabSize C P} {channelId : ChannelId}
  {sender : NodeId} {message : Message (Protocol P)} {id : EnvelopeId} {bytes : Bytes}

/-- The channel has a place for the message: it is the sender's next one, the chat allows it, its new user
can enter the table, and there is a slab that its record fits. -/
structure HasPlace (ch : Channel maxNodes slabSize C P) (channelId : ChannelId) (sender : NodeId)
    (message : Message (Protocol P)) (bytes : Bytes) : Prop where
  receivable : ch.state.Receivable sender message
  allowed : ch.chat.Allows channelId sender message.data
  user : ¬UserRefused ch message
  slab : ch.storage.io.HasSlab
  fits : (slabBytes [recordOf ch sender message bytes]).length ≤ slabSize

/-- A message is taken in exactly where the channel has a place for it. -/
theorem take_ok_iff (hs : ch.Sound) :
    (take channelId sender message id bytes ch).1 = .ok () ↔ ch.HasPlace channelId sender message bytes := by
  by_cases hearly : ch.state.Receivable sender message ∧ ch.chat.Allows channelId sender message.data
  swap
  · obtain ⟨e,he⟩ := take_early hs hearly id bytes
    rw [he]
    exact ⟨fun h => (by cases h),fun h => absurd ⟨h.receivable,h.allowed⟩ hearly⟩
  by_cases huser : UserRefused ch message
  · have hlate : FailsLate ch channelId sender message bytes := ⟨hearly,Or.inl huser⟩
    obtain ⟨e,_,he,_⟩ := take_refused hs hlate id
    rw [he]
    exact ⟨fun h => (by cases h),fun h => absurd huser h.user⟩
  obtain ⟨ch1,hacc,htake⟩ := take_store hs hearly.1 hearly.2 huser id bytes
  rw [htake]
  rcases store_cases hs.storage (recordOf ch sender message bytes) with
    ⟨hslab,hfits,st',hst',_⟩ | ⟨hslab,hlarge,st',hst',_⟩ | ⟨hno,hst'⟩
  all_goals simp only [onStorage,Call.field_apply,hacc.storage,hst',reduceCtorEq,false_iff,true_iff]
  · exact ⟨hearly.1,hearly.2,huser,hslab,hfits⟩
  · exact fun h => absurd h.fits (not_le.mpr hlarge)
  · exact fun h => hno h.slab

omit [Target] in
/-- A message that a channel of the same table and chat accepts has a place, if there is a slab for it. -/
theorem hasPlace_of_accept {c c' : Channel maxNodes slabSize C P} {maxSequence : U64} (hv : c.state.Valid)
    (haccept : accept channelId sender message id c = (.ok maxSequence,c')) (hstate : ch.state = c.state)
    (hchat : ch.chat = c.chat) (hplain : ∀ m, message.data ≠ .addUser m) (hslab : ch.storage.io.HasSlab)
    (hfits : (slabBytes [recordOf ch sender message bytes]).length ≤ slabSize) :
    ch.HasPlace channelId sender message bytes := by
  have haccepted := accept_eq_ok hv haccept
  obtain ⟨st,hreceived,_⟩ := haccepted.state
  refine ⟨by rw [hstate]; exact hreceived.receivable,by rw [hchat]; exact haccepted.allowed,?_,hslab,hfits⟩
  rintro ⟨m,hm,_⟩
  exact hplain m hm

omit [Target] [RecordCodec] in
/-- Accepting a message has nothing to do with the storage. -/
theorem accept_withStorage (storage : Storage slabSize) : Call.Commutes
    (fun ch : Channel maxNodes slabSize C P => { ch with storage := storage })
    (accept channelId sender message id) := by
  have hstate : ∀ {ε α : Type} (x : Call (ChannelState maxNodes P) ε α),
      Call.Commutes (fun ch : Channel maxNodes slabSize C P => { ch with storage := storage }) (onState x) :=
    fun x => Call.commutes_field (fun _ => rfl) (fun _ _ => rfl)
  refine Call.Commutes.bind ?_ (fun _ => Call.Commutes.bind ?_ (fun result => Call.Commutes.bind (hstate _)
    (fun _ => ?_)))
  · exact Call.commutes_read (fun _ => rfl)
  · exact Call.commutes_field (fun _ => rfl) (fun _ _ => rfl)
  · cases result with
    | addUser key => exact (hstate _).bind (fun _ => Call.commutes_pure _)
    | newMessage count => exact Call.commutes_pure _
    | none => exact Call.commutes_pure _

omit [Target] [RecordCodec] in
theorem accept_sameMessages {c c' : Channel maxNodes slabSize C P} {maxSequence : U64} (hstate : ch.state = c.state)
    (hchat : ch.chat = c.chat) (haccept : accept channelId sender message id c = (.ok maxSequence,c')) :
    accept channelId sender message id ch = (.ok maxSequence,{ c' with storage := ch.storage }) := by
  have hsame : accept channelId sender message id { c with storage := ch.storage } = _ :=
    accept_withStorage ch.storage c
  rw [haccept] at hsame
  cases ch
  cases c
  cases hstate
  cases hchat
  exact hsame

/-- Taking a message in leaves the table and the chat that accepting it does. -/
theorem take_accept {ch' : Channel maxNodes slabSize C P}
    (h : take channelId sender message id bytes ch = (.ok (),ch')) :
    ∃ maxSequence ch1, accept channelId sender message id ch = (.ok maxSequence,ch1) ∧ ch'.state = ch1.state ∧
      ch'.chat = ch1.chat := by
  obtain ⟨maxSequence,ch1,haccept,hrest⟩ := Call.bind_eq_ok.mp h
  obtain ⟨_,_,hread,hstore⟩ := Call.bind_eq_ok.mp hrest
  obtain ⟨_,rfl⟩ := Call.read_eq_ok.mp hread
  obtain ⟨st,_,rfl⟩ := Call.field_eq_ok.mp hstore
  exact ⟨maxSequence,ch1,haccept,rfl,rfl⟩

variable [Postcard (Message (Protocol P))]

/-- The envelope verifies under the key of its sender, and the channel has a place for its message. -/
def Accepts (crypto : C) (ch : Channel maxNodes slabSize C P) (channelId : ChannelId) (envelope : ChatEnvelope P)
    (bytes : Bytes) : Prop :=
  ∃ key message, ch.state.getNodeKey envelope.sender = .ok key ∧
    Crypto.openEnvelope crypto key envelope = .ok message ∧ ch.HasPlace channelId envelope.sender message bytes

theorem doReceive_ok_iff {crypto : C} {envelope : ChatEnvelope P} (hs : ch.Sound) :
    (doReceive crypto channelId envelope bytes ch).1 = .ok () ↔ Accepts crypto ch channelId envelope bytes := by
  by_cases hopened : ∃ key, ch.state.getNodeKey envelope.sender = .ok key ∧
      ∃ message, Crypto.openEnvelope crypto key envelope = .ok message
  · obtain ⟨key,hkey,message,hopen⟩ := hopened
    rw [doReceive_eq_take hkey hopen,take_ok_iff hs]
    refine ⟨fun h => ⟨key,message,hkey,hopen,h⟩,fun ⟨key',message',hkey',hopen',h⟩ => ?_⟩
    rw [hkey] at hkey'
    cases hkey'
    rw [hopen] at hopen'
    cases hopen'
    exact h
  · have hno : ¬Accepts crypto ch channelId envelope bytes :=
      fun ⟨key,message,hkey,hopen,_⟩ => hopened ⟨key,hkey,message,hopen⟩
    have hunopened : ∃ outcome, (outcome ≠ .ok () ∧ outcome ≠ .err (.channelError .alreadyReceived)) ∧
        doReceive crypto channelId envelope bytes ch = (outcome,ch) := doReceive_unopened hopened
    obtain ⟨outcome,⟨hfails,_⟩,hsame⟩ := hunopened
    rw [hsame]
    exact iff_of_false hfails hno

end Channel

namespace Client

variable [Target] [Crypto C P S] [RecordCodec] [Postcard (Message (Protocol P))] [EnvelopeCodec P]
  [Postcard (NewChannel P)] {client : Client maxChannels maxNodes slabSize C P S}

/-- What a channel receives is addressed to it, exactly if it accepts no envelope that is addressed elsewhere:
`do_receive` does not look at the recipient. -/
theorem Reachable.recipient_iff (h : Reachable client) (channelId : ChannelId) (bytes : Bytes) :
    ((doReceive channelId bytes client).1 = .ok () →
      ∃ envelope, decodeAs (ChatEnvelope P) bytes = .ok envelope ∧ envelope.recipient = .channel channelId) ↔
    ∀ ch (envelope : ChatEnvelope P), client.channels.get channelId = some ch →
      decodeAs (ChatEnvelope P) bytes = .ok envelope →
      Channel.Accepts client.crypto ch channelId envelope bytes → envelope.recipient = .channel channelId := by
  have hok : ∀ ch (envelope : ChatEnvelope P), client.channels.get channelId = some ch →
      decodeAs (ChatEnvelope P) bytes = .ok envelope → ((doReceive channelId bytes client).1 = .ok () ↔
        Channel.Accepts client.crypto ch channelId envelope bytes) := by
    intro ch envelope hget hdecode
    rw [doReceive_decoded hdecode,onChannel_some hget]
    exact Channel.doReceive_ok_iff (h.sound channelId ch hget)
  constructor
  · intro hclaim ch envelope hget hdecode haccepts
    obtain ⟨envelope',hdecode',hrecipient⟩ := hclaim ((hok ch envelope hget hdecode).mpr haccepts)
    rw [hdecode] at hdecode'
    cases hdecode'
    exact hrecipient
  · intro hcondition hreceive
    rcases hrun : doReceive channelId bytes client with ⟨outcome,client'⟩
    rw [hrun] at hreceive
    obtain rfl : outcome = .ok () := hreceive
    obtain ⟨envelope,_,hlift,hrest⟩ := Call.bind_eq_ok.mp hrun
    obtain ⟨hdecode,rfl⟩ := Call.lift_eq_ok.mp hlift
    cases hget : client.channels.get channelId with
    | none =>
      rw [onChannel_none hget] at hrest
      cases hrest
    | some ch =>
      refine ⟨envelope,hdecode,hcondition ch envelope hget hdecode ((hok ch envelope hget hdecode).mp ?_)⟩
      rw [hrun]

end Client

section Owner

open PlainCrypto

/-- The first message of another channel of the same creator. -/
def misdirected : Bytes := sealedBy 1 (chatId 5) ⟨nodeOf 1,0,1,.newChannel ⟨0,chatName,1⟩⟩

/-- It opens this channel just as well. -/
theorem misdirected_is_received : Client.Reachable joiner ∧
    (Client.doReceive (chatId 1) misdirected joiner).1 = .ok () ∧ chatId 5 ≠ chatId 1 ∧
    ∃ envelope : ChatEnvelope U64, decodeAs (ChatEnvelope U64) misdirected = .ok envelope ∧
      envelope.recipient = .channel (chatId 5) := by
  have hsmall : 4*256 ≤ isizeMax := by decide +kernel
  have hdecode : (decodeAs (ChatEnvelope U64) misdirected).value.map SealedEnvelope.recipient =
      some (.channel (chatId 5)) := by decide +kernel
  refine ⟨.call _ _ (.new _ _) (blankIo_sound hsmall),by decide +kernel,by decide +kernel,?_⟩
  obtain ⟨envelope,hvalue,hrecipient⟩ := Option.map_eq_some_iff.mp hdecode
  exact ⟨envelope,Outcome.value_eq_some.mp hvalue,hrecipient⟩

/-- The first message of this channel. -/
def addressed : Bytes := sealedBy 1 (chatId 1) ⟨nodeOf 1,0,1,.newChannel ⟨0,chatName,1⟩⟩

/-- The first message is received by someone who has just joined, and it is addressed to the channel. -/
theorem recipient_iff_joiner : (Client.doReceive (chatId 1) addressed joiner).1 = .ok () ∧
    ∃ envelope : ChatEnvelope U64, decodeAs (ChatEnvelope U64) addressed = .ok envelope ∧
      envelope.recipient = .channel (chatId 1) := by
  have hsmall : 4*256 ≤ isizeMax := by decide +kernel
  have hreachable : Client.Reachable joiner := .call _ _ (.new _ _) (blankIo_sound hsmall)
  have hdecode : (decodeAs (ChatEnvelope U64) addressed).value.map SealedEnvelope.recipient =
      some (.channel (chatId 1)) := by decide +kernel
  have hreceived : (Client.doReceive (chatId 1) addressed joiner).1 = .ok () := by decide +kernel
  refine ⟨hreceived,(hreachable.recipient_iff (chatId 1) addressed).mpr ?_ hreceived⟩
  intro ch envelope _ henvelope _
  rw [henvelope] at hdecode
  exact Option.some.inj hdecode

end Owner

end Finder
