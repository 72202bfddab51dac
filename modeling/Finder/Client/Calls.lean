import Finder.Client.Accept
import Finder.Protocol.Wire
import Finder.Storage.Store

namespace Finder

theorem envelope_length {P : Type} [EnvelopeCodec P] (envelope : ChatEnvelope P) :
    (toBytes envelope).length ≤ scratch.length := by
  have h := EnvelopeCodec.bounded envelope
  have h1 := envelope.serialized.bounded
  have h2 := envelope.signature.bounded
  simp only [maxEnvelope,maxSig] at h1 h2
  rw [scratch,List.length_replicate]
  omega

theorem serialize_envelope {P : Type} [EnvelopeCodec P] (envelope : ChatEnvelope P) :
    serialize envelope scratch = .ok (toBytes envelope) := by
  rw [serialize,toSlice_ok (envelope_length envelope)]

variable {maxNodes slabSize : Nat} {C P S : Type}

namespace Channel

/-- What `do_send` and `do_receive` do once they have a message and its bytes. -/
def take [Target] [Crypto C P S] [Postcard Record] (channelId : ChannelId) (sender : NodeId)
    (message : Message (Protocol P)) (id : EnvelopeId) (bytes : Bytes) :
    Call (Channel maxNodes slabSize C P) ClientError Unit := do
  let maxSequence ← accept channelId sender message id
  let messageCount ← Call.read (fun ch => .ok ch.chat.messageCount)
  onStorage (onWriter (writeRecord maxSequence messageCount message.sequence sender bytes))

/-- A call succeeds by taking a message of the sender in. -/
structure Taken [Target] [Crypto C P S] [Postcard Record] (ch ch' : Channel maxNodes slabSize C P)
    (channelId : ChannelId) (sender : NodeId) (message : Message (Protocol P)) (id : EnvelopeId)
    (bytes : Bytes) (record : Record) : Prop where
  accepted : Accepted ch { ch' with storage := ch.storage } channelId sender message id record.maxSequence
  count : record.messageCount = ch'.chat.messageCount
  sequence : record.sequence = message.sequence
  sender : record.sender = sender
  data : record.data = bytes
  stored : onWriter (writeRecord record.maxSequence record.messageCount record.sequence record.sender
    record.data) ch.storage = (.ok (),ch'.storage)

/-- The record a channel is about to store for a message it takes. -/
def recordOf (ch : Channel maxNodes slabSize C P) (sender : NodeId) (message : Message (Protocol P))
    (bytes : Bytes) : Record :=
  { maxSequence :=
      match ch.state.getCurrent with
      | .ok current => max current.sequence message.sequence
      | _ => message.sequence
    messageCount :=
      match message.data with
      | .chatMessage _ => ch.chat.messageCount+1
      | _ => ch.chat.messageCount
    sequence := message.sequence
    sender := sender
    data := bytes }

/-- There is a slab for the record, but the record is too large for it. -/
def RecordRefused [RecordCodec] (ch : Channel maxNodes slabSize C P) (record : Record) : Prop :=
  ch.storage.io.HasSlab ∧ slabSize < (slabBytes [record]).length

structure Sound [Target] [Crypto C P S] (ch : Channel maxNodes slabSize C P) : Prop where
  keyed : ch.state.Keyed C
  storage : ch.storage.io.Sound
  chat : ch.chat.Ran

theorem Sound.valid [Target] [Crypto C P S] {ch : Channel maxNodes slabSize C P} (hs : ch.Sound) :
    ch.state.Valid := hs.keyed.valid

variable [Target] [Crypto C P S] [RecordCodec] {ch : Channel maxNodes slabSize C P} {channelId : ChannelId}
  {sender : NodeId} {message : Message (Protocol P)} {id : EnvelopeId} {bytes : Bytes}

omit [Target] [RecordCodec] in
theorem recordOf_eq (hv : ch.state.Valid) {ch' : Channel maxNodes slabSize C P} {maxSequence : U64}
    (h : Accepted ch ch' channelId sender message id maxSequence) (bytes : Bytes) :
    (recordOf ch sender message bytes).maxSequence = maxSequence ∧
      (recordOf ch sender message bytes).messageCount = ch'.chat.messageCount := by
  obtain ⟨st,hreceived,_⟩ := h.state
  obtain ⟨c,hc,_,hmax⟩ := hreceived.newest
  obtain ⟨c',hcur,hc',_⟩ := hv.getCurrent_eq
  obtain rfl : c' = c := Option.some.inj (hc'.symm.trans hc)
  refine ⟨by simp [recordOf,hcur,hmax],?_⟩
  have hcount := h.chat.messageCount
  have hallow := h.allowed
  apply Fin.ext
  rw [hcount]
  cases hdata : message.data with
  | newChannel m => simp [recordOf,hdata,Chat.countAfter]
  | addUser m => simp [recordOf,hdata,Chat.countAfter]
  | chatMessage m =>
    rw [hdata] at hallow
    have hlt := hallow.2
    simp only [recordOf,hdata,Chat.countAfter,Fin.val_add]
    exact Nat.mod_eq_of_lt hlt

/-- The call passes every check and fails after the channel has been changed. -/
def FailsLate (ch : Channel maxNodes slabSize C P) (channelId : ChannelId) (sender : NodeId)
    (message : Message (Protocol P)) (bytes : Bytes) : Prop :=
  (ch.state.Receivable sender message ∧ ch.chat.Allows channelId sender message.data) ∧
    (UserRefused ch message ∨ RecordRefused ch (recordOf ch sender message bytes))

theorem take_early (hs : ch.Sound)
    (h : ¬(ch.state.Receivable sender message ∧ ch.chat.Allows channelId sender message.data))
    (id : EnvelopeId) (bytes : Bytes) :
    ∃ e, take channelId sender message id bytes ch = (.err e,ch) := by
  obtain ⟨e,he⟩ := accept_early hs.valid h id
  exact ⟨e,Call.bind_err he⟩

/-- Behind the checks and the table there is only the storage. -/
theorem take_store (hs : ch.Sound) (hrec : ch.state.Receivable sender message)
    (hallow : ch.chat.Allows channelId sender message.data) (huser : ¬UserRefused ch message)
    (id : EnvelopeId) (bytes : Bytes) :
    ∃ ch1, Accepted ch ch1 channelId sender message id (recordOf ch sender message bytes).maxSequence ∧
      take channelId sender message id bytes ch =
        onStorage (onWriter (writeRecord (recordOf ch sender message bytes).maxSequence
          (recordOf ch sender message bytes).messageCount (recordOf ch sender message bytes).sequence
          (recordOf ch sender message bytes).sender (recordOf ch sender message bytes).data)) ch1 := by
  obtain ⟨maxSequence,ch1,hok,hacc⟩ := accept_ok hs.valid hrec hallow huser id
  obtain ⟨hmax,hcount⟩ := recordOf_eq hs.valid hacc bytes
  refine ⟨ch1,hmax ▸ hacc,?_⟩
  rw [hmax,hcount]
  exact Call.bind_ok hok

theorem take_refused (hs : ch.Sound) (h : FailsLate ch channelId sender message bytes) (id : EnvelopeId) :
    ∃ e ch', take channelId sender message id bytes ch = (.err e,ch') ∧
      e ≠ .channelError .alreadyReceived ∧ ch'.state.sequenceOf sender ≠ ch.state.sequenceOf sender := by
  obtain ⟨⟨hrec,hallow⟩,hlate⟩ := h
  by_cases huser : UserRefused ch message
  · obtain ⟨e,ch',he,hno,hseq⟩ := accept_refused hs.valid hrec hallow huser id
    exact ⟨e,ch',Call.bind_err he,hno,hseq⟩
  · obtain ⟨hslab,hlarge⟩ := hlate.resolve_left huser
    obtain ⟨ch1,hacc,htake⟩ := take_store hs hrec hallow huser id bytes
    rcases store_cases hs.storage (recordOf ch sender message bytes) with
      ⟨_,hfits,_⟩ | ⟨_,_,st',hst',_⟩ | ⟨hno,_⟩
    · omega
    · refine ⟨.storageError .slabFull,{ ch1 with storage := st' },?_,by simp,hacc.sequence_ne⟩
      rw [htake]
      simp [onStorage,hacc.storage,hst']
    · exact absurd hslab hno

theorem take_atomic (hs : ch.Sound) (h : ¬FailsLate ch channelId sender message bytes) {e : ClientError}
    {ch' : Channel maxNodes slabSize C P}
    (he : take channelId sender message id bytes ch = (.err e,ch')) : ch' = ch := by
  by_cases hearly : ch.state.Receivable sender message ∧ ch.chat.Allows channelId sender message.data
  swap
  · obtain ⟨e',he'⟩ := take_early hs hearly id bytes
    rw [he] at he'
    cases he'
    rfl
  have hlate := not_and.mp h hearly
  rw [not_or] at hlate
  obtain ⟨ch1,hacc,htake⟩ := take_store hs hearly.1 hearly.2 hlate.1 id bytes
  rw [htake] at he
  rcases store_cases hs.storage (recordOf ch sender message bytes) with
    ⟨_,_,st',hst',_⟩ | ⟨hslab,hlarge,_⟩ | ⟨_,hst'⟩
  · simp [onStorage,hacc.storage,hst'] at he
  · exact absurd ⟨hslab,hlarge⟩ hlate.2
  · simp [onStorage,hacc.storage,hst'] at he

/-- A message that is passed over leaves the channel as it was. -/
theorem take_alreadyReceived (hs : ch.Sound) {ch' : Channel maxNodes slabSize C P}
    (h : take channelId sender message id bytes ch = (.err (.channelError .alreadyReceived),ch')) : ch' = ch := by
  by_cases hlate : FailsLate ch channelId sender message bytes
  · obtain ⟨e,ch'',he,hno,_⟩ := take_refused hs hlate id
    rw [h] at he
    cases he
    exact absurd rfl hno
  · exact take_atomic hs hlate h

theorem take_ok (hs : ch.Sound) {ch' : Channel maxNodes slabSize C P}
    (h : take channelId sender message id bytes ch = (.ok (),ch')) :
    Taken ch ch' channelId sender message id bytes (recordOf ch sender message bytes) := by
  by_cases hearly : ch.state.Receivable sender message ∧ ch.chat.Allows channelId sender message.data
  swap
  · obtain ⟨e',he'⟩ := take_early hs hearly id bytes
    rw [h] at he'
    cases he'
  by_cases huser : UserRefused ch message
  · obtain ⟨e,ch'',he,_⟩ := accept_refused hs.valid hearly.1 hearly.2 huser id
    have htake : take channelId sender message id bytes ch = (.err e,ch'') := Call.bind_err he
    rw [h] at htake
    cases htake
  obtain ⟨ch1,hacc,htake⟩ := take_store hs hearly.1 hearly.2 huser id bytes
  obtain ⟨_,hcount⟩ := recordOf_eq hs.valid hacc bytes
  rw [htake] at h
  obtain ⟨st',hst',rfl⟩ := Call.field_eq_ok.mp h
  rw [hacc.storage] at hst'
  exact ⟨⟨hacc.state,hacc.allowed,hacc.chat,rfl⟩,hcount,rfl,rfl,rfl,hst'⟩

omit [Target] [Crypto C P S] [RecordCodec] in
theorem onState_keeps {I : Channel maxNodes slabSize C P → Prop} {J : ChannelState maxNodes P → Prop}
    {ε α : Type} {x : Call (ChannelState maxNodes P) ε α} (hx : Call.Keeps J x)
    (hget : ∀ ch, I ch → J ch.state) (hset : ∀ ch st, I ch → J st → I { ch with state := st }) :
    Call.Keeps I (onState x) := hx.field hget hset

omit [Target] [Crypto C P S] [RecordCodec] in
theorem onChat_keeps {I : Channel maxNodes slabSize C P → Prop} {J : Chat maxNodes C P → Prop}
    {ε α : Type} {x : Call (Chat maxNodes C P) ε α} (hx : Call.Keeps J x)
    (hget : ∀ ch, I ch → J ch.chat) (hset : ∀ ch chat, I ch → J chat → I { ch with chat := chat }) :
    Call.Keeps I (onChat x) := hx.field hget hset

omit [Target] [RecordCodec] in
/-- What the chat, the table and the entry of a new user keep, accepting keeps. -/
theorem accept_rule {I : Channel maxNodes slabSize C P → Prop}
    (hchat : Call.Keeps I (onChat (Call.mapErr ClientError.chatError
      (Chat.acceptMessage channelId sender message.data))))
    (hreceive : Call.Keeps I (onState (Call.mapErr (fun _ => ClientError.unreachable)
      (ChannelState.receive sender message id))))
    (hadd : ∀ key, Call.Keeps I (onState (Call.mapErr ClientError.channelError
      (ChannelState.addNode (computeId C key) key)))) :
    Call.Keeps I (accept channelId sender message id) := by
  refine (Call.keeps_read _).bind (fun _ => hchat.bind (fun result => hreceive.bind (fun _ => ?_)))
  cases result with
  | addUser key => exact (hadd key).bind (fun _ => Call.keeps_pure _)
  | newMessage count => exact Call.keeps_pure _
  | none => exact Call.keeps_pure _

omit [RecordCodec] in
theorem accept_keeps : Call.Keeps Sound (accept channelId sender message id :
    Call (Channel maxNodes slabSize C P) ClientError U64) := by
  have hstate : ∀ {ε α : Type} {x : Call (ChannelState maxNodes P) ε α},
      Call.Keeps (fun st => st.Keyed C) x →
        Call.Keeps Sound (onState x : Call (Channel maxNodes slabSize C P) ε α) :=
    fun hx => onState_keeps hx (fun _ hs => hs.keyed) (fun _ _ hs hk => ⟨hk,hs.storage,hs.chat⟩)
  refine accept_rule ?_ (hstate ((ChannelState.receive_keyed _ _ _).mapErr _))
    (fun key => hstate ((ChannelState.addNode_keyed key).mapErr _))
  exact onChat_keeps ((Chat.acceptMessage_keeps _ _ _).mapErr _) (fun _ hs => hs.chat)
    (fun _ _ hs hc => ⟨hs.keyed,hs.storage,hc⟩)

theorem store_keeps {maxSequence messageCount sequence : U64} : Call.Keeps Sound
    (onStorage (onWriter (writeRecord maxSequence messageCount sequence sender bytes)) :
      Call (Channel maxNodes slabSize C P) ClientError Unit) := by
  intro ch hs
  rcases store_cases hs.storage ⟨maxSequence,messageCount,sequence,sender,bytes⟩ with
    ⟨_,_,st,hst,hsound⟩ | ⟨_,_,st,hst,hsound⟩ | ⟨_,hst⟩
  all_goals simp only [onStorage,Call.field_apply,hst]
  · exact ⟨hs.keyed,hsound,hs.chat⟩
  · exact ⟨hs.keyed,hsound,hs.chat⟩
  · exact hs

theorem take_keeps : Call.Keeps Sound (take channelId sender message id bytes :
    Call (Channel maxNodes slabSize C P) ClientError Unit) :=
  accept_keeps.bind (fun _ => (Call.keeps_read _).bind (fun _ => store_keeps))

section Envelopes

variable [Postcard (Message (Protocol P))] [EnvelopeCodec P] {crypto : C} {nodeId : NodeId}
  {keyPair : KeyPair S P} {data : Protocol P} {envelope : ChatEnvelope P} {ch' : Channel maxNodes slabSize C P}
  {outcome : Outcome ClientError Unit}

omit [Postcard (Message (Protocol P))] in
/-- The serialized envelope always fits the scratch array, so storing it is storing its bytes. -/
theorem store_envelope (maxSequence messageCount sequence : U64) : (onWriter (do
    let serialized ← Call.lift (serialize envelope scratch)
    writeRecord maxSequence messageCount sequence sender serialized) : Call (Storage slabSize) ClientError Unit) =
      onWriter (writeRecord maxSequence messageCount sequence sender (toBytes envelope)) := by
  congr 1
  funext w
  exact Call.bind_ok (by simp [serialize_envelope])

theorem doSend_eq_take (haddress : ch.state.address nodeId data = .ok message)
    (hseal : Crypto.sealEnvelope crypto nodeId (.channel channelId) keyPair message scratch.length =
      .ok envelope) :
    doSend crypto nodeId keyPair channelId data ch =
      take channelId nodeId message (Crypto.envelopeId crypto envelope) (toBytes envelope) ch := by
  unfold doSend take
  rw [Call.bind_ok (a := message) (t := ch) (by simp [haddress]),
    Call.bind_ok (a := envelope) (t := ch) (by simp [hseal])]
  simp only [store_envelope]

/-- Before there is an envelope a call has changed nothing. -/
theorem doSend_unsealed (h : ¬∃ message, ch.state.address nodeId data = .ok message ∧
    ∃ envelope : ChatEnvelope P, Crypto.sealEnvelope crypto nodeId (.channel channelId) keyPair message
      scratch.length = .ok envelope) :
    ∃ outcome, outcome ≠ .ok () ∧ doSend crypto nodeId keyPair channelId data ch = (outcome,ch) := by
  unfold doSend
  cases haddress : ch.state.address nodeId data with
  | err e => exact ⟨.err (.channelError e),by simp,Call.bind_err (by simp [haddress])⟩
  | panic => exact ⟨.panic,by simp,Call.bind_panic (by simp [haddress])⟩
  | ok message =>
    rw [Call.bind_ok (a := message) (t := ch) (by simp [haddress])]
    cases hseal : (Crypto.sealEnvelope crypto nodeId (.channel channelId) keyPair message
        scratch.length : Outcome CryptoError (ChatEnvelope P)) with
    | err e => exact ⟨.err (.cryptoError e),by simp,Call.bind_err (by simp)⟩
    | panic => exact ⟨.panic,by simp,Call.bind_panic (by simp)⟩
    | ok envelope => exact absurd ⟨message,haddress,envelope,hseal⟩ h

theorem doSend_cases (h : doSend crypto nodeId keyPair channelId data ch = (outcome,ch')) :
    (∃ (message : Message (Protocol P)) (envelope : ChatEnvelope P), ch.state.address nodeId data = .ok message ∧
      Crypto.sealEnvelope crypto nodeId (.channel channelId) keyPair message scratch.length = .ok envelope ∧
      take channelId nodeId message (Crypto.envelopeId crypto envelope) (toBytes envelope) ch = (outcome,ch')) ∨
    (outcome ≠ .ok () ∧ ch' = ch) := by
  by_cases hsealed : ∃ message, ch.state.address nodeId data = .ok message ∧
      ∃ envelope : ChatEnvelope P, Crypto.sealEnvelope crypto nodeId (.channel channelId) keyPair message
        scratch.length = .ok envelope
  · obtain ⟨message,haddress,envelope,hseal⟩ := hsealed
    rw [doSend_eq_take haddress hseal] at h
    exact Or.inl ⟨message,envelope,haddress,hseal,h⟩
  · obtain ⟨result,hno,hsame⟩ := doSend_unsealed hsealed
    rw [h] at hsame
    cases hsame
    exact Or.inr ⟨hno,rfl⟩

omit [EnvelopeCodec P] in
theorem doReceive_eq_take {key : P} (hkey : ch.state.getNodeKey envelope.sender = .ok key)
    (hopen : Crypto.openEnvelope crypto key envelope = .ok message) :
    doReceive crypto channelId envelope bytes ch =
      take channelId envelope.sender message (Crypto.envelopeId crypto envelope) bytes ch := by
  unfold doReceive take
  rw [Call.bind_ok (a := key) (t := ch) (by simp [hkey]),Call.bind_ok (a := message) (t := ch) (by simp [hopen])]

omit [EnvelopeCodec P] in
/-- An envelope that does not open has changed nothing, and is not taken for one received before. -/
theorem doReceive_unopened (h : ¬∃ key, ch.state.getNodeKey envelope.sender = .ok key ∧
    ∃ message, Crypto.openEnvelope crypto key envelope = .ok message) :
    ∃ outcome, (outcome ≠ .ok () ∧ outcome ≠ .err (.channelError .alreadyReceived)) ∧
      doReceive crypto channelId envelope bytes ch = (outcome,ch) := by
  unfold doReceive
  rcases ChannelState.getNodeKey_cases ch.state envelope.sender with ⟨key,hkey⟩ | hkey | hkey
  · rw [Call.bind_ok (a := key) (t := ch) (by simp [hkey])]
    cases hopen : Crypto.openEnvelope crypto key envelope with
    | err e => exact ⟨.err (.cryptoError e),by simp,Call.bind_err (by simp)⟩
    | panic => exact ⟨.panic,by simp,Call.bind_panic (by simp)⟩
    | ok message => exact absurd ⟨key,hkey,message,hopen⟩ h
  · exact ⟨.err (.channelError .unknownNode),by simp,Call.bind_err (by simp [hkey])⟩
  · exact ⟨.err (.channelError .unreachable),by simp,Call.bind_err (by simp [hkey])⟩

omit [EnvelopeCodec P] in
theorem doReceive_cases (h : doReceive crypto channelId envelope bytes ch = (outcome,ch')) :
    (∃ (key : P) (message : Message (Protocol P)), ch.state.getNodeKey envelope.sender = .ok key ∧
      Crypto.openEnvelope crypto key envelope = .ok message ∧
      take channelId envelope.sender message (Crypto.envelopeId crypto envelope) bytes ch = (outcome,ch')) ∨
    ((outcome ≠ .ok () ∧ outcome ≠ .err (.channelError .alreadyReceived)) ∧ ch' = ch) := by
  by_cases hopened : ∃ key, ch.state.getNodeKey envelope.sender = .ok key ∧
      ∃ message, Crypto.openEnvelope crypto key envelope = .ok message
  · obtain ⟨key,hkey,message,hopen⟩ := hopened
    rw [doReceive_eq_take hkey hopen] at h
    exact Or.inl ⟨key,message,hkey,hopen,h⟩
  · obtain ⟨result,hno,hsame⟩ := doReceive_unopened hopened
    rw [h] at hsame
    cases hsame
    exact Or.inr ⟨hno,rfl⟩

end Envelopes

end Channel

end Finder
