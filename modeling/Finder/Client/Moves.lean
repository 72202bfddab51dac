import Finder.Client.Replay

namespace Finder

variable {maxChannels maxNodes slabSize : Nat} {C P S : Type}

namespace Channel

/-- What the calls of a client do to one of its channels: messages it seals itself, or that bytes carry,
are taken in one after the other. A step that does not succeed counts only where `fails` is so. -/
inductive Moves [Target] [Crypto C P S] [RecordCodec] [Postcard (Message (Protocol P))] [EnvelopeCodec P]
    (nodeId : NodeId) (keyPair : KeyPair S P) (channelId : ChannelId) (fails : Prop)
    (ch : Channel maxNodes slabSize C P) : Channel maxNodes slabSize C P → Prop
  | refl : Moves nodeId keyPair channelId fails ch ch
  | sent (mid ch' : Channel maxNodes slabSize C P) (crypto : C) (data : Protocol P)
      (message : Message (Protocol P)) (envelope : ChatEnvelope P) (outcome : Outcome ClientError Unit)
      (h : Moves nodeId keyPair channelId fails ch mid) (haddress : mid.state.address nodeId data = .ok message)
      (hseal : Crypto.sealEnvelope crypto nodeId (.channel channelId) keyPair message scratch.length =
        .ok envelope)
      (htake : take channelId nodeId message (Crypto.envelopeId crypto envelope) (toBytes envelope) mid =
        (outcome,ch')) (houtcome : outcome = .ok () ∨ fails) : Moves nodeId keyPair channelId fails ch ch'
  | received (mid ch' : Channel maxNodes slabSize C P) (crypto : C) (bytes : Bytes) (sender : NodeId)
      (message : Message (Protocol P)) (id : EnvelopeId) (outcome : Outcome ClientError Unit)
      (h : Moves nodeId keyPair channelId fails ch mid) (hcarries : Carries crypto mid.state bytes sender message id)
      (htake : take channelId sender message id bytes mid = (outcome,ch')) (houtcome : outcome = .ok () ∨ fails) :
      Moves nodeId keyPair channelId fails ch ch'

variable [Target] [Crypto C P S] [RecordCodec] [Postcard (Message (Protocol P))] [EnvelopeCodec P]
  {crypto : C} {nodeId : NodeId} {keyPair : KeyPair S P} {channelId : ChannelId} {fails fails' : Prop}
  {ch mid ch' : Channel maxNodes slabSize C P} {outcome : Outcome ClientError Unit}

theorem Moves.mono (h : Moves nodeId keyPair channelId fails ch ch') (hfails : fails → fails') :
    Moves nodeId keyPair channelId fails' ch ch' := by
  induction h with
  | refl => exact .refl
  | sent mid ch' crypto data message envelope outcome _ haddress hseal htake houtcome ih =>
    exact .sent mid ch' crypto data message envelope outcome ih haddress hseal htake (houtcome.imp_right hfails)
  | received mid ch' crypto bytes sender message id outcome _ hcarries htake houtcome ih =>
    exact .received mid ch' crypto bytes sender message id outcome ih hcarries htake (houtcome.imp_right hfails)

theorem Moves.trans (h : Moves nodeId keyPair channelId fails ch mid)
    (h' : Moves nodeId keyPair channelId fails mid ch') : Moves nodeId keyPair channelId fails ch ch' := by
  induction h' with
  | refl => exact h
  | sent last ch' crypto data message envelope outcome _ haddress hseal htake houtcome ih =>
    exact .sent last ch' crypto data message envelope outcome ih haddress hseal htake houtcome
  | received last ch' crypto bytes sender message id outcome _ hcarries htake houtcome ih =>
    exact .received last ch' crypto bytes sender message id outcome ih hcarries htake houtcome

/-- What taking a message in keeps, whatever the message and the outcome, a channel keeps as it moves. -/
theorem Moves.keeps {I : Channel maxNodes slabSize C P → Prop}
    (hI : ∀ sender message id bytes, Call.Keeps I (take channelId sender message id bytes :
      Call (Channel maxNodes slabSize C P) ClientError Unit))
    (h : Moves nodeId keyPair channelId fails ch ch') (hch : I ch) : I ch' := by
  induction h with
  | refl => exact hch
  | sent mid ch' crypto data message envelope outcome _ _ _ htake _ ih =>
    have hkept := hI nodeId message (Crypto.envelopeId crypto envelope) (toBytes envelope) mid ih
    rwa [htake] at hkept
  | received mid ch' crypto bytes sender message id outcome _ _ htake _ ih =>
    have hkept := hI sender message id bytes mid ih
    rwa [htake] at hkept

theorem Moves.sound (h : Moves nodeId keyPair channelId fails ch ch') (hs : ch.Sound) : ch'.Sound :=
  h.keeps (fun _ _ _ _ => take_keeps) hs

theorem doSend_moves {data : Protocol P} (h : doSend crypto nodeId keyPair channelId data ch = (outcome,ch')) :
    Moves nodeId keyPair channelId (outcome ≠ .ok ()) ch ch' := by
  rcases doSend_cases h with ⟨message,envelope,haddress,hseal,htake⟩ | ⟨_,rfl⟩
  · exact .sent ch ch' crypto data message envelope outcome .refl haddress hseal htake (Classical.em _)
  · exact .refl

theorem doReceive_moves {envelope : ChatEnvelope P} {bytes : Bytes}
    (hdecode : decodeAs (ChatEnvelope P) bytes = .ok envelope)
    (h : doReceive crypto channelId envelope bytes ch = (outcome,ch')) :
    Moves nodeId keyPair channelId (outcome ≠ .ok ()) ch ch' := by
  rcases doReceive_cases h with ⟨key,message,hkey,hopen,htake⟩ | ⟨_,rfl⟩
  · exact .received ch ch' crypto bytes envelope.sender message _ outcome .refl
      ⟨envelope,key,hdecode,rfl,hkey,hopen,rfl⟩ htake (Classical.em _)
  · exact .refl

omit [EnvelopeCodec P] in
/-- A frame that is passed over has changed nothing. -/
theorem doReceive_alreadyReceived [Postcard (ChatEnvelope P)] {envelope : ChatEnvelope P} {bytes : Bytes}
    (hs : ch.Sound)
    (h : doReceive crypto channelId envelope bytes ch = (.err (.channelError .alreadyReceived),ch')) :
    ch' = ch := by
  rcases doReceive_cases h with ⟨_,_,_,_,htake⟩ | ⟨_,hsame⟩
  · exact take_alreadyReceived hs htake
  · exact hsame

/-- `init_chat` takes in the new channel as a message that the client seals itself. -/
theorem init_takes {m : NewChannel P} (hs : ch.Sound)
    (h : init crypto nodeId keyPair channelId (.newChannel m) ch = (.ok (),ch')) :
    ∃ (message : Message (Protocol P)) (envelope : ChatEnvelope P),
      ch.state.address nodeId (.newChannel m) = .ok message ∧
      Crypto.sealEnvelope crypto nodeId (.channel channelId) keyPair message scratch.length = .ok envelope ∧
      take channelId nodeId message (Crypto.envelopeId crypto envelope) (toBytes envelope) ch = (.ok (),ch') := by
  unfold init at h
  simp only [store_envelope] at h
  obtain ⟨message,_,hread,h1⟩ := Call.bind_eq_ok.mp h
  obtain ⟨haddressed,rfl⟩ := Call.read_eq_ok.mp hread
  obtain ⟨envelope,_,hlift,h2⟩ := Call.bind_eq_ok.mp h1
  obtain ⟨hsealed,rfl⟩ := Call.lift_eq_ok.mp hlift
  obtain ⟨_,_,hcheck,h3⟩ := Call.bind_eq_ok.mp h2
  obtain ⟨result,ch1,hchat,h4⟩ := Call.bind_eq_ok.mp h3
  obtain ⟨maxSequence,ch2,hreceive,hstore⟩ := Call.bind_eq_ok.mp h4
  have haddress := Outcome.mapErr_eq_ok.mp haddressed
  have hdata : message.data = .newChannel m := by
    obtain ⟨_,_,_,_,_,_,_,hdata⟩ := hs.valid.address_eq_ok.mp haddress
    exact hdata
  have hresult : result = .none := by
    obtain ⟨chat,hok,_⟩ := Call.field_eq_ok.mp hchat
    have hof := (Chat.acceptMessage_eq_ok (Call.mapErr_eq_ok.mp hok)).2.2
    rw [hof,hdata]
    rfl
  subst hresult
  have haccept : accept channelId nodeId message (Crypto.envelopeId crypto envelope) ch =
      (.ok maxSequence,ch2) := by
    unfold accept
    rw [Call.bind_ok hcheck,Call.bind_ok hchat]
    refine (Call.bind_ok (a := maxSequence) (t := ch2) ?_).trans rfl
    obtain ⟨st,hok,rfl⟩ := Call.field_eq_ok.mp hreceive
    exact Call.field_eq_ok.mpr ⟨st,Call.mapErr_eq_ok.mpr (Call.mapErr_eq_ok.mp hok),rfl⟩
  exact ⟨message,envelope,haddress,Outcome.mapErr_eq_ok.mp hsealed,(Call.bind_ok haccept).trans hstore⟩

/-- So making the channel is one move. -/
theorem init_moves {m : NewChannel P} (hs : ch.Sound)
    (h : init crypto nodeId keyPair channelId (.newChannel m) ch = (.ok (),ch')) :
    Moves nodeId keyPair channelId False ch ch' := by
  obtain ⟨message,envelope,haddress,hseal,htake⟩ := init_takes hs h
  exact .sent ch ch' crypto _ message envelope (.ok ()) .refl haddress hseal htake (Or.inl rfl)

/-- What `open_chat` makes of a memory: a new channel, or one that all records in it have been replayed to. -/
def Opens (creator : P) (channelId : ChannelId) (ch : Channel maxNodes slabSize C P) : Prop :=
  ∃ start : Channel maxNodes slabSize C P,
    Client.freshChannel (computeId C creator) creator channelId ch.storage.io = .ok start ∧
    ∃ (crypto : C) (ds : List Bytes), ch.storage.records = .ok ds ∧
      replayAll crypto channelId ds (start.state,start.chat) = (.ok (),(ch.state,ch.chat))

theorem Opens.sound {creator : P} (hio : ch.storage.io.Sound)
    (h : Opens creator channelId ch) : ch.Sound := by
  obtain ⟨start,hfresh,crypto,ds,_,hreplay⟩ := h
  have hstart := freshChannel_sound hio hfresh
  have hkept := replayAll_keeps crypto channelId ds (start.state,start.chat) ⟨hstart.keyed,hstart.chat⟩
  rw [hreplay] at hkept
  exact ⟨hkept.1,hio,hkept.2⟩

end Channel

namespace Client

variable {client mid client' : Client maxChannels maxNodes slabSize C P S} {channelId : ChannelId}
  {outcome : Outcome ClientError Unit} {fails fails' : Prop}

/-- A call that has made a channel has put it in its place. -/
structure Makes (channelId : ChannelId) (made : Channel maxNodes slabSize C P → Prop)
    (client client' : Client maxChannels maxNodes slabSize C P S) : Prop where
  nodeId : client'.nodeId = client.nodeId
  keyPair : client'.keyPair = client.keyPair
  channels : ∃ ch, made ch ∧
    ∀ id, client'.channels.get id = if id = channelId then some ch else client.channels.get id

/-- A call that has made no channel has at most drawn a nonce. -/
structure Idle (client client' : Client maxChannels maxNodes slabSize C P S) : Prop where
  nodeId : client'.nodeId = client.nodeId
  keyPair : client'.keyPair = client.keyPair
  channels : client'.channels = client.channels

theorem Idle.trans (h : Idle client mid) (h' : Idle mid client') : Idle client client' :=
  ⟨h'.nodeId.trans h.nodeId,h'.keyPair.trans h.keyPair,h'.channels.trans h.channels⟩

theorem Idle.makes {made : Channel maxNodes slabSize C P → Prop} (h : Idle client mid)
    (h' : Makes channelId made mid client') : Makes channelId made client client' := by
  refine ⟨h'.nodeId.trans h.nodeId,h'.keyPair.trans h.keyPair,?_⟩
  rw [←h.channels]
  exact h'.channels

theorem Makes.imp {made made' : Channel maxNodes slabSize C P → Prop} (h : Makes channelId made client client')
    (hmade : ∀ ch, made ch → made' ch) : Makes channelId made' client client' := by
  obtain ⟨ch,hch,hget⟩ := h.channels
  exact ⟨h.nodeId,h.keyPair,ch,hmade ch hch,hget⟩

section Making

theorem insertChannel_eq {ch : Channel maxNodes slabSize C P} {made : Channel maxNodes slabSize C P → Prop}
    (hmade : made ch) (h : insertChannel channelId ch client = (outcome,client')) :
    (outcome = .ok () ∧ Makes channelId made client client') ∨ (outcome ≠ .ok () ∧ Idle client client') := by
  rcases insertChannel_cases channelId ch client with ⟨channels,hok,hget⟩ | hfull
  · rw [h] at hok
    cases hok
    exact Or.inl ⟨rfl,rfl,rfl,ch,hmade,hget⟩
  · rw [h] at hfull
    cases hfull
    exact Or.inr ⟨by simp,rfl,rfl,rfl⟩

/-- A channel that is put in, and its id given back. -/
theorem insertChannel_pure {ch : Channel maxNodes slabSize C P} {made : Channel maxNodes slabSize C P → Prop}
    {result : Outcome ClientError ChannelId} (hmade : made ch)
    (h : (insertChannel channelId ch >>= fun _ => pure channelId :
      Call (Client maxChannels maxNodes slabSize C P S) ClientError ChannelId) client = (result,client')) :
    (result = .ok channelId ∧ Makes channelId made client client') ∨
      ((∀ id, result ≠ .ok id) ∧ Idle client client') := by
  obtain ⟨outcome,c,hins,⟨_,rfl,hpure⟩ | ⟨hno,hfails,rfl⟩⟩ := Call.bind_cases h
  · rcases insertChannel_eq hmade hins with ⟨_,hmakes⟩ | ⟨hno,_⟩
    · cases hpure
      exact Or.inl ⟨rfl,hmakes⟩
    · exact absurd rfl hno
  · rcases insertChannel_eq hmade hins with ⟨hok,_⟩ | ⟨_,hidle⟩
    · exact absurd hok (hno ())
    · exact Or.inr ⟨hfails,hidle⟩

variable [Crypto C P S] {io : MemIo slabSize}

theorem addChannel_makes {sender : P} (h : addChannel sender channelId io client = (outcome,client')) :
    (outcome = .ok () ∧ Makes channelId
      (fun ch => freshChannel (computeId C sender) sender channelId io = .ok ch) client client') ∨
    (outcome ≠ .ok () ∧ Idle client client') := by
  unfold addChannel at h
  cases hfresh : (freshChannel (computeId C sender) sender channelId io :
      Outcome ClientError (Channel maxNodes slabSize C P)) with
  | err e =>
    rw [hfresh] at h
    cases h
    exact Or.inr ⟨by simp,rfl,rfl,rfl⟩
  | panic =>
    rw [hfresh] at h
    cases h
    exact Or.inr ⟨by simp,rfl,rfl,rfl⟩
  | ok ch =>
    rw [hfresh] at h
    exact insertChannel_eq rfl h

variable [Target] [RecordCodec] [Postcard (Message (Protocol P))] [EnvelopeCodec P]

theorem openChat_makes (h : openChat channelId io client = (outcome,client')) :
    (outcome = .ok () ∧ Makes channelId
      (fun ch => ch.storage.io = io ∧ Channel.Opens client.keyPair.pub channelId ch) client client') ∨
    (outcome ≠ .ok () ∧ Idle client client') := by
  unfold openChat at h
  replace h := Call.after_ok h rfl
  rcases Call.lift_bind_cases h with ⟨ch,hfresh,h1⟩ | ⟨hno,hsame⟩
  swap
  · exact Or.inr ⟨hno (),by rw [show client' = client from hsame]; exact ⟨rfl,rfl,rfl⟩⟩
  have hio : ch.storage.io = io := by rw [Channel.freshChannel_storage hfresh]
  have hfresh' := hfresh
  rw [←hio] at hfresh'
  rcases Call.lift_bind_cases h1 with ⟨start,hstart,h2⟩ | ⟨hno,hsame⟩
  swap
  · exact Or.inr ⟨hno (),by rw [show client' = client from hsame]; exact ⟨rfl,rfl,rfl⟩⟩
  replace hstart := Outcome.mapErr_eq_ok.mp hstart
  cases start with
  | none =>
    have hopens : Channel.Opens client.keyPair.pub channelId ch :=
      ⟨ch,hfresh',client.crypto,[],by simp [Storage.records,hstart],rfl⟩
    exact insertChannel_eq ⟨hio,hopens⟩ h2
  | some cursor =>
    rcases hrun : (Channel.replayFrom client.crypto channelId ch.storage ch.storage.steps cursor
      (ch.state,ch.chat)) with ⟨_ | _ | _,st⟩
    all_goals
      simp only [hrun] at h2
    · obtain ⟨ds,hreads,hlen,hreplay⟩ := Channel.replayFrom_eq_ok hrun
      have hrecords : ch.storage.records = .ok ds := by
        simp [Storage.records,hstart,hreads.readFrom _ hlen]
      have hopens : Channel.Opens client.keyPair.pub channelId { ch with state := st.1, chat := st.2 } :=
        ⟨ch,hfresh',client.crypto,ds,hrecords,hreplay⟩
      exact insertChannel_eq (by exact ⟨hio,hopens⟩) h2
    · cases h2
      exact Or.inr ⟨by simp,rfl,rfl,rfl⟩
    · cases h2
      exact Or.inr ⟨by simp,rfl,rfl,rfl⟩

theorem initChat_makes [Postcard (NewChannel P)] {nameStr : Str} (hio : io.Sound)
    {result : Outcome ClientError ChannelId} (h : initChat nameStr io client = (result,client')) :
    (∃ id, result = .ok id ∧ Makes id (fun ch => ∃ start,
      freshChannel (computeId C client.keyPair.pub) client.keyPair.pub id io = .ok start ∧
        Channel.Moves (computeId C client.keyPair.pub) client.keyPair id False start ch) client client') ∨
    ((∀ id, result ≠ .ok id) ∧ Idle client client') := by
  obtain ⟨drawn,hdrawn⟩ : ∃ c, c = { client with crypto := (Crypto.nonce client.crypto).2 } := ⟨_,rfl⟩
  unfold initChat at h
  replace h := Call.after_ok (a := (Crypto.nonce client.crypto).1) (t := drawn) h (by rw [hdrawn])
  have hidle : ∀ {c}, c = drawn → Idle client c := fun hc => by
    rw [hc,hdrawn]
    exact ⟨rfl,rfl,rfl⟩
  have hkey : drawn.keyPair = client.keyPair := by rw [hdrawn]
  rcases Call.lift_bind_cases h with ⟨name,_,h1⟩ | ⟨hno,hsame⟩
  swap
  · exact Or.inr ⟨hno,hidle hsame⟩
  obtain ⟨message,hmessage⟩ : ∃ m : NewChannel P, m = ⟨(Crypto.nonce client.crypto).1,name,drawn.keyPair.pub⟩ :=
    ⟨_,rfl⟩
  replace h1 := (Call.bind_ok (a := message) (t := drawn) (by simp [hmessage])).symm.trans h1
  rcases Call.lift_bind_cases h1 with ⟨serialized,_,h2⟩ | ⟨hno,hsame⟩
  swap
  · exact Or.inr ⟨hno,hidle hsame⟩
  obtain ⟨id,hid⟩ : ∃ id, id = Crypto.channelIdFromBytes drawn.crypto serialized := ⟨_,rfl⟩
  simp only [←hid] at h2
  cases hfresh : (freshChannel (computeId C drawn.keyPair.pub) drawn.keyPair.pub id io :
      Outcome ClientError (Channel maxNodes slabSize C P)) with
  | err e =>
    rw [hfresh] at h2
    cases h2
    exact Or.inr ⟨by simp,hidle rfl⟩
  | panic =>
    rw [hfresh] at h2
    cases h2
    exact Or.inr ⟨by simp,hidle rfl⟩
  | ok start =>
    simp only [hfresh] at h2
    rcases hrun : Channel.init drawn.crypto (computeId C drawn.keyPair.pub) drawn.keyPair id (.newChannel message)
      start with ⟨_ | _ | _,ch⟩
    all_goals
      simp only [hrun] at h2
    · have hmoves := Channel.init_moves (Channel.freshChannel_sound hio hfresh) hrun
      rw [hkey] at hfresh hmoves
      have hinserted : (result = .ok id ∧ Makes id (fun ch => ∃ start,
          freshChannel (computeId C client.keyPair.pub) client.keyPair.pub id io = .ok start ∧
            Channel.Moves (computeId C client.keyPair.pub) client.keyPair id False start ch) drawn client') ∨
          ((∀ id, result ≠ .ok id) ∧ Idle drawn client') := insertChannel_pure ⟨start,hfresh,hmoves⟩ h2
      rcases hinserted with ⟨hok,hmakes⟩ | ⟨hno,hidle'⟩
      · exact Or.inl ⟨id,hok,(hidle rfl).makes hmakes⟩
      · exact Or.inr ⟨hno,(hidle rfl).trans hidle'⟩
    · cases h2
      exact Or.inr ⟨by simp,hidle rfl⟩
    · cases h2
      exact Or.inr ⟨by simp,hidle rfl⟩

end Making

variable [Target] [Crypto C P S] [RecordCodec] [Postcard (Message (Protocol P))] [EnvelopeCodec P]

/-- What a call that sends or receives does to a client: its channels move, and it has no others. -/
structure Moved (fails : Prop) (client client' : Client maxChannels maxNodes slabSize C P S) : Prop where
  nodeId : client'.nodeId = client.nodeId
  keyPair : client'.keyPair = client.keyPair
  unknown : ∀ id, client.channels.get id = none → client'.channels.get id = none
  channels : ∀ id ch, client.channels.get id = some ch → ∃ ch', client'.channels.get id = some ch' ∧
    Channel.Moves client.nodeId client.keyPair id fails ch ch'

theorem Moved.refl (client : Client maxChannels maxNodes slabSize C P S) : Moved fails client client :=
  ⟨rfl,rfl,fun _ h => h,fun _ ch h => ⟨ch,h,.refl⟩⟩

theorem Moved.mono (h : Moved fails client client') (hfails : fails → fails') : Moved fails' client client' :=
  ⟨h.nodeId,h.keyPair,h.unknown,fun id ch hget =>
    (h.channels id ch hget).imp (fun _ hch => ⟨hch.1,hch.2.mono hfails⟩)⟩

theorem Moved.trans (h : Moved fails client mid) (h' : Moved fails mid client') : Moved fails client client' := by
  refine ⟨h'.nodeId.trans h.nodeId,h'.keyPair.trans h.keyPair,
    fun id hget => h'.unknown id (h.unknown id hget),fun id ch hget => ?_⟩
  obtain ⟨ch1,hget1,hmoves⟩ := h.channels id ch hget
  obtain ⟨ch2,hget2,hmoves'⟩ := h'.channels id ch1 hget1
  rw [h.nodeId,h.keyPair] at hmoves'
  exact ⟨ch2,hget2,hmoves.trans hmoves'⟩

/-- A channel that is there after the move was there before it. -/
theorem Moved.before (h : Moved fails client client') {id : ChannelId} {ch' : Channel maxNodes slabSize C P}
    (hget' : client'.channels.get id = some ch') : ∃ ch, client.channels.get id = some ch ∧
      Channel.Moves client.nodeId client.keyPair id fails ch ch' := by
  cases hget : client.channels.get id with
  | none =>
    rw [h.unknown id hget] at hget'
    cases hget'
  | some ch =>
    obtain ⟨ch1,hget1,hmoves⟩ := h.channels id ch hget
    rw [hget'] at hget1
    cases hget1
    exact ⟨ch,rfl,hmoves⟩

theorem Moved.sound (h : Moved fails client client') (hs : Every Channel.Sound client) :
    Every Channel.Sound client' := by
  intro id ch' hget'
  obtain ⟨ch,hget,hmoves⟩ := h.before hget'
  exact hmoves.sound (hs id ch hget)

theorem onChannel_moved {α : Type} {x : Call (Channel maxNodes slabSize C P) ClientError α}
    {result : Outcome ClientError α}
    (hx : ∀ ch, client.channels.get channelId = some ch → ∀ ch', x ch = (result,ch') →
      Channel.Moves client.nodeId client.keyPair channelId fails ch ch')
    (h : onChannel channelId x client = (result,client')) : Moved fails client client' := by
  rcases onChannel_cases h with ⟨_,_,rfl⟩ | ⟨ch,ch',hget,hrun,rfl⟩
  · exact .refl _
  · have hother := channels_set hget ch'
    refine ⟨rfl,rfl,fun id hid => ?_,fun id ch1 hid => ?_⟩
    · rw [hother]
      split_ifs with heq
      · subst heq
        rw [hget] at hid
        cases hid
      · exact hid
    · by_cases heq : id = channelId
      · subst heq
        rw [hget] at hid
        cases hid
        exact ⟨ch',by rw [hother,if_pos rfl],hx ch hget ch' hrun⟩
      · exact ⟨ch1,by rw [hother,if_neg heq,hid],.refl⟩

theorem doSend_moved {data : Protocol P} (h : doSend channelId data client = (outcome,client')) :
    Moved (outcome ≠ .ok ()) client client' :=
  onChannel_moved (fun _ _ _ hrun => Channel.doSend_moves hrun) h

omit [RecordCodec] [EnvelopeCodec P] in
/-- Bytes that are an envelope go to the channel. -/
theorem doReceive_decoded [Postcard Record] [Postcard (ChatEnvelope P)] {bytes : Bytes} {envelope : ChatEnvelope P}
    (hdecode : decodeAs (ChatEnvelope P) bytes = .ok envelope) : doReceive channelId bytes client =
      onChannel channelId (Channel.doReceive client.crypto channelId envelope bytes) client := by
  unfold doReceive
  rw [hdecode]
  rfl

omit [RecordCodec] [EnvelopeCodec P] in
/-- A frame of the buffer is received before the rest. -/
theorem receiveFrames_next [Postcard Record] [Postcard (ChatEnvelope P)] {buffer frame : Bytes}
    {count offset len start stop : Nat} (hlen : readU32 buffer offset = .ok (len,start))
    (hstop : plainAdd usizeMax start len = (.ok stop : Outcome ClientError Nat))
    (hframe : getRange buffer start stop = some frame) :
    receiveFrames channelId buffer (count+1) offset client =
      match doReceive channelId frame client with
      | (.ok _,client) => receiveFrames channelId buffer count stop client
      | (.err (.channelError .alreadyReceived),client) => receiveFrames channelId buffer count stop client
      | (.err e,client) => (.err e,client)
      | (.panic,client) => (.panic,client) := by
  rw [receiveFrames]
  refine (Call.bind_ok (a := (len,start)) (t := client) (by simp [hlen])).trans ?_
  refine (Call.bind_ok (a := stop) (t := client) (by simp [hstop])).trans ?_
  exact Call.bind_ok (a := frame) (t := client) (by simp [hframe])

omit [RecordCodec] [EnvelopeCodec P] in
/-- Where a call that receives ends: before it has looked at a channel, or with what the channel comes to. -/
theorem doReceive_cases [Postcard Record] [Postcard (ChatEnvelope P)] {bytes : Bytes}
    (h : doReceive channelId bytes client = (outcome,client')) :
    (∃ e, e ≠ .channelError .alreadyReceived ∧ outcome = .err e ∧ client' = client) ∨
    ∃ envelope ch ch', decodeAs (ChatEnvelope P) bytes = .ok envelope ∧ client.channels.get channelId = some ch ∧
      Channel.doReceive client.crypto channelId envelope bytes ch = (outcome,ch') ∧
      client' = { client with channels := client.channels.set channelId ch' } := by
  cases hread : (fromBytes bytes : Except PostcardError (ChatEnvelope P)) with
  | error e =>
    have hdecode : decodeAs (ChatEnvelope P) bytes = .err (.serializationError e) := by simp [decodeAs,hread]
    have herr : doReceive channelId bytes client = (.err (.serializationError e),client) :=
      Call.bind_err (by simp [hdecode])
    rw [h] at herr
    cases herr
    exact Or.inl ⟨_,by simp,rfl,rfl⟩
  | ok envelope =>
    have hdecode : decodeAs (ChatEnvelope P) bytes = .ok envelope := by simp [decodeAs,hread]
    rw [doReceive_decoded hdecode] at h
    rcases onChannel_cases h with ⟨_,rfl,rfl⟩ | ⟨ch,ch',hget,hrun,rfl⟩
    · exact Or.inl ⟨_,by simp,rfl,rfl⟩
    · exact Or.inr ⟨envelope,ch,ch',hdecode,hget,hrun,rfl⟩

theorem doReceive_moved {bytes : Bytes} (h : doReceive channelId bytes client = (outcome,client')) :
    Moved (outcome ≠ .ok ()) client client' := by
  rcases doReceive_cases h with ⟨_,_,_,rfl⟩ | ⟨envelope,_,_,hdecode,_,_,_⟩
  · exact .refl _
  · rw [doReceive_decoded hdecode] at h
    exact onChannel_moved (fun _ _ _ hrun => Channel.doReceive_moves hdecode hrun) h

theorem doReceive_alreadyReceived {bytes : Bytes} (hs : Every Channel.Sound client)
    (h : doReceive channelId bytes client = (.err (.channelError .alreadyReceived),client')) : client' = client := by
  rcases doReceive_cases h with ⟨_,_,_,hsame⟩ | ⟨envelope,ch,ch',_,hget,hrun,rfl⟩
  · exact hsame
  · obtain rfl := Channel.doReceive_alreadyReceived (hs channelId ch hget) hrun
    rw [FnvIndexMap.set_self hget]

theorem receiveFrames_moved {buffer : Bytes} {count offset : Nat} (hs : Every Channel.Sound client)
    (h : receiveFrames channelId buffer count offset client = (outcome,client')) :
    Moved (outcome ≠ .ok ()) client client' := by
  induction count generalizing offset client with
  | zero =>
    cases h
    exact .refl _
  | succ count ih =>
    rw [receiveFrames] at h
    rcases Call.lift_bind_cases h with ⟨p,_,h1⟩ | ⟨_,hsame⟩
    swap
    · exact (show client' = client from hsame) ▸ .refl _
    rcases Call.lift_bind_cases h1 with ⟨stop,_,h2⟩ | ⟨_,hsame⟩
    swap
    · exact (show client' = client from hsame) ▸ .refl _
    rcases Call.lift_bind_cases h2 with ⟨envelopeBytes,_,h3⟩ | ⟨_,hsame⟩
    swap
    · exact (show client' = client from hsame) ▸ .refl _
    split at h3
    · rename_i mid hrun
      have hfirst : Moved (outcome ≠ .ok ()) client mid := (doReceive_moved hrun).mono (fun hno => absurd rfl hno)
      exact hfirst.trans (ih (hfirst.sound hs) h3)
    · rename_i mid hrun
      rw [doReceive_alreadyReceived hs hrun] at h3
      exact ih hs h3
    · rename_i e mid _ hrun
      cases h3
      exact (doReceive_moved hrun).mono (fun _ => by simp)
    · rename_i mid hrun
      cases h3
      exact (doReceive_moved hrun).mono (fun _ => by simp)

theorem Idle.moved (h : Idle client client') : Moved fails client client' := by
  refine ⟨h.nodeId,h.keyPair,fun id hget => ?_,fun id ch hget => ⟨ch,?_,.refl⟩⟩
  · rw [h.channels]
    exact hget
  · rw [h.channels]
    exact hget

end Client

namespace ClientCall

variable [Target] [Crypto C P S] [RecordCodec] [Postcard (Message (Protocol P))] [EnvelopeCodec P]

/-- The channel that a call makes, and under which id. -/
def Made (keyPair : KeyPair S P) : ClientCall slabSize P → ChannelId → Channel maxNodes slabSize C P → Prop
  | .initChat _ io,id,ch => ∃ start,
    Client.freshChannel (computeId C keyPair.pub) keyPair.pub id io = .ok start ∧
      Channel.Moves (computeId C keyPair.pub) keyPair id False start ch
  | .addChannel sender channelId io,id,ch =>
    id = channelId ∧ Client.freshChannel (computeId C sender) sender channelId io = .ok ch
  | .openChat channelId io,id,ch =>
    id = channelId ∧ ch.storage.io = io ∧ Channel.Opens keyPair.pub channelId ch
  | _,_,_ => False

/-- Everything a call can do: it moves the channels there are, or it makes one. -/
theorem run_cases [Postcard (NewChannel P)] {call : ClientCall slabSize P} (hsound : call.Sound)
    {client client' : Client maxChannels maxNodes slabSize C P S} {outcome : Outcome ClientError Unit}
    (hs : client.Every Channel.Sound) (h : call.run client = (outcome,client')) :
    Client.Moved (outcome ≠ .ok ()) client client' ∨
      (outcome = .ok () ∧ ∃ id, Client.Makes id (call.Made client.keyPair id) client client') := by
  cases call with
  | initChat nameStr io =>
    obtain ⟨result,c,hrun,⟨id,rfl,hpure⟩ | ⟨hno,_,rfl⟩⟩ := Call.bind_cases
      (show (Client.initChat nameStr io >>= fun _ => pure ()) client = (outcome,client') from h)
    · rcases Client.initChat_makes hsound hrun with ⟨_,hid,hmakes⟩ | ⟨hno,_⟩
      · cases hid
        cases hpure
        exact Or.inr ⟨rfl,id,hmakes⟩
      · exact absurd rfl (hno id)
    · rcases Client.initChat_makes hsound hrun with ⟨id,hok,_⟩ | ⟨_,hidle⟩
      · exact absurd hok (hno id)
      · exact Or.inl hidle.moved
  | addChannel sender channelId io =>
    rcases Client.addChannel_makes h with ⟨hok,hmakes⟩ | ⟨_,hidle⟩
    · exact Or.inr ⟨hok,channelId,hmakes.imp (fun _ hfresh => ⟨rfl,hfresh⟩)⟩
    · exact Or.inl hidle.moved
  | openChat channelId io =>
    rcases Client.openChat_makes h with ⟨hok,hmakes⟩ | ⟨_,hidle⟩
    · exact Or.inr ⟨hok,channelId,hmakes.imp (fun _ hopens => ⟨rfl,hopens⟩)⟩
    · exact Or.inl hidle.moved
  | sendMessage channelId msg =>
    refine Or.inl ?_
    rcases Call.lift_bind_cases h with ⟨text,_,hsend⟩ | ⟨_,hsame⟩
    · exact Client.doSend_moved hsend
    · exact (show client' = client from hsame) ▸ .refl _
  | addNode channelId pubKey name =>
    refine Or.inl ?_
    rcases Call.lift_bind_cases h with ⟨nameString,_,hsend⟩ | ⟨_,hsame⟩
    · exact Client.doSend_moved hsend
    · exact (show client' = client from hsame) ▸ .refl _
  | receiveBuffer channelId buffer count => exact Or.inl (Client.receiveFrames_moved hs h)

end ClientCall

end Finder
