import Finder.Client.Numbering

namespace Finder

variable {maxChannels maxNodes slabSize : Nat} {C P S : Type}

namespace Channel

/-- The channel later on: its keys, its counted slabs and its chat messages are still there. -/
structure Precedes [Target] (ch ch' : Channel maxNodes slabSize C P) : Prop where
  grown : ch.state.Grown ch'.state
  memory : ch.storage.io.Extends ch'.storage.io
  count : ch.chat.messageCount ≤ ch'.chat.messageCount

/-- A sound channel whose memory has nothing behind its counted slabs. -/
structure Tidy [Target] [Crypto C P S] (ch : Channel maxNodes slabSize C P) : Prop where
  sound : ch.Sound
  blank : ch.storage.io.Blank

section Take

variable [Target] [Crypto C P S] {channelId : ChannelId} {sender : NodeId} {message : Message (Protocol P)}
  {id : EnvelopeId} {bytes : Bytes} {ch ch' ch'' : Channel maxNodes slabSize C P}
  {outcome : Outcome ClientError Unit}

omit [Crypto C P S] in
theorem Precedes.refl (ch : Channel maxNodes slabSize C P) : ch.Precedes ch :=
  ⟨.refl ch.state,.refl ch.storage.io,le_refl _⟩

omit [Crypto C P S] in
theorem Precedes.trans (h : ch.Precedes ch') (h' : ch'.Precedes ch'') : ch.Precedes ch'' :=
  ⟨h.grown.trans h'.grown,h.memory.trans h'.memory,h.count.trans h'.count⟩

omit [Target] in
/-- A chat counts up, whatever comes of a message. -/
theorem acceptMessage_counts {count : U64} : Call.Keeps (fun chat : Chat maxNodes C P => count ≤ chat.messageCount)
    (Chat.acceptMessage channelId sender message.data) := by
  intro chat hcount
  rcases chat.acceptMessage_cases channelId sender message.data with ⟨_,chat',hok,htook⟩ | ⟨_,e,he⟩
  · rw [hok]
    refine hcount.trans ?_
    rw [Fin.le_def,htook.messageCount]
    cases message.data <;> simp [Chat.countAfter]
  · rw [he]
    exact hcount

theorem take_counts [Postcard Record] {count : U64} :
    Call.Keeps (fun ch : Channel maxNodes slabSize C P => count ≤ ch.chat.messageCount)
      (take channelId sender message id bytes) := by
  have hstate : ∀ {ε α : Type} (x : Call (ChannelState maxNodes P) ε α),
      Call.Keeps (fun ch : Channel maxNodes slabSize C P => count ≤ ch.chat.messageCount) (onState x) :=
    fun x => onState_keeps (J := fun _ => True) (fun _ _ => trivial) (fun _ _ => trivial) (fun _ _ h _ => h)
  have haccept : Call.Keeps (fun ch : Channel maxNodes slabSize C P => count ≤ ch.chat.messageCount)
      (accept channelId sender message id) :=
    accept_rule (onChat_keeps acceptMessage_counts (fun _ h => h) (fun _ _ _ h => h)) (hstate _) (fun _ => hstate _)
  exact haccept.bind (fun _ => (Call.keeps_read _).bind (fun _ =>
    Call.Keeps.field (J := fun _ => True) (fun _ _ => trivial) (fun _ _ => trivial) (fun _ _ h _ => h)))

/-- Whatever comes of a message, what the channel has stays. -/
theorem take_precedes [RecordCodec] (h : ch.Tidy) (channelId : ChannelId) (sender : NodeId)
    (message : Message (Protocol P)) (id : EnvelopeId) (bytes : Bytes) :
    ch.Precedes (take channelId sender message id bytes ch).2 ∧ (take channelId sender message id bytes ch).2.Tidy := by
  have hsound : (take channelId sender message id bytes ch).2.Sound := take_keeps ch h.sound
  have hcount : ch.chat.messageCount ≤ (take channelId sender message id bytes ch).2.chat.messageCount :=
    take_counts ch (le_refl _)
  rcases hrun : take channelId sender message id bytes ch with ⟨outcome,ch'⟩
  rw [hrun] at hsound hcount
  have hgrown := take_grows h.sound hrun
  rcases take_storage hrun with ⟨_,hsame⟩ | ⟨r,_,hstored⟩
  · exact ⟨⟨hgrown,by rw [hsame]; exact .refl _,hcount⟩,hsound,by rw [hsame]; exact h.blank⟩
  · have hadvanced := (store_advanced h.sound.storage hstored).1
    exact ⟨⟨hgrown,hadvanced.extends_of h.sound.storage,hcount⟩,hsound,h.blank.advanced hadvanced⟩

theorem Moves.precedes [RecordCodec] [Postcard (Message (Protocol P))] [EnvelopeCodec P] {nodeId : NodeId}
    {keyPair : KeyPair S P} {fails : Prop} (h : Moves nodeId keyPair channelId fails ch ch') (htidy : ch.Tidy) :
    ch.Precedes ch' ∧ ch'.Tidy := by
  refine h.keeps (I := fun c => ch.Precedes c ∧ c.Tidy) (fun sender message id bytes c hc => ?_) ⟨.refl ch,htidy⟩
  obtain ⟨hstep,hkept⟩ := take_precedes hc.2 channelId sender message id bytes
  exact ⟨hc.1.trans hstep,hkept⟩

end Take

end Channel

namespace ClientCall

variable [Target] [Crypto C P S] {client client' : Client maxChannels maxNodes slabSize C P S}
  {call : ClientCall slabSize P}

/-- The id a call makes a channel under, if it makes one: `init_chat` draws a nonce for its own. -/
def target [Postcard (NewChannel P)] (client : Client maxChannels maxNodes slabSize C P S) :
    ClientCall slabSize P → Option ChannelId
  | .initChat nameStr _ =>
    match HString.tryFrom nameStr with
    | none => none
    | some name =>
      match serialize (⟨(Crypto.nonce client.crypto).1,name,client.keyPair.pub⟩ : NewChannel P) scratch with
      | .ok serialized => some (Crypto.channelIdFromBytes (Crypto.nonce client.crypto).2 serialized)
      | _ => none
  | .addChannel _ channelId _ => some channelId
  | .openChat channelId _ => some channelId
  | _ => none

/-- The memory that a call is handed, if any. -/
def memory : ClientCall slabSize P → Option (MemIo slabSize)
  | .initChat _ io => some io
  | .addChannel _ _ io => some io
  | .openChat _ io => some io
  | _ => none

/-- The call makes no channel in the place of another one, nor on memory with something behind its counted slabs. -/
structure Spares [Postcard (NewChannel P)] (call : ClientCall slabSize P)
    (client : Client maxChannels maxNodes slabSize C P S) : Prop where
  free : ∀ id, call.target client = some id → client.channels.get id = none
  blank : ∀ io, call.memory = some io → io.Sound ∧ io.Blank

variable [RecordCodec] [Postcard (Message (Protocol P))] [EnvelopeCodec P] [Postcard (NewChannel P)]

theorem initChat_target {nameStr : Str} {io : MemIo slabSize} {id : ChannelId}
    (h : Client.initChat nameStr io client = (.ok id,client')) :
    (ClientCall.initChat nameStr io).target client = some id := by
  obtain ⟨nonce,drawn,hdrawn,h1⟩ := Call.bind_eq_ok.mp h
  cases hdrawn
  obtain ⟨name,_,hlift,h2⟩ := Call.bind_eq_ok.mp h1
  obtain ⟨hname,rfl⟩ := Call.lift_eq_ok.mp hlift
  obtain ⟨message,_,hread,h3⟩ := Call.bind_eq_ok.mp h2
  obtain ⟨hmessage,rfl⟩ := Call.read_eq_ok.mp hread
  obtain ⟨serialized,_,hlift,h4⟩ := Call.bind_eq_ok.mp h3
  obtain ⟨hserialized,rfl⟩ := Call.lift_eq_ok.mp hlift
  cases hmessage
  simp only [target,Outcome.okOr_eq_ok.mp hname,hserialized]
  dsimp only at h4
  split at h4
  · cases h4
  · cases h4
  · split at h4
    · cases h4
    · cases h4
    · obtain ⟨_,_,_,hpure⟩ := Call.bind_eq_ok.mp h4
      cases hpure
      rfl

/-- What a call makes, it makes under its target. -/
theorem run_target_cases (hsound : call.Sound) (hs : client.Every Channel.Sound) {outcome : Outcome ClientError Unit}
    (h : call.run client = (outcome,client')) :
    Client.Moved (outcome ≠ .ok ()) client client' ∨ ∃ id, call.target client = some id ∧
      Client.Makes id (call.Made client.keyPair id) client client' := by
  rcases run_cases hsound hs h with hmoved | ⟨rfl,id,hmakes⟩
  · exact Or.inl hmoved
  · refine Or.inr ?_
    cases call with
    | initChat nameStr io =>
      obtain ⟨id,_,hinit,hpure⟩ := Call.bind_eq_ok.mp h
      cases hpure
      rcases Client.initChat_makes hsound hinit with ⟨_,hid,hmakes⟩ | ⟨hno,_⟩
      · cases hid
        exact ⟨id,initChat_target hinit,hmakes⟩
      · exact absurd rfl (hno id)
    | addChannel sender channelId io =>
      obtain ⟨ch,⟨rfl,_⟩,_⟩ := hmakes.channels
      exact ⟨id,rfl,hmakes⟩
    | openChat channelId io =>
      obtain ⟨ch,⟨rfl,_⟩,_⟩ := hmakes.channels
      exact ⟨id,rfl,hmakes⟩
    | sendMessage channelId msg =>
      obtain ⟨ch,hno,_⟩ := hmakes.channels
      exact hno.elim
    | addNode channelId pubKey name =>
      obtain ⟨ch,hno,_⟩ := hmakes.channels
      exact hno.elim
    | receiveBuffer channelId buffer count =>
      obtain ⟨ch,hno,_⟩ := hmakes.channels
      exact hno.elim

end ClientCall

namespace Client

variable [Target] [IdealCrypto C P S] [RecordCodec] [Postcard (Message (Protocol P))] [EnvelopeCodec P]
  {client client' : Client maxChannels maxNodes slabSize C P S} {channelId : ChannelId}

/-- The channels a client had are there later, with what they had. -/
def Precedes (client client' : Client maxChannels maxNodes slabSize C P S) : Prop :=
  ∀ id ch, client.channels.get id = some ch → ∃ ch', client'.channels.get id = some ch' ∧ ch.Precedes ch'

/-- A message that has been found is found again. -/
theorem getMessage_later {ch ch' : Channel maxNodes slabSize C P} (hget : client.channels.get channelId = some ch)
    (hget' : client'.channels.get channelId = some ch') (h : ch.Precedes ch') (htidy : ch.Tidy) (htidy' : ch'.Tidy)
    {index : U64} {m : ChatMessage} (hm : client.getMessage channelId index = .ok m) :
    client'.getMessage channelId index = .ok m := by
  unfold getMessage channel at hm ⊢
  rw [hget] at hm
  rw [hget']
  obtain ⟨_,hch,h1⟩ := Outcome.bind_eq_ok.mp hm
  cases hch
  obtain ⟨found,hscan,h2⟩ := Outcome.bind_eq_ok.mp h1
  obtain ⟨cursor,hcursor,h3⟩ := Outcome.bind_eq_ok.mp h2
  obtain rfl := Outcome.okOr_eq_ok.mp hcursor
  obtain ⟨record,hread,h4⟩ := Outcome.bind_eq_ok.mp h3
  obtain ⟨⟨bytes,next⟩,hrecord,h5⟩ := Outcome.bind_eq_ok.mp h4
  obtain ⟨envelope,hdecode,h6⟩ := Outcome.bind_eq_ok.mp h5
  obtain ⟨key,hkey,h7⟩ := Outcome.bind_eq_ok.mp h6
  obtain ⟨message,hopen,h8⟩ := Outcome.bind_eq_ok.mp h7
  obtain ⟨hscan',hsame⟩ := h.memory.scan htidy.blank htidy.sound.storage.bounded (Outcome.mapErr_eq_ok.mp hscan)
  have hkey' := h.grown.getNodeKey htidy.sound.valid.sorted htidy'.sound.valid.sorted (Outcome.mapErr_eq_ok.mp hkey)
  rw [IdealCrypto.open_stateless client.crypto client'.crypto] at hopen
  rw [←hsame] at hread
  simp only [Outcome.okOr_some,Outcome.ok_bind,Storage.getCursorFromIndex,hscan',Outcome.mapErr_ok,hread,hrecord,
    hdecode,hkey',hopen]
  exact h8

variable [Postcard (NewChannel P)] {call : ClientCall slabSize P}

omit [Postcard (NewChannel P)] in
/-- A channel is made tidy. -/
theorem made_tidy {keyPair : KeyPair S P} {id : ChannelId} {ch : Channel maxNodes slabSize C P}
    (hblank : ∀ io, call.memory = some io → io.Sound ∧ io.Blank) (h : call.Made keyPair id ch) : ch.Tidy := by
  have hfresh : ∀ {key : P} {io : MemIo slabSize} {c : Channel maxNodes slabSize C P}, io.Sound ∧ io.Blank →
      freshChannel (computeId C key) key id io = .ok c → c.Tidy := by
    intro key io c hio hc
    refine ⟨Channel.freshChannel_sound hio.1 hc,?_⟩
    rw [Channel.freshChannel_storage hc]
    exact hio.2
  cases call with
  | initChat nameStr io =>
    obtain ⟨start,hstart,hmoves⟩ := h
    exact (hmoves.precedes (hfresh (hblank io rfl) hstart)).2
  | addChannel sender channelId io =>
    obtain ⟨rfl,hstart⟩ := h
    exact hfresh (hblank io rfl) hstart
  | openChat channelId io =>
    obtain ⟨rfl,rfl,hopens⟩ := h
    exact ⟨hopens.sound (hblank _ rfl).1,(hblank _ rfl).2⟩
  | sendMessage channelId msg => exact h.elim
  | addNode channelId pubKey name => exact h.elim
  | receiveBuffer channelId buffer count => exact h.elim

/-- A call that makes no channel in the place of another one keeps what every channel has. -/
theorem precedes_of_spares (hs : client.Every Channel.Tidy) (hspares : call.Spares client) :
    client.Precedes (call.run client).2 ∧ (call.run client).2.Every Channel.Tidy := by
  have hsound : call.Sound := by
    cases call <;> first | trivial | exact (hspares.blank _ rfl).1
  rcases hrun : call.run client with ⟨outcome,client'⟩
  rcases ClientCall.run_target_cases hsound (fun id ch hget => (hs id ch hget).sound) hrun with
    hmoved | ⟨id,htarget,hmakes⟩
  · refine ⟨fun id ch hget => ?_,fun id ch' hget' => ?_⟩
    · obtain ⟨ch',hget',hmoves⟩ := hmoved.channels id ch hget
      exact ⟨ch',hget',(hmoves.precedes (hs id ch hget)).1⟩
    · cases hget : client.channels.get id with
      | none =>
        rw [hmoved.unknown id hget] at hget'
        cases hget'
      | some ch =>
        obtain ⟨ch1,hget1,hmoves⟩ := hmoved.channels id ch hget
        rw [hget'] at hget1
        cases hget1
        exact (hmoves.precedes (hs id ch hget)).2
  · have hfree := hspares.free id htarget
    obtain ⟨made,hmade,hget⟩ := hmakes.channels
    refine ⟨fun id' ch hid => ⟨ch,?_,.refl ch⟩,fun id' ch hid => ?_⟩
    · rw [hget,if_neg ?_]
      · exact hid
      · rintro rfl
        rw [hfree] at hid
        cases hid
    · rw [hget] at hid
      split_ifs at hid with heq
      · cases hid
        exact made_tidy hspares.blank hmade
      · exact hs id' ch hid

/-- The client after any calls that make no channel in the place of another one, whatever their outcomes. -/
inductive Later (client : Client maxChannels maxNodes slabSize C P S) :
    Client maxChannels maxNodes slabSize C P S → Prop
  | refl : Later client client
  | call (mid : Client maxChannels maxNodes slabSize C P S) (call : ClientCall slabSize P) (h : Later client mid)
      (hspares : call.Spares mid) : Later client (call.run mid).2

theorem Later.precedes (h : Later client client') (hs : client.Every Channel.Tidy) :
    client.Precedes client' ∧ client'.Every Channel.Tidy := by
  induction h with
  | refl => exact ⟨fun id ch hget => ⟨ch,hget,.refl ch⟩,hs⟩
  | call mid call _ hspares ih =>
    obtain ⟨hstep,htidy⟩ := precedes_of_spares ih.2 hspares
    refine ⟨fun id ch hget => ?_,htidy⟩
    obtain ⟨ch1,hget1,hprecedes⟩ := ih.1 id ch hget
    obtain ⟨ch2,hget2,hlast⟩ := hstep id ch1 hget1
    exact ⟨ch2,hget2,hprecedes.trans hlast⟩

/-- History is not lost where no call makes a channel in the place of another one: messages are counted up, and
one that has been found is found at every later point. -/
theorem Later.keeps_history {keyPair : KeyPair S P} {crypto : C}
    (hstart : Later (Client.new keyPair crypto FnvIndexMap.empty) client) (h : Later client client')
    (channelId : ChannelId) :
    (∀ count, client.messageCount channelId = .ok count →
      ∃ count', client'.messageCount channelId = .ok count' ∧ count ≤ count') ∧
    ∀ index m, client.getMessage channelId index = .ok m → client'.getMessage channelId index = .ok m := by
  have hempty : (Client.new keyPair crypto FnvIndexMap.empty : Client maxChannels maxNodes slabSize C P S).Every
      Channel.Tidy := fun id ch hget => by
    simp [Client.new] at hget
  have htidy := (hstart.precedes hempty).2
  obtain ⟨hprecedes,htidy'⟩ := h.precedes htidy
  cases hget : client.channels.get channelId with
  | none =>
    refine ⟨fun count hcount => ?_,fun index m hm => ?_⟩
    · simp [messageCount,channel,hget] at hcount
    · simp [getMessage,channel,hget] at hm
  | some ch =>
    obtain ⟨ch',hget',hch⟩ := hprecedes channelId ch hget
    refine ⟨fun count hcount => ⟨ch'.chat.messageCount,by simp [messageCount,channel,hget'],?_⟩,fun index m hm =>
      getMessage_later hget hget' hch (htidy channelId ch hget) (htidy' channelId ch' hget') hm⟩
    simp only [messageCount,channel,hget,Outcome.okOr_some,Outcome.ok_bind,Outcome.ok.injEq] at hcount
    exact hcount ▸ hch.count

end Client

section Owner

open PlainCrypto

/-- The owner has sent a message. -/
def spoken : Client 2 2 256 PlainCrypto U64 U64 := (ClientCall.run (.sendMessage (chatId 1) textStr) owner).2

/-- And another one. -/
def spokenTwice : Client 2 2 256 PlainCrypto U64 U64 :=
  (ClientCall.run (.sendMessage (chatId 1) ⟨[105],rfl⟩) spoken).2

theorem spoken_found : spoken.getMessage (chatId 1) 1 = .ok ⟨⟨textStr,by decide⟩⟩ := by decide +kernel

/-- Adding the channel that is held leaves an empty one in its place. -/
theorem history_lost : Client.Reachable spoken ∧
    (ClientCall.addChannel 2 (chatId 1) (blankIo 256 4) : ClientCall 256 U64).Sound ∧
    spoken.messageCount (chatId 1) = .ok 1 ∧ (∃ m, spoken.getMessage (chatId 1) 1 = .ok m) ∧
    (ClientCall.run (.addChannel 2 (chatId 1) (blankIo 256 4)) spoken).1 = .ok () ∧
    (ClientCall.run (.addChannel 2 (chatId 1) (blankIo 256 4)) spoken).2.messageCount (chatId 1) = .ok 0 ∧
    (ClientCall.run (.addChannel 2 (chatId 1) (blankIo 256 4)) spoken).2.getMessage (chatId 1) 1 =
      .err .messageIndexOutOfBounds :=
  ⟨.call owner (.sendMessage (chatId 1) textStr) owner_reachable trivial,blankIo_sound (by decide +kernel),
    by decide +kernel,⟨_,spoken_found⟩,by decide +kernel,by decide +kernel,by decide +kernel⟩

theorem spoken_later : Client.Later (client 1 : Client 2 2 256 PlainCrypto U64 U64) spoken ∧
    Client.Later spoken spokenTwice := by
  have hzeroed : (blankIo 256 4).Zeroed := blankIo_zeroed (by decide) (by decide +kernel)
  have hinit : (ClientCall.initChat chatStr (blankIo 256 4) : ClientCall 256 U64).Spares
      (client 1 : Client 2 2 256 PlainCrypto U64 U64) := by
    refine ⟨fun id _ => FnvIndexMap.get_empty id,fun io hio => ?_⟩
    cases hio
    exact ⟨hzeroed.sound,hzeroed.blank⟩
  have hsend : ∀ msg (c : Client 2 2 256 PlainCrypto U64 U64),
      (ClientCall.sendMessage (chatId 1) msg : ClientCall 256 U64).Spares c :=
    fun msg c => ⟨fun id hid => (by cases hid),fun io hio => (by cases hio)⟩
  have howner : Client.Later (client 1 : Client 2 2 256 PlainCrypto U64 U64) owner := .call _ _ .refl hinit
  exact ⟨.call owner _ howner (hsend _ _),.call spoken _ .refl (hsend _ _)⟩

/-- The message is found when another one has been sent. -/
theorem history_kept_spoken :
    (∃ count, spokenTwice.messageCount (chatId 1) = .ok count ∧ 1 ≤ count) ∧
    spokenTwice.getMessage (chatId 1) 1 = .ok ⟨⟨textStr,by decide⟩⟩ := by
  obtain ⟨hcount,hfound⟩ := Client.Later.keeps_history spoken_later.1 spoken_later.2 (chatId 1)
  exact ⟨hcount 1 (by decide +kernel),hfound 1 _ spoken_found⟩

end Owner

end Finder
