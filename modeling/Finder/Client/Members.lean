import Finder.Client.Runs

namespace Finder

variable {maxChannels maxNodes slabSize : Nat} {C P S : Type}

/-- The key that a message brings into the table. -/
def Protocol.added : Protocol P → Option P
  | .addUser m => some m.key
  | _ => none

/-- The key that a message brings into the chat. -/
def Protocol.admitted : Protocol P → Option P
  | .addUser m => some m.key
  | .newChannel m => some m.owner
  | .chatMessage _ => none

section Accept

variable [Crypto C P S] {ch ch' : Channel maxNodes slabSize C P} {channelId : ChannelId} {sender : NodeId}
  {message : Message (Protocol P)} {id : EnvelopeId} {maxSequence : U64}

theorem Chat.Took.users_iff {maxUsers : Nat} {chat chat' : Chat maxUsers C P} {message : Protocol P}
    (h : chat.Took chat' message) (n : NodeId) : chat'.users.containsKey n = true ↔
      chat.users.containsKey n = true ∨ ∃ key, message.admitted = some key ∧ computeId C key = n := by
  have hinsert : ∀ key, chat.users.insert (computeId C key) key = some chat'.users →
      (chat'.users.containsKey n = true ↔ chat.users.containsKey n = true ∨ computeId C key = n) := by
    intro key hkey
    rw [FnvIndexMap.containsKey,FnvIndexMap.insert_get hkey]
    split_ifs with hn
    · simp [hn]
    · simp [FnvIndexMap.containsKey,Ne.symm hn]
  have husers := h.users
  cases message with
  | newChannel m => simpa [Protocol.admitted] using hinsert m.owner husers
  | addUser m => simpa [Protocol.admitted] using hinsert m.key husers
  | chatMessage m => simp [Protocol.admitted,←Option.some.inj husers]

theorem Accepted.knows_iff (h : Accepted ch ch' channelId sender message id maxSequence) (n : NodeId) :
    (ch'.state.record n).isSome = true ↔
      (ch.state.record n).isSome = true ∨ ∃ key, message.data.added = some key ∧ computeId C key = n := by
  obtain ⟨st,hreceived,hstate⟩ := h.state
  rw [←hreceived.knows n]
  cases hdata : message.data with
  | newChannel m =>
    rw [hdata] at hstate
    simp [hstate,Protocol.added]
  | chatMessage m =>
    rw [hdata] at hstate
    simp [hstate,Protocol.added]
  | addUser m =>
    rw [hdata] at hstate
    rw [hstate.records n]
    split_ifs with hn
    · simp [hn,Protocol.added]
    · simp [hn,Protocol.added]

end Accept

namespace Channel

/-- The nodes of the table are the users of the chat. -/
def Agree (ch : Channel maxNodes slabSize C P) : Prop :=
  ∀ n, n ∈ ch.state.listNodes.map NodeSequence.node ↔ ch.chat.users.containsKey n = true

/-- Some message of the log made the channel. -/
def Opened (log : List (Entry P)) : Prop := ∃ e ∈ log, ∃ m, e.message.data = .newChannel m

/-- The key is the creator's, or some message of the log brought it into the table. -/
def Member (creator : P) (log : List (Entry P)) (key : P) : Prop :=
  key = creator ∨ ∃ e ∈ log, e.message.data.added = some key

/-- Every new channel of the log names a key that was in the table by then. -/
def OwnersKnown (creator : P) (log : List (Entry P)) : Prop :=
  ∀ before e after m, log = before ++ e::after → e.message.data = .newChannel m → Member creator before m.owner

theorem OwnersKnown.init {creator : P} {log : List (Entry P)} {e : Entry P} (h : OwnersKnown creator (log ++ [e])) :
    OwnersKnown creator log := by
  intro before x after m hlog hx
  exact h before x (after ++ [e]) m (by simp [hlog]) hx

variable [IdealCrypto C P S] [Postcard (Message (Protocol P))] [EnvelopeCodec P] {channelId : ChannelId}
  {creator : P} {log : List (Entry P)} {ch : Channel maxNodes slabSize C P}

omit [IdealCrypto C P S] [Postcard (Message (Protocol P))] [EnvelopeCodec P] in
theorem agree_iff (hs : ch.state.Sorted) : ch.Agree ↔
    ∀ n, (ch.state.record n).isSome = true ↔ ch.chat.users.containsKey n = true :=
  forall_congr' (fun _ => iff_congr hs.mem_nodes_iff Iff.rfl)

/-- The table holds the creator and the users that were added. -/
theorem Story.knows_iff (h : Story channelId creator log ch) (n : NodeId) :
    (ch.state.record n).isSome = true ↔ ∃ key, Member creator log key ∧ computeId C key = n := by
  induction h with
  | new ch hstate _ =>
    rw [ChannelState.new_record hstate]
    split_ifs with hn <;> simp [Member,hn]
  | accept log ch ch' crypto e maxSequence h _ haccepted ih =>
    rw [haccepted.knows_iff n,ih]
    constructor
    · rintro (⟨key,hkey | ⟨x,hx,hkey⟩,hn⟩ | ⟨key,hkey,hn⟩)
      · exact ⟨key,Or.inl hkey,hn⟩
      · exact ⟨key,Or.inr ⟨x,List.mem_append_left _ hx,hkey⟩,hn⟩
      · exact ⟨key,Or.inr ⟨e,by simp,hkey⟩,hn⟩
    · rintro ⟨key,hkey | ⟨x,hx,hkey⟩,hn⟩
      · exact Or.inl ⟨key,Or.inl hkey,hn⟩
      · rcases List.mem_append.mp hx with hx | hx
        · exact Or.inl ⟨key,Or.inr ⟨x,hx,hkey⟩,hn⟩
        · rw [List.mem_singleton.mp hx] at hkey
          exact Or.inr ⟨key,hkey,hn⟩
  | store log ch storage _ ih => exact ih

/-- Every key that a message brought into the chat is a user's. -/
theorem Story.admits (h : Story channelId creator log ch) {e : Entry P} (he : e ∈ log) {key : P}
    (hkey : e.message.data.admitted = some key) : ch.chat.users.containsKey (computeId C key) = true := by
  induction h with
  | new ch _ _ => cases he
  | accept log ch ch' crypto x maxSequence h _ haccepted ih =>
    rw [haccepted.chat.users_iff]
    rcases List.mem_append.mp he with he | he
    · exact Or.inl (ih he)
    · rw [List.mem_singleton.mp he] at hkey
      exact Or.inr ⟨key,hkey,rfl⟩
  | store log ch storage _ ih => exact ih he

/-- Before its first new channel a chat has no owner and no users, and has added none. -/
theorem Story.unopened (h : Story channelId creator log ch) (hno : ¬Opened log) :
    ch.chat.ownerId = none ∧ (∀ n, ch.chat.users.containsKey n = false) ∧ ∀ e ∈ log, e.message.data.added = none := by
  induction h with
  | new ch _ hchat =>
    rw [hchat]
    exact ⟨rfl,fun n => by simp [Chat.new,FnvIndexMap.containsKey],by simp⟩
  | accept log ch ch' crypto e maxSequence h _ haccepted ih =>
    have hearlier : ¬Opened log := by
      intro hopened
      obtain ⟨x,hx,hm⟩ := hopened
      exact hno ⟨x,List.mem_append_left _ hx,hm⟩
    obtain ⟨howner,husers,hadded⟩ := ih hearlier
    have hallow := haccepted.allowed
    cases hdata : e.message.data with
    | newChannel m => exact absurd ⟨e,by simp,m,hdata⟩ hno
    | addUser m =>
      rw [hdata] at hallow
      rw [hallow.1] at howner
      cases howner
    | chatMessage m =>
      rw [hdata] at hallow
      have hsender := husers e.sender
      rw [hallow.1] at hsender
      cases hsender
  | store log ch storage _ ih => exact ih hno

/-- A chat that has an owner or a user has been opened. -/
theorem Story.opened (h : Story channelId creator log ch) {n : NodeId}
    (hmember : ch.chat.ownerId = some n ∨ ch.chat.users.containsKey n = true) : Opened log := by
  by_contra hno
  obtain ⟨howner,husers,_⟩ := h.unopened hno
  rw [howner,husers n] at hmember
  simp at hmember

/-- Where every new channel names a member, the table and the chat have the same members from the first one on. -/
theorem Story.same_members (h : Story channelId creator log ch) (hknown : OwnersKnown creator log)
    (hopened : Opened log) (n : NodeId) :
    (ch.state.record n).isSome = true ↔ ch.chat.users.containsKey n = true := by
  induction h with
  | new ch _ _ =>
    obtain ⟨e,he,_⟩ := hopened
    cases he
  | accept log ch ch' crypto e maxSequence h _ haccepted ih =>
    rw [haccepted.knows_iff n,haccepted.chat.users_iff n]
    have hbefore := ih hknown.init
    cases hdata : e.message.data with
    | newChannel m =>
      have hmember := hknown log e [] m rfl hdata
      by_cases hearlier : Opened log
      · rw [hbefore hearlier]
        simp only [Protocol.added,Protocol.admitted,reduceCtorEq,false_and,exists_false,or_false,
          Option.some.injEq,exists_eq_left']
        refine ⟨Or.inl,fun hn => hn.elim id (fun hn => ?_)⟩
        rw [←hbefore hearlier,h.knows_iff]
        exact ⟨m.owner,hmember,hn⟩
      · -- nothing has been added yet, so the owner is the creator
        obtain ⟨_,husers,hadded⟩ := h.unopened hearlier
        rw [h.knows_iff,husers n]
        simp only [Protocol.added,Protocol.admitted,reduceCtorEq,false_and,exists_false,or_false,false_or,
          Option.some.injEq,exists_eq_left']
        have hcreator : ∀ key, Member creator log key → key = creator := by
          rintro key (hkey | ⟨x,hx,hkey⟩)
          · exact hkey
          · rw [hadded x hx] at hkey
            cases hkey
        constructor
        · rintro ⟨key,hkey,hn⟩
          rw [hcreator _ hmember,←hcreator key hkey]
          exact hn
        · exact fun hn => ⟨m.owner,hmember,hn⟩
    | addUser m =>
      have hallow := haccepted.allowed
      rw [hdata] at hallow
      rw [hbefore (h.opened (Or.inl hallow.1))]
      rfl
    | chatMessage m =>
      have hallow := haccepted.allowed
      rw [hdata] at hallow
      rw [hbefore (h.opened (Or.inr hallow.1))]
      rfl
  | store log ch storage _ ih => exact ih hknown hopened

/-- The channel as it was when it had accepted only the first messages of its log. -/
theorem Story.before {before after : List (Entry P)} (h : Story channelId creator (before ++ after) ch) :
    ∃ ch' : Channel maxNodes slabSize C P, Story channelId creator before ch' := by
  induction after using List.reverseRecOn generalizing ch with
  | nil => exact ⟨ch,by simpa using h⟩
  | append_singleton after e ih =>
    rw [←List.append_assoc] at h
    generalize hall : before ++ after ++ [e] = all at h
    induction h with
    | new ch _ _ => simp at hall
    | accept log mid ch' crypto e' maxSequence h _ _ _ =>
      obtain ⟨rfl,_⟩ := List.append_inj' hall rfl
      exact ih h
    | store log ch storage _ ihs => exact ihs hall

/-- From the first new channel on the table and the chat agree, after every message, exactly if every new
channel names a key that was in the table by then. -/
theorem Story.agree_iff (h : Story channelId creator log ch) :
    (∀ before after (c : Channel maxNodes slabSize C P), log = before ++ after → Story channelId creator before c →
      Opened before → c.Agree) ↔ OwnersKnown creator log := by
  constructor
  · intro hagree before e after m hlog hm
    have hsplit : log = (before ++ [e]) ++ after := by simp [hlog]
    obtain ⟨c,hc⟩ := (hsplit ▸ h).before
    have hsame := (Channel.agree_iff hc.valid.sorted).mp (hagree _ after c hsplit hc ⟨e,by simp,m,hm⟩)
      (computeId C m.owner)
    have howner := hc.admits (show e ∈ before ++ [e] by simp)
      (show e.message.data.admitted = some m.owner by rw [hm]; rfl)
    obtain ⟨key,hkey,hid⟩ := (hc.knows_iff _).mp (hsame.mpr howner)
    obtain rfl := computeId_injective C hid
    rcases hkey with hkey | ⟨x,hx,hkey⟩
    · exact Or.inl hkey
    · rcases List.mem_append.mp hx with hx | hx
      · exact Or.inr ⟨x,hx,hkey⟩
      · rw [List.mem_singleton.mp hx,hm] at hkey
        cases hkey
  · intro hknown before after c hlog hc hopened
    refine (Channel.agree_iff hc.valid.sorted).mpr (hc.same_members ?_ hopened)
    intro b e a m hb hm
    exact hknown b e (a ++ after) m (by simp [hlog,hb]) hm

end Channel

/-- The tables of a channel agree after its first new channel and from then on, exactly if every new channel
it has accepted names a key that was in the table by then. -/
theorem Client.OkRun.tables_agree_iff [Target] [IdealCrypto C P S] [RecordCodec] [Postcard (Message (Protocol P))]
    [EnvelopeCodec P] [Postcard (NewChannel P)] {client : Client maxChannels maxNodes slabSize C P S}
    {creators : ChannelId → Option P} {log : ChannelId → List (Entry P)}
    (h : OkRun MemIo.Sound MemIo.Sound client creators log) {channelId : ChannelId}
    {ch : Channel maxNodes slabSize C P} (hget : client.channels.get channelId = some ch) :
    ∃ creator, creators channelId = some creator ∧ Channel.Story channelId creator (log channelId) ch ∧
      ∀ log', Channel.Story channelId creator log' ch →
        ((∀ before after (c : Channel maxNodes slabSize C P), log' = before ++ after →
          Channel.Story channelId creator before c → Channel.Opened before → c.Agree) ↔
            Channel.OwnersKnown creator log') := by
  obtain ⟨creator,hcreator,hstory⟩ := h.story.channels channelId ch hget
  exact ⟨creator,hcreator,hstory,fun _ hstory' => hstory'.agree_iff⟩

section Owner

open PlainCrypto

/-- A client that has joined the owner's channel. -/
def joiner : Client 2 2 256 PlainCrypto U64 U64 :=
  (ClientCall.run (.addChannel 1 (chatId 1) (blankIo 256 4)) (client 2)).2

theorem joiner_okRun {fresh kept : MemIo 256 → Prop} (hio : fresh (blankIo 256 4)) :
    Client.OkRun fresh kept joiner startedByOwner (fun _ => []) := by
  have hpaired : Paired PlainCrypto (⟨2,2⟩ : KeyPair U64 U64) := (rfl : (2 : U64) = 2)
  have hnew : Client.OkRun fresh kept (client 2 : Client 2 2 256 PlainCrypto U64 U64) (fun _ => none) (fun _ => []) :=
    .new _ ⟨0⟩ hpaired
  have hok : (Client.addChannel 1 (chatId 1) (blankIo 256 4) (client 2 : Client 2 2 256 PlainCrypto U64 U64)).1 =
      .ok () := by decide +kernel
  have hrun : Client.OkRun fresh kept joiner startedByOwner
      (Function.update (fun _ => []) (chatId 1) ([] : List (Entry U64))) :=
    .addChannel _ joiner _ _ 1 (chatId 1) (blankIo 256 4) hnew hio (run_eq hok rfl)
  rwa [Function.update_eq_self] at hrun

/-- The channel's first message, in which its creator names a key that nobody has added. -/
def naming : Bytes := sealedBy 1 (chatId 1) ⟨nodeOf 1,0,1,.newChannel ⟨0,HString.new,3⟩⟩

/-- The named owner is a user of the chat without a key in the table. -/
theorem stranger_is_user : ∃ (client : Client 2 2 256 PlainCrypto U64 U64) (creators : ChannelId → Option U64)
    (log : ChannelId → List (Entry U64)) (ch : Channel 2 256 PlainCrypto U64),
    Client.OkRun MemIo.Sound MemIo.Sound client creators log ∧
      client.channels.get (chatId 1) = some ch ∧ ch.chat.ownerId = some (nodeOf 3) ∧ ¬ch.Agree := by
  have hsmall : 4*256 ≤ isizeMax := by decide +kernel
  have hok : (ClientCall.run (.receiveBuffer (chatId 1) (framed naming) 1) joiner).1 = .ok () := by decide +kernel
  obtain ⟨client,hclient⟩ : ∃ c, c = (ClientCall.run (.receiveBuffer (chatId 1) (framed naming) 1) joiner).2 :=
    ⟨_,rfl⟩
  have hafter : (client.channels.get (chatId 1)).map (fun ch => (ch.chat.ownerId,ch.chat.users.containsKey (nodeOf 3),
      decide (nodeOf 3 ∈ ch.state.listNodes.map NodeSequence.node))) = some (some (nodeOf 3),true,false) := by
    rw [hclient]
    decide +kernel
  obtain ⟨ch,hch,hsame⟩ := Option.map_eq_some_iff.mp hafter
  simp only [Prod.mk.injEq,decide_eq_false_iff_not] at hsame
  have hrun : Client.OkRun MemIo.Sound MemIo.Sound client startedByOwner
      (fun id => [] ++ ClientCall.accepted joiner (.receiveBuffer (chatId 1) (framed naming) 1) id) :=
    .onHeld joiner client _ _ (.receiveBuffer (chatId 1) (framed naming) 1) (joiner_okRun (blankIo_sound hsmall))
      trivial (run_eq hok hclient)
  exact ⟨client,_,_,ch,hrun,hch,hsame.1,fun hagree => hsame.2.2 ((hagree _).mpr hsame.2.1)⟩

/-- The owner of two has named itself and added a node before it spoke. -/
theorem tables_agree_speaker : ∃ ch, speaker.channels.get (chatId 1) = some ch ∧
    ∃ creator, startedByOwner (chatId 1) = some creator ∧
      Channel.Story (chatId 1) creator (speakerLog (chatId 1)) ch ∧
      ((∀ before after (c : Channel 2 256 PlainCrypto U64), speakerLog (chatId 1) = before ++ after →
        Channel.Story (chatId 1) creator before c → Channel.Opened before → c.Agree) ↔
          Channel.OwnersKnown creator (speakerLog (chatId 1))) := by
  obtain ⟨ch,hch⟩ := speaker_holds
  have hsmall : 4*256 ≤ isizeMax := by decide +kernel
  obtain ⟨creator,hcreator,hstory,hiff⟩ := (speaker_okRun (blankIo_sound hsmall)).tables_agree_iff hch
  exact ⟨ch,hch,creator,hcreator,hstory,hiff _ hstory⟩

end Owner

end Finder
