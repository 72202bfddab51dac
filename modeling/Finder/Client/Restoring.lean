import Finder.Client.Numbering

namespace Finder

variable {maxChannels maxNodes slabSize : Nat} {C P S : Type}

section Presents

variable [Target] {io io' : MemIo slabSize}

/-- The memory presents the committed slabs of another one, and as many. -/
structure MemIo.Presents (io' io : MemIo slabSize) : Prop where
  start : io'.startOffset = io.startOffset
  count : io'.slabCount = io.slabCount
  maxIndex : io'.maxIndex = io'.data.length/slabSize
  bounded : io'.data.length ≤ isizeMax
  room : io'.slabCount*slabSize ≤ io'.data.length
  slabs : ∀ k, k < io.slabCount*slabSize → io'.data[k]? = io.data[k]?

theorem Holds.presented [RecordCodec] {sessions : List (List Record)} (h : Holds io sessions)
    (hp : io'.Presents io) : Holds io' sessions := by
  have hcount := h.count
  have hroom := hp.room
  rw [hp.count,hcount] at hroom
  refine ⟨hp.start.trans h.start,hp.count.trans hcount,h.positive,hp.maxIndex,hp.bounded,hroom,fun i rs hi => ?_⟩
  have hstored := h.slabs i rs hi
  have hfits := hstored.fits
  have hlast := (List.getElem?_eq_some_iff.mp hi).1
  have hnext : (i+1)*slabSize ≤ sessions.length*slabSize := Nat.mul_le_mul_right _ hlast
  rw [Nat.succ_mul] at hnext
  refine ⟨hstored.nonempty,hstored.few,hstored.short,hfits,getRange_shared hstored.bytes (by omega) ?_⟩
  exact fun k _ hk => hp.slabs k (by rw [hcount]; omega)

end Presents

namespace Channel

/-- The channel is the live one again, as far as it can be told without its memory. -/
structure Restored (ch ch' : Channel maxNodes slabSize C P) : Prop where
  nodes : ch'.state.nodes = ch.state.nodes
  newest : ch'.state.newest = ch.state.newest
  owner : ch'.chat.ownerId = ch.chat.ownerId
  users : ch'.chat.users = ch.chat.users
  messageCount : ch'.chat.messageCount = ch.chat.messageCount

variable [IdealCrypto C P S] [Postcard (Message (Protocol P))] [EnvelopeCodec P]

/-- The first record is one of the key a replay starts from, so no record can be the first one of two replays
that start from different keys. -/
theorem replayRecord_creator {crypto crypto' : C} {channelId : ChannelId} {creator creator' : P} {bytes : Bytes}
    {start start' : ChannelState maxNodes P} {chat : Chat maxNodes C P}
    {s s' : ChannelState maxNodes P × Chat maxNodes C P}
    (hstart : ChannelState.new (computeId C creator) creator = .ok start)
    (hstart' : ChannelState.new (computeId C creator') creator' = .ok start')
    (h : replayRecord crypto channelId bytes (start,chat) = (.ok (),s))
    (h' : replayRecord crypto' channelId bytes (start',chat) = (.ok (),s')) : creator' = creator := by
  have hsender : ∀ (crypto : C) (key : P) (st : ChannelState maxNodes P) s,
      ChannelState.new (computeId C key) key = .ok st →
      replayRecord crypto channelId bytes (st,chat) = (.ok (),s) →
        ∃ envelope, decodeAs (ChatEnvelope P) bytes = .ok envelope ∧ envelope.sender = computeId C key := by
    intro crypto key st s hst hrecord
    have hv := ChannelState.new_valid hst
    obtain ⟨ch,hch⟩ : ∃ c : Channel maxNodes 0 C P, c = ⟨st,⟨⟨0,0,0,[]⟩⟩,chat⟩ := ⟨_,rfl⟩
    have hreplay : replayRecord crypto channelId bytes (ch.state,ch.chat) = (.ok (),s) := by rw [hch,hrecord]
    obtain ⟨sender,message,id,_,⟨envelope,_,hdecode,hsender,hkey,_⟩,_⟩ := accepted_of_replayRecord (hch ▸ hv) hreplay
    rw [hch] at hkey
    obtain ⟨r,hr,_⟩ := hv.sorted.getNodeKey_eq_ok.mp hkey
    rw [ChannelState.new_record hst] at hr
    split_ifs at hr with heq
    exact ⟨envelope,hdecode,hsender.trans heq.symm⟩
  obtain ⟨envelope,hdecode,hfirst⟩ := hsender crypto creator start s hstart h
  obtain ⟨envelope',hdecode',hfirst'⟩ := hsender crypto' creator' start' s' hstart' h'
  rw [hdecode] at hdecode'
  cases hdecode'
  exact computeId_injective C (hfirst'.symm.trans hfirst)

end Channel

namespace Client

section Open

variable [Target] [Crypto C P S] [RecordCodec] [Postcard (Message (Protocol P))] [EnvelopeCodec P]
  {client : Client maxChannels maxNodes slabSize C P S} {channelId : ChannelId} {ch : Channel maxNodes slabSize C P}
  {io : MemIo slabSize}

omit [Target] [Crypto C P S] [RecordCodec] [Postcard (Message (Protocol P))] [EnvelopeCodec P] in
/-- A channel that is held can always be put in its place. -/
theorem insertChannel_held (hget : client.channels.get channelId = some ch) (ch' : Channel maxNodes slabSize C P) :
    ∃ client', insertChannel channelId ch' client = (.ok (),client') ∧
      client'.channels.get channelId = some ch' := by
  rcases insertChannel_cases channelId ch' client with ⟨channels,hok,hchannels⟩ | hfull
  · exact ⟨_,hok,by simp [hchannels]⟩
  · exfalso
    unfold insertChannel at hfull
    split at hfull
    · rename_i hnone
      have habsent := (FnvIndexMap.insert_eq_none.mp hnone).1
      rw [FnvIndexMap.containsKey,hget] at habsent
      cases habsent
    · cases hfull

/-- What the records are replayed to takes the place of a channel that is held. -/
theorem openChat_replayed {cursor : Cursor} {ds : List Bytes} {start : ChannelState maxNodes P}
    {s : ChannelState maxNodes P × Chat maxNodes C P} (hget : client.channels.get channelId = some ch)
    (hcursor : (⟨io⟩ : Storage slabSize).getCursorFromSequence 0 = .ok (some cursor))
    (hreads : Reads (⟨io⟩ : Storage slabSize) cursor ds) (hlen : ds.length < (⟨io⟩ : Storage slabSize).steps)
    (hstart : ChannelState.new (computeId C client.keyPair.pub) client.keyPair.pub = .ok start)
    (hreplay : Channel.replayAll client.crypto channelId ds (start,Chat.new channelId) = (.ok (),s)) :
    ∃ client', openChat channelId io client = (.ok (),client') ∧
      client'.channels.get channelId = some ⟨s.1,⟨io⟩,s.2⟩ := by
  obtain ⟨client',hins,hget'⟩ := insertChannel_held hget ⟨s.1,⟨io⟩,s.2⟩
  refine ⟨client',?_,hget'⟩
  have hfresh : (freshChannel (computeId C client.keyPair.pub) client.keyPair.pub channelId io :
      Outcome ClientError (Channel maxNodes slabSize C P)) = .ok ⟨start,⟨io⟩,Chat.new channelId⟩ := by
    simp [freshChannel,hstart]
  unfold openChat
  refine (Call.bind_ok (a := client.keyPair.pub) (t := client) (by simp)).trans ?_
  refine (Call.bind_ok (a := ⟨start,⟨io⟩,Chat.new channelId⟩) (t := client) (by simp [hfresh])).trans ?_
  refine (Call.bind_ok (a := some cursor) (t := client) (by simp [hcursor])).trans ?_
  simp only [Channel.replayFrom_reads hreads _ hlen,hreplay,hins]

end Open

variable [Target] [IdealCrypto C P S] [RecordCodec] [Postcard (Message (Protocol P))] [EnvelopeCodec P]
  [Postcard (NewChannel P)] {client : Client maxChannels maxNodes slabSize C P S} {creators : ChannelId → Option P}
  {logs : ChannelId → List (Entry P)} {channelId : ChannelId} {ch : Channel maxNodes slabSize C P}
  {io : MemIo slabSize}

/-- Opening a channel that has stored a record from memory with its slabs restores it, exactly if it was started
with the client's own key: `open_chat` replays every log from there. -/
theorem OkRun.openChat_restores_iff (h : OkRun MemIo.Fresh (MemIo.Keeps C) client creators logs)
    (hget : client.channels.get channelId = some ch) (hshort : Short (logs channelId))
    (hstored : 0 < ch.storage.io.slabCount) (hio : io.Presents ch.storage.io) :
    (∃ client' ch', Client.openChat channelId io client = (.ok (),client') ∧
      client'.channels.get channelId = some ch' ∧ ch.Restored ch') ↔
        creators channelId = some client.keyPair.pub := by
  obtain ⟨creator,hcreator,hstory,hheld⟩ := h.held.channels channelId ch hget
  have hholds := (hheld hshort).presented hio
  generalize logs channelId = log at hstory hholds
  rw [hcreator,Option.some.injEq]
  have hne : ((recordsFrom 0 0 log).map (fun r => [r])) ≠ [] := by
    intro hnil
    have hcount := hholds.count
    rw [hnil,List.length_nil,hio.count] at hcount
    omega
  obtain ⟨cursor,hcursor,hreads,hlen⟩ := (show Holds (⟨io⟩ : Storage slabSize).io _ from hholds).first hne
  rw [flatten_singles,recordsFrom_data] at hreads hlen
  obtain ⟨start,hstart,hreplay⟩ := hstory.replay client.crypto
  constructor
  · rintro ⟨client',ch',hopen,hget',_⟩
    obtain ⟨_,hmakes⟩ | ⟨hno,_⟩ := openChat_makes hopen
    swap
    · exact absurd rfl hno
    obtain ⟨made,⟨hmade,start',hfresh,crypto,ds,hrecords,hreplay'⟩,_⟩ := hmakes.channels
    obtain ⟨st',hst',rfl⟩ := Channel.freshChannel_eq_ok.mp hfresh
    have hds : ds = log.map Entry.bytes := by
      have hsame : made.storage = ⟨io⟩ := by rw [←hmade]
      rw [hsame,Storage.records,hcursor,Outcome.ok_bind] at hrecords
      exact Outcome.ok.inj (hrecords.symm.trans (hreads.readFrom _ hlen))
    cases log with
    | nil => exact absurd rfl hne
    | cons e log =>
      -- the first record is the creator's, so a replay that starts from another key stops there
      rw [hds,List.map_cons] at hreplay'
      rw [List.map_cons] at hreplay
      obtain ⟨_,_,hfirst,_⟩ := Call.bind_eq_ok.mp hreplay
      obtain ⟨_,_,hfirst',_⟩ := Call.bind_eq_ok.mp hreplay'
      exact Channel.replayRecord_creator hst' hstart hfirst' hfirst
  · rintro rfl
    obtain ⟨client',hopen,hget'⟩ := openChat_replayed hget hcursor hreads hlen hstart hreplay
    exact ⟨client',_,hopen,hget',rfl,rfl,rfl,rfl,rfl⟩

end Client

section Owner

open PlainCrypto

/-- A client that has joined a channel and received its first message cannot open it again: it starts from its
own key, and does not know the creator. -/
theorem joined_not_restored : ∃ (client : Client 2 2 256 PlainCrypto U64 U64) (creators : ChannelId → Option U64)
    (logs : ChannelId → List (Entry U64)) (ch : Channel 2 256 PlainCrypto U64),
    Client.OkRun MemIo.Zeroed (MemIo.Archives PlainCrypto) client creators logs ∧
      client.channels.get (chatId 1) = some ch ∧ Short (logs (chatId 1)) ∧ 0 < ch.storage.io.slabCount ∧
      ch.storage.io.Presents ch.storage.io ∧
      (Client.openChat (chatId 1) ch.storage.io client).1 = .err (.channelError .unknownNode) := by
  have hok : (ClientCall.run (.receiveBuffer (chatId 1) (framed (sealedBy 1 (chatId 1) opening)) 1) joiner).1 =
      .ok () := by decide +kernel
  obtain ⟨client,hclient⟩ : ∃ c, c =
      (ClientCall.run (.receiveBuffer (chatId 1) (framed (sealedBy 1 (chatId 1) opening)) 1) joiner).2 := ⟨_,rfl⟩
  have hafter : (client.channels.get (chatId 1)).map (fun ch =>
      ((Client.openChat (chatId 1) ch.storage.io client).1,ch.storage.io.startOffset,ch.storage.io.slabCount,
        ch.storage.io.maxIndex,ch.storage.io.data.length)) =
      some (.err (.channelError .unknownNode),0,1,4,1024) := by
    rw [hclient]
    decide +kernel
  obtain ⟨ch,hch,hsame⟩ := Option.map_eq_some_iff.mp hafter
  simp only [Prod.mk.injEq] at hsame
  obtain ⟨herr,hstart,hcount,hmax,hlen⟩ := hsame
  have hrun : Client.OkRun MemIo.Zeroed (MemIo.Archives PlainCrypto) client startedByOwner (fun id => [] ++
      ClientCall.accepted joiner (.receiveBuffer (chatId 1) (framed (sealedBy 1 (chatId 1) opening)) 1) id) :=
    .onHeld joiner client _ _ (.receiveBuffer (chatId 1) (framed (sealedBy 1 (chatId 1) opening)) 1)
      (joiner_okRun ownIo_zeroed) trivial (run_eq hok hclient)
  have hshort : Short (ClientCall.accepted joiner
      (.receiveBuffer (chatId 1) (framed (sealedBy 1 (chatId 1) opening)) 1) (chatId 1)) := by
    unfold Short
    decide +kernel
  refine ⟨client,_,_,ch,hrun,hch,by rwa [List.nil_append],by omega,⟨rfl,rfl,by omega,?_,by omega,fun _ _ => rfl⟩,herr⟩
  rw [hlen]
  decide +kernel

/-- The owner of two can open its channel again. -/
theorem openChat_restores_speaker : ∃ ch, speaker.channels.get (chatId 1) = some ch ∧
    ∃ client' ch', Client.openChat (chatId 1) ch.storage.io speaker = (.ok (),client') ∧
      client'.channels.get (chatId 1) = some ch' ∧ ch.Restored ch' := by
  have hafter : (speaker.channels.get (chatId 1)).map (fun ch => (ch.storage.io.slabCount,ch.storage.io.maxIndex,
      ch.storage.io.data.length)) = some (3,4,1024) := by decide +kernel
  obtain ⟨ch,hch,hsame⟩ := Option.map_eq_some_iff.mp hafter
  simp only [Prod.mk.injEq] at hsame
  obtain ⟨hcount,hmax,hlen⟩ := hsame
  have hsmall : 1024 ≤ isizeMax := by decide +kernel
  have hpresents : ch.storage.io.Presents ch.storage.io :=
    ⟨rfl,rfl,by omega,by omega,by omega,fun _ _ => rfl⟩
  have hown : startedByOwner (chatId 1) = some speaker.keyPair.pub := by decide +kernel
  exact ⟨ch,hch,((speaker_okRun ownIo_zeroed.fresh).openChat_restores_iff hch speaker_short (by omega)
    hpresents).mpr hown⟩

end Owner

end Finder
