import Finder.Client.Journal

namespace Finder

variable {maxChannels maxNodes slabSize : Nat} {C P S : Type}

namespace Channel

section Story

variable [Crypto C P S] [Postcard (Message (Protocol P))] [EnvelopeCodec P]

/-- The messages that made the table and the chat of a channel what they are, whatever its storage. -/
inductive Story (channelId : ChannelId) (creator : P) : List (Entry P) → Channel maxNodes slabSize C P → Prop
  | new (ch : Channel maxNodes slabSize C P)
      (hstate : ChannelState.new (computeId C creator) creator = .ok ch.state)
      (hchat : ch.chat = Chat.new channelId) : Story channelId creator [] ch
  | accept (log : List (Entry P)) (ch ch' : Channel maxNodes slabSize C P) (crypto : C) (entry : Entry P)
      (maxSequence : U64) (h : Story channelId creator log ch)
      (hcarries : Carries crypto ch.state entry.bytes entry.sender entry.message entry.id)
      (haccepted : Accepted ch ch' channelId entry.sender entry.message entry.id maxSequence) :
      Story channelId creator (log ++ [entry]) ch'
  | store (log : List (Entry P)) (ch : Channel maxNodes slabSize C P) (storage : Storage slabSize)
      (h : Story channelId creator log ch) : Story channelId creator log { ch with storage := storage }

variable {channelId : ChannelId} {creator : P} {log : List (Entry P)} {ch ch' : Channel maxNodes slabSize C P}

theorem Story.valid (h : Story channelId creator log ch) : ch.state.Valid := by
  induction h with
  | new ch hstate _ => exact ChannelState.new_valid hstate
  | accept log ch ch' crypto entry maxSequence _ _ haccepted ih => exact haccepted.valid ih
  | store log ch storage _ ih => exact ih

theorem story_fresh {io : MemIo slabSize}
    (h : Client.freshChannel (computeId C creator) creator channelId io = .ok ch) :
    Story channelId creator [] ch := by
  obtain ⟨st,hst,rfl⟩ := freshChannel_eq_ok.mp h
  exact .new _ hst rfl

/-- What a replay accepts continues the story. -/
theorem Story.replayed {crypto : C} {ds : List Bytes} (h : Story channelId creator log ch)
    {s : ChannelState maxNodes P × Chat maxNodes C P}
    (hreplay : replayAll crypto channelId ds (ch.state,ch.chat) = (.ok (),s)) :
    ∃ more : List (Entry P), more.map Entry.bytes = ds ∧
      Story channelId creator (log ++ more) { ch with state := s.1, chat := s.2 } := by
  induction ds generalizing log ch with
  | nil =>
    cases hreplay
    exact ⟨[],rfl,by simpa using h⟩
  | cons d ds ih =>
    obtain ⟨u,mid,hrecord,hrest⟩ := Call.bind_eq_ok.mp hreplay
    obtain ⟨sender,message,id,maxSequence,hcarries,haccepted⟩ := accepted_of_replayRecord h.valid hrecord
    obtain ⟨more,hmore,hstory⟩ := ih (.accept log ch _ crypto ⟨sender,message,id,d⟩ maxSequence h hcarries haccepted)
      hrest
    exact ⟨⟨sender,message,id,d⟩::more,by simp [hmore],by simpa using hstory⟩

variable [Target] [RecordCodec]

theorem Story.take {crypto : C} {bytes : Bytes} {sender : NodeId} {message : Message (Protocol P)}
    {id : EnvelopeId} {record : Record} (h : Story channelId creator log ch)
    (hcarries : Carries crypto ch.state bytes sender message id)
    (htaken : Taken ch ch' channelId sender message id bytes record) :
    Story channelId creator (log ++ [⟨sender,message,id,bytes⟩]) ch' :=
  .store _ { ch' with storage := ch.storage } ch'.storage
    (.accept log ch _ crypto ⟨sender,message,id,bytes⟩ _ h hcarries htaken.accepted)

theorem Opens.story (h : Opens creator channelId ch) :
    ∃ log, Story channelId creator log ch ∧ ch.storage.records = .ok (log.map Entry.bytes) := by
  obtain ⟨start,hfresh,crypto,ds,hrecords,hreplay⟩ := h
  obtain ⟨log,hlog,hstory⟩ := (story_fresh hfresh).replayed hreplay
  refine ⟨log,?_,by rw [hlog]; exact hrecords⟩
  rw [List.nil_append] at hstory
  exact .store log { ch with storage := start.storage } ch.storage hstory

end Story

section Ideal

variable [IdealCrypto C P S] [Postcard (Message (Protocol P))] [EnvelopeCodec P]
  {channelId : ChannelId} {creator : P} {log : List (Entry P)} {ch ch' : Channel maxNodes slabSize C P}

/-- Replaying a story from the first state on gives the channel it is about. -/
theorem Story.replay (h : Story channelId creator log ch) (crypto : C) :
    ∃ start, ChannelState.new (computeId C creator) creator = .ok start ∧
      replayAll crypto channelId (log.map Entry.bytes) (start,Chat.new channelId) =
        (.ok (),(ch.state,ch.chat)) := by
  induction h with
  | new ch hstate hchat => exact ⟨ch.state,hstate,by rw [hchat]; rfl⟩
  | accept log ch ch' crypto' entry maxSequence h hcarries haccepted ih =>
    obtain ⟨start,hstart,hreplay⟩ := ih
    have hrecord := replayRecord_of_accepted h.valid (hcarries.congr_crypto crypto) haccepted
    refine ⟨start,hstart,?_⟩
    rw [List.map_append,replayAll_append]
    exact ⟨_,hreplay,Call.bind_ok hrecord⟩
  | store log ch storage _ ih => exact ih

variable [Target] [RecordCodec]

/-- Under a pair of keys all a channel takes in is carried by bytes, whether sent or received. -/
theorem Moves.rule {I : Channel maxNodes slabSize C P → Prop} {keyPair : KeyPair S P} {fails : Prop}
    (hpaired : Paired C keyPair)
    (hI : ∀ ch ch' (crypto : C) bytes sender message id outcome, I ch → ch.Sound →
      Carries crypto ch.state bytes sender message id →
      Channel.take channelId sender message id bytes ch = (outcome,ch') → (outcome = .ok () ∨ fails) → I ch')
    (h : Moves (computeId C keyPair.pub) keyPair channelId fails ch ch') (hs : ch.Sound) (hch : I ch) : I ch' := by
  induction h with
  | refl => exact hch
  | sent mid ch' crypto data message envelope outcome h haddress hseal htake houtcome ih =>
    have hsound := h.sound hs
    exact hI mid ch' crypto _ _ message _ outcome ih hsound
      (carries_of_sealed hsound.keyed hpaired haddress hseal) htake houtcome
  | received mid ch' crypto bytes sender message id outcome h hcarries htake houtcome ih =>
    exact hI mid ch' crypto bytes sender message id outcome ih (h.sound hs) hcarries htake houtcome

end Ideal

end Channel

end Finder
