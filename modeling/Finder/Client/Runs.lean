import Finder.Client.Archive
import Finder.Client.Ownership

namespace Finder

variable {maxChannels maxNodes slabSize : Nat} {C P S : Type}

namespace Channel

variable [IdealCrypto C P S] [Postcard (Message (Protocol P))] [EnvelopeCodec P] {channelId : ChannelId}
  {creator : P} {log : List (Entry P)} {ch : Channel maxNodes slabSize C P}

/-- What a table attests, it opens. -/
theorem Attested.entries {st : ChannelState maxNodes P} (h : Attested C st log) (crypto : C) :
    (log.map Entry.bytes).filterMap (entryOf crypto st) = log := by
  have hopen : ∀ e ∈ log, entryOf crypto st e.bytes = some e :=
    fun e he => entryOf_eq_some.mpr ⟨rfl,h.carried e he crypto⟩
  clear h
  induction log with
  | nil => rfl
  | cons e log ih =>
    rw [List.map_cons,List.filterMap_cons_some (hopen e List.mem_cons_self),
      ih (fun x hx => hopen x (List.mem_cons_of_mem _ hx))]

variable [Target] [RecordCodec]

theorem Attested.stored_eq (h : Attested C ch.state log) (hrecords : ch.storage.records = .ok (log.map Entry.bytes))
    (crypto : C) : ch.stored crypto = log := by
  rw [stored,hrecords]
  exact h.entries crypto

/-- A channel that has been opened is the work of the messages it has read. -/
theorem Opens.story_stored (h : Opens creator channelId ch) (crypto : C) :
    Story channelId creator (ch.stored crypto) ch ∧
      ch.storage.records = .ok ((ch.stored crypto).map Entry.bytes) := by
  obtain ⟨log,hstory,hrecords⟩ := h.story
  rw [hstory.attested.stored_eq hrecords crypto]
  exact ⟨hstory,hrecords⟩

end Channel

namespace Client

variable [Target] [IdealCrypto C P S] [RecordCodec] [Postcard (Message (Protocol P))] [EnvelopeCodec P]
  [Postcard (NewChannel P)]

/-- A client all of whose calls so far returned a value, with the key each of its channels was started with and
the messages each has accepted since. A channel starts with no message where it is added, with the one that
`init_chat` seals where it is created, and with those in the records where it is opened. The memory a channel is
made on is as `fresh` says, and the memory one is opened from as `kept` says. -/
inductive OkRun (fresh kept : MemIo slabSize → Prop) :
    Client maxChannels maxNodes slabSize C P S → (ChannelId → Option P) → (ChannelId → List (Entry P)) → Prop
  | new (keyPair : KeyPair S P) (crypto : C) (hpaired : Paired C keyPair) :
      OkRun fresh kept (Client.new keyPair crypto FnvIndexMap.empty) (fun _ => none) (fun _ => [])
  | initChat (client client' : Client maxChannels maxNodes slabSize C P S) (creators : ChannelId → Option P)
      (log : ChannelId → List (Entry P)) (nameStr : Str) (io : MemIo slabSize) (id : ChannelId)
      (h : OkRun fresh kept client creators log) (hio : fresh io)
      (hcall : Client.initChat nameStr io client = (.ok id,client')) :
      OkRun fresh kept client' (Function.update creators id (some client.keyPair.pub))
        (Function.update log id (client.opening nameStr).toList)
  | addChannel (client client' : Client maxChannels maxNodes slabSize C P S) (creators : ChannelId → Option P)
      (log : ChannelId → List (Entry P)) (sender : P) (id : ChannelId) (io : MemIo slabSize)
      (h : OkRun fresh kept client creators log) (hio : fresh io)
      (hcall : Client.addChannel sender id io client = (.ok (),client')) :
      OkRun fresh kept client' (Function.update creators id (some sender)) (Function.update log id [])
  | openChat (client client' : Client maxChannels maxNodes slabSize C P S) (creators : ChannelId → Option P)
      (log : ChannelId → List (Entry P)) (id : ChannelId) (io : MemIo slabSize)
      (h : OkRun fresh kept client creators log) (hio : kept io)
      (hcall : Client.openChat id io client = (.ok (),client')) :
      OkRun fresh kept client' (Function.update creators id (some client.keyPair.pub))
        (Function.update log id (client'.stored id))
  | onHeld (client client' : Client maxChannels maxNodes slabSize C P S) (creators : ChannelId → Option P)
      (log : ChannelId → List (Entry P)) (call : ClientCall slabSize P) (h : OkRun fresh kept client creators log)
      (hheld : call.OnHeld) (hcall : call.run client = (.ok (),client')) :
      OkRun fresh kept client' creators (fun id => log id ++ call.accepted client id)

variable {fresh fresh' kept kept' : MemIo slabSize → Prop} {client client' : Client maxChannels maxNodes slabSize C P S}
  {creators : ChannelId → Option P} {log more : ChannelId → List (Entry P)}

theorem OkRun.mono (hfresh : ∀ io, fresh io → fresh' io) (hkept : ∀ io, kept io → kept' io)
    (h : OkRun fresh kept client creators log) : OkRun fresh' kept' client creators log := by
  induction h with
  | new keyPair crypto hpaired => exact .new keyPair crypto hpaired
  | initChat client client' creators log nameStr io id _ hio hcall ih =>
    exact .initChat client client' creators log nameStr io id ih (hfresh io hio) hcall
  | addChannel client client' creators log sender id io _ hio hcall ih =>
    exact .addChannel client client' creators log sender id io ih (hfresh io hio) hcall
  | openChat client client' creators log id io _ hio hcall ih =>
    exact .openChat client client' creators log id io ih (hkept io hio) hcall
  | onHeld client client' creators log call _ hheld hcall ih =>
    exact .onHeld client client' creators log call ih hheld hcall

/-- Every channel has the property, for the key it was started with and the messages it has accepted. -/
structure Kept (R : ChannelId → P → List (Entry P) → Channel maxNodes slabSize C P → Prop)
    (client : Client maxChannels maxNodes slabSize C P S) (creators : ChannelId → Option P)
    (log : ChannelId → List (Entry P)) : Prop where
  nodeId : client.nodeId = computeId C client.keyPair.pub
  paired : Paired C client.keyPair
  sound : Every Channel.Sound client
  channels : ∀ id ch, client.channels.get id = some ch → ∃ creator, creators id = some creator ∧ R id creator (log id) ch

section Kept

variable {R R' : ChannelId → P → List (Entry P) → Channel maxNodes slabSize C P → Prop}

omit [RecordCodec] [Postcard (Message (Protocol P))] [EnvelopeCodec P] [Postcard (NewChannel P)] in
theorem Kept.and (h : Kept R client creators log) (h' : Kept R' client creators log) :
    Kept (fun id creator log ch => R id creator log ch ∧ R' id creator log ch) client creators log := by
  refine ⟨h.nodeId,h.paired,h.sound,fun id ch hget => ?_⟩
  obtain ⟨creator,hcreator,hR⟩ := h.channels id ch hget
  obtain ⟨creator',hcreator',hR'⟩ := h'.channels id ch hget
  rw [hcreator] at hcreator'
  cases hcreator'
  exact ⟨creator,hcreator,hR,hR'⟩

omit [RecordCodec] [Postcard (Message (Protocol P))] [EnvelopeCodec P] [Postcard (NewChannel P)] in
theorem Kept.makes {made : Channel maxNodes slabSize C P → Prop} {channelId : ChannelId} {creator : P}
    {entries : List (Entry P)} (h : Kept R client creators log) (hmakes : Makes channelId made client client')
    (hmade : ∀ ch, made ch → client'.channels.get channelId = some ch → ch.Sound ∧ R channelId creator entries ch) :
    Kept R client' (Function.update creators channelId (some creator)) (Function.update log channelId entries) := by
  obtain ⟨made,hch,hget⟩ := hmakes.channels
  have hnew := hmade made hch (by rw [hget,if_pos rfl])
  refine ⟨by rw [hmakes.nodeId,hmakes.keyPair]; exact h.nodeId,by rw [hmakes.keyPair]; exact h.paired,
    fun id ch hid => ?_,fun id ch hid => ?_⟩
  · rw [hget] at hid
    split_ifs at hid
    · cases hid
      exact hnew.1
    · exact h.sound id ch hid
  · rw [hget] at hid
    by_cases heq : id = channelId
    · subst heq
      rw [if_pos rfl] at hid
      cases hid
      exact ⟨creator,by simp,by simpa using hnew.2⟩
    · rw [if_neg heq] at hid
      obtain ⟨c,hc,hR⟩ := h.channels id ch hid
      rw [Function.update_of_ne heq,Function.update_of_ne heq]
      exact ⟨c,hc,hR⟩

omit [Postcard (NewChannel P)] in
theorem Kept.took (h : Kept R client creators log) (htook : Took more client client')
    (hR : ∀ id creator log ch ch' (crypto : C) e, R id creator log ch → ch.Sound →
      Channel.Carries crypto ch.state e.bytes e.sender e.message e.id →
      Channel.take id e.sender e.message e.id e.bytes ch = (.ok (),ch') → R id creator (log ++ [e]) ch') :
    Kept R client' creators (fun id => log id ++ more id) := by
  refine ⟨by rw [htook.nodeId,htook.keyPair]; exact h.nodeId,by rw [htook.keyPair]; exact h.paired,
    htook.sound h.sound,fun id ch' hid => ?_⟩
  obtain ⟨ch,hget,htakes⟩ := htook.before id ch' hid
  obtain ⟨creator,hcreator,hch⟩ := h.channels id ch hget
  exact ⟨creator,hcreator,(htakes.rule (hR id creator) (h.sound id ch hget) hch).2⟩

/-- What every channel has where it is made or opened, and keeps with each message it takes in, the channels
of a client have after every run. -/
theorem OkRun.rule (hfresh : ∀ io, fresh io → io.Sound) (hkept : ∀ io, kept io → io.Sound)
    (hmade : ∀ id creator io ch, fresh io → freshChannel (computeId C creator) creator id io = .ok ch →
      R id creator [] ch)
    (hopened : ∀ id creator (crypto : C) ch, kept ch.storage.io → Channel.Opens creator id ch →
      R id creator (ch.stored crypto) ch)
    (htaken : ∀ id creator log ch ch' (crypto : C) e, R id creator log ch → ch.Sound →
      Channel.Carries crypto ch.state e.bytes e.sender e.message e.id →
      Channel.take id e.sender e.message e.id e.bytes ch = (.ok (),ch') → R id creator (log ++ [e]) ch')
    (h : OkRun fresh kept client creators log) : Kept R client creators log := by
  induction h with
  | new keyPair crypto hpaired =>
    refine ⟨rfl,hpaired,fun id ch hget => ?_,fun id ch hget => ?_⟩
    · simp [Client.new] at hget
    · simp [Client.new] at hget
  | initChat client client' creators log nameStr io id _ hio hcall ih =>
    obtain ⟨start,hstart,hmakes⟩ := initChat_took (hfresh io hio) ih.paired hcall
    refine ih.makes hmakes (fun ch htakes _ => ?_)
    exact htakes.rule (htaken id client.keyPair.pub) (Channel.freshChannel_sound (hfresh io hio) hstart)
      (hmade id _ io start hio hstart)
  | addChannel client client' creators log sender id io _ hio hcall ih =>
    rcases addChannel_makes hcall with ⟨_,hmakes⟩ | ⟨hno,_⟩
    · exact ih.makes hmakes (fun ch hstart _ =>
        ⟨Channel.freshChannel_sound (hfresh io hio) hstart,hmade id sender io ch hio hstart⟩)
    · exact absurd rfl hno
  | openChat client client' creators log id io _ hio hcall ih =>
    rcases openChat_makes hcall with ⟨_,hmakes⟩ | ⟨hno,_⟩
    · refine ih.makes hmakes (fun ch hch hget => ?_)
      obtain ⟨rfl,hopens⟩ := hch
      rw [stored,hget]
      exact ⟨hopens.sound (hkept _ hio),hopened id _ client'.crypto ch hio hopens⟩
    · exact absurd rfl hno
  | onHeld client client' creators log call _ hheld hcall ih =>
    exact ih.took (run_took hheld ih.sound ih.paired ih.nodeId hcall) htaken

end Kept

/-- The log of a channel is the story of it. -/
theorem OkRun.story (h : OkRun MemIo.Sound MemIo.Sound client creators log) :
    Kept Channel.Story client creators log := by
  refine h.rule (fun _ hio => hio) (fun _ hio => hio) ?_ ?_ ?_
  · exact fun id creator io ch _ hfresh => Channel.story_fresh hfresh
  · exact fun id creator crypto ch _ hopens => (hopens.story_stored crypto).1
  · exact fun id creator log ch ch' crypto e hstory hs hcarries htake =>
      hstory.take hcarries (Channel.take_ok hs htake)

end Client

section Owner

open PlainCrypto

/-- The client that a call gives back is the one the model names. -/
theorem run_eq {α : Type} {x : Outcome ClientError α × Client 2 2 256 PlainCrypto U64 U64} {a : α}
    {client : Client 2 2 256 PlainCrypto U64 U64} (hok : x.1 = .ok a) (hclient : client = x.2) :
    x = (.ok a,client) := Prod.ext hok hclient.symm

/-- The key that started the owner's channel. -/
def startedByOwner : ChannelId → Option U64 := Function.update (fun _ => none) (chatId 1) (some 1)

/-- What the owner has accepted. -/
def ownerLog : ChannelId → List (Entry U64) := Function.update (fun _ => []) (chatId 1)
  (Client.opening chatStr (client 1 : Client 2 2 256 PlainCrypto U64 U64)).toList

/-- What the owner of two has accepted. -/
def ownerOfTwoLog : ChannelId → List (Entry U64) := fun id =>
  ownerLog id ++ ClientCall.accepted owner (.addNode (chatId 1) 2 Str.empty) id

theorem owner_okRun {fresh kept : MemIo 256 → Prop} (hio : fresh (blankIo 256 4)) :
    Client.OkRun fresh kept owner startedByOwner ownerLog := by
  have hpaired : Paired PlainCrypto (⟨1,1⟩ : KeyPair U64 U64) := (rfl : (1 : U64) = 1)
  have hnew : Client.OkRun fresh kept (client 1 : Client 2 2 256 PlainCrypto U64 U64) (fun _ => none) (fun _ => []) :=
    .new _ ⟨0⟩ hpaired
  have hok : (Client.initChat chatStr (blankIo 256 4) (client 1 : Client 2 2 256 PlainCrypto U64 U64)).1 =
      .ok (chatId 1) := by decide +kernel
  have howner : owner = (Client.initChat chatStr (blankIo 256 4) (client 1)).2 := by
    rw [owner,ClientCall.run,Call.bind_ok (run_eq hok rfl),Call.pure_apply]
  exact .initChat _ owner _ _ chatStr (blankIo 256 4) (chatId 1) hnew hio (run_eq hok howner)

theorem ownerOfTwo_okRun {fresh kept : MemIo 256 → Prop} (hio : fresh (blankIo 256 4)) :
    Client.OkRun fresh kept ownerOfTwo startedByOwner ownerOfTwoLog := by
  have hok : (ClientCall.run (.addNode (chatId 1) 2 Str.empty) owner).1 = .ok () := by decide +kernel
  exact .onHeld owner ownerOfTwo _ _ (.addNode (chatId 1) 2 Str.empty) (owner_okRun hio) trivial
    (run_eq hok (by rw [ownerOfTwo]))

/-- The owner of two after a message of its own. -/
def speaker : Client 2 2 256 PlainCrypto U64 U64 :=
  (ClientCall.run (.sendMessage (chatId 1) textStr) ownerOfTwo).2

def speakerLog : ChannelId → List (Entry U64) := fun id =>
  ownerOfTwoLog id ++ ClientCall.accepted ownerOfTwo (.sendMessage (chatId 1) textStr) id

theorem speaker_okRun {fresh kept : MemIo 256 → Prop} (hio : fresh (blankIo 256 4)) :
    Client.OkRun fresh kept speaker startedByOwner speakerLog := by
  have hok : (ClientCall.run (.sendMessage (chatId 1) textStr) ownerOfTwo).1 = .ok () := by decide +kernel
  exact .onHeld ownerOfTwo speaker _ _ (.sendMessage (chatId 1) textStr) (ownerOfTwo_okRun hio) trivial
    (run_eq hok (by rw [speaker]))

theorem speaker_holds : ∃ ch, speaker.channels.get (chatId 1) = some ch := by
  have hheld : (speaker.channels.get (chatId 1)).isSome = true := by decide +kernel
  exact Option.isSome_iff_exists.mp hheld

end Owner

end Finder
