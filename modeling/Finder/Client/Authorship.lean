import Finder.Client.Filing
import Finder.Storage.Singles

namespace Finder

variable {maxChannels maxNodes slabSize : Nat} {C P S : Type}

/-- Memory that records were stored in one by one, and that is not read past them. -/
def MemIo.Laid [Target] [RecordCodec] (io : MemIo slabSize) : Prop :=
  ∃ rs : List Record, Lays io (rs.map (fun r => [r])) ∧ io.Ends

theorem MemIo.Laid.sound [Target] [RecordCodec] {io : MemIo slabSize} (h : io.Laid) : io.Sound := by
  obtain ⟨rs,hlays,_⟩ := h
  exact hlays.sound

theorem MemIo.Fresh.lays [Target] [RecordCodec] {io : MemIo slabSize} (h : io.Fresh) : Lays io [] := by
  obtain ⟨data,hbound,hnew⟩ := h
  exact .new hbound hnew

namespace Channel

variable [Target] [IdealCrypto C P S] [RecordCodec] [Postcard (Message (Protocol P))] [EnvelopeCodec P]
  {ch ch' : Channel maxNodes slabSize C P} {opened : Prop} {log rest : List (Entry P)} {channelId : ChannelId}

/-- The memory of a channel has the records of messages that its table attests, behind some that read as empty,
which there are only where channels have been opened. -/
def Archived (opened : Prop) (ch : Channel maxNodes slabSize C P) : Prop :=
  ∃ (hidden rs : List Record) (log : List (Entry P)), (hidden = [] ∨ opened) ∧ Singles ch.storage.io hidden rs ∧
    rs.map Record.data = log.map Entry.bytes ∧ Attested C ch.state log

theorem Archived.take {crypto : C} {bytes : Bytes} {sender : NodeId} {message : Message (Protocol P)}
    {id : EnvelopeId} {outcome : Outcome ClientError Unit} (h : Archived opened ch) (hs : ch.Sound)
    (hcarries : Carries crypto ch.state bytes sender message id)
    (htake : Channel.take channelId sender message id bytes ch = (outcome,ch')) : Archived opened ch' := by
  obtain ⟨hidden,rs,log,hhidden,hsingles,hdata,hattested⟩ := h
  have hgrown := take_grows hs htake
  have hs' := take_sound hs htake
  by_cases hok : outcome = .ok ()
  · subst hok
    have htaken := take_ok hs htake
    obtain ⟨_,hnew,hseq⟩ := htaken.accepted.attests
    refine ⟨hidden,_,log ++ [⟨sender,message,id,bytes⟩],hhidden,hsingles.store htaken.stored,?_,?_⟩
    · rw [List.map_append,List.map_append,hdata]
      rfl
    · exact hattested.push hgrown hs.valid.sorted hs'.valid.sorted hcarries hnew (le_of_eq hseq.symm)
  · refine ⟨hidden,rs,log,hhidden,?_,hdata,hattested.grown hgrown hs.valid.sorted hs'.valid.sorted⟩
    rcases take_storage htake with ⟨_,hsame⟩ | ⟨r,_,hwrite⟩
    · rw [hsame]
      exact hsingles
    · obtain ⟨hadvanced,hcount⟩ := store_refused hs.storage hwrite hok
      exact hsingles.advanced hadvanced hcount

omit [Postcard (Message (Protocol P))] [EnvelopeCodec P] in
theorem take_ends {bytes : Bytes} {sender : NodeId} {message : Message (Protocol P)} {id : EnvelopeId}
    {outcome : Outcome ClientError Unit} (hends : ch.storage.io.Ends) (hs : ch.Sound)
    (htake : Channel.take channelId sender message id bytes ch = (outcome,ch')) : ch'.storage.io.Ends := by
  rcases take_storage htake with ⟨_,hsame⟩ | ⟨r,_,hwrite⟩
  · rwa [hsame]
  · exact hends.advanced hs.storage (store_advanced hs.storage hwrite).1

omit [Target] [RecordCodec] in
theorem Attested.later {st : ChannelState maxNodes P} (h : Attested C st (rest ++ log)) : Attested C st log := by
  have hmem : ∀ e ∈ log, e ∈ rest ++ log := fun e he => List.mem_append_right _ he
  refine ⟨fun e he => h.carried e (hmem e he),fun e he => h.passed e (hmem e he),?_⟩
  have hnodup := h.distinct
  rw [List.map_append] at hnodup
  exact (List.nodup_append.mp hnodup).2.1

/-- What is read of such a memory is attested. -/
theorem Archived.records [PrefixCodec] {ds : List Bytes} (h : Archived opened ch) (hends : ch.storage.io.Ends)
    (hrecords : ch.storage.records = .ok ds) :
    ∃ log : List (Entry P), log.map Entry.bytes = ds ∧ Attested C ch.state log := by
  obtain ⟨hidden,rs,log,_,hsingles,hdata,hattested⟩ := h
  obtain ⟨before,hbefore⟩ := hsingles.records hends hrecords
  rw [hdata] at hbefore
  obtain ⟨first,last,rfl,_,hlast⟩ := List.map_eq_append_iff.mp hbefore.symm
  exact ⟨last,hlast,hattested.later⟩

end Channel

/-- The memory a call makes a channel on is as `fresh` says, and the memory it opens one from as `kept` says. -/
def ClientCall.Handed (fresh kept : MemIo slabSize → Prop) : ClientCall slabSize P → Prop
  | .initChat _ io => fresh io
  | .addChannel _ _ io => fresh io
  | .openChat _ io => kept io
  | _ => True

namespace ClientCall.Handed

variable {fresh fresh' kept kept' : MemIo slabSize → Prop} {call : ClientCall slabSize P}

theorem mono (hfresh : ∀ io, fresh io → fresh' io) (hkept : ∀ io, kept io → kept' io) (h : call.Handed fresh kept) :
    call.Handed fresh' kept' := by
  cases call with
  | initChat nameStr io => exact hfresh io h
  | addChannel sender channelId io => exact hfresh io h
  | openChat channelId io => exact hkept io h
  | sendMessage channelId msg => trivial
  | addNode channelId pubKey name => trivial
  | receiveBuffer channelId buffer count => trivial

theorem sound [Target] (h : call.Handed MemIo.Sound MemIo.Sound) : call.Sound := by
  cases call <;> exact h

end ClientCall.Handed

namespace Client

variable [Target] [IdealCrypto C P S] [Postcard (Message (Protocol P))] [EnvelopeCodec P]

section Continues

variable [RecordCodec] [Postcard (NewChannel P)] {client mid client' : Client maxChannels maxNodes slabSize C P S}

/-- The client after any calls on the channels it has, whatever their outcomes. -/
inductive Continues (client : Client maxChannels maxNodes slabSize C P S) :
    Client maxChannels maxNodes slabSize C P S → Prop
  | refl : Continues client client
  | doSend (mid : Client maxChannels maxNodes slabSize C P S) (channelId : ChannelId) (data : Protocol P)
      (h : Continues client mid) : Continues client (Client.doSend channelId data mid).2
  | doReceive (mid : Client maxChannels maxNodes slabSize C P S) (channelId : ChannelId) (bytes : Bytes)
      (h : Continues client mid) : Continues client (Client.doReceive channelId bytes mid).2
  | call (mid : Client maxChannels maxNodes slabSize C P S) (call : ClientCall slabSize P)
      (h : Continues client mid) (hheld : call.OnHeld) : Continues client (call.run mid).2

theorem onHeld_moved {call : ClientCall slabSize P} (hheld : call.OnHeld)
    (hs : Every Channel.Sound client) : Moved True client (call.run client).2 := by
  have hsound : call.Sound := by cases call <;> trivial
  rcases hrun : call.run client with ⟨outcome,client'⟩
  rcases ClientCall.run_cases hsound hs hrun with hmoved | ⟨_,id,hmakes⟩
  · exact hmoved.mono (fun _ => trivial)
  · obtain ⟨ch,hch,_⟩ := hmakes.channels
    cases call <;> first | exact hheld.elim | exact hch.elim

theorem Continues.moved (h : Continues client client') (hs : Every Channel.Sound client) :
    Moved True client client' := by
  induction h with
  | refl => exact .refl client
  | doSend mid channelId data _ ih =>
    rcases hrun : Client.doSend channelId data mid with ⟨outcome,client'⟩
    exact ih.trans ((doSend_moved hrun).mono (fun _ => trivial))
  | doReceive mid channelId bytes _ ih =>
    rcases hrun : Client.doReceive channelId bytes mid with ⟨outcome,client'⟩
    exact ih.trans ((doReceive_moved hrun).mono (fun _ => trivial))
  | call mid call _ hheld ih => exact ih.trans (onHeld_moved hheld (ih.sound hs))

end Continues

section Owned

variable [RecordCodec] {client client' : Client maxChannels maxNodes slabSize C P S} {channelId : ChannelId}
  {I : Channel maxNodes slabSize C P → Prop}

/-- A client with a pair of keys, under whose id it goes, and with the property in every channel. -/
structure Owned (I : Channel maxNodes slabSize C P → Prop)
    (client : Client maxChannels maxNodes slabSize C P S) : Prop where
  nodeId : client.nodeId = computeId C client.keyPair.pub
  paired : Paired C client.keyPair
  sound : Every Channel.Sound client
  every : Every I client

/-- What taking in a message that bytes carry keeps, whatever the outcome, a client keeps as it moves. -/
theorem Owned.moved (h : Owned I client)
    (htaken : ∀ channelId ch ch' (crypto : C) bytes sender message id outcome, I ch → ch.Sound →
      Channel.Carries crypto ch.state bytes sender message id →
      Channel.take channelId sender message id bytes ch = (outcome,ch') → I ch')
    (hmoved : Moved True client client') : Owned I client' := by
  refine ⟨by rw [hmoved.nodeId,hmoved.keyPair]; exact h.nodeId,by rw [hmoved.keyPair]; exact h.paired,
    hmoved.sound h.sound,fun id ch' hid => ?_⟩
  obtain ⟨ch,hget,hmoves⟩ := hmoved.before hid
  rw [h.nodeId] at hmoves
  refine hmoves.rule h.paired ?_ (h.sound id ch hget) (h.every id ch hget)
  intro ch ch' crypto bytes sender message eid outcome hch hs hcarries htake _
  exact htaken id ch ch' crypto bytes sender message eid outcome hch hs hcarries htake

variable [Postcard (NewChannel P)] {fresh fresh' kept kept' : MemIo slabSize → Prop}

/-- A client after any calls, whatever their outcomes: it makes channels on memory that is as `fresh` says, and
opens them from memory that is as `kept` says. -/
inductive Tended (fresh kept : MemIo slabSize → Prop) : Client maxChannels maxNodes slabSize C P S → Prop
  | new (keyPair : KeyPair S P) (crypto : C) : Tended fresh kept (Client.new keyPair crypto FnvIndexMap.empty)
  | call (client : Client maxChannels maxNodes slabSize C P S) (call : ClientCall slabSize P)
      (h : Tended fresh kept client) (hhanded : call.Handed fresh kept) : Tended fresh kept (call.run client).2

theorem Tended.mono (hfresh : ∀ io, fresh io → fresh' io) (hkept : ∀ io, kept io → kept' io)
    (h : Tended fresh kept client) : Tended fresh' kept' client := by
  induction h with
  | new keyPair crypto => exact .new keyPair crypto
  | call client call _ hhanded ih => exact .call client call ih (hhanded.mono hfresh hkept)

theorem Tended.reachable (hfresh : ∀ io, fresh io → io.Sound) (hkept : ∀ io, kept io → io.Sound)
    (h : Tended fresh kept client) : Reachable client := by
  induction h with
  | new keyPair crypto => exact .new keyPair crypto
  | call client call _ hhanded ih => exact .call client call ih (hhanded.mono hfresh hkept).sound

/-- What every channel has where it is made or opened, and keeps with each message that is offered to it, the
channels of a client have after any calls. -/
theorem Tended.rule (hfresh : ∀ io, fresh io → io.Sound) (hkept : ∀ io, kept io → io.Sound)
    (hmade : ∀ id (creator : P) io ch, fresh io → freshChannel (computeId C creator) creator id io = .ok ch → I ch)
    (hopened : ∀ id (creator : P) ch, kept ch.storage.io → Channel.Opens (C := C) creator id ch → I ch)
    (htaken : ∀ channelId ch ch' (crypto : C) bytes sender message id outcome, I ch → ch.Sound →
      Channel.Carries crypto ch.state bytes sender message id →
      Channel.take channelId sender message id bytes ch = (outcome,ch') → I ch')
    (h : Tended fresh kept client) (hpaired : Paired C client.keyPair) : Owned I client := by
  induction h with
  | new keyPair crypto =>
    refine ⟨rfl,hpaired,fun id ch hget => ?_,fun id ch hget => ?_⟩
    · simp [Client.new] at hget
    · simp [Client.new] at hget
  | call client call h hhanded ih =>
    have hs := (h.reachable hfresh hkept).sound
    have hsound := (hhanded.mono hfresh hkept).sound
    rcases hrun : call.run client with ⟨outcome,client'⟩
    rw [hrun] at hpaired
    rcases ClientCall.run_cases hsound hs hrun with hmoved | ⟨_,id,hmakes⟩
    · rw [hmoved.keyPair] at hpaired
      exact (ih hpaired).moved htaken (hmoved.mono (fun _ => trivial))
    · rw [hmakes.keyPair] at hpaired
      have howned := ih hpaired
      have hsound' := run_keeps hsound client hs
      rw [hrun] at hsound'
      obtain ⟨made,hmade',hget⟩ := hmakes.channels
      refine ⟨by rw [hmakes.nodeId,hmakes.keyPair]; exact howned.nodeId,by rw [hmakes.keyPair]; exact hpaired,
        hsound',fun id' ch hid => ?_⟩
      rw [hget] at hid
      split_ifs at hid
      swap
      · exact howned.every id' ch hid
      cases hid
      cases call with
      | initChat nameStr io =>
        obtain ⟨start,hstart,hmoves⟩ := hmade'
        refine hmoves.rule hpaired ?_ (Channel.freshChannel_sound hsound hstart) (hmade id _ io start hhanded hstart)
        intro ch ch' crypto bytes sender message eid outcome hch hs hcarries htake _
        exact htaken id ch ch' crypto bytes sender message eid outcome hch hs hcarries htake
      | addChannel sender channelId io => exact hmade id sender io made hhanded (hmade'.1 ▸ hmade'.2)
      | openChat channelId io =>
        obtain ⟨rfl,hio,hopens⟩ := hmade'
        exact hopened id _ made (hio ▸ hhanded) hopens
      | sendMessage channelId msg => exact hmade'.elim
      | addNode channelId pubKey name => exact hmade'.elim
      | receiveBuffer channelId buffer count => exact hmade'.elim

theorem Tended.ends (h : Tended MemIo.Zeroed MemIo.Laid client) (hpaired : Paired C client.keyPair) :
    Owned (fun ch => ch.storage.io.Ends) client := by
  refine h.rule (fun _ hio => hio.sound) (fun _ hio => hio.sound) ?_ ?_ ?_ hpaired
  · intro id creator io ch hio hfresh
    rw [Channel.freshChannel_storage hfresh]
    exact Or.inl hio.blank
  · intro id creator ch hio _
    obtain ⟨_,_,hends⟩ := hio
    exact hends
  · intro channelId ch ch' crypto bytes sender message id outcome hends hs _ htake
    exact Channel.take_ends hends hs htake

omit [Postcard (NewChannel P)] in
theorem Moved.grown (h : Moved True client client') (hs : Every Channel.Sound client)
    {ch : Channel maxNodes slabSize C P} (hget : client.channels.get channelId = some ch) :
    ∃ ch', client'.channels.get channelId = some ch' ∧ ch'.Sound ∧ ch.state.Grown ch'.state := by
  obtain ⟨ch',hget',hmoves⟩ := h.channels channelId ch hget
  have hkept := hmoves.keeps (I := fun c => c.Sound ∧ ch.state.Grown c.state) (fun sender message id bytes c hc =>
    ⟨Channel.take_keeps c hc.1,hc.2.trans (Channel.take_grows hc.1 rfl)⟩)
    ⟨hs channelId ch hget,.refl ch.state⟩
  exact ⟨ch',hget',hkept⟩

end Owned

section Verifies

variable [RecordCodec] {client client' : Client maxChannels maxNodes slabSize C P S} {channelId : ChannelId}

/-- The bytes are an envelope that opens under the key that the channel keeps for its sender, whose id is the
sender's. -/
def Verifies (client : Client maxChannels maxNodes slabSize C P S) (channelId : ChannelId) (bytes : Bytes) : Prop :=
  ∃ (ch : Channel maxNodes slabSize C P) (envelope : ChatEnvelope P) (key : P) (message : Message (Protocol P)),
    client.channels.get channelId = some ch ∧ decodeAs (ChatEnvelope P) bytes = .ok envelope ∧
      computeId C key = envelope.sender ∧ ch.state.getNodeKey envelope.sender = .ok key ∧
      Crypto.openEnvelope client.crypto key envelope = .ok message

omit [Target] [RecordCodec] in
/-- What the table opens, it verifies: a node keeps its key under the id of it. -/
theorem Verifies.of_carries {ch : Channel maxNodes slabSize C P} (hk : ch.state.Keyed C)
    (hget : client.channels.get channelId = some ch) {bytes : Bytes} {sender : NodeId}
    {message : Message (Protocol P)} {id : EnvelopeId}
    (h : Channel.Carries client.crypto ch.state bytes sender message id) : client.Verifies channelId bytes := by
  obtain ⟨envelope,key,hdecode,rfl,hkey,hopen,_⟩ := h
  obtain ⟨r,hr,rfl⟩ := hk.valid.sorted.getNodeKey_eq_ok.mp hkey
  exact ⟨ch,envelope,r.publicKey,message,hget,hdecode,hk.keys _ r hr,hkey,hopen⟩

/-- What verifies once verifies ever after. -/
theorem Verifies.later {bytes : Bytes} (h : client.Verifies channelId bytes)
    (hs : Every Channel.Sound client) (hmoved : Moved True client client') : client'.Verifies channelId bytes := by
  obtain ⟨ch,envelope,key,message,hget,hdecode,hid,hkey,hopen⟩ := h
  obtain ⟨ch',hget',hs',hgrown⟩ := hmoved.grown hs hget
  refine ⟨ch',envelope,key,message,hget',hdecode,hid,?_,?_⟩
  · exact hgrown.getNodeKey (hs channelId ch hget).valid.sorted hs'.valid.sorted hkey
  · rwa [IdealCrypto.open_stateless client'.crypto client.crypto]

variable [Postcard (NewChannel P)]

theorem Tended.archived [PrefixCodec] (hkept : ∀ io, kept io → io.Laid) (h : Tended MemIo.Fresh kept client)
    (hpaired : Paired C client.keyPair) : Owned (Channel.Archived (∃ io, kept io)) client := by
  refine h.rule (fun _ hio => hio.sound) (fun io hio => (hkept io hio).sound) ?_ ?_ ?_ hpaired
  · intro id creator io ch hio hfresh
    refine ⟨[],[],[],Or.inl rfl,?_,rfl,Channel.attested_nil⟩
    rw [Channel.freshChannel_storage hfresh]
    exact singles_new hio.lays
  · intro id creator ch hio hopens
    obtain ⟨rs,hlays,hends⟩ := hkept _ hio
    obtain ⟨log,hstory,hrecords⟩ := hopens.story
    obtain ⟨hidden,shown,_,hdata,hsingles,_⟩ := hlays.records_shown hends hrecords
    exact ⟨hidden,shown,log,Or.inr ⟨_,hio⟩,hsingles,hdata.symm,hstory.attested⟩
  · exact fun _ _ _ _ _ _ _ _ _ hch hs hcarries htake => hch.take hs hcarries htake

omit [Postcard (NewChannel P)] in
theorem Owned.archived_moved {opened : Prop} (h : Owned (Channel.Archived opened) client)
    (hmoved : Moved True client client') : Owned (Channel.Archived opened) client' :=
  h.moved (fun _ _ _ _ _ _ _ _ _ hch hs hcarries htake => hch.take hs hcarries htake) hmoved

omit [Postcard (NewChannel P)] in
theorem Owned.ends_moved (h : Owned (fun ch => ch.storage.io.Ends) client) (hmoved : Moved True client client') :
    Owned (fun ch => ch.storage.io.Ends) client' :=
  h.moved (fun _ _ _ _ _ _ _ _ _ hends hs _ htake => Channel.take_ends hends hs htake) hmoved

/-- The envelopes that a channel has stored are as `R` says: those of all its records where the calls that led to the
client opened none, those of all records behind slabs that read as empty where they did, and those that it reads back. -/
structure AllStored (client : Client maxChannels maxNodes slabSize C P S) (ch : Channel maxNodes slabSize C P)
    (R : List Bytes → Prop) : Prop where
  made : Tended MemIo.Fresh (fun _ => False) client → ∃ rs, Singles ch.storage.io [] rs ∧ R (rs.map Record.data)
  opened : Tended MemIo.Fresh MemIo.Laid client → ∃ hidden rs, Singles ch.storage.io hidden rs ∧
    R (rs.map Record.data)
  read : Tended MemIo.Zeroed MemIo.Laid client → ∀ ds, ch.storage.records = .ok ds → R ds

/-- What holds of all messages that a table attests holds of those that the channel has stored. -/
theorem AllStored.of_attested [PrefixCodec] {base : Client maxChannels maxNodes slabSize C P S}
    (hpaired : Paired C base.keyPair) (hmoved : Moved True base client) {ch : Channel maxNodes slabSize C P}
    (hget : client.channels.get channelId = some ch) {R : List Bytes → Prop}
    (hR : ∀ log : List (Entry P), Channel.Attested C ch.state log → R (log.map Entry.bytes)) : AllStored base ch R := by
  refine ⟨fun htended => ?_,fun htended => ?_,fun htended ds hrecords => ?_⟩
  · obtain ⟨hidden,rs,log,rfl | ⟨_,hno⟩,hsingles,hdata,hattested⟩ :=
      ((htended.archived (fun _ hno => hno.elim) hpaired).archived_moved hmoved).every channelId ch hget
    · exact ⟨rs,hsingles,hdata ▸ hR log hattested⟩
    · exact hno.elim
  · obtain ⟨hidden,rs,log,_,hsingles,hdata,hattested⟩ :=
      ((htended.archived (fun _ hio => hio) hpaired).archived_moved hmoved).every channelId ch hget
    exact ⟨hidden,rs,hsingles,hdata ▸ hR log hattested⟩
  · have hfresh := htended.mono (fun _ hio => hio.fresh) (fun _ hio => hio)
    have harchived := ((hfresh.archived (fun _ hio => hio) hpaired).archived_moved hmoved).every channelId ch hget
    have hends := ((htended.ends hpaired).ends_moved hmoved).every channelId ch hget
    obtain ⟨log,rfl,hattested⟩ := harchived.records hends hrecords
    exact hR log hattested

/-- Every node stands under the id of its key and keeps it, and every envelope that a channel takes in or has stored
verifies under the key of its sender, now and later. -/
theorem Continues.authentic [PrefixCodec] {base : Client maxChannels maxNodes slabSize C P S} (hbase : Reachable base)
    (hpaired : Paired C base.keyPair) (h : Continues base client) {ch : Channel maxNodes slabSize C P}
    (hget : client.channels.get channelId = some ch) :
    (∀ r ∈ ch.state.listNodes, r.node = computeId C r.publicKey) ∧
    (∀ client', Continues client client' → ∃ ch', client'.channels.get channelId = some ch' ∧
      ∀ n key, ch.state.getNodeKey n = .ok key → ch'.state.getNodeKey n = .ok key) ∧
    (∀ bytes after, Client.doReceive channelId bytes client = (.ok (),after) →
      client.Verifies channelId bytes ∧ ∀ client', Continues after client' → client'.Verifies channelId bytes) ∧
    AllStored base ch (fun ds => ∀ bytes ∈ ds, ∀ client', Continues client client' →
      client'.Verifies channelId bytes) := by
  have hmoved := h.moved hbase.sound
  have hs := hmoved.sound hbase.sound
  have hsound := hs channelId ch hget
  refine ⟨fun r hr => ?_,fun client' hrun => ?_,fun bytes after hreceive => ?_,
    .of_attested hpaired hmoved hget (fun log hattested bytes hbytes client' hrun => ?_)⟩
  · exact (hsound.keyed.keys _ r (hsound.valid.sorted.record_of_mem hr)).symm
  · obtain ⟨ch',hget',hs',hgrown⟩ := (hrun.moved hs).grown hs hget
    exact ⟨ch',hget',fun n key => hgrown.getNodeKey hsound.valid.sorted hs'.valid.sorted⟩
  · rcases doReceive_cases hreceive with ⟨_,_,hno,_⟩ | ⟨envelope,ch',ch'',hdecode,hget',hrun,_⟩
    · cases hno
    rw [hget] at hget'
    cases hget'
    rcases Channel.doReceive_cases hrun with ⟨key,message,hkey,hopen,_⟩ | ⟨⟨hno,_⟩,_⟩
    swap
    · exact absurd rfl hno
    have hverifies : client.Verifies channelId bytes :=
      Verifies.of_carries hsound.keyed hget ⟨envelope,key,hdecode,rfl,hkey,hopen,rfl⟩
    have hafter := (doReceive_moved hreceive).mono (fun _ => trivial)
    exact ⟨hverifies,fun client' hlater =>
      hverifies.later hs (hafter.trans (hlater.moved (hafter.sound hs)))⟩
  · obtain ⟨entry,hentry,rfl⟩ := List.mem_map.mp hbytes
    exact (Verifies.of_carries hsound.keyed hget (hattested.carried entry hentry client.crypto)).later hs
      (hrun.moved hs)

end Verifies

end Client

section Owner

open PlainCrypto

theorem owner_paired : Paired PlainCrypto owner.keyPair := by
  have hsame : owner.keyPair.priv = owner.keyPair.pub := by decide +kernel
  exact hsame

theorem owner_tended {fresh kept : MemIo 256 → Prop} (hio : fresh (blankIo 256 4)) :
    Client.Tended fresh kept owner :=
  .call _ (.initChat chatStr (blankIo 256 4)) (.new _ _) hio

theorem ownerOfTwo_continues : Client.Continues owner ownerOfTwo :=
  .call owner (.addNode (chatId 1) 2 Str.empty) .refl trivial

/-- Both nodes in the owner's table stand under the ids of their keys, and the two envelopes that it reads back
verify after one more message too. -/
theorem authentic_ownerOfTwo : ∃ ch ds, ownerOfTwo.channels.get (chatId 1) = some ch ∧
    ch.storage.records = .ok ds ∧ ds.length = 2 ∧
    (∀ r ∈ ch.state.listNodes, r.node = computeId PlainCrypto r.publicKey) ∧
    ∀ bytes ∈ ds, speaker.Verifies (chatId 1) bytes := by
  have hread : (((ownerOfTwo.channels.get (chatId 1)).map (fun ch => ch.storage.records.value.map List.length)) =
    some (some 2)) := by decide +kernel
  obtain ⟨ch,hch,hvalue⟩ := Option.map_eq_some_iff.mp hread
  obtain ⟨ds,hds,hlen⟩ := Option.map_eq_some_iff.mp hvalue
  have hrecords := Outcome.value_eq_some.mp hds
  obtain ⟨hkeys,_,_,hverify⟩ := ownerOfTwo_continues.authentic owner_reachable owner_paired hch
  refine ⟨ch,ds,hch,hrecords,hlen,hkeys,fun bytes hbytes => ?_⟩
  exact hverify.read (owner_tended ownIo_zeroed) ds hrecords bytes hbytes speaker
    (.call ownerOfTwo (.sendMessage (chatId 1) textStr) .refl trivial)

end Owner

end Finder
