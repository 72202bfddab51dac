import Finder.Client.Redelivery
import Finder.Client.Taking
import Finder.Sync.Framing
import Finder.Sync.Stories

namespace Finder

variable {maxChannels maxNodes slabSize : Nat} {D C P S : Type}

/-- The devices that share a channel: their keys, and which of them made it. -/
structure Group (D C P S : Type) [IdealCrypto C P S] where
  keys : D → KeyPair S P
  owner : D
  channelId : ChannelId
  paired : ∀ d, Paired C (keys d)
  distinct : ∀ d d', (keys d).pub = (keys d').pub → d = d'

namespace Group

variable [IdealCrypto C P S]

def node (g : Group D C P S) (d : D) : NodeId := computeId C (g.keys d).pub

def creator (g : Group D C P S) : P := (g.keys g.owner).pub

theorem node_injective (g : Group D C P S) : Function.Injective g.node :=
  fun d d' h => g.distinct d d' (computeId_injective C h)

end Group

section Logs

variable [Target] [IdealCrypto C P S] [RecordCodec] [Postcard (Message (Protocol P))] [EnvelopeCodec P]

/-- What is true of every entry of a group. -/
structure Group.Proper (g : Group D C P S) (e : Entry P) : Prop where
  signed : e.Signed C
  short : e.bytes.length ≤ scratch.length
  names : ∀ m, e.message.data = .newChannel m → m.owner = g.creator ∧ e.sender = g.node g.owner

/-- What one client of a group has accepted. -/
structure Group.Keeps (g : Group D C P S) (d : D) (client : Client maxChannels maxNodes slabSize C P S)
    (log : List (Entry P)) : Prop where
  keyPair : client.keyPair = g.keys d
  nodeId : client.nodeId = g.node d
  sound : client.Every Channel.Sound
  absent : client.channels.get g.channelId = none → log = []
  story : ∀ ch, client.channels.get g.channelId = some ch → Channel.Story g.channelId g.creator log ch
  filed : ∀ ch, client.channels.get g.channelId = some ch → Filed ch.storage.io log
  proper : ∀ e ∈ log, g.Proper e

/-- What all of them have accepted. -/
structure Logs (g : Group D C P S) (clients : D → Client maxChannels maxNodes slabSize C P S)
    (logs : D → List (Entry P)) : Prop where
  keeps : ∀ d, g.Keeps d (clients d) (logs d)
  coherent : Coherent Entry.sender Entry.last Entry.seq g.node logs

variable {g : Group D C P S} {clients : D → Client maxChannels maxNodes slabSize C P S} {logs : D → List (Entry P)}
  {d : D} {client client' : Client maxChannels maxNodes slabSize C P S} {ch : Channel maxNodes slabSize C P}
  {log : List (Entry P)} {e : Entry P} {crypto : C}

/-- What is known of a client when its channel of the group is another one. -/
theorem Group.Keeps.makes {R : Channel maxNodes slabSize C P → Prop} {log' : List (Entry P)}
    (h : g.Keeps d client log) (hmakes : Client.Makes g.channelId R client client')
    (hR : ∀ ch, R ch → ch.Sound ∧ Channel.Story g.channelId g.creator log' ch ∧ Filed ch.storage.io log')
    (hproper : ∀ e ∈ log', g.Proper e) : g.Keeps d client' log' := by
  obtain ⟨ch,hch,hget⟩ := hmakes.channels
  obtain ⟨hs,hstory,hfiled⟩ := hR ch hch
  have hown : client'.channels.get g.channelId = some ch := by rw [hget,if_pos rfl]
  refine ⟨hmakes.keyPair.trans h.keyPair,hmakes.nodeId.trans h.nodeId,fun id c hid => ?_,fun hnone => ?_,
    fun c hid => ?_,fun c hid => ?_,hproper⟩
  · rw [hget] at hid
    split_ifs at hid
    · cases hid
      exact hs
    · exact h.sound id c hid
  · rw [hown] at hnone
    cases hnone
  · rw [hown] at hid
    cases hid
    exact hstory
  · rw [hown] at hid
    cases hid
    exact hfiled

/-- What is known of a client when a message is taken in on its channel. -/
theorem Group.Keeps.take (h : g.Keeps d client log) (hs : ch.Sound)
    (hstory : Channel.Story g.channelId g.creator log ch) (hfiled : Filed ch.storage.io log)
    (hcarries : Channel.Carries crypto ch.state e.bytes e.sender e.message e.id) (hproper : g.Proper e)
    (hmakes : Client.Makes g.channelId
      (fun ch' => Channel.take g.channelId e.sender e.message e.id e.bytes ch = (.ok (),ch')) client client') :
    g.Keeps d client' (log ++ [e]) := by
  refine h.makes hmakes (fun ch' htake => ?_) (fun x hx => ?_)
  · have htaken := Channel.take_ok hs htake
    have hs' : ch'.Sound := by
      have hkept : (Channel.take g.channelId e.sender e.message e.id e.bytes ch).2.Sound := Channel.take_keeps ch hs
      rwa [htake] at hkept
    refine ⟨hs',hstory.take hcarries htaken,hfiled.store ?_ (hstory.recordOf_eq e) htaken.stored⟩
    -- the record is an envelope with a few numbers
    have hbound := RecordCodec.bounded (e.record (topFrom 0 log) (countFrom 0 log))
    have hshort := hproper.short
    rw [scratch,List.length_replicate] at hshort
    change e.bytes.length < 2^64 → _ ≤ e.bytes.length+72 at hbound
    have hlen := hbound (by omega)
    omega
  · rcases List.mem_append.mp hx with hx | hx
    · exact h.proper x hx
    · rw [List.mem_singleton.mp hx]
      exact hproper

variable [DecidableEq D]

/-- One client goes on, with a log of its own. -/
theorem Logs.replace (h : Logs g clients logs) (hkeeps : g.Keeps d client log)
    (hcoherent : Coherent Entry.sender Entry.last Entry.seq g.node (Function.update logs d log)) :
    Logs g (Function.update clients d client) (Function.update logs d log) := by
  refine ⟨fun d' => ?_,hcoherent⟩
  by_cases hd : d' = d
  · subst hd
    rw [Function.update_self,Function.update_self]
    exact hkeeps
  · rw [Function.update_of_ne hd,Function.update_of_ne hd]
    exact h.keeps d'

/-- A message that its sender takes in itself, or that another client has, continues what there is of the sender. -/
theorem Logs.take (h : Logs g clients logs) (hs : ch.Sound)
    (hstory : Channel.Story g.channelId g.creator (logs d) ch) (hfiled : Filed ch.storage.io (logs d))
    (hcarries : Channel.Carries crypto ch.state e.bytes e.sender e.message e.id) (hproper : g.Proper e)
    (hmakes : Client.Makes g.channelId
      (fun ch' => Channel.take g.channelId e.sender e.message e.id e.bytes ch = (.ok (),ch')) (clients d) client')
    (horigin : e.sender = g.node d ∨ ∃ d', e ∈ logs d') :
    Logs g (Function.update clients d client') (Function.update logs d (logs d ++ [e])) := by
  obtain ⟨ch',htake,_⟩ := hmakes.channels
  obtain ⟨r,hr,hlt,hlast,_⟩ := (Channel.take_ok hs htake).accepted.receivable
  have hreached := (hstory.chained e.sender).1
  rw [ChannelState.sequenceOf_eq hr] at hreached
  refine h.replace ((h.keeps d).take hs hstory hfiled hcarries hproper hmakes)
    (h.coherent.push g.node_injective horigin ?_ ?_)
  · rw [←hreached]
    exact congrArg Fin.val hlast.symm
  · rw [←hreached]
    exact hlt

/-- A message that a client seals itself is one of its own. -/
theorem Logs.send (h : Logs g clients logs) (hs : ch.Sound)
    (hstory : Channel.Story g.channelId g.creator (logs d) ch) (hfiled : Filed ch.storage.io (logs d))
    {message : Message (Protocol P)} {envelope : ChatEnvelope P} {data : Protocol P}
    (haddress : ch.state.address (g.node d) data = .ok message)
    (hseal : Crypto.sealEnvelope crypto (g.node d) (.channel g.channelId) (g.keys d) message scratch.length =
      .ok envelope)
    (hnames : ∀ m, data = .newChannel m → m.owner = g.creator ∧ g.node d = g.node g.owner)
    (hmakes : Client.Makes g.channelId (fun ch' => Channel.take g.channelId (g.node d) message
      (Crypto.envelopeId crypto envelope) (toBytes envelope) ch = (.ok (),ch')) (clients d) client') :
    ∃ e : Entry P, e.sender = g.node d ∧ e.message.data = data ∧
      Logs g (Function.update clients d client') (Function.update logs d (logs d ++ [e])) := by
  have hcarries := Channel.carries_of_sealed hs.keyed (g.paired d) haddress hseal
  have hdata : message.data = data := by
    obtain ⟨_,_,_,_,_,_,_,hdata⟩ := hs.valid.address_eq_ok.mp haddress
    exact hdata
  have hproper : g.Proper ⟨g.node d,message,Crypto.envelopeId crypto envelope,toBytes envelope⟩ := by
    refine ⟨Channel.Carries.signed hcarries hs.keyed,envelope_length envelope,?_⟩
    rw [hdata]
    exact hnames
  exact ⟨_,rfl,hdata,h.take (e := ⟨g.node d,message,Crypto.envelopeId crypto envelope,toBytes envelope⟩) hs hstory
    hfiled hcarries hproper hmakes (Or.inl rfl)⟩

theorem Logs.doSend (h : Logs g clients logs) {data : Protocol P} (hnames : ∀ m, data ≠ .newChannel m)
    (hcall : Client.doSend g.channelId data (clients d) = (.ok (),client')) :
    ∃ e : Entry P, e.sender = g.node d ∧ e.message.data = data ∧
      Logs g (Function.update clients d client') (Function.update logs d (logs d ++ [e])) := by
  obtain ⟨ch,hget,hmakes⟩ := Client.doSend_makes hcall
  obtain ⟨ch',⟨message,envelope,haddress,hseal,htake⟩,hothers⟩ := hmakes.channels
  have hd := h.keeps d
  rw [hd.nodeId] at haddress hseal htake
  rw [hd.keyPair] at hseal
  exact h.send (hd.sound _ _ hget) (hd.story ch hget) (hd.filed ch hget) haddress hseal
    (fun m hm => absurd hm (hnames m)) ⟨hmakes.nodeId,hmakes.keyPair,ch',htake,hothers⟩

/-- A record that a client has stored is received as the entry that it is of. -/
theorem Logs.doReceive (h : Logs g clients logs) {d' : D} (he : e ∈ logs d')
    (hcall : Client.doReceive g.channelId e.bytes (clients d) = (.ok (),client')) :
    Logs g (Function.update clients d client') (Function.update logs d (logs d ++ [e])) := by
  obtain ⟨ch,hget,hmakes⟩ := Client.doReceive_makes hcall
  obtain ⟨ch',⟨sender,message,id,hcarries,htake⟩,hothers⟩ := hmakes.channels
  have hd := h.keeps d
  have hs := hd.sound _ _ hget
  have hsigned : Entry.Signed C (⟨sender,message,id,e.bytes⟩ : Entry P) :=
    Channel.Carries.signed hcarries hs.keyed
  have hsame := hsigned.unique ((h.keeps d').proper e he).signed rfl
  obtain ⟨sender',message',id',bytes⟩ := e
  cases hsame
  exact h.take hs (hd.story ch hget) (hd.filed ch hget) hcarries ((h.keeps d').proper _ he)
    ⟨hmakes.nodeId,hmakes.keyPair,ch',htake,hothers⟩ (Or.inr ⟨d',he⟩)

/-- So are all of a buffer. -/
theorem Logs.receiveAll {ds : List Bytes} (h : Logs g clients logs) (hds : ∀ b ∈ ds, ∃ d', ∃ e ∈ logs d', e.bytes = b)
    (hcall : Client.receiveAll g.channelId ds (clients d) = (.ok (),client')) :
    ∃ more : List (Entry P), (∀ e ∈ more, ∃ d', e ∈ logs d') ∧
      Logs g (Function.update clients d client') (Function.update logs d (logs d ++ more)) := by
  induction ds generalizing clients logs with
  | nil =>
    cases hcall
    exact ⟨[],by simp,by rwa [List.append_nil,Function.update_eq_self,Function.update_eq_self]⟩
  | cons b ds ih =>
    obtain ⟨d',e,he,rfl⟩ := hds b List.mem_cons_self
    have hlater : ∀ b ∈ ds, ∃ d', ∃ e ∈ logs d', e.bytes = b := fun b hb => hds b (List.mem_cons_of_mem _ hb)
    rw [Client.receiveAll] at hcall
    dsimp only at hcall
    split at hcall
    · rename_i mid hrun
      have hnext := h.doReceive he hrun
      have hheld : ∀ b ∈ ds, ∃ d', ∃ x ∈ Function.update logs d (logs d ++ [e]) d', x.bytes = b := by
        intro b hb
        obtain ⟨d'',x,hx,rfl⟩ := hlater b hb
        refine ⟨d'',x,?_,rfl⟩
        by_cases hd : d'' = d
        · subst hd
          rw [Function.update_self]
          exact List.mem_append_left _ hx
        · rwa [Function.update_of_ne hd]
      obtain ⟨more,hmore,hlogs⟩ := ih hnext hheld (by rwa [Function.update_self])
      rw [Function.update_idem,Function.update_idem,Function.update_self,List.append_assoc] at hlogs
      refine ⟨e::more,fun x hx => ?_,hlogs⟩
      rcases List.mem_cons.mp hx with rfl | hx
      · exact ⟨d',he⟩
      · obtain ⟨d'',hx⟩ := hmore x hx
        by_cases hd : d'' = d
        · subst hd
          rw [Function.update_self] at hx
          rcases List.mem_append.mp hx with hx | hx
          · exact ⟨d'',hx⟩
          · exact ⟨d',List.mem_singleton.mp hx ▸ he⟩
        · rw [Function.update_of_ne hd] at hx
          exact ⟨d'',hx⟩
    · rename_i mid hrun
      rw [Client.doReceive_alreadyReceived (h.keeps d).sound hrun] at hcall
      exact ih h hlater hcall
    · cases hcall
    · cases hcall

end Logs

section Honest

variable [Target] [RecordCodec]

/-- The buffer holds frames of records that some of the clients have stored. -/
def Delivers (clients : D → Client maxChannels maxNodes slabSize C P S) (channelId : ChannelId) (buffer : Bytes)
    (count : Nat) : Prop :=
  ∃ ds : List Bytes, ds.length = count ∧ sendFrames ds <+: buffer ∧ ∀ b ∈ ds, ∃ d ch held,
    (clients d).channels.get channelId = some ch ∧ ch.storage.records = .ok held ∧ b ∈ held

variable [DecidableEq D] [IdealCrypto C P S] [Postcard (Message (Protocol P))] [EnvelopeCodec P]
  [Postcard (NewChannel P)]

/-- The clients of a group after any calls that have all succeeded: the owner makes the channel, the others add it
with the owner's key, and what they receive on it is what one of them has stored. -/
inductive Honest (g : Group D C P S) : (D → Client maxChannels maxNodes slabSize C P S) → Prop
  | new (cryptos : D → C) : Honest g (fun d => Client.new (g.keys d) (cryptos d) FnvIndexMap.empty)
  | initChat (clients : D → Client maxChannels maxNodes slabSize C P S)
      (client : Client maxChannels maxNodes slabSize C P S) (nameStr : Str) (io : MemIo slabSize)
      (h : Honest g clients)
      (hnone : (clients g.owner).channels.get g.channelId = none) (hio : io.Zeroed)
      (hcall : Client.initChat nameStr io (clients g.owner) = (.ok g.channelId,client)) :
      Honest g (Function.update clients g.owner client)
  | addChannel (clients : D → Client maxChannels maxNodes slabSize C P S) (d : D)
      (client : Client maxChannels maxNodes slabSize C P S) (io : MemIo slabSize) (h : Honest g clients)
      (hjoins : d ≠ g.owner) (hnone : (clients d).channels.get g.channelId = none) (hio : io.Zeroed)
      (hcall : Client.addChannel g.creator g.channelId io (clients d) = (.ok (),client)) :
      Honest g (Function.update clients d client)
  | sendMessage (clients : D → Client maxChannels maxNodes slabSize C P S) (d : D)
      (client : Client maxChannels maxNodes slabSize C P S) (msg : Str) (h : Honest g clients)
      (hcall : Client.sendMessage g.channelId msg (clients d) = (.ok (),client)) :
      Honest g (Function.update clients d client)
  | addNode (clients : D → Client maxChannels maxNodes slabSize C P S) (d : D)
      (client : Client maxChannels maxNodes slabSize C P S) (pubKey : P) (name : Str) (h : Honest g clients)
      (hcall : Client.addNode g.channelId pubKey name (clients d) = (.ok (),client)) :
      Honest g (Function.update clients d client)
  | receiveBuffer (clients : D → Client maxChannels maxNodes slabSize C P S) (d : D)
      (client : Client maxChannels maxNodes slabSize C P S) (buffer : Bytes) (count : Nat) (h : Honest g clients)
      (hmax : buffer.length ≤ isizeMax) (hdelivers : Delivers clients g.channelId buffer count)
      (hcall : Client.receiveBuffer g.channelId buffer count (clients d) = (.ok (),client)) :
      Honest g (Function.update clients d client)
  | elsewhere (clients : D → Client maxChannels maxNodes slabSize C P S) (d : D)
      (client : Client maxChannels maxNodes slabSize C P S) (call : ClientCall slabSize P) (h : Honest g clients)
      (hsound : call.Sound) (hcall : call.run (clients d) = (.ok (),client))
      (hsame : client.channels.get g.channelId = (clients d).channels.get g.channelId) :
      Honest g (Function.update clients d client)

section Steps

variable {g : Group D C P S} {clients : D → Client maxChannels maxNodes slabSize C P S} {logs : D → List (Entry P)}
  {d : D} {client : Client maxChannels maxNodes slabSize C P S} {io : MemIo slabSize}

/-- The owner's first message names its key. -/
theorem Logs.initChat {nameStr : Str} (h : Logs g clients logs)
    (hnone : (clients g.owner).channels.get g.channelId = none) (hio : io.Zeroed)
    (hcall : Client.initChat nameStr io (clients g.owner) = (.ok g.channelId,client)) :
    ∃ (e : Entry P) (m : NewChannel P), e.sender = g.node g.owner ∧ e.message.data = .newChannel m ∧
      Logs g (Function.update clients g.owner client) (Function.update logs g.owner (logs g.owner ++ [e])) := by
  have howner := h.keeps g.owner
  obtain ⟨name,serialized,start,_,_,_,hfresh,hmakes⟩ := Client.initChat_takes hio.sound hcall
  obtain ⟨ch,⟨message,envelope,haddress,hseal,htake⟩,hothers⟩ := hmakes.channels
  have hm : (Client.newChannel name (clients g.owner)).owner = g.creator := by
    rw [Client.newChannel,howner.keyPair]
    rfl
  rw [howner.keyPair] at hfresh haddress hseal htake
  have hstory : Channel.Story g.channelId g.creator (logs g.owner) start := by
    rw [howner.absent hnone]
    exact Channel.story_fresh hfresh
  have hfiled : Filed start.storage.io (logs g.owner) := by
    rw [Channel.freshChannel_storage hfresh,howner.absent hnone]
    exact hio.filed
  obtain ⟨e,hsender,hdata,hlogs⟩ := h.send (Channel.freshChannel_sound hio.sound hfresh) hstory hfiled haddress hseal
    (fun m' hm' => by cases hm'; exact ⟨hm,rfl⟩) ⟨hmakes.nodeId,hmakes.keyPair,ch,htake,hothers⟩
  exact ⟨e,_,hsender,hdata,hlogs⟩

omit [Postcard (NewChannel P)] in
/-- A client that adds the channel has accepted nothing on it. -/
theorem Logs.addChannel (h : Logs g clients logs) (hnone : (clients d).channels.get g.channelId = none)
    (hio : io.Zeroed) (hcall : Client.addChannel g.creator g.channelId io (clients d) = (.ok (),client)) :
    Logs g (Function.update clients d client) logs := by
  have hd := h.keeps d
  rcases Client.addChannel_makes hcall with ⟨_,hmakes⟩ | ⟨hno,_⟩
  swap
  · exact absurd rfl hno
  have hkeeps : g.Keeps d client (logs d) := by
    refine hd.makes hmakes (fun ch hfresh => ?_) hd.proper
    rw [hd.absent hnone,Channel.freshChannel_storage hfresh]
    exact ⟨Channel.freshChannel_sound hio.sound hfresh,Channel.story_fresh hfresh,hio.filed⟩
  have hnext := h.replace hkeeps (by rw [Function.update_eq_self]; exact h.coherent)
  rwa [Function.update_eq_self] at hnext

omit [Postcard (NewChannel P)] in
/-- The frames of a buffer are of entries that clients have accepted. -/
theorem Logs.receiveBuffer {buffer : Bytes} {count : Nat} (h : Logs g clients logs) (hmax : buffer.length ≤ isizeMax)
    (hdelivers : Delivers clients g.channelId buffer count)
    (hcall : Client.receiveBuffer g.channelId buffer count (clients d) = (.ok (),client)) :
    ∃ more : List (Entry P), (∀ e ∈ more, ∃ d', e ∈ logs d') ∧
      Logs g (Function.update clients d client) (Function.update logs d (logs d ++ more)) := by
  obtain ⟨ds,rfl,hframes,hheld⟩ := hdelivers
  have hentries : ∀ b ∈ ds, ∃ d', ∃ e ∈ logs d', e.bytes = b := by
    intro b hb
    obtain ⟨d',ch,held,hget,hrecords,hmem⟩ := hheld b hb
    rw [((h.keeps d').filed ch hget).records] at hrecords
    cases hrecords
    exact ⟨d',List.mem_map.mp hmem⟩
  have hshort : ∀ b ∈ ds, b.length < 2^32 := by
    intro b hb
    obtain ⟨d',e,he,rfl⟩ := hentries b hb
    have hlen := ((h.keeps d').proper e he).short
    rw [scratch,List.length_replicate] at hlen
    omega
  have hbuffer : getRange buffer 0 (0+(sendFrames ds).length) = some (sendFrames ds) := by
    rw [getRange_some_of_le (by omega) (by have hle := hframes.length_le; omega),List.drop_zero,Nat.zero_add,
      Nat.sub_zero,←List.prefix_iff_eq_take.mp hframes]
  have hall : Client.receiveBuffer g.channelId buffer ds.length (clients d) =
      Client.receiveAll g.channelId ds (clients d) := Client.receiveFrames_all hbuffer hmax hshort (clients d)
  rw [hall] at hcall
  exact h.receiveAll hentries hcall

/-- A call that leaves the channel as it is. -/
theorem Logs.elsewhere {call : ClientCall slabSize P} (h : Logs g clients logs) (hsound : call.Sound)
    (hcall : call.run (clients d) = (.ok (),client))
    (hsame : client.channels.get g.channelId = (clients d).channels.get g.channelId) :
    Logs g (Function.update clients d client) logs := by
  have hd := h.keeps d
  have hs : client.Every Channel.Sound := by
    have hkept := Client.run_keeps hsound (clients d) hd.sound
    rwa [hcall] at hkept
  have hkeys : client.nodeId = (clients d).nodeId ∧ client.keyPair = (clients d).keyPair := by
    rcases ClientCall.run_cases hsound hd.sound hcall with hmoved | ⟨_,id,hmakes⟩
    · exact ⟨hmoved.nodeId,hmoved.keyPair⟩
    · exact ⟨hmakes.nodeId,hmakes.keyPair⟩
  have hkeeps : g.Keeps d client (logs d) := by
    refine ⟨hkeys.2.trans hd.keyPair,hkeys.1.trans hd.nodeId,hs,?_,?_,?_,hd.proper⟩
    all_goals
      rw [hsame]
    · exact hd.absent
    · exact hd.story
    · exact hd.filed
  have hnext := h.replace hkeeps (by rw [Function.update_eq_self]; exact h.coherent)
  rwa [Function.update_eq_self] at hnext

end Steps

omit [DecidableEq D] [Postcard (NewChannel P)] in
theorem Logs.new {g : Group D C P S} (cryptos : D → C) : Logs g (fun d => Client.new (g.keys d) (cryptos d)
    FnvIndexMap.empty : D → Client maxChannels maxNodes slabSize C P S) (fun _ => []) :=
  ⟨fun d => ⟨rfl,rfl,fun id ch hid => (by cases hid),fun _ => rfl,fun ch hid => (by cases hid),
    fun ch hid => (by cases hid),by simp⟩,Coherent.nil⟩

/-- The clients of a group have stored what they have accepted, and of each sender all have a first part of one
chain. -/
theorem Honest.logs {g : Group D C P S} {clients : D → Client maxChannels maxNodes slabSize C P S}
    (h : Honest g clients) : ∃ logs, Logs g clients logs := by
  induction h with
  | new cryptos => exact ⟨_,Logs.new cryptos⟩
  | initChat clients client nameStr io _ hnone hio hcall ih =>
    obtain ⟨logs,hlogs⟩ := ih
    obtain ⟨_,_,_,_,hnext⟩ := hlogs.initChat hnone hio hcall
    exact ⟨_,hnext⟩
  | addChannel clients d client io _ hjoins hnone hio hcall ih =>
    obtain ⟨logs,hlogs⟩ := ih
    exact ⟨_,hlogs.addChannel hnone hio hcall⟩
  | sendMessage clients d client msg _ hcall ih =>
    obtain ⟨logs,hlogs⟩ := ih
    obtain ⟨text,_,hlift,hsend⟩ := Call.bind_eq_ok.mp hcall
    obtain ⟨_,rfl⟩ := Call.lift_eq_ok.mp hlift
    obtain ⟨_,_,_,hnext⟩ := hlogs.doSend (fun m hm => by cases hm) hsend
    exact ⟨_,hnext⟩
  | addNode clients d client pubKey name _ hcall ih =>
    obtain ⟨logs,hlogs⟩ := ih
    obtain ⟨text,_,hlift,hsend⟩ := Call.bind_eq_ok.mp hcall
    obtain ⟨_,rfl⟩ := Call.lift_eq_ok.mp hlift
    obtain ⟨_,_,_,hnext⟩ := hlogs.doSend (fun m hm => by cases hm) hsend
    exact ⟨_,hnext⟩
  | receiveBuffer clients d client buffer count _ hmax hdelivers hcall ih =>
    obtain ⟨logs,hlogs⟩ := ih
    obtain ⟨_,_,hnext⟩ := hlogs.receiveBuffer hmax hdelivers hcall
    exact ⟨_,hnext⟩
  | elsewhere clients d client call _ hsound hcall hsame ih =>
    obtain ⟨logs,hlogs⟩ := ih
    exact ⟨_,hlogs.elsewhere hsound hcall hsame⟩

end Honest

end Finder
