import Finder.Client.Authorship

namespace Finder

variable {maxChannels maxNodes slabSize : Nat} {C P S : Type}

namespace Channel

variable [IdealCrypto C P S] [Postcard (Message (Protocol P))] [EnvelopeCodec P]
  {st st' : ChannelState maxNodes P} {ch ch' : Channel maxNodes slabSize C P} {channelId : ChannelId}
  {crypto : C} {envelope : ChatEnvelope P} {bytes : Bytes}

variable (C) in
/-- The bytes carry a message that the table is past. -/
def Delivered (st : ChannelState maxNodes P) (bytes : Bytes) : Prop :=
  ∃ sender message id, (∀ crypto : C, Carries crypto st bytes sender message id) ∧
    ∃ r, st.record sender = some r ∧ message.sequence ≤ r.sequence

theorem Delivered.grown (h : Delivered C st bytes) (hgrown : st.Grown st') (hs : st.Sorted) (hs' : st'.Sorted) :
    Delivered C st' bytes := by
  obtain ⟨sender,message,id,hcarries,r,hr,hle⟩ := h
  obtain ⟨r',hr',_,hsequence⟩ := hgrown sender r hr
  exact ⟨sender,message,id,fun crypto => (hcarries crypto).grown hgrown hs hs',r',hr',hle.trans hsequence⟩

/-- All the bytes open under the table, and no two of them carry one sequence of one sender. -/
structure OnceEach (crypto : C) (st : ChannelState maxNodes P) (ds : List Bytes) : Prop where
  opened : (ds.filterMap (entryOf crypto st)).map Entry.bytes = ds
  distinct : ((ds.filterMap (entryOf crypto st)).map (fun e => (e.sender,e.message.sequence))).Nodup

theorem Attested.onceEach {log : List (Entry P)} (h : Attested C st log) (crypto : C) :
    OnceEach crypto st (log.map Entry.bytes) := by
  have hentries := h.entries crypto
  exact ⟨congrArg (List.map Entry.bytes) hentries,hentries.symm ▸ h.distinct⟩

variable [Target]

/-- What has been delivered is passed over. -/
theorem Delivered.passed_over [RecordCodec] (h : Delivered C ch.state bytes) (hs : ch.Sound)
    (hdecode : decodeAs (ChatEnvelope P) bytes = .ok envelope) :
    doReceive crypto channelId envelope bytes ch = (.err (.channelError .alreadyReceived),ch) := by
  obtain ⟨sender,message,id,hcarries,hpast⟩ := h
  obtain ⟨envelope',key,hdecode',rfl,hkey,hopen,rfl⟩ := hcarries crypto
  rw [hdecode] at hdecode'
  cases hdecode'
  rw [doReceive_eq_take hkey hopen]
  exact take_of_alreadyReceived (hs.valid.sorted.checkReceive_alreadyReceived.mpr hpast)

/-- A frame that is received, or passed over, is delivered from then on. -/
theorem delivered_of_doReceive [RecordCodec] {outcome : Outcome ClientError Unit} (hs : ch.Sound)
    (hdecode : decodeAs (ChatEnvelope P) bytes = .ok envelope)
    (h : doReceive crypto channelId envelope bytes ch = (outcome,ch'))
    (houtcome : outcome = .ok () ∨ outcome = .err (.channelError .alreadyReceived)) :
    Delivered C ch'.state bytes := by
  rcases doReceive_cases h with ⟨key,message,hkey,hopen,htake⟩ | ⟨⟨hok,hold⟩,_⟩
  · replace h := htake
    have hcarries : Carries crypto ch.state bytes envelope.sender message (Crypto.envelopeId crypto envelope) :=
      ⟨envelope,key,hdecode,rfl,hkey,hopen,rfl⟩
    rcases houtcome with rfl | rfl
    · have hgrown := take_grows hs h
      have hs' : ch'.Sound := by
        have hkept : (take channelId envelope.sender message (Crypto.envelopeId crypto envelope) bytes ch).2.Sound :=
          take_keeps ch hs
        rwa [h] at hkept
      have hseq := (take_ok hs h).accepted.attests.2.2
      obtain ⟨r,hr,_⟩ := hs.valid.sorted.getNodeKey_eq_ok.mp hkey
      obtain ⟨r',hr',_⟩ := hgrown _ r hr
      refine ⟨envelope.sender,message,Crypto.envelopeId crypto envelope,
        fun crypto' => (hcarries.congr_crypto crypto').grown hgrown hs.valid.sorted hs'.valid.sorted,r',hr',?_⟩
      rw [ChannelState.sequenceOf_eq hr'] at hseq
      exact le_of_eq (Fin.ext hseq.symm)
    · have hcheck := alreadyReceived_of_take hs h
      obtain rfl := take_alreadyReceived hs h
      exact ⟨envelope.sender,message,Crypto.envelopeId crypto envelope,fun crypto' => hcarries.congr_crypto crypto',
        hs.valid.sorted.checkReceive_alreadyReceived.mp hcheck⟩
  · exact absurd houtcome (not_or.mpr ⟨hok,hold⟩)

end Channel

namespace Client

variable [Target] [IdealCrypto C P S] [RecordCodec] [Postcard (Message (Protocol P))] [EnvelopeCodec P]
  {client mid client' : Client maxChannels maxNodes slabSize C P S} {channelId : ChannelId} {bytes buffer : Bytes}

theorem delivered_of_doReceive {outcome : Outcome ClientError Unit} (hs : Every Channel.Sound client)
    (h : doReceive channelId bytes client = (outcome,client'))
    (houtcome : outcome = .ok () ∨ outcome = .err (.channelError .alreadyReceived)) :
    ∃ ch', client'.channels.get channelId = some ch' ∧ Channel.Delivered C ch'.state bytes := by
  rcases doReceive_cases h with ⟨e,hnew,rfl,_⟩ | ⟨envelope,ch,ch',hdecode,hget,hrun,rfl⟩
  · rcases houtcome with hok | hold
    · cases hok
    · cases hold
      exact absurd rfl hnew
  · refine ⟨ch',?_,Channel.delivered_of_doReceive (hs channelId ch hget) hdecode hrun houtcome⟩
    exact (channels_set hget ch' channelId).trans (if_pos rfl)

/-- Delivered bytes leave the client as it is. -/
theorem doReceive_of_delivered {ch : Channel maxNodes slabSize C P} (hs : Every Channel.Sound client)
    (hget : client.channels.get channelId = some ch) (h : Channel.Delivered C ch.state bytes) :
    doReceive channelId bytes client = (.err (.channelError .alreadyReceived),client) := by
  obtain ⟨envelope,_,hdecode,_⟩ := h.choose_spec.choose_spec.choose_spec.1 client.crypto
  rw [doReceive_decoded hdecode,onChannel_some hget,h.passed_over (hs channelId ch hget) hdecode,
    FnvIndexMap.set_self hget]

theorem delivered_moved {ch : Channel maxNodes slabSize C P} (hs : Every Channel.Sound client)
    (hget : client.channels.get channelId = some ch) (h : Channel.Delivered C ch.state bytes)
    (hmoved : Moved True client client') :
    ∃ ch', client'.channels.get channelId = some ch' ∧ Channel.Delivered C ch'.state bytes := by
  obtain ⟨ch',hget',hs',hgrown⟩ := hmoved.grown hs hget
  exact ⟨ch',hget',h.grown hgrown (hs channelId ch hget).valid.sorted hs'.valid.sorted⟩

/-- Frames that have been received once are passed over, wherever the client has moved since. -/
theorem receiveFrames_again {count offset : Nat} (hs : Every Channel.Sound client)
    (h : receiveFrames channelId buffer count offset client = (.ok (),mid)) (hmoved : Moved True mid client') :
    receiveFrames channelId buffer count offset client' = (.ok (),client') := by
  induction count generalizing offset client with
  | zero => rfl
  | succ count ih =>
    rw [receiveFrames] at h
    obtain ⟨⟨len,start⟩,_,hread,h1⟩ := Call.bind_eq_ok.mp h
    obtain ⟨hlen,rfl⟩ := Call.lift_eq_ok.mp hread
    obtain ⟨stop,_,hadd,h2⟩ := Call.bind_eq_ok.mp h1
    obtain ⟨hstop,rfl⟩ := Call.lift_eq_ok.mp hadd
    obtain ⟨frame,_,hslice,h3⟩ := Call.bind_eq_ok.mp h2
    obtain ⟨hframe,rfl⟩ := Call.lift_eq_ok.mp hslice
    have hagain : ∀ first outcome, doReceive channelId frame client = (outcome,first) →
        (outcome = .ok () ∨ outcome = .err (.channelError .alreadyReceived)) →
        receiveFrames channelId buffer count stop first = (.ok (),mid) →
        receiveFrames channelId buffer (count+1) offset client' = (.ok (),client') := by
      intro first outcome hrun houtcome hrest
      have hfirst := (doReceive_moved hrun).mono (fun _ => trivial)
      have hsfirst := hfirst.sound hs
      have hlater := ((receiveFrames_moved hsfirst hrest).mono (fun _ => trivial)).trans hmoved
      obtain ⟨ch,hget,hdelivered⟩ := delivered_of_doReceive hs hrun houtcome
      obtain ⟨ch',hget',hdelivered'⟩ := delivered_moved hsfirst hget hdelivered hlater
      rw [receiveFrames_next (Outcome.mapErr_eq_ok.mp hlen) hstop (Outcome.okOr_eq_ok.mp hframe)]
      simp only [doReceive_of_delivered (hlater.sound hsfirst) hget' hdelivered']
      exact ih hsfirst hrest
    split at h3
    · rename_i first hrun
      exact hagain first _ hrun (Or.inl rfl) h3
    · rename_i first hrun
      exact hagain first _ hrun (Or.inr rfl) h3
    · cases h3
    · cases h3

variable [Postcard (NewChannel P)]

/-- Receiving a buffer again changes nothing, whatever the client has sent and received since, and no
sequence of a sender is stored twice. -/
theorem Reachable.redelivery_noop [PrefixCodec] (h : Reachable client) {count : Nat}
    (hfirst : receiveBuffer channelId buffer count client = (.ok (),mid)) (hrun : Continues mid client') :
    receiveBuffer channelId buffer count client' = (.ok (),client') ∧
    (Paired C client.keyPair → ∀ id ch, client'.channels.get id = some ch →
      AllStored client ch (Channel.OnceEach client'.crypto ch.state)) := by
  have hmoved := (receiveFrames_moved h.sound hfirst).mono (fun _ => trivial)
  have hlater := hrun.moved (hmoved.sound h.sound)
  exact ⟨receiveFrames_again h.sound hfirst hlater,fun hpaired id ch hget =>
    .of_attested hpaired (hmoved.trans hlater) hget (fun _ hattested => hattested.onceEach client'.crypto)⟩

end Client

section Owner

open PlainCrypto

/-- The owner gets the same frame before and after a message of its own, and then has four records. -/
theorem redelivery_noop_ownerOfTwo : ∃ mid client' : Client 2 2 256 PlainCrypto U64 U64,
    Client.receiveBuffer (chatId 1) (framed usurping) 1 ownerOfTwo = (.ok (),mid) ∧
    client' = (ClientCall.run (.sendMessage (chatId 1) textStr) mid).2 ∧
    Client.receiveBuffer (chatId 1) (framed usurping) 1 client' = (.ok (),client') ∧
    ∃ ch ds, client'.channels.get (chatId 1) = some ch ∧ ch.storage.records = .ok ds ∧ ds.length = 4 ∧
      Channel.OnceEach client'.crypto ch.state ds := by
  have hreachable : Client.Reachable ownerOfTwo := .call _ _ owner_reachable trivial
  have htended : Client.Tended MemIo.Zeroed MemIo.Laid ownerOfTwo :=
    .call owner (.addNode (chatId 1) 2 Str.empty) (owner_tended ownIo_zeroed) trivial
  have hpaired : Paired PlainCrypto ownerOfTwo.keyPair := by
    have hsame : ownerOfTwo.keyPair.priv = ownerOfTwo.keyPair.pub := by decide +kernel
    exact hsame
  obtain ⟨mid,hmid⟩ : ∃ mid, mid = (Client.receiveBuffer (chatId 1) (framed usurping) 1 ownerOfTwo).2 := ⟨_,rfl⟩
  obtain ⟨client',hclient'⟩ : ∃ client', client' = (ClientCall.run (.sendMessage (chatId 1) textStr) mid).2 :=
    ⟨_,rfl⟩
  have hrun : (Client.receiveBuffer (chatId 1) (framed usurping) 1 ownerOfTwo).1 = .ok () ∧
      (client'.channels.get (chatId 1)).map (fun ch => ch.storage.records.value.map List.length) =
        some (some 4) := by
    rw [hclient',hmid]
    decide +kernel
  have hfirst := run_eq hrun.1 hmid
  obtain ⟨ch,hch,hvalue⟩ := Option.map_eq_some_iff.mp hrun.2
  obtain ⟨ds,hds,hlen⟩ := Option.map_eq_some_iff.mp hvalue
  have hrecords := Outcome.value_eq_some.mp hds
  have hcontinues : Client.Continues mid client' := by
    rw [hclient']
    exact .call mid (.sendMessage (chatId 1) textStr) .refl trivial
  obtain ⟨hagain,honce⟩ := hreachable.redelivery_noop hfirst hcontinues
  exact ⟨mid,client',hfirst,hclient',hagain,ch,ds,hch,hrecords,hlen,
    (honce hpaired (chatId 1) ch hch).read htended ds hrecords⟩

end Owner

end Finder
