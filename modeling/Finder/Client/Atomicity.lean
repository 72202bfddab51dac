import Finder.Client.Reachable
import Finder.Protocol.Plain

namespace Finder

section

variable [Target] {maxChannels maxNodes slabSize : Nat} {C P S : Type}

/-- Nothing a channel can be asked for has changed. -/
structure Channel.Unchanged [Postcard Record] (ch ch' : Channel maxNodes slabSize C P) : Prop where
  state : ch'.state = ch.state
  chat : ch'.chat = ch.chat
  records : ch'.storage.records = ch.storage.records

theorem Channel.Unchanged.refl [Postcard Record] (ch : Channel maxNodes slabSize C P) : ch.Unchanged ch :=
  ⟨rfl,rfl,rfl⟩

namespace Client

/-- If the call fails, the channel is as it was. -/
def Atomic [Postcard Record] (x : Call (Client maxChannels maxNodes slabSize C P S) ClientError Unit)
    (channelId : ChannelId) (client : Client maxChannels maxNodes slabSize C P S) : Prop :=
  ∀ e client' ch, x client = (.err e,client') → client.channels.get channelId = some ch →
    ∃ ch', client'.channels.get channelId = some ch' ∧ ch.Unchanged ch'

variable {client : Client maxChannels maxNodes slabSize C P S} {channelId : ChannelId}

theorem atomic_of_unknown [Postcard Record] {x : Call (Client maxChannels maxNodes slabSize C P S) ClientError Unit}
    (h : client.channels.get channelId = none) : Atomic x channelId client := by
  intro e client' ch _ hget
  rw [h] at hget
  cases hget

theorem atomic_congr [Postcard Record] {x y : Call (Client maxChannels maxNodes slabSize C P S) ClientError Unit}
    (h : x client = y client) : Atomic x channelId client ↔ Atomic y channelId client := by
  simp only [Atomic,h]

theorem onChannel_atomic_iff [Postcard Record] {ch : Channel maxNodes slabSize C P}
    {x : Call (Channel maxNodes slabSize C P) ClientError Unit} (h : client.channels.get channelId = some ch) :
    Atomic (onChannel channelId x) channelId client ↔
      ∀ e ch', x ch = (.err e,ch') → ch.Unchanged ch' := by
  have hafter := onChannel_get (x := x) h channelId
  rw [if_pos rfl] at hafter
  constructor
  · intro hatomic e ch' hx
    obtain ⟨ch'',hget,hsame⟩ := hatomic e (onChannel channelId x client).2 ch (by simp [onChannel_some h,hx]) h
    rw [hafter,hx] at hget
    cases hget
    exact hsame
  · intro hsame e client' ch' hx hget
    obtain rfl : ch = ch' := Option.some.inj (h.symm.trans hget)
    refine ⟨(x ch).2,?_,hsame e (x ch).2 (Prod.ext ?_ rfl)⟩
    · rw [←hafter,hx]
    · rw [onChannel_some h] at hx
      exact (Prod.mk.inj hx).1

variable [Crypto C P S] [RecordCodec] [Postcard (Message (Protocol P))] [EnvelopeCodec P]

/-- The data makes an envelope whose message is taken in before the call fails. -/
def SendsLate (client : Client maxChannels maxNodes slabSize C P S) (channelId : ChannelId) (data : Protocol P) :
    Prop :=
  ∃ ch message, ∃ envelope : ChatEnvelope P, client.channels.get channelId = some ch ∧
    ch.state.address client.nodeId data = .ok message ∧
    Crypto.sealEnvelope client.crypto client.nodeId (.channel channelId) client.keyPair message scratch.length =
      .ok envelope ∧
    ch.FailsLate channelId client.nodeId message (toBytes envelope)

/-- The bytes are an envelope whose message is taken in before the call fails. -/
def ReceivesLate (client : Client maxChannels maxNodes slabSize C P S) (channelId : ChannelId) (bytes : Bytes) :
    Prop :=
  ∃ ch key message, ∃ envelope : ChatEnvelope P, client.channels.get channelId = some ch ∧
    decodeAs (ChatEnvelope P) bytes = .ok envelope ∧ ch.state.getNodeKey envelope.sender = .ok key ∧
    Crypto.openEnvelope client.crypto key envelope = .ok message ∧
    ch.FailsLate channelId envelope.sender message bytes

omit [Postcard (Message (Protocol P))] [EnvelopeCodec P] in
/-- Taking a message in is atomic unless it fails late. -/
theorem take_atomic_iff {ch : Channel maxNodes slabSize C P} (hs : ch.Sound) {sender : NodeId}
    {message : Message (Protocol P)} {id : EnvelopeId} {bytes : Bytes} :
    (∀ e ch', Channel.take channelId sender message id bytes ch = (.err e,ch') → ch.Unchanged ch') ↔
      ¬ch.FailsLate channelId sender message bytes := by
  constructor
  · intro hsame hlate
    obtain ⟨e,ch',he,_,hne⟩ := Channel.take_refused hs hlate id
    exact hne (by rw [(hsame e ch' he).state])
  · intro hlate e ch' he
    rw [Channel.take_atomic hs hlate he]
    exact .refl ch

theorem doSend_atomic_iff (h : Every Channel.Sound client) {data : Protocol P} :
    Atomic (doSend channelId data) channelId client ↔ ¬SendsLate client channelId data := by
  cases hget : client.channels.get channelId with
  | none =>
    refine iff_of_true (atomic_of_unknown hget) ?_
    rintro ⟨ch,_,_,hsome,_⟩
    rw [hget] at hsome
    cases hsome
  | some ch =>
    rw [atomic_congr (show doSend channelId data client = onChannel channelId (Channel.doSend client.crypto
      client.nodeId client.keyPair channelId data) client from rfl),onChannel_atomic_iff hget]
    by_cases hsealed : ∃ message, ch.state.address client.nodeId data = .ok message ∧
        ∃ envelope : ChatEnvelope P, Crypto.sealEnvelope client.crypto client.nodeId (.channel channelId)
          client.keyPair message scratch.length = .ok envelope
    · obtain ⟨message,haddress,envelope,hseal⟩ := hsealed
      rw [Channel.doSend_eq_take haddress hseal,take_atomic_iff (h channelId ch hget)]
      refine not_congr ⟨fun hlate => ⟨ch,message,envelope,hget,haddress,hseal,hlate⟩,?_⟩
      rintro ⟨ch',message',envelope',hget',haddress',hseal',hlate⟩
      obtain rfl : ch = ch' := Option.some.inj (hget.symm.trans hget')
      obtain rfl : message = message' := Outcome.ok.inj (haddress.symm.trans haddress')
      obtain rfl : envelope = envelope' := Outcome.ok.inj (hseal.symm.trans hseal')
      exact hlate
    · refine iff_of_true (fun e ch' he => ?_) ?_
      · obtain ⟨_,_,hsame⟩ := Channel.doSend_unsealed hsealed
        rw [he] at hsame
        cases hsame
        exact .refl ch
      · rintro ⟨ch',message,envelope,hget',haddress,hseal,_⟩
        obtain rfl : ch = ch' := Option.some.inj (hget.symm.trans hget')
        exact hsealed ⟨message,haddress,envelope,hseal⟩

theorem doReceive_atomic_iff (h : Every Channel.Sound client) {bytes : Bytes} :
    Atomic (doReceive channelId bytes) channelId client ↔ ¬ReceivesLate client channelId bytes := by
  cases hget : client.channels.get channelId with
  | none =>
    refine iff_of_true (atomic_of_unknown hget) ?_
    rintro ⟨ch,_,_,_,hsome,_⟩
    rw [hget] at hsome
    cases hsome
  | some ch =>
    cases hdecode : (decodeAs (ChatEnvelope P) bytes) with
    | ok envelope =>
      have hcall : doReceive channelId bytes client =
          onChannel channelId (Channel.doReceive client.crypto channelId envelope bytes) client :=
        Call.bind_ok (by rw [Call.lift_apply,hdecode])
      rw [atomic_congr hcall,onChannel_atomic_iff hget]
      by_cases hopened : ∃ key, ch.state.getNodeKey envelope.sender = .ok key ∧
          ∃ message, Crypto.openEnvelope client.crypto key envelope = .ok message
      · obtain ⟨key,hkey,message,hopen⟩ := hopened
        rw [Channel.doReceive_eq_take hkey hopen,take_atomic_iff (h channelId ch hget)]
        refine not_congr ⟨fun hlate => ⟨ch,key,message,envelope,hget,hdecode,hkey,hopen,hlate⟩,?_⟩
        rintro ⟨ch',key',message',envelope',hget',hdecode',hkey',hopen',hlate⟩
        obtain rfl : ch = ch' := Option.some.inj (hget.symm.trans hget')
        obtain rfl : envelope = envelope' := Outcome.ok.inj (hdecode.symm.trans hdecode')
        obtain rfl : key = key' := Outcome.ok.inj (hkey.symm.trans hkey')
        obtain rfl : message = message' := Outcome.ok.inj (hopen.symm.trans hopen')
        exact hlate
      · refine iff_of_true (fun e ch' he => ?_) ?_
        · obtain ⟨_,_,hsame⟩ := Channel.doReceive_unopened hopened
          rw [he] at hsame
          cases hsame
          exact .refl ch
        · rintro ⟨ch',key,message,envelope',hget',hdecode',hkey,hopen,_⟩
          obtain rfl : ch = ch' := Option.some.inj (hget.symm.trans hget')
          obtain rfl : envelope = envelope' := Outcome.ok.inj (hdecode.symm.trans hdecode')
          exact hopened ⟨key,hkey,message,hopen⟩
    | err e =>
      refine iff_of_true (fun e' client' ch' he hget' => ?_) ?_
      · have hcall : doReceive channelId bytes client = (.err e,client) :=
          Call.bind_err (by rw [Call.lift_apply,hdecode])
        rw [hcall] at he
        cases he
        exact ⟨ch',hget',.refl ch'⟩
      · rintro ⟨_,_,_,_,_,hdecode',_⟩
        rw [hdecode] at hdecode'
        cases hdecode'
    | panic =>
      refine iff_of_true (fun e' client' ch' he hget' => ?_) ?_
      · have hcall : doReceive channelId bytes client = (.panic,client) :=
          Call.bind_panic (by rw [Call.lift_apply,hdecode])
        rw [hcall] at he
        cases he
      · rintro ⟨_,_,_,_,_,hdecode',_⟩
        rw [hdecode] at hdecode'
        cases hdecode'

/-- A call that would have to fail late does not succeed. -/
theorem SendsLate.fails (h : Every Channel.Sound client) {data : Protocol P} (hlate : SendsLate client channelId data) :
    (doSend channelId data client).1 ≠ .ok () := by
  obtain ⟨ch,message,envelope,hget,haddress,hseal,hfails⟩ := hlate
  obtain ⟨e,ch',he,_⟩ := Channel.take_refused (h channelId ch hget) hfails (Crypto.envelopeId client.crypto envelope)
  have hcall : doSend channelId data client = onChannel channelId (Channel.doSend client.crypto client.nodeId
    client.keyPair channelId data) client := rfl
  rw [hcall,onChannel_some hget,Channel.doSend_eq_take haddress hseal,he]
  exact fun hok => nomatch hok

theorem ReceivesLate.fails (h : Every Channel.Sound client) {bytes : Bytes}
    (hlate : ReceivesLate client channelId bytes) : (doReceive channelId bytes client).1 ≠ .ok () := by
  obtain ⟨ch,key,message,envelope,hget,hdecode,hkey,hopen,hfails⟩ := hlate
  obtain ⟨e,ch',he,_⟩ := Channel.take_refused (h channelId ch hget) hfails (Crypto.envelopeId client.crypto envelope)
  have hcall : doReceive channelId bytes client = onChannel channelId (Channel.doReceive client.crypto channelId
    envelope bytes) client := Call.bind_ok (by rw [Call.lift_apply,hdecode])
  rw [hcall,onChannel_some hget,Channel.doReceive_eq_take hkey hopen,he]
  exact fun hok => nomatch hok

variable [Postcard (NewChannel P)]

/-- A failed call leaves the channel as it was exactly if it does not fail on the table entry of a new
user or on the size of the record, behind the checks. -/
theorem calls_atomic_iff (h : Reachable client) :
    (∀ data, Atomic (doSend channelId data) channelId client ↔ ¬SendsLate client channelId data) ∧
    ∀ bytes, Atomic (doReceive channelId bytes) channelId client ↔ ¬ReceivesLate client channelId bytes :=
  ⟨fun _ => doSend_atomic_iff h.sound,fun _ => doReceive_atomic_iff h.sound⟩

end Client

end

section Owner

open PlainCrypto

theorem blankIo_sound {slabSize slabs : Nat} (h : slabs*slabSize ≤ isizeMax) :
    (blankIo slabSize slabs).Sound :=
  ⟨rfl,by simp [blankIo],by simpa [blankIo] using h⟩

/-- A client that has just opened a chat of its own. -/
def owner : Client 2 2 256 PlainCrypto U64 U64 :=
  (ClientCall.run (.initChat chatStr (blankIo 256 4)) (client 1)).2

theorem owner_reachable : Client.Reachable owner := by
  have hsmall : 4*256 ≤ isizeMax := by decide +kernel
  exact .call _ _ (.new _ _) (blankIo_sound hsmall)

/-- The owner adds its own key: the call fails on the table entry, one sequence too late. -/
theorem addUser_not_atomic : ∃ client : Client 2 2 256 PlainCrypto U64 U64, Client.Reachable client ∧
    (Client.doSend (chatId 1) (.addUser ⟨HString.new,1⟩) client).1 = .err (.channelError .nodeExists) ∧
    ¬Client.Atomic (Client.doSend (chatId 1) (.addUser ⟨HString.new,1⟩)) (chatId 1) client := by
  obtain ⟨p,hp⟩ : ∃ p, p = Client.doSend (chatId 1) (.addUser ⟨HString.new,1⟩) owner := ⟨_,rfl⟩
  have herr : (Client.doSend (chatId 1) (.addUser ⟨HString.new,1⟩) owner).1 =
      .err (.channelError .nodeExists) := by decide +kernel
  have hbefore : (owner.channels.get (chatId 1)).map (fun ch => ch.state.sequenceOf (nodeOf 1)) =
      some 1 := by decide +kernel
  have hafter : ((Client.doSend (chatId 1) (.addUser ⟨HString.new,1⟩) owner).2.channels.get (chatId 1)).map
      (fun ch => ch.state.sequenceOf (nodeOf 1)) = some 2 := by decide +kernel
  refine ⟨owner,owner_reachable,herr,fun hatomic => ?_⟩
  rw [←hp] at herr hafter
  obtain ⟨result,client'⟩ := p
  obtain ⟨ch,hch,hseq⟩ := Option.map_eq_some_iff.mp hbefore
  obtain ⟨ch',hch',hsame⟩ := hatomic _ client' ch (hp.symm.trans (Prod.ext herr rfl)) hch
  rw [hch',Option.map_some,hsame.state,hseq] at hafter
  cases hafter

/-- A message of the owner that adds a second node, as another device of it would send it. -/
def adding : Bytes := sealedBy 1 (chatId 1) ⟨nodeOf 1,1,2,.addUser ⟨HString.new,2⟩⟩

/-- A user that is new to the table, sent or received: the message passes all checks, and there is no late failure. -/
theorem calls_atomic_owner : (Client.doSend (chatId 1) (.addUser ⟨HString.new,2⟩) owner).1 = .ok () ∧
    Client.Atomic (Client.doSend (chatId 1) (.addUser ⟨HString.new,2⟩)) (chatId 1) owner ∧
    (Client.doReceive (chatId 1) adding owner).1 = .ok () ∧
    Client.Atomic (Client.doReceive (chatId 1) adding) (chatId 1) owner := by
  have hsends : (Client.doSend (chatId 1) (.addUser ⟨HString.new,2⟩) owner).1 = .ok () := by decide +kernel
  have hreceives : (Client.doReceive (chatId 1) adding owner).1 = .ok () := by decide +kernel
  exact ⟨hsends,((Client.calls_atomic_iff owner_reachable).1 _).mpr (fun hlate => hlate.fails owner_reachable.sound hsends),
    hreceives,((Client.calls_atomic_iff owner_reachable).2 _).mpr
      (fun hlate => hlate.fails owner_reachable.sound hreceives)⟩

end Owner

end Finder
