import Finder.Client.Filing
import Finder.Client.Members
import Finder.Client.Addressing
import Finder.Storage.Singles

namespace Finder

variable {maxChannels maxNodes slabSize : Nat} {C P S : Type}

section Log

variable {log : List (Entry P)}

/-- Every chat message of a log has its place, behind those before it. -/
theorem chats_split {i : Nat} {m : ChatMessage} (h : (chats log)[i]? = some m) :
    ∃ pre e post, log = pre ++ e::post ∧ e.message.data = .chatMessage m ∧ (chats pre).length = i := by
  induction log generalizing i with
  | nil => simp [chats] at h
  | cons e log ih =>
    rw [show e::log = [e] ++ log from rfl,chats_append] at h
    by_cases hi : i < (chats [e]).length
    · cases hdata : e.message.data with
      | newChannel m' => simp [chats,hdata,Protocol.chat] at hi
      | addUser m' => simp [chats,hdata,Protocol.chat] at hi
      | chatMessage m' =>
        have hzero : i = 0 := by simpa [chats,hdata,Protocol.chat] using hi
        subst hzero
        have hm : m' = m := by simpa [chats,hdata,Protocol.chat] using h
        exact ⟨[],e,log,rfl,by rw [hdata,hm],rfl⟩
    · rw [List.getElem?_append_right (by omega)] at h
      obtain ⟨pre,x,post,hlog,hx,hlen⟩ := ih h
      refine ⟨e::pre,x,post,by rw [hlog]; rfl,hx,?_⟩
      rw [show e::pre = [e] ++ pre from rfl,chats_append,List.length_append]
      omega

/-- The first record with a count is the one of its chat message. -/
theorem recordsFrom_split {pre post : List (Entry P)} {e : Entry P} {m : ChatMessage} {index : U64}
    (hlog : log = pre ++ e::post) (he : e.message.data = .chatMessage m) (hindex : (chats pre).length+1 = index.val) :
    ∃ r before after, recordsFrom 0 0 log = before ++ r::after ∧ r.data = e.bytes ∧ index ≤ r.messageCount ∧
      ∀ x ∈ before, x.messageCount < index := by
  have hlt := index.isLt
  have hpre : (chats pre).length < 2^64 := by omega
  have hcount : (countFrom 0 pre).val = (chats pre).length := by
    rw [countFrom_val (by simpa using hpre)]
    simp
  have hone : (chats [e]).length = 1 := by simp [chats,he,Protocol.chat]
  have hnext := e.count_val (countFrom 0 pre) (by rw [hone,hcount]; omega)
  refine ⟨e.record (topFrom 0 pre) (countFrom 0 pre),recordsFrom 0 0 pre,_,by rw [hlog,recordsFrom_append]; rfl,rfl,?_,
    fun x hx => ?_⟩
  · rw [Fin.le_def]
    change index.val ≤ (e.count (countFrom 0 pre)).val
    omega
  · have hle := recordsFrom_count_le (by simpa using hpre) x hx
    rw [Fin.lt_def]
    simp only [Fin.val_zero,Nat.zero_add] at hle
    omega

end Log

namespace Client

variable [Target] [IdealCrypto C P S] [RecordCodec] [Postcard (Message (Protocol P))] [EnvelopeCodec P]
  {client : Client maxChannels maxNodes slabSize C P S} {channelId : ChannelId}
  {ch : Channel maxNodes slabSize C P} {log : List (Entry P)} {creator : P}

theorem getMessage_found (hget : client.channels.get channelId = some ch)
    (hstory : Channel.Story channelId creator log ch) (hfiled : Filed ch.storage.io log) {index : U64}
    {m : ChatMessage} (hm : (chats log)[index.val-1]? = some m) (hpos : 1 ≤ index.val) :
    client.getMessage channelId index = .ok m := by
  obtain ⟨pre,e,post,hlog,he,hlen⟩ := chats_split hm
  have hnumber : (chats pre).length+1 = index.val := by omega
  obtain ⟨r,before,after,hrecords,hdata,hfound,hbefore⟩ := recordsFrom_split hlog he hnumber
  have hsplit : ((recordsFrom 0 0 log).map (fun r => [r])).flatten = before ++ r::after := by
    rw [flatten_singles,hrecords]
  obtain ⟨cursor,hscan,hreads⟩ := hfiled.holds.scan_found (fun record => decide (record.messageCount ≥ index)) hsplit
    (fun x hx => by simpa using hbefore x hx) (by simpa using hfound)
  have hread : ∃ next, ch.storage.read cursor = .ok (some (e.bytes,next)) := by
    rw [List.map_cons,hdata] at hreads
    cases hreads with
    | next _ next _ _ h _ => exact ⟨next,h⟩
  obtain ⟨next,hread⟩ := hread
  obtain ⟨envelope,key,hdecode,hsender,hkey,hopen,_⟩ := hstory.attested.carried e (by simp [hlog]) client.crypto
  rw [←hsender] at hkey
  simp [getMessage,channel,hget,Storage.getCursorFromIndex,hscan,hread,hdecode,hkey,hopen,he]

theorem getMessage_none (hget : client.channels.get channelId = some ch) (hfiled : Filed ch.storage.io log)
    {index : U64} (hcount : (chats log).length < index.val) :
    client.getMessage channelId index = .err .messageIndexOutOfBounds := by
  have hnone : ch.storage.scan (fun record => decide (record.messageCount ≥ index)) = .ok none := by
    refine hfiled.holds.scan_none hfiled.blank (fun x hx => ?_)
    rw [flatten_singles] at hx
    have hlt := index.isLt
    have hle := recordsFrom_count_le (by simpa using (show (chats log).length < 2^64 by omega)) x hx
    simp only [Fin.val_zero,Nat.zero_add] at hle
    simp only [ge_iff_le,decide_eq_false_iff_not,not_le,Fin.lt_def]
    omega
  simp [getMessage,channel,hget,Storage.getCursorFromIndex,hnone]

variable [Postcard (NewChannel P)] {creators : ChannelId → Option P} {logs : ChannelId → List (Entry P)}

/-- Where every record can be told by its length field, the numbers from one to the count are those of the chat
messages, in the order they were accepted, and there are no others. The memory can be opened again. -/
theorem OkRun.message_numbers (h : OkRun MemIo.Zeroed (MemIo.Archives C) client creators logs)
    (hget : client.channels.get channelId = some ch) (hshort : Short (logs channelId)) :
    MemIo.Archives C ch.storage.io ∧ ch.chat.messageCount.val = (chats (logs channelId)).length ∧
      ∀ index : U64,
        (1 ≤ index.val → index ≤ ch.chat.messageCount → ∃ m, (chats (logs channelId))[index.val-1]? = some m ∧
          client.getMessage channelId index = .ok m) ∧
        (ch.chat.messageCount < index → client.getMessage channelId index = .err .messageIndexOutOfBounds) := by
  have hkept := h.filed
  obtain ⟨creator,_,hstory,hfiled⟩ := hkept.channels channelId ch hget
  have hkeyed := (hkept.sound channelId ch hget).keyed
  have hchats := hstory.chats
  refine ⟨?_,hchats,fun index => ⟨fun hpos hle => ?_,fun hlt => ?_⟩⟩
  · exact ⟨logs channelId,hstory.attested.signed hkeyed client.crypto,hfiled hshort⟩
  · rw [Fin.le_def] at hle
    have hm := List.getElem?_eq_getElem (show index.val-1 < (chats (logs channelId)).length by omega)
    exact ⟨_,hm,getMessage_found hget hstory (hfiled hshort) hm hpos⟩
  · exact getMessage_none hget (hfiled hshort) (by rw [←hchats]; exact hlt)

end Client

section Giant

variable [Target] [RecordCodec] {slabSize : Nat} {st st' : Storage slabSize} {r : Record}

/-- A record of 2^32 bytes is stored, and no scan finds it. -/
theorem Holds.store_lost {sessions : List (List Record)} (h : Holds st.io sessions) (hb : st.io.Blank)
    (hlen : (toBytes r).length = 2^32) (hsize : (slabBytes [r]).length = slabSize) {found : Record → Bool}
    (hnone : ∀ x ∈ sessions.flatten, found x = false) (hst : Channel.onWriter
      (Channel.writeRecord r.maxSequence r.messageCount r.sequence r.sender r.data) st = (.ok (),st')) :
    st'.scan found = .ok none := by
  obtain ⟨hadvanced,hcount⟩ := store_advanced h.sound hst
  have hcount' := hcount rfl
  have hbound := h.bounded
  have hlt := h.length_lt
  obtain ⟨w,w',hwriting,hcommit,rfl⟩ := store_committed hst hbound
  obtain ⟨v,hv,_,_,_,hbytes⟩ := hwriting.commit_ok hbound (by simp)
  rw [hcommit] at hv
  cases hv
  have hstart := hwriting.start
  rw [h.start,h.count,Nat.zero_add] at hstart
  rw [hstart,hsize] at hbytes
  have hlength := hadvanced.length
  have hroom := (getRange_eq_some.mp hbytes).2.1
  have hpos := h.positive
  obtain ⟨slab,hslab,hone,hread⟩ := giant_slab hlen (by omega) sessions.length
  have hget : w'.io.getSlab sessions.length = .ok slab := by
    have hindex : sessions.length < w'.io.maxIndex := by
      rw [hadvanced.maxIndex,h.maxIndex]
      refine (Nat.le_div_iff_mul_le hpos).mpr ?_
      rw [Nat.succ_mul]
      omega
    rw [MemIo.getSlab_in (hadvanced.start.trans h.start) hindex hpos (by omega) hroom hbytes,hslab]
  have hlater := hb.advanced hadvanced
  have hscan : Storage.scanSlab found slab slab.count slab.getHead = .ok none := by
    rw [hone]
    simp [Storage.scanSlab,hread]
  have hend : ∀ fuel, Storage.scanSlabs found w'.io fuel sessions.length = .ok none := by
    intro fuel
    cases fuel with
    | zero => simp [Storage.scanSlabs,hget,hscan]
    | succ fuel =>
      have hnext := hlater.scanSlabs (by omega) found fuel (i := sessions.length+1)
        (by rw [hcount',h.count])
      simp [Storage.scanSlabs,hget,hscan,hnext]
  have hslabs : ∀ i rs, sessions[i]? = some rs → ∃ slab, w'.io.getSlab i = .ok slab ∧ SlabHolds slab i rs := by
    intro i rs hi
    have hlast := (List.getElem?_eq_some_iff.mp hi).1
    rw [hadvanced.getSlab h.sound (by rw [h.count]; exact hlast)]
    exact h.getSlab hi
  have hpast := scanSlabs_past (fun i rs hi => Or.inl (hslabs i rs hi)) hend List.drop_zero (Nat.zero_le _) hnone
    usizeMax (by omega)
  have hhead : w'.io.startOffset = 0 := hadvanced.start.trans h.start
  simp [Storage.scan,MemIo.getHead,hhead,hpast]

end Giant

section Frame

variable [Target] [Crypto C P S] [RecordCodec] {channelId : ChannelId} {bytes : Bytes}

omit [RecordCodec] in
/-- A buffer of one frame is taken apart into it. -/
theorem framed_parts (hlen : bytes.length < 2^32) (hroom : u32Size+bytes.length ≤ usizeMax) :
    readU32 (PlainCrypto.framed bytes) 0 = .ok (bytes.length,u32Size) ∧
      plainAdd usizeMax u32Size bytes.length = (.ok (u32Size+bytes.length) : Outcome ClientError Nat) ∧
      getRange (PlainCrypto.framed bytes) u32Size (u32Size+bytes.length) = some bytes := by
  have hhead : (beBytes u32Size bytes.length).length = u32Size := beBytes_length _ _
  have hwhole : getRange (PlainCrypto.framed bytes) 0 (u32Size+bytes.length) =
      some (beBytes u32Size bytes.length ++ bytes) := by
    refine getRange_eq_some.mpr ⟨Nat.zero_le _,?_,?_⟩
    · rw [PlainCrypto.framed,List.length_append,hhead]
    · rw [List.drop_zero,Nat.sub_zero,PlainCrypto.framed,List.take_of_length_le]
      rw [List.length_append,hhead]
  obtain ⟨hlength,hframe⟩ := getRange_split hwhole
  rw [hhead] at hlength hframe
  have hread := readU32_ok hlength (by omega) (by simp only [u32Max]; omega)
  rw [Nat.zero_add] at hread hframe
  exact ⟨hread,plainAdd_eq_ok.mpr ⟨hroom,rfl⟩,hframe⟩

variable [Postcard (Message (Protocol P))] {client client' : Client maxChannels maxNodes slabSize C P S}

/-- It is received as its bytes are. -/
theorem Client.receiveBuffer_framed [Postcard (ChatEnvelope P)] (hlen : bytes.length < 2^32)
    (hroom : u32Size+bytes.length ≤ usizeMax) (h : doReceive channelId bytes client = (.ok (),client')) :
    receiveBuffer channelId (PlainCrypto.framed bytes) 1 client = (.ok (),client') := by
  obtain ⟨hread,hstop,hframe⟩ := framed_parts hlen hroom
  rw [receiveBuffer,receiveFrames_next hread hstop hframe,h]
  rfl

/-- What its bytes carry is what the call accepts. -/
theorem accepted_framed [EnvelopeCodec P] {ch : Channel maxNodes slabSize C P} {sender : NodeId}
    {message : Message (Protocol P)} {id : EnvelopeId} (hlen : bytes.length < 2^32)
    (hroom : u32Size+bytes.length ≤ usizeMax) (hget : client.channels.get channelId = some ch)
    (hcarries : Channel.Carries client.crypto ch.state bytes sender message id)
    (h : Client.doReceive channelId bytes client = (.ok (),client')) :
    ClientCall.accepted client (.receiveBuffer channelId (PlainCrypto.framed bytes) 1 : ClientCall slabSize P)
      channelId = [⟨sender,message,id,bytes⟩] := by
  obtain ⟨hread,hstop,hframe⟩ := framed_parts hlen hroom
  have hframes : Client.framesOf (PlainCrypto.framed bytes) 1 0 = [bytes] :=
    Client.framesOf_next (by rw [hread]; rfl) hstop (by rw [hframe]; rfl)
  have hopened : client.opened channelId bytes = some ⟨sender,message,id,bytes⟩ := by
    rw [Client.opened,hget]
    exact Channel.entryOf_eq_some.mpr ⟨rfl,hcarries⟩
  rw [ClientCall.accepted,Function.update_self,hframes,Client.received,h]
  simp [hopened,Client.received]

end Frame

section Lost

open PlainCrypto

/-- Slabs that one record of 2^32 bytes fills. -/
def giantSlab : Nat := 2^32+16

def opening : Message (Protocol U64) := ⟨nodeOf 1,0,1,.newChannel ⟨0,chatName,1⟩⟩

def greeting : Message (Protocol U64) := ⟨nodeOf 1,1,2,.chatMessage ⟨HString.new⟩⟩

/-- The id of an envelope of the message. -/
def idOf (message : Message (Protocol U64)) : EnvelopeId := ⟨numberOf (toBytes message)⟩

/-- What a channel is like that accepts the two messages one after the other. -/
def TakesBoth (ch : Channel 2 giantSlab PlainCrypto U64) : Prop :=
  let first := Channel.accept (chatId 1) (nodeOf 1) opening (idOf opening) ch
  let second := Channel.accept (chatId 1) (nodeOf 1) greeting (idOf greeting) first.2
  (first.1 = .ok 1 ∧ ch.state.getNodeKey (nodeOf 1) = .ok 1 ∧ first.2.chat.messageCount = 0) ∧
    (second.1 = .ok 2 ∧ first.2.state.getNodeKey (nodeOf 1) = .ok 1 ∧ second.2.chat.messageCount = 1)

instance : DecidablePred TakesBoth := fun ch => by unfold TakesBoth; infer_instance

theorem fresh_takesBoth {ch : Channel 2 giantSlab PlainCrypto U64}
    (h : Client.freshChannel (nodeOf 1) 1 (chatId 1) (blankIo giantSlab 2) = .ok ch) : TakesBoth ch := by
  have hcheck : (Client.freshChannel (nodeOf 1) 1 (chatId 1) (blankIo giantSlab 2) :
      Outcome ClientError (Channel 2 giantSlab PlainCrypto U64)).value.all (fun ch => decide (TakesBoth ch)) =
        true := by decide +kernel
  rw [h] at hcheck
  exact of_decide_eq_true hcheck

theorem sealPlain_ok (message : Message (Protocol U64)) (h : (toBytes message).length ≤ maxEnvelope) :
    ∃ envelope : ChatEnvelope U64,
      sealPlain (nodeOf 1) (.channel (chatId 1)) ⟨1,1⟩ message scratch.length = .ok envelope := by
  have hscratch : maxEnvelope ≤ scratch.length := by decide +kernel
  have hsig : (encode (1 : U64)).length ≤ maxSig := by decide +kernel
  have hserialized : HVec.fromSlice (toBytes message) = some (⟨toBytes message,h⟩ : HVec UInt8 maxEnvelope) :=
    HVec.fromSlice_eq_some.mpr rfl
  have hsignature : HVec.fromSlice (encode (1 : U64)) = some (⟨encode (1 : U64),hsig⟩ : HVec UInt8 maxSig) :=
    HVec.fromSlice_eq_some.mpr rfl
  unfold sealPlain
  rw [if_neg (by omega),hserialized,hsignature]
  exact ⟨_,rfl⟩

/-- The bytes of an envelope the owner sealed carry its message. -/
theorem sealed_carries {maxNodes : Nat} {st : ChannelState maxNodes U64} {message : Message (Protocol U64)}
    {bytes : Bytes} {envelope : ChatEnvelope U64} (crypto : PlainCrypto)
    (hseal : sealPlain (nodeOf 1) (.channel (chatId 1)) ⟨1,1⟩ message scratch.length = .ok envelope)
    (hdecode : decodeAs (ChatEnvelope U64) bytes = .ok envelope) (hkey : st.getNodeKey (nodeOf 1) = .ok 1) :
    Channel.Carries crypto st bytes (nodeOf 1) message (idOf message) := by
  have hpaired : Paired PlainCrypto (⟨1,1⟩ : KeyPair U64 U64) := (rfl : (1 : U64) = 1)
  have hopen : Crypto.openEnvelope crypto (1 : U64) envelope = .ok message :=
    IdealCrypto.open_seal crypto crypto _ _ _ _ _ _ hpaired hseal
  obtain ⟨hsender,hserialized,_⟩ := sealPlain_eq_ok hseal
  have hid : Crypto.envelopeId crypto envelope = idOf message := by
    change (⟨numberOf envelope.serialized.toList⟩ : EnvelopeId) = _
    rw [hserialized,idOf]
  exact ⟨envelope,1,hdecode,hsender,hkey,hopen,hid⟩

/-- The owner's message comes in and is taken. -/
theorem receive_sealed {client : Client 2 2 giantSlab PlainCrypto U64 U64}
    {ch : Channel 2 giantSlab PlainCrypto U64} {message : Message (Protocol U64)} {bytes : Bytes}
    (hget : client.channels.get (chatId 1) = some ch) (hs : ch.Sound)
    (hcarries : Channel.Carries client.crypto ch.state bytes (nodeOf 1) message (idOf message))
    (hlen : bytes.length < 2^32) (hplace : ch.HasPlace (chatId 1) (nodeOf 1) message bytes) :
    ∃ client' ch', ClientCall.run (.receiveBuffer (chatId 1) (framed bytes) 1) client = (.ok (),client') ∧
      ClientCall.accepted client (.receiveBuffer (chatId 1) (framed bytes) 1 : ClientCall giantSlab U64) (chatId 1) =
        [⟨nodeOf 1,message,idOf message,bytes⟩] ∧
      client'.channels.get (chatId 1) = some ch' ∧
      Channel.take (chatId 1) (nodeOf 1) message (idOf message) bytes ch = (.ok (),ch') := by
  obtain ⟨envelope,key,hdecode,hsender,hkey,hopen,hid⟩ := id hcarries
  rcases htake : Channel.take (chatId 1) (nodeOf 1) message (idOf message) bytes ch with ⟨outcome,ch'⟩
  have hok : (Channel.take (chatId 1) (nodeOf 1) message (idOf message) bytes ch).1 = .ok () :=
    (Channel.take_ok_iff hs).mpr hplace
  rw [htake] at hok
  obtain rfl : outcome = .ok () := hok
  have hreceive : Channel.doReceive client.crypto (chatId 1) envelope bytes ch = (.ok (),ch') := by
    rw [←hsender] at hkey
    rw [Channel.doReceive_eq_take hkey hopen,hid,hsender,htake]
  have hafter := Client.onChannel_get (x := Channel.doReceive client.crypto (chatId 1) envelope bytes) hget (chatId 1)
  have hrun := Client.onChannel_some (x := Channel.doReceive client.crypto (chatId 1) envelope bytes) hget
  rw [←Client.doReceive_decoded hdecode,hreceive] at hrun
  rw [←Client.doReceive_decoded hdecode,if_pos rfl,hreceive] at hafter
  have hbound : u32Size+2^32 ≤ usizeMax := by decide +kernel
  exact ⟨_,ch',Client.receiveBuffer_framed hlen (by omega) hrun,accepted_framed hlen (by omega) hget hcarries hrun,
    by rw [←hafter,hrun],rfl⟩

/-- An envelope with zeroes behind it, as many as a record of 2^32 bytes takes. -/
theorem sealed_padded (message : Message (Protocol U64)) (h : (toBytes message).length ≤ maxEnvelope) :
    ∃ envelope bytes,
      sealPlain (nodeOf 1) (.channel (chatId 1)) ⟨1,1⟩ message scratch.length = .ok envelope ∧
        decodeAs (ChatEnvelope U64) bytes = .ok envelope ∧ bytes.length = 2^32-40 := by
  obtain ⟨envelope,hseal⟩ := sealPlain_ok message h
  have hlen : (toBytes envelope).length ≤ 4096 := by
    have h := envelope_length envelope
    rwa [scratch,List.length_replicate] at h
  refine ⟨envelope,toBytes envelope ++ List.replicate (2^32-40-(toBytes envelope).length) 0,hseal,
    decodeAs_append envelope _,?_⟩
  rw [List.length_append,List.length_replicate]
  omega

theorem giantIo_zeroed : (blankIo giantSlab 2).Zeroed := blankIo_zeroed (by decide) (by decide +kernel)

theorem giantIo_hasSlab {io : MemIo giantSlab} (hlen : io.data.length = (blankIo giantSlab 2).data.length)
    (hcount : io.slabCount ≤ 1) : io.HasSlab := by
  have hdata : (blankIo giantSlab 2).data.length = 2*giantSlab := List.length_replicate
  refine ⟨by decide,?_⟩
  rw [hlen,hdata]
  exact Nat.mul_le_mul_right _ (by omega)

/-- A client that has joined the channel in such memory. -/
theorem giant_joined : ∃ (client : Client 2 2 giantSlab PlainCrypto U64 U64) (ch : Channel 2 giantSlab PlainCrypto U64),
    Client.OkRun MemIo.Zeroed (MemIo.Archives PlainCrypto) client startedByOwner (fun _ => []) ∧
      client.channels.get (chatId 1) = some ch ∧ ch.storage.io = blankIo giantSlab 2 ∧ ch.Sound ∧
      Client.freshChannel (nodeOf 1) 1 (chatId 1) (blankIo giantSlab 2) = .ok ch := by
  have hpaired : Paired PlainCrypto (⟨2,2⟩ : KeyPair U64 U64) := (rfl : (2 : U64) = 2)
  have hnew : Client.OkRun MemIo.Zeroed (MemIo.Archives PlainCrypto)
      (client 2 : Client 2 2 giantSlab PlainCrypto U64 U64) (fun _ => none) (fun _ => []) := .new _ ⟨0⟩ hpaired
  have hok : (Client.addChannel 1 (chatId 1) (blankIo giantSlab 2)
      (client 2 : Client 2 2 giantSlab PlainCrypto U64 U64)).1 = .ok () := by decide +kernel
  rcases hcall : Client.addChannel 1 (chatId 1) (blankIo giantSlab 2)
    (client 2 : Client 2 2 giantSlab PlainCrypto U64 U64) with ⟨outcome,client'⟩
  rw [hcall] at hok
  obtain rfl : outcome = .ok () := hok
  obtain ⟨_,hmakes⟩ | ⟨hno,_⟩ := Client.addChannel_makes hcall
  swap
  · exact absurd rfl hno
  obtain ⟨ch,hfresh,hget⟩ := hmakes.channels
  have hrun : Client.OkRun MemIo.Zeroed (MemIo.Archives PlainCrypto) client' startedByOwner
      (Function.update (fun _ => []) (chatId 1) ([] : List (Entry U64))) :=
    .addChannel _ client' _ _ 1 (chatId 1) _ hnew giantIo_zeroed hcall
  rw [Function.update_eq_self] at hrun
  refine ⟨client',ch,hrun,by rw [hget,if_pos rfl],?_,Channel.freshChannel_sound giantIo_zeroed.sound hfresh,hfresh⟩
  rw [Channel.freshChannel_storage hfresh]

/-- The owner's next message comes in, where the memory has a slab for its record. -/
theorem sealed_taken {client : Client 2 2 giantSlab PlainCrypto U64 U64} {logs : ChannelId → List (Entry U64)}
    {ch c : Channel 2 giantSlab PlainCrypto U64} {message : Message (Protocol U64)} {bytes : Bytes}
    {envelope : ChatEnvelope U64} {maxSequence : U64}
    (hrun : Client.OkRun MemIo.Zeroed (MemIo.Archives PlainCrypto) client startedByOwner logs)
    (hget : client.channels.get (chatId 1) = some ch)
    (hseal : sealPlain (nodeOf 1) (.channel (chatId 1)) ⟨1,1⟩ message scratch.length = .ok envelope)
    (hdecode : decodeAs (ChatEnvelope U64) bytes = .ok envelope) (hlen : bytes.length < 2^32)
    (hkey : ch.state.getNodeKey (nodeOf 1) = .ok 1)
    (haccept : Channel.accept (chatId 1) (nodeOf 1) message (idOf message) ch = (.ok maxSequence,c))
    (hplain : ∀ m, message.data ≠ .addUser m)
    (hlength : ch.storage.io.data.length = (blankIo giantSlab 2).data.length) (hcount : ch.storage.io.slabCount ≤ 1)
    (hfits : (toBytes (Channel.recordOf ch (nodeOf 1) message bytes)).length ≤ 2^32) :
    ∃ (client' : Client 2 2 giantSlab PlainCrypto U64 U64) (logs' : ChannelId → List (Entry U64))
      (ch' : Channel 2 giantSlab PlainCrypto U64),
      Client.OkRun MemIo.Zeroed (MemIo.Archives PlainCrypto) client' startedByOwner logs' ∧
      logs' (chatId 1) = logs (chatId 1) ++ [⟨nodeOf 1,message,idOf message,bytes⟩] ∧
      client'.channels.get (chatId 1) = some ch' ∧ ch'.Sound ∧
      Channel.Taken ch ch' (chatId 1) (nodeOf 1) message (idOf message) bytes
        (Channel.recordOf ch (nodeOf 1) message bytes) ∧ ch'.state = c.state ∧ ch'.chat = c.chat := by
  have hgiant : giantSlab = 2^32+16 := rfl
  have hinit : SlabWriter.initialOffset+u32Size = 16 := rfl
  have hs : ch.Sound := hrun.filed.sound _ _ hget
  have hplace : ch.HasPlace (chatId 1) (nodeOf 1) message bytes :=
    Channel.hasPlace_of_accept hs.valid haccept rfl rfl hplain (giantIo_hasSlab hlength hcount)
      (by rw [slabBytes_single]; omega)
  obtain ⟨client',ch',hcall,haccepted,hget',htake⟩ := receive_sealed hget hs
    (sealed_carries client.crypto hseal hdecode hkey) hlen hplace
  have hrun' := Client.OkRun.onHeld client client' _ _ (.receiveBuffer (chatId 1) (framed bytes) 1) hrun trivial hcall
  obtain ⟨_,c',haccept',hstate,hchat⟩ := Channel.take_accept htake
  rw [haccept] at haccept'
  cases haccept'
  exact ⟨client',_,ch',hrun',by rw [haccepted],hget',hrun'.filed.sound _ _ hget',Channel.take_ok hs htake,hstate,hchat⟩

/-- The memory holds one record without a chat message, and the greeting comes next. -/
structure AwaitsGreeting (ch : Channel 2 giantSlab PlainCrypto U64) : Prop where
  sound : ch.Sound
  length : ch.storage.io.data.length = (blankIo giantSlab 2).data.length
  blank : ch.storage.io.Blank
  holds : ∃ r : Record, r.messageCount = 0 ∧ Holds ch.storage.io [[r]]
  key : ch.state.getNodeKey (nodeOf 1) = .ok 1
  accepts : ∃ c c' : Channel 2 giantSlab PlainCrypto U64, ch.state = c.state ∧ ch.chat = c.chat ∧
    Channel.accept (chatId 1) (nodeOf 1) greeting (idOf greeting) c = (.ok 2,c') ∧ c'.chat.messageCount = 1

/-- The opening has come in. -/
theorem giant_opened : ∃ (client : Client 2 2 giantSlab PlainCrypto U64 U64) (logs : ChannelId → List (Entry U64))
    (ch : Channel 2 giantSlab PlainCrypto U64),
    Client.OkRun MemIo.Zeroed (MemIo.Archives PlainCrypto) client startedByOwner logs ∧
      client.channels.get (chatId 1) = some ch ∧ AwaitsGreeting ch := by
  obtain ⟨client,ch,hrun,hget,hio,hs,hfresh⟩ := giant_joined
  obtain ⟨⟨hopening,hkey,hzero⟩,hgreeting,hnext,hone⟩ := fresh_takesBoth hfresh
  obtain ⟨envelope,hseal⟩ := sealPlain_ok opening (by decide +kernel)
  have hlen : (toBytes envelope).length ≤ 4096 := by
    have h := envelope_length envelope
    rwa [scratch,List.length_replicate] at h
  have hsmall := record_bounded (Channel.recordOf ch (nodeOf 1) opening (toBytes envelope))
    (show (toBytes envelope).length < 2^64 by omega)
  change _ ≤ (toBytes envelope).length+72 at hsmall
  obtain ⟨client',logs',ch',hrun',_,hget',hs',htaken,hstate,hchat⟩ := sealed_taken hrun hget hseal
    (Channel.decodeAs_toBytes envelope) (by omega) hkey (Prod.ext hopening rfl) (by simp [opening]) (by rw [hio])
    (by rw [hio]; exact Nat.zero_le _) (by omega)
  have hadvanced := (store_advanced hs.storage htaken.stored).1
  have hzeroed := giantIo_zeroed.filed (P := U64)
  rw [←hio] at hzeroed
  refine ⟨client',_,ch',hrun',hget',hs',by rw [hadvanced.length,hio],
    hzeroed.blank.advanced hadvanced,⟨_,?_,hzeroed.holds.store (by omega) htaken.stored⟩,by rw [hstate]; exact hnext,
    _,_,hstate,hchat,Prod.ext hgreeting rfl,hone⟩
  rw [htaken.count,hchat]
  exact hzero

/-- A chat message that fills 4 GiB is counted, and has no number. -/
theorem message_lost : ∃ (client : Client 2 2 giantSlab PlainCrypto U64 U64) (logs : ChannelId → List (Entry U64))
    (ch : Channel 2 giantSlab PlainCrypto U64),
    Client.OkRun MemIo.Zeroed (MemIo.Archives PlainCrypto) client startedByOwner logs ∧
      client.channels.get (chatId 1) = some ch ∧ ch.chat.messageCount = 1 ∧
      client.getMessage (chatId 1) 1 = .err .messageIndexOutOfBounds := by
  have hgiant : giantSlab = 2^32+16 := rfl
  have hinit : SlabWriter.initialOffset+u32Size = 16 := rfl
  obtain ⟨client,logs,ch,hrun,hget,hs,hdata,hblank,⟨r,hr,hholds⟩,hkey,c,c',hstate,hchat,haccept,hone⟩ := giant_opened
  have hsame := Channel.accept_sameMessages hstate hchat haccept
  -- the greeting comes with zeroes behind it
  obtain ⟨envelope,bytes,hseal,hdecode,hlong⟩ := sealed_padded greeting (by decide +kernel)
  obtain ⟨record,hrecord⟩ : ∃ record, record = Channel.recordOf ch (nodeOf 1) greeting bytes := ⟨_,rfl⟩
  obtain ⟨hmax,hcount⟩ := Channel.recordOf_eq hs.valid (Channel.accept_eq_ok hs.valid hsame) bytes
  rw [←hrecord] at hmax hcount
  have hfull : (toBytes record).length = 2^32 := by
    refine giant_length ?_ ?_ ?_ ?_
    · rw [hmax]
      decide
    · rw [hcount]
      exact (show c'.chat.messageCount.val < 128 by rw [hone]; decide)
    · rw [hrecord]
      exact (show greeting.sequence.val < 128 by decide)
    · rw [hrecord]
      exact hlong
  obtain ⟨client',logs',ch',hrun',_,hget',_,htaken,_⟩ := sealed_taken hrun hget hseal hdecode (by omega) hkey hsame
    (by simp [greeting]) hdata (by rw [hholds.count]; exact le_refl _) (by rw [←hrecord]; exact le_of_eq hfull)
  rw [←hrecord] at htaken
  have hscan : ch'.storage.scan (fun record => decide (record.messageCount ≥ 1)) = .ok none := by
    refine hholds.store_lost hblank hfull (by rw [slabBytes_single]; omega) (fun x hx => ?_) htaken.stored
    obtain rfl : x = r := by simpa using hx
    simp [hr]
  refine ⟨client',_,ch',hrun',hget',?_,?_⟩
  · rw [←htaken.count,hcount]
    exact hone
  · simp [Client.getMessage,Client.channel,hget',Storage.getCursorFromIndex,hscan]

/-- The opening has come in with zeroes behind it, in a record of 2^32 bytes that is not read. -/
structure HidesOpening (start ch : Channel 2 giantSlab PlainCrypto U64) (bytes : Bytes) : Prop where
  sound : ch.Sound
  state : ch.state = (Channel.accept (chatId 1) (nodeOf 1) opening (idOf opening) start).2.state
  chat : ch.chat = (Channel.accept (chatId 1) (nodeOf 1) opening (idOf opening) start).2.chat
  owner : ch.chat.ownerId = some (nodeOf 1)
  long : bytes.length = 2^32-40
  length : ch.storage.io.data.length = (blankIo giantSlab 2).data.length
  lays : ∃ r : Record, (toBytes r).length = 2^32 ∧ Lays ch.storage.io [[r]]
  unread : ch.storage.records = .ok []

theorem giant_hidden : ∃ (client : Client 2 2 giantSlab PlainCrypto U64 U64) (logs : ChannelId → List (Entry U64))
    (start ch : Channel 2 giantSlab PlainCrypto U64) (bytes : Bytes),
    Client.OkRun MemIo.Zeroed (MemIo.Archives PlainCrypto) client startedByOwner logs ∧
      logs (chatId 1) = [⟨nodeOf 1,opening,idOf opening,bytes⟩] ∧ client.channels.get (chatId 1) = some ch ∧
      Client.freshChannel (nodeOf 1) 1 (chatId 1) (blankIo giantSlab 2) = .ok start ∧ HidesOpening start ch bytes := by
  have hgiant : giantSlab = 2^32+16 := rfl
  have hinit : SlabWriter.initialOffset+u32Size = 16 := rfl
  obtain ⟨client,start,hrun,hget,hio,hs,hfresh⟩ := giant_joined
  obtain ⟨⟨hopening,hkey,hzero⟩,_⟩ := fresh_takesBoth hfresh
  obtain ⟨envelope,bytes,hseal,hdecode,hlong⟩ := sealed_padded opening (by decide +kernel)
  have hfull : (toBytes (Channel.recordOf start (nodeOf 1) opening bytes)).length = 2^32 := by
    obtain ⟨hmax,hcount⟩ := Channel.recordOf_eq hs.valid (Channel.accept_eq_ok hs.valid (Prod.ext hopening rfl)) bytes
    refine giant_length ?_ ?_ ?_ hlong
    · rw [hmax]
      decide
    · rw [hcount,hzero]
      decide
    · exact (show opening.sequence.val < 128 by decide)
  obtain ⟨client',logs',ch,hrun',hlogs,hget',hs',htaken,hstate,hchat⟩ := sealed_taken hrun hget hseal hdecode
    (by omega) hkey (Prod.ext hopening rfl) (by simp [opening]) (by rw [hio]) (by rw [hio]; exact Nat.zero_le _)
    (le_of_eq hfull)
  have hholds : Holds start.storage.io [] := by
    rw [hio]
    exact giantIo_zeroed.fresh.holds
  have hblank : start.storage.io.Blank := by
    rw [hio]
    exact giantIo_zeroed.blank
  have hlays : Lays start.storage.io [] := by
    obtain ⟨n,hn,hnew⟩ := giantIo_zeroed
    rw [hio]
    exact .new (by rw [List.length_replicate]; exact hn) hnew
  refine ⟨client',logs',start,ch,bytes,hrun',hlogs,hget',hfresh,hs',hstate,hchat,htaken.accepted.chat.ownerId,hlong,?_,
    ⟨_,hfull,hlays.store htaken.stored⟩,?_⟩
  · rw [(store_advanced hs.storage htaken.stored).1.length,hio]
  · have hnone : ch.storage.scan (fun record => decide (record.maxSequence ≥ 0)) = .ok none :=
      hholds.store_lost hblank hfull (by rw [slabBytes_single]; omega) (by simp) htaken.stored
    rw [Storage.records,Storage.getCursorFromSequence,hnone]
    rfl

/-- The records that such a channel reads do not determine its state: there are none, and the chat has an owner. -/
theorem state_forgotten : ∃ (client : Client 2 2 giantSlab PlainCrypto U64 U64) (logs : ChannelId → List (Entry U64))
    (ch : Channel 2 giantSlab PlainCrypto U64) (ds : List Bytes) (start : ChannelState 2 U64)
    (s : ChannelState 2 U64 × Chat 2 PlainCrypto U64),
    Client.OkRun MemIo.Zeroed (MemIo.Archives PlainCrypto) client startedByOwner logs ∧
      client.channels.get (chatId 1) = some ch ∧ ch.storage.records = .ok ds ∧
      ChannelState.new (nodeOf 1) 1 = .ok start ∧
      Channel.replayAll client.crypto (chatId 1) ds (start,Chat.new (chatId 1)) = (.ok (),s) ∧
      s.2.ownerId = none ∧ ch.chat.ownerId = some (nodeOf 1) := by
  obtain ⟨client,logs,start,ch,bytes,hrun,_,hget,hfresh,hhides⟩ := giant_hidden
  obtain ⟨st,hst,_⟩ := Channel.freshChannel_eq_ok.mp hfresh
  exact ⟨client,logs,ch,[],st,(st,Chat.new (chatId 1)),hrun,hget,hhides.unread,hst,rfl,rfl,hhides.owner⟩

/-- The owner of two has one chat message behind the two that made its channel, and finds it under its number. -/
theorem message_numbers_speaker : chats (speakerLog (chatId 1)) = [⟨⟨textStr,by decide⟩⟩] ∧
    ∃ ch, speaker.channels.get (chatId 1) = some ch ∧ MemIo.Archives PlainCrypto ch.storage.io ∧
      ch.chat.messageCount.val = (chats (speakerLog (chatId 1))).length ∧ ∀ index : U64,
        (1 ≤ index.val → index ≤ ch.chat.messageCount → ∃ m, (chats (speakerLog (chatId 1)))[index.val-1]? = some m ∧
          speaker.getMessage (chatId 1) index = .ok m) ∧
        (ch.chat.messageCount < index →
          speaker.getMessage (chatId 1) index = .err .messageIndexOutOfBounds) := by
  obtain ⟨ch,hch⟩ := speaker_holds
  exact ⟨by decide +kernel,ch,hch,(speaker_okRun ownIo_zeroed).message_numbers hch speaker_short⟩

end Lost

end Finder
