import Finder.Radio.Assembly
import Finder.Radio.Polling

namespace Finder

variable {maxChannels maxNodes maxResponse slabSize : Nat} {A E D C P S : Type}

section Broadcast

variable [Target] {w : WireWriter E} {data : Bytes} {number : U16} {packets : List Bytes}

/-- Packets with room go out at the places that the count names. -/
theorem broadcastPackets_ok [Raptorq E D] (hne : w.encoded.length ≠ 0)
    (hroom : ∀ e ∈ w.encoded, (w.wirePacket D e).length ≤ 250) (count : Nat) :
    broadcastPackets D (fun _ => true) count w = .ok ((turns (usizeMax+1) w.packetCount (w.lastSent+1) count).map
      (fun i => (w.packets D).getD i [])) := by
  induction count generalizing w with
  | zero => rfl
  | succ count ih =>
    obtain ⟨e,he⟩ := w.upcoming_isSome hne
    have hlen : (w.wirePacket D e).length ≤ (List.replicate 250 (0 : UInt8)).length := by
      rw [List.length_replicate]
      exact hroom e (List.mem_of_getElem? he)
    have hnext := WireWriter.next_ok (D := D) he hlen
    have hwhole : (overwrite (List.replicate 250 0) 0 (w.wirePacket D e)).length =
        (List.replicate 250 (0 : UInt8)).length := overwrite_length (by omega)
    have hrange := getRange_some_of_le (Nat.zero_le (w.wirePacket D e).length) (hlen.trans hwhole.ge)
    rw [List.drop_zero,Nat.sub_zero,overwrite_begin hlen] at hrange
    have hrest : broadcastPackets D (fun _ => true) count w.advanced = _ := ih hne hroom
    have hat : w.encoded[(w.lastSent+1)%(usizeMax+1)%w.packetCount]? = some e := he
    have hfirst : (w.packets D).getD ((w.lastSent+1)%(usizeMax+1)%w.packetCount) [] = w.wirePacket D e := by
      rw [WireWriter.packets,List.getD_eq_getElem?_getD,List.getElem?_map,hat]
      rfl
    rw [turns_succ,List.map_cons,hfirst,broadcastPackets,hnext]
    simp only [hrange,Outcome.orPanic_some,Outcome.ok_bind,if_true,hrest]
    rfl

/-- What has gone out does not depend on the driver. -/
theorem broadcastPackets_sent [Raptorq E D] {send : Nat → Bool} {count : Nat}
    (h : broadcastPackets D send count w = .ok packets) :
    broadcastPackets D (fun _ => true) count w = .ok packets := by
  induction count generalizing w packets with
  | zero => exact h
  | succ count ih =>
    rw [broadcastPackets] at h ⊢
    rcases hnext : WireWriter.next D (w,List.replicate 250 0) with ⟨len | e | _,writer,buffer⟩
    all_goals
      rw [hnext] at h
      dsimp only at h ⊢
    · obtain ⟨data,hdata,h⟩ := Outcome.bind_eq_ok.mp h
      split_ifs at h with hsend
      obtain ⟨rest,hrest,h⟩ := Outcome.bind_eq_ok.mp h
      simp only [hdata,Outcome.ok_bind,if_true,ih hrest]
      exact h
    · cases h
    · cases h

/-- The loop sends all packets of a message, each once, and each as long as a packet of the radio can be. -/
theorem broadcastPackets_new [RadioRaptorq E D] (hcodable : Codable data (espNowMtu.val-6))
    (hnew : WireWriter.new D number espNowMtu data repairCount = .ok w) :
    ∃ packets, broadcastPackets D (fun _ => true) w.packetCount w = .ok packets ∧ packets.Perm (w.packets D) ∧
      ∀ p ∈ packets, p.length = 250 := by
  rw [WireWriter.new_ok number repairCount (.of_codable hcodable)] at hnew
  cases hnew
  obtain ⟨w,hw⟩ : ∃ w : WireWriter E, w = ⟨number,Fin.ofNat (2^16) data.length,
    Raptorq.encodedPackets D data (espNowMtu.val-6) repairCount,0⟩ := ⟨_,rfl⟩
  rw [←hw]
  have hencoded : w.encoded = Raptorq.encodedPackets D data (espNowMtu.val-6) repairCount := by rw [hw]
  have hsize : ∀ e ∈ w.encoded, (w.wirePacket D e).length = 250 := by
    intro e he
    rw [hencoded] at he
    rw [WireWriter.wirePacket_length,SizedRaptorq.serialize_size data _ repairCount hcodable e he]
    decide
  have hne : w.encoded.length ≠ 0 := by
    rw [hencoded]
    exact fun hzero => SizedRaptorq.encoded_nonempty data _ repairCount hcodable (List.eq_nil_of_length_eq_zero hzero)
  have heven : Evenly (usizeMax+1) w.packetCount (w.lastSent+1) := by
    have hvec : w.packetCount ≤ usizeMax := by
      rw [WireWriter.packetCount,hencoded]
      exact CodingRaptorq.encoded_length data _ repairCount hcodable
    have hlast : w.lastSent = 0 := by rw [hw]
    have hone := Nat.mod_le (0+1) (usizeMax+1)
    exact Or.inl (by rw [hlast]; omega)
  have hperm := WireWriter.round_perm (D := D) heven
  refine ⟨_,broadcastPackets_ok hne (fun e he => (hsize e he).le) _,hperm,fun p hp => ?_⟩
  obtain ⟨e,he,rfl⟩ := List.mem_map.mp (hperm.mem_iff.mp hp)
  exact hsize e he

variable (D) in
/-- The packets are those of a writer of the message. -/
def CutInto [Raptorq E D] (number : U16) (data : Bytes) (packets : List Bytes) : Prop :=
  ∃ w : WireWriter E, WireWriter.new D number espNowMtu data repairCount = .ok w ∧
    broadcastPackets D (fun _ => true) w.packetCount w = .ok packets

/-- A writer takes no longer message than a reader can be told of. -/
theorem CutInto.codable [Raptorq E D] (h : CutInto D number data packets) (hne : data ≠ []) :
    Codable data (espNowMtu.val-6) := by
  obtain ⟨w,hnew,_⟩ := h
  by_cases hcuts : WireWriter.Cuts D espNowMtu data
  · have hshort := hcuts.short
    exact ⟨List.length_pos_of_ne_nil hne,by omega,by decide⟩
  · rw [WireWriter.new_panic number repairCount hcuts] at hnew
    cases hnew

/-- They are what the packets of the message look like on the wire. -/
theorem CutInto.mem_iff [RadioRaptorq E D] {message : Nat → Bytes} {i : Nat} (h : CutInto D (numberOf i) (message i) packets)
    (hcodable : Codable (message i) (espNowMtu.val-6)) : data ∈ packets ↔
      ∃ e ∈ Raptorq.encodedPackets D (message i) (espNowMtu.val-6) repairCount, data = wireOf D message (i,e) := by
  obtain ⟨w,hnew,hpackets⟩ := h
  obtain ⟨_,hsame,hperm,_⟩ := broadcastPackets_new hcodable hnew
  rw [hpackets] at hsame
  cases hsame
  rw [WireWriter.new_ok _ repairCount (.of_codable hcodable)] at hnew
  cases hnew
  rw [hperm.mem_iff]
  exact ⟨fun h => (by obtain ⟨e,he,hdata⟩ := List.mem_map.mp h; exact ⟨e,he,hdata.symm⟩),
    fun ⟨e,he,hdata⟩ => List.mem_map.mpr ⟨e,he,hdata.symm⟩⟩

end Broadcast

namespace WireState

variable {client : Client maxChannels maxNodes slabSize C P S} {st : WireState maxChannels maxNodes maxResponse A D}
  {message m : NetworkProtocol maxChannels maxNodes maxResponse} {sender : A} {data : Bytes}

/-- The message is a hello, and the other one asks for the news of the channel that it lists first. -/
def Asks (client : Client maxChannels maxNodes slabSize C P S)
    (message m : NetworkProtocol maxChannels maxNodes maxResponse) : Prop :=
  ∃ pubKeyId peerCount channelInfo info infos ch request, message = .hello pubKeyId peerCount channelInfo ∧
    channelInfo.toList = info::infos ∧ client.channels.get info.channelId = some ch ∧ m = .syncRequest request ∧
      request.vectorClock.toList = ch.state.listNodes.map NodeSequence.clock

variable (client st message) in
/-- Only a hello places something to be sent. -/
theorem processMessage_asks (hnone : st.toSend = none) (hm : (processMessage message client st).2.toSend = some m) :
    Asks client message m := by
  have hsame : (processMessage message client st).2 = st → Asks client message m := by
    intro hsame
    rw [hsame,hnone] at hm
    cases hm
  cases message with
  | syncRequest request => exact hsame rfl
  | syncResponse response => exact hsame rfl
  | hello pubKeyId peerCount channelInfo =>
    rw [processMessage] at hm hsame
    cases hinfos : channelInfo.toList with
    | nil =>
      rw [hinfos] at hsame
      exact hsame rfl
    | cons info infos =>
      rw [hinfos] at hm
      cases hget : client.channels.get info.channelId with
      | none =>
        rw [processInfos_unknown hnone hget] at hm
        cases hnone.symm.trans hm
      | some ch =>
        obtain ⟨request,hclocks,hrun⟩ := processInfos_held infos hnone hget
        rw [hrun] at hm
        cases hm
        exact ⟨pubKeyId,peerCount,channelInfo,info,infos,ch,request,rfl,hinfos,hget,rfl,hclocks⟩

variable [DecidableEq A] [Target] [Raptorq E D]

variable (st sender data) in
/-- Decoding changes the receivers only. -/
theorem decodePacket_only : Call.Keeps (fun s : WireState maxChannels maxNodes maxResponse A D =>
    ∃ receivers, s = { st with receivers := receivers }) (decodePacket data sender) := by
  rintro s ⟨receivers,rfl⟩
  have hreceiver : ∀ x : Call (Receiver D) WireError (Option Bytes),
      Call.Keeps (fun s : WireState maxChannels maxNodes maxResponse A D =>
        ∃ receivers, s = { st with receivers := receivers }) (onReceiver sender x) := by
    intro x
    refine Call.Keeps.borrow (J := fun _ => True) (fun _ _ => trivial) (fun _ _ _ _ => trivial) ?_
    rintro s r ⟨receivers,rfl⟩ _
    exact ⟨_,rfl⟩
  have hinfo : Call.Keeps (fun s : WireState maxChannels maxNodes maxResponse A D =>
      ∃ receivers, s = { st with receivers := receivers }) (receiveInfo sender) := by
    rintro s ⟨receivers,rfl⟩
    unfold receiveInfo
    split
    · exact ⟨_,rfl⟩
    · split <;> exact ⟨_,rfl⟩
  unfold decodePacket
  split
  · exact ⟨_,rfl⟩
  · exact ⟨_,rfl⟩
  · refine hinfo.bind (fun admitted => ?_) _ ⟨receivers,rfl⟩
    split_ifs
    · exact (hreceiver _).bind (fun _ => Call.keeps_pure _)
    · exact Call.keeps_pure _

/-- Only a packet with an entry is decoded. -/
theorem receivePacket_entry {p : U16 × Bytes} {st' : WireState maxChannels maxNodes maxResponse A D}
    (hdecode : decodePacket data sender st = (.ok (some p),st')) : ∃ r, st'.receivers.get sender = some r := by
  rcases hchecked : WireReader.checkPacket data with number | e | _
  · by_cases hadmits : st.Admits sender
    · obtain ⟨entered,henters,hdecoded⟩ := decodePacket_admitted hchecked hadmits
      rw [hdecode] at hdecoded
      have hsame : st' = entered := congrArg Prod.snd hdecoded
      rw [hsame,henters.entries,if_pos rfl]
      exact ⟨_,rfl⟩
    · rw [decodePacket_full hchecked hadmits] at hdecode
      cases hdecode
  · rw [decodePacket_unchecked hchecked] at hdecode
    cases hdecode
  · simp only [decodePacket,hchecked] at hdecode
    cases hdecode

variable [Postcard (NetworkProtocol maxChannels maxNodes maxResponse)]

variable (data sender client st) in
/-- A packet changes the receivers, and the message that is passed on is processed. -/
theorem receivePacket_shape : ∃ receivers,
    (passed data sender st = none ∧ (receivePacket data sender client st).2 = { st with receivers := receivers }) ∨
    ∃ p message, passed data sender st = some p ∧ fromBytes p.2 = .ok message ∧
      receivePacket data sender client st = processMessage message client { st with receivers := receivers } := by
  obtain ⟨receivers,honly⟩ := decodePacket_only st sender data st ⟨st.receivers,rfl⟩
  rcases hdecode : decodePacket data sender st with ⟨result | e | _,st'⟩
  all_goals
    rw [hdecode] at honly
    dsimp only at honly
    subst honly
  rotate_left
  · refine ⟨receivers,Or.inl ⟨?_,?_⟩⟩
    · simp only [passed,hdecode]
    · rw [receivePacket,Call.bind_err hdecode]
  · refine ⟨receivers,Or.inl ⟨?_,?_⟩⟩
    · simp only [passed,hdecode]
    · rw [receivePacket_panic hdecode]
  have hpassed := passed_of_decoded hdecode
  cases result with
  | none => exact ⟨receivers,Or.inl ⟨hpassed,by rw [receivePacket_nothing hdecode]⟩⟩
  | some p =>
    by_cases hparses : Parses maxChannels maxNodes maxResponse p.2
    · rw [Option.filter_some,if_pos (decide_eq_true hparses)] at hpassed
      obtain ⟨r,hr⟩ := receivePacket_entry hdecode
      obtain ⟨message,hmessage⟩ := hparses
      have hparsed : parseMessage p.2 = .ok message := by simp only [parseMessage,hmessage]
      refine ⟨receivers.set sender { r with lastCompleted := some p.1 },Or.inr ⟨p,message,hpassed,hmessage,?_⟩⟩
      exact receivePacket_processes hdecode hr hparsed
    · rw [Option.filter_some,if_neg (by simpa using hparses)] at hpassed
      exact ⟨receivers,Or.inl ⟨hpassed,by rw [receivePacket_unparsed hdecode hparses]⟩⟩

/-- A packet leaves the settings of the radio, the timer and the count of its messages as they are. -/
theorem receivePacket_settings : (receivePacket data sender client st).2.mtu = st.mtu ∧
    (receivePacket data sender client st).2.helloDuration = st.helloDuration ∧
    (receivePacket data sender client st).2.nextHello = st.nextHello ∧
    (receivePacket data sender client st).2.nextMessageNumber = st.nextMessageNumber := by
  obtain ⟨receivers,⟨_,hrun⟩ | ⟨p,message,_,_,hrun⟩⟩ := receivePacket_shape client st sender data
  · rw [hrun]
    exact ⟨rfl,rfl,rfl,rfl⟩
  · rw [hrun]
    rcases processMessage_cases message client { st with receivers := receivers } with h | h | ⟨_,request,h⟩
    all_goals
      rw [h]
      exact ⟨rfl,rfl,rfl,rfl⟩

end WireState

section Loop

variable [DecidableEq A] [Target] [Raptorq E D] [Postcard (NetworkProtocol maxChannels maxNodes maxResponse)]
  {espNow : EspNow} {received : Option (A × Bytes)} {now : U64} {peerCount : UInt8} {channelId : ChannelId} {sender : A} {data : Bytes}
  {client : Client maxChannels maxNodes slabSize C P S} {st st' : WireState maxChannels maxNodes maxResponse A D}
  {buffer buffer' : Bytes} {packets : List Bytes} {m : NetworkProtocol maxChannels maxNodes maxResponse}

variable (received client st) in
theorem receiveData_settings : (receiveData received client st).2.mtu = st.mtu ∧
    (receiveData received client st).2.helloDuration = st.helloDuration ∧
    (receiveData received client st).2.nextHello = st.nextHello ∧
    (receiveData received client st).2.nextMessageNumber = st.nextMessageNumber := by
  cases received with
  | none => exact ⟨rfl,rfl,rfl,rfl⟩
  | some packet => exact WireState.receivePacket_settings

/-- The message that a pass takes to send. -/
def takenBy (received : Option (A × Bytes)) (now : U64) (peerCount : UInt8) (channelId : ChannelId)
    (client : Client maxChannels maxNodes slabSize C P S) (st : WireState maxChannels maxNodes maxResponse A D) :
    Option (NetworkProtocol maxChannels maxNodes maxResponse) :=
  match receiveData received client st with
  | (.ok (),st) => (WireState.takeMessage now peerCount [channelId] client st).1.value.join
  | _ => none

/-- How a pass ends, from where it has read the radio: it sends nothing, the hello that is due, or the message that
waits. -/
inductive Ends (now : U64) (peerCount : UInt8) (channelId : ChannelId)
    (client : Client maxChannels maxNodes slabSize C P S) (st : WireState maxChannels maxNodes maxResponse A D) :
    Option (NetworkProtocol maxChannels maxNodes maxResponse) → List Bytes →
      WireState maxChannels maxNodes maxResponse A D → Prop
  | quiet : Ends now peerCount channelId client st none [] st
  | hello (m : NetworkProtocol maxChannels maxNodes maxResponse) (packets : List Bytes) (nextHello : U64)
      (hnone : st.toSend = none) (hdue : st.nextHello ≤ now) (hnext : nextHello.val = now.val+st.helloDuration.val)
      (hmake : WireState.makeHello peerCount [channelId] client = .ok m)
      (hcut : CutInto D st.nextMessageNumber (toBytes m) packets) :
      Ends now peerCount channelId client st (some m) packets
        { st with nextHello := nextHello
                  nextMessageNumber := st.nextMessageNumber+1 }
  | waiting (m : NetworkProtocol maxChannels maxNodes maxResponse) (packets : List Bytes) (hpending : st.toSend = some m)
      (hcut : CutInto D st.nextMessageNumber (toBytes m) packets) :
      Ends now peerCount channelId client st (some m) packets
        { st with toSend := none
                  nextMessageNumber := st.nextMessageNumber+1 }

omit [DecidableEq A] in
/-- A pass that sends takes the next number. -/
theorem Ends.sends {taken : Option (NetworkProtocol maxChannels maxNodes maxResponse)}
    (h : Ends now peerCount channelId client st taken packets st') :
    st'.receivers = st.receivers ∧ st'.mtu = st.mtu ∧ st'.helloDuration = st.helloDuration ∧
      ((taken = none ∧ st'.nextMessageNumber = st.nextMessageNumber) ∨
        ∃ m, taken = some m ∧ CutInto D st.nextMessageNumber (toBytes m) packets ∧
          st'.nextMessageNumber = st.nextMessageNumber+1) := by
  cases h with
  | quiet => exact ⟨rfl,rfl,rfl,Or.inl ⟨rfl,rfl⟩⟩
  | hello m _ nextHello _ _ _ _ hcut => exact ⟨rfl,rfl,rfl,Or.inr ⟨m,rfl,hcut,rfl⟩⟩
  | waiting m _ _ hcut => exact ⟨rfl,rfl,rfl,Or.inr ⟨m,rfl,hcut,rfl⟩⟩

omit [DecidableEq A] [Target] in
variable (E now peerCount client) in
theorem WireState.poll_room (channelIds : List ChannelId) {room : Nat} :
    Call.Keeps (fun s : WireState maxChannels maxNodes maxResponse A D × Bytes => s.2.length = room)
      (WireState.poll now peerCount channelIds repairCount client : Call _ WireError (PollResult E)) := by
  have htake : Call.Keeps (fun s : WireState maxChannels maxNodes maxResponse A D × Bytes => s.2.length = room)
      (Call.field Prod.fst (fun st s => (st,s.2)) (WireState.takeMessage now peerCount channelIds client)) :=
    fun _ hs => hs
  refine htake.bind (fun maybeMessage => ?_)
  cases maybeMessage with
  | none => exact (Call.keeps_read _).bind (fun _ => (Call.keeps_lift _).bind (fun _ => Call.keeps_pure _))
  | some m =>
    have hwrite : Call.Keeps (fun buffer : Bytes => buffer.length = room) (WireState.serializeMessage m) := by
      intro buffer hbuffer
      have hlen := toSlice_target_length m buffer
      unfold WireState.serializeMessage
      split
      all_goals
        rename_i hslice
        rw [hslice] at hlen
        exact hlen.trans hbuffer
    refine Call.Keeps.bind (hwrite.field (fun _ hs => hs) (fun _ _ _ hbuffer => hbuffer)) (fun wrote => ?_)
    refine (Call.keeps_read _).bind (fun st => (Call.keeps_lift _).bind (fun w => ?_))
    exact Call.Keeps.bind (fun _ hs => hs) (fun _ => (Call.keeps_lift _).bind (fun _ => Call.keeps_pure _))

variable (D) in
/-- What there was of the writer has gone out. -/
def WentOut (espNow : EspNow) (writer : Option (WireWriter E)) (packets : List Bytes) : Prop :=
  (writer = none ∧ packets = []) ∨
    ∃ w, writer = some w ∧ broadcastPackets D espNow.send w.packetCount w = .ok packets

/-- What a pass that goes well has done: it has stopped at an error of the packet, or it has polled, and sent the
packets of the writer that it got. -/
theorem networkLoop_ok {device : WireState maxChannels maxNodes maxResponse A D × Bytes}
    (h : networkLoop espNow received now peerCount channelId client (st,buffer) = (.ok packets,device)) :
    (∃ e st1, receiveData received client st = (.err e,st1) ∧ packets = [] ∧ device = (st1,buffer)) ∨
    ∃ st1 result, receiveData received client st = (.ok (),st1) ∧
      WireState.poll now peerCount [channelId] repairCount client (st1,buffer) = (.ok result,device) ∧
        WentOut D espNow result.writer packets := by
  unfold networkLoop at h
  dsimp only at h
  by_cases hpeer : received.isSome = true ∧ ¬espNow.addPeer = true
  · rw [if_pos hpeer] at h
    cases h
  rw [if_neg hpeer] at h
  rcases hreceived : receiveData received client st with ⟨_ | e | _,st1⟩
  all_goals
    rw [hreceived] at h
    dsimp only at h
  rotate_left
  · cases h
    exact Or.inl ⟨e,_,rfl,rfl,rfl⟩
  · cases h
  by_cases hcount : espNow.peerCount = true
  rotate_left
  · rw [if_neg hcount] at h
    cases h
  rw [if_pos hcount] at h
  rcases hpoll : (WireState.poll now peerCount [channelId] repairCount client (st1,buffer) :
      Outcome WireError (PollResult E) × _) with ⟨result | e | _,s⟩
  all_goals
    rw [hpoll] at h
    dsimp only at h
  · obtain ⟨hout,rfl⟩ : WentOut D espNow result.writer packets ∧ device = s := by
      cases hwriter : result.writer with
      | none =>
        rw [hwriter] at h
        cases h
        exact ⟨Or.inl ⟨rfl,rfl⟩,rfl⟩
      | some w =>
        rw [hwriter] at h
        obtain ⟨hpackets,rfl⟩ := Prod.mk.inj h
        exact ⟨Or.inr ⟨w,rfl,hpackets⟩,rfl⟩
    exact Or.inr ⟨st1,result,rfl,hpoll,hout⟩
  · cases h
  · cases h

/-- A pass that goes well. -/
theorem networkLoop_ends (hmtu : (receiveData received client st).2.mtu = espNowMtu)
    (h : networkLoop espNow received now peerCount channelId client (st,buffer) = (.ok packets,(st',buffer'))) :
    Ends now peerCount channelId client (receiveData received client st).2
        (takenBy received now peerCount channelId client st) packets st' ∧ buffer'.length = buffer.length := by
  unfold takenBy
  rcases networkLoop_ok h with ⟨e,st1,hreceive,rfl,hsame⟩ | ⟨st1,result,hreceive,hpolled,hout⟩
  · cases hsame
    rw [hreceive]
    exact ⟨.quiet,rfl⟩
  rw [hreceive] at hmtu ⊢
  dsimp only at hmtu ⊢
  have hroom := WireState.poll_room E now peerCount client [channelId]
    (st1,buffer) rfl
  rw [hpolled] at hroom
  have hcut : ∀ number data (w : WireWriter E), WireWriter.new D number st1.mtu data repairCount = .ok w →
      result.writer = some w → CutInto D number data packets := by
    intro number data w hw hwriter
    rcases hout with ⟨hno,_⟩ | ⟨w',hwriter',hpackets⟩
    · cases hno.symm.trans hwriter
    · cases hwriter'.symm.trans hwriter
      rw [hmtu] at hw
      exact ⟨w,hw,broadcastPackets_sent hpackets⟩
  have hsent : ∀ m st2, WireState.takeMessage now peerCount [channelId] client st1 = (.ok (some m),st2) →
      st2.nextMessageNumber = st1.nextMessageNumber → st2.mtu = st1.mtu →
        CutInto D st1.nextMessageNumber (toBytes m) packets ∧
          st' = { st2 with nextMessageNumber := st2.nextMessageNumber+1 } ∧ buffer'.length = buffer.length := by
    intro m st2 htake hnumber hsame
    by_cases hfits : (toBytes m).length ≤ buffer.length
    · rcases WireState.poll_sends (E := E) repairCount htake hfits with
        ⟨_,_,w,nextPoll,buffer2,hw,_,hpoll⟩ | ⟨_,last,_,hpoll⟩
      · rw [hnumber,hsame] at hw
        rw [hpolled] at hpoll
        simp only [Prod.mk.injEq,Outcome.ok.injEq] at hpoll
        obtain ⟨hresult,rfl,rfl⟩ := hpoll
        exact ⟨hcut _ _ w hw (by rw [hresult]),rfl,hroom⟩
      · rw [hpolled] at hpoll
        cases hpoll
    · obtain ⟨buffer2,hpoll⟩ := WireState.poll_full (E := E) repairCount htake (not_le.mp hfits)
      rw [hpolled] at hpoll
      cases hpoll
  rcases WireState.takeMessage_cases now peerCount [channelId] client st1 with ⟨m,hpending,htake⟩ |
    ⟨hnone,hlater,htake⟩ | ⟨hnone,hdue,nextHello,m,hnext,hmake,htake⟩ | ⟨_,_,last,_,_,htake⟩
  · obtain ⟨hpackets,rfl,hlen⟩ := hsent m _ htake rfl rfl
    rw [htake]
    exact ⟨.waiting m packets hpending hpackets,hlen⟩
  · have hidle := hpolled.symm.trans (WireState.poll_idle hnone hlater)
    simp only [Prod.mk.injEq,Outcome.ok.injEq] at hidle
    obtain ⟨hresult,rfl,rfl⟩ := hidle
    rw [hresult] at hout
    obtain ⟨_,rfl⟩ | ⟨w,hwriter,_⟩ := hout
    · rw [htake]
      exact ⟨.quiet,rfl⟩
    · cases hwriter
  · obtain ⟨hpackets,rfl,hlen⟩ := hsent m _ htake rfl rfl
    rw [htake]
    exact ⟨.hello m packets nextHello hnone hdue hnext hmake hpackets,hlen⟩
  · rw [WireState.poll_panic htake] at hpolled
    cases hpolled

omit [DecidableEq A] [Target] [Postcard (NetworkProtocol maxChannels maxNodes maxResponse)] in
variable (maxResponse) in
/-- A hello names the one channel of the device. -/
theorem makeHello_ok {ch : Channel maxNodes slabSize C P} (peerCount : UInt8) (hroom : 0 < maxChannels)
    (hget : client.channels.get channelId = some ch) :
    ∃ infos : HVec ChannelInfo maxChannels, infos.toList = [⟨channelId,ch.chat.messageCount⟩] ∧
      (WireState.makeHello peerCount [channelId] client :
        Outcome WireError (NetworkProtocol maxChannels maxNodes maxResponse)) =
          .ok (.hello client.nodeId peerCount infos) := by
  have hcount : client.messageCount channelId = .ok ch.chat.messageCount := by
    simp [Client.messageCount,Client.channel,hget]
  obtain ⟨infos,hinfos⟩ : ∃ infos : HVec ChannelInfo maxChannels, infos.toList = [⟨channelId,ch.chat.messageCount⟩] :=
    ⟨⟨[⟨channelId,ch.chat.messageCount⟩],hroom⟩,rfl⟩
  have hpush : (HVec.empty : HVec ChannelInfo maxChannels).push ⟨channelId,ch.chat.messageCount⟩ = some infos :=
    HVec.push_eq_some.mpr hinfos
  refine ⟨infos,hinfos,?_⟩
  simp only [WireState.makeHello,WireState.helloInfos,hcount,Outcome.value,Outcome.orPanic_some,Outcome.ok_bind,hpush]

/-- A pass returns where the driver's calls succeed, reading the radio did not panic, the clock is not at its end, and
what is to be sent fits. -/
theorem networkLoop_returns {E D : Type} [RadioRaptorq E D] {st : WireState maxChannels maxNodes maxResponse A D}
    {ch : Channel maxNodes slabSize C P} (buffer : Bytes) (hdriver : espNow.Succeeds) (hreceive : (receiveData received client st).1 ≠ .panic)
    (hmtu : (receiveData received client st).2.mtu = espNowMtu)
    (hclock : now.val+(receiveData received client st).2.helloDuration.val < 2^64) (hroom : 0 < maxChannels)
    (hget : client.channels.get channelId = some ch)
    (hfits : ∀ m, takenBy received now peerCount channelId client st = some m →
      Codable (toBytes m) (espNowMtu.val-6) ∧ (toBytes m).length ≤ buffer.length) :
    ∃ packets s', networkLoop espNow received now peerCount channelId client (st,buffer) = (.ok packets,s') := by
  obtain ⟨hpeer,hcount,hsend⟩ := hdriver
  have hsends : espNow.send = fun _ => true := funext hsend
  unfold takenBy at hfits
  unfold networkLoop
  dsimp only
  rw [if_neg (fun h => h.2 hpeer)]
  rcases hreceived : receiveData received client st with ⟨_ | e | _,st1⟩
  all_goals
    rw [hreceived] at hreceive hmtu hclock hfits
    dsimp only at hreceive hmtu hclock hfits ⊢
  rotate_left
  · exact ⟨_,_,rfl⟩
  · exact absurd rfl hreceive
  rw [if_pos hcount]
  have hcuts : ∀ m (st2 : WireState maxChannels maxNodes maxResponse A D),
      WireState.takeMessage now peerCount [channelId] client st1 = (.ok (some m),st2) → st2.mtu = st1.mtu →
        st2.helloDuration = st1.helloDuration →
          ∃ nextPoll w packets s', WireState.poll now peerCount [channelId] repairCount client (st1,buffer) =
            (.ok (⟨nextPoll,some w⟩ : PollResult E),s') ∧ broadcastPackets D espNow.send w.packetCount w = .ok packets := by
    intro m st2 htake hsame hduration
    rw [htake] at hfits
    obtain ⟨hcodable,hlen⟩ := hfits m rfl
    rcases WireState.poll_sends (E := E) repairCount htake hlen with
      ⟨_,_,w,nextPoll,buffer2,hw,_,hpoll⟩ | ⟨hno,_⟩
    · rw [hsame,hmtu] at hw
      obtain ⟨packets,hpackets,_⟩ := broadcastPackets_new hcodable hw
      rw [←hsends] at hpackets
      exact ⟨nextPoll,w,packets,_,hpoll,hpackets⟩
    · refine absurd ⟨?_,by rw [hduration]; omega⟩ hno
      rw [hsame,hmtu]
      exact .of_codable hcodable
  rcases WireState.takeMessage_cases now peerCount [channelId] client st1 with ⟨m,_,htake⟩ | ⟨hnone,hlater,_⟩ |
    ⟨_,_,_,m,_,_,htake⟩ | ⟨_,_,_,_,hstuck,_⟩
  · obtain ⟨nextPoll,w,packets,s',hpoll,hpackets⟩ := hcuts m _ htake rfl rfl
    rw [hpoll]
    exact ⟨packets,s',by simp only [hpackets]⟩
  · rw [WireState.poll_idle hnone hlater]
    exact ⟨_,_,rfl⟩
  · obtain ⟨nextPoll,w,packets,s',hpoll,hpackets⟩ := hcuts m _ htake rfl rfl
    rw [hpoll]
    exact ⟨packets,s',by simp only [hpackets]⟩
  · obtain ⟨infos,_,hmake⟩ := makeHello_ok maxResponse peerCount hroom hget
    rw [hstuck hclock] at hmake
    cases hmake

end Loop

end Finder
