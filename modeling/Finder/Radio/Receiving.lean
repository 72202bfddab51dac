import Finder.Protocol.PlainBlocks
import Finder.Radio.Packets
import Finder.Sync.Clocks

namespace Finder

variable {maxChannels maxNodes maxResponse slabSize : Nat} {A E D C P S : Type}

namespace WireState

variable {client : Client maxChannels maxNodes slabSize C P S} {channelId : ChannelId}

section Messages

variable {st : WireState maxChannels maxNodes maxResponse A D} {ch : Channel maxNodes slabSize C P}

theorem requestChannel_pending (h : st.toSend.isSome) : requestChannel channelId client st = (.ok (),st) := by
  have hno : ¬st.toSend.isNone = true := by simp [Option.isNone_iff_eq_none,Option.isSome_iff_ne_none.mp h]
  unfold requestChannel
  rw [Call.bind_ok (a := st.toSend) (t := st) (by simp),if_neg hno]
  rfl

/-- A request is what the client makes of an empty one, and takes a session id in any case. -/
theorem makeSyncRequest_eq {outcome : Outcome ClientError Unit} {request : SyncRequest maxNodes}
    (hfinish : client.finishSyncRequest channelId ⟨st.nextSessionId,st.bytesBudget,HVec.empty⟩ = (outcome,request)) :
    makeSyncRequest channelId client st = ((outcome.mapErr .clientError).bind (fun _ => .ok (.syncRequest request)),
      { st with nextSessionId := st.nextSessionId+1 }) := by
  unfold makeSyncRequest
  rw [Call.bind_ok (a := ⟨st.nextSessionId,st.bytesBudget,HVec.empty⟩) (t := st) (by simp),
    Call.bind_ok (a := ()) (t := { st with nextSessionId := st.nextSessionId+1 }) (by simp),hfinish]
  cases outcome <;> rfl

/-- A channel that the client holds is asked for with its clocks. -/
theorem requestChannel_held (hnone : st.toSend = none) (hget : client.channels.get channelId = some ch) :
    ∃ request : SyncRequest maxNodes, request.vectorClock.toList = ch.state.listNodes.map NodeSequence.clock ∧
      requestChannel channelId client st = (.ok (),{ st with
        nextSessionId := st.nextSessionId+1
        toSend := some (.syncRequest request) }) := by
  obtain ⟨clocks,hclocks,hfinish⟩ := finishSyncRequest_ok hget ⟨st.nextSessionId,st.bytesBudget,HVec.empty⟩
  refine ⟨⟨st.nextSessionId,st.bytesBudget,clocks⟩,hclocks,?_⟩
  have hmake : makeSyncRequest channelId client st =
      (.ok (.syncRequest ⟨st.nextSessionId,st.bytesBudget,clocks⟩),
        { st with nextSessionId := st.nextSessionId+1 }) := makeSyncRequest_eq hfinish
  unfold requestChannel
  rw [Call.bind_ok (a := st.toSend) (t := st) (by simp),if_pos (by simp [hnone]),Call.bind_ok hmake]
  rfl

/-- An unknown channel ends the hello with an error. -/
theorem requestChannel_unknown (hnone : st.toSend = none) (hget : client.channels.get channelId = none) :
    requestChannel channelId client st = (.err (.clientError .unknownChannel),
      { st with nextSessionId := st.nextSessionId+1 }) := by
  have hfinish : client.finishSyncRequest channelId ⟨st.nextSessionId,st.bytesBudget,HVec.empty⟩ =
      (.err .unknownChannel,⟨st.nextSessionId,st.bytesBudget,HVec.empty⟩) :=
    Call.bind_err (by simp [Client.channel,hget])
  have hmake : makeSyncRequest channelId client st = (.err (.clientError .unknownChannel),
      { st with nextSessionId := st.nextSessionId+1 }) := makeSyncRequest_eq hfinish
  unfold requestChannel
  rw [Call.bind_ok (a := st.toSend) (t := st) (by simp),if_pos (by simp [hnone]),Call.bind_err hmake]

/-- The loop asks for the first channel, and goes on where that was answered. -/
theorem processInfos_cons (info : ChannelInfo) (infos : List ChannelInfo) :
    processInfos client (info::infos) = ((do
      requestChannel info.channelId client
      processInfos client infos) : Call (WireState maxChannels maxNodes maxResponse A D) WireError Unit) := by
  rw [processInfos]
  cases hget : client.channels.get info.channelId with
  | none => simp [Client.messageCount,Client.channel,hget]
  | some ch => simp [Client.messageCount,Client.channel,hget]

theorem processInfos_pending (h : st.toSend.isSome) (infos : List ChannelInfo) :
    processInfos client infos st = (.ok (),st) := by
  induction infos with
  | nil => rfl
  | cons info infos ih =>
    rw [processInfos_cons,Call.bind_ok (requestChannel_pending h)]
    exact ih

variable {infos : List ChannelInfo}

theorem processInfos_unknown {info : ChannelInfo} (hnone : st.toSend = none)
    (hget : client.channels.get info.channelId = none) :
    processInfos client (info::infos) st = (.err (.clientError .unknownChannel),
      { st with nextSessionId := st.nextSessionId+1 }) := by
  rw [processInfos_cons,Call.bind_err (requestChannel_unknown hnone hget)]

theorem processInfos_held {info : ChannelInfo} (infos : List ChannelInfo) (hnone : st.toSend = none)
    (hget : client.channels.get info.channelId = some ch) :
    ∃ request : SyncRequest maxNodes, request.vectorClock.toList = ch.state.listNodes.map NodeSequence.clock ∧
      processInfos client (info::infos) st = (.ok (),{ st with
        nextSessionId := st.nextSessionId+1
        toSend := some (.syncRequest request) }) := by
  obtain ⟨request,hclocks,hrequest⟩ := requestChannel_held hnone hget
  refine ⟨request,hclocks,?_⟩
  rw [processInfos_cons,Call.bind_ok hrequest]
  exact processInfos_pending rfl infos

/-- All that processing a message can do: nothing, an error at the first channel of a hello, or a request for it. -/
theorem processMessage_cases (message : NetworkProtocol maxChannels maxNodes maxResponse)
    (client : Client maxChannels maxNodes slabSize C P S) (st : WireState maxChannels maxNodes maxResponse A D) :
    processMessage message client st = (.ok (),st) ∨
    processMessage message client st = (.err (.clientError .unknownChannel),
      { st with nextSessionId := st.nextSessionId+1 }) ∨
    st.toSend = none ∧ ∃ request : SyncRequest maxNodes, processMessage message client st = (.ok (),{ st with
      nextSessionId := st.nextSessionId+1
      toSend := some (.syncRequest request) }) := by
  cases message with
  | syncRequest request => exact Or.inl rfl
  | syncResponse response => exact Or.inl rfl
  | hello pubKeyId peerCount channelInfo =>
    rw [processMessage]
    by_cases hsend : st.toSend.isSome
    · exact Or.inl (processInfos_pending hsend _)
    have hnone : st.toSend = none := Option.not_isSome_iff_eq_none.mp hsend
    cases channelInfo.toList with
    | nil => exact Or.inl rfl
    | cons info infos =>
      cases hget : client.channels.get info.channelId with
      | none => exact Or.inr (Or.inl (processInfos_unknown hnone hget))
      | some ch =>
        obtain ⟨request,_,hrun⟩ := processInfos_held infos hnone hget
        exact Or.inr (Or.inr ⟨hnone,request,hrun⟩)

theorem processMessage_returns (message : NetworkProtocol maxChannels maxNodes maxResponse) :
    Call.Returns (processMessage message client :
      Call (WireState maxChannels maxNodes maxResponse A D) WireError Unit) := by
  intro st
  rcases processMessage_cases message client st with h | h | ⟨_,request,h⟩
  all_goals
    rw [h]
    exact fun hpanic => (by cases hpanic)

/-- A message has nothing to do with the receivers. -/
theorem processMessage_keeps {receivers : FnvIndexMap A (Receiver D) maxNodes} {mtu : U16}
    (message : NetworkProtocol maxChannels maxNodes maxResponse) :
    Call.Keeps (fun st : WireState maxChannels maxNodes maxResponse A D => st.receivers = receivers ∧ st.mtu = mtu)
      (processMessage message client) := by
  intro st hst
  rcases processMessage_cases message client st with h | h | ⟨_,request,h⟩
  all_goals
    rw [h]
    exact hst

end Messages

variable [DecidableEq A] {st st' : WireState maxChannels maxNodes maxResponse A D} {sender : A} {data : Bytes}

/-- The sender has an entry, or there is room for one. -/
def Admits (st : WireState maxChannels maxNodes maxResponse A D) (sender : A) : Prop :=
  st.receivers.containsKey sender = true ∨ st.receivers.entries.length < maxNodes

/-- The entry of a sender, a new one where it has none. -/
def entryOf (st : WireState maxChannels maxNodes maxResponse A D) (sender : A) : Receiver D :=
  (st.receivers.get sender).getD ⟨none,none⟩

/-- The entry of the sender is this one from then on, and the others are as they were. -/
structure Enters (st st' : WireState maxChannels maxNodes maxResponse A D) (sender : A) (r : Receiver D) : Prop where
  entries : ∀ a, st'.receivers.get a = if a = sender then some r else st.receivers.get a
  mtu : st'.mtu = st.mtu
  keys : st.receivers.keys.Nodup → st'.receivers.keys.Nodup

theorem receiveInfo_ok (h : st.Admits sender) :
    ∃ st', receiveInfo sender st = (.ok true,st') ∧ st.Enters st' sender (st.entryOf sender) := by
  cases hget : st.receivers.get sender with
  | some r =>
    refine ⟨st,by simp only [receiveInfo,hget],fun a => ?_,rfl,id⟩
    split_ifs with ha
    · rw [ha,hget,entryOf,hget]
      rfl
    · rfl
  | none =>
    have hnew : st.receivers.insert sender ⟨none,none⟩ ≠ none := by
      intro hfull
      have hno := FnvIndexMap.insert_eq_none.mp hfull
      rcases h with hin | hroom
      · rw [hno.1] at hin
        cases hin
      · exact absurd hno.2 (not_le.mpr hroom)
    obtain ⟨receivers,hinsert⟩ := Option.ne_none_iff_exists'.mp hnew
    refine ⟨{ st with receivers := receivers },by simp only [receiveInfo,hget,hinsert],fun a => ?_,rfl,
      FnvIndexMap.insert_nodup hinsert⟩
    rw [FnvIndexMap.insert_get hinsert,entryOf,hget]
    rfl

theorem receiveInfo_full (h : ¬st.Admits sender) : receiveInfo sender st = (.ok false,st) := by
  have hno := not_or.mp h
  have hget : st.receivers.get sender = none := by
    simpa [FnvIndexMap.containsKey] using hno.1
  have hfull : st.receivers.insert sender ⟨none,none⟩ = none :=
    FnvIndexMap.insert_eq_none.mpr ⟨by simp [FnvIndexMap.containsKey,hget],by omega⟩
  simp only [receiveInfo,hget,hfull]

theorem onReceiver_eq {α : Type} {r : Receiver D} (hget : st.receivers.get sender = some r)
    (x : Call (Receiver D) WireError α) :
    onReceiver sender x st = ((x r).1,{ st with receivers := st.receivers.set sender (x r).2 }) :=
  Call.borrow_ok (by simp [hget])

theorem Enters.onReceiver {r r' : Receiver D} (h : st.Enters st' sender r) :
    st.Enters { st' with receivers := st'.receivers.set sender r' } sender r' := by
  have hself : st'.receivers.get sender = some r := by rw [h.entries,if_pos rfl]
  refine ⟨fun a => ?_,h.mtu,fun hkeys => ?_⟩
  · change (st'.receivers.set sender r').get a = _
    rw [FnvIndexMap.set_get,hself]
    split_ifs with ha
    · rfl
    · rw [h.entries,if_neg ha]
  · change (st'.receivers.set sender r').keys.Nodup
    rw [FnvIndexMap.keys,FnvIndexMap.set,FnvIndexMap.replace_keys]
    exact h.keys hkeys

variable [Target] [Raptorq E D]

section Decode

theorem decodePacket_unchecked {e : WireError} (h : WireReader.checkPacket data = .err e) :
    decodePacket data sender st = (.ok none,st) := by
  simp only [decodePacket,h]

theorem decodePacket_full {number : U16} (h : WireReader.checkPacket data = .ok number) (hfull : ¬st.Admits sender) :
    decodePacket data sender st = (.ok none,st) := by
  simp only [decodePacket,h]
  rw [Call.bind_ok (receiveInfo_full hfull)]
  rfl

/-- The packet goes to the entry of its sender. -/
theorem decodePacket_admitted {number : U16} (h : WireReader.checkPacket data = .ok number)
    (hadmits : st.Admits sender) :
    ∃ st', st.Enters st' sender (Receiver.accept number data st.mtu (st.entryOf sender)).2 ∧
      decodePacket data sender st =
        ((Receiver.accept number data st.mtu (st.entryOf sender)).1 >>= (fun result =>
          .ok (result.map (fun value => (number,value)))),st') := by
  obtain ⟨st1,hinfo,henters⟩ := receiveInfo_ok hadmits
  have hself : st1.receivers.get sender = some (st.entryOf sender) := by rw [henters.entries,if_pos rfl]
  have hon := onReceiver_eq hself (Receiver.accept number data st.mtu)
  refine ⟨_,henters.onReceiver,?_⟩
  simp only [decodePacket,h]
  rw [Call.bind_ok hinfo]
  rcases haccept : Receiver.accept number data st.mtu (st.entryOf sender) with ⟨result | e | _,r⟩
  all_goals rw [haccept] at hon
  · exact Call.bind_ok hon
  · exact Call.bind_err hon
  · exact Call.bind_panic hon

end Decode

variable [Postcard (NetworkProtocol maxChannels maxNodes maxResponse)]

variable (maxChannels maxNodes maxResponse) in
/-- The bytes are those of a message. -/
def Parses (value : Bytes) : Prop :=
  ∃ command : NetworkProtocol maxChannels maxNodes maxResponse, fromBytes value = .ok command

omit [DecidableEq A] [Target] [Raptorq E D] in
theorem parseMessage_ok {value : Bytes} (h : Parses maxChannels maxNodes maxResponse value) :
    ∃ command : NetworkProtocol maxChannels maxNodes maxResponse, parseMessage value = .ok command := by
  obtain ⟨command,hcommand⟩ := h
  exact ⟨command,by simp only [parseMessage,hcommand]⟩

omit [DecidableEq A] [Target] [Raptorq E D] in
theorem parseMessage_panic {value : Bytes} (h : ¬Parses maxChannels maxNodes maxResponse value) :
    (parseMessage value : Outcome WireError (NetworkProtocol maxChannels maxNodes maxResponse)) = .panic := by
  unfold parseMessage
  split
  · rename_i command hcommand
    exact absurd ⟨command,hcommand⟩ h
  · rfl

section Receive

theorem receivePacket_nothing {st' : WireState maxChannels maxNodes maxResponse A D}
    (h : decodePacket data sender st = (.ok none,st')) : receivePacket data sender client st = (.ok (),st') :=
  Call.bind_ok h

theorem receivePacket_panic {st' : WireState maxChannels maxNodes maxResponse A D}
    (h : decodePacket data sender st = (.panic,st')) : receivePacket data sender client st = (.panic,st') :=
  Call.bind_panic h

theorem receivePacket_unparsed {number : U16} {value : Bytes}
    (h : decodePacket data sender st = (.ok (some (number,value)),st'))
    (hno : ¬Parses maxChannels maxNodes maxResponse value) :
    receivePacket data sender client st = (.panic,st') := by
  rw [receivePacket,Call.bind_ok h]
  exact Call.bind_panic (by simp [parseMessage_panic hno])

/-- A value that is a message is counted as completed and processed. -/
theorem receivePacket_processes {number : U16} {value : Bytes} {r : Receiver D}
    {command : NetworkProtocol maxChannels maxNodes maxResponse}
    (h : decodePacket data sender st = (.ok (some (number,value)),st')) (hself : st'.receivers.get sender = some r)
    (hcommand : parseMessage value = .ok command) :
    receivePacket data sender client st = processMessage command client
      { st' with receivers := st'.receivers.set sender { r with lastCompleted := some number } } := by
  have hon := onReceiver_eq hself (Call.modify (fun r => { r with lastCompleted := some number }) :
    Call (Receiver D) WireError Unit)
  rw [receivePacket,Call.bind_ok h]
  dsimp only
  rw [Call.bind_ok (a := command) (t := st') (by simp [hcommand]),Call.bind_ok hon]
  rfl

theorem receivePacket_parsed {number : U16} {value : Bytes} {r : Receiver D}
    (h : decodePacket data sender st = (.ok (some (number,value)),st')) (henters : st.Enters st' sender r)
    (hparses : Parses maxChannels maxNodes maxResponse value) :
    (receivePacket data sender client st).1 ≠ .panic ∧
      st.Enters (receivePacket data sender client st).2 sender { r with lastCompleted := some number } := by
  obtain ⟨command,hcommand⟩ := parseMessage_ok hparses
  have hself : st'.receivers.get sender = some r := by rw [henters.entries,if_pos rfl]
  have hdone : st.Enters { st' with receivers := st'.receivers.set sender { r with lastCompleted := some number } }
      sender { r with lastCompleted := some number } := henters.onReceiver
  have hrun : receivePacket data sender client st = processMessage command client
      { st' with receivers := st'.receivers.set sender { r with lastCompleted := some number } } :=
    receivePacket_processes h hself hcommand
  obtain ⟨last,hlast⟩ : ∃ last, last =
      { st' with receivers := st'.receivers.set sender { r with lastCompleted := some number } } := ⟨_,rfl⟩
  have hkept : (processMessage command client last).2.receivers = last.receivers ∧
      (processMessage command client last).2.mtu = last.mtu := processMessage_keeps command last ⟨rfl,rfl⟩
  rw [←hlast] at hrun hdone
  rw [hrun]
  refine ⟨processMessage_returns command _,fun a => ?_,?_,fun hkeys => ?_⟩
  · rw [hkept.1]
    exact hdone.entries a
  · rw [hkept.2]
    exact hdone.mtu
  · rw [hkept.1]
    exact hdone.keys hkeys

/-- What a packet leaves as it is. It may bring a request, where nothing waits to be sent. -/
structure Received (st st' : WireState maxChannels maxNodes maxResponse A D) : Prop where
  mtu : st'.mtu = st.mtu
  helloDuration : st'.helloDuration = st.helloDuration
  toSend : st'.toSend = st.toSend ∨
    st.toSend = none ∧ ∃ request : SyncRequest maxNodes, st'.toSend = some (.syncRequest request)

omit [DecidableEq A] [Target] [Raptorq E D] [Postcard (NetworkProtocol maxChannels maxNodes maxResponse)] in
theorem processMessage_received (message : NetworkProtocol maxChannels maxNodes maxResponse) :
    Call.Keeps (Received st) (processMessage message client) := by
  intro s hs
  rcases processMessage_cases message client s with h | h | ⟨hnone,request,h⟩
  · rw [h]
    exact hs
  · rw [h]
    exact ⟨hs.mtu,hs.helloDuration,hs.toSend⟩
  · rw [h]
    refine ⟨hs.mtu,hs.helloDuration,Or.inr ⟨?_,request,rfl⟩⟩
    rcases hs.toSend with hsame | ⟨hempty,_⟩
    · rw [←hsame,hnone]
    · exact hempty

omit [Postcard (NetworkProtocol maxChannels maxNodes maxResponse)] in
theorem decodePacket_received : Call.Keeps (Received st) (decodePacket data sender) := by
  intro s hs
  have hinfo : Call.Keeps (Received st) (receiveInfo sender) := by
    intro s hs
    unfold receiveInfo
    split
    · exact hs
    · split
      · exact hs
      · exact ⟨hs.mtu,hs.helloDuration,hs.toSend⟩
  have hreceiver : ∀ x : Call (Receiver D) WireError (Option Bytes), Call.Keeps (Received st) (onReceiver sender x) :=
    fun x => Call.Keeps.borrow (J := fun _ => True) (fun _ _ => trivial) (fun _ _ _ _ => trivial)
      (fun _ _ hs _ => ⟨hs.mtu,hs.helloDuration,hs.toSend⟩)
  unfold decodePacket
  split
  · exact hs
  · exact hs
  · refine hinfo.bind (fun admitted => ?_) s hs
    split_ifs
    · exact (hreceiver _).bind (fun _ => Call.keeps_pure _)
    · exact Call.keeps_pure _

theorem receivePacket_received : Received st (receivePacket data sender client st).2 := by
  refine decodePacket_received.bind (fun result => ?_) st ⟨rfl,rfl,Or.inl rfl⟩
  cases result with
  | none => exact Call.keeps_pure _
  | some p =>
    refine (Call.keeps_lift _).bind (fun command => Call.Keeps.bind ?_ (fun _ => processMessage_received command))
    exact Call.Keeps.borrow (J := fun _ => True) (fun _ _ => trivial) (fun _ _ _ _ => trivial)
      (fun _ _ hs _ => ⟨hs.mtu,hs.helloDuration,hs.toSend⟩)

end Receive

/-- A packet that gets as far as a decoder is long enough to be read, the decoder of its block is there or can be made
and takes it, and what it completes is a message. -/
def Survives (st : WireState maxChannels maxNodes maxResponse A D) (data : Bytes) (sender : A) : Prop :=
  ∀ p, packetParts data = some p → st.Admits sender → (st.entryOf sender).lastCompleted ≠ some p.number →
    10 ≤ data.length ∧
    ((∃ reader, (st.entryOf sender).reader = some reader ∧ reader.At p) ∨ p.Starts D st.mtu) ∧
    ∀ packet, Raptorq.deserialize D p.payload = some packet →
      Raptorq.takes packet ((st.entryOf sender).readerFor p st.mtu).decoder = true ∧
      ∀ value, (Raptorq.decode packet ((st.entryOf sender).readerFor p st.mtu).decoder).1 = some value →
        Parses maxChannels maxNodes maxResponse value

end WireState

namespace WireState

variable [DecidableEq A] {st st' : WireState maxChannels maxNodes maxResponse A D} {sender : A} {data : Bytes}
  [Target] [LawfulRaptorq E D] [Postcard (NetworkProtocol maxChannels maxNodes maxResponse)]
  {client : Client maxChannels maxNodes slabSize C P S}

omit [Target] in
/-- A packet that gets as far as a decoder. -/
theorem survives_iff {p : PacketParts} (hp : packetParts data = some p) (hadmits : st.Admits sender)
    (hlast : (st.entryOf sender).lastCompleted ≠ some p.number) :
    st.Survives data sender ↔ ∃ packet, (st.entryOf sender).Takes p st.mtu packet ∧
      ∀ value, (Raptorq.decode packet ((st.entryOf sender).readerFor p st.mtu).decoder).1 = some value →
        Parses maxChannels maxNodes maxResponse value := by
  obtain ⟨hlen,_,hparts⟩ := packetParts_eq_some hp
  have hpayload : p.payload.length = data.length-6 := by rw [hparts,List.length_drop]
  constructor
  · intro h
    obtain ⟨hlong,hopens,hall⟩ := h p hp hadmits hlast
    have hsome : Raptorq.deserialize D p.payload ≠ none := fun hnone => by
      have hshort := (LawfulRaptorq.deserialize_eq_none p.payload).mp hnone
      omega
    obtain ⟨packet,hpacket⟩ := Option.ne_none_iff_exists'.mp hsome
    exact ⟨packet,⟨hpacket,hopens,(hall packet hpacket).1⟩,(hall packet hpacket).2⟩
  · rintro ⟨packet,htakes,hparses⟩ p' hp' _ _
    rw [hp] at hp'
    cases hp'
    have hlong : ¬p.payload.length < 4 := by
      intro hshort
      have hnone := (LawfulRaptorq.deserialize_eq_none (D := D) p.payload).mpr hshort
      rw [htakes.reads] at hnone
      cases hnone
    refine ⟨by omega,htakes.opens,fun packet' hpacket' => ?_⟩
    rw [htakes.reads] at hpacket'
    cases hpacket'
    exact ⟨htakes.takes,hparses⟩

/-- A packet crashes the receiver exactly where it does not survive. -/
theorem receivePacket_panics_iff :
    (receivePacket data sender client st).1 = .panic ↔ ¬st.Survives data sender := by
  by_cases hchecked : 4 ≤ data.length ∧ Labelled data
  swap
  · obtain ⟨e,he⟩ := checkPacket_err hchecked
    rw [receivePacket_nothing (decodePacket_unchecked he)]
    refine iff_of_false (fun h => (by cases h)) (not_not.mpr (fun p hp => ?_))
    obtain ⟨hlen,hlabel,_⟩ := packetParts_eq_some hp
    exact absurd ⟨by omega,hlabel⟩ hchecked
  have hnumber := checkPacket_ok hchecked.1 hchecked.2
  by_cases hadmits : st.Admits sender
  swap
  · rw [receivePacket_nothing (decodePacket_full hnumber hadmits)]
    exact iff_of_false (fun h => (by cases h)) (not_not.mpr (fun p hp hin => absurd hin hadmits))
  obtain ⟨st',henters,hdecode⟩ := decodePacket_admitted hnumber hadmits
  by_cases hlast : (st.entryOf sender).lastCompleted = some (wordAt data 2)
  · rw [Receiver.accept_completed hlast] at hdecode
    rw [receivePacket_nothing hdecode]
    refine iff_of_false (fun h => (by cases h)) (not_not.mpr (fun p hp _ hno => ?_))
    obtain ⟨_,_,rfl⟩ := packetParts_eq_some hp
    exact absurd hlast hno
  cases hp : packetParts data with
  | none =>
    rw [Receiver.accept_refused hp] at hdecode
    rw [receivePacket_nothing hdecode]
    refine iff_of_false (fun h => (by cases h)) (not_not.mpr (fun p hp' => ?_))
    rw [hp] at hp'
    cases hp'
  | some p =>
    obtain ⟨_,_,hparts⟩ := packetParts_eq_some hp
    have hnew : (st.entryOf sender).lastCompleted ≠ some p.number := by
      rw [hparts]
      exact hlast
    rw [survives_iff hp hadmits hnew]
    rcases Receiver.accept_cases st.mtu hp hlast with ⟨packet,htakes,haccept⟩ | ⟨hno,r',_,haccept⟩
    · rw [haccept] at hdecode henters
      dsimp only [Receiver.decoded] at hdecode henters
      have honly : (∃ packet, (st.entryOf sender).Takes p st.mtu packet ∧
          ∀ value, (Raptorq.decode packet ((st.entryOf sender).readerFor p st.mtu).decoder).1 = some value →
            Parses maxChannels maxNodes maxResponse value) ↔
          ∀ value, (Raptorq.decode packet ((st.entryOf sender).readerFor p st.mtu).decoder).1 = some value →
            Parses maxChannels maxNodes maxResponse value := by
        refine ⟨fun ⟨packet',htakes',hparses⟩ => ?_,fun hparses => ⟨packet,htakes,hparses⟩⟩
        have hsame := htakes.reads.symm.trans htakes'.reads
        cases hsame
        exact hparses
      rw [honly]
      cases hvalue : (Raptorq.decode packet ((st.entryOf sender).readerFor p st.mtu).decoder).1 with
      | none =>
        rw [hvalue] at hdecode
        rw [receivePacket_nothing hdecode]
        exact iff_of_false (fun h => (by cases h)) (not_not.mpr (fun value h => (by cases h)))
      | some value =>
        rw [hvalue] at hdecode
        by_cases hparses : Parses maxChannels maxNodes maxResponse value
        · refine iff_of_false (receivePacket_parsed hdecode henters hparses).1 (not_not.mpr (fun value' h => ?_))
          cases h
          exact hparses
        · rw [receivePacket_unparsed hdecode hparses]
          exact iff_of_true rfl (fun h => hparses (h value rfl))
    · rw [haccept] at hdecode
      rw [receivePacket_panic hdecode]
      exact iff_of_true rfl (fun ⟨packet,htakes,_⟩ => hno packet htakes)

end WireState

section Runs

variable [DecidableEq A] [Target] [LawfulRaptorq E D] [Postcard (NetworkProtocol maxChannels maxNodes maxResponse)]
  {st : WireState maxChannels maxNodes maxResponse A D} {client : Client maxChannels maxNodes slabSize C P S}

/-- No packet of the run makes the receiver panic. -/
def NeverPanics (client : Client maxChannels maxNodes slabSize C P S) :
    List (A × Bytes) → WireState maxChannels maxNodes maxResponse A D → Prop
  | [],_ => True
  | (sender,data)::packets,st => (WireState.receivePacket data sender client st).1 ≠ .panic ∧
      NeverPanics client packets (WireState.receivePacket data sender client st).2

/-- Each packet of the run survives where it comes in. -/
def AllSurvive (client : Client maxChannels maxNodes slabSize C P S) :
    List (A × Bytes) → WireState maxChannels maxNodes maxResponse A D → Prop
  | [],_ => True
  | (sender,data)::packets,st => st.Survives data sender ∧
      AllSurvive client packets (WireState.receivePacket data sender client st).2

/-- The receive path never panics exactly where every packet that gets to a decoder has its payload id, its decoder can
be made and takes it, and every value that is decoded is a message. -/
theorem receivePackets_never_panic_iff (client : Client maxChannels maxNodes slabSize C P S)
    (packets : List (A × Bytes)) (st : WireState maxChannels maxNodes maxResponse A D) :
    NeverPanics client packets st ↔ AllSurvive client packets st := by
  induction packets generalizing st with
  | nil => exact Iff.rfl
  | cons packet packets ih =>
    obtain ⟨sender,data⟩ := packet
    have hstep : (WireState.receivePacket data sender client st).1 ≠ .panic ↔ st.Survives data sender := by
      rw [ne_eq,WireState.receivePacket_panics_iff,not_not]
    exact and_congr hstep (ih (WireState.receivePacket data sender client st).2)

end Runs

section Radio

open PlainCrypto

def radio : WireState 2 2 64 Nat BlockDecoder := WireState.new 250

def listener : Client 2 2 256 PlainCrypto U64 U64 := client 1

/-- A short message in the one packet that it takes, with its number among the first messages of a sender. -/
def packetOf (number : UInt8) (message : Bytes) : Bytes :=
  [0xf4,0xa9,number,0,UInt8.ofNat message.length,0,0,0,0,0] ++ BlockDecoder.symbol 240 message 0

/-- A packet that ends behind its header, one with a symbol too short for any decoder, and a message of one byte that is
none of the protocol. -/
theorem packets_panic : ¬NeverPanics listener [(7,[0xf4,0xa9,0,0,1,0])] radio ∧
    ¬NeverPanics listener [(7,[0xf4,0xa9,0,0,1,0,0,0,0,0,255])] radio ∧
    ¬NeverPanics listener [(7,packetOf 0 [255])] radio := by
  have hpanics : ∀ data : Bytes, (WireState.receivePacket data 7 listener radio).1.isPanic = true →
      ¬NeverPanics listener [(7,data)] radio := fun data hpanic h => h.1 (Outcome.isPanic_iff.mp hpanic)
  exact ⟨hpanics _ (by decide +kernel),hpanics _ (by decide +kernel),hpanics _ (by decide +kernel)⟩

/-- Sync requests without clocks from two senders, with a packet that is none between them. -/
def requestPackets : List (Nat × Bytes) :=
  [(7,packetOf 0 [1,0,0,0]),(8,packetOf 0 [1,0,0,0]),(8,[1,2,3]),(7,packetOf 0 [1,0,0,0]),(7,packetOf 1 [1,1,0,0])]

theorem never_panic_radio : NeverPanics listener requestPackets radio ∧ AllSurvive listener requestPackets radio := by
  have hreturns : NeverPanics listener requestPackets radio := by
    refine ⟨?_,?_,?_,?_,?_,trivial⟩
    all_goals
      rw [ne_eq,←Outcome.isPanic_iff]
      decide +kernel
  exact ⟨hreturns,(receivePackets_never_panic_iff listener requestPackets radio).mp hreturns⟩

end Radio

end Finder
