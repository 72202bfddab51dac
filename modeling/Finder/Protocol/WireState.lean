import Finder.Protocol.Packets

namespace Finder

structure ChannelInfo where
  channelId : ChannelId
  messageCount : U64

structure SyncResponse (responseMax : Nat) where
  sessionId : U32
  count : U32
  data : HVec UInt8 responseMax

inductive NetworkProtocol (maxChannels maxNodes responseMax : Nat) where
  | hello (pubKeyId : NodeId) (peerCount : UInt8) (channelInfo : HVec ChannelInfo maxChannels)
  | syncRequest (request : SyncRequest maxNodes)
  | syncResponse (response : SyncResponse responseMax)

structure Receiver (D : Type) where
  lastCompleted : Option U16
  reader : Option (WireReader D)

structure WireState (maxChannels maxNodes maxResponse : Nat) (A D : Type) where
  lastReceived : U64
  nextHello : U64
  helloDuration : U64
  bytesBudget : U32
  nextSessionId : U32
  nextMessageNumber : U16
  toSend : Option (NetworkProtocol maxChannels maxNodes maxResponse)
  receivers : FnvIndexMap A (Receiver D) maxNodes
  mtu : U16

structure PollResult (E : Type) where
  nextPoll : U64
  writer : Option (WireWriter E)

variable {maxChannels maxNodes maxResponse slabSize : Nat} {A E D C P S : Type}

namespace Receiver

variable [Target] [Raptorq E D]

/-- The packet is of another block: a new reader takes its place, if it accepts the packet. -/
def restart (data : Bytes) (mtu : U16) : Call (Receiver D) WireError (Option Bytes) := fun receiveInfo =>
  match WireReader.new data mtu with
  | .err _ => (.ok none,receiveInfo)
  | .panic => (.panic,receiveInfo)
  | .ok reader =>
    match WireReader.acceptPacket data reader with
    | (.ok result,reader) => (.ok result,{ receiveInfo with reader := some reader })
    | (.err _,_) => (.ok none,receiveInfo)
    | (.panic,_) => (.panic,receiveInfo)

/-- What `receive_packet` does with the entry of the sender, up to the value that is decoded. -/
def accept (receivedMessageNumber : U16) (data : Bytes) (mtu : U16) : Call (Receiver D) WireError (Option Bytes) :=
  fun receiveInfo =>
    if receiveInfo.lastCompleted = some receivedMessageNumber then (.ok none,receiveInfo)
    else
      match receiveInfo.reader.elim (WireReader.new data mtu) .ok with
      | .err _ => (.ok none,receiveInfo)
      | .panic => (.panic,receiveInfo)
      | .ok reader =>
        match WireReader.acceptPacket data reader with
        | (.ok result,reader) => (.ok result,{ receiveInfo with reader := some reader })
        | (.err (.wrongBlock _),reader) => restart data mtu { receiveInfo with reader := some reader }
        | (.err _,reader) => (.ok none,{ receiveInfo with reader := some reader })
        | (.panic,reader) => (.panic,{ receiveInfo with reader := some reader })

end Receiver

namespace WireState

def new (mtu : U16) : WireState maxChannels maxNodes maxResponse A D :=
  { lastReceived := 0
    nextHello := 0
    helloDuration := 5000
    bytesBudget := 4096
    nextSessionId := 0
    nextMessageNumber := 0
    toSend := none
    receivers := FnvIndexMap.empty
    mtu := mtu }

def makeSyncRequest (channelId : ChannelId) (client : Client maxChannels maxNodes slabSize C P S) :
    Call (WireState maxChannels maxNodes maxResponse A D) WireError
      (NetworkProtocol maxChannels maxNodes maxResponse) := do
  let request ← Call.read (fun st => .ok ⟨st.nextSessionId,st.bytesBudget,HVec.empty⟩)
  Call.modify (fun st => { st with nextSessionId := st.nextSessionId+1 })
  Call.lift ((client.finishSyncRequest channelId request).1.mapErr .clientError)
  pure (.syncRequest (client.finishSyncRequest channelId request).2)

/-- A request for the channel, unless something else is to be sent. -/
def requestChannel (channelId : ChannelId) (client : Client maxChannels maxNodes slabSize C P S) :
    Call (WireState maxChannels maxNodes maxResponse A D) WireError Unit := do
  let toSend ← Call.read (fun st => .ok st.toSend)
  if toSend.isNone then do
    let request ← makeSyncRequest channelId client
    Call.modify (fun st => { st with toSend := some request })
  else pure ()

/-- The loop over the channels of a hello. -/
def processInfos (client : Client maxChannels maxNodes slabSize C P S) :
    List ChannelInfo → Call (WireState maxChannels maxNodes maxResponse A D) WireError Unit
  | [] => pure ()
  | info::infos =>
    match client.messageCount info.channelId with
    | .ok _ => do
      requestChannel info.channelId client
      processInfos client infos
    | .err .unknownChannel => do
      requestChannel info.channelId client
      processInfos client infos
    | .err _ => pure ()
    | .panic => Call.lift .panic

def processMessage (message : NetworkProtocol maxChannels maxNodes maxResponse)
    (client : Client maxChannels maxNodes slabSize C P S) :
    Call (WireState maxChannels maxNodes maxResponse A D) WireError Unit :=
  match message with
  | .syncRequest _ => pure ()
  | .syncResponse _ => pure ()
  | .hello _ _ channelInfo => processInfos client channelInfo.toList

variable [DecidableEq A]

/-- `receivers.get_mut(&from)`, and a new entry where there is none; none where there is no room for it. -/
def receiveInfo (sender : A) : Call (WireState maxChannels maxNodes maxResponse A D) WireError Bool := fun st =>
  match st.receivers.get sender with
  | some _ => (.ok true,st)
  | none =>
    match st.receivers.insert sender ⟨none,none⟩ with
    | none => (.ok false,st)
    | some receivers => (.ok true,{ st with receivers := receivers })

/-- A call on the entry of a sender. -/
def onReceiver {α : Type} (sender : A) (x : Call (Receiver D) WireError α) :
    Call (WireState maxChannels maxNodes maxResponse A D) WireError α :=
  Call.borrow (fun st => Outcome.orPanic (st.receivers.get sender))
    (fun r st => { st with receivers := st.receivers.set sender r }) x

variable [Target] [Raptorq E D]

/-- `receive_packet` up to the value that is decoded, with the number of its message. -/
def decodePacket (data : Bytes) (sender : A) :
    Call (WireState maxChannels maxNodes maxResponse A D) WireError (Option (U16 × Bytes)) := fun st =>
  match WireReader.checkPacket data with
  | .err _ => (.ok none,st)
  | .panic => (.panic,st)
  | .ok receivedMessageNumber => (do
    if ← receiveInfo sender then do
      let result ← onReceiver sender (Receiver.accept receivedMessageNumber data st.mtu)
      pure (result.map (fun value => (receivedMessageNumber,value)))
    else pure none) st

variable [Postcard (NetworkProtocol maxChannels maxNodes maxResponse)]

omit [DecidableEq A] [Target] [Raptorq E D] in
/-- `from_bytes(&value).expect("could not parse message")`. -/
def parseMessage (value : Bytes) : Outcome WireError (NetworkProtocol maxChannels maxNodes maxResponse) :=
  match (fromBytes value : Except PostcardError (NetworkProtocol maxChannels maxNodes maxResponse)) with
  | .ok command => .ok command
  | .error _ => .panic

def receivePacket (data : Bytes) (sender : A) (client : Client maxChannels maxNodes slabSize C P S) :
    Call (WireState maxChannels maxNodes maxResponse A D) WireError Unit := do
  match ← decodePacket data sender with
  | none => pure ()
  | some (receivedMessageNumber,value) => do
    let command ← Call.lift (parseMessage value)
    onReceiver sender (Call.modify (fun r => { r with lastCompleted := some receivedMessageNumber }))
    processMessage command client

section Poll

/-- The loop of `make_hello`; both of its `expect`s panic. -/
def helloInfos (client : Client maxChannels maxNodes slabSize C P S) :
    List ChannelId → HVec ChannelInfo maxChannels → Outcome WireError (HVec ChannelInfo maxChannels)
  | [],channelInfo => .ok channelInfo
  | channelId::channelIds,channelInfo => do
    let messageCount ← Outcome.orPanic (client.messageCount channelId).value
    let channelInfo ← Outcome.orPanic (channelInfo.push ⟨channelId,messageCount⟩)
    helloInfos client channelIds channelInfo

def makeHello (peerCount : UInt8) (channelIds : List ChannelId) (client : Client maxChannels maxNodes slabSize C P S) :
    Outcome WireError (NetworkProtocol maxChannels maxNodes maxResponse) := do
  let channelInfo ← helloInfos client channelIds HVec.empty
  .ok (.hello client.nodeId peerCount channelInfo)

/-- The first part of `poll`: the message that waits is taken, or a hello made if one is due. -/
def takeMessage (now : U64) (peerCount : UInt8) (channelIds : List ChannelId)
    (client : Client maxChannels maxNodes slabSize C P S) :
    Call (WireState maxChannels maxNodes maxResponse A D) WireError
      (Option (NetworkProtocol maxChannels maxNodes maxResponse)) := fun st =>
  match st.toSend with
  | some message => (.ok (some message),{ st with toSend := none })
  | none =>
    if st.nextHello > now then (.ok none,st)
    else
      match U64.plainAdd now st.helloDuration with
      | .ok nextHello =>
        ((makeHello peerCount channelIds client).bind (fun hello => .ok (some hello)),
          { st with nextHello := nextHello })
      | .err e => (.err e,st)
      | .panic => (.panic,st)

omit [DecidableEq A] [Target] [Raptorq E D] in
/-- `to_slice(&message, buffer)?`. -/
def serializeMessage (message : NetworkProtocol maxChannels maxNodes maxResponse) : Call Bytes WireError Bytes :=
  fun buffer =>
    match toSlice message buffer with
    | (.ok wrote,buffer) => (.ok wrote,buffer)
    | (.error e,buffer) => (.err (.deserializeError e),buffer)

/-- A call on the state and the buffer that it is given. -/
def poll (now : U64) (peerCount : UInt8) (channelIds : List ChannelId) (repairCount : Nat)
    (client : Client maxChannels maxNodes slabSize C P S) :
    Call (WireState maxChannels maxNodes maxResponse A D × Bytes) WireError (PollResult E) := do
  let maybeMessage ← Call.field Prod.fst (fun st s => (st,s.2)) (takeMessage now peerCount channelIds client)
  match maybeMessage with
  | some message => do
    let wrote ← Call.field Prod.snd (fun buffer s => (s.1,buffer)) (serializeMessage message)
    let st ← Call.read (fun s => .ok s.1)
    let writer ← Call.lift (WireWriter.new D st.nextMessageNumber st.mtu wrote repairCount)
    Call.modify (fun s => ({ s.1 with nextMessageNumber := s.1.nextMessageNumber+1 },s.2))
    let nextPoll ← Call.lift (U64.plainAdd st.helloDuration now)
    pure { nextPoll := nextPoll
           writer := some writer }
  | none => do
    let st ← Call.read (fun s => .ok s.1)
    let nextPoll ← Call.lift (U64.plainSub st.nextHello now)
    pure { nextPoll := nextPoll
           writer := none }

end Poll

end WireState

end Finder
