import Finder.Protocol.Chat
import Finder.Protocol.Storage
import Finder.Protocol.Sync

namespace Finder

inductive ClientError where
  | serializationError (error : PostcardError)
  | channelError (error : ChannelError)
  | cryptoError (error : CryptoError)
  | chatError (error : ChatError)
  | storageError (error : StorageError)
  | channelLimit
  | unreachable
  | stringTooLarge
  | unknownChannel
  | messageToLarge
  | safeStaticError
  | messageIndexOutOfBounds
  deriving DecidableEq

def maxSig : Nat := 256
def maxEnvelope : Nat := 1024-maxSig
def lenSize : Nat := u32Size

/-- The scratch array `[0u8; 4096]` of the calls that serialize. -/
def scratch : Bytes := List.replicate 4096 0

/-- The envelopes the client stores and sends. -/
abbrev ChatEnvelope (P : Type) : Type := SealedEnvelope (Protocol P) maxEnvelope maxSig

/-- `from_bytes` with the conversion of its error. -/
def decodeAs (α : Type) [Postcard α] (b : Bytes) : Outcome ClientError α :=
  match (fromBytes b : Except PostcardError α) with
  | .ok a => .ok a
  | .error e => .err (.serializationError e)

/-- `to_slice` into a scratch array of which only the result is used. -/
def serialize {α : Type} [Postcard α] (a : α) (target : Bytes) : Outcome ClientError Bytes :=
  match (toSlice a target).1 with
  | .ok b => .ok b
  | .error e => .err (.serializationError e)

structure Channel (maxNodes slabSize : Nat) (C P : Type) where
  state : ChannelState maxNodes P
  storage : Storage slabSize
  chat : Chat maxNodes C P

structure Client (maxChannels maxNodes slabSize : Nat) (C P S : Type) where
  crypto : C
  nodeId : NodeId
  keyPair : KeyPair S P
  channels : FnvIndexMap ChannelId (Channel maxNodes slabSize C P) maxChannels

namespace Channel

variable {maxNodes slabSize : Nat} {C P S : Type}

def onState {ε α : Type} (x : Call (ChannelState maxNodes P) ε α) : Call (Channel maxNodes slabSize C P) ε α :=
  Call.field Channel.state (fun state ch => { ch with state := state }) x

def onStorage {ε α : Type} (x : Call (Storage slabSize) ε α) : Call (Channel maxNodes slabSize C P) ε α :=
  Call.field Channel.storage (fun storage ch => { ch with storage := storage }) x

def onChat {ε α : Type} (x : Call (Chat maxNodes C P) ε α) : Call (Channel maxNodes slabSize C P) ε α :=
  Call.field Channel.chat (fun chat ch => { ch with chat := chat }) x

/-- A call on a writer of the storage, which gives the memory back on every outcome. -/
def onWriter [Target] {α : Type} (x : Call (SlabWriter slabSize) ClientError α) :
    Call (Storage slabSize) ClientError α :=
  Call.borrow (fun st => st.getWriter.mapErr .storageError) (fun w st => { st with io := w.io }) x

/-- Write one record and commit it, the last steps of every call that stores. -/
def writeRecord [Target] [Postcard Record] (maxSequence messageCount sequence : U64) (sender : NodeId)
    (data : Bytes) : Call (SlabWriter slabSize) ClientError Unit := do
  Call.mapErr .storageError (SlabWriter.writeRecord maxSequence messageCount sequence sender data)
  Call.mapErr .storageError SlabWriter.commit

variable [Target] [Crypto C P S] [Postcard Record] [Postcard (Message (Protocol P))]
  [Postcard (ChatEnvelope P)]

omit [Target] [Postcard Record] [Postcard (Message (Protocol P))] [Postcard (ChatEnvelope P)] in
/-- What the calls do with an envelope that may be received: the chat, the channel, and the
table entry of a new user, in this order. The result is the newest sequence. -/
def accept (channelId : ChannelId) (sender : NodeId) (message : Message (Protocol P)) (id : EnvelopeId) :
    Call (Channel maxNodes slabSize C P) ClientError U64 := do
  Call.read (fun ch => (ch.state.checkReceive sender message id).mapErr .channelError)
  let result ← onChat (Call.mapErr .chatError (Chat.acceptMessage channelId sender message.data))
  let maxSequence ← onState (Call.mapErr (fun _ => .unreachable) (ChannelState.receive sender message id))
  match result with
  | .addUser key => onState (Call.mapErr .channelError (ChannelState.addNode (computeId C key) key))
  | _ => pure ()
  pure maxSequence

/-- `do_send` on the channel it has looked up. -/
def doSend (crypto : C) (nodeId : NodeId) (keyPair : KeyPair S P) (channelId : ChannelId) (data : Protocol P) :
    Call (Channel maxNodes slabSize C P) ClientError Unit := do
  let message ← Call.read (fun ch => (ch.state.address nodeId data).mapErr .channelError)
  let envelope : ChatEnvelope P ← Call.lift ((Crypto.sealEnvelope crypto nodeId (.channel channelId) keyPair
    message scratch.length).mapErr .cryptoError)
  let maxSequence ← accept channelId nodeId message (Crypto.envelopeId crypto envelope)
  let messageCount ← Call.read (fun ch => .ok ch.chat.messageCount)
  onStorage (onWriter (do
    let serialized ← Call.lift (serialize envelope scratch)
    writeRecord maxSequence messageCount message.sequence nodeId serialized))

/-- `do_receive` on the channel it has looked up. -/
def doReceive (crypto : C) (channelId : ChannelId) (envelope : ChatEnvelope P) (bytes : Bytes) :
    Call (Channel maxNodes slabSize C P) ClientError Unit := do
  let key ← Call.read (fun ch => (ch.state.getNodeKey envelope.sender).mapErr .channelError)
  let message ← Call.lift ((Crypto.openEnvelope crypto key envelope).mapErr .cryptoError)
  let maxSequence ← accept channelId envelope.sender message (Crypto.envelopeId crypto envelope)
  let messageCount ← Call.read (fun ch => .ok ch.chat.messageCount)
  onStorage (onWriter (writeRecord maxSequence messageCount message.sequence envelope.sender bytes))

/-- The steps of `init_chat` on the channel it is making. -/
def init (crypto : C) (myId : NodeId) (keyPair : KeyPair S P) (channelId : ChannelId) (data : Protocol P) :
    Call (Channel maxNodes slabSize C P) ClientError Unit := do
  let message ← Call.read (fun ch => (ch.state.address myId data).mapErr .channelError)
  let envelope : ChatEnvelope P ← Call.lift ((Crypto.sealEnvelope crypto myId (.channel channelId) keyPair
    message scratch.length).mapErr .cryptoError)
  let id := Crypto.envelopeId crypto envelope
  Call.read (fun ch => (ch.state.checkReceive myId message id).mapErr .channelError)
  let _ ← onChat (Call.mapErr .chatError (Chat.acceptMessage channelId myId message.data))
  let maxSequence ← onState (Call.mapErr .channelError (ChannelState.receive myId message id))
  let messageCount ← Call.read (fun ch => .ok ch.chat.messageCount)
  onStorage (onWriter (do
    let serialized ← Call.lift (serialize envelope scratch)
    writeRecord maxSequence messageCount message.sequence myId serialized))

omit [Target] [Postcard Record] in
/-- The body of the loop of `open_chat`, on the state and the chat it rebuilds. A new user enters the
table before the message is received. -/
def replayRecord (crypto : C) (channelId : ChannelId) (bytes : Bytes) :
    Call (ChannelState maxNodes P × Chat maxNodes C P) ClientError Unit := do
  let envelope ← Call.lift (decodeAs (ChatEnvelope P) bytes)
  let id := Crypto.envelopeId crypto envelope
  let key ← Call.read (fun st => (st.1.getNodeKey envelope.sender).mapErr .channelError)
  let message ← Call.lift ((Crypto.openEnvelope crypto key envelope).mapErr .cryptoError)
  Call.read (fun st => (st.1.checkReceive envelope.sender message id).mapErr .channelError)
  let result ← Call.field Prod.snd (fun chat st => (st.1,chat))
    (Call.mapErr .chatError (Chat.acceptMessage channelId envelope.sender message.data))
  match result with
  | .addUser key =>
    Call.field Prod.fst (fun state st => (state,st.2))
      (Call.mapErr .channelError (ChannelState.addNode (computeId C key) key))
  | _ => pure ()
  let _ ← Call.field Prod.fst (fun state st => (state,st.2))
    (Call.mapErr (fun _ => .unreachable) (ChannelState.receive envelope.sender message id))
  pure ()

/-- The loop of `open_chat` over the records from a cursor on. -/
def replayFrom (crypto : C) (channelId : ChannelId) (storage : Storage slabSize) :
    Nat → Cursor → Call (ChannelState maxNodes P × Chat maxNodes C P) ClientError Unit
  | 0,_ => Call.lift .panic
  | fuel+1,cursor => do
    match ← Call.lift ((storage.read cursor).mapErr .storageError) with
    | none => pure ()
    | some (data,next) => do
      replayRecord crypto channelId data
      replayFrom crypto channelId storage fuel next

end Channel

namespace Client

variable {maxChannels maxNodes slabSize : Nat} {C P S : Type}

section Lookup

/-- `channels.get(channel_id).ok_or(UnknownChannel)`. -/
def channel (client : Client maxChannels maxNodes slabSize C P S) (channelId : ChannelId) :
    Outcome ClientError (Channel maxNodes slabSize C P) :=
  Outcome.okOr .unknownChannel (client.channels.get channelId)

/-- A call on the channel behind `channels.get_mut(channel_id)`. -/
def onChannel {α : Type} (channelId : ChannelId) (x : Call (Channel maxNodes slabSize C P) ClientError α) :
    Call (Client maxChannels maxNodes slabSize C P S) ClientError α :=
  Call.borrow (fun client => client.channel channelId)
    (fun ch client => { client with channels := client.channels.set channelId ch }) x

/-- `channels.insert(channel_id, full_channel)`. -/
def insertChannel (channelId : ChannelId) (ch : Channel maxNodes slabSize C P) :
    Call (Client maxChannels maxNodes slabSize C P S) ClientError Unit := fun client =>
  match client.channels.insert channelId ch with
  | none => (.err .channelLimit,client)
  | some channels => (.ok (),{ client with channels := channels })

def messageCount (client : Client maxChannels maxNodes slabSize C P S) (channelId : ChannelId) :
    Outcome ClientError U64 := do
  let ch ← client.channel channelId
  .ok ch.chat.messageCount

def listNodes (client : Client maxChannels maxNodes slabSize C P S) (channelId : ChannelId) :
    Outcome ClientError (List (NodeSequence P)) := do
  let ch ← client.channel channelId
  .ok ch.state.listNodes

end Lookup

section Sync

/-- `vector_clock.push(clock).or(Err(Unreachable))`. -/
def pushClock (clock : Clock) : Call (HVec Clock maxNodes) ClientError Unit := fun clocks =>
  match clocks.push clock with
  | none => (.err .unreachable,clocks)
  | some clocks => (.ok (),clocks)

def pushClocks : List Clock → Call (HVec Clock maxNodes) ClientError Unit
  | [] => pure ()
  | clock::clocks => do
    pushClock clock
    pushClocks clocks

def finishSyncRequest (client : Client maxChannels maxNodes slabSize C P S) (channelId : ChannelId) :
    Call (SyncRequest maxNodes) ClientError Unit := do
  let ch ← Call.lift (client.channel channelId)
  Call.modify (fun request => { request with vectorClock := HVec.empty })
  Call.field SyncRequest.vectorClock (fun clocks request => { request with vectorClock := clocks })
    (pushClocks (ch.state.listNodes.map (fun node => ⟨node.node,node.sequence⟩)))

/-- The inner loop: the clocks of the request up to a node. It tells whether the node was among them,
and gives back the clocks it has not used. -/
def mergeClocks (myNode : NodeSequence P) : List Clock → Call (HVec Clock maxNodes) ClientError (Bool × List Clock)
  | [] => pure (false,[])
  | clock::clocks =>
    if clock.node = myNode.node then do
      pushClock clock
      pure (true,clocks)
    else if clock.node < myNode.node then do
      pushClock clock
      mergeClocks myNode clocks
    else pure (false,clock::clocks)

/-- The outer loop over the nodes of the responder. A node the request does not name counts from its
first sequence on. -/
def mergeNodes : List (NodeSequence P) → List Clock → Call (HVec Clock maxNodes) ClientError (List Clock)
  | [],clocks => pure clocks
  | myNode::nodes,clocks => do
    let (found,clocks) ← mergeClocks myNode clocks
    if found then mergeNodes nodes clocks
    else do
      pushClock ⟨myNode.node,myNode.firstSequence⟩
      mergeNodes nodes clocks

def startSyncResponse (client : Client maxChannels maxNodes slabSize C P S) (channelId : ChannelId)
    (request : SyncRequest maxNodes) : Call (SyncResponderState maxNodes) ClientError Unit := do
  let ch ← Call.lift (client.channel channelId)
  Call.modify (fun state => { state with vectorClock := HVec.empty })
  Call.field SyncResponderState.vectorClock (fun clocks state => { state with vectorClock := clocks }) (do
    let rest ← mergeNodes ch.state.listNodes request.vectorClock.toList
    pushClocks rest)

variable [Target] [Postcard Record]

/-- The loop of `fill_send_buffer`. Every record takes room in the buffer, so the length of the
buffer bounds the steps. -/
def fillFrom (storage : Storage slabSize) : Nat → Cursor → Nat → Nat → Call Bytes ClientError (Nat × Nat)
  | 0,_,_,_ => Call.lift .panic
  | fuel+1,cursor,offset,count => do
    match ← Call.lift ((storage.read cursor).mapErr .storageError) with
    | none => pure (count,offset)
    | some (data,next) => do
      let room ← Call.read (fun buffer => .ok (buffer.length-offset))
      if room < data.length+lenSize then pure (count,offset)
      else do
        let offset ← Call.mapErr .storageError (writeU32 data.length offset)
        Call.read (fun buffer => do
          let _ ← Outcome.okOr .unreachable (getRange buffer offset (offset+data.length))
          .ok ())
        Call.modify (fun buffer => overwrite buffer offset data)
        let count ← Call.lift (plainAdd u32Max count 1)
        fillFrom storage fuel next (offset+data.length) count

def fillSendBuffer (client : Client maxChannels maxNodes slabSize C P S) (channelId : ChannelId)
    (state : SyncResponderState maxNodes) : Call Bytes ClientError (Nat × Nat) := do
  let ch ← Call.lift (client.channel channelId)
  let start ← Call.lift (Outcome.okOr .unreachable state.getMinSequence)
  let found ← Call.lift ((ch.storage.getCursorFromSequence start).mapErr .storageError)
  let cursor ← Call.lift (Outcome.okOr .unreachable found)
  let fuel ← Call.read (fun buffer => .ok (buffer.length+1))
  fillFrom ch.storage fuel cursor 0 0

end Sync

section Calls

variable [Target] [Crypto C P S] [Postcard Record] [Postcard (Message (Protocol P))]
  [Postcard (ChatEnvelope P)]

omit [Target] [Postcard Record] [Postcard (Message (Protocol P))] [Postcard (ChatEnvelope P)] in
def new (keyPair : KeyPair S P) (crypto : C)
    (channels : FnvIndexMap ChannelId (Channel maxNodes slabSize C P) maxChannels) :
    Client maxChannels maxNodes slabSize C P S :=
  { crypto := crypto
    nodeId := computeId C keyPair.pub
    keyPair := keyPair
    channels := channels }

def doSend (channelId : ChannelId) (data : Protocol P) :
    Call (Client maxChannels maxNodes slabSize C P S) ClientError Unit := fun client =>
  onChannel channelId (Channel.doSend client.crypto client.nodeId client.keyPair channelId data) client

def doReceive (channelId : ChannelId) (bytes : Bytes) :
    Call (Client maxChannels maxNodes slabSize C P S) ClientError Unit := do
  let envelope ← Call.lift (decodeAs (ChatEnvelope P) bytes)
  fun client => onChannel channelId (Channel.doReceive client.crypto channelId envelope bytes) client

/-- The loop of `receive_buffer`. A message that is already there is passed over. -/
def receiveFrames (channelId : ChannelId) (buffer : Bytes) :
    Nat → Nat → Call (Client maxChannels maxNodes slabSize C P S) ClientError Unit
  | 0,_ => pure ()
  | count+1,offset => do
    let (len,offset) ← Call.lift ((readU32 buffer offset).mapErr .storageError)
    let stop ← Call.lift (plainAdd usizeMax offset len)
    let envelopeBytes ← Call.lift (Outcome.okOr .unreachable (getRange buffer offset stop))
    fun client =>
      match doReceive channelId envelopeBytes client with
      | (.ok _,client) => receiveFrames channelId buffer count stop client
      | (.err (.channelError .alreadyReceived),client) => receiveFrames channelId buffer count stop client
      | (.err e,client) => (.err e,client)
      | (.panic,client) => (.panic,client)

def receiveBuffer (channelId : ChannelId) (buffer : Bytes) (count : Nat) :
    Call (Client maxChannels maxNodes slabSize C P S) ClientError Unit :=
  receiveFrames channelId buffer count 0

def sendMessage (channelId : ChannelId) (msg : Str) :
    Call (Client maxChannels maxNodes slabSize C P S) ClientError Unit := do
  let text ← Call.lift (Outcome.okOr .messageToLarge (HString.tryFrom msg))
  doSend channelId (.chatMessage ⟨text⟩)

def addNode (channelId : ChannelId) (pubKey : P) (name : Str) :
    Call (Client maxChannels maxNodes slabSize C P S) ClientError Unit := do
  let nameString ← Call.lift (Outcome.okOr .messageToLarge (HString.tryFrom name))
  doSend channelId (.addUser ⟨nameString,pubKey⟩)

def getMessage (client : Client maxChannels maxNodes slabSize C P S) (channelId : ChannelId) (index : U64) :
    Outcome ClientError ChatMessage := do
  let ch ← client.channel channelId
  let found ← (ch.storage.getCursorFromIndex index).mapErr .storageError
  let cursor ← Outcome.okOr .messageIndexOutOfBounds found
  let record ← (ch.storage.read cursor).mapErr .storageError
  let (bytes,_) ← Outcome.okOr .unreachable record
  let envelope ← decodeAs (ChatEnvelope P) bytes
  let key ← (ch.state.getNodeKey envelope.sender).mapErr .channelError
  let message ← (Crypto.openEnvelope client.crypto key envelope).mapErr .cryptoError
  match message.data with
  | .chatMessage message => .ok message
  | _ => .err .unreachable

omit [Target] [Crypto C P S] [Postcard Record] [Postcard (Message (Protocol P))]
  [Postcard (ChatEnvelope P)] in
/-- A channel with nothing in it but the record of its first node. -/
def freshChannel (initial : NodeId) (nodeKey : P) (channelId : ChannelId) (io : MemIo slabSize) :
    Outcome ClientError (Channel maxNodes slabSize C P) := do
  let state ← (ChannelState.new initial nodeKey).mapErr .channelError
  .ok { state := state
        storage := ⟨io⟩
        chat := Chat.new channelId }

omit [Target] [Postcard Record] [Postcard (Message (Protocol P))] [Postcard (ChatEnvelope P)] in
def addChannel (sender : P) (channelId : ChannelId) (io : MemIo slabSize) :
    Call (Client maxChannels maxNodes slabSize C P S) ClientError Unit := do
  let ch ← Call.lift (freshChannel (computeId C sender) sender channelId io)
  insertChannel channelId ch

def initChat [Postcard (NewChannel P)] (nameStr : Str) (io : MemIo slabSize) :
    Call (Client maxChannels maxNodes slabSize C P S) ClientError ChannelId := do
  let nonce ← (fun client => (.ok (Crypto.nonce client.crypto).1,
    { client with crypto := (Crypto.nonce client.crypto).2 }))
  let name ← Call.lift (Outcome.okOr .stringTooLarge (HString.tryFrom nameStr))
  let message ← Call.read (fun client => .ok { nonce := nonce, name := name, owner := client.keyPair.pub })
  let serialized ← Call.lift (serialize message scratch)
  fun client =>
    let channelId := Crypto.channelIdFromBytes client.crypto serialized
    let myId := computeId C client.keyPair.pub
    match freshChannel myId client.keyPair.pub channelId io with
    | .err e => (.err e,client)
    | .panic => (.panic,client)
    | .ok ch =>
      match Channel.init client.crypto myId client.keyPair channelId (.newChannel message) ch with
      | (.err e,_) => (.err e,client)
      | (.panic,_) => (.panic,client)
      | (.ok _,ch) => (do
        insertChannel channelId ch
        pure channelId : Call _ _ _) client

def openChat (channelId : ChannelId) (io : MemIo slabSize) :
    Call (Client maxChannels maxNodes slabSize C P S) ClientError Unit := do
  let myKey ← Call.read (fun client => .ok client.keyPair.pub)
  let ch ← Call.lift (freshChannel (computeId C myKey) myKey channelId io)
  let start ← Call.lift ((ch.storage.getCursorFromSequence 0).mapErr .storageError)
  fun client =>
    match start with
    | none => insertChannel channelId ch client
    | some cursor =>
      match Channel.replayFrom client.crypto channelId ch.storage ch.storage.steps cursor (ch.state,ch.chat) with
      | (.err e,_) => (.err e,client)
      | (.panic,_) => (.panic,client)
      | (.ok _,st) => insertChannel channelId { ch with state := st.1, chat := st.2 } client

end Calls

end Client

end Finder
