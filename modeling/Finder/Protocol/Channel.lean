import Finder.Framework.Heapless
import Finder.Framework.Machine
import Finder.Framework.SortedTable
import Finder.Protocol.Identity

namespace Finder

inductive Recipient where
  | node (id : NodeId)
  | channel (id : ChannelId)
  deriving DecidableEq

def Recipient.toBeBytes : Recipient → Bytes
  | .node id => id.toBeBytes
  | .channel id => id.toBeBytes

/-- A message with its place in the order: the sender's previous sequence, and a node whose
sequence is at most one below its own. -/
structure Message (T : Type) where
  cause : NodeId
  senderLast : U64
  sequence : U64
  data : T
  deriving DecidableEq

structure NodeSequence (P : Type) where
  publicKey : P
  node : NodeId
  id : EnvelopeId
  firstSequence : U64
  sequence : U64
  deriving DecidableEq

inductive ChannelError where
  | clientMax (max : Nat)
  | missingFromSender (node : NodeId) (have_ missing : U64)
  | sequenceOverFlow
  | unreachable
  | nodeExists
  | unknownNode
  | alreadyReceived
  deriving DecidableEq

@[ext] structure ChannelState (maxNodes : Nat) (P : Type) where
  nodes : HVec (NodeSequence P) maxNodes
  newest : NodeId
  deriving DecidableEq

namespace ChannelState

variable {maxNodes : Nat} {P T : Type}

/-- The record of a node that has sent nothing. -/
def freshRecord (node : NodeId) (nodeKey : P) : NodeSequence P :=
  { publicKey := nodeKey
    node := node
    id := EnvelopeId.zero
    sequence := 0
    firstSequence := 0 }

def new (initial : NodeId) (nodeKey : P) : Outcome ChannelError (ChannelState maxNodes P) :=
  match HVec.empty.push (freshRecord initial nodeKey) with
  | none => .err (.clientMax maxNodes)
  | some nodes => .ok ⟨nodes,initial⟩

def listNodes (st : ChannelState maxNodes P) : List (NodeSequence P) := st.nodes.toList

def search (st : ChannelState maxNodes P) (node : NodeId) : Except Nat Nat :=
  binarySearchByKey NodeSequence.node node st.nodes.toList

def addNode (node : NodeId) (nodeKey : P) : Call (ChannelState maxNodes P) ChannelError Unit :=
  fun st =>
    match st.search node with
    | .ok _ => (.err .nodeExists,st)
    | .error index =>
      match st.nodes.insert index (freshRecord node nodeKey) with
      | none => (.err (.clientMax maxNodes),st)
      | some nodes => (.ok (),{ st with nodes := nodes })

def getNodeKey (st : ChannelState maxNodes P) (node : NodeId) : Outcome ChannelError P :=
  match st.search node with
  | .ok index => do
    let record ← Outcome.okOr .unreachable st.nodes.toList[index]?
    .ok record.publicKey
  | .error _ => .err .unknownNode

def getCurrent (st : ChannelState maxNodes P) : Outcome ChannelError (NodeSequence P) :=
  match st.search st.newest with
  | .ok pos => Outcome.okOr .unreachable st.nodes.toList[pos]?
  | .error _ => .err .unreachable

/-- The position of the sender's record, where the message may be received. -/
def checkReceiveWorker (st : ChannelState maxNodes P) (sender : NodeId) (message : Message T)
    (_id : EnvelopeId) : Outcome ChannelError Nat :=
  match st.search sender with
  | .error _ => .err .unknownNode
  | .ok index => do
    let record ← Outcome.okOr .unreachable st.nodes.toList[index]?
    if message.sequence ≤ record.sequence then .err .alreadyReceived
    else if record.sequence ≠ message.senderLast then
      .err (.missingFromSender sender record.sequence message.senderLast)
    else
      let causeTarget := U64.saturatingPred message.sequence
      match st.search message.cause with
      | .ok pos => do
        let cause ← Outcome.okOr .unreachable st.nodes.toList[pos]?
        if cause.sequence < causeTarget then
          .err (.missingFromSender cause.node cause.sequence causeTarget)
        else .ok index
      | .error _ =>
        if causeTarget ≠ 0 then .err (.missingFromSender message.cause 0 causeTarget)
        else .ok index

def checkReceive (st : ChannelState maxNodes P) (sender : NodeId) (message : Message T)
    (id : EnvelopeId) : Outcome ChannelError Unit := do
  let _ ← st.checkReceiveWorker sender message id
  .ok ()

/-- What `receive` writes into the sender's record. -/
def receivedRecord (record : NodeSequence P) (message : Message T) (id : EnvelopeId) :
    NodeSequence P :=
  { record with
    sequence := message.sequence
    id := id
    firstSequence := if record.firstSequence = 0 then message.sequence else record.firstSequence }

def receive (sender : NodeId) (message : Message T) (id : EnvelopeId) :
    Call (ChannelState maxNodes P) ChannelError U64 := fun st =>
  match st.checkReceiveWorker sender message id with
  | .err e => (.err e,st)
  | .panic => (.panic,st)
  | .ok index =>
    match st.getCurrent with
    | .err e => (.err e,st)
    | .panic => (.panic,st)
    | .ok current =>
      -- the newest node moves before the record it is compared with
      let newer := current.sequence < message.sequence ∨
        (current.sequence = message.sequence ∧ current.id < id)
      let maxSequence := if newer then message.sequence else current.sequence
      let st' := if newer then { st with newest := sender } else st
      match st'.nodes.toList[index]? with
      | none => (.err .unreachable,st')
      | some record =>
        (.ok maxSequence,{ st' with nodes := st'.nodes.set index (receivedRecord record message id) })

def address (st : ChannelState maxNodes P) (sender : NodeId) (data : T) :
    Outcome ChannelError (Message T) :=
  match st.search sender with
  | .error _ => .err .unknownNode
  | .ok index => do
    let record ← Outcome.orPanic st.nodes.toList[index]?
    let current ← st.getCurrent
    let lastSequence := if current.sequence < record.sequence then record.sequence else current.sequence
    let sequence ← Outcome.okOr .sequenceOverFlow (U64.checkedSucc lastSequence)
    .ok { cause := current.node
          senderLast := record.sequence
          sequence := sequence
          data := data }

end ChannelState

end Finder
