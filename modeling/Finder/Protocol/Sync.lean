import Finder.Protocol.Channel

namespace Finder

structure Clock where
  node : NodeId
  sequence : U64
  deriving DecidableEq

structure SyncRequest (maxNodes : Nat) where
  sessionId : U32
  bytesBudget : U32
  vectorClock : HVec Clock maxNodes

structure SyncResponderState (maxNodes : Nat) where
  sessionId : U32
  bytesBudget : U32
  bytesSent : U32
  lastCommandIndex : U64
  vectorClock : HVec Clock maxNodes

namespace SyncResponderState

variable {maxNodes : Nat}

def new (request : SyncRequest maxNodes) : SyncResponderState maxNodes :=
  { sessionId := request.sessionId
    bytesBudget := request.bytesBudget
    bytesSent := 0
    lastCommandIndex := 0
    vectorClock := HVec.empty }

def getMinSequence (state : SyncResponderState maxNodes) : Option U64 :=
  match state.vectorClock.toList with
  | [] => none
  | clock::clocks =>
    some ((clock::clocks).foldl (fun min c => if min > c.sequence then c.sequence else min) clock.sequence)

end SyncResponderState

end Finder
