import Finder.Protocol.WireState

namespace Finder

def espNowMtu : U16 := 250

def repairCount : Nat := 3

variable {maxChannels maxNodes maxResponse slabSize : Nat} {A E D C P S : Type}

/-- What the driver of the radio answers in a pass: whether `add_peer` takes the sender of a broadcast that is no peer
yet, whether there is a `peer_count`, and whether `send` takes the packet with so many behind it. -/
structure EspNow where
  addPeer : Bool
  peerCount : Bool
  send : Nat → Bool

/-- All that the loop asks of the driver succeeds. -/
structure EspNow.Succeeds (espNow : EspNow) : Prop where
  addPeer : espNow.addPeer
  peerCount : espNow.peerCount
  send : ∀ count, espNow.send count

section Broadcast

variable [Target] [Raptorq E D]

variable (D) in
/-- The packets of a writer that the loop sends, each written into a buffer of its own. An error panics, of the writer
as of the driver. -/
def broadcastPackets (send : Nat → Bool) : Nat → WireWriter E → Outcome WireError (List Bytes)
  | 0,_ => .ok []
  | count+1,writer =>
    match WireWriter.next D (writer,List.replicate 250 0) with
    | (.ok len,(writer,buffer)) => do
      let data ← Outcome.orPanic (getRange buffer 0 len)
      if send count then
        let packets ← broadcastPackets send count writer
        .ok (data::packets)
      else
        .panic
    | _ => .panic

end Broadcast

section Loop

variable [DecidableEq A] [Target] [Raptorq E D] [Postcard (NetworkProtocol maxChannels maxNodes maxResponse)]

/-- What the loop does with what the radio has received, if anything. -/
def receiveData (received : Option (A × Bytes)) (client : Client maxChannels maxNodes slabSize C P S) :
    Call (WireState maxChannels maxNodes maxResponse A D) WireError Unit :=
  match received with
  | some (sender,data) => WireState.receivePacket data sender client
  | none => pure ()

/-- One pass of `network_loop`, on the state and the message buffer, and the packets that it broadcasts. -/
def networkLoop (espNow : EspNow) (received : Option (A × Bytes)) (now : U64) (peerCount : UInt8)
    (channelId : ChannelId) (client : Client maxChannels maxNodes slabSize C P S) :
    Call (WireState maxChannels maxNodes maxResponse A D × Bytes) WireError (List Bytes) := fun s =>
  if received.isSome ∧ ¬espNow.addPeer then
    (.panic,s)
  else
    match receiveData received client s.1 with
    | (.panic,st) => (.panic,(st,s.2))
    -- an error goes on with the next pass
    | (.err _,st) => (.ok [],(st,s.2))
    | (.ok (),st) =>
      if espNow.peerCount then
        match WireState.poll now peerCount [channelId] repairCount client (st,s.2) with
        | (.ok result,s) =>
          match result.writer with
          | some writer => (broadcastPackets D espNow.send writer.packetCount writer,s)
          | none => (.ok [],s)
        | (_,s) => (.panic,s)
      else
        (.panic,(st,s.2))

end Loop

end Finder
