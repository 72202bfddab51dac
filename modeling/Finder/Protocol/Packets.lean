import Finder.Protocol.Client

namespace Finder

inductive WireError where
  | unreachable
  | outOfBounds
  | deserializeError (error : PostcardError)
  | wrongBlock (found : U16)
  | notPacket
  | clientError (error : ClientError)

/-- The two low bytes of a number, least significant first. -/
def leBytes (n v : Nat) : Bytes := (beBytes n v).reverse

/-- The number a little-endian byte string stands for. -/
def leNat (b : Bytes) : Nat := beNat b.reverse

/-- What the readers and writers call of `raptorq`: a decoder is a state machine over the packets it is given. What
panics is said by a test beside it, and where that fails the value means nothing. -/
class Raptorq (E : outParam Type) (D : Type) where
  /-- `Encoder::with_defaults(data, max_packet_size)` returns. -/
  encodes : Bytes → Nat → Bool
  /-- `Encoder::with_defaults(data, max_packet_size).get_encoded_packets(repair_packets_per_block)`. -/
  encodedPackets : Bytes → Nat → Nat → List E
  /-- `EncodingPacket::serialize`. -/
  serialize : E → Bytes
  /-- `EncodingPacket::deserialize`, which panics where there is none. -/
  deserialize : Bytes → Option E
  /-- `Decoder::new(ObjectTransmissionInformation::with_defaults(transfer_length, max_packet_size))` returns. -/
  starts : Nat → Nat → Bool
  /-- `Decoder::new(ObjectTransmissionInformation::with_defaults(transfer_length, max_packet_size))`. -/
  decoder : Nat → Nat → D
  /-- `Decoder::decode` returns: a packet of another source block, or with a symbol of another length, panics. -/
  takes : E → D → Bool
  /-- `Decoder::decode`, with the decoder it leaves. -/
  decode : E → D → Option Bytes × D

/-- A packet begins with the four bytes of its payload id, which are all that reading one needs. -/
class LawfulRaptorq (E : outParam Type) (D : Type) extends Raptorq E D where
  deserialize_eq_none : ∀ b, deserialize b = none ↔ b.length < 4
  serialize_length : ∀ e, 4 ≤ (serialize e).length

/-- An object as long as a message can be, and a packet size with room for a symbol. -/
structure Codable (data : Bytes) (maxPacketSize : Nat) : Prop where
  nonempty : 0 < data.length
  short : data.length < 2^16
  symbol : 8 ≤ maxPacketSize

/-- Such an object has an encoder, and a decoder. -/
class EncodingRaptorq (E : outParam Type) (D : Type) extends LawfulRaptorq E D where
  encodes_codable : ∀ data size, Codable data size → encodes data size = true
  starts_codable : ∀ data size, Codable data size → starts data.length size = true

/-- What a decoder returns for each of the packets that it is given. -/
def Raptorq.decodeAll {E D : Type} [Raptorq E D] : List E → D → List (Option Bytes)
  | [],_ => []
  | packet::packets,decoder => (decode packet decoder).1::decodeAll packets (decode packet decoder).2

/-- A decoder takes these packets, one after another. -/
def Raptorq.takesAll {E D : Type} [Raptorq E D] : List E → D → Bool
  | [],_ => true
  | packet::packets,decoder => takes packet decoder && takesAll packets (decode packet decoder).2

/-- A decoder of the same length and packet size takes the packets of an object, returns the object by the time it has
been given all source packets, and never another one. The packets are a `Vec`. -/
class CodingRaptorq [Target] (E : outParam Type) (D : Type) extends EncodingRaptorq E D where
  sourcePackets : Bytes → Nat → List E
  deserialize_serialize : ∀ e, deserialize (serialize e) = some e
  encoded_length : ∀ data size repair, Codable data size → (encodedPackets data size repair).length ≤ usizeMax
  source_encoded : ∀ data size repair, Codable data size →
    ∀ e ∈ sourcePackets data size, e ∈ encodedPackets data size repair
  takes_encoded : ∀ data size repair packets, Codable data size → (∀ e ∈ packets, e ∈ encodedPackets data size repair) →
    Raptorq.takesAll packets (decoder data.length size) = true
  decodes_only : ∀ data size repair packets, Codable data size → (∀ e ∈ packets, e ∈ encodedPackets data size repair) →
    ∀ value, some value ∈ Raptorq.decodeAll packets (decoder data.length size) → value = data
  decodes : ∀ data size repair packets, Codable data size → (∀ e ∈ packets, e ∈ encodedPackets data size repair) →
    (∀ e ∈ sourcePackets data size, e ∈ packets) → some data ∈ Raptorq.decodeAll packets (decoder data.length size)

/-- A symbol is the packet size rounded down to a multiple of 8, and goes behind the payload id. -/
class SizedRaptorq (E : outParam Type) (D : Type) extends EncodingRaptorq E D where
  encoded_nonempty : ∀ data size repair, Codable data size → encodedPackets data size repair ≠ []
  serialize_size : ∀ data size repair, Codable data size →
    ∀ e ∈ encodedPackets data size repair, (serialize e).length = 4+size/8*8

/-- All that is known of the packets. -/
class RadioRaptorq [Target] (E : outParam Type) (D : Type) extends CodingRaptorq E D, SizedRaptorq E D

def u16Size : Nat := 2

/-- The label of a packet. -/
def packetLabel : Nat := 0xa9f4

namespace Wire

variable [Target]

def readArr (size : Nat) (data : Bytes) (offset : Nat) : Outcome WireError (Bytes × Nat) := do
  let stop ← Outcome.okOr .unreachable (checkedAdd usizeMax offset size)
  let slice ← Outcome.okOr .outOfBounds (getRange data offset stop)
  if slice.length ≠ size then .err .unreachable
  else .ok (slice,stop)

def readU16 (data : Bytes) (offset : Nat) : Outcome WireError (U16 × Nat) := do
  let (lenArr,lenEnd) ← readArr u16Size data offset
  .ok (Fin.ofNat (2^16) (leNat lenArr),lenEnd)

def writeArr (data : Bytes) (offset : Nat) : Call Bytes WireError Nat := fun target =>
  match checkedAdd usizeMax offset data.length with
  | none => (.err .unreachable,target)
  | some stop =>
    match getRange target offset stop with
    | none => (.err .outOfBounds,target)
    | some _ => (.ok stop,overwrite target offset data)

def writeU16 (value offset : Nat) : Call Bytes WireError Nat := writeArr (leBytes u16Size value) offset

end Wire

structure WireReader (D : Type) where
  messageNumber : U16
  transferLength : U16
  decoder : D

namespace WireReader

variable [Target] {E D : Type} [Raptorq E D]

def new (data : Bytes) (mtu : U16) : Outcome WireError (WireReader D) := do
  let (label,offset) ← Wire.readU16 data 0
  if label.val ≠ packetLabel then .err .notPacket
  else do
    let (messageNumber,offset) ← Wire.readU16 data offset
    let (transferLength,_) ← Wire.readU16 data offset
    let maxPacketSize ← plainSub mtu.val 6
    if Raptorq.starts D transferLength.val maxPacketSize then
      .ok { messageNumber := messageNumber
            transferLength := transferLength
            decoder := Raptorq.decoder transferLength.val maxPacketSize }
    else .panic

omit [Target] in
/-- `self.decoder.decode(packet)`. -/
def decode (packet : E) : Call D WireError (Option Bytes) := fun decoder =>
  if Raptorq.takes packet decoder then (.ok (Raptorq.decode packet decoder).1,(Raptorq.decode packet decoder).2)
  else (.panic,decoder)

def acceptPacket (data : Bytes) : Call (WireReader D) WireError (Option Bytes) := do
  let (label,offset) ← Call.lift (Wire.readU16 data 0)
  if label.val ≠ packetLabel then Call.lift (.err .notPacket)
  else do
    let (messageNumber,offset) ← Call.lift (Wire.readU16 data offset)
    let (transferLength,offset) ← Call.lift (Wire.readU16 data offset)
    let reader : WireReader D ← Call.read .ok
    -- another number or length is another block
    if messageNumber ≠ reader.messageNumber ∨ transferLength ≠ reader.transferLength then
      Call.lift (.err (.wrongBlock messageNumber))
    else do
      let data ← Call.lift (Outcome.orPanic (if offset ≤ data.length then some (data.drop offset) else none))
      let packet ← Call.lift (Outcome.orPanic (Raptorq.deserialize D data))
      Call.field WireReader.decoder (fun decoder reader => { reader with decoder := decoder }) (decode packet)

omit [Raptorq E D] in
def checkPacket (data : Bytes) : Outcome WireError U16 := do
  let (label,offset) ← Wire.readU16 data 0
  if label.val ≠ packetLabel then .err .notPacket
  else do
    let (messageNumber,_) ← Wire.readU16 data offset
    .ok messageNumber

end WireReader

structure WireWriter (E : Type) where
  messageNumber : U16
  transferLength : U16
  encoded : List E
  lastSent : Nat

namespace WireWriter

variable {E D : Type} [Raptorq E D]

variable (D) in
def new (messageNumber mtu : U16) (data : Bytes) (repairPacketsPerBlock : Nat) : Outcome WireError (WireWriter E) :=
  if 2^16-1 < data.length then .panic
  else do
    let adjustedMtu ← plainSub mtu.val 6
    if Raptorq.encodes D data adjustedMtu then
      .ok { messageNumber := messageNumber
            transferLength := Fin.ofNat (2^16) data.length
            encoded := Raptorq.encodedPackets D data adjustedMtu repairPacketsPerBlock
            lastSent := 0 }
    else .panic

omit [Raptorq E D] in
def packetCount (writer : WireWriter E) : Nat := writer.encoded.length

variable (D) in
/-- A call on the writer and the buffer that it is given. -/
def next [Target] : Call (WireWriter E × Bytes) WireError Nat := do
  Call.modify (fun s => ({ s.1 with lastSent := (s.1.lastSent+1)%(usizeMax+1) },s.2))
  let writer ← Call.read (fun s : WireWriter E × Bytes => .ok s.1)
  -- the remainder panics where there is no packet
  let index ← Call.lift (if writer.encoded.length = 0 then .panic else .ok (writer.lastSent%writer.encoded.length))
  Call.field Prod.snd (fun buffer s => (s.1,buffer)) (do
    let offset ← Wire.writeU16 packetLabel 0
    let offset ← Wire.writeU16 writer.messageNumber.val offset
    let offset ← Wire.writeU16 writer.transferLength.val offset
    let target ← Call.read (fun buffer => Outcome.okOr .outOfBounds (getRange buffer offset buffer.length))
    let encoding ← Call.lift (Outcome.okOr .unreachable writer.encoded[index]?)
    let wrote := Raptorq.serialize D encoding
    -- `target[0..wrote.len()]` panics where the packet does not fit
    let _ ← Call.lift (Outcome.orPanic (getRange target 0 wrote.length))
    Call.modify (fun buffer => overwrite buffer offset wrote)
    pure (6+wrote.length))

end WireWriter

end Finder
