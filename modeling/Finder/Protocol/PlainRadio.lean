import Finder.Protocol.Plain
import Finder.Protocol.WireState

namespace Finder

section Codecs

variable {α : Type} {n : Nat}

/-- As many values as are asked for. -/
def decodeMany [Codec α] : Nat → Bytes → Option (List α × Bytes)
  | 0,b => some ([],b)
  | n+1,b => (decode b).bind (fun p => (decodeMany n p.2).map (fun q => (p.1::q.1,q.2)))

theorem decodeMany_flatMap [Codec α] (xs : List α) (rest : Bytes) :
    decodeMany xs.length (xs.flatMap encode ++ rest) = some (xs,rest) := by
  induction xs with
  | nil => rfl
  | cons x xs ih =>
    rw [List.flatMap_cons,List.append_assoc,List.length_cons,decodeMany]
    simp [ih]

theorem decodeMany_local [Codec α] (n : Nat) : Local (decodeMany n : Bytes → Option (List α × Bytes)) := by
  induction n with
  | zero =>
    intro b xs rest h more
    cases h
    rfl
  | succ n ih =>
    exact Codec.decode_local.bind (k := fun a b => (decodeMany n b).map (fun q => (a::q.1,q.2)))
      (fun a => ih.map (List.cons a))

def writtenMany [Codec α] : List α → Nat → Nat
  | [],_ => 0
  | x::xs,n =>
    if (encode x).length ≤ n then (encode x).length+writtenMany xs (n-(encode x).length) else Codec.written x n

/-- Values behind their number. -/
@[reducible] def Codec.vec [Codec α] : Codec (HVec α n) where
  encode v := lengthVarint v.toList.length ++ v.toList.flatMap encode
  decode b := (unLength b).bind (fun p => (decodeMany p.1 p.2).bind (fun q => (HVec.fromSlice q.1).map (fun v => (v,q.2))))
  written v n := writtenBehind (lengthVarint v.toList.length) n (writtenMany v.toList)
  decode_encode v rest := by
    have h : HVec.fromSlice v.toList = some v := HVec.fromSlice_eq_some.mpr rfl
    simp [decodeMany_flatMap,h]
  decode_local := unLength_local.bind
    (k := fun count b => (decodeMany count b).bind (fun q => (HVec.fromSlice q.1).map (fun v => (v,q.2))))
    (fun count => (decodeMany_local count).convert HVec.fromSlice)

instance : Codec Clock := Codec.via (fun c => (c.node,c.sequence)) (fun p => ⟨p.1,p.2⟩) (fun _ => rfl)

instance : Codec ChannelInfo :=
  Codec.via (fun c => (c.channelId,c.messageCount)) (fun p => ⟨p.1,p.2⟩) (fun _ => rfl)

instance : Codec (HVec Clock n) := Codec.vec

instance : Codec (HVec ChannelInfo n) := Codec.vec

instance : Codec (SyncRequest n) :=
  Codec.via (fun r => (r.sessionId,r.bytesBudget,r.vectorClock)) (fun p => ⟨p.1,p.2.1,p.2.2⟩) (fun _ => rfl)

instance : Codec (SyncResponse n) :=
  Codec.via (fun r => (r.sessionId,r.count,r.data)) (fun p => ⟨p.1,p.2.1,p.2.2⟩) (fun _ => rfl)

instance {maxChannels maxNodes responseMax : Nat} : Codec (NetworkProtocol maxChannels maxNodes responseMax) where
  encode
    | .hello id peerCount info => 0::encode (id,peerCount,info)
    | .syncRequest request => 1::encode request
    | .syncResponse response => 2::encode response
  decode
    | 0::b => (decode b : Option ((NodeId × UInt8 × HVec ChannelInfo maxChannels) × Bytes)).map
        (fun p => (.hello p.1.1 p.1.2.1 p.1.2.2,p.2))
    | 1::b => (decode b).map (fun p => (.syncRequest p.1,p.2))
    | 2::b => (decode b).map (fun p => (.syncResponse p.1,p.2))
    | _ => none
  written
    | .hello id peerCount info,n => writtenBehind [0] n (Codec.written (id,peerCount,info))
    | .syncRequest request,n => writtenBehind [1] n (Codec.written request)
    | .syncResponse response,n => writtenBehind [2] n (Codec.written response)
  decode_encode a rest := by cases a <;> simp
  decode_local b a rest h more := by
    dsimp only at h
    split at h
    · exact Local.tagged (fun p : NodeId × UInt8 × HVec ChannelInfo maxChannels => .hello p.1 p.2.1 p.2.2) _ a rest h more
    · exact Local.tagged .syncRequest _ a rest h more
    · exact Local.tagged .syncResponse _ a rest h more
    · cases h

end Codecs

/-- An encoding packet: a payload id and a symbol. -/
structure PlainPacket where
  id : Fin (2^32)
  symbol : Bytes
  deriving DecidableEq

def payloadIdSize : Nat := 4

namespace PlainPacket

theorem deserialize_eq_none (b : Bytes) : (if b.length < payloadIdSize then none
    else some (⟨Fin.ofNat (2^32) (beNat (b.take payloadIdSize)),b.drop payloadIdSize⟩ : PlainPacket)) = none ↔
      b.length < 4 := by
  by_cases hshort : b.length < payloadIdSize
  · rw [if_pos hshort]
    exact iff_of_true rfl hshort
  · rw [if_neg hshort]
    exact iff_of_false (by simp) hshort

theorem serialize_length (packet : PlainPacket) :
    4 ≤ (beBytes payloadIdSize packet.id.val ++ packet.symbol).length := by
  rw [List.length_append,beBytes_length]
  exact Nat.le_add_right _ _

end PlainPacket

end Finder
