import Finder.Framework.Codec
import Finder.Protocol.Client
import Finder.Storage.Layout

namespace Finder

/-- An envelope takes its two byte strings, a sender, a recipient and two lengths. -/
class EnvelopeCodec (P : Type) extends Postcard (ChatEnvelope P) where
  bounded : ∀ envelope : ChatEnvelope P, (toBytes envelope).length ≤
    envelope.serialized.toList.length+envelope.signature.toList.length+85

instance : Codec Id where
  encode := Id.toBeBytes
  decode b := (takeBytes sha256Size b).map (fun p => (⟨Fin.ofNat (2^256) (beNat p.1)⟩,p.2))
  -- an array goes byte by byte
  written _ n := min n sha256Size
  decode_encode a rest := by
    have hlen : a.toBeBytes.length = sha256Size := by simp [Id.toBeBytes]
    have htake := takeBytes_append a.toBeBytes rest
    rw [hlen] at htake
    have hval : beNat a.toBeBytes = a.value.val := by
      rw [Id.toBeBytes,beNat_beBytes]
      exact Nat.mod_eq_of_lt a.value.isLt
    simp [htake,hval]
  decode_local := (takeBytes_local _).map (fun x => (⟨Fin.ofNat (2^256) (beNat x)⟩ : Id))

instance : Codec NodeId := Codec.via NodeId.id NodeId.mk (fun _ => rfl)
instance : Codec ChannelId := Codec.via ChannelId.id ChannelId.mk (fun _ => rfl)

instance : Codec Recipient where
  encode
    | .node id => 0::encode id
    | .channel id => 1::encode id
  decode
    | 0::b => (decode b).map (fun p => (.node p.1,p.2))
    | 1::b => (decode b).map (fun p => (.channel p.1,p.2))
    | _ => none
  written
    | .node id,n => writtenBehind [0] n (Codec.written id)
    | .channel id,n => writtenBehind [1] n (Codec.written id)
  decode_encode a rest := by cases a <;> simp
  decode_local b a rest h more := by
    dsimp only at h
    split at h
    · exact Local.tagged .node _ a rest h more
    · exact Local.tagged .channel _ a rest h more
    · cases h

def varintU128 : Nat := 19

instance : Codec (BitVec 128) where
  encode a := varint varintU128 a.toNat
  decode b := (unvarint varintU128 b).bind (fun p => ((inRange (2^128) p.1).map BitVec.ofFin).map (fun a => (a,p.2)))
  written a n := writtenBehind (varint varintU128 a.toNat) n (fun _ => 0)
  decode_encode a rest := by
    have hlt : a.toNat < 128^(18+1) := lt_of_lt_of_le a.isLt (by decide)
    have hread := unvarint_varint (n := 18) (m := varintU128) hlt (varint_length hlt) rest
    have hsame : unvarint varintU128 (varint varintU128 a.toNat ++ rest) = some (a.toNat,rest) := hread
    have hfin : inRange (2^128) a.toNat = some a.toFin := inRange_val a.toFin
    rw [hsame,Option.bind_some,hfin]
    rfl
  decode_local := (unvarint_local _).convert (fun v => (inRange (2^128) v).map BitVec.ofFin)

instance : Codec Record :=
  Codec.via (fun r => (r.maxSequence,r.messageCount,r.sequence,r.sender,r.data))
    (fun p => ⟨p.1,p.2.1,p.2.2.1,p.2.2.2.1,p.2.2.2.2⟩) (fun _ => rfl)

@[simp] theorem encode_id_length (a : Id) : (encode a).length = sha256Size := by simp [encode,Id.toBeBytes]

theorem record_positive (r : Record) : 0 < (toBytes r).length := by
  change 0 < (encode r.maxSequence ++ (encode r.messageCount ++ (encode r.sequence ++
    (encode r.sender.id ++ encode r.data)))).length
  simp only [List.length_append,encode_id_length,sha256Size]
  omega

theorem record_bounded (r : Record) (hr : r.data.length < 2^64) : (toBytes r).length ≤ r.data.length+72 := by
  have h1 := varint_u64_length (n := varintU64) r.maxSequence.isLt
  have h2 := varint_u64_length (n := varintU64) r.messageCount.isLt
  have h3 := varint_u64_length (n := varintU64) r.sequence.isLt
  have h4 := lengthPrefixed_length hr
  change (encode r.maxSequence ++ (encode r.messageCount ++ (encode r.sequence ++
    (encode r.sender.id ++ encode r.data)))).length ≤ _
  simp only [List.length_append,encode_id_length,sha256Size]
  simp only [encode,varintU64] at *
  omega

instance : RecordCodec where
  toPostcard := Codec.postcard
  positive := record_positive
  bounded := record_bounded

instance : PrefixCodec where
  truncated _ _ _ hn := fromBytes_take hn

variable {P T : Type} {e s : Nat}

instance [Codec P] : Codec (NewChannel P) :=
  Codec.via (fun m => (m.nonce,m.name,m.owner)) (fun p => ⟨p.1,p.2.1,p.2.2⟩) (fun _ => rfl)
instance [Codec P] : Codec (AddUser P) :=
  Codec.via (fun m => (m.name,m.key)) (fun p => ⟨p.1,p.2⟩) (fun _ => rfl)
instance : Codec ChatMessage := Codec.via ChatMessage.text ChatMessage.mk (fun _ => rfl)

instance [Codec P] : Codec (Protocol P) where
  encode
    | .addUser m => 0::encode m
    | .newChannel m => 1::encode m
    | .chatMessage m => 2::encode m
  decode
    | 0::b => (decode b).map (fun p => (.addUser p.1,p.2))
    | 1::b => (decode b).map (fun p => (.newChannel p.1,p.2))
    | 2::b => (decode b).map (fun p => (.chatMessage p.1,p.2))
    | _ => none
  written
    | .addUser m,n => writtenBehind [0] n (Codec.written m)
    | .newChannel m,n => writtenBehind [1] n (Codec.written m)
    | .chatMessage m,n => writtenBehind [2] n (Codec.written m)
  decode_encode a rest := by cases a <;> simp
  decode_local b a rest h more := by
    dsimp only at h
    split at h
    · exact Local.tagged .addUser _ a rest h more
    · exact Local.tagged .newChannel _ a rest h more
    · exact Local.tagged .chatMessage _ a rest h more
    · cases h

instance [Codec T] : Codec (Message T) :=
  Codec.via (fun m => (m.cause,m.senderLast,m.sequence,m.data)) (fun p => ⟨p.1,p.2.1,p.2.2.1,p.2.2.2⟩)
    (fun _ => rfl)

instance : Codec (SealedEnvelope T e s) :=
  Codec.via (fun m => (m.sender,m.recipient,m.serialized,m.signature))
    (fun p => ⟨p.1,p.2.1,p.2.2.1,p.2.2.2⟩) (fun _ => rfl)

theorem encode_recipient_length (r : Recipient) : (encode r).length = sha256Size+1 := by
  cases r with
  | node id => exact congrArg (·+1) (encode_id_length id.id)
  | channel id => exact congrArg (·+1) (encode_id_length id.id)

instance : EnvelopeCodec P where
  toPostcard := Codec.postcard
  bounded envelope := by
    have h1 := envelope.serialized.bounded
    have h2 := envelope.signature.bounded
    simp only [maxEnvelope,maxSig] at h1 h2
    have h3 := lengthPrefixed_length (b := envelope.serialized.toList) (by omega)
    have h4 := lengthPrefixed_length (b := envelope.signature.toList) (by omega)
    change (encode envelope.sender.id ++ (encode envelope.recipient ++ (encode envelope.serialized.toList ++
      encode envelope.signature.toList))).length ≤ _
    simp only [List.length_append,encode_id_length,encode_recipient_length,sha256Size]
    simp only [encode,varintU64] at *
    omega

theorem envelopeCodec_toPostcard : (EnvelopeCodec.toPostcard : Postcard (ChatEnvelope P)) = Codec.postcard := rfl

/-- What follows an envelope is not looked at. -/
theorem decodeAs_append (envelope : ChatEnvelope P) (rest : Bytes) :
    decodeAs (ChatEnvelope P) (toBytes envelope ++ rest) = .ok envelope := by
  rw [decodeAs,envelopeCodec_toPostcard,fromBytes_append]

end Finder
