import Finder.Framework.Postcard
import Finder.Protocol.Channel

namespace Finder

inductive CryptoError where
  | postcardError (error : PostcardError)
  | unreachable
  | internalError
  | maxEnvelope
  | maxSig
  | verifyError
  deriving DecidableEq

/-- An envelope for a message with payload `T`; the payload type is only a tag. -/
structure SealedEnvelope (T : Type) (maxEnvelope maxSig : Nat) where
  sender : NodeId
  recipient : Recipient
  serialized : HVec UInt8 maxEnvelope
  signature : HVec UInt8 maxSig

/-- The trait `Crypto`, with the two key types it is associated with. `sealEnvelope` takes the
length of the scratch slice it serializes into. -/
class Crypto (C : Type) (P S : outParam Type) where
  keyId : P → NodeId
  envelopeId {T : Type} {e s : Nat} : C → SealedEnvelope T e s → EnvelopeId
  sealEnvelope {T : Type} [Postcard (Message T)] {e s : Nat} :
    C → NodeId → Recipient → KeyPair S P → Message T → Nat →
      Outcome CryptoError (SealedEnvelope T e s)
  openEnvelope {T : Type} [Postcard (Message T)] {e s : Nat} :
    C → P → SealedEnvelope T e s → Outcome CryptoError (Message T)
  nonce : C → BitVec 128 × C
  channelIdFromBytes : C → Bytes → ChannelId

/-- `C::compute_id`. -/
def computeId (C : Type) {P S : Type} [Crypto C P S] (publicKey : P) : NodeId :=
  @Crypto.keyId C P S _ publicKey

/-- Ideal cryptography: no two keys share an id, an envelope sealed under a pair of keys opens under
its public one, and neither opening nor naming an envelope reads the generator of the nonces. -/
class IdealCrypto (C : Type) (P S : outParam Type) extends Crypto C P S where
  paired : KeyPair S P → Prop
  keyId_injective : Function.Injective keyId
  open_seal : ∀ {T : Type} [Postcard (Message T)] {e s : Nat} (c c' : C) (sender : NodeId)
    (recipient : Recipient) (keyPair : KeyPair S P) (message : Message T) (target : Nat)
    (envelope : SealedEnvelope T e s), paired keyPair →
      sealEnvelope c sender recipient keyPair message target = .ok envelope →
        openEnvelope c' keyPair.pub envelope = .ok message
  seal_sender : ∀ {T : Type} [Postcard (Message T)] {e s : Nat} (c : C) (sender : NodeId)
    (recipient : Recipient) (keyPair : KeyPair S P) (message : Message T) (target : Nat)
    (envelope : SealedEnvelope T e s), sealEnvelope c sender recipient keyPair message target = .ok envelope →
      envelope.sender = sender
  open_stateless : ∀ {T : Type} [Postcard (Message T)] {e s : Nat} (c c' : C) (publicKey : P)
    (envelope : SealedEnvelope T e s), openEnvelope c publicKey envelope = openEnvelope c' publicKey envelope
  envelopeId_stateless : ∀ {T : Type} {e s : Nat} (c c' : C) (envelope : SealedEnvelope T e s),
    envelopeId c envelope = envelopeId c' envelope

/-- A key pair whose two halves belong together. -/
def Paired (C : Type) {P S : Type} [IdealCrypto C P S] (keyPair : KeyPair S P) : Prop :=
  @IdealCrypto.paired C P S _ keyPair

theorem computeId_injective (C : Type) {P S : Type} [IdealCrypto C P S] :
    Function.Injective (computeId C : P → NodeId) := IdealCrypto.keyId_injective

end Finder
