import Finder.Protocol.Crypto

namespace Finder

variable {D P S Seed Signature Rng T : Type} {e s : Nat}

def SealedEnvelope.new (sender : NodeId) (recipient : Recipient) (serialized signature : Bytes) :
    Outcome CryptoError (SealedEnvelope T e s) :=
  match HVec.fromSlice serialized with
  | none => .err .maxEnvelope
  | some data =>
    match HVec.fromSlice signature with
    | none => .err .maxSig
    | some sig => .ok ⟨sender,recipient,data,sig⟩

/-- What `RustCrypto` takes from its crates: SHA-256 with digests in `D`, the encodings of the keys, HKDF into
the seed of the generator a signature is made with, RSA, and the generator of the nonces. -/
structure CryptoCrates (D P S Seed Signature Rng : Type) where
  sha256 : Bytes → D
  digestId : D → Id
  publicKeyDer : P → Bytes
  pkcs8Der : S → Option Bytes
  publicKey : S → P
  expand : Bytes → D → Option Seed
  signWithRng : S → Seed → D → Option Signature
  toBytes : Signature → Bytes
  tryFrom : Bytes → Option Signature
  verify : P → D → Signature → Bool
  gen : Rng → BitVec 128 × Rng

structure RustCrypto (crates : CryptoCrates D P S Seed Signature Rng) where
  rng : Rng

namespace RustCrypto

variable {crates : CryptoCrates D P S Seed Signature Rng}

def computeId (crates : CryptoCrates D P S Seed Signature Rng) (key : P) : NodeId :=
  ⟨crates.digestId (crates.sha256 (crates.publicKeyDer key))⟩

def envelopeId (_ : RustCrypto crates) (sealed : SealedEnvelope T e s) : EnvelopeId :=
  ⟨crates.digestId (crates.sha256 (sealed.sender.toBeBytes ++ (sealed.recipient.toBeBytes ++
    (sealed.serialized.toList ++ sealed.signature.toList))))⟩

/-- `to_slice` into a slice of the given length. -/
def serializeInto [Postcard (Message T)] (message : Message T) (target : Nat) : Outcome CryptoError Bytes :=
  match (toSlice message (List.replicate target 0)).1 with
  | .ok serialized => .ok serialized
  | .error e => .err (.postcardError e)

/-- `seal`, with the length of the slice it serializes into. -/
def sealEnvelope [Postcard (Message T)] (_ : RustCrypto crates) (sender : NodeId) (recipient : Recipient)
    (keyPair : KeyPair S P) (message : Message T) (target : Nat) : Outcome CryptoError (SealedEnvelope T e s) := do
  let serialized ← serializeInto message target
  let messageHash := crates.sha256 (sender.toBeBytes ++ (recipient.toBeBytes ++ serialized))
  let encoded ← Outcome.okOr .internalError (crates.pkcs8Der keyPair.priv)
  let seed ← Outcome.okOr .unreachable (crates.expand encoded messageHash)
  -- the signer of the crate panics where it fails
  let signature ← Outcome.orPanic (crates.signWithRng keyPair.priv seed messageHash)
  SealedEnvelope.new sender recipient serialized (crates.toBytes signature)

def openEnvelope [Postcard (Message T)] (_ : RustCrypto crates) (key : P) (sealed : SealedEnvelope T e s) :
    Outcome CryptoError (Message T) := do
  let envelopeHash := crates.sha256 (sealed.sender.toBeBytes ++ (sealed.recipient.toBeBytes ++
    sealed.serialized.toList))
  let signature ← Outcome.okOr .internalError (crates.tryFrom sealed.signature.toList)
  if crates.verify key envelopeHash signature then
    match (fromBytes sealed.serialized.toList : Except PostcardError (Message T)) with
    | .ok opened => .ok opened
    | .error e => .err (.postcardError e)
  else .err .verifyError

def nonce (crypto : RustCrypto crates) : BitVec 128 × RustCrypto crates :=
  ((crates.gen crypto.rng).1,⟨(crates.gen crypto.rng).2⟩)

def channelIdFromBytes (_ : RustCrypto crates) (data : Bytes) : ChannelId :=
  ⟨crates.digestId (crates.sha256 data)⟩

instance : Crypto (RustCrypto crates) P S where
  keyId := computeId crates
  envelopeId := envelopeId
  sealEnvelope := sealEnvelope
  openEnvelope := openEnvelope
  nonce := nonce
  channelIdFromBytes := channelIdFromBytes

end RustCrypto

end Finder
