import Finder.Protocol.Wire

namespace Finder

instance desktop : Target := ⟨64,Or.inr rfl⟩

/-- Cryptography without secrets, for runs on given inputs: keys are numbers, and a signature is
the key itself. -/
structure PlainCrypto where
  counter : Nat

namespace PlainCrypto

def nodeOf (key : U64) : NodeId := ⟨⟨Fin.ofNat (2^256) key.val⟩⟩

def numberOf (b : Bytes) : Id := ⟨Fin.ofNat (2^256) (beNat b)⟩

def sealPlain {T : Type} [Postcard (Message T)] {e s : Nat} (sender : NodeId) (recipient : Recipient)
    (keyPair : KeyPair U64 U64) (message : Message T) (target : Nat) :
    Outcome CryptoError (SealedEnvelope T e s) :=
  if target < (toBytes message).length then .err (.postcardError .serializeBufferFull)
  else
    match HVec.fromSlice (toBytes message),HVec.fromSlice (encode keyPair.priv) with
    | some serialized,some signature => .ok ⟨sender,recipient,serialized,signature⟩
    | none,_ => .err .maxEnvelope
    | _,none => .err .maxSig

def openPlain {T : Type} [Postcard (Message T)] {e s : Nat} (key : U64) (envelope : SealedEnvelope T e s) :
    Outcome CryptoError (Message T) :=
  if envelope.signature.toList ≠ encode key then .err .verifyError
  else
    match (fromBytes envelope.serialized.toList : Except PostcardError (Message T)) with
    | .ok message => .ok message
    | .error e => .err (.postcardError e)

theorem nodeOf_injective : Function.Injective nodeOf := by
  intro a b h
  have hv := congrArg (fun n : NodeId => n.id.value.val) h
  have ha := a.isLt
  have hb := b.isLt
  simp only [nodeOf,Fin.ofNat] at hv
  rw [Nat.mod_eq_of_lt (by omega),Nat.mod_eq_of_lt (by omega)] at hv
  exact Fin.ext hv

theorem sealPlain_eq_ok {T : Type} [Postcard (Message T)] {e s : Nat} {sender : NodeId}
    {recipient : Recipient} {keyPair : KeyPair U64 U64} {message : Message T} {target : Nat}
    {envelope : SealedEnvelope T e s}
    (h : sealPlain sender recipient keyPair message target = .ok envelope) :
    envelope.sender = sender ∧ envelope.serialized.toList = toBytes message ∧
      envelope.signature.toList = encode keyPair.priv := by
  unfold sealPlain at h
  split_ifs at h
  split at h
  · rename_i serialized signature hs hg
    cases h
    exact ⟨rfl,HVec.fromSlice_eq_some.mp hs,HVec.fromSlice_eq_some.mp hg⟩
  · cases h
  · cases h

instance : IdealCrypto PlainCrypto U64 U64 where
  keyId := nodeOf
  envelopeId _ envelope := ⟨numberOf envelope.serialized.toList⟩
  sealEnvelope _ := sealPlain
  openEnvelope _ := openPlain
  nonce c := (BitVec.ofNat 128 c.counter,⟨c.counter+1⟩)
  channelIdFromBytes _ b := ⟨numberOf b⟩
  paired keyPair := keyPair.priv = keyPair.pub
  keyId_injective := nodeOf_injective
  open_seal _ _ sender recipient keyPair message target envelope hpair h := by
    obtain ⟨_,hs,hg⟩ := sealPlain_eq_ok h
    simp [openPlain,hs,hg,hpair]
  seal_sender _ _ _ _ _ _ _ h := (sealPlain_eq_ok h).1
  open_stateless _ _ _ _ := rfl
  envelopeId_stateless _ _ _ := rfl

/-- A client of its own key. -/
def client {maxChannels maxNodes slabSize : Nat} (key : U64) :
    Client maxChannels maxNodes slabSize PlainCrypto U64 U64 := Client.new ⟨key,key⟩ ⟨0⟩ FnvIndexMap.empty

/-- Blank memory of some slabs. -/
def blankIo (slabSize slabs : Nat) : MemIo slabSize := ⟨0,slabs,0,List.replicate (slabs*slabSize) 0⟩

def chatStr : Str := ⟨[99],rfl⟩

/-- The text that is sent on it. -/
def textStr : Str := ⟨[104],rfl⟩

def chatName : HString nameMax := ⟨chatStr,by decide⟩

/-- The channel of the first chat of a client, named `c`. -/
def chatId (key : U64) : ChannelId :=
  ⟨numberOf (encode (⟨0,chatName,key⟩ : NewChannel U64))⟩

/-- The bytes of a message that the owner of a key seals for a channel. -/
def sealedBy (key : U64) (channelId : ChannelId) (message : Message (Protocol U64)) : Bytes :=
  match (sealPlain (nodeOf key) (.channel channelId) ⟨key,key⟩ message scratch.length :
      Outcome CryptoError (ChatEnvelope U64)) with
  | .ok envelope => toBytes envelope
  | _ => []

/-- A buffer of one frame. -/
def framed (b : Bytes) : Bytes := beBytes u32Size b.length ++ b

end PlainCrypto

end Finder
