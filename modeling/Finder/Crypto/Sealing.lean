import Finder.Protocol.RustCrypto
import Finder.Protocol.Wire

namespace Finder

variable {D P S Seed Signature Rng T : Type} {e s : Nat}

section Recipient

/-- The recipient of the other kind with the same id. -/
def Recipient.exchanged : Recipient → Recipient
  | .node n => .channel ⟨n.id⟩
  | .channel c => .node ⟨c.id⟩

@[simp] theorem NodeId.toBeBytes_length (n : NodeId) : n.toBeBytes.length = sha256Size := by
  simp [NodeId.toBeBytes,Id.toBeBytes]

@[simp] theorem Recipient.toBeBytes_length (r : Recipient) : r.toBeBytes.length = sha256Size := by
  cases r <;> simp [Recipient.toBeBytes,NodeId.toBeBytes,ChannelId.toBeBytes,Id.toBeBytes]

theorem NodeId.toBeBytes_injective : Function.Injective NodeId.toBeBytes :=
  fun _ _ h => NodeId.ext (Id.toBeBytes_injective h)

/-- The bytes of a recipient tell its id and not its kind. -/
theorem Recipient.toBeBytes_eq_iff {r r' : Recipient} : r'.toBeBytes = r.toBeBytes ↔ r' = r ∨ r' = r.exchanged := by
  constructor
  · intro h
    cases r <;> cases r' <;> rename_i a b <;> have hid := Id.toBeBytes_injective h
    · exact Or.inl (congrArg Recipient.node (NodeId.ext hid))
    · exact Or.inr (congrArg Recipient.channel (ChannelId.ext hid))
    · exact Or.inr (congrArg Recipient.node (NodeId.ext hid))
    · exact Or.inl (congrArg Recipient.channel (ChannelId.ext hid))
  · rintro (rfl | rfl)
    · rfl
    · cases r <;> rfl

theorem Recipient.exchanged_ne (r : Recipient) : r.exchanged ≠ r := by
  cases r <;> simp [Recipient.exchanged]

end Recipient

theorem SealedEnvelope.new_eq_ok {sender : NodeId} {recipient : Recipient} {serialized signature : Bytes}
    {envelope : SealedEnvelope T e s}
    (h : SealedEnvelope.new sender recipient serialized signature = .ok envelope) :
    envelope.sender = sender ∧ envelope.recipient = recipient ∧ envelope.serialized.toList = serialized ∧
      envelope.signature.toList = signature := by
  unfold SealedEnvelope.new at h
  split at h
  · cases h
  · rename_i data hdata
    split at h
    · cases h
    · rename_i sig hsig
      cases h
      exact ⟨rfl,rfl,HVec.fromSlice_eq_some.mp hdata,HVec.fromSlice_eq_some.mp hsig⟩

/-- Ideal crates: no two byte strings have one digest, a signature is read back from its bytes and made over one digest
only, and a public key accepts exactly what its private key has signed. -/
structure CryptoCrates.Ideal (crates : CryptoCrates D P S Seed Signature Rng) : Prop where
  sha256_injective : Function.Injective crates.sha256
  tryFrom_toBytes : ∀ signature, crates.tryFrom (crates.toBytes signature) = some signature
  sign_once : ∀ key seed seed' hash hash' signature, crates.signWithRng key seed hash = some signature →
    crates.signWithRng key seed' hash' = some signature → hash' = hash
  verify_iff : ∀ key hash signature, crates.verify (crates.publicKey key) hash signature = true ↔
    ∃ seed, crates.signWithRng key seed hash = some signature

namespace RustCrypto

variable {crates : CryptoCrates D P S Seed Signature Rng} {crypto crypto' : RustCrypto crates} {sender : NodeId}
  {recipient : Recipient} {keyPair : KeyPair S P} {message : Message T} {target : Nat}
  {envelope envelope' : SealedEnvelope T e s}

variable [Postcard (Message T)]

/-- An envelope that is sealed holds what it was sealed for, and a signature over just that. -/
theorem sealEnvelope_eq_ok (h : crypto.sealEnvelope sender recipient keyPair message target = .ok envelope) :
    envelope.sender = sender ∧ envelope.recipient = recipient ∧ envelope.serialized.toList = toBytes message ∧
      ∃ seed signature, crates.signWithRng keyPair.priv seed (crates.sha256 (sender.toBeBytes ++
        (recipient.toBeBytes ++ toBytes message))) = some signature ∧
        envelope.signature.toList = crates.toBytes signature := by
  obtain ⟨serialized,hserialized,h1⟩ := Outcome.bind_eq_ok.mp h
  obtain ⟨encoded,_,h2⟩ := Outcome.bind_eq_ok.mp h1
  obtain ⟨seed,_,h3⟩ := Outcome.bind_eq_ok.mp h2
  obtain ⟨signature,hsign,hnew⟩ := Outcome.bind_eq_ok.mp h3
  have hbytes : serialized = toBytes message := by
    unfold serializeInto toSlice at hserialized
    split_ifs at hserialized
    cases hserialized
    rfl
  subst hbytes
  obtain ⟨hsender,hrecipient,hdata,hsig⟩ := SealedEnvelope.new_eq_ok hnew
  refine ⟨hsender,hrecipient,hdata,seed,signature,?_,hsig⟩
  cases hsigned : crates.signWithRng keyPair.priv seed (crates.sha256 (sender.toBeBytes ++
      (recipient.toBeBytes ++ toBytes message))) with
  | none =>
    rw [hsigned] at hsign
    cases hsign
  | some sig =>
    rw [hsigned] at hsign
    cases hsign
    rfl

theorem openEnvelope_eq_ok {key : P} : crypto.openEnvelope key envelope = .ok message ↔
    ∃ signature, crates.tryFrom envelope.signature.toList = some signature ∧
      crates.verify key (crates.sha256 (envelope.sender.toBeBytes ++ (envelope.recipient.toBeBytes ++
        envelope.serialized.toList))) signature = true ∧
      fromBytes envelope.serialized.toList = (.ok message : Except PostcardError (Message T)) := by
  unfold openEnvelope
  cases hread : crates.tryFrom envelope.signature.toList with
  | none => simp
  | some signature =>
    simp only [Outcome.okOr_some,Outcome.ok_bind,Option.some.injEq,exists_eq_left']
    split_ifs with hverify
    · cases hparse : (fromBytes envelope.serialized.toList : Except PostcardError (Message T)) with
      | ok m => simp [hverify]
      | error e => simp
    · simp [hverify]

omit [Postcard (Message T)] in
/-- The bytes that are hashed tell the sender, the id of the recipient and the payload apart. -/
theorem hashed_eq_iff : envelope'.sender.toBeBytes ++ (envelope'.recipient.toBeBytes ++ envelope'.serialized.toList) =
      envelope.sender.toBeBytes ++ (envelope.recipient.toBeBytes ++ envelope.serialized.toList) ↔
    envelope'.sender = envelope.sender ∧ (envelope'.recipient = envelope.recipient ∨
      envelope'.recipient = envelope.recipient.exchanged) ∧
      envelope'.serialized.toList = envelope.serialized.toList := by
  rw [←Recipient.toBeBytes_eq_iff]
  constructor
  · intro h
    obtain ⟨hsender,hrest⟩ := List.append_inj h (by simp)
    obtain ⟨hrecipient,hserialized⟩ := List.append_inj hrest (by simp)
    exact ⟨NodeId.toBeBytes_injective hsender,hrecipient,hserialized⟩
  · rintro ⟨hsender,hrecipient,hserialized⟩
    rw [hsender,hrecipient,hserialized]

/-- Of the envelopes that carry the signature, those with the hashed bytes of the sealed one open, and no others. -/
theorem open_sealed_iff (hideal : crates.Ideal) (hpaired : keyPair.pub = crates.publicKey keyPair.priv)
    (hseal : crypto.sealEnvelope sender recipient keyPair message target = .ok envelope)
    (hsig : envelope'.signature.toList = envelope.signature.toList) {opened : Message T} :
    crypto'.openEnvelope keyPair.pub envelope' = .ok opened ↔ opened = message ∧
      envelope'.sender = sender ∧ (envelope'.recipient = recipient ∨ envelope'.recipient = recipient.exchanged) ∧
        envelope'.serialized.toList = toBytes message := by
  obtain ⟨rfl,rfl,hdata,seed,signature,hsign,hbytes⟩ := sealEnvelope_eq_ok hseal
  rw [←hdata] at hsign ⊢
  rw [←hashed_eq_iff,openEnvelope_eq_ok,hsig,hbytes,hideal.tryFrom_toBytes,hpaired]
  simp only [Option.some.injEq,exists_eq_left',hideal.verify_iff]
  constructor
  · rintro ⟨⟨seed',hsign'⟩,hparse⟩
    have hhash := hideal.sha256_injective (hideal.sign_once _ _ _ _ _ _ hsign hsign')
    refine ⟨?_,hhash⟩
    rw [(hashed_eq_iff.mp hhash).2.2,hdata,Postcard.fromBytes_toBytes] at hparse
    exact (Except.ok.inj hparse).symm
  · rintro ⟨rfl,hhash⟩
    rw [hhash,(hashed_eq_iff.mp hhash).2.2,hdata,Postcard.fromBytes_toBytes]
    exact ⟨⟨seed,by rw [←hdata]; exact hsign⟩,rfl⟩

/-- A sealed envelope opens to its message, and of the envelopes that carry its signature none opens but itself,
exactly as long as it is not the one whose recipient is of the other kind: the signature does not cover that. -/
theorem seal_binds_iff (hideal : crates.Ideal) (hpaired : keyPair.pub = crates.publicKey keyPair.priv)
    (hseal : crypto.sealEnvelope sender recipient keyPair message target = .ok envelope) (crypto' : RustCrypto crates) :
    crypto'.openEnvelope keyPair.pub envelope = .ok message ∧
    ∀ envelope' : SealedEnvelope T e s, envelope'.signature.toList = envelope.signature.toList →
      (((∃ opened, crypto'.openEnvelope keyPair.pub envelope' = .ok opened) → envelope'.sender = sender ∧
        envelope'.recipient = recipient ∧ envelope'.serialized.toList = toBytes message) ↔
      ¬(envelope'.sender = sender ∧ envelope'.recipient = recipient.exchanged ∧
        envelope'.serialized.toList = toBytes message)) := by
  obtain ⟨hsender,hrecipient,hdata,_⟩ := sealEnvelope_eq_ok hseal
  refine ⟨(open_sealed_iff hideal hpaired hseal rfl).mpr ⟨rfl,hsender,Or.inl hrecipient,hdata⟩,fun envelope' hsig => ?_⟩
  constructor
  · rintro hbinds ⟨hsender',hrecipient',hdata'⟩
    obtain ⟨_,hsame,_⟩ := hbinds ⟨message,(open_sealed_iff hideal hpaired hseal hsig).mpr
      ⟨rfl,hsender',Or.inr hrecipient',hdata'⟩⟩
    exact recipient.exchanged_ne (hrecipient'.symm.trans hsame)
  · rintro hother ⟨opened,hopen⟩
    obtain ⟨_,hsender',hrecipient' | hrecipient',hdata'⟩ := (open_sealed_iff hideal hpaired hseal hsig).mp hopen
    · exact ⟨hsender',hrecipient',hdata'⟩
    · exact absurd ⟨hsender',hrecipient',hdata'⟩ hother

omit [Postcard (Message T)] in
/-- On ideal crates, and where no two keys have one id, it is ideal cryptography. -/
@[reducible] def ideal (hideal : crates.Ideal) (hids : Function.Injective (computeId crates)) :
    IdealCrypto (RustCrypto crates) P S where
  paired keyPair := keyPair.pub = crates.publicKey keyPair.priv
  keyId_injective := hids
  open_seal _ _ _ _ _ _ _ _ hpaired hseal := by
    obtain ⟨hsender,hrecipient,hdata,_⟩ := sealEnvelope_eq_ok hseal
    exact (open_sealed_iff hideal hpaired hseal rfl).mpr ⟨rfl,hsender,Or.inl hrecipient,hdata⟩
  seal_sender _ _ _ _ _ _ _ hseal := (sealEnvelope_eq_ok hseal).1
  open_stateless _ _ _ _ := rfl
  envelopeId_stateless _ _ _ := rfl

end RustCrypto

section Plain

/-- Crates without secrets: a digest is what was hashed, and a signature is the key before the digest. -/
def plainCrates : CryptoCrates Bytes U64 U64 Unit Bytes Nat where
  sha256 b := b
  digestId b := ⟨Fin.ofNat (2^256) (beNat b)⟩
  publicKeyDer key := beBytes 8 key.val
  pkcs8Der key := some (beBytes 8 key.val)
  publicKey key := key
  expand _ _ := some ()
  signWithRng key _ digest := some (beBytes 8 key.val ++ digest)
  toBytes signature := signature
  tryFrom b := some b
  verify key digest signature := decide (signature = beBytes 8 key.val ++ digest)
  gen n := (BitVec.ofNat 128 n,n+1)

theorem plainCrates_ideal : plainCrates.Ideal where
  sha256_injective _ _ h := h
  tryFrom_toBytes _ := rfl
  sign_once _ _ _ _ _ _ h h' := List.append_cancel_left ((Option.some.inj h').trans (Option.some.inj h).symm)
  verify_iff _ _ _ := by simp [plainCrates,eq_comm]

theorem plainCrates_computeId_injective : Function.Injective (RustCrypto.computeId plainCrates) := by
  intro a b h
  have hv := congrArg (fun n : NodeId => n.id.value.val) h
  have ha := a.isLt
  have hb := b.isLt
  simp only [RustCrypto.computeId,plainCrates,beNat_beBytes,Fin.ofNat] at hv
  rw [Nat.mod_eq_of_lt (by omega),Nat.mod_eq_of_lt (by omega),Nat.mod_eq_of_lt (by omega),
    Nat.mod_eq_of_lt (by omega)] at hv
  exact Fin.ext hv

/-- The plain crates are ideal, and no two keys have one id under them. -/
@[reducible] def plainIdeal : IdealCrypto (RustCrypto plainCrates) U64 U64 :=
  RustCrypto.ideal plainCrates_ideal plainCrates_computeId_injective

def firstMessage : Message U64 := ⟨⟨Id.ofByte 1⟩,0,1,5⟩

/-- An envelope for a node, sealed under the key 7. -/
def sealedForNode : Outcome CryptoError (SealedEnvelope U64 64 256) :=
  (⟨0⟩ : RustCrypto plainCrates).sealEnvelope ⟨Id.ofByte 1⟩ (.node ⟨Id.ofByte 2⟩) ⟨7,7⟩ firstMessage 4096

theorem sealedForNode_ok : ∃ envelope : SealedEnvelope U64 64 256, sealedForNode = .ok envelope := by
  have hok : sealedForNode.value.isSome := by decide +kernel
  obtain ⟨envelope,hvalue⟩ := Option.isSome_iff_exists.mp hok
  exact ⟨envelope,Outcome.value_eq_some.mp hvalue⟩

/-- It opens with a channel for its recipient just as well. -/
theorem recipient_kind_not_bound : plainCrates.Ideal ∧ ∃ envelope envelope' : SealedEnvelope U64 64 256,
    sealedForNode = .ok envelope ∧ envelope'.signature = envelope.signature ∧
      (⟨0⟩ : RustCrypto plainCrates).openEnvelope 7 envelope' = .ok firstMessage ∧
      envelope'.recipient ≠ envelope.recipient := by
  refine ⟨plainCrates_ideal,?_⟩
  obtain ⟨envelope,hseal⟩ := sealedForNode_ok
  obtain ⟨hsender,hrecipient,hdata,_⟩ := RustCrypto.sealEnvelope_eq_ok hseal
  have hpaired : (⟨7,7⟩ : KeyPair U64 U64).pub = plainCrates.publicKey (⟨7,7⟩ : KeyPair U64 U64).priv := rfl
  obtain ⟨envelope',hother⟩ : ∃ other : SealedEnvelope U64 64 256,
      other = ⟨envelope.sender,.channel ⟨Id.ofByte 2⟩,envelope.serialized,envelope.signature⟩ := ⟨_,rfl⟩
  have hsig : envelope'.signature = envelope.signature := by rw [hother]
  refine ⟨envelope,envelope',hseal,hsig,?_,by rw [hother,hrecipient]; simp⟩
  refine (RustCrypto.open_sealed_iff plainCrates_ideal hpaired hseal (by rw [hsig])).mpr ⟨rfl,?_,Or.inr ?_,?_⟩
  · rw [hother]
    exact hsender
  · rw [hother]
    rfl
  · rw [hother]
    exact hdata

/-- The sealed envelope itself opens, and so does no other one that keeps a node for its recipient. -/
theorem seal_binds_sealedForNode : ∃ envelope : SealedEnvelope U64 64 256, sealedForNode = .ok envelope ∧
    (⟨0⟩ : RustCrypto plainCrates).openEnvelope 7 envelope = .ok firstMessage ∧
    ∀ envelope' : SealedEnvelope U64 64 256, envelope'.signature.toList = envelope.signature.toList →
      (((∃ opened, (⟨0⟩ : RustCrypto plainCrates).openEnvelope 7 envelope' = .ok opened) →
        envelope'.sender = ⟨Id.ofByte 1⟩ ∧ envelope'.recipient = .node ⟨Id.ofByte 2⟩ ∧
          envelope'.serialized.toList = toBytes firstMessage) ↔
      ¬(envelope'.sender = ⟨Id.ofByte 1⟩ ∧ envelope'.recipient = (Recipient.node ⟨Id.ofByte 2⟩).exchanged ∧
        envelope'.serialized.toList = toBytes firstMessage)) := by
  obtain ⟨envelope,hseal⟩ := sealedForNode_ok
  have hpaired : (⟨7,7⟩ : KeyPair U64 U64).pub = plainCrates.publicKey (⟨7,7⟩ : KeyPair U64 U64).priv := rfl
  obtain ⟨hopen,hbinds⟩ := RustCrypto.seal_binds_iff plainCrates_ideal hpaired hseal ⟨0⟩
  exact ⟨envelope,hseal,hopen,hbinds⟩

end Plain

end Finder
