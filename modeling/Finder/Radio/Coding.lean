import Finder.Radio.Turns
import Mathlib.Logic.Relation

namespace Finder

/-- What a reader returns for each of the packets that it is given. -/
def WireReader.acceptAll [Target] {E D : Type} [Raptorq E D] :
    List Bytes → WireReader D → List (Outcome WireError (Option Bytes))
  | [],_ => []
  | data::datas,reader => (acceptPacket data reader).1::acceptAll datas (acceptPacket data reader).2

section Reader

variable [Target] {E D : Type} [CodingRaptorq E D] {w : WireWriter E} {reader : WireReader D} {e : E}

theorem WireWriter.wirePacket_inj {e' : E} (h : w.wirePacket D e = w.wirePacket D e') : e = e' := by
  have hserialize : Raptorq.serialize D e = Raptorq.serialize D e' := List.append_cancel_left h
  have hread := CodingRaptorq.deserialize_serialize (D := D) e
  rw [hserialize,CodingRaptorq.deserialize_serialize] at hread
  exact (Option.some.inj hread).symm

/-- Packets of a writer's are those of encoded packets. -/
theorem WireWriter.exists_encoded {fed : List Bytes} (h : ∀ p ∈ fed, p ∈ w.packets D) :
    ∃ es : List E, fed = es.map (w.wirePacket D) ∧ ∀ e ∈ es, e ∈ w.encoded := by
  induction fed with
  | nil => exact ⟨[],rfl,by simp⟩
  | cons p fed ih =>
    obtain ⟨es,hes,hall⟩ := ih (fun q hq => h q (List.mem_cons_of_mem _ hq))
    obtain ⟨e,he,hp⟩ := List.mem_map.mp (h p List.mem_cons_self)
    refine ⟨e::es,by rw [List.map_cons,hes,hp],fun x hx => ?_⟩
    rcases List.mem_cons.mp hx with rfl | hx
    · exact he
    · exact hall x hx

/-- A reader of the writer's message gives its decoder what has been encoded. -/
theorem WireReader.acceptAll_encoded (hnumber : reader.messageNumber = w.messageNumber)
    (hlength : reader.transferLength = w.transferLength) (es : List E)
    (htakes : Raptorq.takesAll es reader.decoder = true) :
    acceptAll (es.map (w.wirePacket D)) reader = (Raptorq.decodeAll es reader.decoder).map .ok := by
  induction es generalizing reader with
  | nil => rfl
  | cons e es ih =>
    have hparts := packetParts_header w.messageNumber w.transferLength (Raptorq.serialize D e)
    have haccept := acceptPacket_eq hparts reader
    rw [if_pos ⟨hnumber.symm,hlength.symm⟩,CodingRaptorq.deserialize_serialize] at haccept
    obtain ⟨hfirst,hothers⟩ := Bool.and_eq_true_iff.mp htakes
    dsimp only at haccept
    rw [if_pos hfirst] at haccept
    have hlater : acceptAll (es.map (w.wirePacket D))
        { reader with decoder := (Raptorq.decode e reader.decoder).2 } = _ := ih hnumber hlength hothers
    rw [List.map_cons,acceptAll,WireWriter.wirePacket,haccept]
    dsimp only
    rw [hlater]
    rfl

/-- A reader that a packet starts returns the data, and nothing else, for packets of its writer in any order. -/
theorem WireReader.decodes {mtu : U16} {data first : Bytes} {repair : Nat} (hcodable : Codable data (mtu.val-6))
    (hencoded : w.encoded = Raptorq.encodedPackets D data (mtu.val-6) repair)
    (hlength : w.transferLength.val = data.length) (hfirst : first ∈ w.packets D) :
    ∃ reader : WireReader D, WireReader.new first mtu = .ok reader ∧ ∀ fed : List Bytes, (∀ p ∈ fed, p ∈ w.packets D) →
      (∀ r ∈ acceptAll fed reader, r = .ok none ∨ r = .ok (some data)) ∧
        ((∀ p ∈ w.packets D, p ∈ fed) → .ok (some data) ∈ acceptAll fed reader) := by
  obtain ⟨e,_,rfl⟩ := List.mem_map.mp hfirst
  have hsymbol := hcodable.symbol
  have hparts := packetParts_header w.messageNumber w.transferLength (Raptorq.serialize D e)
  have hstarts : (⟨w.messageNumber,w.transferLength,Raptorq.serialize D e⟩ : PacketParts).Starts D mtu := by
    refine ⟨by omega,?_⟩
    dsimp only
    rw [hlength]
    exact EncodingRaptorq.starts_codable _ _ hcodable
  have hnew : WireReader.new _ mtu = .ok (WireReader.fresh _ _ mtu : WireReader D) :=
    WireReader.new_ok hstarts hparts
  refine ⟨_,hnew,fun fed hfed => ?_⟩
  obtain ⟨es,rfl,hes⟩ := WireWriter.exists_encoded hfed
  rw [hencoded] at hes
  have htakes := CodingRaptorq.takes_encoded (D := D) data _ repair es hcodable hes
  rw [acceptAll_encoded rfl rfl es (by rwa [WireReader.fresh,hlength]),WireReader.fresh,hlength]
  refine ⟨fun r hr => ?_,fun hall => ?_⟩
  · obtain ⟨value,hvalue,rfl⟩ := List.mem_map.mp hr
    cases value with
    | none => exact Or.inl rfl
    | some value =>
      rw [CodingRaptorq.decodes_only data _ repair es hcodable hes value hvalue]
      exact Or.inr rfl
  · refine List.mem_map.mpr ⟨some data,CodingRaptorq.decodes data _ repair es hcodable hes (fun x hx => ?_),rfl⟩
    have hx := CodingRaptorq.source_encoded data _ repair hcodable x hx
    rw [←hencoded] at hx
    obtain ⟨y,hy,hsame⟩ := List.mem_map.mp (hall _ (List.mem_map_of_mem hx))
    rw [←WireWriter.wirePacket_inj hsame]
    exact hy

end Reader

namespace WireWriter

section RoundTrip

variable [Target] {E D : Type} {w : WireWriter E} {number mtu : U16} {data : Bytes} {repair : Nat}

/-- Buffers with room for every packet have room for those that come. -/
theorem allFit_of_large [Raptorq E D] {buffers : List Bytes} (hne : w.encoded.length ≠ 0)
    (h : ∀ b ∈ buffers, ∀ p ∈ w.packets D, p.length ≤ b.length) : AllFit D buffers w := by
  induction buffers generalizing w with
  | nil => trivial
  | cons buffer buffers ih =>
    obtain ⟨e,he⟩ := upcoming_isSome hne
    have hmem : w.wirePacket D e ∈ w.packets D := List.mem_map_of_mem (List.mem_of_getElem? he)
    refine ⟨⟨e,he,h buffer List.mem_cons_self _ hmem⟩,?_⟩
    rw [next_writer]
    exact ih hne (fun b hb p hp => h b (List.mem_cons_of_mem _ hb) p hp)

/-- One round of a new writer is all of its packets. A reader that one of them starts returns the data, and nothing
else, for any of them in any order, once it has been given all. -/
theorem round_trip [CodingRaptorq E D] (number mtu : U16) (data : Bytes) (repair : Nat) (hmtu : 14 ≤ mtu.val)
    (hpos : 0 < data.length) (hmax : data.length ≤ 65535) :
    ∃ w : WireWriter E, WireWriter.new D number mtu data repair = .ok w ∧
      ∀ buffers : List Bytes, buffers.length = w.packetCount →
        (∀ b ∈ buffers, ∀ p ∈ w.packets D, p.length ≤ b.length) →
        ∃ sent : List Bytes, written D buffers w = sent.map .ok ∧ sent.Perm (w.packets D) ∧
          ∀ first ∈ sent, ∃ reader : WireReader D, WireReader.new first mtu = .ok reader ∧
            ∀ fed : List Bytes, (∀ p ∈ fed, p ∈ sent) →
              (∀ r ∈ WireReader.acceptAll fed reader, r = .ok none ∨ r = .ok (some data)) ∧
                ((∀ p ∈ sent, p ∈ fed) → .ok (some data) ∈ WireReader.acceptAll fed reader) := by
  have hcodable : Codable data (mtu.val-6) := ⟨hpos,by omega,by omega⟩
  obtain ⟨w,hnew,hencoded,hlength,hlast⟩ : ∃ w : WireWriter E, WireWriter.new D number mtu data repair = .ok w ∧
      w.encoded = Raptorq.encodedPackets D data (mtu.val-6) repair ∧ w.transferLength.val = data.length ∧
        w.lastSent = 0 :=
    ⟨_,new_ok number repair (.of_codable hcodable),rfl,(Fin.val_ofNat _ _).trans (Nat.mod_eq_of_lt (by omega)),rfl⟩
  refine ⟨w,hnew,fun buffers hcount hlarge => ?_⟩
  have hvec : w.packetCount ≤ usizeMax := by
    rw [packetCount,hencoded]
    exact CodingRaptorq.encoded_length data _ repair hcodable
  have heven : Evenly (usizeMax+1) w.packetCount (w.lastSent+1) := by
    refine Or.inl ?_
    rw [hlast]
    have hone := Nat.mod_le (0+1) (usizeMax+1)
    omega
  have hfit : AllFit D buffers w := by
    cases buffers with
    | nil => trivial
    | cons buffer buffers =>
      refine allFit_of_large (fun hzero => ?_) hlarge
      rw [packetCount,hzero] at hcount
      cases hcount
  have hwritten := written_fit hfit
  have hperm := round_perm (D := D) heven
  rw [hcount] at hwritten
  refine ⟨_,hwritten.trans (List.map_map ..).symm,hperm,fun first hfirst => ?_⟩
  obtain ⟨reader,hreader,hall⟩ := WireReader.decodes hcodable hencoded hlength (hperm.mem_iff.mp hfirst)
  refine ⟨reader,hreader,fun fed hfed => ?_⟩
  obtain ⟨honly,hcomplete⟩ := hall fed (fun p hp => hperm.mem_iff.mp (hfed p hp))
  exact ⟨honly,fun hevery => hcomplete (fun p hp => hevery p (hperm.mem_iff.mpr hp))⟩

end RoundTrip

section Size

variable [Target] {E D : Type} {w w' : WireWriter E}

variable (D) in
/-- Calls on a writer lead to another one, whatever comes of them. -/
def Runs [Raptorq E D] : WireWriter E → WireWriter E → Prop :=
  Relation.ReflTransGen (fun w w' => ∃ buffer outcome buffer', next D (w,buffer) = (outcome,(w',buffer')))

theorem Runs.encoded [Raptorq E D] (h : Runs D w w') : w'.encoded = w.encoded := by
  induction h with
  | refl => rfl
  | @tail u v _ hstep ih =>
    obtain ⟨buffer,outcome,buffer',hnext⟩ := hstep
    have hwriter := next_writer D u buffer
    rw [hnext] at hwriter
    have hadvanced : u.advanced.encoded = u.encoded := rfl
    rw [←ih,←hadvanced,←hwriter]

/-- The packets are no longer than the mtu where the rest of it, once it is split into symbols, has room for a payload
id. -/
theorem packets_fit_iff [SizedRaptorq E D] (number mtu : U16) (data : Bytes) (repair : Nat) (hmtu : 14 ≤ mtu.val)
    (hpos : 0 < data.length) (hmax : data.length ≤ 65535) :
    ∃ w : WireWriter E, WireWriter.new D number mtu data repair = .ok w ∧
      ((∀ w' buffer length t, Runs D w w' → next D (w',buffer) = (.ok length,t) → length ≤ mtu.val) ↔
        4 ≤ (mtu.val-6)%8) := by
  have hcodable : Codable data (mtu.val-6) := ⟨hpos,by omega,by omega⟩
  obtain ⟨w,hnew,hencoded⟩ : ∃ w : WireWriter E, WireWriter.new D number mtu data repair = .ok w ∧
      w.encoded = Raptorq.encodedPackets D data (mtu.val-6) repair := ⟨_,new_ok number repair (.of_codable hcodable),rfl⟩
  have hsize : ∀ e ∈ w.encoded, 6+(Raptorq.serialize D e).length = 10+(mtu.val-6)/8*8 := by
    intro e he
    rw [hencoded] at he
    rw [SizedRaptorq.serialize_size data _ repair hcodable e he]
    omega
  refine ⟨w,hnew,fun hall => ?_,fun hrest w' buffer length t hruns hnext => ?_⟩
  · have hne : w.encoded.length ≠ 0 := by
      rw [hencoded]
      exact fun hzero => SizedRaptorq.encoded_nonempty data _ repair hcodable (List.eq_nil_of_length_eq_zero hzero)
    obtain ⟨e,he⟩ := upcoming_isSome hne
    have hok := next_ok he (show (w.wirePacket D e).length ≤ (List.replicate (w.wirePacket D e).length 0).length by
      rw [List.length_replicate])
    have hle := hall w _ _ _ Relation.ReflTransGen.refl hok
    rw [wirePacket_length,hsize e (List.mem_of_getElem? he)] at hle
    omega
  · obtain ⟨e,he,rfl⟩ := next_ok_length hnext
    have hin := List.mem_of_getElem? he
    rw [hruns.encoded] at hin
    rw [wirePacket_length,hsize e hin]
    omega

end Size

end WireWriter

section Blocks

open WireWriter

/-- With the mtu of a LoRa radio a packet is two bytes too long. -/
theorem packet_exceeds : ∃ w t, WireWriter.new BlockDecoder 0 256 [7] 0 = .ok w ∧
    next BlockDecoder (w,List.replicate 300 0) = (.ok 258,t) ∧ ¬258 ≤ (256 : U16).val := by
  obtain ⟨w,hnew,hencoded⟩ : ∃ w, WireWriter.new BlockDecoder 0 256 [7] 0 = .ok w ∧
      w.encoded = [BlockDecoder.packet 248 [7] 0] := ⟨_,rfl,rfl⟩
  have he : w.upcoming = some (BlockDecoder.packet 248 [7] 0) := by
    rw [upcoming,hencoded,List.length_singleton,Nat.mod_one]
    rfl
  have hsize : (w.wirePacket BlockDecoder (BlockDecoder.packet 248 [7] 0)).length = 258 := by
    rw [wirePacket_length,SizedRaptorq.serialize_size [7] 250 0 ⟨by decide,by decide,by decide⟩ _ List.mem_cons_self]
  have hok := next_ok he (show _ ≤ (List.replicate 300 0).length by rw [hsize,List.length_replicate]; omega)
  rw [hsize] at hok
  exact ⟨w,_,hnew,hok,by decide⟩

/-- The mtu of the test leaves just enough. -/
theorem packets_fit_blocks : ∃ w, WireWriter.new BlockDecoder 0 250 [7] 0 = .ok w ∧
    ∀ w' buffer length t, Runs BlockDecoder w w' → next BlockDecoder (w',buffer) = (.ok length,t) → length ≤ 250 := by
  obtain ⟨w,hnew,hfit⟩ := packets_fit_iff (D := BlockDecoder) 0 250 [7] 0 (by decide) (by decide) (by decide)
  exact ⟨w,hnew,hfit.mpr (by decide)⟩

/-- Two packets, received in the other order and one of them twice. -/
theorem round_trip_blocks : ∃ first second, ∃ reader : WireReader BlockDecoder,
    written BlockDecoder [List.replicate 80 0,List.replicate 80 0] blocks = [.ok first,.ok second] ∧
      WireReader.new second 74 = .ok reader ∧
      .ok (some (List.replicate 100 7)) ∈ WireReader.acceptAll [second,second,first] reader := by
  obtain ⟨w,hnew,hround⟩ := round_trip (D := BlockDecoder) 1 74 (List.replicate 100 7) 0 (by decide) (by decide)
    (by decide)
  rw [blocks_new] at hnew
  cases hnew
  obtain ⟨sent,hwritten,hperm,hread⟩ := hround [List.replicate 80 0,List.replicate 80 0] rfl (by decide +kernel)
  obtain ⟨first,second,rfl⟩ : ∃ first second, sent = [first,second] := by
    have hlen : sent.length = 2 := hperm.length_eq
    exact List.length_eq_two.mp hlen
  obtain ⟨reader,hreader,hall⟩ := hread second (by simp)
  refine ⟨first,second,reader,hwritten,hreader,(hall [second,second,first] (by simp)).2 (by simp)⟩

end Blocks

end Finder
