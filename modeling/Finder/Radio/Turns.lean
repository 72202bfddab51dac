import Finder.Math.Rotation
import Finder.Protocol.PlainBlocks
import Finder.Radio.Writing

namespace Finder

theorem overwrite_begin {data piece : Bytes} (h : piece.length ≤ data.length) :
    (overwrite data 0 piece).take piece.length = piece := by
  have htake := overwrite_take (show 0+piece.length ≤ data.length by omega)
  rwa [Nat.zero_add,List.take_zero,List.nil_append] at htake

namespace Wire

variable [Target] {data target : Bytes} {offset : Nat}

theorem writeArr_ok (hroom : offset+data.length ≤ target.length) (hsmall : offset+data.length ≤ u32Max) :
    writeArr data offset target = (.ok (offset+data.length),overwrite target offset data) := by
  have hstop : checkedAdd usizeMax offset data.length = some (offset+data.length) :=
    checkedAdd_eq_some.mpr ⟨hsmall.trans u32Max_le_usizeMax,rfl⟩
  have hrange := getRange_some_of_le (show offset ≤ offset+data.length by omega) hroom
  simp only [writeArr,hstop,hrange]

theorem writeArr_short (hshort : target.length < offset+data.length) (hsmall : offset+data.length ≤ u32Max) :
    writeArr data offset target = (.err .outOfBounds,target) := by
  have hstop : checkedAdd usizeMax offset data.length = some (offset+data.length) :=
    checkedAdd_eq_some.mpr ⟨hsmall.trans u32Max_le_usizeMax,rfl⟩
  have hrange : getRange target offset (offset+data.length) = none := by
    unfold getRange
    rw [if_neg (by omega)]
  simp only [writeArr,hstop,hrange]

variable {value : Nat}

theorem writeU16_ok (hroom : offset+2 ≤ target.length) (hoffset : offset ≤ 4) :
    writeU16 value offset target = (.ok (offset+2),overwrite target offset (leBytes u16Size value)) := by
  have hlen : (leBytes u16Size value).length = 2 := leBytes_length _ _
  have hwrite := writeArr_ok (show offset+(leBytes u16Size value).length ≤ target.length by omega)
    (by rw [hlen,u32Max]; omega)
  rw [hlen] at hwrite
  exact hwrite

theorem writeU16_short (hshort : target.length < offset+2) (hoffset : offset ≤ 4) :
    writeU16 value offset target = (.err .outOfBounds,target) := by
  have hlen : (leBytes u16Size value).length = 2 := leBytes_length _ _
  exact writeArr_short (by omega) (by rw [hlen,u32Max]; omega)

end Wire

namespace WireWriter

variable [Target] {E D : Type} [Raptorq E D] {w : WireWriter E} {buffer : Bytes} {e : E}

omit [Raptorq E D] in
/-- The writer that a call leaves, whatever comes of it. -/
def advanced (w : WireWriter E) : WireWriter E := { w with lastSent := (w.lastSent+1)%(usizeMax+1) }

omit [Raptorq E D] in
/-- The packet that a call is to write. -/
def upcoming (w : WireWriter E) : Option E := w.encoded[w.advanced.lastSent%w.encoded.length]?

variable (D) in
omit [Target] in
/-- A packet behind the header of its message. -/
def wirePacket (w : WireWriter E) (e : E) : Bytes :=
  header w.messageNumber w.transferLength ++ Raptorq.serialize D e

omit [Target] in
theorem wirePacket_length : (w.wirePacket D e).length = 6+(Raptorq.serialize D e).length := by
  rw [wirePacket,List.length_append,header_length]

omit [Raptorq E D] in
theorem upcoming_nonempty (he : w.upcoming = some e) : w.encoded.length ≠ 0 := by
  intro hzero
  rw [upcoming,List.length_eq_zero_iff.mp hzero] at he
  cases he

omit [Raptorq E D] in
theorem upcoming_isSome (hne : w.encoded.length ≠ 0) : ∃ e, w.upcoming = some e :=
  ⟨_,List.getElem?_eq_getElem (Nat.mod_lt _ (Nat.pos_of_ne_zero hne))⟩

omit [Raptorq E D] in
/-- The three writes of a header, as far as the buffer goes. -/
theorem writeHeader (number length : U16) (hroom : 6 ≤ buffer.length) : ∃ b1 b2,
    Wire.writeU16 packetLabel 0 buffer = (.ok 2,b1) ∧ Wire.writeU16 number.val 2 b1 = (.ok 4,b2) ∧
      Wire.writeU16 length.val 4 b2 = (.ok 6,overwrite buffer 0 (header number length)) := by
  have hlabel : (leBytes u16Size packetLabel).length = 2 := leBytes_length _ _
  have hnumber : (leBytes u16Size number.val).length = 2 := leBytes_length _ _
  have hlength : (leBytes u16Size length.val).length = 2 := leBytes_length _ _
  have h1 : (overwrite buffer 0 (leBytes u16Size packetLabel)).length = buffer.length := overwrite_length (by omega)
  have h12 := overwrite_append (show 0+(leBytes u16Size packetLabel).length+(leBytes u16Size number.val).length ≤
    buffer.length by omega)
  rw [hlabel] at h12
  have hboth : (leBytes u16Size packetLabel ++ leBytes u16Size number.val).length = 4 := by
    rw [List.length_append,hlabel,hnumber]
  have h2 : (overwrite buffer 0 (leBytes u16Size packetLabel ++ leBytes u16Size number.val)).length = buffer.length :=
    overwrite_length (by omega)
  have h123 := overwrite_append (show 0+(leBytes u16Size packetLabel ++ leBytes u16Size number.val).length+
    (leBytes u16Size length.val).length ≤ buffer.length by omega)
  rw [hboth] at h123
  refine ⟨_,_,Wire.writeU16_ok (by omega) (by omega),Wire.writeU16_ok (by omega) (by omega),?_⟩
  rw [h12,Wire.writeU16_ok (by omega) (by omega),h123]
  rfl

variable (D) in
/-- What a call does to the buffer, once it has chosen a place. -/
def fill (w : WireWriter E) (index : Nat) : Call Bytes WireError Nat := do
  let offset ← Wire.writeU16 packetLabel 0
  let offset ← Wire.writeU16 w.messageNumber.val offset
  let offset ← Wire.writeU16 w.transferLength.val offset
  let target ← Call.read (fun buffer => Outcome.okOr .outOfBounds (getRange buffer offset buffer.length))
  let encoding ← Call.lift (Outcome.okOr .unreachable w.encoded[index]?)
  let wrote := Raptorq.serialize D encoding
  let _ ← Call.lift (Outcome.orPanic (getRange target 0 wrote.length))
  Call.modify (fun buffer => overwrite buffer offset wrote)
  pure (6+wrote.length)

/-- A call advances the writer before it writes. -/
theorem next_eq (hne : w.encoded.length ≠ 0) : next D (w,buffer) =
    ((fill D w (w.advanced.lastSent%w.encoded.length) buffer).1,
      (w.advanced,(fill D w (w.advanced.lastSent%w.encoded.length) buffer).2)) := by
  rw [next,Call.bind_ok (t := (w.advanced,buffer)) (Call.modify_apply _ _),
    Call.bind_ok (a := w.advanced) (t := (w.advanced,buffer)) (Call.read_apply _ _),
    Call.bind_ok (a := w.advanced.lastSent%w.encoded.length) (t := (w.advanced,buffer))
      (by rw [Call.lift_apply]; exact congrArg (·,_) (if_neg hne))]
  rfl

/-- Behind the header what is left is to find room for the packet, and to write it. -/
theorem fill_headed (he : w.upcoming = some e) (hheader : 6 ≤ buffer.length) :
    ∃ target : Bytes, target.length = buffer.length-6 ∧
      fill D w (w.advanced.lastSent%w.encoded.length) buffer = ((do
        let _ ← Call.lift (Outcome.orPanic (getRange target 0 (Raptorq.serialize D e).length))
        Call.modify (fun buffer => overwrite buffer 6 (Raptorq.serialize D e))
        pure (6+(Raptorq.serialize D e).length) : Call Bytes WireError Nat)
          (overwrite buffer 0 (header w.messageNumber w.transferLength))) := by
  obtain ⟨b1,b2,h1,h2,h3⟩ := writeHeader w.messageNumber w.transferLength hheader
  have hlen : (overwrite buffer 0 (header w.messageNumber w.transferLength)).length = buffer.length :=
    overwrite_length (by rw [header_length]; omega)
  have htarget := getRange_some_of_le (show 6 ≤ _ from hlen ▸ hheader) le_rfl
  have hindexed : w.encoded[w.advanced.lastSent%w.encoded.length]? = some e := he
  refine ⟨_,by rw [getRange_length htarget,hlen],?_⟩
  rw [fill,Call.bind_ok h1,Call.bind_ok h2,Call.bind_ok h3,
    Call.bind_ok (t := overwrite buffer 0 (header w.messageNumber w.transferLength))
      (by rw [Call.read_apply,htarget,Outcome.okOr_some])]
  rw [hindexed,Outcome.okOr_some,Call.bind_ok (Call.lift_apply _ _)]

/-- A call writes its packet where there is room. -/
theorem next_ok (he : w.upcoming = some e) (hroom : (w.wirePacket D e).length ≤ buffer.length) :
    next D (w,buffer) = (.ok (w.wirePacket D e).length,(w.advanced,overwrite buffer 0 (w.wirePacket D e))) := by
  rw [wirePacket_length] at hroom ⊢
  obtain ⟨target,htarget,hfill⟩ := fill_headed (D := D) he (show 6 ≤ buffer.length by omega)
  have hfits := getRange_some_of_le (Nat.zero_le (Raptorq.serialize D e).length)
    (show (Raptorq.serialize D e).length ≤ target.length by omega)
  have hheader := header_length w.messageNumber w.transferLength
  have hwhole := overwrite_append (show 0+(header w.messageNumber w.transferLength).length+
    (Raptorq.serialize D e).length ≤ buffer.length by omega)
  rw [hheader,Nat.zero_add] at hwhole
  rw [hfits,Outcome.orPanic_some,Call.bind_ok (Call.lift_apply _ _),Call.bind_ok (Call.modify_apply _ _),
    Call.pure_apply,hwhole] at hfill
  rw [next_eq (upcoming_nonempty he),hfill]
  rfl

/-- A buffer with no room for a header is an error. -/
theorem next_short (hne : w.encoded.length ≠ 0) (hshort : buffer.length < 6) :
    ∃ buffer', next D (w,buffer) = (.err .outOfBounds,(w.advanced,buffer')) := by
  obtain ⟨buffer',hfill⟩ : ∃ buffer', fill D w (w.advanced.lastSent%w.encoded.length) buffer =
      (.err .outOfBounds,buffer') := by
    have hlen : ∀ v, (leBytes u16Size v).length = 2 := leBytes_length _
    by_cases hlabel : buffer.length < 2
    · exact ⟨_,Call.bind_err (Wire.writeU16_short (by omega) (by omega))⟩
    have h1 : (overwrite buffer 0 (leBytes u16Size packetLabel)).length = buffer.length :=
      overwrite_length (by rw [hlen]; omega)
    rw [fill,Call.bind_ok (Wire.writeU16_ok (by omega) (by omega))]
    by_cases hnumber : buffer.length < 4
    · exact ⟨_,Call.bind_err (Wire.writeU16_short (by omega) (by omega))⟩
    have h2 : (overwrite (overwrite buffer 0 (leBytes u16Size packetLabel)) (0+2)
        (leBytes u16Size w.messageNumber.val)).length = buffer.length :=
      (overwrite_length (by rw [hlen]; omega)).trans h1
    rw [Call.bind_ok (Wire.writeU16_ok (by omega) (by omega))]
    exact ⟨_,Call.bind_err (Wire.writeU16_short (by omega) (by omega))⟩
  exact ⟨buffer',by rw [next_eq hne,hfill]⟩

/-- One with room for a header, but not for the packet, is a panic. -/
theorem next_tight (he : w.upcoming = some e) (hheader : 6 ≤ buffer.length)
    (htight : buffer.length < (w.wirePacket D e).length) :
    ∃ buffer', next D (w,buffer) = (.panic,(w.advanced,buffer')) := by
  rw [wirePacket_length] at htight
  obtain ⟨target,htarget,hfill⟩ := fill_headed (D := D) he hheader
  have hfits : getRange target 0 (Raptorq.serialize D e).length = none := by
    unfold getRange
    rw [if_neg (by omega)]
  rw [hfits,Outcome.orPanic_none,Call.bind_panic (Call.lift_apply _ _)] at hfill
  exact ⟨_,by rw [next_eq (upcoming_nonempty he),hfill]⟩

variable (D) in
/-- Whatever comes of it, a call moves the writer on. -/
theorem next_writer (w : WireWriter E) (buffer : Bytes) : (next D (w,buffer)).2.1 = w.advanced := by
  by_cases hne : w.encoded.length = 0
  · have hpanic : next D (w,buffer) = (.panic,(w.advanced,buffer)) := by
      rw [next,Call.bind_ok (t := (w.advanced,buffer)) (Call.modify_apply _ _),
        Call.bind_ok (a := w.advanced) (t := (w.advanced,buffer)) (Call.read_apply _ _)]
      exact Call.bind_panic (by rw [Call.lift_apply]; exact congrArg (·,_) (if_pos hne))
    rw [hpanic]
  · rw [next_eq hne]

theorem next_ok_length {length : Nat} {t : WireWriter E × Bytes} (h : next D (w,buffer) = (.ok length,t)) :
    ∃ e, w.upcoming = some e ∧ length = (w.wirePacket D e).length := by
  have hne : w.encoded.length ≠ 0 := by
    obtain ⟨e,he,_⟩ := next_eq_ok D h
    exact (List.length_pos_of_mem he).ne'
  obtain ⟨e,he⟩ := upcoming_isSome hne
  refine ⟨e,he,?_⟩
  by_cases hroom : (w.wirePacket D e).length ≤ buffer.length
  · rw [next_ok he hroom] at h
    cases h
    rfl
  · by_cases hheader : 6 ≤ buffer.length
    · obtain ⟨_,hnext⟩ := next_tight (D := D) he hheader (not_le.mp hroom)
      rw [hnext] at h
      cases h
    · obtain ⟨_,hnext⟩ := next_short (D := D) hne (not_le.mp hheader)
      rw [hnext] at h
      cases h

variable (D) in
/-- The buffer has room for the packet that comes next. -/
def Fits (w : WireWriter E) (buffer : Bytes) : Prop :=
  ∃ e, w.upcoming = some e ∧ (w.wirePacket D e).length ≤ buffer.length

variable (D) in
/-- A call writes its whole packet and says how long that is, or is an error and leaves the writer as it is. -/
def Keeps (w : WireWriter E) (buffer : Bytes) : Prop :=
  (∃ e w' buffer', w.upcoming = some e ∧ next D (w,buffer) = (.ok (w.wirePacket D e).length,(w',buffer')) ∧
    buffer'.take (w.wirePacket D e).length = w.wirePacket D e) ∨
  ∃ e buffer', next D (w,buffer) = (.err e,(w,buffer'))

omit [Raptorq E D] in
theorem advanced_ne (w : WireWriter E) : w.advanced ≠ w := by
  intro hsame
  have hlast : (w.lastSent+1)%(usizeMax+1) = w.lastSent := congrArg WireWriter.lastSent hsame
  have hmax := u32Max_le_usizeMax
  have hu32 : u32Max = 4294967295 := rfl
  have hlow := Nat.mod_lt (w.lastSent+1) (show 0 < usizeMax+1 by omega)
  by_cases hwrap : w.lastSent+1 < usizeMax+1
  · rw [Nat.mod_eq_of_lt hwrap] at hlast
    omega
  · have hlast' : w.lastSent = usizeMax := by omega
    rw [hlast',Nat.mod_self] at hlast
    omega

theorem keeps_iff (hne : w.encoded.length ≠ 0) : Keeps D w buffer ↔ Fits D w buffer := by
  obtain ⟨e,he⟩ := upcoming_isSome hne
  constructor
  · intro hkeeps
    by_contra hno
    have htight : buffer.length < (w.wirePacket D e).length := by
      by_contra hroom
      exact hno ⟨e,he,not_lt.mp hroom⟩
    by_cases hheader : 6 ≤ buffer.length
    · obtain ⟨_,hnext⟩ := next_tight (D := D) he hheader htight
      rcases hkeeps with ⟨_,_,_,_,hok,_⟩ | ⟨_,_,herr⟩
      · rw [hnext] at hok
        cases hok
      · rw [hnext] at herr
        cases herr
    · obtain ⟨_,hnext⟩ := next_short (D := D) hne (not_le.mp hheader)
      rcases hkeeps with ⟨_,_,_,_,hok,_⟩ | ⟨_,_,herr⟩
      · rw [hnext] at hok
        cases hok
      · rw [hnext] at herr
        exact w.advanced_ne (congrArg (fun r => r.2.1) herr)
  · rintro ⟨e',he',hroom⟩
    rw [he] at he'
    cases he'
    exact Or.inl ⟨e,_,_,he,next_ok he hroom,overwrite_begin hroom⟩

variable (D) in
/-- What consecutive calls write, one to each buffer. -/
def written : List Bytes → WireWriter E → List (Outcome WireError Bytes)
  | [],_ => []
  | buffer::buffers,w =>
    match next D (w,buffer) with
    | (outcome,(w,buffer)) => (do let length ← outcome; .ok (buffer.take length))::written buffers w

variable (D) in
/-- Every one of the calls has room for its packet. -/
def AllFit : List Bytes → WireWriter E → Prop
  | [],_ => True
  | buffer::buffers,w => Fits D w buffer ∧ AllFit buffers (next D (w,buffer)).2.1

variable (D) in
omit [Target] in
/-- The packets of the writer, each as it goes on the wire. -/
def packets (w : WireWriter E) : List Bytes := w.encoded.map (w.wirePacket D)

/-- Calls with room write the packets at the places that the count names. -/
theorem written_fit {buffers : List Bytes} (hfit : AllFit D buffers w) : written D buffers w =
    (turns (usizeMax+1) w.packetCount (w.lastSent+1) buffers.length).map (fun i => .ok ((w.packets D).getD i [])) := by
  induction buffers generalizing w with
  | nil => rfl
  | cons buffer buffers ih =>
    obtain ⟨⟨e,he,hroom⟩,hrest⟩ := hfit
    have hnext := next_ok (D := D) he hroom
    rw [hnext] at hrest
    have htake := overwrite_begin hroom
    have hfirst : (w.packets D).getD ((w.lastSent+1)%(usizeMax+1)%w.packetCount) [] = w.wirePacket D e := by
      have hat : w.encoded[(w.lastSent+1)%(usizeMax+1)%w.packetCount]? = some e := he
      rw [packets,List.getD_eq_getElem?_getD,List.getElem?_map,hat]
      rfl
    rw [List.length_cons,turns_succ,List.map_cons,hfirst,written,hnext]
    simp only [Outcome.ok_bind,htake,ih hrest]
    rfl

/-- The packets at the places of an even round are all of the packets, each once. -/
theorem round_perm {start : Nat} (heven : Evenly (usizeMax+1) w.packetCount start) :
    ((turns (usizeMax+1) w.packetCount start w.packetCount).map (fun i => (w.packets D).getD i [])).Perm
      (w.packets D) := by
  have hlen : (w.packets D).length = w.packetCount := List.length_map _
  have hall := heven.turns_perm.map (fun i => (w.packets D).getD i [])
  rwa [←hlen,map_getD_range,hlen] at hall

/-- A failed call leaves the writer as it is, and each round of a run writes every packet once, where every call has
room and the count does not begin again on the way. -/
theorem keeps_packets_iff (w : WireWriter E) (hne : w.packetCount ≠ 0) :
    (∀ buffer, Keeps D w buffer ↔ Fits D w buffer) ∧
    ∀ buffers, AllFit D buffers w → ∃ sent : List Bytes, written D buffers w = sent.map .ok ∧
      ∀ i, i+w.packetCount ≤ buffers.length →
        (Evenly (usizeMax+1) w.packetCount (w.lastSent+1+i) →
          ((sent.drop i).take w.packetCount).Perm (w.packets D)) ∧
        ((w.packets D).Nodup → ((sent.drop i).take w.packetCount).Perm (w.packets D) →
          Evenly (usizeMax+1) w.packetCount (w.lastSent+1+i)) := by
  refine ⟨fun buffer => keeps_iff hne,fun buffers hfit => ?_⟩
  refine ⟨(turns (usizeMax+1) w.packetCount (w.lastSent+1) buffers.length).map (fun i => (w.packets D).getD i []),
    by rw [written_fit hfit,List.map_map]; rfl,fun i hi => ?_⟩
  rw [←List.map_drop,←List.map_take,turns_window hi]
  refine ⟨round_perm,fun hnodup hperm => ?_⟩
  exact (turns_perm_iff (Nat.succ_pos usizeMax)).mp
    (turns_perm_of_nodup (List.Nodup.of_map _ (hperm.nodup_iff.mpr hnodup)))

end WireWriter

section Blocks

open WireWriter

/-- A writer of two packets that has sent none. -/
def blocks : WireWriter PlainPacket :=
  { messageNumber := 1
    transferLength := 100
    encoded := Raptorq.encodedPackets BlockDecoder (List.replicate 100 7) 68 0
    lastSent := 0 }

theorem blocks_new : WireWriter.new BlockDecoder 1 74 (List.replicate 100 7) 0 = .ok blocks := by rfl

/-- A call between two others that gets no buffer costs a packet, and one with room for little more than the header
panics. -/
theorem failed_loses_packet : ∃ first second, blocks.packets BlockDecoder = [first,second] ∧ first ≠ second ∧
    written BlockDecoder [List.replicate 74 0,[],List.replicate 74 0] blocks =
      [.ok second,.err .outOfBounds,.ok second] ∧
    ¬Keeps BlockDecoder blocks [] ∧ ¬Keeps BlockDecoder blocks (List.replicate 8 0) := by
  have hsizes : (blocks.upcoming.map (fun e => (blocks.wirePacket BlockDecoder e).length)) = some 74 := by
    decide +kernel
  have hroom : ∀ buffer, Fits BlockDecoder blocks buffer → 74 ≤ buffer.length := by
    rintro buffer ⟨e,he,hle⟩
    rw [he,Option.map_some,Option.some.injEq] at hsizes
    omega
  refine ⟨_,_,rfl,by decide +kernel,by rfl,fun hkeeps => ?_,fun hkeeps => ?_⟩
  · have hle := hroom _ ((keeps_iff (by decide)).mp hkeeps)
    rw [List.length_nil] at hle
    omega
  · have hle := hroom _ ((keeps_iff (by decide)).mp hkeeps)
    rw [List.length_replicate] at hle
    omega

theorem blocks_written : ∃ sent : List Bytes,
    written BlockDecoder [List.replicate 74 0,List.replicate 80 1] blocks = sent.map .ok ∧
      sent.Perm (blocks.packets BlockDecoder) := by
  have hfit : AllFit BlockDecoder [List.replicate 74 0,List.replicate 80 1] blocks :=
    ⟨⟨_,rfl,by decide⟩,⟨_,rfl,by decide⟩,trivial⟩
  obtain ⟨sent,hsent,hround⟩ := (keeps_packets_iff blocks (by decide)).2 _ hfit
  have hlen : sent.length = blocks.packetCount := (List.length_map _).symm.trans (congrArg List.length hsent).symm
  have hperm := (hround 0 le_rfl).1 (by decide)
  rw [List.drop_zero,List.take_of_length_le hlen.le] at hperm
  exact ⟨sent,hsent,hperm⟩

end Blocks

end Finder
