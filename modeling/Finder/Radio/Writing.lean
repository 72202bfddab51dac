import Finder.Radio.Packets

namespace Finder

theorem leNat_leBytes (n v : Nat) : leNat (leBytes n v) = v%256^n := by
  rw [leNat,leBytes,List.reverse_reverse,beNat_beBytes]

theorem leBytes_length (n v : Nat) : (leBytes n v).length = n := by
  rw [leBytes,List.length_reverse,beBytes_length]

theorem overwrite_take {data piece : Bytes} {i : Nat} (h : i+piece.length ≤ data.length) :
    (overwrite data i piece).take (i+piece.length) = data.take i ++ piece := by
  have hlen : (data.take i ++ piece).length = i+piece.length := by
    rw [List.length_append,List.length_take]
    omega
  rw [overwrite,←hlen,List.take_left]

/-- The first bytes of a packet. -/
def header (number length : U16) : Bytes :=
  leBytes u16Size packetLabel ++ leBytes u16Size number.val ++ leBytes u16Size length.val

theorem header_length (number length : U16) : (header number length).length = 6 := by
  simp [header,leBytes_length,u16Size]

theorem wordAt_leBytes (v : U16) (pre post : Bytes) :
    wordAt (pre ++ (leBytes u16Size v.val ++ post)) pre.length = v := by
  have hv : v.val%256^u16Size = v.val := Nat.mod_eq_of_lt v.isLt
  rw [wordAt,List.drop_left,List.take_append_of_le_length (leBytes_length _ _).ge,
    List.take_of_length_le (leBytes_length _ _).le,leNat_leBytes,hv]
  exact Fin.ofNat_val_eq_self v

/-- A packet behind its header is read back as it was written. -/
theorem packetParts_header (number length : U16) (payload : Bytes) :
    packetParts (header number length ++ payload) = some ⟨number,length,payload⟩ := by
  have hlabel : wordAt (header number length ++ payload) 0 = ⟨packetLabel,by decide⟩ := by
    have h := wordAt_leBytes ⟨packetLabel,by decide⟩ []
      (leBytes u16Size number.val ++ (leBytes u16Size length.val ++ payload))
    rwa [List.nil_append,←List.append_assoc,←List.append_assoc] at h
  have hnumber : wordAt (header number length ++ payload) 2 = number := by
    have h := wordAt_leBytes number (leBytes u16Size packetLabel) (leBytes u16Size length.val ++ payload)
    rwa [leBytes_length,←List.append_assoc,←List.append_assoc] at h
  have hlength : wordAt (header number length ++ payload) 4 = length := by
    have h := wordAt_leBytes length (leBytes u16Size packetLabel ++ leBytes u16Size number.val) payload
    rwa [List.length_append,leBytes_length,leBytes_length,←List.append_assoc] at h
  have hpayload : (header number length ++ payload).drop 6 = payload := by
    rw [←header_length number length,List.drop_left]
  have hwhole : 6 ≤ (header number length ++ payload).length := by
    rw [List.length_append,header_length]
    omega
  rw [packetParts,if_pos ⟨hwhole,congrArg Fin.val hlabel⟩,hnumber,hlength,hpayload]

namespace Wire

variable [Target] {data target t : Bytes} {offset stop : Nat}

theorem writeArr_eq_ok (h : writeArr data offset target = (.ok stop,t)) :
    stop = offset+data.length ∧ t.take stop = target.take offset ++ data := by
  unfold writeArr at h
  cases hstop : checkedAdd usizeMax offset data.length with
  | none =>
    rw [hstop] at h
    cases h
  | some next =>
    obtain ⟨_,rfl⟩ := checkedAdd_eq_some.mp hstop
    rw [hstop] at h
    dsimp only at h
    cases hrange : getRange target offset (offset+data.length) with
    | none =>
      rw [hrange] at h
      cases h
    | some slice =>
      rw [hrange] at h
      cases h
      exact ⟨rfl,overwrite_take (getRange_eq_some.mp hrange).2.1⟩

end Wire

namespace WireWriter

section New

variable {E D : Type} {mtu : U16} {data : Bytes}

variable (D) in
/-- A message can be cut into packets: its length is a `u16`, a packet has room behind its header, and there is an
encoder for it. -/
structure Cuts [Raptorq E D] (mtu : U16) (data : Bytes) : Prop where
  short : data.length ≤ 2^16-1
  header : 6 ≤ mtu.val
  encodes : Raptorq.encodes D data (mtu.val-6) = true

theorem Cuts.of_codable [EncodingRaptorq E D] (h : Codable data (mtu.val-6)) : Cuts D mtu data := by
  have hshort := h.short
  have hsymbol := h.symbol
  exact ⟨by omega,by omega,EncodingRaptorq.encodes_codable _ _ h⟩

variable [Raptorq E D]

theorem new_ok (number : U16) (repair : Nat) (h : Cuts D mtu data) :
    WireWriter.new D number mtu data repair = .ok
      { messageNumber := number
        transferLength := Fin.ofNat (2^16) data.length
        encoded := Raptorq.encodedPackets D data (mtu.val-6) repair
        lastSent := 0 } := by
  have hsize : (plainSub mtu.val 6 : Outcome WireError Nat) = .ok (mtu.val-6) := plainSub_eq_ok.mpr ⟨h.header,rfl⟩
  rw [WireWriter.new,if_neg (not_lt.mpr h.short),hsize,Outcome.ok_bind,if_pos h.encodes]

theorem new_panic (number : U16) (repair : Nat) (h : ¬Cuts D mtu data) :
    (WireWriter.new D number mtu data repair : Outcome WireError (WireWriter E)) = .panic := by
  unfold WireWriter.new
  split_ifs with hlong
  · rfl
  · rw [plainSub]
    split_ifs with hmtu
    · rw [Outcome.ok_bind,if_neg (fun hencodes => h ⟨not_lt.mp hlong,hmtu,hencodes⟩)]
    · rfl

end New

variable [Target] {E D : Type} [Raptorq E D]

variable (D) in
/-- A packet is one of the encoded ones, behind the header of the message. -/
theorem next_eq_ok {s t : WireWriter E × Bytes} {length : Nat} (h : next D s = (.ok length,t)) :
    ∃ e ∈ s.1.encoded,
      t.2.take length = header s.1.messageNumber s.1.transferLength ++ Raptorq.serialize D e := by
  obtain ⟨⟨number,transfer,encoded,lastSent⟩,buffer⟩ := s
  have hcounted := Call.after_ok h (Call.modify_apply _ _)
  obtain ⟨writer,_,hread,hrest⟩ := Call.bind_eq_ok.mp hcounted
  obtain ⟨hwriter,rfl⟩ := Call.read_eq_ok.mp hread
  cases hwriter
  obtain ⟨index,_,hindex,hfield⟩ := Call.bind_eq_ok.mp hrest
  obtain ⟨_,rfl⟩ := Call.lift_eq_ok.mp hindex
  obtain ⟨written,hwrite,rfl⟩ := Call.field_eq_ok.mp hfield
  obtain ⟨o1,b1,hlabel,hrest⟩ := Call.bind_eq_ok.mp hwrite
  obtain ⟨o2,b2,hnumber,hrest⟩ := Call.bind_eq_ok.mp hrest
  obtain ⟨o3,b3,hlength,hrest⟩ := Call.bind_eq_ok.mp hrest
  obtain ⟨target,_,hget,hrest⟩ := Call.bind_eq_ok.mp hrest
  obtain ⟨htarget,rfl⟩ := Call.read_eq_ok.mp hget
  obtain ⟨e,_,hindexed,hrest⟩ := Call.bind_eq_ok.mp hrest
  obtain ⟨he,rfl⟩ := Call.lift_eq_ok.mp hindexed
  obtain ⟨room,_,hsliced,hrest⟩ := Call.bind_eq_ok.mp hrest
  obtain ⟨hroom,rfl⟩ := Call.lift_eq_ok.mp hsliced
  have hlast := Call.after_ok hrest (Call.modify_apply _ _)
  cases hlast
  obtain ⟨ho1,ht1⟩ := Wire.writeArr_eq_ok hlabel
  obtain ⟨ho2,ht2⟩ := Wire.writeArr_eq_ok hnumber
  obtain ⟨ho3,ht3⟩ := Wire.writeArr_eq_ok hlength
  rw [List.take_zero,List.nil_append] at ht1
  rw [ht1] at ht2
  rw [ht2] at ht3
  refine ⟨e,List.mem_of_getElem? (Outcome.okOr_eq_ok.mp he),?_⟩
  obtain ⟨_,hfits,htarget⟩ := getRange_eq_some.mp (Outcome.okOr_eq_ok.mp htarget)
  have hend := (getRange_eq_some.mp (Outcome.orPanic_eq_ok.mp hroom)).2.1
  have ho : o3 = 6 := by
    rw [ho3,ho2,ho1,leBytes_length,leBytes_length,leBytes_length]
    rfl
  have hlen : target.length = b3.length-o3 := by
    rw [htarget,List.length_take,List.length_drop,min_self]
  change (overwrite b3 o3 (Raptorq.serialize D e)).take (6+(Raptorq.serialize D e).length) = _
  rw [←ho,overwrite_take (by omega),ht3]
  rfl

end WireWriter

end Finder
