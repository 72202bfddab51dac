import Finder.Protocol.WireState

namespace Finder

/-- The 16-bit word at a position of a packet. -/
def wordAt (data : Bytes) (i : Nat) : U16 := Fin.ofNat (2^16) (leNat ((data.drop i).take u16Size))

abbrev Labelled (data : Bytes) : Prop := (wordAt data 0).val = packetLabel

/-- What a packet with a whole header says: its message, the length of that, and the bytes for the decoder. -/
structure PacketParts where
  number : U16
  length : U16
  payload : Bytes

def packetParts (data : Bytes) : Option PacketParts :=
  if 6 ≤ data.length ∧ Labelled data then some ⟨wordAt data 2,wordAt data 4,data.drop 6⟩ else none

section Words

variable [Target] {data : Bytes} {i : Nat}

theorem readU16_ok (hi : i ≤ 4) (hroom : i+2 ≤ data.length) : Wire.readU16 data i = .ok (wordAt data i,i+2) := by
  have hmax : 4294967295 ≤ usizeMax := u32Max_le_usizeMax
  have hstop : checkedAdd usizeMax i u16Size = some (i+2) := checkedAdd_eq_some.mpr ⟨by rw [u16Size]; omega,rfl⟩
  have hslice := getRange_some_of_le (show i ≤ i+2 by omega) hroom
  have hlen := getRange_length hslice
  rw [Nat.add_sub_cancel_left] at hslice hlen
  have hsize : (List.take 2 (List.drop i data)).length = u16Size := hlen
  simp only [Wire.readU16,Wire.readArr,hstop,Outcome.okOr_some,Outcome.ok_bind,hslice]
  rw [if_neg (not_not.mpr hsize)]
  rfl

theorem readU16_short (hi : i ≤ 4) (hroom : data.length < i+2) : Wire.readU16 data i = .err .outOfBounds := by
  have hmax : 4294967295 ≤ usizeMax := u32Max_le_usizeMax
  have hstop : checkedAdd usizeMax i u16Size = some (i+2) := checkedAdd_eq_some.mpr ⟨by rw [u16Size]; omega,rfl⟩
  have hslice : getRange data i (i+2) = none := by
    unfold getRange
    rw [if_neg (by omega)]
  simp only [Wire.readU16,Wire.readArr,hstop,Outcome.okOr_some,Outcome.ok_bind,hslice]
  rfl

theorem checkPacket_ok (hlen : 4 ≤ data.length) (hlabel : Labelled data) :
    WireReader.checkPacket data = .ok (wordAt data 2) := by
  have h0 := readU16_ok (i := 0) (by omega) (show 0+2 ≤ data.length by omega)
  have h2 := readU16_ok (i := 2) (by omega) (show 2+2 ≤ data.length by omega)
  simp only [WireReader.checkPacket,h0,Outcome.ok_bind,Nat.zero_add,h2]
  rw [if_neg (not_not.mpr hlabel)]

theorem checkPacket_err (h : ¬(4 ≤ data.length ∧ Labelled data)) : ∃ e, WireReader.checkPacket data = .err e := by
  by_cases hshort : data.length < 2
  · have h0 := readU16_short (i := 0) (by omega) (show data.length < 0+2 by omega)
    exact ⟨.outOfBounds,by simp only [WireReader.checkPacket,h0,Outcome.err_bind]⟩
  · have h0 := readU16_ok (i := 0) (by omega) (show 0+2 ≤ data.length by omega)
    by_cases hlabel : Labelled data
    · have h2 := readU16_short (i := 2) (by omega) (show data.length < 2+2 by
        by_contra hno
        exact h ⟨by omega,hlabel⟩)
      refine ⟨.outOfBounds,?_⟩
      simp only [WireReader.checkPacket,h0,Outcome.ok_bind,Nat.zero_add,h2]
      rw [if_neg (not_not.mpr hlabel)]
      rfl
    · refine ⟨.notPacket,?_⟩
      simp only [WireReader.checkPacket,h0,Outcome.ok_bind]
      rw [if_pos hlabel]

omit [Target] in
theorem packetParts_eq_some {p : PacketParts} (h : packetParts data = some p) :
    6 ≤ data.length ∧ Labelled data ∧ p = ⟨wordAt data 2,wordAt data 4,data.drop 6⟩ := by
  unfold packetParts at h
  split_ifs at h with hwhole
  exact ⟨hwhole.1,hwhole.2,(Option.some.inj h).symm⟩

end Words

section Readers

variable [Target] {E D : Type} [Raptorq E D] {data : Bytes} {mtu : U16} {p : PacketParts} {reader : WireReader D}

/-- The reader that a packet starts. -/
def WireReader.fresh (number length mtu : U16) : WireReader D :=
  { messageNumber := number
    transferLength := length
    decoder := Raptorq.decoder length.val (mtu.val-6) }

variable (D) in
/-- A decoder can be made for the packet's message. -/
def PacketParts.Starts (p : PacketParts) (mtu : U16) : Prop :=
  6 ≤ mtu.val ∧ Raptorq.starts D p.length.val (mtu.val-6) = true

theorem WireReader.new_ok (hstarts : p.Starts D mtu) (hp : packetParts data = some p) :
    WireReader.new data mtu = .ok (WireReader.fresh p.number p.length mtu : WireReader D) := by
  obtain ⟨hmtu,hstarts⟩ := hstarts
  obtain ⟨hlen,hlabel,rfl⟩ := packetParts_eq_some hp
  have h0 := readU16_ok (i := 0) (by omega) (show 0+2 ≤ data.length by omega)
  have h2 := readU16_ok (i := 2) (by omega) (show 2+2 ≤ data.length by omega)
  have h4 := readU16_ok (i := 4) (by omega) (show 4+2 ≤ data.length by omega)
  have hsize : (plainSub mtu.val 6 : Outcome WireError Nat) = .ok (mtu.val-6) := plainSub_eq_ok.mpr ⟨hmtu,rfl⟩
  simp only [WireReader.new,h0,Outcome.ok_bind,Nat.zero_add,h2,Nat.reduceAdd,h4,hsize]
  rw [if_neg (not_not.mpr hlabel),if_pos hstarts]
  rfl

theorem WireReader.new_panic (hno : ¬p.Starts D mtu) (hp : packetParts data = some p) :
    (WireReader.new data mtu : Outcome WireError (WireReader D)) = .panic := by
  obtain ⟨hlen,hlabel,rfl⟩ := packetParts_eq_some hp
  have h0 := readU16_ok (i := 0) (by omega) (show 0+2 ≤ data.length by omega)
  have h2 := readU16_ok (i := 2) (by omega) (show 2+2 ≤ data.length by omega)
  have h4 := readU16_ok (i := 4) (by omega) (show 4+2 ≤ data.length by omega)
  simp only [WireReader.new,h0,Outcome.ok_bind,Nat.zero_add,h2,Nat.reduceAdd,h4]
  rw [if_neg (not_not.mpr hlabel),plainSub]
  split_ifs with hmtu
  · rw [Outcome.ok_bind,if_neg (fun hstarts => hno ⟨hmtu,hstarts⟩)]
  · rfl

/-- A packet without a whole header starts none. -/
theorem WireReader.new_err (hp : packetParts data = none) :
    ∃ e, (WireReader.new data mtu : Outcome WireError (WireReader D)) = .err e := by
  unfold packetParts at hp
  split_ifs at hp with hwhole
  by_cases hshort : data.length < 2
  · have h0 := readU16_short (i := 0) (by omega) (show data.length < 0+2 by omega)
    exact ⟨.outOfBounds,by simp only [WireReader.new,h0,Outcome.err_bind]⟩
  · have h0 := readU16_ok (i := 0) (by omega) (show 0+2 ≤ data.length by omega)
    by_cases hlabel : Labelled data
    · have hlen : ¬6 ≤ data.length := fun hlen => hwhole ⟨hlen,hlabel⟩
      refine ⟨.outOfBounds,?_⟩
      simp only [WireReader.new,h0,Outcome.ok_bind,Nat.zero_add]
      rw [if_neg (not_not.mpr hlabel)]
      by_cases hnumber : data.length < 4
      · rw [readU16_short (i := 2) (by omega) (by omega)]
        rfl
      · rw [readU16_ok (i := 2) (by omega) (by omega)]
        simp only [Outcome.ok_bind,Nat.reduceAdd]
        rw [readU16_short (i := 4) (by omega) (by omega)]
        rfl
    · refine ⟨.notPacket,?_⟩
      simp only [WireReader.new,h0,Outcome.ok_bind]
      rw [if_pos hlabel]

/-- So a reader refuses it, for other reasons than its block. -/
theorem WireReader.acceptPacket_refused (hp : packetParts data = none) (reader : WireReader D) :
    WireReader.acceptPacket data reader = (.err .outOfBounds,reader) ∨
      WireReader.acceptPacket data reader = (.err .notPacket,reader) := by
  unfold packetParts at hp
  split_ifs at hp with hwhole
  by_cases hshort : data.length < 2
  · have h0 := readU16_short (i := 0) (by omega) (show data.length < 0+2 by omega)
    exact Or.inl (Call.bind_err (by simp [h0]))
  · have h0 := readU16_ok (i := 0) (by omega) (show 0+2 ≤ data.length by omega)
    rw [Nat.zero_add] at h0
    rw [WireReader.acceptPacket,Call.bind_ok (a := (wordAt data 0,2)) (t := reader) (by simp [h0])]
    dsimp only
    by_cases hlabel : Labelled data
    · have hlen : ¬6 ≤ data.length := fun hlen => hwhole ⟨hlen,hlabel⟩
      rw [if_neg (not_not.mpr hlabel)]
      refine Or.inl ?_
      by_cases hnumber : data.length < 4
      · exact Call.bind_err (by simp [readU16_short (i := 2) (by omega) (show data.length < 2+2 by omega)])
      · have h2 := readU16_ok (i := 2) (by omega) (show 2+2 ≤ data.length by omega)
        have h4 := readU16_short (i := 4) (by omega) (show data.length < 4+2 by omega)
        rw [Call.bind_ok (a := (wordAt data 2,4)) (t := reader) (by simp [h2])]
        exact Call.bind_err (by simp [h4])
    · rw [if_pos hlabel]
      exact Or.inr rfl

/-- The packet is of the block the reader is at. -/
def WireReader.At (reader : WireReader D) (p : PacketParts) : Prop :=
  p.number = reader.messageNumber ∧ p.length = reader.transferLength

instance (reader : WireReader D) (p : PacketParts) : Decidable (reader.At p) := by
  unfold WireReader.At
  infer_instance

/-- The decoder is given the payload, as far as one can be read from it. -/
theorem WireReader.acceptPacket_eq (hp : packetParts data = some p) (reader : WireReader D) :
    WireReader.acceptPacket data reader =
      if reader.At p then
        match Raptorq.deserialize D p.payload with
        | none => (.panic,reader)
        | some packet =>
          if Raptorq.takes packet reader.decoder then (.ok (Raptorq.decode packet reader.decoder).1,
            { reader with decoder := (Raptorq.decode packet reader.decoder).2 })
          else (.panic,reader)
      else (.err (.wrongBlock p.number),reader) := by
  obtain ⟨hlen,hlabel,rfl⟩ := packetParts_eq_some hp
  have h0 := readU16_ok (i := 0) (by omega) (show 0+2 ≤ data.length by omega)
  have h2 := readU16_ok (i := 2) (by omega) (show 2+2 ≤ data.length by omega)
  have h4 := readU16_ok (i := 4) (by omega) (show 4+2 ≤ data.length by omega)
  rw [Nat.zero_add] at h0
  rw [WireReader.acceptPacket,Call.bind_ok (a := (wordAt data 0,2)) (t := reader) (by simp [h0])]
  dsimp only
  rw [if_neg (not_not.mpr hlabel),Call.bind_ok (a := (wordAt data 2,4)) (t := reader) (by simp [h2])]
  dsimp only
  rw [Call.bind_ok (a := (wordAt data 4,6)) (t := reader) (by simp [h4])]
  dsimp only
  rw [Call.bind_ok (a := reader) (t := reader) (by simp)]
  by_cases hat : wordAt data 2 = reader.messageNumber ∧ wordAt data 4 = reader.transferLength
  · have hsame : reader.At ⟨wordAt data 2,wordAt data 4,data.drop 6⟩ := hat
    rw [if_neg (by simp [hat.1,hat.2]),if_pos hsame,
      Call.bind_ok (a := data.drop 6) (t := reader) (by simp [hlen])]
    cases hpacket : Raptorq.deserialize D (data.drop 6) with
    | none => exact Call.bind_panic (by simp)
    | some packet =>
      rw [Call.bind_ok (a := packet) (t := reader) (by simp),Call.field_apply,WireReader.decode]
      dsimp only
      split_ifs <;> rfl
  · have hother : ¬reader.At ⟨wordAt data 2,wordAt data 4,data.drop 6⟩ := hat
    rw [if_pos (by rwa [not_and_or] at hat),if_neg hother]
    rfl

end Readers

namespace Receiver

variable [Target] {E D : Type} [Raptorq E D] {data : Bytes} {mtu : U16} {p : PacketParts} {r : Receiver D}

/-- The reader that gets the packet: the one of its block, or a new one. -/
def readerFor (r : Receiver D) (p : PacketParts) (mtu : U16) : WireReader D :=
  match r.reader with
  | some reader => if reader.At p then reader else .fresh p.number p.length mtu
  | none => .fresh p.number p.length mtu

omit [Target] in
theorem readerFor_at (r : Receiver D) (p : PacketParts) (mtu : U16) : (r.readerFor p mtu).At p := by
  unfold readerFor
  cases r.reader with
  | none => exact ⟨rfl,rfl⟩
  | some reader =>
    dsimp only
    split_ifs with hat
    · exact hat
    · exact ⟨rfl,rfl⟩

theorem accept_completed {number : U16} (h : r.lastCompleted = some number) :
    accept number data mtu r = (.ok none,r) := by
  rw [accept,if_pos h]

/-- A packet without a whole header leaves the entry as it is. -/
theorem accept_refused {number : U16} (hp : packetParts data = none) (r : Receiver D) :
    accept number data mtu r = (.ok none,r) := by
  obtain ⟨last,reader⟩ := r
  unfold accept
  split_ifs with hlast
  · rfl
  · cases reader with
    | none =>
      have hnone : ∃ e, (WireReader.new data mtu : Outcome WireError (WireReader D)) = .err e :=
        WireReader.new_err hp
      obtain ⟨e,he⟩ := hnone
      simp only [Option.elim_none,he]
    | some reader =>
      rcases WireReader.acceptPacket_refused hp reader with h | h
      all_goals simp only [Option.elim_some,h]

/-- The entry has a reader for the packet, or can get one, and the decoder of that takes what is read. -/
structure Takes (r : Receiver D) (p : PacketParts) (mtu : U16) (packet : E) : Prop where
  reads : Raptorq.deserialize D p.payload = some packet
  opens : (∃ reader, r.reader = some reader ∧ reader.At p) ∨ p.Starts D mtu
  takes : Raptorq.takes packet (r.readerFor p mtu).decoder = true

/-- The packet has come to the decoder: what that returns, and the entry with the reader that has it. -/
def decoded (r : Receiver D) (p : PacketParts) (mtu : U16) (packet : E) :
    Outcome WireError (Option Bytes) × Receiver D :=
  (.ok (Raptorq.decode packet (r.readerFor p mtu).decoder).1,
    { r with reader := some { r.readerFor p mtu with
      decoder := (Raptorq.decode packet (r.readerFor p mtu).decoder).2 } })

/-- A panic leaves the entry as it is, but for a new reader. -/
def Halts (r r' : Receiver D) (p : PacketParts) (mtu : U16) : Prop :=
  r' = r ∨ r' = { r with reader := some (r.readerFor p mtu) }

/-- A reader that is there, or a new one, is given the packet. -/
theorem acceptPacket_cases {reader : WireReader D} (hp : packetParts data = some p) (hat : reader.At p) :
    (∃ packet, Raptorq.deserialize D p.payload = some packet ∧ Raptorq.takes packet reader.decoder = true ∧
      WireReader.acceptPacket data reader = (.ok (Raptorq.decode packet reader.decoder).1,
        { reader with decoder := (Raptorq.decode packet reader.decoder).2 })) ∨
    ((∀ packet, Raptorq.deserialize D p.payload = some packet → Raptorq.takes packet reader.decoder ≠ true) ∧
      WireReader.acceptPacket data reader = (.panic,reader)) := by
  have haccept := WireReader.acceptPacket_eq hp reader
  rw [if_pos hat] at haccept
  cases hpacket : Raptorq.deserialize D p.payload with
  | none =>
    simp only [hpacket] at haccept
    exact Or.inr ⟨fun packet h => (by cases h),haccept⟩
  | some packet =>
    simp only [hpacket] at haccept
    by_cases htakes : Raptorq.takes packet reader.decoder = true
    · rw [if_pos htakes] at haccept
      exact Or.inl ⟨packet,rfl,htakes,haccept⟩
    · rw [if_neg htakes] at haccept
      refine Or.inr ⟨fun packet' h => ?_,haccept⟩
      cases h
      exact htakes

/-- The reader of the packet's block takes it, and is the reader from then on; or else the call panics. -/
theorem accept_cases {number : U16} (mtu : U16) (hp : packetParts data = some p) (hlast : r.lastCompleted ≠ some number) :
    (∃ packet, r.Takes p mtu packet ∧ accept number data mtu r = r.decoded p mtu packet) ∨
      ((∀ packet, ¬r.Takes p mtu packet) ∧ ∃ r', r.Halts r' p mtu ∧ accept number data mtu r = (.panic,r')) := by
  obtain ⟨last,reader⟩ := r
  have hfresh : (WireReader.fresh p.number p.length mtu : WireReader D).At p := ⟨rfl,rfl⟩
  cases reader with
  | none =>
    by_cases hstarts : p.Starts D mtu
    · have hnew := WireReader.new_ok hstarts hp
      rcases acceptPacket_cases hp hfresh with ⟨packet,hpacket,htakes,haccept⟩ | ⟨hno,haccept⟩
      · refine Or.inl ⟨packet,⟨hpacket,Or.inr hstarts,htakes⟩,?_⟩
        simp only [accept,if_neg hlast,Option.elim_none,hnew,haccept,decoded,readerFor]
      · refine Or.inr ⟨fun packet h => hno packet h.reads h.takes,_,Or.inr rfl,?_⟩
        simp only [accept,if_neg hlast,Option.elim_none,hnew,haccept,readerFor]
    · have hnew := WireReader.new_panic hstarts hp
      refine Or.inr ⟨fun packet h => ?_,_,Or.inl rfl,?_⟩
      · exact h.opens.elim (fun ⟨_,hreader,_⟩ => (by cases hreader)) hstarts
      · simp only [accept,if_neg hlast,Option.elim_none,hnew]
  | some reader =>
    by_cases hat : reader.At p
    · have hsame : readerFor ⟨last,some reader⟩ p mtu = reader := if_pos hat
      rcases acceptPacket_cases hp hat with ⟨packet,hpacket,htakes,haccept⟩ | ⟨hno,haccept⟩
      · refine Or.inl ⟨packet,⟨hpacket,Or.inl ⟨reader,rfl,hat⟩,by rwa [hsame]⟩,?_⟩
        simp only [accept,if_neg hlast,Option.elim_some,haccept,decoded,hsame]
      · refine Or.inr ⟨fun packet h => hno packet h.reads (hsame ▸ h.takes),_,Or.inl rfl,?_⟩
        simp only [accept,if_neg hlast,Option.elim_some,haccept]
    · have hother : readerFor ⟨last,some reader⟩ p mtu = .fresh p.number p.length mtu := if_neg hat
      have hwrong := WireReader.acceptPacket_eq hp reader
      rw [if_neg hat] at hwrong
      by_cases hstarts : p.Starts D mtu
      · have hnew := WireReader.new_ok hstarts hp
        rcases acceptPacket_cases hp hfresh with ⟨packet,hpacket,htakes,haccept⟩ | ⟨hno,haccept⟩
        · refine Or.inl ⟨packet,⟨hpacket,Or.inr hstarts,by rwa [hother]⟩,?_⟩
          simp only [accept,if_neg hlast,Option.elim_some,hwrong,restart,hnew,haccept,decoded,hother]
        · refine Or.inr ⟨fun packet h => hno packet h.reads (hother ▸ h.takes),_,Or.inl rfl,?_⟩
          simp only [accept,if_neg hlast,Option.elim_some,hwrong,restart,hnew,haccept]
      · have hnew := WireReader.new_panic hstarts hp
        refine Or.inr ⟨fun packet h => ?_,_,Or.inl rfl,?_⟩
        · refine h.opens.elim (fun ⟨known,hreader,hknown⟩ => ?_) hstarts
          cases hreader
          exact hat hknown
        · simp only [accept,if_neg hlast,Option.elim_some,hwrong,restart,hnew]

end Receiver

end Finder
