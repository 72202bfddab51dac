import Finder.Protocol.PlainRadio

namespace Finder

/-- A decoder that keeps the packets it is given, to put the object together from its symbols. -/
structure BlockDecoder where
  transferLength : Nat
  size : Nat
  received : List PlainPacket
  deriving DecidableEq

namespace BlockDecoder

/-- The symbol at a place of an object; the last one is filled up. -/
def symbol (size : Nat) (data : Bytes) (i : Nat) : Bytes :=
  (data.drop (i*size)).take size ++ List.replicate (size-(data.length-i*size)) 0

def symbolCount (size length : Nat) : Nat := (length+size-1)/size

def symbolSize (maxPacketSize : Nat) : Nat := maxPacketSize/8*8

def packet (size : Nat) (data : Bytes) (i : Nat) : PlainPacket := ⟨Fin.ofNat (2^32) i,symbol size data i⟩

/-- The symbol of a place, where its packet is there. -/
def lookup (d : BlockDecoder) (i : Nat) : Option Bytes :=
  (d.received.find? (fun p => decide (p.id = Fin.ofNat (2^32) i))).map PlainPacket.symbol

def object (d : BlockDecoder) : Option Bytes :=
  ((List.range (symbolCount d.size d.transferLength)).mapM d.lookup).map (fun xs => xs.flatten.take d.transferLength)

def accept (p : PlainPacket) (d : BlockDecoder) : BlockDecoder := { d with received := p::d.received }

variable {size : Nat} {data : Bytes} {i k : Nat}

theorem symbol_length (hsize : 0 < size) (i : Nat) : (symbol size data i).length = size := by
  simp only [symbol,List.length_append,List.length_take,List.length_drop,List.length_replicate]
  omega

/-- The first symbols are the first bytes, filled up. -/
theorem symbols_flatten (k : Nat) : ((List.range k).map (symbol size data)).flatten =
    data.take (k*size) ++ List.replicate (k*size-data.length) 0 := by
  induction k with
  | zero => simp
  | succ k ih =>
    rw [List.range_succ,List.map_append,List.flatten_append,ih,List.map_singleton,List.flatten_singleton,symbol,
      Nat.succ_mul]
    by_cases hin : k*size ≤ data.length
    · rw [Nat.sub_eq_zero_of_le hin,List.replicate_zero,List.append_nil,←List.append_assoc,List.take_add,
        show size-(data.length-k*size) = k*size+size-data.length by omega]
    · have hout := not_le.mp hin
      rw [List.drop_eq_nil_of_le hout.le,List.take_nil,List.nil_append,List.append_assoc,
        List.replicate_append_replicate,
        List.take_of_length_le hout.le,List.take_of_length_le (by omega),
        show k*size-data.length+(size-(data.length-k*size)) = k*size+size-data.length by omega]

theorem symbolCount_mul (hsize : 0 < size) (length : Nat) : length ≤ symbolCount size length*size := by
  have hdiv := Nat.div_add_mod (length+size-1) size
  have hmod := Nat.mod_lt (length+size-1) hsize
  rw [Nat.mul_comm] at hdiv
  rw [symbolCount]
  omega

theorem symbolCount_pos (hsize : 0 < size) {length : Nat} (hlength : 0 < length) : 0 < symbolCount size length :=
  Nat.div_pos (by omega) hsize

theorem mapM_some {α β : Type} {f : α → Option β} {g : α → β} {xs : List α} (h : ∀ x ∈ xs, f x = some (g x)) :
    xs.mapM f = some (xs.map g) := by
  induction xs with
  | nil => rfl
  | cons x xs ih =>
    rw [List.mapM_cons,h x List.mem_cons_self,ih (fun y hy => h y (List.mem_cons_of_mem _ hy))]
    rfl

theorem mapM_only {α β : Type} {f : α → Option β} {g : α → β} {xs : List α} {ys : List β}
    (h : ∀ x ∈ xs, ∀ y, f x = some y → y = g x) (hys : xs.mapM f = some ys) : ys = xs.map g := by
  induction xs generalizing ys with
  | nil => exact (Option.some.inj hys).symm
  | cons x xs ih =>
    rw [List.mapM_cons] at hys
    obtain ⟨y,hy,hrest⟩ := Option.bind_eq_some_iff.mp hys
    obtain ⟨zs,hzs,hlast⟩ := Option.bind_eq_some_iff.mp hrest
    cases hlast
    rw [List.map_cons,h x List.mem_cons_self y hy,ih (fun z hz => h z (List.mem_cons_of_mem _ hz)) hzs]

/-- The packets that have come are of this object. -/
structure Gathers (size : Nat) (data : Bytes) (d : BlockDecoder) : Prop where
  positive : 0 < size
  few : symbolCount size data.length ≤ 2^32
  length : d.transferLength = data.length
  sized : d.size = size
  received : ∀ p ∈ d.received, ∃ i < symbolCount size data.length, p = packet size data i

theorem packet_inj {j : Nat} (hfew : k ≤ 2^32) (hi : i < k) (hj : j < k)
    (h : Fin.ofNat (2^32) i = Fin.ofNat (2^32) j) : i = j := by
  have hval := congrArg Fin.val h
  rwa [Fin.val_ofNat,Fin.val_ofNat,Nat.mod_eq_of_lt (by omega),Nat.mod_eq_of_lt (by omega)] at hval

section Gathers

variable {d : BlockDecoder} {p : PlainPacket}

theorem Gathers.lookup_eq (h : Gathers size data d) (hi : i < symbolCount size data.length) {x : Bytes}
    (hx : d.lookup i = some x) : x = symbol size data i := by
  obtain ⟨q,hq,rfl⟩ := Option.map_eq_some_iff.mp hx
  obtain ⟨j,hj,rfl⟩ := h.received q (List.mem_of_find?_eq_some hq)
  have hfound := List.find?_some hq
  rw [packet_inj h.few hj hi (of_decide_eq_true hfound)]
  rfl

theorem Gathers.lookup_some (h : Gathers size data d) (hi : i < symbolCount size data.length)
    (hin : packet size data i ∈ d.received) : d.lookup i = some (symbol size data i) := by
  cases hx : d.lookup i with
  | some x => rw [h.lookup_eq hi hx]
  | none =>
    have hnone := List.find?_eq_none.mp (Option.map_eq_none_iff.mp hx) _ hin
    exact absurd (decide_eq_true rfl) hnone

theorem object_eq (hsize : 0 < size) : ((List.range (symbolCount size data.length)).map
    (symbol size data)).flatten.take data.length = data := by
  have hall := symbolCount_mul hsize data.length
  rw [symbols_flatten,List.take_of_length_le hall,List.take_left]

theorem Gathers.object_only (h : Gathers size data d) {value : Bytes}
    (hvalue : d.object = some value) : value = data := by
  rw [object,h.sized,h.length] at hvalue
  obtain ⟨xs,hxs,rfl⟩ := Option.map_eq_some_iff.mp hvalue
  have hsame := mapM_only (g := symbol size data) (fun i hi x hx => h.lookup_eq (List.mem_range.mp hi) hx) hxs
  rw [hsame]
  exact object_eq h.positive

theorem Gathers.object_some (h : Gathers size data d)
    (hall : ∀ i < symbolCount size data.length, packet size data i ∈ d.received) : d.object = some data := by
  have hsome := mapM_some (fun i hi => h.lookup_some (List.mem_range.mp hi) (hall i (List.mem_range.mp hi)))
  rw [object,h.sized,h.length,hsome,Option.map_some,object_eq h.positive]

theorem Gathers.accept (h : Gathers size data d)
    (hp : ∃ i < symbolCount size data.length, p = packet size data i) : Gathers size data (d.accept p) := by
  refine ⟨h.positive,h.few,h.length,h.sized,fun q hq => ?_⟩
  rcases List.mem_cons.mp hq with rfl | hq
  · exact hp
  · exact h.received q hq

end Gathers

theorem symbolCount_le (hsize : 0 < size) {length : Nat} (hlength : 0 < length) : symbolCount size length ≤ length := by
  refine Nat.div_le_of_le_mul ?_
  obtain ⟨s,rfl⟩ := Nat.exists_eq_succ_of_ne_zero hsize.ne'
  obtain ⟨l,rfl⟩ := Nat.exists_eq_succ_of_ne_zero hlength.ne'
  rw [Nat.succ_mul]
  have hs : s ≤ s*l.succ := Nat.le_mul_of_pos_right _ (Nat.succ_pos l)
  omega

theorem gathers_new (h : Codable data k) : Gathers (symbolSize k) data ⟨data.length,symbolSize k,[]⟩ := by
  have hsymbol := h.symbol
  have hpos : 0 < symbolSize k := by
    rw [symbolSize]
    omega
  have hle := symbolCount_le hpos h.nonempty
  have hshort := h.short
  exact ⟨hpos,by omega,rfl,rfl,by simp⟩

end BlockDecoder

open BlockDecoder

/-- A payload id is a byte for the source block, of which there is one, and three for the symbol. -/
def symbolIds : Nat := 2^24

instance : EncodingRaptorq PlainPacket BlockDecoder where
  encodes data maxPacketSize := decide (0 < data.length ∧ 8 ≤ maxPacketSize)
  encodedPackets data maxPacketSize _ :=
    (List.range (symbolCount (symbolSize maxPacketSize) data.length)).map (packet (symbolSize maxPacketSize) data)
  serialize packet := beBytes payloadIdSize packet.id.val ++ packet.symbol
  deserialize b :=
    if b.length < payloadIdSize then none
    else some ⟨Fin.ofNat (2^32) (beNat (b.take payloadIdSize)),b.drop payloadIdSize⟩
  starts transferLength maxPacketSize := decide (0 < transferLength ∧ 8 ≤ maxPacketSize)
  decoder transferLength maxPacketSize := ⟨transferLength,symbolSize maxPacketSize,[]⟩
  takes packet decoder := decide (packet.id.val < symbolIds ∧ packet.symbol.length = decoder.size)
  decode packet decoder := ((decoder.accept packet).object,decoder.accept packet)
  deserialize_eq_none := PlainPacket.deserialize_eq_none
  serialize_length := PlainPacket.serialize_length
  encodes_codable _ _ h := decide_eq_true ⟨h.nonempty,h.symbol⟩
  starts_codable _ _ h := decide_eq_true ⟨h.nonempty,h.symbol⟩

namespace BlockDecoder

variable {data : Bytes} {d : BlockDecoder} {packets : List PlainPacket} {size : Nat}

/-- A decoder takes the packets of its object. -/
theorem Gathers.takesAll (h : Gathers size data d) (hids : symbolCount size data.length ≤ symbolIds)
    (hpackets : ∀ p ∈ packets, ∃ i < symbolCount size data.length, p = packet size data i) :
    Raptorq.takesAll packets d = true := by
  induction packets generalizing d with
  | nil => rfl
  | cons p packets ih =>
    have hfirst := hpackets p List.mem_cons_self
    have hnext := ih (h.accept hfirst) (fun q hq => hpackets q (List.mem_cons_of_mem _ hq))
    obtain ⟨i,hi,rfl⟩ := hfirst
    have hid : (packet size data i).id.val < symbolIds := by
      have hval : (packet size data i).id.val = i := (Fin.val_ofNat _ _).trans (Nat.mod_eq_of_lt (hi.trans_le h.few))
      omega
    have htakes : Raptorq.takes (packet size data i) d = true :=
      decide_eq_true ⟨hid,(symbol_length h.positive i).trans h.sized.symm⟩
    rw [Raptorq.takesAll,htakes,Bool.true_and]
    exact hnext

theorem Gathers.decodeAll_only (h : Gathers size data d)
    (hpackets : ∀ p ∈ packets, ∃ i < symbolCount size data.length, p = packet size data i) {value : Bytes}
    (hvalue : some value ∈ Raptorq.decodeAll packets d) : value = data := by
  induction packets generalizing d with
  | nil => cases hvalue
  | cons p packets ih =>
    have hnext := h.accept (hpackets p List.mem_cons_self)
    rcases List.mem_cons.mp hvalue with hfirst | hlater
    · exact hnext.object_only hfirst.symm
    · exact ih hnext (fun q hq => hpackets q (List.mem_cons_of_mem _ hq)) hlater

/-- The packet that makes the symbols complete makes the object complete. -/
theorem Gathers.decodeAll_some (h : Gathers size data d) (hne : packets ≠ [])
    (hpackets : ∀ p ∈ packets, ∃ i < symbolCount size data.length, p = packet size data i)
    (hall : ∀ i < symbolCount size data.length, packet size data i ∈ d.received ∨ packet size data i ∈ packets) :
    some data ∈ Raptorq.decodeAll packets d := by
  induction packets generalizing d with
  | nil => exact absurd rfl hne
  | cons p packets ih =>
    have hnext := h.accept (hpackets p List.mem_cons_self)
    have hafter : ∀ i < symbolCount size data.length,
        packet size data i ∈ (d.accept p).received ∨ packet size data i ∈ packets := by
      intro i hi
      rcases hall i hi with hin | hin
      · exact Or.inl (List.mem_cons_of_mem _ hin)
      · rcases List.mem_cons.mp hin with hlast | hin
        · exact Or.inl (hlast ▸ List.mem_cons_self)
        · exact Or.inr hin
    by_cases hlast : packets = []
    · subst hlast
      refine List.mem_cons.mpr (Or.inl (hnext.object_some (fun i hi => ?_)).symm)
      exact (hafter i hi).resolve_right (by simp)
    · exact List.mem_cons_of_mem _ (ih hnext hlast (fun q hq => hpackets q (List.mem_cons_of_mem _ hq)) hafter)

end BlockDecoder

theorem PlainPacket.deserialize_serialize (p : PlainPacket) :
    Raptorq.deserialize BlockDecoder (Raptorq.serialize BlockDecoder p) = some p := by
  obtain ⟨id,symbol⟩ := p
  have hlen : (beBytes payloadIdSize id.val).length = payloadIdSize := beBytes_length _ _
  have hid : id.val%256^payloadIdSize = id.val := Nat.mod_eq_of_lt id.isLt
  have hserialize : Raptorq.serialize BlockDecoder ⟨id,symbol⟩ = beBytes payloadIdSize id.val ++ symbol := rfl
  have hread : beNat ((beBytes payloadIdSize id.val ++ symbol).take payloadIdSize) = id.val := by
    rw [List.take_left' hlen,beNat_beBytes,hid]
  rw [hserialize]
  refine (if_neg (by rw [List.length_append,hlen]; omega)).trans ?_
  rw [hread,List.drop_left' hlen,Fin.ofNat_val_eq_self]

instance [Target] : CodingRaptorq PlainPacket BlockDecoder where
  sourcePackets data size := Raptorq.encodedPackets BlockDecoder data size 0
  deserialize_serialize := PlainPacket.deserialize_serialize
  encoded_length data size repair h := by
    have hg := gathers_new h
    have hle := symbolCount_le hg.positive h.nonempty
    have hmax := u32Max_le_usizeMax
    have hu32 : u32Max = 4294967295 := rfl
    have hshort := h.short
    change ((List.range (symbolCount (symbolSize size) data.length)).map _).length ≤ usizeMax
    rw [List.length_map,List.length_range]
    omega
  source_encoded _ _ _ _ e he := he
  takes_encoded data size repair packets h hpackets := by
    have hg := gathers_new h
    have hle := symbolCount_le hg.positive h.nonempty
    have hshort := h.short
    refine hg.takesAll (by rw [symbolIds]; omega) (fun p hp => ?_)
    obtain ⟨i,hi,rfl⟩ := List.mem_map.mp (hpackets p hp)
    exact ⟨i,List.mem_range.mp hi,rfl⟩
  decodes_only data size repair packets h hpackets value hvalue := by
    refine (gathers_new h).decodeAll_only (fun p hp => ?_) hvalue
    obtain ⟨i,hi,rfl⟩ := List.mem_map.mp (hpackets p hp)
    exact ⟨i,List.mem_range.mp hi,rfl⟩
  decodes data size repair packets h hpackets hall := by
    have hg := gathers_new h
    have hsource : ∀ i < symbolCount (symbolSize size) data.length, packet (symbolSize size) data i ∈ packets :=
      fun i hi => hall _ (List.mem_map.mpr ⟨i,List.mem_range.mpr hi,rfl⟩)
    refine hg.decodeAll_some ?_ (fun p hp => ?_) (fun i hi => Or.inr (hsource i hi))
    · exact List.ne_nil_of_mem (hsource 0 (symbolCount_pos hg.positive h.nonempty))
    · obtain ⟨i,hi,rfl⟩ := List.mem_map.mp (hpackets p hp)
      exact ⟨i,List.mem_range.mp hi,rfl⟩

instance : SizedRaptorq PlainPacket BlockDecoder where
  encoded_nonempty data size repair h := by
    have hg := gathers_new h
    have hpos := symbolCount_pos hg.positive h.nonempty
    exact List.ne_nil_of_mem (List.mem_map.mpr ⟨0,List.mem_range.mpr hpos,rfl⟩)
  serialize_size data size repair h e he := by
    obtain ⟨i,_,rfl⟩ := List.mem_map.mp he
    change (beBytes payloadIdSize _ ++ symbol (symbolSize size) data i).length = 4+size/8*8
    rw [List.length_append,beBytes_length,symbol_length (gathers_new h).positive]
    rfl

instance [Target] : RadioRaptorq PlainPacket BlockDecoder where
  encoded_nonempty := SizedRaptorq.encoded_nonempty
  serialize_size := SizedRaptorq.serialize_size

end Finder
