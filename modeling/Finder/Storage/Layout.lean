import Finder.Protocol.Storage

namespace Finder

/-- A record takes at least one byte, and at most three `u64`, an id and a length besides its data. -/
class RecordCodec extends Postcard Record where
  positive : ∀ r : Record, 0 < (toBytes r).length
  bounded : ∀ r : Record, r.data.length < 2^64 → (toBytes r).length ≤ r.data.length+72

/-- Records are read front to back: the start of one does not read as a record. -/
class PrefixCodec [RecordCodec] : Prop where
  truncated : ∀ (r x : Record) (n : Nat), n < (toBytes r).length → fromBytes ((toBytes r).take n) ≠ .ok x

section Bytes

variable [Target] {data x : Bytes} {offset : Nat}

theorem readArr_ok {size : Nat} (h : getRange data offset (offset+size) = some x)
    (hmax : offset+size ≤ usizeMax) : readArr size data offset = .ok (x,offset+size) := by
  have hlen := getRange_length h
  rw [Nat.add_sub_cancel_left] at hlen
  simp [readArr,checkedAdd,hmax,h,hlen]

theorem readU32_ok {n : Nat} (h : getRange data offset (offset+u32Size) = some (beBytes u32Size n))
    (hmax : offset+u32Size ≤ usizeMax) (hn : n ≤ u32Max) :
    readU32 data offset = .ok (n,offset+u32Size) := by
  have hval : beNat (beBytes u32Size n) = n := by
    rw [beNat_beBytes]
    apply Nat.mod_eq_of_lt
    simp only [u32Max,u32Size] at hn ⊢
    omega
  rw [readU32,readArr_ok h hmax]
  simp [hval]

theorem readU64_ok (h : getRange data offset (offset+u64Size) = some x)
    (hmax : offset+u64Size ≤ usizeMax) : readU64 data offset = .ok (beNat x,offset+u64Size) := by
  rw [readU64,readArr_ok h hmax]
  rfl

theorem writeArr_ok (arr : Bytes) (hroom : offset+arr.length ≤ data.length)
    (hmax : offset+arr.length ≤ usizeMax) :
    writeArr arr offset data = (.ok (offset+arr.length),overwrite data offset arr) := by
  simp [writeArr,checkedAdd,hmax,getRange_some_of_le (Nat.le_add_right _ _) hroom]

theorem writeU32_ok (value : Nat) (hroom : offset+u32Size ≤ data.length) (hmax : offset+u32Size ≤ usizeMax) :
    writeU32 value offset data = (.ok (offset+u32Size),overwrite data offset (beBytes u32Size value)) := by
  have h := writeArr_ok (beBytes u32Size value)
    (by simpa using hroom) (by simpa using hmax)
  simpa [writeU32] using h

theorem writeU64_ok (value : Nat) (hroom : offset+u64Size ≤ data.length) (hmax : offset+u64Size ≤ usizeMax) :
    writeU64 value offset data = (.ok (offset+u64Size),overwrite data offset (beBytes u64Size value)) := by
  have h := writeArr_ok (beBytes u64Size value)
    (by simpa using hroom) (by simpa using hmax)
  simpa [writeU64] using h

end Bytes

section Frames

variable [RecordCodec]

/-- A record as it lies in a slab: its length, then its bytes. -/
def frame (r : Record) : Bytes := beBytes u32Size (toBytes r).length ++ toBytes r

def frames (rs : List Record) : Bytes := rs.flatMap frame

omit [RecordCodec] in
/-- The greatest sequence of a slab is the one its last record carries. -/
def lastMax (rs : List Record) : U64 :=
  match rs.getLast? with
  | some r => r.maxSequence
  | none => 0

/-- A written slab: the number of its records, their greatest sequence, and the records. -/
def slabBytes (rs : List Record) : Bytes :=
  beBytes u32Size rs.length ++ (beBytes u64Size (lastMax rs).val ++ frames rs)

theorem frame_length (r : Record) : (frame r).length = u32Size+(toBytes r).length := by simp [frame]

@[simp] theorem frames_nil : frames [] = [] := rfl

theorem frames_append (as bs : List Record) : frames (as ++ bs) = frames as ++ frames bs := by
  simp [frames]

theorem frames_cons (r : Record) (rs : List Record) : frames (r::rs) = frame r ++ frames rs := by
  simp [frames]

theorem frames_append_single (rs : List Record) (r : Record) : frames (rs ++ [r]) = frames rs ++ frame r := by
  simp [frames]

omit [RecordCodec] in
@[simp] theorem lastMax_append_single (rs : List Record) (r : Record) :
    lastMax (rs ++ [r]) = r.maxSequence := by simp [lastMax]

theorem slabBytes_length (rs : List Record) :
    (slabBytes rs).length = SlabWriter.initialOffset+(frames rs).length := by
  simp [slabBytes,SlabWriter.initialOffset,Nat.add_assoc]

theorem slabBytes_single (r : Record) :
    (slabBytes [r]).length = SlabWriter.initialOffset+u32Size+(toBytes r).length := by
  rw [slabBytes_length,frames_cons,frames_nil,List.append_nil,frame_length]
  omega

end Frames

section Slab

variable [Target] [RecordCodec]

/-- What a slab of these records gives back when it is opened. -/
structure SlabHolds (slab : Slab) (index : Nat) (rs : List Record) : Prop where
  index : slab.slab = index
  offset : slab.offset = SlabWriter.initialOffset
  count : slab.count = rs.length
  few : rs.length ≤ u32Max
  short : ∀ r ∈ rs, (toBytes r).length ≤ u32Max
  small : slab.records.length ≤ isizeMax
  bytes : getRange slab.records SlabWriter.initialOffset
    (SlabWriter.initialOffset+(frames rs).length) = some (frames rs)

/-- The cursor behind the given first records of a slab. -/
def cursorAfter (index : Nat) (rs : List Record) : Cursor :=
  { slab := index
    offset := SlabWriter.initialOffset+(frames rs).length
    readCount := rs.length }

variable {slab : Slab} {index : Nat} {p q : List Record} {r : Record}

theorem SlabHolds.getHead (h : SlabHolds slab index p) : slab.getHead = cursorAfter index [] := by
  simp [Slab.getHead,cursorAfter,h.index,h.offset]

theorem SlabHolds.read_next (h : SlabHolds slab index (p ++ r::q)) :
    slab.read (cursorAfter index p) = .ok (some (r,cursorAfter index (p ++ [r]))) := by
  have hbytes := h.bytes
  have hbound := (getRange_eq_some.mp hbytes).2.1
  have hfew := h.few
  have hsmall := h.small
  have hpos := RecordCodec.positive r
  have hshort := h.short r (by simp)
  have husize := usizeMax_eq
  simp only [frames_append,frames_cons,frame,List.length_append,beBytes_length,List.append_assoc] at hbytes hbound
  simp only [List.length_append,List.length_cons] at hfew
  have hlen := (getRange_split (getRange_split hbytes).2).1
  have henc := (getRange_split (getRange_split (getRange_split hbytes).2).2).1
  rw [beBytes_length] at hlen henc
  have hread := readU32_ok hlen (by omega) hshort
  have hcount : ¬p.length ≥ slab.count := by
    rw [h.count,List.length_append,List.length_cons]
    omega
  have hnext : cursorAfter index (p ++ [r]) =
      { slab := index
        offset := SlabWriter.initialOffset+(frames p).length+u32Size+(toBytes r).length
        readCount := p.length+1 } := by
    simp [cursorAfter,frames_append_single,frame_length,Nat.add_assoc]
  have hend : checkedAdd usizeMax (SlabWriter.initialOffset+(frames p).length+u32Size) (toBytes r).length =
      some (SlabWriter.initialOffset+(frames p).length+u32Size+(toBytes r).length) :=
    checkedAdd_eq_some.mpr ⟨by omega,rfl⟩
  have hone : checkedAdd u32Max p.length 1 = some (p.length+1) := checkedAdd_eq_some.mpr ⟨by omega,rfl⟩
  rw [hnext]
  simp only [Slab.read,cursorAfter,if_neg hcount,hread,Outcome.ok_bind,if_neg (Nat.ne_of_gt hpos),hend,
    Outcome.okOr_some,henc,Postcard.fromBytes_toBytes,hone]

theorem SlabHolds.read_end (h : SlabHolds slab index p) : slab.read (cursorAfter index p) = .ok none := by
  simp [Slab.read,cursorAfter,h.count]

end Slab

end Finder
