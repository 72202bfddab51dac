import Finder.Storage.Frame
import Finder.Storage.Reopen

namespace Finder

section

variable [Target] {slabSize : Nat}

section Runs

variable [Postcard Record]

/-- A writer session that is dropped before its commit. -/
def Storage.abandon (attempts : List Record) (st : Storage slabSize) : Option (Storage slabSize) :=
  match st.getWriter with
  | .ok w => (SlabWriter.writeEach attempts w).map (fun p => ⟨p.2.io⟩)
  | _ => none

/-- The storage after writer sessions on a `MemIo` over the given bytes, with what the committed ones
have written. -/
inductive Written (data : Bytes) : List (List Record) → Storage slabSize → Prop
  | start (io : MemIo slabSize) (hbound : data.length ≤ isizeMax) (h : MemIo.new data = .ok io) :
      Written data [] ⟨io⟩
  | commit (sessions : List (List Record)) (st st' : Storage slabSize) (attempts taken : List Record)
      (hrun : Written data sessions st) (h : st.session attempts = some (taken,st')) (hne : taken ≠ []) :
      Written data (sessions ++ [taken]) st'
  | drop (sessions : List (List Record)) (st st' : Storage slabSize) (attempts : List Record)
      (hrun : Written data sessions st) (h : st.abandon attempts = some st') : Written data sessions st'

/-- A loop from the first record on gets the data of these sessions and then the end; where there is none,
there is no first record. -/
def RoundTrips (st : Storage slabSize) (sessions : List (List Record)) : Prop :=
  if sessions = [] then st.getCursorFromSequence 0 = .ok none
  else ∃ cursor, st.getCursorFromSequence 0 = .ok (some cursor) ∧
    Reads st cursor (sessions.flatten.map Record.data)

end Runs

variable [RecordCodec] {st st' : Storage slabSize} {attempts taken : List Record}

theorem Writing.writeEach_header {io : MemIo slabSize} (hbound : io.data.length ≤ isizeMax)
    {rs : List Record} {w w' : SlabWriter slabSize} (h : Writing w io rs) (hkept : w.HeaderKept io)
    (hw : SlabWriter.writeEach attempts w = some (taken,w')) : w'.HeaderKept io := by
  induction attempts generalizing w rs taken with
  | nil =>
    cases hw
    exact hkept
  | cons r attempts ih =>
    obtain ⟨_,v,_,_,hr,hv,hrest,_⟩ := h.writeEach_cons hbound hw
    exact ih hv (h.headerKept hv hkept hr) hrest

theorem session_advanced (hbound : st.io.data.length ≤ isizeMax)
    (hs : st.session attempts = some (taken,st')) (hne : taken ≠ []) : st.io.Advanced st'.io := by
  obtain ⟨w,w',hwriting,hcommit,rfl⟩ := session_writing hbound hs
  exact (hwriting.commit_advanced hbound hne hcommit).1

/-- Until it commits a session leaves the header as it was. -/
theorem newWriter_headerKept {w w' : SlabWriter slabSize} (hw : st.getWriter = .ok w)
    (hbound : st.io.data.length ≤ isizeMax) (heach : SlabWriter.writeEach attempts w = some (taken,w')) :
    w'.HeaderKept st.io := by
  have hio : w.io = st.io := by
    rw [Storage.getWriter,newWriter_eq] at hw
    split_ifs at hw
    cases hw
    rfl
  exact (newWriter_eq_ok hw).writeEach_header hbound (fun k _ => by rw [hio]) heach

omit [RecordCodec] in
/-- The steps of a session that has been left. -/
theorem Storage.abandon_eq_some [Postcard Record] : st.abandon attempts = some st' ↔
    ∃ w taken last, st.getWriter = .ok w ∧ SlabWriter.writeEach attempts w = some (taken,last) ∧ st' = ⟨last.io⟩ := by
  unfold Storage.abandon
  constructor
  · intro hs
    split at hs
    · rename_i w hw
      obtain ⟨⟨taken,last⟩,heach,rfl⟩ := Option.map_eq_some_iff.mp hs
      exact ⟨w,taken,last,hw,heach,rfl⟩
    · cases hs
  · rintro ⟨w,taken,last,hw,heach,rfl⟩
    simp [hw,heach]

theorem abandon_advanced (hbound : st.io.data.length ≤ isizeMax) (hs : st.abandon attempts = some st') :
    st.io.Advanced st'.io ∧ st'.io.slabCount = st.io.slabCount := by
  obtain ⟨w,taken,last,hw,heach,rfl⟩ := Storage.abandon_eq_some.mp hs
  have hwriting := (newWriter_eq_ok hw).writeEach hbound heach
  exact ⟨hwriting.advanced (newWriter_headerKept hw hbound heach),by rw [hwriting.memory]⟩

theorem Holds.advanced {io io' : MemIo slabSize} {sessions : List (List Record)} (h : Holds io sessions)
    (hadvanced : io.Advanced io') (hcount : io'.slabCount = io.slabCount) : Holds io' sessions := by
  refine h.scribble ?_ hadvanced.length (fun k hk => hadvanced.before k ?_)
  · obtain ⟨count,maxIndex,start,data⟩ := io'
    have h1 := hadvanced.start
    have h2 := hadvanced.maxIndex
    simp only at h1 h2 hcount
    subst h1 h2 hcount
    rfl
  · rw [h.start,h.count]
    omega

theorem Written.holds {n : Nat} {sessions : List (List Record)}
    (h : Written (List.replicate n 0) sessions st)
    (hshort : ∀ rs ∈ sessions, ∀ r ∈ rs, (toBytes r).length < 2^32) : Holds st.io sessions ∧ st.io.Blank := by
  induction h with
  | start io hbound h => exact ⟨(holds_new hbound h).1,memIo_new_blank h⟩
  | commit sessions st st' attempts taken _ h hne ih =>
    obtain ⟨hholds,hblank⟩ := ih (fun rs hrs => hshort rs (List.mem_append_left _ hrs))
    have hproper : Proper taken := by
      refine ⟨hne,fun r hr => ?_⟩
      have hlt := hshort taken (by simp) r hr
      simp only [u32Max]
      omega
    exact ⟨(hholds.session h hproper).1,hblank.advanced (session_advanced hholds.bounded h hne)⟩
  | drop sessions st st' attempts _ h ih =>
    obtain ⟨hholds,hblank⟩ := ih hshort
    obtain ⟨hadvanced,hcount⟩ := abandon_advanced hholds.bounded h
    exact ⟨hholds.advanced hadvanced hcount,hblank.advanced hadvanced⟩

/-- Where every record can be told by its length field, what the sessions committed is what is read. -/
theorem sessions_round_trip {n : Nat} {sessions : List (List Record)}
    (h : Written (List.replicate n 0) sessions st)
    (hshort : ∀ rs ∈ sessions, ∀ r ∈ rs, (toBytes r).length < 2^32) : RoundTrips st sessions := by
  obtain ⟨hholds,hblank⟩ := h.holds hshort
  unfold RoundTrips
  split_ifs with hne
  · subst hne
    exact hholds.scan_none hblank (by simp)
  · obtain ⟨cursor,hcursor,hreads,_⟩ := hholds.first hne
    exact ⟨cursor,hcursor,hreads⟩

section Giant

variable {r : Record}

/-- The length field of a record of 2^32 bytes is zero, which stands for the end of the slab. -/
theorem giant_slab (hlen : (toBytes r).length = 2^32) (hsmall : (slabBytes [r]).length ≤ isizeMax) (index : Nat) :
    ∃ slab, Slab.new (slabBytes [r]) index = .ok slab ∧ slab.count = 1 ∧ slab.read slab.getHead = .ok none := by
  have husize := usizeMax_eq
  have hall : getRange (slabBytes [r]) 0 (slabBytes [r]).length = some (slabBytes [r]) := by
    rw [getRange_some_of_le (by omega) (le_refl _),List.drop_zero,Nat.sub_zero,List.take_length]
  have hframes : frames [r] = beBytes u32Size 0 ++ toBytes r := by
    simp only [frames,List.flatMap_cons,List.flatMap_nil,List.append_nil,frame,hlen]
    rfl
  obtain ⟨slab,hnew,_,hoffset,hcount,hrecords,hbytes⟩ := slabNew_counts index hall hsmall (by simp [u32Max])
  rw [hframes] at hbytes
  have hzero := (getRange_split hbytes).1
  rw [beBytes_length] at hzero
  have hin := (getRange_eq_some.mp hzero).2.1
  have hend := readU32_ok hzero (by omega) (Nat.zero_le _)
  refine ⟨slab,hnew,hcount,?_⟩
  simp [Slab.read,Slab.getHead,hcount,hoffset,hrecords,hend]

/-- A committed record of 2^32 bytes cannot be found again. -/
theorem giant_lost (hbound : (slabBytes [r]).length ≤ isizeMax) (hlen : (toBytes r).length = 2^32)
    (hsize : (slabBytes [r]).length = slabSize) : ∃ st : Storage slabSize,
      Written (List.replicate slabSize 0) [[r]] st ∧ st.getCursorFromSequence 0 = .ok none := by
  have hlength := slabBytes_length [r]
  have hframes : (frames [r]).length = (frame r).length := by simp [frames]
  have hframe := frame_length r
  have hpos : 0 < slabSize := by omega
  obtain ⟨data,hdata⟩ : ∃ d : Bytes, d = List.replicate slabSize 0 := ⟨_,rfl⟩
  have hdlen : data.length = slabSize := by rw [hdata,List.length_replicate]
  have hnew : MemIo.new data = .ok (⟨0,1,0,data⟩ : MemIo slabSize) := by
    unfold MemIo.new
    rw [if_neg (by omega),hdlen,Nat.div_self hpos]
  have hroom : HasRoom (⟨0,1,0,data⟩ : MemIo slabSize) := by
    refine ⟨by omega,?_⟩
    simp only [Nat.zero_mul,Nat.zero_add]
    omega
  obtain ⟨st,hsession⟩ := session_single (⟨⟨0,1,0,data⟩⟩ : Storage slabSize) (by simp only; omega) hroom
    (show (slabBytes [r]).length ≤ slabSize by omega)
  rw [←hdata]
  refine ⟨st,.commit [] _ st [r] [r] (.start _ (by omega) hnew) hsession (by simp),?_⟩
  obtain ⟨w,w',hwriting,hcommit,rfl⟩ := session_writing (by simp only; omega) hsession
  obtain ⟨v,hv,hio,hvlen,_,hbytes⟩ := hwriting.commit_ok (by simp only; omega) (by simp)
  rw [hcommit] at hv
  cases hv
  have hstart := hwriting.start
  simp only [Nat.zero_mul,Nat.add_zero] at hstart hvlen
  rw [hstart,Nat.zero_add,hsize] at hbytes
  obtain ⟨slab,hslab,hcount,hread⟩ := giant_slab hlen hbound 0
  have hget : w'.io.getSlab 0 = .ok slab := by
    have hslice : getRange w'.io.data (0*slabSize) (0*slabSize+slabSize) = some (slabBytes [r]) := by
      rw [Nat.zero_mul,Nat.zero_add]
      exact hbytes
    rw [MemIo.getSlab_in (by rw [hio]) (by rw [hio]; exact Nat.one_pos) hpos (by omega) (by omega) hslice,hslab]
  have hout : w'.io.getSlab 1 = .err .outOfBounds := MemIo.getSlab_out (by rw [hio])
  have husize := usizeMax_eq
  obtain ⟨fuel,hfuel⟩ : ∃ fuel, usizeMax = fuel+1 := ⟨usizeMax-1,by omega⟩
  have hhead : w'.io.getHead = .ok 0 := by
    rw [hio]
    rfl
  have hscan : ∀ found, Storage.scanSlab found slab slab.count slab.getHead = .ok none := fun found => by
    rw [hcount]
    simp [Storage.scanSlab,hread]
  have hnext : ∀ found fuel, Storage.scanSlabs found w'.io fuel 1 = .ok none := fun found fuel => by
    cases fuel <;> simp [Storage.scanSlabs,hout]
  simp only [Storage.getCursorFromSequence,Storage.scan,hhead,Outcome.ok_bind,Nat.sub_zero,hfuel]
  simp [Storage.scanSlabs,hget,hscan,hnext]

end Giant

end

def giantRecord : Record := ⟨0,0,0,⟨Id.ofByte 0⟩,List.replicate (2^32-40) 0⟩

/-- With three numbers of one byte, an id and a length of five bytes, a record takes 2^32 bytes. -/
theorem giant_length {r : Record} (hmax : r.maxSequence.val < 128) (hcount : r.messageCount.val < 128)
    (hsequence : r.sequence.val < 128) (hdata : r.data.length = 2^32-40) : (toBytes r).length = 2^32 := by
  have hone : ∀ v, v < 128 → (varint varintU64 v).length = 1 := by
    intro v hv
    exact varint_length_eq (n := varintU64) (k := 0) (Or.inr rfl) (by omega) (by decide)
  have hlead := varint_length_eq (n := r.data.length+1) (k := 4) (v := r.data.length)
    (by omega) (by omega) (by omega)
  change (varint varintU64 r.maxSequence.val ++ (varint varintU64 r.messageCount.val ++
    (varint varintU64 r.sequence.val ++ (encode r.sender.id ++
      (varint (r.data.length+1) r.data.length ++ r.data))))).length = _
  simp only [List.length_append,encode_id_length,sha256Size,hone _ hmax,hone _ hcount,hone _ hsequence,hlead]
  omega

theorem giantRecord_length : (toBytes giantRecord).length = 2^32 :=
  giant_length (by decide) (by decide) (by decide) List.length_replicate

/-- A slab of 4 GiB and 16 bytes takes the record, which is then not there. -/
theorem giantRecord_lost : ∃ st : Storage (2^32+16),
    Written (List.replicate (2^32+16) 0) [[giantRecord]] st ∧ ¬RoundTrips st [[giantRecord]] := by
  have hlength := slabBytes_length [giantRecord]
  have hframe := frame_length giantRecord
  have hframes : (frames [giantRecord]).length = (frame giantRecord).length := by simp [frames]
  have hu32 : u32Size = 4 := rfl
  have hinit : SlabWriter.initialOffset = 12 := rfl
  rw [giantRecord_length] at hframe
  have hsize : (slabBytes [giantRecord]).length = 2^32+16 := by omega
  obtain ⟨st,hwritten,hnone⟩ := giant_lost (by rw [hsize]; decide) giantRecord_length hsize
  refine ⟨st,hwritten,fun htrips => ?_⟩
  rw [RoundTrips,if_neg (by simp)] at htrips
  obtain ⟨cursor,hcursor,_⟩ := htrips
  rw [hnone] at hcursor
  cases hcursor

/-- A session that is dropped and one that is committed over it. -/
theorem sessions_round_trip_dropped : ∃ st : Storage 64, Written (List.replicate 128 0)
    [[⟨2,2,2,⟨Id.ofByte 1⟩,[8]⟩]] st ∧ RoundTrips st [[⟨2,2,2,⟨Id.ofByte 1⟩,[8]⟩]] := by
  have hbound : (List.replicate 128 (0 : UInt8)).length ≤ isizeMax := by
    rw [List.length_replicate]
    decide
  have hstart := Written.start (⟨0,2,0,List.replicate 128 0⟩ : MemIo 64) hbound (by simp [MemIo.new])
  obtain ⟨st1,hs1⟩ : ∃ st1, (⟨⟨0,2,0,List.replicate 128 0⟩⟩ : Storage 64).abandon
      [⟨1,1,1,⟨Id.ofByte 1⟩,[7]⟩] = some st1 := Option.isSome_iff_exists.mp (by decide +kernel)
  have h1 := hstart.drop _ _ _ _ hs1
  obtain ⟨hholds1,_⟩ := h1.holds (by simp)
  have hlen1 := (abandon_advanced hbound hs1).1.length
  obtain ⟨st2,hs2⟩ := session_single st1 hholds1.bounded
    (by simp [HasRoom,SlabWriter.initialOffset,u32Size,u64Size,hholds1.start,hholds1.count,hlen1])
    (r := ⟨2,2,2,⟨Id.ofByte 1⟩,[8]⟩) (by decide)
  have h2 := h1.commit _ _ _ _ _ hs2 (by simp)
  refine ⟨st2,h2,sessions_round_trip h2 (fun rs hrs r hr => ?_)⟩
  rw [List.mem_singleton] at hrs
  subst hrs
  rw [List.mem_singleton] at hr
  subst hr
  decide

end Finder
