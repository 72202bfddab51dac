import Finder.Storage.Writing

namespace Finder

variable [Target] [RecordCodec] {slabSize : Nat}

/-- A slab of the memory holds these records, all of which its length fields can tell. -/
structure SlabStored (slabSize : Nat) (data : Bytes) (start : Nat) (rs : List Record) : Prop where
  nonempty : rs ≠ []
  few : rs.length ≤ u32Max
  short : ∀ r ∈ rs, (toBytes r).length ≤ u32Max
  fits : (slabBytes rs).length ≤ slabSize
  bytes : getRange data start (start+(slabBytes rs).length) = some (slabBytes rs)

/-- The memory holds one slab for each session, from its start on, and nothing else is counted. -/
structure Holds (io : MemIo slabSize) (sessions : List (List Record)) : Prop where
  start : io.startOffset = 0
  count : io.slabCount = sessions.length
  positive : 0 < slabSize
  maxIndex : io.maxIndex = io.data.length/slabSize
  bounded : io.data.length ≤ isizeMax
  room : sessions.length*slabSize ≤ io.data.length
  slabs : ∀ i rs, sessions[i]? = some rs → SlabStored slabSize io.data (i*slabSize) rs

omit [Target] in
theorem SlabStored.congr {data data' : Bytes} {start : Nat} {rs : List Record}
    (h : SlabStored slabSize data start rs) (hl : data'.length = data.length)
    (hd : ∀ k, start ≤ k → k < start+slabSize → data'[k]? = data[k]?) :
    SlabStored slabSize data' start rs := by
  refine ⟨h.nonempty,h.few,h.short,h.fits,?_⟩
  rw [←h.bytes]
  exact getRange_congr hl (fun k h1 h2 => hd k h1 (by have := h.fits; omega))

omit [Target] in
theorem SlabStored.length_le {data : Bytes} {start : Nat} {rs : List Record}
    (h : SlabStored slabSize data start rs) : rs.length ≤ slabSize := by
  have hle : ∀ qs : List Record, qs.length ≤ (frames qs).length := by
    intro qs
    induction qs with
    | nil => exact Nat.le_refl _
    | cons q qs ih =>
      have hq := frame_length q
      have hpos := RecordCodec.positive q
      simp only [frames_cons,List.length_append,List.length_cons]
      omega
  have hf := h.fits
  rw [slabBytes_length] at hf
  have := hle rs
  omega

theorem holds_new {data : Bytes} {io : MemIo slabSize} (hbound : data.length ≤ isizeMax)
    (h : MemIo.new data = .ok io) : Holds io [] ∧ io.data = data := by
  unfold MemIo.new at h
  split_ifs at h with hz
  cases h
  exact ⟨⟨rfl,rfl,Nat.pos_of_ne_zero hz,rfl,hbound,by simp,by simp⟩,rfl⟩

/-- A slab of records is opened from its bytes, however long the records are. -/
theorem slabNew_counts {slice : Bytes} (index : Nat) {rs : List Record}
    (h : getRange slice 0 (slabBytes rs).length = some (slabBytes rs)) (hsmall : slice.length ≤ isizeMax)
    (hfew : rs.length ≤ u32Max) : ∃ slab, Slab.new slice index = .ok slab ∧ slab.slab = index ∧
      slab.offset = SlabWriter.initialOffset ∧ slab.count = rs.length ∧ slab.records = slice ∧
      getRange slice SlabWriter.initialOffset (SlabWriter.initialOffset+(frames rs).length) = some (frames rs) := by
  have husize := usizeMax_eq
  have hinit : SlabWriter.initialOffset = u32Size+u64Size := rfl
  have hlen := slabBytes_length rs
  have hin := (getRange_eq_some.mp h).2.1
  rw [show (slabBytes rs).length = 0+(slabBytes rs).length by omega] at h
  have hsplit := getRange_split h
  have h32 := hsplit.1
  have h64 := (getRange_split hsplit.2).1
  have hframes := (getRange_split hsplit.2).2
  simp only [beBytes_length,Nat.zero_add] at h32 h64 hframes
  have hr32 := readU32_ok (show getRange slice 0 (0+u32Size) = some (beBytes u32Size rs.length) by
    simpa using h32) (by omega) hfew
  have hr64 := readU64_ok h64 (by omega)
  rw [Nat.zero_add] at hr32
  refine ⟨{ slab := index
            offset := u32Size+u64Size
            count := rs.length
            slabMaxSequence := beNat (beBytes u64Size (lastMax rs).val)
            records := slice },?_,rfl,rfl,rfl,rfl,by rw [←hlen,hinit,←hframes]⟩
  simp only [Slab.new,hr32,Outcome.ok_bind,hr64]

theorem slabNew_holds {slice : Bytes} (index : Nat) {rs : List Record}
    (h : getRange slice 0 (slabBytes rs).length = some (slabBytes rs)) (hsmall : slice.length ≤ isizeMax)
    (hfew : rs.length ≤ u32Max) (hshort : ∀ r ∈ rs, (toBytes r).length ≤ u32Max) :
    ∃ slab, Slab.new slice index = .ok slab ∧ SlabHolds slab index rs := by
  obtain ⟨slab,hnew,hindex,hoffset,hcount,rfl,hframes⟩ := slabNew_counts index h hsmall hfew
  exact ⟨slab,hnew,hindex,hoffset,hcount,hfew,hshort,hsmall,hframes⟩

omit [RecordCodec] in
/-- A whole slab of the memory is opened from the bytes it lies in. -/
theorem getSlab_slice {io : MemIo slabSize} {i : Nat} (hstart : io.startOffset = 0)
    (hmax : io.maxIndex = io.data.length/slabSize) (hpos : 0 < slabSize) (hbound : io.data.length ≤ isizeMax)
    (hin : (i+1)*slabSize ≤ io.data.length) :
    ∃ slice, io.getSlab i = Slab.new slice i ∧ slice.length = slabSize ∧
      ∀ n, n ≤ slabSize → getRange slice 0 n = getRange io.data (i*slabSize) (i*slabSize+n) := by
  have hindex : i < io.maxIndex := by
    rw [hmax]
    exact (Nat.le_div_iff_mul_le hpos).mpr hin
  rw [Nat.succ_mul] at hin
  have hrange := getRange_some_of_le (show i*slabSize ≤ i*slabSize+slabSize by omega) hin
  obtain ⟨slice,hslice⟩ : ∃ s, s = (io.data.drop (i*slabSize)).take (i*slabSize+slabSize-i*slabSize) :=
    ⟨_,rfl⟩
  rw [←hslice] at hrange
  have hslen := getRange_length hrange
  rw [Nat.add_sub_cancel_left] at hslen
  refine ⟨slice,MemIo.getSlab_in hstart hindex hpos hbound hin hrange,hslen,fun n hn => ?_⟩
  rw [getRange_getRange hrange (by omega),Nat.add_zero]

/-- A whole slab of the memory can be opened, and holds what lies in it. -/
theorem getSlab_holds {io : MemIo slabSize} {i : Nat} {rs : List Record} (hstart : io.startOffset = 0)
    (hmax : io.maxIndex = io.data.length/slabSize) (hpos : 0 < slabSize) (hbound : io.data.length ≤ isizeMax)
    (hin : (i+1)*slabSize ≤ io.data.length) (hfits : (slabBytes rs).length ≤ slabSize)
    (hbytes : getRange io.data (i*slabSize) (i*slabSize+(slabBytes rs).length) = some (slabBytes rs))
    (hfew : rs.length ≤ u32Max) (hshort : ∀ r ∈ rs, (toBytes r).length ≤ u32Max) :
    ∃ slab, io.getSlab i = .ok slab ∧ SlabHolds slab i rs := by
  obtain ⟨slice,hget,hslen,hslice⟩ := getSlab_slice hstart hmax hpos hbound hin
  rw [Nat.succ_mul] at hin
  have hsub : getRange slice 0 (slabBytes rs).length = some (slabBytes rs) := (hslice _ hfits).trans hbytes
  obtain ⟨slab,hnew,hholds⟩ := slabNew_holds i hsub (by omega) hfew hshort
  exact ⟨slab,hget.trans hnew,hholds⟩

namespace Holds

variable {io : MemIo slabSize} {sessions : List (List Record)}

theorem append {w : SlabWriter slabSize} {rs : List Record} (h : Holds io sessions)
    (hw : Writing w io rs) (hne : rs ≠ []) (hshort : ∀ r ∈ rs, (toBytes r).length ≤ u32Max) :
    ∃ w', SlabWriter.commit w = (.ok (),w') ∧ Holds w'.io (sessions ++ [rs]) ∧
      w'.io.data.length = io.data.length := by
  obtain ⟨w',hcommit,hio,hlen,hsame,hbytes⟩ := hw.commit_ok h.bounded hne
  have hstart : w.slabOffset = sessions.length*slabSize := by rw [hw.start,h.start,h.count,Nat.zero_add]
  obtain ⟨hin,hroom,-⟩ := hw.bytes hne
  have hstop := hw.stop
  have hoffset := hw.offset
  refine ⟨w',hcommit,⟨?_,?_,h.positive,?_,?_,?_,fun i rs' hi => ?_⟩,hlen⟩
  · rw [hio]
    exact h.start
  · rw [hio]
    simp [h.count]
  · rw [hlen,hio]
    exact h.maxIndex
  · rw [hlen]
    exact h.bounded
  · rw [hlen,List.length_append,List.length_singleton,Nat.succ_mul]
    omega
  · by_cases hlast : i < sessions.length
    · rw [List.getElem?_append_left hlast] at hi
      have hnext : (i+1)*slabSize ≤ sessions.length*slabSize := Nat.mul_le_mul_right _ hlast
      rw [Nat.succ_mul] at hnext
      exact (h.slabs i rs' hi).congr hlen (fun k _ hk => hsame k (by omega))
    · rw [List.getElem?_append_right (by omega)] at hi
      have hi0 : i = sessions.length := by
        have := (List.getElem?_eq_some_iff.mp hi).1
        simp only [List.length_singleton] at this
        omega
      rw [hi0,Nat.sub_self] at hi
      cases hi
      rw [hi0,←hstart]
      exact ⟨hne,hw.few,hshort,by rw [slabBytes_length]; omega,hbytes⟩

/-- Bytes past the counted slabs may change. -/
theorem scribble (h : Holds io sessions) {io' : MemIo slabSize} (hio : io' = { io with data := io'.data })
    (hl : io'.data.length = io.data.length)
    (hd : ∀ k, k < sessions.length*slabSize → io'.data[k]? = io.data[k]?) : Holds io' sessions := by
  refine ⟨?_,?_,h.positive,?_,hl ▸ h.bounded,hl ▸ h.room,fun i rs hi => ?_⟩
  · rw [hio]
    exact h.start
  · rw [hio]
    exact h.count
  · rw [hl,hio]
    exact h.maxIndex
  · have hlast := (List.getElem?_eq_some_iff.mp hi).1
    have hnext : (i+1)*slabSize ≤ sessions.length*slabSize := Nat.mul_le_mul_right _ hlast
    rw [Nat.succ_mul] at hnext
    exact (h.slabs i rs hi).congr hl (fun k _ hk => hd k (by omega))

theorem length_lt (h : Holds io sessions) : sessions.length < usizeMax := by
  have hle := Nat.le_mul_of_pos_right sessions.length h.positive
  have := h.room
  have := h.bounded
  have := usizeMax_eq
  omega

theorem flatten_le (h : Holds io sessions) : sessions.flatten.length ≤ io.data.length := by
  have hle : ∀ ss : List (List Record), (∀ rs ∈ ss, rs.length ≤ slabSize) →
      ss.flatten.length ≤ ss.length*slabSize := by
    intro ss
    induction ss with
    | nil => simp
    | cons rs ss ih =>
      intro hall
      have hrest := ih (fun x hx => hall x (List.mem_cons_of_mem _ hx))
      have hrs := hall rs List.mem_cons_self
      simp only [List.flatten_cons,List.length_append,List.length_cons,Nat.succ_mul]
      omega
  refine (hle sessions (fun rs hrs => ?_)).trans h.room
  obtain ⟨i,hi⟩ := List.getElem?_of_mem hrs
  exact (h.slabs i rs hi).length_le

theorem getSlab (h : Holds io sessions) {i : Nat} {rs : List Record} (hi : sessions[i]? = some rs) :
    ∃ slab, io.getSlab i = .ok slab ∧ SlabHolds slab i rs := by
  have hs := h.slabs i rs hi
  have hlast := (List.getElem?_eq_some_iff.mp hi).1
  have hnext : (i+1)*slabSize ≤ sessions.length*slabSize := Nat.mul_le_mul_right _ hlast
  exact getSlab_holds h.start h.maxIndex h.positive h.bounded (hnext.trans h.room) hs.fits hs.bytes hs.few hs.short

end Holds

end Finder
