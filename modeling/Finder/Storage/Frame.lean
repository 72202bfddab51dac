import Finder.Storage.Reading

namespace Finder

variable [Target] {slabSize : Nat}

/-- Only the first slab behind the counted ones may have changed, and its header only where it is
counted now. -/
structure MemIo.Advanced (io io' : MemIo slabSize) : Prop where
  start : io'.startOffset = io.startOffset
  maxIndex : io'.maxIndex = io.maxIndex
  length : io'.data.length = io.data.length
  count : io'.slabCount = io.slabCount ∨ io'.slabCount = io.slabCount+1
  before : ∀ k, k < io.startOffset+io.slabCount*slabSize → io'.data[k]? = io.data[k]?
  after : ∀ k, io.startOffset+io.slabCount*slabSize+slabSize ≤ k → io'.data[k]? = io.data[k]?
  header : io'.slabCount = io.slabCount →
    ∀ k, k < io.startOffset+io.slabCount*slabSize+SlabWriter.initialOffset → io'.data[k]? = io.data[k]?

/-- No slab behind the counted ones has ever been committed: the header, where there is room for one, counts
no records. -/
structure MemIo.Blank (io : MemIo slabSize) : Prop where
  start : io.startOffset = 0
  maxIndex : io.maxIndex = io.data.length/slabSize
  headers : ∀ i, io.slabCount ≤ i → (i+1)*slabSize ≤ io.data.length → u32Size ≤ slabSize →
    getRange io.data (i*slabSize) (i*slabSize+u32Size) = some (beBytes u32Size 0)

omit [Target] in
theorem MemIo.Advanced.refl (io : MemIo slabSize) : io.Advanced io :=
  ⟨rfl,rfl,rfl,Or.inl rfl,fun _ _ => rfl,fun _ _ => rfl,fun _ _ _ => rfl⟩

omit [Target] in
/-- Memory of zeroes is blank. -/
theorem memIo_new_blank {n : Nat} {io : MemIo slabSize} (h : MemIo.new (List.replicate n 0) = .ok io) :
    io.Blank := by
  unfold MemIo.new at h
  split_ifs at h
  cases h
  refine ⟨rfl,rfl,fun i _ hi hu32 => ?_⟩
  simp only [List.length_replicate] at hi
  have hnext : (i+1)*slabSize = i*slabSize+slabSize := Nat.succ_mul _ _
  rw [getRange_some_of_le (by omega) (by rw [List.length_replicate]; omega),List.drop_replicate,
    List.take_replicate,Nat.add_sub_cancel_left,Nat.min_eq_left (by omega)]
  rfl

omit [Target] in
theorem MemIo.Blank.advanced {io io' : MemIo slabSize} (hb : io.Blank) (h : io.Advanced io') : io'.Blank := by
  have hstart := hb.start
  have hsmall : u32Size < SlabWriter.initialOffset := by decide
  refine ⟨h.start.trans hstart,by rw [h.maxIndex,h.length,hb.maxIndex],fun i hi hroom hu32 => ?_⟩
  rw [h.length] at hroom
  have hcount : io.slabCount ≤ i := by
    rcases h.count with hc | hc <;> omega
  rw [←hb.headers i hcount hroom hu32]
  refine getRange_congr h.length (fun k hk1 hk2 => ?_)
  by_cases hnext : i = io.slabCount
  · subst hnext
    have hsame : io'.slabCount = io.slabCount := by
      rcases h.count with hc | hc <;> omega
    exact h.header hsame k (by omega)
  · have hle : (io.slabCount+1)*slabSize ≤ i*slabSize := Nat.mul_le_mul_right _ (by omega)
    have hsucc : (io.slabCount+1)*slabSize = io.slabCount*slabSize+slabSize := Nat.succ_mul _ _
    exact h.after k (by omega)

section Write

variable {data data' : Bytes}

theorem writeArr_frame {arr : Bytes} {offset : Nat} {result : Outcome StorageError Nat}
    (h : writeArr arr offset data = (result,data')) :
    data'.length = data.length ∧ ∀ k, k < offset → data'[k]? = data[k]? := by
  unfold writeArr at h
  split at h
  · cases h
    exact ⟨rfl,fun _ _ => rfl⟩
  · rename_i stop hstop
    split at h
    · cases h
      exact ⟨rfl,fun _ _ => rfl⟩
    · rename_i slice hslice
      cases h
      obtain ⟨_,hstop⟩ := checkedAdd_eq_some.mp hstop
      have hroom : offset+arr.length ≤ data.length := by
        have := (getRange_eq_some.mp hslice).2.1
        omega
      exact ⟨overwrite_length hroom,fun k hk => by rw [overwrite_getElem hroom,if_neg (by omega)]⟩

variable [RecordCodec] {io io' : MemIo slabSize} {r : Record}

/-- A write changes nothing before its offset. -/
theorem MemIo.writeRecord_frame {offset stop : Nat} {result : Outcome StorageError Nat}
    (h : io.writeRecord offset stop r = (result,io')) :
    io' = { io with data := io'.data } ∧ io'.data.length = io.data.length ∧
      ∀ k, k < offset → io'.data[k]? = io.data[k]? := by
  unfold MemIo.writeRecord at h
  dsimp only at h
  split at h
  · cases h
    exact ⟨rfl,rfl,fun _ _ => rfl⟩
  · rename_i inner hinner
    obtain ⟨_,rfl⟩ := checkedAdd_eq_some.mp hinner
    split at h
    · cases h
      exact ⟨rfl,rfl,fun _ _ => rfl⟩
    · rename_i target htarget
      have hlen := getRange_length htarget
      have hin := getRange_eq_some.mp htarget
      have hkept := toSlice_target_length r target
      have hover : ∀ b : Bytes, b.length = target.length →
          (overwrite io.data (offset+u32Size) b).length = io.data.length ∧
            ∀ k, k < offset → (overwrite io.data (offset+u32Size) b)[k]? = io.data[k]? := by
        intro b hb
        have hroom : offset+u32Size+b.length ≤ io.data.length := by omega
        exact ⟨overwrite_length hroom,fun k hk => by rw [overwrite_getElem hroom,if_neg (by omega)]⟩
      split at h
      · rename_i e written hslice
        rw [hslice] at hkept
        cases h
        exact ⟨rfl,hover written hkept⟩
      · rename_i wrote written hslice
        rw [hslice] at hkept
        obtain ⟨hlength,hsame⟩ := hover written hkept
        have hwrite : ∀ result data, writeU32 wrote.length offset (overwrite io.data (offset+u32Size) written) =
            (result,data) → data.length = io.data.length ∧ ∀ k, k < offset → data[k]? = io.data[k]? := by
          intro result data hw
          obtain ⟨hl,hs⟩ := writeArr_frame hw
          exact ⟨hl.trans hlength,fun k hk => (hs k hk).trans (hsame k hk)⟩
        split at h
        · rename_i hw
          cases h
          exact ⟨rfl,hwrite _ _ hw⟩
        · rename_i hw
          cases h
          exact ⟨rfl,hwrite _ _ hw⟩
        · rename_i hw
          split at h
          · cases h
            exact ⟨rfl,hwrite _ _ hw⟩
          · cases h
            exact ⟨rfl,hwrite _ _ hw⟩

theorem SlabWriter.writeRecord_frame {w w' : SlabWriter slabSize} {result : Outcome StorageError Unit}
    (h : SlabWriter.writeRecord r.maxSequence r.messageCount r.sequence r.sender r.data w = (result,w')) :
    ∀ k, k < w.offset → w'.io.data[k]? = w.io.data[k]? := by
  unfold SlabWriter.writeRecord at h
  dsimp only at h
  split at h
  · cases h
    exact fun _ _ => rfl
  · split at h
    · rename_i hw
      cases h
      exact (MemIo.writeRecord_frame hw).2.2
    · rename_i hw
      cases h
      exact (MemIo.writeRecord_frame hw).2.2
    · rename_i hw
      split at h
      · cases h
        exact (MemIo.writeRecord_frame hw).2.2
      · cases h
        exact (MemIo.writeRecord_frame hw).2.2

/-- Until the commit the header of the slab is as it was. -/
def SlabWriter.HeaderKept (w : SlabWriter slabSize) (io : MemIo slabSize) : Prop :=
  ∀ k, k < w.slabOffset+SlabWriter.initialOffset → w.io.data[k]? = io.data[k]?

theorem Writing.headerKept {w w' : SlabWriter slabSize} {rs rs' : List Record} (h : Writing w io rs)
    (h' : Writing w' io rs') (hkept : w.HeaderKept io) {result : Outcome StorageError Unit}
    (hw : SlabWriter.writeRecord r.maxSequence r.messageCount r.sequence r.sender r.data w = (result,w')) :
    w'.HeaderKept io := by
  have hoffset := h.offset
  have hstart := h.start
  have hstart' := h'.start
  intro k hk
  exact (SlabWriter.writeRecord_frame hw k (by omega)).trans (hkept k (by omega))

/-- A writer that is dropped leaves the memory advanced by nothing. -/
theorem Writing.advanced {w : SlabWriter slabSize} {rs : List Record} (h : Writing w io rs)
    (hkept : w.HeaderKept io) : io.Advanced w.io := by
  have hstart := h.start
  have hstop := h.stop
  have hmem := h.memory
  refine ⟨by rw [hmem],by rw [hmem],h.length,Or.inl (by rw [hmem]),fun k hk => ?_,fun k hk => ?_,
    fun _ k hk => hkept k (by omega)⟩
  · exact h.outside k (by omega)
  · exact h.outside k (by omega)

theorem Writing.commit_advanced_of_room {w w' : SlabWriter slabSize} {rs : List Record} (h : Writing w io rs)
    (hbound : io.data.length ≤ isizeMax) (hroom : w.offset ≤ io.data.length)
    (hcommit : SlabWriter.commit w = (.ok (),w')) : io.Advanced w'.io ∧ w'.io.slabCount = io.slabCount+1 := by
  obtain ⟨v,hv,hio,hlen,hsame,_⟩ := h.commit_of_room hbound hroom
  rw [hcommit] at hv
  cases hv
  have hstart := h.start
  have hcount : w'.io.slabCount = io.slabCount+1 := by rw [hio]
  refine ⟨⟨by rw [hio],by rw [hio],hlen,Or.inr hcount,fun k hk => ?_,fun k hk => ?_,fun hc => ?_⟩,hcount⟩
  · exact hsame k (by omega)
  · exact hsame k (by omega)
  · omega

theorem Writing.commit_advanced {w w' : SlabWriter slabSize} {rs : List Record} (h : Writing w io rs)
    (hbound : io.data.length ≤ isizeMax) (hne : rs ≠ []) (hcommit : SlabWriter.commit w = (.ok (),w')) :
    io.Advanced w'.io ∧ w'.io.slabCount = io.slabCount+1 := by
  obtain ⟨hin,hroom,_⟩ := h.bytes hne
  exact h.commit_advanced_of_room hbound (hin.trans hroom) hcommit

end Write

section Scan

variable [RecordCodec] {io : MemIo slabSize} {sessions : List (List Record)} {found : Record → Bool}

omit [RecordCodec] in
/-- A slab that is too short for a header is not read. -/
theorem slabNew_short {slice : Bytes} {index : Nat} (hshort : slice.length < SlabWriter.initialOffset)
    (hcount : u32Size ≤ slice.length → readU32 slice 0 = .ok (0,u32Size)) :
    Slab.new slice index = .err .outOfBounds := by
  have hmax : 4294967295 ≤ usizeMax := u32Max_le_usizeMax
  have hinit : SlabWriter.initialOffset = u32Size+u64Size := rfl
  have hu32 : u32Size = 4 := rfl
  have hu64 : u64Size = 8 := rfl
  have hout : ∀ size offset, offset+size ≤ usizeMax → slice.length < offset+size →
      readArr size slice offset = .err .outOfBounds := by
    intro size offset hmax hlen
    have hnone : getRange slice offset (offset+size) = none := by
      unfold getRange
      rw [if_neg (by omega)]
    simp [readArr,checkedAdd,hmax,hnone]
  by_cases hfirst : u32Size ≤ slice.length
  · simp [Slab.new,hcount hfirst,readU64,hout u64Size u32Size (by omega) (by omega)]
  · simp [Slab.new,readU32,hout u32Size 0 (by omega) (by omega)]

omit [RecordCodec] in
/-- A blank slab has nothing to find. -/
theorem MemIo.Blank.getSlab (hb : io.Blank) (hbound : io.data.length ≤ isizeMax) {i : Nat}
    (hi : io.slabCount ≤ i) :
    io.getSlab i = .err .outOfBounds ∨ ∃ slab, io.getSlab i = .ok slab ∧ slab.count = 0 := by
  have husize := usizeMax_eq
  have hu32 : u32Size = 4 := rfl
  have hu64 : u64Size = 8 := rfl
  have hinit : SlabWriter.initialOffset = 12 := rfl
  by_cases hindex : i ≥ io.maxIndex
  · exact Or.inl (MemIo.getSlab_out hindex)
  · have hin : (i+1)*slabSize ≤ io.data.length ∧ 0 < slabSize := by
      rw [hb.maxIndex,ge_iff_le,not_le] at hindex
      have hpos : 0 < slabSize := Nat.pos_of_ne_zero (fun hzero => by simp [hzero] at hindex)
      exact ⟨(Nat.le_div_iff_mul_le hpos).mp hindex,hpos⟩
    obtain ⟨hin,hpos⟩ := hin
    have hheader := hb.headers i hi hin
    obtain ⟨slice,hget,hslen,hslice⟩ := getSlab_slice hb.start hb.maxIndex hpos hbound hin
    rw [Nat.succ_mul] at hin
    have hcount : u32Size ≤ slice.length → readU32 slice 0 = .ok (0,u32Size) := by
      intro hroom
      have hzero : getRange slice 0 (0+u32Size) = some (beBytes u32Size 0) := by
        rw [Nat.zero_add,hslice u32Size (by omega)]
        exact hheader (by omega)
      have hread := readU32_ok hzero (by omega) (Nat.zero_le _)
      rwa [Nat.zero_add] at hread
    rw [hget]
    by_cases hshort : slice.length < SlabWriter.initialOffset
    · exact Or.inl (slabNew_short hshort hcount)
    · have hmax := readU64_ok (getRange_some_of_le (show u32Size ≤ u32Size+u64Size by omega)
        (show u32Size+u64Size ≤ slice.length by omega)) (by omega)
      exact Or.inr ⟨_,by simp only [Slab.new,hcount (by omega),Outcome.ok_bind,hmax]; rfl,rfl⟩

theorem MemIo.Blank.scanSlabs (hb : io.Blank) (hbound : io.data.length ≤ isizeMax) (found : Record → Bool)
    (fuel : Nat) {i : Nat} (hi : io.slabCount ≤ i) : Storage.scanSlabs found io fuel i = .ok none := by
  induction fuel generalizing i with
  | zero =>
    rcases hb.getSlab hbound hi with hout | ⟨slab,hslab,hcount⟩
    · simp [Storage.scanSlabs,hout]
    · simp [Storage.scanSlabs,hslab,hcount,Storage.scanSlab]
  | succ fuel ih =>
    rcases hb.getSlab hbound hi with hout | ⟨slab,hslab,hcount⟩
    · simp [Storage.scanSlabs,hout]
    · simp [Storage.scanSlabs,hslab,hcount,Storage.scanSlab,ih (Nat.le_succ_of_le hi)]

/-- A scan that finds nothing in the slabs it reads goes on behind them. -/
theorem scanSlabs_past (hslabs : ∀ i rs, sessions[i]? = some rs →
      (∃ slab, io.getSlab i = .ok slab ∧ SlabHolds slab i rs) ∨ io.getSlab i = .err .outOfBounds)
    (hend : ∀ fuel, Storage.scanSlabs found io fuel sessions.length = .ok none) {ss : List (List Record)} {i : Nat}
    (hdrop : sessions.drop i = ss) (hi : i ≤ sessions.length) (hnone : ∀ x ∈ ss.flatten, found x = false)
    (fuel : Nat) (hfuel : ss.length ≤ fuel) : Storage.scanSlabs found io fuel i = .ok none := by
  induction ss generalizing i fuel with
  | nil =>
    have hlen := List.drop_eq_nil_iff.mp hdrop
    rw [show i = sessions.length by omega]
    exact hend fuel
  | cons rs ss ih =>
    obtain ⟨hget,hrest⟩ := getElem?_of_drop hdrop
    rcases hslabs i rs hget with ⟨slab,hslab,hholds⟩ | hout
    swap
    · rw [Storage.scanSlabs.eq_def]
      simp only [hout]
    have hlast := (List.getElem?_eq_some_iff.mp hget).1
    have hscan := SlabHolds.scan_none (p := []) (q := rs) hholds (fun x hx => hnone x (by simp [hx])) slab.count
    cases fuel with
    | zero => simp at hfuel
    | succ fuel =>
      have hlater := ih hrest hlast (fun x hx => hnone x (by
        rw [List.flatten_cons,List.mem_append]
        exact Or.inr hx)) fuel (by simpa using hfuel)
      rw [Storage.scanSlabs]
      simp only [hslab,hholds.getHead,hscan,Outcome.ok_bind]
      exact hlater

/-- What no record is, a scan does not find. -/
theorem Shows.scan_none {st : Storage slabSize} (h : Shows st.io sessions) (hb : st.io.Blank)
    (hbound : st.io.data.length ≤ isizeMax) (hnone : ∀ x ∈ sessions.flatten, found x = false) :
    st.scan found = .ok none := by
  have hfew := h.few
  have hscan := scanSlabs_past (fun i rs hi => (h.slabs i rs hi).imp_right (fun hlast => hlast.2.2))
    (fun fuel => hb.scanSlabs hbound found fuel (le_of_eq h.count)) List.drop_zero (Nat.zero_le _) hnone
    usizeMax (by omega)
  simp [Storage.scan,MemIo.getHead,h.start,hscan]

theorem Holds.scan_none {st : Storage slabSize} (h : Holds st.io sessions) (hb : st.io.Blank)
    (hnone : ∀ x ∈ sessions.flatten, found x = false) : st.scan found = .ok none :=
  h.shows.scan_none hb h.bounded hnone

end Scan

end Finder
