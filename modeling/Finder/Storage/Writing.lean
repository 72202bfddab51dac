import Finder.Storage.Layout

namespace Finder

variable [Target] [RecordCodec] {slabSize : Nat}

section WriteRecord

variable {io : MemIo slabSize} {offset stop : Nat} {r : Record}

theorem MemIo.writeRecord_ok (hbound : io.data.length ≤ isizeMax) (hstop : stop ≤ io.data.length)
    (hfits : offset+u32Size+(toBytes r).length ≤ stop) :
    io.writeRecord offset stop r =
      (.ok (offset+(frame r).length),{ io with data := overwrite io.data offset (frame r) }) := by
  have husize := usizeMax_eq
  have hoff : checkedAdd usizeMax offset u32Size = some (offset+u32Size) :=
    checkedAdd_eq_some.mpr ⟨by omega,rfl⟩
  have hlen : checkedAdd usizeMax (offset+u32Size) (toBytes r).length =
      some (offset+u32Size+(toBytes r).length) := checkedAdd_eq_some.mpr ⟨by omega,rfl⟩
  have hrange := getRange_some_of_le (show offset+u32Size ≤ stop by omega) hstop
  have htarget := getRange_length hrange
  have hpiece := overwrite_overwrite_slice hrange (show (toBytes r).length ≤ _ by omega)
  have hdata : (overwrite io.data (offset+u32Size) (toBytes r)).length = io.data.length :=
    overwrite_length (by omega)
  have hwrite := writeU32_ok (toBytes r).length
    (show offset+u32Size ≤ (overwrite io.data (offset+u32Size) (toBytes r)).length by omega) (by omega)
  have hadj := overwrite_overwrite_adjacent
    (show offset+(beBytes u32Size (toBytes r).length).length+(toBytes r).length ≤ io.data.length by
      rw [beBytes_length]; omega)
  rw [beBytes_length] at hadj
  simp only [MemIo.writeRecord,hoff,hrange]
  rw [toSlice_ok (by omega)]
  simp only [hpiece,hwrite,hlen,hadj]
  rw [frame_length,←Nat.add_assoc]
  rfl

theorem MemIo.writeRecord_full (hbound : io.data.length ≤ isizeMax) (hstop : stop ≤ io.data.length)
    (hroom : offset+u32Size ≤ stop) (hfull : stop < offset+u32Size+(toBytes r).length) :
    ∃ data, io.writeRecord offset stop r = (.err .slabFull,{ io with data := data }) ∧
      data.length = io.data.length ∧
      ∀ k, ¬(offset+u32Size ≤ k ∧ k < stop) → data[k]? = io.data[k]? := by
  have husize := usizeMax_eq
  have hoff : checkedAdd usizeMax offset u32Size = some (offset+u32Size) :=
    checkedAdd_eq_some.mpr ⟨by omega,rfl⟩
  have hrange := getRange_some_of_le hroom hstop
  have htarget := getRange_length hrange
  obtain ⟨target,ht⟩ : ∃ t, t = (io.data.drop (offset+u32Size)).take (stop-(offset+u32Size)) := ⟨_,rfl⟩
  rw [←ht] at hrange htarget
  have hslice : toSlice r target = (.error .serializeBufferFull,(toSlice r target).2) := by
    have hnot : ¬(toBytes r).length ≤ target.length := by omega
    simp [toSlice,hnot]
  have hkept := toSlice_target_length r target
  refine ⟨overwrite io.data (offset+u32Size) (toSlice r target).2,?_,overwrite_length (by omega),?_⟩
  · simp only [MemIo.writeRecord,hoff,hrange]
    rw [hslice]
    rfl
  · intro k hk
    rw [overwrite_getElem (by omega),if_neg (by omega)]

theorem MemIo.writeRecord_outside (hmax : offset+u32Size ≤ usizeMax)
    (h : stop < offset+u32Size ∨ io.data.length < stop) :
    io.writeRecord offset stop r = (.panic,io) := by
  have hoff : checkedAdd usizeMax offset u32Size = some (offset+u32Size) :=
    checkedAdd_eq_some.mpr ⟨hmax,rfl⟩
  have hrange : getRange io.data (offset+u32Size) stop = none := by
    simp only [getRange]
    rw [if_neg (by omega)]
  simp only [MemIo.writeRecord,hoff,hrange]

end WriteRecord

/-- A writer over `io` that has taken these records. -/
structure Writing (w : SlabWriter slabSize) (io : MemIo slabSize) (rs : List Record) : Prop where
  count : w.count = rs.length
  few : rs.length ≤ u32Max
  max : w.slabMaxSequence = lastMax rs
  start : w.slabOffset = io.startOffset+io.slabCount*slabSize
  offset : w.offset = w.slabOffset+SlabWriter.initialOffset+(frames rs).length
  stop : w.stop = w.slabOffset+slabSize
  wide : SlabWriter.initialOffset < slabSize
  word : w.stop ≤ usizeMax
  memory : w.io = { io with data := w.io.data }
  length : w.io.data.length = io.data.length
  outside : ∀ k, ¬(w.slabOffset ≤ k ∧ k < w.stop) → w.io.data[k]? = io.data[k]?
  bytes : rs ≠ [] → w.offset ≤ w.stop ∧ w.stop ≤ io.data.length ∧
    getRange w.io.data (w.slabOffset+SlabWriter.initialOffset) w.offset = some (frames rs)

omit [RecordCodec] in
/-- A writer starts behind the header of the slab after the counted ones, or the arithmetic panics. -/
theorem newWriter_eq (io : MemIo slabSize) :
    io.newWriter =
      if io.startOffset+io.slabCount*slabSize+slabSize ≤ usizeMax ∧ SlabWriter.initialOffset < slabSize then
        .ok { count := 0
              slabMaxSequence := 0
              slabOffset := io.startOffset+io.slabCount*slabSize
              offset := io.startOffset+io.slabCount*slabSize+SlabWriter.initialOffset
              stop := io.startOffset+io.slabCount*slabSize+slabSize
              io := io }
      else .panic := by
  unfold MemIo.newWriter
  by_cases h : io.startOffset+io.slabCount*slabSize+slabSize ≤ usizeMax
  · rw [plainMul_eq_ok.mpr ⟨by omega,rfl⟩,Outcome.ok_bind,plainAdd_eq_ok.mpr ⟨by omega,rfl⟩,
      Outcome.ok_bind,plainAdd_eq_ok.mpr ⟨h,rfl⟩,Outcome.ok_bind,SlabWriter.new,if_neg (by omega)]
    by_cases hw : SlabWriter.initialOffset < slabSize
    · rw [if_neg (by omega),if_pos ⟨h,hw⟩]
    · rw [if_pos (by omega),if_neg (fun hc => hw hc.2)]
  · rw [if_neg (fun hc => h hc.1)]
    unfold plainMul
    split_ifs with h1
    · rw [Outcome.ok_bind]
      unfold plainAdd
      split_ifs with h2
      · rw [Outcome.ok_bind,if_neg h]
        rfl
      · rfl
    · rfl

theorem newWriter_eq_ok {io : MemIo slabSize} {w : SlabWriter slabSize} (h : io.newWriter = .ok w) :
    Writing w io [] := by
  rw [newWriter_eq] at h
  split_ifs at h with hc
  cases h
  exact ⟨rfl,Nat.zero_le _,rfl,rfl,by simp,rfl,hc.2,hc.1,rfl,rfl,fun _ _ => rfl,fun hne => absurd rfl hne⟩

/-- The memory has a whole slab left, and a slab has room for more than its header. -/
def HasRoom (io : MemIo slabSize) : Prop :=
  SlabWriter.initialOffset < slabSize ∧
    io.startOffset+io.slabCount*slabSize+slabSize ≤ io.data.length

omit [RecordCodec] in
theorem newWriter_of_room {io : MemIo slabSize} (hbound : io.data.length ≤ isizeMax) (h : HasRoom io) :
    ∃ w, io.newWriter = .ok w := by
  have husize := usizeMax_eq
  exact ⟨_,by rw [newWriter_eq,if_pos ⟨by have := h.2; omega,h.1⟩]⟩

namespace Writing

variable {w : SlabWriter slabSize} {io : MemIo slabSize} {rs : List Record}

/-- What a writer has taken stays when bytes behind it, within the slab, change. -/
theorem scribble (h : Writing w io rs) {data : Bytes} (hl : data.length = w.io.data.length)
    (hd : ∀ k, ¬(w.offset ≤ k ∧ k < w.stop) → data[k]? = w.io.data[k]?) :
    Writing { w with io := { w.io with data := data } } io rs where
  count := h.count
  few := h.few
  max := h.max
  start := h.start
  offset := h.offset
  stop := h.stop
  wide := h.wide
  word := h.word
  memory := by
    rw [h.memory]
  length := hl.trans h.length
  outside k hk := by
    have hoffset := h.offset
    change ¬(w.slabOffset ≤ k ∧ k < w.stop) at hk
    exact (hd k (by omega)).trans (h.outside k hk)
  bytes hne := by
    refine ⟨(h.bytes hne).1,(h.bytes hne).2.1,?_⟩
    rw [←(h.bytes hne).2.2]
    refine getRange_congr hl (fun k _ hk => hd k ?_)
    change k < w.offset at hk
    omega

theorem push (h : Writing w io rs) (r : Record) (hfew : rs.length+1 ≤ u32Max)
    (hstop : w.stop ≤ io.data.length) (hfits : w.offset+(frame r).length ≤ w.stop) :
    Writing { count := w.count+1
              slabMaxSequence := r.maxSequence
              slabOffset := w.slabOffset
              offset := w.offset+(frame r).length
              stop := w.stop
              io := { w.io with data := overwrite w.io.data w.offset (frame r) } } io (rs ++ [r]) := by
  have hlen := h.length
  have hoffset := h.offset
  have hroom : w.offset+(frame r).length ≤ w.io.data.length := by omega
  have hnew : (overwrite w.io.data w.offset (frame r)).length = w.io.data.length := overwrite_length hroom
  have hs := h.scribble hnew (fun k hk => by rw [overwrite_getElem hroom,if_neg (by omega)])
  refine { count := by simp [h.count], few := by simpa using hfew, max := by simp, start := h.start,
           offset := ?_, stop := h.stop, wide := h.wide, word := h.word, memory := hs.memory,
           length := hs.length, outside := hs.outside, bytes := fun _ => ⟨hfits,hstop,?_⟩ }
  · simp only [frames_append_single,List.length_append]
    omega
  · rw [frames_append_single]
    refine getRange_append (j := w.offset) ?_ (getRange_overwrite_self hroom)
    cases rs with
    | nil =>
      simp only [frames_nil,List.length_nil,Nat.add_zero] at hoffset ⊢
      rw [←hoffset]
      exact getRange_refl (by rw [hnew]; omega)
    | cons a as => exact (hs.bytes (by simp)).2.2

section WriteRecord

variable (h : Writing w io rs) (hbound : io.data.length ≤ isizeMax) (r : Record)
include h hbound

theorem writeRecord_ok (horder : lastMax rs ≤ r.maxSequence) (hfew : rs.length+1 ≤ u32Max)
    (hstop : w.stop ≤ io.data.length) (hfits : w.offset+(frame r).length ≤ w.stop) :
    ∃ w', SlabWriter.writeRecord r.maxSequence r.messageCount r.sequence r.sender r.data w = (.ok (),w') ∧
      Writing w' io (rs ++ [r]) := by
  have hlen := h.length
  have hframe := frame_length r
  have hwrite := MemIo.writeRecord_ok (show w.io.data.length ≤ isizeMax by omega)
    (show w.stop ≤ w.io.data.length by omega) (show w.offset+u32Size+(toBytes r).length ≤ w.stop by omega)
  have hcount : checkedAdd u32Max w.count 1 = some (w.count+1) :=
    checkedAdd_eq_some.mpr ⟨by rw [h.count]; exact hfew,rfl⟩
  refine ⟨_,?_,h.push r hfew hstop hfits⟩
  simp only [SlabWriter.writeRecord,h.max]
  rw [if_neg (not_lt.mpr horder)]
  simp only [hwrite,hcount]

theorem writeRecord_full (horder : lastMax rs ≤ r.maxSequence) (hstop : w.stop ≤ io.data.length)
    (hroom : w.offset+u32Size ≤ w.stop) (hfull : w.stop < w.offset+(frame r).length) :
    ∃ w', SlabWriter.writeRecord r.maxSequence r.messageCount r.sequence r.sender r.data w =
      (.err .slabFull,w') ∧ Writing w' io rs := by
  have hlen := h.length
  have hframe := frame_length r
  obtain ⟨data,hwrite,hdata,hsame⟩ := MemIo.writeRecord_full (show w.io.data.length ≤ isizeMax by omega)
    (by omega) hroom (show w.stop < w.offset+u32Size+(toBytes r).length by omega)
  refine ⟨_,?_,h.scribble hdata (fun k hk => hsame k (by omega))⟩
  simp only [SlabWriter.writeRecord,h.max]
  rw [if_neg (not_lt.mpr horder)]
  simp only [hwrite]

omit hbound in
theorem writeRecord_outside (horder : lastMax rs ≤ r.maxSequence) (hmax : w.offset+u32Size ≤ usizeMax)
    (hout : w.stop < w.offset+u32Size ∨ io.data.length < w.stop) :
    SlabWriter.writeRecord r.maxSequence r.messageCount r.sequence r.sender r.data w = (.panic,w) := by
  have hlen := h.length
  have hwrite := MemIo.writeRecord_outside hmax
    (show w.stop < w.offset+u32Size ∨ w.io.data.length < w.stop by omega) (r := r)
  simp only [SlabWriter.writeRecord]
  rw [if_neg (by rw [h.max]; exact not_lt.mpr horder)]
  simp only [hwrite]

/-- Whatever a write does short of a panic, the writer has one record more or the same ones. -/
theorem writeRecord_kept {result : Outcome StorageError Unit} {w' : SlabWriter slabSize}
    (hw : SlabWriter.writeRecord r.maxSequence r.messageCount r.sequence r.sender r.data w = (result,w'))
    (hpanic : result ≠ .panic) :
    (result = .ok () ∧ Writing w' io (rs ++ [r])) ∨ ((∃ e, result = .err e) ∧ Writing w' io rs) := by
  have husize := usizeMax_eq
  have hlen := h.length
  have hframe := frame_length r
  by_cases horder : lastMax rs ≤ r.maxSequence
  swap
  · have hgt : w.slabMaxSequence > r.maxSequence := by rw [h.max]; exact not_le.mp horder
    simp only [SlabWriter.writeRecord,if_pos hgt,Prod.mk.injEq] at hw
    obtain ⟨rfl,rfl⟩ := hw
    exact Or.inr ⟨⟨_,rfl⟩,h⟩
  by_cases hmax : w.offset+u32Size ≤ usizeMax
  swap
  · have hnone : checkedAdd usizeMax w.offset u32Size = none := by
      unfold checkedAdd
      rw [if_neg hmax]
    have hgt : ¬w.slabMaxSequence > r.maxSequence := by rw [h.max]; exact not_lt.mpr horder
    simp only [SlabWriter.writeRecord,MemIo.writeRecord,if_neg hgt,hnone,Prod.mk.injEq] at hw
    obtain ⟨rfl,rfl⟩ := hw
    exact Or.inr ⟨⟨_,rfl⟩,h⟩
  by_cases hout : w.stop < w.offset+u32Size ∨ io.data.length < w.stop
  · rw [h.writeRecord_outside r horder hmax hout] at hw
    cases hw
    exact absurd rfl hpanic
  by_cases hfits : w.offset+(frame r).length ≤ w.stop
  swap
  · obtain ⟨w'',hfull,hkept⟩ := h.writeRecord_full hbound r horder (by omega) (by omega) (by omega)
    rw [hfull] at hw
    cases hw
    exact Or.inr ⟨⟨_,rfl⟩,hkept⟩
  by_cases hfew : rs.length+1 ≤ u32Max
  · obtain ⟨w'',hok,hpush⟩ := h.writeRecord_ok hbound r horder hfew (by omega) hfits
    rw [hok] at hw
    cases hw
    exact Or.inl ⟨rfl,hpush⟩
  · -- the record is in the memory, but the count cannot be raised
    have hwrite := MemIo.writeRecord_ok (show w.io.data.length ≤ isizeMax by omega)
      (show w.stop ≤ w.io.data.length by omega) (show w.offset+u32Size+(toBytes r).length ≤ w.stop by omega)
    have hcount : checkedAdd u32Max w.count 1 = none := by
      unfold checkedAdd
      rw [h.count,if_neg hfew]
    have hgt : ¬w.slabMaxSequence > r.maxSequence := by rw [h.max]; exact not_lt.mpr horder
    have hroom : w.offset+(frame r).length ≤ w.io.data.length := by omega
    simp only [SlabWriter.writeRecord,if_neg hgt,hwrite,hcount,Prod.mk.injEq] at hw
    obtain ⟨rfl,rfl⟩ := hw
    exact Or.inr ⟨⟨_,rfl⟩,h.scribble (overwrite_length hroom)
      (fun k hk => by rw [overwrite_getElem hroom,if_neg (by omega)])⟩

end WriteRecord

/-- A commit puts the header before the records, if there are any, and counts the slab. -/
theorem commit_of_room (h : Writing w io rs) (hbound : io.data.length ≤ isizeMax)
    (hroom : w.offset ≤ io.data.length) :
    ∃ w', SlabWriter.commit w = (.ok (),w') ∧
      w'.io = { io with slabCount := io.slabCount+1, data := w'.io.data } ∧
      w'.io.data.length = io.data.length ∧
      (∀ k, ¬(w.slabOffset ≤ k ∧ k < w.slabOffset+slabSize) → w'.io.data[k]? = io.data[k]?) ∧
      getRange w'.io.data w.slabOffset (w.slabOffset+(slabBytes rs).length) = some (slabBytes rs) := by
  have husize := usizeMax_eq
  have hlen := h.length
  have hstop := h.stop
  have hoffset := h.offset
  have hinit : SlabWriter.initialOffset = u32Size+u64Size := rfl
  have hframes : getRange w.io.data (w.slabOffset+SlabWriter.initialOffset) w.offset = some (frames rs) := by
    cases rs with
    | nil =>
      rw [frames_nil,List.length_nil,Nat.add_zero] at hoffset
      rw [hoffset,frames_nil]
      exact getRange_refl (by omega)
    | cons r rs => exact (h.bytes (by simp)).2.2
  have hpos : 0 < slabSize := by have := h.wide; omega
  have hcounted : io.slabCount+1 ≤ usizeMax := by
    have := Nat.le_mul_of_pos_right io.slabCount hpos
    have := h.start
    omega
  -- the two header fields
  obtain ⟨d1,hd1⟩ : ∃ d, d = overwrite w.io.data w.slabOffset (beBytes u32Size w.count) := ⟨_,rfl⟩
  have hw1 := writeU32_ok w.count (show w.slabOffset+u32Size ≤ w.io.data.length by omega) (by omega)
  rw [←hd1] at hw1
  have hl1 : d1.length = w.io.data.length := by
    rw [hd1]
    exact overwrite_length (by rw [beBytes_length]; omega)
  obtain ⟨d2,hd2⟩ : ∃ d, d = overwrite d1 (w.slabOffset+u32Size) (beBytes u64Size w.slabMaxSequence.val) :=
    ⟨_,rfl⟩
  have hw2 := writeU64_ok w.slabMaxSequence.val
    (show w.slabOffset+u32Size+u64Size ≤ d1.length by omega) (by omega)
  rw [←hd2] at hw2
  have hl2 : d2.length = d1.length := by
    rw [hd2]
    exact overwrite_length (by rw [beBytes_length]; omega)
  have hsame : ∀ k, ¬(w.slabOffset ≤ k ∧ k < w.slabOffset+SlabWriter.initialOffset) →
      d2[k]? = w.io.data[k]? := by
    intro k hk
    rw [hd2,overwrite_getElem (by rw [beBytes_length]; omega),if_neg (by rw [beBytes_length]; omega),hd1,
      overwrite_getElem (by rw [beBytes_length]; omega),if_neg (by rw [beBytes_length]; omega)]
  have hcount : checkedAdd usizeMax w.io.slabCount 1 = some (io.slabCount+1) := by
    rw [h.memory]
    exact checkedAdd_eq_some.mpr ⟨hcounted,rfl⟩
  refine ⟨{ w with io := { w.io with data := d2, slabCount := io.slabCount+1 } },?_,?_,
    hl2.trans (hl1.trans hlen),?_,?_⟩
  · simp only [SlabWriter.commit,MemIo.commit,hw1,hw2,hcount]
  · rw [h.memory]
  · intro k hk
    exact (hsame k (by have := h.wide; omega)).trans (h.outside k (by omega))
  · have h32 : getRange d2 w.slabOffset (w.slabOffset+u32Size) = some (beBytes u32Size rs.length) := by
      rw [hd2,getRange_overwrite_of_disjoint (by rw [beBytes_length]; omega) (Or.inl (Nat.le_refl _)),hd1,
        ←h.count]
      have hself := getRange_overwrite_self
        (show w.slabOffset+(beBytes u32Size w.count).length ≤ w.io.data.length by rw [beBytes_length]; omega)
      rwa [beBytes_length] at hself
    have h64 : getRange d2 (w.slabOffset+u32Size) (w.slabOffset+SlabWriter.initialOffset) =
        some (beBytes u64Size (lastMax rs).val) := by
      rw [hd2,←h.max]
      have hself := getRange_overwrite_self
        (show w.slabOffset+u32Size+(beBytes u64Size w.slabMaxSequence.val).length ≤ d1.length by
          rw [beBytes_length]; omega)
      rwa [beBytes_length,Nat.add_assoc,←hinit] at hself
    have hrest : getRange d2 (w.slabOffset+SlabWriter.initialOffset) w.offset = some (frames rs) := by
      rw [←hframes]
      exact getRange_congr (hl2.trans hl1) (fun k hk _ => hsame k (by omega))
    have hall := getRange_append h32 (getRange_append h64 hrest)
    rwa [show w.offset = w.slabOffset+(slabBytes rs).length by rw [slabBytes_length]; omega] at hall

theorem commit_ok (h : Writing w io rs) (hbound : io.data.length ≤ isizeMax) (hne : rs ≠ []) :
    ∃ w', SlabWriter.commit w = (.ok (),w') ∧
      w'.io = { io with slabCount := io.slabCount+1, data := w'.io.data } ∧
      w'.io.data.length = io.data.length ∧
      (∀ k, ¬(w.slabOffset ≤ k ∧ k < w.slabOffset+slabSize) → w'.io.data[k]? = io.data[k]?) ∧
      getRange w'.io.data w.slabOffset (w.slabOffset+(slabBytes rs).length) = some (slabBytes rs) := by
  obtain ⟨hin,hroom,_⟩ := h.bytes hne
  exact h.commit_of_room hbound (hin.trans hroom)

end Writing

end Finder
