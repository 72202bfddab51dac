import Finder.Storage.RoundTrip

namespace Finder

section

variable [Target] {slabSize : Nat}

section Runs

variable [Postcard Record]

/-- The storage after any writer sessions on a `MemIo` over the given bytes: committed, also without a record,
dropped, or refused at the commit. What the committed ones have written is kept beside it. -/
inductive Stored (data : Bytes) : List (List Record) → Storage slabSize → Prop
  | start (io : MemIo slabSize) (hbound : data.length ≤ isizeMax) (h : MemIo.new data = .ok io) :
      Stored data [] ⟨io⟩
  | commit (sessions : List (List Record)) (st : Storage slabSize) (attempts taken : List Record)
      (w last done : SlabWriter slabSize) (hrun : Stored data sessions st) (hw : st.getWriter = .ok w)
      (heach : SlabWriter.writeEach attempts w = some (taken,last)) (hcommit : SlabWriter.commit last = (.ok (),done)) :
      Stored data (sessions ++ [taken]) ⟨done.io⟩
  | drop (sessions : List (List Record)) (st : Storage slabSize) (attempts taken : List Record)
      (w last : SlabWriter slabSize) (hrun : Stored data sessions st) (hw : st.getWriter = .ok w)
      (heach : SlabWriter.writeEach attempts w = some (taken,last)) : Stored data sessions ⟨last.io⟩
  | refuse (sessions : List (List Record)) (st : Storage slabSize) (attempts taken : List Record)
      (w last done : SlabWriter slabSize) (e : StorageError) (hrun : Stored data sessions st)
      (hw : st.getWriter = .ok w) (heach : SlabWriter.writeEach attempts w = some (taken,last))
      (hcommit : SlabWriter.commit last = (.err e,done)) : Stored data sessions ⟨done.io⟩

end Runs

variable [RecordCodec] {io io' : MemIo slabSize} {w : SlabWriter slabSize} {rs : List Record}

omit [RecordCodec] in
theorem writeArr_outside {arr data : Bytes} {offset : Nat} (hmax : offset+arr.length ≤ usizeMax)
    (hout : data.length < offset+arr.length) : writeArr arr offset data = (.err .outOfBounds,data) := by
  have hstop : checkedAdd usizeMax offset arr.length = some (offset+arr.length) := checkedAdd_eq_some.mpr ⟨hmax,rfl⟩
  have hnone : getRange data offset (offset+arr.length) = none := by
    unfold getRange
    rw [if_neg (by omega)]
  simp only [writeArr,hstop,hnone]

/-- A commit is refused only behind the last whole slab, where the header does not fit. -/
theorem Writing.commit_refused (h : Writing w io rs) (hout : io.data.length < w.slabOffset+SlabWriter.initialOffset) :
    ∃ e done, SlabWriter.commit w = (.err e,done) ∧ done.io = { io with data := done.io.data } ∧
      done.io.data.length = io.data.length ∧ ∀ k, k < w.slabOffset → done.io.data[k]? = io.data[k]? := by
  have hlen := h.length
  have hstop := h.stop
  have hword := h.word
  have hwide := h.wide
  have hinit : SlabWriter.initialOffset = u32Size+u64Size := rfl
  have hsame : ∀ k, k < w.slabOffset → w.io.data[k]? = io.data[k]? := fun k hk => h.outside k (by omega)
  by_cases hfirst : w.io.data.length < w.slabOffset+u32Size
  · have hw1 : writeU32 w.count w.slabOffset w.io.data = (.err .outOfBounds,w.io.data) :=
      writeArr_outside (by rw [beBytes_length]; omega) (by rw [beBytes_length]; omega)
    refine ⟨.outOfBounds,w,?_,h.memory,hlen,hsame⟩
    simp only [SlabWriter.commit,MemIo.commit,hw1]
  · have hw1 := writeU32_ok w.count (show w.slabOffset+u32Size ≤ w.io.data.length by omega) (by omega)
    obtain ⟨hl1,hs1⟩ := writeArr_frame hw1
    have hw2 : writeU64 w.slabMaxSequence.val (w.slabOffset+u32Size)
        (overwrite w.io.data w.slabOffset (beBytes u32Size w.count)) =
          (.err .outOfBounds,overwrite w.io.data w.slabOffset (beBytes u32Size w.count)) :=
      writeArr_outside (by rw [beBytes_length]; omega) (by rw [beBytes_length]; omega)
    refine ⟨.outOfBounds,{ w with io := { w.io with
      data := overwrite w.io.data w.slabOffset (beBytes u32Size w.count) } },?_,?_,hl1.trans hlen,?_⟩
    · simp only [SlabWriter.commit,MemIo.commit,hw1,hw2]
    · rw [h.memory]
    · exact fun k hk => (hs1 k hk).trans (hsame k hk)

/-- Where a commit is refused, nothing had been written. -/
theorem Writing.eq_nil_of_outside (h : Writing w io rs) (hout : io.data.length < w.offset) :
    rs = [] ∧ io.data.length < w.slabOffset+SlabWriter.initialOffset := by
  have hnil : rs = [] := by
    by_contra hne
    obtain ⟨hin,hroom,_⟩ := h.bytes hne
    omega
  have hoffset := h.offset
  rw [hnil,frames_nil,List.length_nil,Nat.add_zero] at hoffset
  exact ⟨hnil,by omega⟩

theorem Writing.offset_le_of_commit {done : SlabWriter slabSize} (h : Writing w io rs)
    (hcommit : SlabWriter.commit w = (.ok (),done)) : w.offset ≤ io.data.length := by
  by_contra hout
  obtain ⟨_,hheader⟩ := h.eq_nil_of_outside (not_le.mp hout)
  obtain ⟨e,done',herr,_⟩ := h.commit_refused hheader
  rw [hcommit] at herr
  cases herr

omit [Target] [RecordCodec] in
theorem getElem?_concat_last {α : Type} {xs : List α} {x y : α} {i : Nat} (h : (xs ++ [x])[i]? = some y)
    (hi : ¬i < xs.length) : i = xs.length ∧ x = y := by
  rw [List.getElem?_append_right (by omega)] at h
  obtain ⟨hin,hsome⟩ := List.getElem?_eq_some_iff.mp h
  simp only [List.length_singleton] at hin
  exact ⟨by omega,by simpa using hsome⟩

theorem Writing.outside_of_refused {e : StorageError} {done : SlabWriter slabSize} (h : Writing w io rs)
    (hbound : io.data.length ≤ isizeMax) (hcommit : SlabWriter.commit w = (.err e,done)) :
    io.data.length < w.slabOffset+SlabWriter.initialOffset := by
  by_contra hroom
  have hin : w.offset ≤ io.data.length := by
    by_contra hout
    exact hroom (h.eq_nil_of_outside (not_le.mp hout)).2
  obtain ⟨done',hok,_⟩ := h.commit_of_room hbound hin
  rw [hcommit] at hok
  cases hok

/-- The slabs of the memory, one for each session. Behind the last whole slab there is at most one, without a
record. -/
structure Lays (io : MemIo slabSize) (sessions : List (List Record)) : Prop where
  start : io.startOffset = 0
  count : io.slabCount = sessions.length
  positive : 0 < slabSize
  maxIndex : io.maxIndex = io.data.length/slabSize
  bounded : io.data.length ≤ isizeMax
  few : ∀ rs ∈ sessions, rs.length ≤ u32Max
  whole : ∀ i rs, sessions[i]? = some rs → (i+1)*slabSize ≤ io.data.length →
    (slabBytes rs).length ≤ slabSize ∧
      getRange io.data (i*slabSize) (i*slabSize+(slabBytes rs).length) = some (slabBytes rs)
  past : ∀ i rs, sessions[i]? = some rs → io.data.length < (i+1)*slabSize → rs = [] ∧ i+1 = sessions.length

namespace Lays

variable {sessions : List (List Record)}

theorem new {data : Bytes} (hbound : data.length ≤ isizeMax) (h : MemIo.new data = .ok io) : Lays io [] := by
  unfold MemIo.new at h
  split_ifs at h with hz
  cases h
  exact ⟨rfl,rfl,Nat.pos_of_ne_zero hz,rfl,hbound,by simp,by simp,by simp⟩

/-- Bytes past the counted slabs may change. -/
theorem scribble (h : Lays io sessions) (hio : io' = { io with data := io'.data })
    (hl : io'.data.length = io.data.length)
    (hd : ∀ k, k < sessions.length*slabSize → io'.data[k]? = io.data[k]?) : Lays io' sessions := by
  refine ⟨?_,?_,h.positive,?_,hl ▸ h.bounded,h.few,fun i rs hi hroom => ?_,fun i rs hi hpast => ?_⟩
  · rw [hio]
    exact h.start
  · rw [hio]
    exact h.count
  · rw [hl,hio]
    exact h.maxIndex
  · have hlast := (List.getElem?_eq_some_iff.mp hi).1
    have hnext : (i+1)*slabSize ≤ sessions.length*slabSize := Nat.mul_le_mul_right _ hlast
    rw [Nat.succ_mul] at hnext
    obtain ⟨hfits,hbytes⟩ := h.whole i rs hi (hl ▸ hroom)
    refine ⟨hfits,?_⟩
    rw [←hbytes]
    exact getRange_congr hl (fun k _ hk => hd k (by omega))
  · exact h.past i rs hi (hl ▸ hpast)

theorem writing (h : Lays io sessions) (hw : Writing w io rs) : Lays w.io sessions := by
  have hstart := hw.start
  rw [h.start,h.count] at hstart
  exact h.scribble hw.memory hw.length (fun k hk => hw.outside k (by omega))

/-- A session is committed in the next slab, or without a record behind the whole ones. -/
theorem commit {done : SlabWriter slabSize} (h : Lays io sessions) (hw : Writing w io rs)
    (hcommit : SlabWriter.commit w = (.ok (),done)) :
    Lays done.io (sessions ++ [rs]) ∧ done.io.data.length = io.data.length := by
  have hroom := hw.offset_le_of_commit hcommit
  obtain ⟨done',hok,hio,hlen,hsame,hbytes⟩ := hw.commit_of_room h.bounded hroom
  rw [hcommit] at hok
  cases hok
  have hstart : w.slabOffset = sessions.length*slabSize := by rw [hw.start,h.start,h.count,Nat.zero_add]
  have hoffset := hw.offset
  have hstop := hw.stop
  have hsucc : (sessions.length+1)*slabSize = sessions.length*slabSize+slabSize := Nat.succ_mul _ _
  -- the slabs before lie whole in front of the new one
  have hbefore : ∀ i, i < sessions.length → (i+1)*slabSize ≤ sessions.length*slabSize :=
    fun i hi => Nat.mul_le_mul_right _ hi
  refine ⟨⟨?_,?_,h.positive,?_,?_,fun rs' hrs' => ?_,fun i rs' hi hwhole => ?_,fun i rs' hi hpast => ?_⟩,hlen⟩
  · rw [hio]
    exact h.start
  · rw [hio]
    simp [h.count]
  · rw [hlen,hio]
    exact h.maxIndex
  · rw [hlen]
    exact h.bounded
  · rcases List.mem_append.mp hrs' with hrs' | hrs'
    · exact h.few rs' hrs'
    · rw [List.mem_singleton.mp hrs']
      exact hw.few
  · by_cases hlast : i < sessions.length
    · rw [List.getElem?_append_left hlast] at hi
      have hle := hbefore i hlast
      rw [Nat.succ_mul] at hle
      obtain ⟨hfits,hold⟩ := h.whole i rs' hi (hlen ▸ hwhole)
      refine ⟨hfits,?_⟩
      rw [←hold]
      exact getRange_congr hlen (fun k _ hk => hsame k (by omega))
    · obtain ⟨hi0,rfl⟩ := getElem?_concat_last hi hlast
      rw [hi0,←hstart]
      refine ⟨?_,hbytes⟩
      rw [slabBytes_length]
      rcases List.eq_nil_or_concat rs with rfl | ⟨_,_,rfl⟩
      · have hwide := hw.wide
        simp only [frames_nil,List.length_nil]
        omega
      · have hin := (hw.bytes (by simp)).1
        omega
  · rw [hlen] at hpast
    by_cases hlast : i < sessions.length
    · have hle := hbefore i hlast
      omega
    · obtain ⟨hi0,rfl⟩ := getElem?_concat_last hi hlast
      rw [hi0] at hpast
      refine ⟨?_,by simp [hi0]⟩
      by_contra hne
      have hin := (hw.bytes hne).2.1
      omega

theorem getSlab (h : Lays io sessions) {i : Nat} {rs : List Record} (hi : sessions[i]? = some rs)
    (hwhole : (i+1)*slabSize ≤ io.data.length) (hshort : ∀ r ∈ rs, (toBytes r).length ≤ u32Max) :
    ∃ slab, io.getSlab i = .ok slab ∧ SlabHolds slab i rs := by
  obtain ⟨hfits,hbytes⟩ := h.whole i rs hi hwhole
  exact getSlab_holds h.start h.maxIndex h.positive h.bounded hwhole hfits hbytes
    (h.few rs (List.mem_of_getElem? hi)) hshort

end Lays

section Runs

variable {data : Bytes} {sessions : List (List Record)} {st : Storage slabSize}

theorem Stored.lays (h : Stored data sessions st) :
    Lays st.io sessions ∧ st.io.data.length = data.length := by
  induction h with
  | start io hbound h =>
    exact ⟨.new hbound h,congrArg List.length (holds_new hbound h).2⟩
  | commit sessions st attempts taken w last done _ hw heach hcommit ih =>
    obtain ⟨hlays,hlen⟩ := ih
    have hwriting := (newWriter_eq_ok hw).writeEach hlays.bounded heach
    obtain ⟨hdone,hkept⟩ := hlays.commit hwriting hcommit
    exact ⟨hdone,hkept.trans hlen⟩
  | drop sessions st attempts taken w last _ hw heach ih =>
    obtain ⟨hlays,hlen⟩ := ih
    have hwriting := (newWriter_eq_ok hw).writeEach hlays.bounded heach
    exact ⟨hlays.writing hwriting,hwriting.length.trans hlen⟩
  | refuse sessions st attempts taken w last done e _ hw heach hcommit ih =>
    obtain ⟨hlays,hlen⟩ := ih
    have hwriting := (newWriter_eq_ok hw).writeEach hlays.bounded heach
    have hstart := hwriting.start
    rw [hlays.start,hlays.count] at hstart
    have hout := hwriting.outside_of_refused hlays.bounded hcommit
    obtain ⟨_,done',hrefused,hio,hkept,hsame⟩ := hwriting.commit_refused hout
    rw [hcommit] at hrefused
    cases hrefused
    exact ⟨hlays.scribble hio hkept (fun k hk => hsame k (by omega)),hkept.trans hlen⟩

/-- Over zeroes the slabs behind the counted ones have never been committed. -/
theorem Stored.blank {n : Nat} (h : Stored (List.replicate n 0) sessions st) : st.io.Blank := by
  induction h with
  | start io hbound h => exact memIo_new_blank h
  | commit sessions st attempts taken w last done hrun hw heach hcommit ih =>
    have hbound := hrun.lays.1.bounded
    have hwriting := (newWriter_eq_ok hw).writeEach hbound heach
    exact ih.advanced (hwriting.commit_advanced_of_room hbound (hwriting.offset_le_of_commit hcommit) hcommit).1
  | drop sessions st attempts taken w last hrun hw heach ih =>
    have hbound := hrun.lays.1.bounded
    have hwriting := (newWriter_eq_ok hw).writeEach hbound heach
    exact ih.advanced (hwriting.advanced (newWriter_headerKept hw hbound heach))
  | refuse sessions st attempts taken w last done e hrun hw heach hcommit ih =>
    have hbound := hrun.lays.1.bounded
    have hwriting := (newWriter_eq_ok hw).writeEach hbound heach
    have hstart := hwriting.start
    have hwide := hwriting.wide
    have hzero := ih.start
    have hout := hwriting.outside_of_refused hbound hcommit
    obtain ⟨_,done',hrefused,hio,hkept,_⟩ := hwriting.commit_refused hout
    rw [hcommit] at hrefused
    cases hrefused
    refine ⟨?_,?_,fun i hi hroom => ?_⟩
    · rw [hio]
      exact ih.start
    · rw [hkept,hio]
      exact ih.maxIndex
    · -- there is no whole slab left
      rw [hio] at hi
      rw [hkept] at hroom
      have hnext : (st.io.slabCount+1)*slabSize ≤ (i+1)*slabSize := Nat.mul_le_mul_right _ (Nat.succ_le_succ hi)
      rw [Nat.succ_mul] at hnext
      omega

theorem Stored.session {st' : Storage slabSize} {attempts taken : List Record} (h : Stored data sessions st)
    (hs : st.session attempts = some (taken,st')) : Stored data (sessions ++ [taken]) st' := by
  obtain ⟨w,last,done,hw,heach,hcommit,rfl⟩ := Storage.session_eq_some.mp hs
  exact .commit sessions st attempts taken w last done h hw heach hcommit

theorem Written.stored (h : Written data sessions st) : Stored data sessions st := by
  induction h with
  | start io hbound h => exact .start io hbound h
  | commit sessions st st' attempts taken _ hs _ ih => exact ih.session hs
  | drop sessions st st' attempts _ hs ih =>
    obtain ⟨w,taken,last,hw,heach,rfl⟩ := Storage.abandon_eq_some.mp hs
    exact .drop sessions st attempts taken w last ih hw heach

/-- A session without a record can be committed wherever a header fits. -/
theorem session_empty (hbound : st.io.data.length ≤ isizeMax) {w : SlabWriter slabSize} (hw : st.getWriter = .ok w)
    (hroom : w.offset ≤ st.io.data.length) : ∃ st', st.session [] = some ([],st') ∧
      st'.io.slabCount = st.io.slabCount+1 := by
  obtain ⟨done,hcommit,hio,_⟩ := (newWriter_eq_ok hw).commit_of_room hbound hroom
  refine ⟨⟨done.io⟩,?_,by rw [hio]⟩
  simp [Storage.session,hw,SlabWriter.writeEach,hcommit]

end Runs

/-- Blank memory of `n` bytes. -/
def blankStorage (slabSize n : Nat) : Storage slabSize := ⟨⟨0,n/slabSize,0,List.replicate n 0⟩⟩

theorem blankStorage_stored {n : Nat} (hpos : slabSize ≠ 0) (hsmall : n ≤ isizeMax) :
    Stored (List.replicate n 0) [] (blankStorage slabSize n) := by
  refine .start _ (by rw [List.length_replicate]; exact hsmall) ?_
  rw [MemIo.new,if_neg hpos,List.length_replicate]

end

def tinyRecord : Record := ⟨1,1,1,⟨Id.ofByte 1⟩,[7]⟩

/-- A slab with one record, and one without behind it. -/
theorem tiny_then_empty : ∃ st st' : Storage 64, Stored (List.replicate 128 0) [[tinyRecord]] st ∧
    Stored (List.replicate 128 0) [[tinyRecord],[]] st' := by
  have hbound : (blankStorage 64 128).io.data.length ≤ isizeMax := by
    change (List.replicate 128 (0 : UInt8)).length ≤ isizeMax
    rw [List.length_replicate]
    decide
  have hstart : Stored (List.replicate 128 0) [] (blankStorage 64 128) :=
    blankStorage_stored (by decide) (by decide)
  obtain ⟨st,hs⟩ := session_single (blankStorage 64 128) hbound
    (by simp [HasRoom,blankStorage,SlabWriter.initialOffset,u32Size,u64Size]) (r := tinyRecord) (by decide)
  have h1 := hstart.session hs
  obtain ⟨hlays,hlen⟩ := h1.lays
  rw [List.length_replicate] at hlen
  have hinit : SlabWriter.initialOffset = 12 := rfl
  have hword : 2^32-1 ≤ usizeMax := u32Max_le_usizeMax
  have hzero := hlays.start
  have hone : st.io.slabCount = 1 := hlays.count
  obtain ⟨w,hw⟩ := newWriter_of_room hlays.bounded (show HasRoom st.io from ⟨by omega,by omega⟩)
  have hoffset := (newWriter_eq_ok hw).offset
  have hslab := (newWriter_eq_ok hw).start
  rw [frames_nil,List.length_nil] at hoffset
  obtain ⟨st',hs',_⟩ := session_empty hlays.bounded hw (by omega)
  exact ⟨st,st',h1,h1.session hs'⟩

end Finder
