import Finder.Protocol.Client
import Finder.Storage.Reading

namespace Finder

variable [Target] {slabSize : Nat}

/-- The counted slabs lie in the memory, and the memory is one slice. -/
structure MemIo.Sound (io : MemIo slabSize) : Prop where
  start : io.startOffset = 0
  counted : io.slabCount*slabSize ≤ io.data.length
  bounded : io.data.length ≤ isizeMax

/-- There is a whole slab left, with room for a header and the length of a record. -/
def MemIo.HasSlab (io : MemIo slabSize) : Prop :=
  SlabWriter.initialOffset+u32Size ≤ slabSize ∧ (io.slabCount+1)*slabSize ≤ io.data.length

theorem Holds.sound [RecordCodec] {io : MemIo slabSize} {sessions : List (List Record)} (h : Holds io sessions) :
    io.Sound :=
  ⟨h.start,h.count ▸ h.room,h.bounded⟩

theorem memIo_new_sound {data : Bytes} {io : MemIo slabSize} (hbound : data.length ≤ isizeMax)
    (h : MemIo.new data = .ok io) : io.Sound := by
  unfold MemIo.new at h
  split_ifs at h
  cases h
  exact ⟨rfl,by simp,hbound⟩

variable [RecordCodec]

theorem Writing.sound {io : MemIo slabSize} {w : SlabWriter slabSize} {rs : List Record}
    (h : Writing w io rs) (hs : io.Sound) : w.io.Sound := by
  have hlen := h.length
  have hcounted := hs.counted
  have hbounded := hs.bounded
  have hmem := h.memory
  refine ⟨?_,?_,by omega⟩
  · rw [hmem]
    exact hs.start
  · rw [hlen,hmem]
    exact hcounted

section Store

variable {st : Storage slabSize}

/-- Writing one record in a slab of its own: it is stored, or it is too large for a slab, or there is
no slab for it. -/
theorem store_cases (hs : st.io.Sound) (r : Record) :
    (st.io.HasSlab ∧ (slabBytes [r]).length ≤ slabSize ∧ ∃ st', Channel.onWriter
      (Channel.writeRecord r.maxSequence r.messageCount r.sequence r.sender r.data) st = (.ok (),st') ∧
        st'.io.Sound) ∨
    (st.io.HasSlab ∧ slabSize < (slabBytes [r]).length ∧ ∃ st', Channel.onWriter
      (Channel.writeRecord r.maxSequence r.messageCount r.sequence r.sender r.data) st =
        (.err (.storageError .slabFull),st') ∧ st'.io.Sound) ∨
    (¬st.io.HasSlab ∧ Channel.onWriter
      (Channel.writeRecord r.maxSequence r.messageCount r.sequence r.sender r.data) st = (.panic,st)) := by
  have husize := usizeMax_eq
  have hword32 : 2^32-1 ≤ usizeMax := u32Max_le_usizeMax
  have hbounded := hs.bounded
  have hcounted := hs.counted
  have hzero := hs.start
  have hframe := frame_length r
  have hinit : SlabWriter.initialOffset = 12 := rfl
  have hu32 : u32Size = 4 := rfl
  have hbytes : (slabBytes [r]).length = SlabWriter.initialOffset+(frame r).length := by
    rw [slabBytes_length]
    simp [frames]
  have hsucc : (st.io.slabCount+1)*slabSize = st.io.slabCount*slabSize+slabSize := Nat.succ_mul _ _
  by_cases hword : SlabWriter.initialOffset < slabSize
  swap
  · have hpanic : st.getWriter = .panic := by
      rw [Storage.getWriter,newWriter_eq,if_neg (fun h => hword h.2)]
    refine Or.inr (Or.inr ⟨fun h => ?_,by simp [Channel.onWriter,Call.borrow,hpanic]⟩)
    have := h.1
    omega
  by_cases hlarge : st.io.startOffset+st.io.slabCount*slabSize+slabSize ≤ usizeMax
  swap
  · have hpanic : st.getWriter = .panic := by
      rw [Storage.getWriter,newWriter_eq,if_neg (fun h => hlarge h.1)]
    refine Or.inr (Or.inr ⟨fun h => ?_,by simp [Channel.onWriter,Call.borrow,hpanic]⟩)
    have := h.2
    omega
  obtain ⟨w,hw,hio⟩ : ∃ w, st.io.newWriter = .ok w ∧ w.io = st.io := by
    rw [newWriter_eq,if_pos ⟨hlarge,hword⟩]
    exact ⟨_,rfl,rfl⟩
  have hnew := newWriter_eq_ok hw
  have hstart := hnew.start
  have hoffset := hnew.offset
  have hstop := hnew.stop
  simp only [frames_nil,List.length_nil,Nat.add_zero] at hoffset
  have hborrow : ∀ x : Call (SlabWriter slabSize) ClientError Unit,
      Channel.onWriter x st = ((x w).1,{ st with io := (x w).2.io }) := by
    intro x
    have hget : st.getWriter = .ok w := hw
    simp [Channel.onWriter,Call.borrow,hget]
  by_cases hslab : st.io.HasSlab
  swap
  · have hout := hnew.writeRecord_outside r (Fin.zero_le _) (by omega) (by
      unfold MemIo.HasSlab at hslab
      omega)
    have hpanic : Channel.writeRecord r.maxSequence r.messageCount r.sequence r.sender r.data w =
        (.panic,w) := Call.bind_panic (by simp [hout])
    exact Or.inr (Or.inr ⟨hslab,by rw [hborrow,hpanic,hio]⟩)
  obtain ⟨h16,hroom⟩ := hslab
  by_cases hfits : (slabBytes [r]).length ≤ slabSize
  · obtain ⟨w',hwrite,hwriting⟩ := hnew.writeRecord_ok hbounded r (Fin.zero_le _) (by simp [u32Max])
      (by omega) (by omega)
    obtain ⟨w'',hcommit,hio,hlen,_⟩ := hwriting.commit_ok hbounded (by simp)
    refine Or.inl ⟨⟨h16,hroom⟩,hfits,{ st with io := w''.io },?_,?_⟩
    · rw [hborrow]
      have hok : Channel.writeRecord r.maxSequence r.messageCount r.sequence r.sender r.data w =
          (.ok (),w'') := by
        rw [Channel.writeRecord,Call.bind_ok (a := ()) (t := w') (by simp [hwrite])]
        simp [hcommit]
      rw [hok]
    · refine ⟨?_,?_,by simpa [hlen] using hbounded⟩
      · change w''.io.startOffset = 0
        rw [hio]
        exact hzero
      · change w''.io.slabCount*slabSize ≤ w''.io.data.length
        rw [hlen,hio]
        exact hroom
  · rw [not_le] at hfits
    obtain ⟨w',hfull,hkept⟩ := hnew.writeRecord_full hbounded r (Fin.zero_le _) (by omega) (by omega) (by omega)
    refine Or.inr (Or.inl ⟨⟨h16,hroom⟩,hfits,{ st with io := w'.io },?_,hkept.sound hs⟩)
    rw [hborrow]
    have herr : Channel.writeRecord r.maxSequence r.messageCount r.sequence r.sender r.data w =
        (.err (.storageError .slabFull),w') := Call.bind_err (by simp [hfull])
    rw [herr]

end Store

end Finder
