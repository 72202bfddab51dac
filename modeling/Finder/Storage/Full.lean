import Finder.Storage.Boundary

namespace Finder

section

variable [Target] [RecordCodec] {slabSize : Nat} {data : Bytes} {sessions : List (List Record)}
  {st : Storage slabSize}

/-- What a full store should do with a further session: hand out no writer, or one whose writes and whose commit
are refused. -/
def Refuses (st : Storage slabSize) : Prop :=
  (∃ e, st.getWriter = .err e) ∨ ∃ w, st.getWriter = .ok w ∧
    (∀ r, ∃ e w', SlabWriter.write r w = (.err e,w')) ∧ ∃ e done, SlabWriter.commit w = (.err e,done)

omit [Target] [RecordCodec] in
theorem MemIo.freeSlabs_eq_zero {io : MemIo slabSize} (h : io.freeSlabs = .ok 0) :
    0 < slabSize ∧ io.slabCount*slabSize ≤ io.data.length ∧
      io.data.length < io.slabCount*slabSize+slabSize := by
  unfold MemIo.freeSlabs at h
  split_ifs at h with hbad
  have hzero : (io.data.length-io.slabCount*slabSize)/slabSize = 0 := by simpa using h
  have hpos : 0 < slabSize := by omega
  have hlt := (Nat.div_eq_zero_iff_lt hpos).mp hzero
  omega

/-- Where no slab is left, a writer is handed out nevertheless, and its first record panics. -/
theorem full_session_panics (h : Stored data sessions st) (hfull : st.io.freeSlabs = .ok 0) (r : Record) :
    (st.getWriter >>= fun w => (SlabWriter.write r w).1) = .panic := by
  obtain ⟨hpos,hcounted,hnone⟩ := MemIo.freeSlabs_eq_zero hfull
  have husize := usizeMax_eq
  have hword : 2^32-1 ≤ usizeMax := u32Max_le_usizeMax
  have hbound := h.lays.1.bounded
  have hzero := h.lays.1.start
  rcases hw : st.getWriter with w | e | _
  · have hnew := newWriter_eq_ok hw
    have hoffset := hnew.offset
    have hstart := hnew.start
    have hstop := hnew.stop
    have hinit : SlabWriter.initialOffset = 12 := rfl
    have hu32 : u32Size = 4 := rfl
    rw [frames_nil,List.length_nil] at hoffset
    have hpanic : SlabWriter.write r w = (.panic,w) :=
      hnew.writeRecord_outside r (Fin.zero_le _) (by omega) (Or.inr (by omega))
    rw [Outcome.ok_bind,hpanic]
  · rw [Storage.getWriter,newWriter_eq] at hw
    split_ifs at hw
  · rfl

omit [RecordCodec] in
theorem getWriter_ne_err {e : StorageError} : st.getWriter ≠ .err e := by
  rw [Storage.getWriter,newWriter_eq]
  split_ifs <;> simp

theorem not_refuses_of_panics (hpanic : ∀ r, (st.getWriter >>= fun w => (SlabWriter.write r w).1) = .panic) :
    ¬Refuses st := by
  rintro (⟨e,herr⟩ | ⟨w,hw,hwrites,_⟩)
  · exact getWriter_ne_err herr
  · obtain ⟨e,w',hwrite⟩ := hwrites ⟨0,0,0,⟨Id.ofByte 0⟩,[]⟩
    have hpanics := hpanic ⟨0,0,0,⟨Id.ofByte 0⟩,[]⟩
    rw [hw,Outcome.ok_bind,hwrite] at hpanics
    cases hpanics

/-- A full store never refuses a session: no writer is denied, every first record panics, and a session without a
record is counted behind the whole slabs where its header fits. -/
theorem full_store_panics (h : Stored data sessions st) (hfull : st.io.freeSlabs = .ok 0) :
    ¬Refuses st ∧ (∀ e, st.getWriter ≠ .err e) ∧
      (∀ r, (st.getWriter >>= fun w => (SlabWriter.write r w).1) = .panic) ∧
      ∀ w, st.getWriter = .ok w → w.offset ≤ data.length →
        ∃ done, SlabWriter.commit w = (.ok (),done) ∧ data.length < done.io.slabCount*slabSize := by
  have hpanic := full_session_panics h hfull
  obtain ⟨_,_,hnone⟩ := MemIo.freeSlabs_eq_zero hfull
  obtain ⟨hlays,hlen⟩ := h.lays
  refine ⟨not_refuses_of_panics hpanic,fun e => getWriter_ne_err,hpanic,fun w hw hroom => ?_⟩
  obtain ⟨done,hcommit,hio,_⟩ := (newWriter_eq_ok hw).commit_of_room hlays.bounded (hlen ▸ hroom)
  refine ⟨done,hcommit,?_⟩
  rw [hio]
  change data.length < (st.io.slabCount+1)*slabSize
  rw [Nat.succ_mul]
  omega

end

/-- One slab in 64 bytes, with a record in it. -/
theorem tiny_full : ∃ st : Storage 64, Stored (List.replicate 64 0) [[tinyRecord]] st ∧
    st.io.freeSlabs = .ok 0 := by
  have hbound : (blankStorage 64 64).io.data.length ≤ isizeMax := by
    change (List.replicate 64 (0 : UInt8)).length ≤ isizeMax
    rw [List.length_replicate]
    decide
  have hstart : Stored (List.replicate 64 0) [] (blankStorage 64 64) :=
    blankStorage_stored (by decide) (by decide)
  obtain ⟨st,hs⟩ := session_single (blankStorage 64 64) hbound
    (by simp [HasRoom,blankStorage,SlabWriter.initialOffset,u32Size,u64Size]) (r := tinyRecord) (by decide)
  have hstored := hstart.session hs
  obtain ⟨hlays,hlen⟩ := hstored.lays
  refine ⟨st,hstored,?_⟩
  rw [MemIo.freeSlabs,hlen,hlays.count,List.length_replicate]
  rfl

theorem tiny_full_not_refuses : ∃ st : Storage 64, Stored (List.replicate 64 0) [[tinyRecord]] st ∧
    st.io.freeSlabs = .ok 0 ∧ ¬Refuses st := by
  obtain ⟨st,h,hfull⟩ := tiny_full
  exact ⟨st,h,hfull,not_refuses_of_panics (full_session_panics h hfull)⟩

theorem full_store_panics_tiny : ∃ st : Storage 64, Stored (List.replicate 64 0) [[tinyRecord]] st ∧
    ∀ r, (st.getWriter >>= fun w => (SlabWriter.write r w).1) = .panic := by
  obtain ⟨st,h,hfull⟩ := tiny_full
  exact ⟨st,h,(full_store_panics h hfull).2.2.1⟩

end Finder
