import Finder.Storage.Stored

namespace Finder

section

variable [Target] [RecordCodec] {slabSize : Nat}

section Write

variable {w w' : SlabWriter slabSize} {io : MemIo slabSize} {r : Record} {rs : List Record}

/-- `write_record` of the given record. -/
def SlabWriter.write (r : Record) : Call (SlabWriter slabSize) StorageError Unit :=
  SlabWriter.writeRecord r.maxSequence r.messageCount r.sequence r.sender r.data

/-- The record lies behind the earlier ones, wholly inside the slab. -/
def Appended (w w' : SlabWriter slabSize) (r : Record) : Prop :=
  w.offset+(frame r).length ≤ w.stop ∧
    w' = { count := w.count+1
           slabMaxSequence := r.maxSequence
           slabOffset := w.slabOffset
           offset := w.offset+(frame r).length
           stop := w.stop
           io := { w.io with data := overwrite w.io.data w.offset (frame r) } }

/-- The writer's fields are the same, and so are all bytes but those that are left in the slab. -/
def Unchanged (w w' : SlabWriter slabSize) : Prop :=
  w' = { w with io := { w.io with data := w'.io.data } } ∧ w'.io.data.length = w.io.data.length ∧
    ∀ k, ¬(w.offset ≤ k ∧ k < w.stop) → w'.io.data[k]? = w.io.data[k]?

/-- What a write at the end of a slab should do: append the record, or say that it does not fit or is out of
order. -/
def SafeWrite (w : SlabWriter slabSize) (r : Record) : Prop :=
  (∃ w', SlabWriter.write r w = (.ok (),w') ∧ Appended w w' r) ∨
    ∃ e w', SlabWriter.write r w = (.err e,w') ∧ (e = .slabFull ∨ e = .outOfOrder) ∧ Unchanged w w'

def SafeRun : List Record → SlabWriter slabSize → Prop
  | [],_ => True
  | r::rs,w => SafeWrite w r ∧ SafeRun rs (SlabWriter.write r w).2

/-- A record that is in order finds four bytes left, and if it fits there is a number left for it. -/
def Ready (w : SlabWriter slabSize) (r : Record) : Prop :=
  w.slabMaxSequence ≤ r.maxSequence → w.offset+u32Size ≤ w.stop ∧
    (w.offset+(frame r).length ≤ w.stop → w.count+1 ≤ u32Max)

def ReadyRun : List Record → SlabWriter slabSize → Prop
  | [],_ => True
  | r::rs,w => Ready w r ∧ ReadyRun rs (SlabWriter.write r w).2

instance (w : SlabWriter slabSize) (r : Record) : Decidable (Ready w r) := by unfold Ready; infer_instance

instance decidableReadyRun : ∀ (attempts : List Record) (w : SlabWriter slabSize), Decidable (ReadyRun attempts w)
  | [],_ => isTrue trivial
  | r::rs,w =>
    haveI := decidableReadyRun rs (SlabWriter.write r w).2
    inferInstanceAs (Decidable (Ready w r ∧ ReadyRun rs (SlabWriter.write r w).2))

theorem write_outOfOrder (horder : ¬w.slabMaxSequence ≤ r.maxSequence) :
    SlabWriter.write r w = (.err .outOfOrder,w) := by
  rw [SlabWriter.write,SlabWriter.writeRecord]
  exact if_pos (not_le.mp horder)

theorem Writing.write_ok (h : Writing w io rs) (hbound : io.data.length ≤ isizeMax) (hstop : w.stop ≤ io.data.length)
    (horder : w.slabMaxSequence ≤ r.maxSequence) (hfits : w.offset+(frame r).length ≤ w.stop) :
    (w.count+1 ≤ u32Max → ∃ w', SlabWriter.write r w = (.ok (),w') ∧ Appended w w' r) ∧
      (¬w.count+1 ≤ u32Max → ∃ w', SlabWriter.write r w = (.err .unreachable,w')) := by
  have hlen := h.length
  have hframe := frame_length r
  have hwrite := MemIo.writeRecord_ok (show w.io.data.length ≤ isizeMax by omega)
    (show w.stop ≤ w.io.data.length by omega) (show w.offset+u32Size+(toBytes r).length ≤ w.stop by omega)
  have hgt : ¬w.slabMaxSequence > r.maxSequence := not_lt.mpr horder
  constructor
  · intro hfew
    have hcount : checkedAdd u32Max w.count 1 = some (w.count+1) := checkedAdd_eq_some.mpr ⟨hfew,rfl⟩
    refine ⟨_,?_,hfits,rfl⟩
    simp only [SlabWriter.write,SlabWriter.writeRecord,if_neg hgt,hwrite,hcount]
  · intro hmany
    have hcount : checkedAdd u32Max w.count 1 = none := by
      unfold checkedAdd
      rw [if_neg hmany]
    refine ⟨{ w with io := { w.io with data := overwrite w.io.data w.offset (frame r) } },?_⟩
    simp only [SlabWriter.write,SlabWriter.writeRecord,if_neg hgt,hwrite,hcount]

theorem Writing.write_full (h : Writing w io rs) (hbound : io.data.length ≤ isizeMax)
    (hstop : w.stop ≤ io.data.length) (horder : w.slabMaxSequence ≤ r.maxSequence)
    (hroom : w.offset+u32Size ≤ w.stop) (hfull : ¬w.offset+(frame r).length ≤ w.stop) :
    ∃ w', SlabWriter.write r w = (.err .slabFull,w') ∧ Unchanged w w' := by
  have hlen := h.length
  have hframe := frame_length r
  obtain ⟨data,hwrite,hdata,hsame⟩ := MemIo.writeRecord_full (show w.io.data.length ≤ isizeMax by omega)
    (show w.stop ≤ w.io.data.length by omega) hroom (show w.stop < w.offset+u32Size+(toBytes r).length by omega)
  have hgt : ¬w.slabMaxSequence > r.maxSequence := not_lt.mpr horder
  refine ⟨{ w with io := { w.io with data := data } },?_,rfl,hdata,fun k hk => hsame k (by omega)⟩
  simp only [SlabWriter.write,SlabWriter.writeRecord,if_neg hgt,hwrite]

/-- A write goes as it should exactly when it finds the four bytes of its length, which it slices off before
it looks for room. -/
theorem Writing.safeWrite_iff (h : Writing w io rs) (hbound : io.data.length ≤ isizeMax)
    (hstop : w.stop ≤ io.data.length) : SafeWrite w r ↔ Ready w r := by
  have husize := usizeMax_eq
  have hsmall : u32Size ≤ isizeMax := by
    rcases Target.wide with hbits | hbits <;> simp [isizeMax,u32Size,hbits]
  have hframe := frame_length r
  by_cases horder : w.slabMaxSequence ≤ r.maxSequence
  swap
  · refine iff_of_true (Or.inr ⟨_,w,write_outOfOrder horder,Or.inr rfl,rfl,rfl,fun _ _ => rfl⟩) ?_
    exact fun hin => absurd hin horder
  by_cases hroom : w.offset+u32Size ≤ w.stop
  swap
  · -- the slice behind the length ends before it starts
    have hoffset : w.offset ≤ isizeMax := by
      rcases List.eq_nil_or_concat rs with rfl | ⟨_,_,rfl⟩
      · have hin := h.offset
        have hlast := h.stop
        have hwide := h.wide
        simp only [frames_nil,List.length_nil] at hin
        omega
      · have hin := h.bytes (by simp)
        omega
    have hpanic : SlabWriter.write r w = (.panic,w) :=
      h.writeRecord_outside r (h.max ▸ horder) (by omega) (Or.inl (by omega))
    refine iff_of_false ?_ (fun hready => hroom (hready horder).1)
    rintro (⟨w',hok,_⟩ | ⟨e,w',herr,_⟩)
    · rw [hpanic] at hok
      cases hok
    · rw [hpanic] at herr
      cases herr
  by_cases hfits : w.offset+(frame r).length ≤ w.stop
  swap
  · obtain ⟨w',hfull,hsame⟩ := h.write_full hbound hstop horder hroom hfits
    exact iff_of_true (Or.inr ⟨_,w',hfull,Or.inl rfl,hsame⟩) (fun _ => ⟨hroom,fun hin => absurd hin hfits⟩)
  obtain ⟨hok,herr⟩ := h.write_ok hbound hstop horder hfits
  by_cases hfew : w.count+1 ≤ u32Max
  · exact iff_of_true (Or.inl (hok hfew)) (fun _ => ⟨hroom,fun _ => hfew⟩)
  · obtain ⟨w',hunreachable⟩ := herr hfew
    refine iff_of_false ?_ (fun hready => hfew ((hready horder).2 hfits))
    rintro (⟨w'',hsafe,_⟩ | ⟨e,w'',hsafe,hwhich,_⟩)
    · rw [hunreachable] at hsafe
      cases hsafe
    · rw [hunreachable] at hsafe
      cases hsafe
      simp at hwhich

/-- A writer that has written safely is again one over the same slab. -/
theorem Writing.after_safe (h : Writing w io rs) (hbound : io.data.length ≤ isizeMax) (hsafe : SafeWrite w r) :
    ∃ rs', Writing (SlabWriter.write r w).2 io rs' ∧ (SlabWriter.write r w).2.stop = w.stop ∧
      ((SlabWriter.write r w).1 = .ok () ∧ rs' = rs ++ [r] ∨ (∃ e, (SlabWriter.write r w).1 = .err e) ∧ rs' = rs) := by
  rcases hsafe with ⟨w',hok,_,rfl⟩ | ⟨e,w',herr,_,hsame,_⟩
  · rcases h.writeRecord_kept hbound r hok (by simp) with ⟨_,hwriting⟩ | ⟨⟨e,he⟩,_⟩
    · rw [hok]
      exact ⟨rs ++ [r],hwriting,rfl,Or.inl ⟨rfl,rfl⟩⟩
    · cases he
  · rcases h.writeRecord_kept hbound r herr (by simp) with ⟨hok,_⟩ | ⟨_,hwriting⟩
    · cases hok
    · rw [herr]
      exact ⟨rs,hwriting,by rw [hsame],Or.inr ⟨⟨e,rfl⟩,rfl⟩⟩

theorem Writing.safeRun_iff (h : Writing w io rs) (hbound : io.data.length ≤ isizeMax)
    (hstop : w.stop ≤ io.data.length) (attempts : List Record) : SafeRun attempts w ↔ ReadyRun attempts w := by
  induction attempts generalizing w rs with
  | nil => exact Iff.rfl
  | cons r attempts ih =>
    have hiff := h.safeWrite_iff hbound hstop (r := r)
    rw [SafeRun,ReadyRun,hiff]
    refine and_congr_right (fun hready => ?_)
    obtain ⟨rs',hwriting,hsame,_⟩ := h.after_safe hbound (hiff.mpr hready)
    exact ih hwriting (hsame ▸ hstop)

/-- A safe run does not panic, and the writer has what it has taken. -/
theorem Writing.writeEach_of_safe (h : Writing w io rs) (hbound : io.data.length ≤ isizeMax) {attempts : List Record}
    (hsafe : SafeRun attempts w) : ∃ taken last, SlabWriter.writeEach attempts w = some (taken,last) ∧
      Writing last io (rs ++ taken) ∧ last.stop = w.stop := by
  induction attempts generalizing w rs with
  | nil => exact ⟨[],w,rfl,by simpa using h,rfl⟩
  | cons r attempts ih =>
    obtain ⟨hwrite,hrest⟩ := hsafe
    obtain ⟨rs',hwriting,hsame,hcase⟩ := h.after_safe hbound hwrite
    obtain ⟨taken,last,heach,hlast,hstop⟩ := ih hwriting hrest
    rcases hresult : SlabWriter.write r w with ⟨outcome,w'⟩
    rw [hresult] at heach hcase hsame hstop
    have hstep : SlabWriter.writeRecord r.maxSequence r.messageCount r.sequence r.sender r.data w = (outcome,w') :=
      hresult
    rcases hcase with ⟨rfl,rfl⟩ | ⟨⟨e,rfl⟩,rfl⟩
    · refine ⟨r::taken,last,?_,by simpa using hlast,hstop.trans hsame⟩
      simp only [SlabWriter.writeEach,hstep,heach]
      rfl
    · exact ⟨taken,last,by simp only [SlabWriter.writeEach,hstep,heach],hlast,hstop.trans hsame⟩

end Write

section Publish

/-- Reading a slab on from a cursor gives these records and then the end. -/
inductive Slab.Yields (slab : Slab) : Cursor → List Record → Prop
  | stop (cursor : Cursor) (h : slab.read cursor = .ok none) : Yields slab cursor []
  | next (cursor next : Cursor) (r : Record) (rest : List Record) (h : slab.read cursor = .ok (some (r,next)))
      (hrest : Yields slab next rest) : Yields slab cursor (r::rest)

theorem SlabHolds.yields {slab : Slab} {index : Nat} {p q : List Record} (h : SlabHolds slab index (p ++ q)) :
    slab.Yields (cursorAfter index p) q := by
  induction q generalizing p with
  | nil =>
    rw [List.append_nil] at h
    exact .stop _ h.read_end
  | cons r q ih =>
    have happ : p ++ r::q = (p ++ [r]) ++ q := by simp
    exact .next _ _ r q h.read_next (ih (happ ▸ h))

/-- The slab of that index is there, with these records. -/
def Publishes (io : MemIo slabSize) (index : Nat) (rs : List Record) : Prop :=
  ∃ slab, io.getSlab index = .ok slab ∧ slab.Yields slab.getHead rs

variable {data : Bytes} {sessions : List (List Record)} {st : Storage slabSize}

/-- Through one writer every write appends its record or refuses it, if each finds the four bytes for a length,
and then the commit publishes what was appended. -/
theorem slab_boundary (h : Stored data sessions st) (hwide : SlabWriter.initialOffset < slabSize)
    (hfree : (st.io.slabCount+1)*slabSize ≤ data.length) : ∃ w, st.getWriter = .ok w ∧ ∀ attempts,
      (SafeRun attempts w ↔ ReadyRun attempts w) ∧
      (ReadyRun attempts w → ∃ taken last done, SlabWriter.writeEach attempts w = some (taken,last) ∧
        SlabWriter.commit last = (.ok (),done) ∧
        (∀ k, ¬(w.slabOffset ≤ k ∧ k < w.stop) →
          last.io.data[k]? = st.io.data[k]? ∧ done.io.data[k]? = st.io.data[k]?) ∧
        ((∀ r ∈ taken, (toBytes r).length < 2^32) → Publishes done.io st.io.slabCount taken)) := by
  obtain ⟨hlays,hlen⟩ := h.lays
  have hbound := hlays.bounded
  have hzero := hlays.start
  rw [Nat.succ_mul] at hfree
  obtain ⟨w,hw⟩ := newWriter_of_room hbound (show HasRoom st.io from ⟨hwide,by omega⟩)
  have hnew := newWriter_eq_ok hw
  have hstart := hnew.start
  have hend := hnew.stop
  have hstop : w.stop ≤ st.io.data.length := by omega
  refine ⟨w,hw,fun attempts => ⟨hnew.safeRun_iff hbound hstop attempts,fun hready => ?_⟩⟩
  obtain ⟨taken,last,heach,hlast,hsame⟩ :=
    hnew.writeEach_of_safe hbound ((hnew.safeRun_iff hbound hstop attempts).mpr hready)
  rw [List.nil_append] at hlast
  have hstart' := hlast.start
  have hend' := hlast.stop
  have hin : last.offset ≤ st.io.data.length := by
    by_contra hout
    have hheader := (hlast.eq_nil_of_outside (not_le.mp hout)).2
    omega
  obtain ⟨done,hcommit,_,hdone,houtside,_⟩ := hlast.commit_of_room hbound hin
  refine ⟨taken,last,done,heach,hcommit,fun k hk => ⟨hlast.outside k (by omega),houtside k (by omega)⟩,fun hshort => ?_⟩
  have hpublished := (hlays.commit hlast hcommit).1
  have hlast : (sessions ++ [taken])[sessions.length]? = some taken := by simp
  have hwhole : (sessions.length+1)*slabSize ≤ done.io.data.length := by
    rw [hdone,Nat.succ_mul,←hlays.count]
    omega
  obtain ⟨slab,hslab,hholds⟩ := hpublished.getSlab hlast hwhole (fun r hr => Nat.le_of_lt_succ (hshort r hr))
  rw [hlays.count]
  refine ⟨slab,hslab,?_⟩
  rw [hholds.getHead]
  exact SlabHolds.yields (p := []) hholds

end Publish

end

section Examples

/-- A slab of 13 bytes has one byte behind its header, and a first record panics. -/
theorem slab_boundary_panics : ∃ w, (blankStorage 13 13).getWriter = .ok w ∧
    (blankStorage 13 13).io.freeSlabs = .ok 1 ∧ (SlabWriter.write tinyRecord w).1 = .panic ∧
      ¬SafeRun [tinyRecord] w := by
  let w : SlabWriter 13 := ⟨0,0,0,12,13,(blankStorage 13 13).io⟩
  have hwriter : (blankStorage 13 13).getWriter = .ok w := by
    rw [Storage.getWriter,newWriter_eq,if_pos (by decide +kernel)]
    rfl
  have hpanic : (SlabWriter.write tinyRecord w).1 = .panic := by decide +kernel
  refine ⟨w,hwriter,by decide +kernel,hpanic,fun hsafe => ?_⟩
  rcases hsafe.1 with ⟨w',hok,_⟩ | ⟨e,w',herr,_⟩
  · rw [hok] at hpanic
    cases hpanic
  · rw [herr] at hpanic
    cases hpanic

/-- In a slab of 64 bytes the first record has its place, and the second one is refused. -/
theorem slab_boundary_pair : ∃ w taken last done, (blankStorage 64 64).getWriter = .ok w ∧
    SlabWriter.writeEach [tinyRecord,tinyRecord] w = some (taken,last) ∧ SlabWriter.commit last = (.ok (),done) := by
  have hstored : Stored (List.replicate 64 0) [] (blankStorage 64 64) :=
    blankStorage_stored (by decide) (by decide)
  have hwriter : (blankStorage 64 64).getWriter = .ok ⟨0,0,0,12,64,(blankStorage 64 64).io⟩ := by
    rw [Storage.getWriter,newWriter_eq,if_pos (by decide +kernel)]
    rfl
  obtain ⟨w,hw,hrun⟩ := slab_boundary hstored (by decide) (by decide +kernel)
  rw [hwriter] at hw
  cases hw
  obtain ⟨taken,last,done,heach,hcommit,_⟩ := (hrun [tinyRecord,tinyRecord]).2 (by decide +kernel)
  exact ⟨_,taken,last,done,hwriter,heach,hcommit⟩

end Examples

end Finder
