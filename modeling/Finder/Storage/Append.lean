import Finder.Storage.Frame
import Finder.Storage.Scanning
import Finder.Storage.Store

namespace Finder

variable [Target] [RecordCodec] {slabSize : Nat} {st st' : Storage slabSize} {r : Record}

omit [RecordCodec] in
/-- A writer starts on the memory as it is. -/
theorem getWriter_eq_ok {w : SlabWriter slabSize} (h : st.getWriter = .ok w) : w.io = st.io := by
  rw [Storage.getWriter,newWriter_eq] at h
  split_ifs at h
  cases h
  rfl

theorem Writing.one {w w' : SlabWriter slabSize} {result : Outcome StorageError Unit} (hw : st.getWriter = .ok w)
    (hbound : st.io.data.length ≤ isizeMax)
    (h : SlabWriter.writeRecord r.maxSequence r.messageCount r.sequence r.sender r.data w = (result,w'))
    (hno : result ≠ .panic) : w'.HeaderKept st.io ∧
      ((result = .ok () ∧ Writing w' st.io [r]) ∨ ((∃ e, result = .err e) ∧ Writing w' st.io [])) := by
  have hnew := newWriter_eq_ok hw
  have hio := getWriter_eq_ok hw
  rcases hnew.writeRecord_kept hbound r h hno with ⟨hok,hone⟩ | ⟨herr,hnone⟩
  · exact ⟨hnew.headerKept hone (fun k _ => by rw [hio]) h,Or.inl ⟨hok,hone⟩⟩
  · exact ⟨hnew.headerKept hnone (fun k _ => by rw [hio]) h,Or.inr ⟨herr,hnone⟩⟩

/-- A record that is stored has been written and committed in the first free slab. -/
theorem store_committed (h : Channel.onWriter
      (Channel.writeRecord r.maxSequence r.messageCount r.sequence r.sender r.data) st = (.ok (),st'))
    (hbound : st.io.data.length ≤ isizeMax) : ∃ w w' : SlabWriter slabSize, Writing w st.io [r] ∧
      SlabWriter.commit w = (.ok (),w') ∧ st' = ⟨w'.io⟩ := by
  obtain ⟨w,w',hw,hrun,rfl⟩ := Call.borrow_eq_ok.mp h
  obtain ⟨u,w1,hwrite,hcommit⟩ := Call.bind_eq_ok.mp hrun
  obtain ⟨_,⟨_,hone⟩ | ⟨⟨e,he⟩,_⟩⟩ := Writing.one (Outcome.mapErr_eq_ok.mp hw) hbound
    (Call.mapErr_eq_ok.mp hwrite) (by simp)
  · exact ⟨w1,w',hone,Call.mapErr_eq_ok.mp hcommit,rfl⟩
  · cases he

/-- A record that is not stored has at most been written where nothing is counted. -/
theorem store_refused (hs : st.io.Sound) {outcome : Outcome ClientError Unit} (h : Channel.onWriter
      (Channel.writeRecord r.maxSequence r.messageCount r.sequence r.sender r.data) st = (outcome,st'))
    (hno : outcome ≠ .ok ()) : st.io.Advanced st'.io ∧ st'.io.slabCount = st.io.slabCount := by
  cases outcome with
  | ok u => exact absurd rfl hno
  | panic =>
    rcases store_cases hs r with ⟨_,_,st1,hst1,_⟩ | ⟨_,_,st1,hst1,_⟩ | ⟨_,hst1⟩
    all_goals
      rw [h] at hst1
      cases hst1
    exact ⟨.refl st.io,rfl⟩
  | err e =>
    cases hw : st.getWriter with
    | err e =>
      rw [Channel.onWriter,Call.borrow,hw] at h
      cases h
      exact ⟨.refl st.io,rfl⟩
    | panic =>
      rw [Channel.onWriter,Call.borrow,hw] at h
      cases h
    | ok w =>
      have hborrow : Channel.onWriter (Channel.writeRecord r.maxSequence r.messageCount r.sequence r.sender r.data)
          st = _ := Call.borrow_ok (t := w) (by simp [hw])
      rw [h] at hborrow
      rcases hrun : SlabWriter.writeRecord r.maxSequence r.messageCount r.sequence r.sender r.data w with
        ⟨_ | e | _,w'⟩
      · obtain ⟨_,⟨_,hone⟩ | ⟨⟨e,he⟩,_⟩⟩ := Writing.one hw hs.bounded hrun (by simp)
        swap
        · cases he
        obtain ⟨w'',hcommit,_⟩ := hone.commit_ok hs.bounded (by simp)
        rw [Channel.writeRecord,Call.bind_ok (a := ()) (t := w') (by simp [hrun])] at hborrow
        simp [hcommit] at hborrow
      · obtain ⟨hkept,⟨hok,_⟩ | ⟨_,hnone⟩⟩ := Writing.one hw hs.bounded hrun (by simp)
        · cases hok
        rw [Channel.writeRecord,Call.bind_err (e := .storageError e) (t := w') (by simp [hrun])] at hborrow
        cases hborrow
        exact ⟨hnone.advanced hkept,by rw [hnone.memory]⟩
      · rw [Channel.writeRecord,Call.bind_panic (t := w') (by simp [hrun])] at hborrow
        cases hborrow

/-- Whatever comes of storing a record, only the first free slab has changed. -/
theorem store_advanced (hs : st.io.Sound) {outcome : Outcome ClientError Unit} (h : Channel.onWriter
      (Channel.writeRecord r.maxSequence r.messageCount r.sequence r.sender r.data) st = (outcome,st')) :
    st.io.Advanced st'.io ∧ (outcome = .ok () → st'.io.slabCount = st.io.slabCount+1) := by
  by_cases hok : outcome = .ok ()
  · subst hok
    obtain ⟨w,w',hwriting,hcommit,rfl⟩ := store_committed h hs.bounded
    obtain ⟨hadvanced,hcount⟩ := hwriting.commit_advanced hs.bounded (by simp) hcommit
    exact ⟨hadvanced,fun _ => hcount⟩
  · exact ⟨(store_refused hs h hok).1,fun h => absurd h hok⟩

/-- One record is committed in a slab of its own. -/
theorem Holds.store {sessions : List (List Record)} (h : Holds st.io sessions)
    (hshort : (toBytes r).length < 2^32) (hst : Channel.onWriter
      (Channel.writeRecord r.maxSequence r.messageCount r.sequence r.sender r.data) st = (.ok (),st')) :
    Holds st'.io (sessions ++ [[r]]) := by
  obtain ⟨w,w',hwriting,hcommit,rfl⟩ := store_committed hst h.bounded
  obtain ⟨w2,hok,hholds,_⟩ := h.append hwriting (by simp) (fun x hx => by
    rw [List.mem_singleton.mp hx]
    simp only [u32Max]
    omega)
  rw [hcommit] at hok
  cases hok
  exact hholds

omit [RecordCodec] in
/-- The counted slabs stay what they are. -/
theorem MemIo.Advanced.getSlab {io io' : MemIo slabSize} (h : io.Advanced io') (hs : io.Sound) {i : Nat}
    (hi : i < io.slabCount) : io'.getSlab i = io.getSlab i := by
  have hstart := hs.start
  have hcounted := hs.counted
  have hnext : (i+1)*slabSize ≤ io.slabCount*slabSize := Nat.mul_le_mul_right _ hi
  rw [Nat.succ_mul] at hnext
  have hrange : ∀ start stop, stop ≤ io.slabCount*slabSize →
      getRange io'.data start stop = getRange io.data start stop :=
    fun start stop hstop => getRange_congr h.length (fun k _ hk => h.before k (by omega))
  rw [MemIo.getSlab,MemIo.getSlab,h.maxIndex,h.start,h.length,hstart]
  split_ifs
  · rfl
  refine Outcome.bind_congr_ok (fun product hproduct => Outcome.bind_congr_ok (fun sum hsum => ?_))
  refine Outcome.bind_congr_ok (fun start hrem => Outcome.bind_congr_ok (fun stop hstop => ?_))
  obtain ⟨_,rfl⟩ := plainMul_eq_ok.mp hproduct
  obtain ⟨_,rfl⟩ := plainAdd_eq_ok.mp hsum
  obtain ⟨_,rfl⟩ := plainRem_eq_ok.mp hrem
  obtain ⟨_,rfl⟩ := plainAdd_eq_ok.mp hstop
  have hin := Nat.mod_le (0+i*slabSize) io.data.length
  rw [hrange _ _ (by omega)]

section Extends

variable {io io' io'' : MemIo slabSize} {found : Record → Bool} {cursor c : Cursor} {slab : Slab}

/-- The counted slabs are still there, as they were. -/
structure MemIo.Extends (io io' : MemIo slabSize) : Prop where
  start : io'.startOffset = io.startOffset
  count : io.slabCount ≤ io'.slabCount
  slabs : ∀ i, i < io.slabCount → io'.getSlab i = io.getSlab i

omit [RecordCodec] in
theorem MemIo.Extends.refl (io : MemIo slabSize) : io.Extends io := ⟨rfl,le_refl _,fun _ _ => rfl⟩

omit [RecordCodec] in
theorem MemIo.Extends.trans (h : io.Extends io') (h' : io'.Extends io'') : io.Extends io'' :=
  ⟨h'.start.trans h.start,h.count.trans h'.count,
    fun i hi => (h'.slabs i (lt_of_lt_of_le hi h.count)).trans (h.slabs i hi)⟩

omit [RecordCodec] in
theorem MemIo.Advanced.extends_of (h : io.Advanced io') (hs : io.Sound) : io.Extends io' := by
  refine ⟨h.start,?_,fun i hi => h.getSlab hs hi⟩
  rcases h.count with hc | hc <;> omega

/-- In the counted slabs a scan finds what it found there before. -/
theorem MemIo.Extends.scanSlabs (h : io.Extends io') (hb : io.Blank) (hbound : io.data.length ≤ isizeMax)
    {fuel i : Nat} (hscan : Storage.scanSlabs found io fuel i = .ok (some c)) :
    Storage.scanSlabs found io' fuel i = .ok (some c) ∧ c.slab < io.slabCount ∧
      ∃ slab record next, io.getSlab c.slab = .ok slab ∧ slab.read c = .ok (some (record,next)) := by
  have hin : ∀ fuel i, Storage.scanSlabs found io fuel i = .ok (some c) → i < io.slabCount := by
    intro fuel i hscan
    by_contra hi
    rw [hb.scanSlabs hbound found _ (by omega)] at hscan
    cases hscan
  induction fuel generalizing i with
  | zero =>
    have hi := hin 0 i hscan
    obtain ⟨slab,hslab,hfound | ⟨_,rest,hrest,_⟩⟩ := scanSlabs_eq_some hscan
    swap
    · omega
    obtain ⟨hindex,hread⟩ := scanSlab_found hslab hfound
    exact ⟨by simp [Storage.scanSlabs,h.slabs i hi,hslab,hfound],by rwa [hindex],slab,hread⟩
  | succ fuel ih =>
    have hi := hin (fuel+1) i hscan
    obtain ⟨slab,hslab,hfound | ⟨hnone,rest,hrest,hlater⟩⟩ := scanSlabs_eq_some hscan
    · obtain ⟨hindex,hread⟩ := scanSlab_found hslab hfound
      exact ⟨by simp [Storage.scanSlabs,h.slabs i hi,hslab,hfound],by rwa [hindex],slab,hread⟩
    · cases hrest
      obtain ⟨hsame,hread⟩ := ih hlater
      exact ⟨by simp [Storage.scanSlabs,h.slabs i hi,hslab,hnone,hsame],hread⟩

/-- What a scan finds stays where it is and what it is. -/
theorem MemIo.Extends.scan (h : st.io.Extends st'.io) (hb : st.io.Blank) (hbound : st.io.data.length ≤ isizeMax)
    (hscan : st.scan found = .ok (some c)) :
    st'.scan found = .ok (some c) ∧ st'.read c = st.read c := by
  obtain ⟨hsame,hi,slab,record,next,hslab,hread⟩ := h.scanSlabs hb hbound (show Storage.scanSlabs found st.io
    (usizeMax-st.io.startOffset) st.io.startOffset = .ok (some c) from hscan)
  rw [←h.start] at hsame
  refine ⟨hsame,?_⟩
  simp [Storage.read,h.slabs _ hi,hslab,hread]

end Extends

end Finder
