import Finder.Protocol.Plain
import Finder.Storage.Reading

namespace Finder

section

variable [Target] {slabSize : Nat}

section Runs

variable [Postcard Record]

/-- Try the records one after the other; a writer that refuses one goes on with the next.
What comes back are the records it took, and none after a panic. -/
def SlabWriter.writeEach : List Record → SlabWriter slabSize → Option (List Record × SlabWriter slabSize)
  | [],w => some ([],w)
  | r::rs,w =>
    match SlabWriter.writeRecord r.maxSequence r.messageCount r.sequence r.sender r.data w with
    | (.panic,_) => none
    | (.err _,w) => writeEach rs w
    | (.ok _,w) => (writeEach rs w).map (fun p => (r::p.1,p.2))

/-- One writer session: a writer, its records, and the commit. -/
def Storage.session (attempts : List Record) (st : Storage slabSize) :
    Option (List Record × Storage slabSize) :=
  match st.getWriter with
  | .ok w =>
    match SlabWriter.writeEach attempts w with
    | some (taken,w) =>
      match SlabWriter.commit w with
      | (.ok _,w) => some (taken,⟨w.io⟩)
      | _ => none
    | none => none
  | _ => none

/-- A session that leaves something a `u32` length can tell. -/
structure Proper (taken : List Record) : Prop where
  nonempty : taken ≠ []
  short : ∀ r ∈ taken, (toBytes r).length ≤ u32Max

/-- The storage after these sessions on a `MemIo` over the given bytes. -/
inductive Committed (data : Bytes) : List (List Record) → Storage slabSize → Prop
  | start (io : MemIo slabSize) (hbound : data.length ≤ isizeMax) (h : MemIo.new data = .ok io) :
      Committed data [] ⟨io⟩
  | session (sessions : List (List Record)) (st st' : Storage slabSize) (attempts taken : List Record)
      (hrun : Committed data sessions st) (h : st.session attempts = some (taken,st'))
      (hproper : Proper taken) : Committed data (sessions ++ [taken]) st'

end Runs

variable [RecordCodec]

section Session

variable {st st' : Storage slabSize} {io : MemIo slabSize} {attempts rs taken : List Record}
  {w w' : SlabWriter slabSize}

/-- The writer goes on with what is left to try, and has taken the first record or not. -/
theorem Writing.writeEach_cons {r : Record} (hbound : io.data.length ≤ isizeMax) (h : Writing w io rs)
    (hw : SlabWriter.writeEach (r::attempts) w = some (taken,w')) : ∃ result v rs' rest,
      SlabWriter.writeRecord r.maxSequence r.messageCount r.sequence r.sender r.data w = (result,v) ∧
        Writing v io rs' ∧ SlabWriter.writeEach attempts v = some (rest,w') ∧ rs ++ taken = rs' ++ rest := by
  rw [SlabWriter.writeEach] at hw
  rcases hr : SlabWriter.writeRecord r.maxSequence r.messageCount r.sequence r.sender r.data w with ⟨_ | e | _,v⟩
  all_goals
    rw [hr] at hw
  · obtain ⟨⟨rest,_⟩,hrest,heq⟩ := Option.map_eq_some_iff.mp hw
    cases heq
    rcases h.writeRecord_kept hbound r hr (by simp) with ⟨_,hpush⟩ | ⟨⟨e,he⟩,_⟩
    · exact ⟨_,v,_,rest,rfl,hpush,hrest,by simp⟩
    · cases he
  · rcases h.writeRecord_kept hbound r hr (by simp) with ⟨hok,_⟩ | ⟨_,hkept⟩
    · cases hok
    · exact ⟨_,v,rs,taken,rfl,hkept,hw,rfl⟩
  · cases hw

theorem Writing.writeEach (hbound : io.data.length ≤ isizeMax) (h : Writing w io rs)
    (hw : SlabWriter.writeEach attempts w = some (taken,w')) : Writing w' io (rs ++ taken) := by
  induction attempts generalizing w rs taken with
  | nil =>
    cases hw
    simpa using h
  | cons r attempts ih =>
    obtain ⟨_,v,rs',rest,_,hv,hrest,heq⟩ := h.writeEach_cons hbound hw
    rw [heq]
    exact ih hv hrest

omit [RecordCodec] in
/-- The steps of a session that has gone through. -/
theorem Storage.session_eq_some [Postcard Record] : st.session attempts = some (taken,st') ↔
    ∃ w last done, st.getWriter = .ok w ∧ SlabWriter.writeEach attempts w = some (taken,last) ∧
      SlabWriter.commit last = (.ok (),done) ∧ st' = ⟨done.io⟩ := by
  unfold Storage.session
  constructor
  · intro hs
    split at hs
    · rename_i w hw
      split at hs
      · rename_i rs last heach
        split at hs
        · rename_i done hcommit
          cases hs
          exact ⟨w,last,done,hw,heach,hcommit,rfl⟩
        · cases hs
      · cases hs
    · cases hs
  · rintro ⟨w,last,done,hw,heach,hcommit,rfl⟩
    simp [hw,heach,hcommit]

/-- A session goes over the writer of the slab behind the counted ones. -/
theorem session_writing (hbound : st.io.data.length ≤ isizeMax) (hs : st.session attempts = some (taken,st')) :
    ∃ last done, Writing last st.io taken ∧ SlabWriter.commit last = (.ok (),done) ∧ st' = ⟨done.io⟩ := by
  obtain ⟨w,last,done,hw,heach,hcommit,rfl⟩ := Storage.session_eq_some.mp hs
  exact ⟨last,done,(newWriter_eq_ok hw).writeEach hbound heach,hcommit,rfl⟩

theorem Holds.session {sessions : List (List Record)} (h : Holds st.io sessions)
    (hs : st.session attempts = some (taken,st')) (hproper : Proper taken) :
    Holds st'.io (sessions ++ [taken]) ∧ st'.io.data.length = st.io.data.length ∧
      (slabBytes taken).length ≤ slabSize ∧ HasRoom st.io := by
  obtain ⟨last,done,hwriting,hcommit,rfl⟩ := session_writing h.bounded hs
  obtain ⟨done',hdone,hholds,hlen⟩ := h.append hwriting hproper.nonempty hproper.short
  rw [hcommit] at hdone
  cases hdone
  obtain ⟨hin,hroom,_⟩ := hwriting.bytes hproper.nonempty
  have hstart := hwriting.start
  have hstop := hwriting.stop
  have hoffset := hwriting.offset
  refine ⟨hholds,hlen,?_,hwriting.wide,by omega⟩
  rw [slabBytes_length]
  omega

end Session

/-- A record that fits a slab can be committed alone while there is room. -/
theorem session_single (st : Storage slabSize) (hbound : st.io.data.length ≤ isizeMax)
    (hroom : HasRoom st.io) {r : Record} (hfits : (slabBytes [r]).length ≤ slabSize) :
    ∃ st', st.session [r] = some ([r],st') := by
  obtain ⟨w,hw⟩ := newWriter_of_room hbound hroom
  have hnew := newWriter_eq_ok hw
  have hstart := hnew.start
  have hstop := hnew.stop
  have hoffset := hnew.offset
  have hframe : (frames [r]).length = (frame r).length := by simp [frames]
  rw [slabBytes_length] at hfits
  simp only [frames_nil,List.length_nil,Nat.add_zero] at hoffset
  obtain ⟨w',hwrite,hwriting⟩ := hnew.writeRecord_ok hbound r (Fin.zero_le _) (by simp [u32Max])
    (by have := hroom.2; omega) (by omega)
  obtain ⟨w'',hcommit,_⟩ := hwriting.commit_ok hbound (by simp)
  refine ⟨⟨w''.io⟩,?_⟩
  have hget : st.getWriter = .ok w := hw
  simp [Storage.session,hget,SlabWriter.writeEach,hwrite,hcommit]

theorem Committed.holds {data : Bytes} {sessions : List (List Record)} {st : Storage slabSize}
    (h : Committed data sessions st) : Holds st.io sessions ∧ st.io.data.length = data.length ∧
      data.length ≤ isizeMax := by
  induction h with
  | start io hbound h =>
    obtain ⟨hholds,hdata⟩ := holds_new hbound h
    exact ⟨hholds,congrArg List.length hdata,hbound⟩
  | session sessions st st' attempts taken _ h hproper ih =>
    obtain ⟨hholds,hlen,_⟩ := ih.1.session h hproper
    exact ⟨hholds,hlen.trans ih.2.1,ih.2.2⟩

section SlabCount

variable (maxIndex startOffset : Nat) (data : Bytes)

end SlabCount

end

end Finder
