import Finder.Protocol.Plain
import Finder.Storage.Scanning

namespace Finder

section Reads

variable [Target] [Postcard Record] {slabSize : Nat} {slab : Slab} {cursor next : Cursor} {record : Record}
  {found : Record → Bool}

theorem slab_read_ne_panic (slab : Slab) (cursor : Cursor) : slab.read cursor ≠ .panic := by
  unfold Slab.read
  split_ifs with hcount
  · exact fun h => (by cases h)
  refine Outcome.bind_ne_panic readU32_ne_panic (fun p _ => ?_)
  obtain ⟨length,offset⟩ := p
  dsimp only
  split_ifs
  · exact fun h => (by cases h)
  refine Outcome.bind_ne_panic (Outcome.okOr_ne_panic _ _) (fun stop _ => ?_)
  cases getRange slab.records offset stop with
  | none => exact fun h => (by cases h)
  | some slice =>
    dsimp only
    cases (fromBytes slice : Except PostcardError Record) with
    | error e => exact fun h => (by cases h)
    | ok record => exact Outcome.bind_ne_panic (Outcome.okOr_ne_panic _ _) (fun _ _ h => (by cases h))

/-- The loop `while let Some((record, next)) = slab.read(cursor)?` of the two searches, and what it ends with. -/
inductive ScanEnds (found : Record → Bool) (slab : Slab) : Cursor → Outcome StorageError (Option Cursor) → Prop
  | stop (cursor : Cursor) (h : slab.read cursor = .ok none) : ScanEnds found slab cursor (.ok none)
  | fail (cursor : Cursor) (e : StorageError) (h : slab.read cursor = .err e) : ScanEnds found slab cursor (.err e)
  | found (cursor next : Cursor) (record : Record) (h : slab.read cursor = .ok (some (record,next)))
      (hfound : found record = true) : ScanEnds found slab cursor (.ok (some cursor))
  | next (cursor next : Cursor) (record : Record) (outcome : Outcome StorageError (Option Cursor))
      (h : slab.read cursor = .ok (some (record,next))) (hno : found record = false)
      (hrest : ScanEnds found slab next outcome) : ScanEnds found slab cursor outcome

/-- Each turn reads one of the records that the slab counts. -/
theorem scanSlab_ends (found : Record → Bool) (slab : Slab) {fuel : Nat}
    (hfuel : slab.count ≤ cursor.readCount+fuel) :
    ScanEnds found slab cursor (Storage.scanSlab found slab fuel cursor) := by
  induction fuel generalizing cursor with
  | zero =>
    refine .stop cursor ?_
    rw [Slab.read,if_pos (show cursor.readCount ≥ slab.count by omega)]
  | succ fuel ih =>
    rw [Storage.scanSlab]
    rcases hread : slab.read cursor with (_ | ⟨record,next⟩) | e | _
    · exact .stop cursor hread
    · simp only [Outcome.ok_bind]
      obtain ⟨_,_,_,_,hnext⟩ := slab_read_moves hread
      by_cases hfound : found record = true
      · rw [if_pos hfound]
        exact .found cursor next record hread hfound
      · rw [if_neg hfound]
        exact .next cursor next record _ hread (Bool.eq_false_iff.mpr hfound) (ih (by omega))
    · exact .fail cursor e hread
    · exact absurd hread (slab_read_ne_panic slab cursor)

theorem scanSlab_ne_panic (found : Record → Bool) (slab : Slab) (fuel : Nat) (cursor : Cursor) :
    Storage.scanSlab found slab fuel cursor ≠ .panic := by
  induction fuel generalizing cursor with
  | zero => exact fun h => (by cases h)
  | succ fuel ih =>
    refine Outcome.bind_ne_panic (slab_read_ne_panic slab cursor) (fun read _ => ?_)
    cases read with
    | none => exact fun h => (by cases h)
    | some p =>
      dsimp only
      split_ifs
      · exact fun h => (by cases h)
      · exact ih _

/-- Whole slabs in a memory with any bytes, and any of them counted. -/
structure MemIo.Opened (io : MemIo slabSize) : Prop where
  start : io.startOffset = 0
  positive : 0 < slabSize
  maxIndex : io.maxIndex = io.data.length/slabSize
  bounded : io.data.length ≤ isizeMax

variable {io : MemIo slabSize} {st : Storage slabSize} {data : Bytes} {i : Nat}

omit [Postcard Record] in
theorem MemIo.Opened.whole (h : io.Opened) (hi : i < io.maxIndex) : i*slabSize+slabSize ≤ io.data.length := by
  rw [h.maxIndex] at hi
  have hin := (Nat.le_div_iff_mul_le h.positive).mp hi
  rwa [Nat.succ_mul] at hin

omit [Postcard Record] in
/-- A slab there is as long as it should be, whatever is in it. -/
theorem MemIo.Opened.getSlab_in (h : io.Opened) (hi : i < io.maxIndex) :
    ∃ slice, io.getSlab i = Slab.new slice i ∧ slice.length = slabSize := by
  have hin := h.whole hi
  have hslice := getRange_some_of_le (Nat.le_add_right (i*slabSize) slabSize) hin
  have hlen := getRange_length hslice
  rw [Nat.add_sub_cancel_left] at hlen
  exact ⟨_,MemIo.getSlab_in h.start hi h.positive h.bounded hin hslice,by rwa [Nat.add_sub_cancel_left]⟩

omit [Postcard Record] in
theorem slabNew_ne_panic (slice : Bytes) (i : Nat) : Slab.new slice i ≠ .panic := by
  refine Outcome.bind_ne_panic readU32_ne_panic (fun p _ => ?_)
  exact Outcome.bind_ne_panic readU64_ne_panic (fun _ _ h => (by cases h))

omit [Postcard Record] in
theorem MemIo.Opened.getSlab_ne_panic (h : io.Opened) (i : Nat) : io.getSlab i ≠ .panic := by
  by_cases hi : i < io.maxIndex
  · obtain ⟨slice,hget,_⟩ := h.getSlab_in hi
    rw [hget]
    exact slabNew_ne_panic slice i
  · rw [MemIo.getSlab_out (not_lt.mp hi)]
    exact fun hpanic => (by cases hpanic)

omit [Postcard Record] in
theorem MemIo.Opened.getSlab_records (h : io.Opened) (hget : io.getSlab i = .ok slab) :
    i < io.maxIndex ∧ slab.slab = i ∧ slab.records.length = slabSize := by
  by_cases hi : i < io.maxIndex
  · obtain ⟨slice,hslice,hlen⟩ := h.getSlab_in hi
    obtain ⟨hslab,hrecords⟩ := slabNew_records (hslice.symm.trans hget)
    exact ⟨hi,hslab,by rw [hrecords,hlen]⟩
  · rw [MemIo.getSlab_out (not_lt.mp hi)] at hget
    cases hget

/-- A slab that holds nothing is passed over for the next one. -/
theorem MemIo.Opened.scanSlabs_step (h : io.Opened) {fuel : Nat}
    (hlater : ∀ rest, fuel = rest+1 → Storage.scanSlabs found io rest (i+1) ≠ .panic) :
    Storage.scanSlabs found io fuel i ≠ .panic := by
  rw [Storage.scanSlabs.eq_def]
  dsimp only
  split
  · exact fun hpanic => (by cases hpanic)
  · exact fun hpanic => (by cases hpanic)
  · rename_i hpanic
    exact absurd hpanic (h.getSlab_ne_panic i)
  · refine Outcome.bind_ne_panic (scanSlab_ne_panic found _ _ _) (fun result _ => ?_)
    cases result with
    | some cursor => exact fun hpanic => (by cases hpanic)
    | none =>
      cases fuel with
      | zero => exact fun hpanic => (by cases hpanic)
      | succ rest => exact hlater rest rfl

theorem MemIo.Opened.scanSlabs_ne_panic (h : io.Opened) (found : Record → Bool) (fuel i : Nat) :
    Storage.scanSlabs found io fuel i ≠ .panic := by
  induction fuel generalizing i with
  | zero => exact h.scanSlabs_step (fun _ hrest => (by cases hrest))
  | succ fuel ih =>
    refine h.scanSlabs_step (fun rest hrest => ?_)
    cases hrest
    exact ih (i+1)

theorem Storage.read_ne_panic (h : st.io.Opened) (cursor : Cursor) : st.read cursor ≠ .panic := by
  refine Outcome.bind_ne_panic (h.getSlab_ne_panic _) (fun slab _ => ?_)
  refine Outcome.bind_ne_panic (slab_read_ne_panic slab cursor) (fun result _ => ?_)
  cases result with
  | some p => exact fun hpanic => (by cases hpanic)
  | none =>
    cases checkedAdd usizeMax cursor.slab 1 with
    | none => exact fun hpanic => (by cases hpanic)
    | some nextIndex =>
      dsimp only
      split_ifs
      · exact fun hpanic => (by cases hpanic)
      refine Outcome.bind_ne_panic (h.getSlab_ne_panic _) (fun slab _ => ?_)
      refine Outcome.bind_ne_panic (slab_read_ne_panic slab _) (fun result _ => ?_)
      cases result <;> exact fun hpanic => (by cases hpanic)

/-- Where in the memory a cursor is. -/
def Cursor.position (slabSize : Nat) (c : Cursor) : Nat := c.slab*slabSize+c.offset

/-- Every read moves on in the memory, within one slab or to the next one. -/
theorem Storage.read_moves (h : st.io.Opened) (hin : cursor.offset ≤ slabSize)
    (hread : st.read cursor = .ok (some (data,next))) : cursor.position slabSize < next.position slabSize ∧
      next.offset ≤ slabSize ∧ next.position slabSize ≤ st.io.data.length := by
  obtain ⟨slab,hget,h1⟩ := Outcome.bind_eq_ok.mp hread
  obtain ⟨result,hslab,h2⟩ := Outcome.bind_eq_ok.mp h1
  cases result with
  | some p =>
    obtain ⟨record,next'⟩ := p
    cases h2
    obtain ⟨hsame,hfar,hend,_⟩ := slab_read_moves hslab
    obtain ⟨hi,_,hlen⟩ := h.getSlab_records hget
    have hwhole := h.whole hi
    simp only [Cursor.position,hsame]
    omega
  | none =>
    dsimp only at h2
    cases hnext : checkedAdd usizeMax cursor.slab 1 with
    | none =>
      rw [hnext] at h2
      cases h2
    | some nextIndex =>
      rw [hnext] at h2
      dsimp only at h2
      split_ifs at h2
      · cases h2
      obtain ⟨slab',hget',h3⟩ := Outcome.bind_eq_ok.mp h2
      obtain ⟨result',hslab',h4⟩ := Outcome.bind_eq_ok.mp h3
      cases result' with
      | none => cases h4
      | some p =>
        obtain ⟨record,next'⟩ := p
        cases h4
        obtain ⟨_,rfl⟩ := checkedAdd_eq_some.mp hnext
        obtain ⟨hsame,hfar,hend,_⟩ := slab_read_moves hslab'
        obtain ⟨hi,hslab,hlen⟩ := h.getSlab_records hget'
        have hwhole := h.whole hi
        have hat : slab'.getHead.slab = cursor.slab+1 := hslab
        rw [Nat.succ_mul] at hwhole
        simp only [Cursor.position,hsame,hat,Nat.succ_mul]
        omega

/-- So many reads from a cursor on come to `None` or an error. -/
inductive EndsWithin (st : Storage slabSize) : Nat → Cursor → Prop
  | none (n : Nat) (cursor : Cursor) (h : st.read cursor = .ok none) : EndsWithin st (n+1) cursor
  | err (n : Nat) (cursor : Cursor) (e : StorageError) (h : st.read cursor = .err e) : EndsWithin st (n+1) cursor
  | next (n : Nat) (cursor next : Cursor) (data : Bytes) (h : st.read cursor = .ok (some (data,next)))
      (hrest : EndsWithin st n next) : EndsWithin st (n+1) cursor

/-- What is left of the memory bounds the reads. -/
theorem EndsWithin.of_position (h : st.io.Opened) {n : Nat} (hin : cursor.offset ≤ slabSize)
    (hn : st.io.data.length < cursor.position slabSize+n) (hat : cursor.position slabSize ≤ st.io.data.length) :
    EndsWithin st n cursor := by
  induction n generalizing cursor with
  | zero => omega
  | succ n ih =>
    rcases hread : st.read cursor with (_ | ⟨data,next⟩) | e | _
    · exact .none n cursor hread
    · obtain ⟨hfar,hoffset,hend⟩ := Storage.read_moves h hin hread
      exact .next n cursor next data hread (ih hoffset (by omega) hend)
    · exact .err n cursor e hread
    · exact absurd hread (Storage.read_ne_panic h cursor)

theorem Storage.scan_at (h : st.io.Opened) (hscan : st.scan found = .ok (some cursor)) :
    cursor.offset ≤ slabSize ∧ cursor.position slabSize ≤ st.io.data.length := by
  obtain ⟨slab,record,next,hget,hread⟩ := scanSlabs_found (show Storage.scanSlabs found st.io
    (usizeMax-st.io.startOffset) st.io.startOffset = .ok (some cursor) from hscan)
  obtain ⟨_,hfar,hend,_⟩ := slab_read_moves hread
  obtain ⟨hi,_,hlen⟩ := h.getSlab_records hget
  have hwhole := h.whole hi
  rw [Cursor.position]
  omega

theorem Storage.scan_ne_panic (h : st.io.Opened) (found : Record → Bool) : st.scan found ≠ .panic :=
  h.scanSlabs_ne_panic found (usizeMax-st.io.startOffset) st.io.startOffset

end Reads

section Corrupt

/-- Over any bytes the searches return, and reading on from a cursor that they return comes to an end. -/
theorem corrupt_reads_end [Target] [Postcard Record] {slabSize : Nat} (st : Storage slabSize) (h : st.io.Opened) :
    (∀ found index slab, st.io.getSlab index = .ok slab →
      ScanEnds found slab slab.getHead (Storage.scanSlab found slab slab.count slab.getHead)) ∧
    (∀ sequence, st.getCursorFromSequence sequence ≠ .panic) ∧ (∀ index, st.getCursorFromIndex index ≠ .panic) ∧
    ∀ cursor, ((∃ sequence, st.getCursorFromSequence sequence = .ok (some cursor)) ∨
      ∃ index, st.getCursorFromIndex index = .ok (some cursor)) → EndsWithin st (st.io.data.length+1) cursor := by
  refine ⟨fun found _ slab _ => scanSlab_ends found slab (Nat.le_add_left slab.count 0),
    fun sequence => Storage.scan_ne_panic h _,fun index => Storage.scan_ne_panic h _,?_⟩
  rintro cursor (⟨sequence,hcursor⟩ | ⟨index,hcursor⟩)
  · obtain ⟨hin,hat⟩ := Storage.scan_at h hcursor
    exact EndsWithin.of_position h hin (by omega) hat
  · obtain ⟨hin,hat⟩ := Storage.scan_at h hcursor
    exact EndsWithin.of_position h hin (by omega) hat

/-- Two slabs with all bits set: their headers count more records than there is room for. -/
def garbage : Storage 16 := ⟨⟨2,2,0,List.replicate 40 255⟩⟩

theorem garbage_reads_end : (∀ found index slab, garbage.io.getSlab index = .ok slab →
      ScanEnds found slab slab.getHead (Storage.scanSlab found slab slab.count slab.getHead)) ∧
    (∀ sequence, garbage.getCursorFromSequence sequence ≠ .panic) ∧
    (∀ index, garbage.getCursorFromIndex index ≠ .panic) ∧
    ∀ cursor, ((∃ sequence, garbage.getCursorFromSequence sequence = .ok (some cursor)) ∨
      ∃ index, garbage.getCursorFromIndex index = .ok (some cursor)) → EndsWithin garbage 41 cursor :=
  corrupt_reads_end garbage ⟨rfl,by decide,by decide,by decide⟩

end Corrupt

end Finder
