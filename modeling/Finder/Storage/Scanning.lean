import Finder.Protocol.Storage

namespace Finder

section Bytes

variable [Target] {data arr : Bytes} {size offset stop n : Nat}

theorem readArr_ne_panic : readArr size data offset ≠ .panic := by
  refine Outcome.bind_ne_panic (Outcome.okOr_ne_panic _ _) (fun stop _ => ?_)
  refine Outcome.bind_ne_panic (Outcome.okOr_ne_panic _ _) (fun slice _ => ?_)
  split_ifs <;> exact fun h => (by cases h)

theorem readU32_ne_panic : readU32 data offset ≠ .panic :=
  Outcome.bind_ne_panic readArr_ne_panic (fun _ _ h => (by cases h))

theorem readU64_ne_panic : readU64 data offset ≠ .panic :=
  Outcome.bind_ne_panic readArr_ne_panic (fun _ _ h => (by cases h))

theorem readArr_eq_ok (h : readArr size data offset = .ok (arr,stop)) :
    stop = offset+size ∧ arr.length = size ∧ getRange data offset (offset+size) = some arr := by
  obtain ⟨stop',hstop,h1⟩ := Outcome.bind_eq_ok.mp h
  obtain ⟨slice,hslice,h2⟩ := Outcome.bind_eq_ok.mp h1
  split_ifs at h2 with hsize
  cases h2
  obtain ⟨_,rfl⟩ := checkedAdd_eq_some.mp (Outcome.okOr_eq_ok.mp hstop)
  exact ⟨rfl,not_not.mp hsize,Outcome.okOr_eq_ok.mp hslice⟩

theorem readU32_stop (h : readU32 data offset = .ok (n,stop)) : stop = offset+u32Size ∧ stop ≤ data.length := by
  obtain ⟨⟨arr,stop'⟩,harr,hlast⟩ := Outcome.bind_eq_ok.mp h
  cases hlast
  obtain ⟨rfl,_,hslice⟩ := readArr_eq_ok harr
  exact ⟨rfl,(getRange_eq_some.mp hslice).2.1⟩

/-- The bytes that a length is read from. -/
theorem readU32_header (h : readU32 data offset = .ok (n,stop)) :
    n < 2^32 ∧ getRange data offset (offset+u32Size) = some (beBytes u32Size n) := by
  obtain ⟨⟨arr,stop'⟩,harr,hlast⟩ := Outcome.bind_eq_ok.mp h
  cases hlast
  obtain ⟨_,hsize,hslice⟩ := readArr_eq_ok harr
  have hlt := beNat_lt arr
  have hbytes := beBytes_beNat arr
  rw [hsize] at hlt hbytes
  exact ⟨hlt,by rw [hbytes,hslice]⟩

end Bytes

section Scanning

variable [Target] [Postcard Record] {slabSize : Nat} {io : MemIo slabSize} {slab : Slab} {cursor next c : Cursor}
  {record : Record} {found : Record → Bool} {i : Nat}

/-- A record that is read has its bytes behind their length, and the cursor moves behind them. -/
theorem slab_read_eq_some (h : slab.read cursor = .ok (some (record,next))) :
    cursor.readCount < slab.count ∧ ∃ length offset slice, readU32 slab.records cursor.offset = .ok (length,offset) ∧
      getRange slab.records offset (offset+length) = some slice ∧ fromBytes slice = .ok record ∧
      next = { cursor with offset := offset+length, readCount := cursor.readCount+1 } := by
  unfold Slab.read at h
  split_ifs at h with hcount
  · cases h
  refine ⟨not_le.mp hcount,?_⟩
  obtain ⟨⟨length,offset⟩,hread,h1⟩ := Outcome.bind_eq_ok.mp h
  dsimp only at h1
  split_ifs at h1
  · cases h1
  obtain ⟨stop,hstop,h2⟩ := Outcome.bind_eq_ok.mp h1
  obtain ⟨_,rfl⟩ := checkedAdd_eq_some.mp (Outcome.okOr_eq_ok.mp hstop)
  cases hslice : getRange slab.records offset (offset+length) with
  | none =>
    rw [hslice] at h2
    cases h2
  | some slice =>
    rw [hslice] at h2
    dsimp only at h2
    cases hrecord : (fromBytes slice : Except PostcardError Record) with
    | error e =>
      rw [hrecord] at h2
      cases h2
    | ok r =>
      rw [hrecord] at h2
      obtain ⟨count,hnext,h3⟩ := Outcome.bind_eq_ok.mp h2
      cases h3
      obtain ⟨_,rfl⟩ := checkedAdd_eq_some.mp (Outcome.okOr_eq_ok.mp hnext)
      exact ⟨length,offset,slice,hread,hslice,hrecord,rfl⟩

/-- A record that is read lies in the slab. -/
theorem slab_read_moves (h : slab.read cursor = .ok (some (record,next))) : next.slab = cursor.slab ∧
    cursor.offset < next.offset ∧ next.offset ≤ slab.records.length ∧ cursor.readCount < slab.count ∧
      next.readCount = cursor.readCount+1 := by
  obtain ⟨hcount,length,offset,slice,hread,hslice,_,rfl⟩ := slab_read_eq_some h
  obtain ⟨hoffset,_⟩ := readU32_stop hread
  have hu32 : u32Size = 4 := rfl
  have hfar : cursor.offset < offset+length := by omega
  exact ⟨rfl,hfar,(getRange_eq_some.mp hslice).2.1,hcount,rfl⟩

omit [Postcard Record] in
theorem slabNew_records {slice : Bytes} (h : Slab.new slice i = .ok slab) : slab.slab = i ∧ slab.records = slice := by
  obtain ⟨_,_,h1⟩ := Outcome.bind_eq_ok.mp h
  obtain ⟨_,_,h2⟩ := Outcome.bind_eq_ok.mp h1
  cases h2
  exact ⟨rfl,rfl⟩

omit [Postcard Record] in
theorem getSlab_slab {i : Nat} (h : io.getSlab i = .ok slab) : slab.slab = i := by
  unfold MemIo.getSlab at h
  split_ifs at h
  obtain ⟨_,_,h1⟩ := Outcome.bind_eq_ok.mp h
  obtain ⟨_,_,h2⟩ := Outcome.bind_eq_ok.mp h1
  obtain ⟨_,_,h3⟩ := Outcome.bind_eq_ok.mp h2
  obtain ⟨_,_,h4⟩ := Outcome.bind_eq_ok.mp h3
  obtain ⟨slice,_,h5⟩ := Outcome.bind_eq_ok.mp h4
  exact (slabNew_records h5).1

/-- What a scan of a slab finds can be read. -/
theorem scanSlab_eq_some {fuel : Nat} (h : Storage.scanSlab found slab fuel cursor = .ok (some c)) :
    c.slab = cursor.slab ∧ ∃ record next, slab.read c = .ok (some (record,next)) := by
  induction fuel generalizing cursor with
  | zero => cases h
  | succ fuel ih =>
    rw [Storage.scanSlab] at h
    obtain ⟨read,hread,hrest⟩ := Outcome.bind_eq_ok.mp h
    cases read with
    | none => cases hrest
    | some p =>
      obtain ⟨record,next⟩ := p
      simp only at hrest
      split_ifs at hrest with hfound
      · cases hrest
        exact ⟨rfl,record,next,hread⟩
      · obtain ⟨hslab,hlater⟩ := ih hrest
        exact ⟨hslab.trans (slab_read_moves hread).1,hlater⟩

/-- A scan finds what it looks for in the slab it is at, or behind it. -/
theorem scanSlabs_eq_some {fuel i : Nat} (h : Storage.scanSlabs found io fuel i = .ok (some c)) :
    ∃ slab, io.getSlab i = .ok slab ∧ (Storage.scanSlab found slab slab.count slab.getHead = .ok (some c) ∨
      (Storage.scanSlab found slab slab.count slab.getHead = .ok none ∧
        ∃ rest, fuel = rest+1 ∧ Storage.scanSlabs found io rest (i+1) = .ok (some c))) := by
  cases hget : io.getSlab i with
  | panic => cases fuel <;> simp [Storage.scanSlabs,hget] at h
  | err e => cases fuel <;> cases e <;> simp [Storage.scanSlabs,hget] at h
  | ok slab =>
    refine ⟨slab,rfl,?_⟩
    rcases hscan : Storage.scanSlab found slab slab.count slab.getHead with (_ | c') | e | _
    · cases fuel with
      | zero => simp [Storage.scanSlabs,hget,hscan] at h
      | succ rest => exact Or.inr ⟨rfl,rest,rfl,by simpa [Storage.scanSlabs,hget,hscan] using h⟩
    · have hsame : c' = c := by cases fuel <;> simpa [Storage.scanSlabs,hget,hscan] using h
      exact Or.inl (by rw [hsame])
    · cases fuel <;> simp [Storage.scanSlabs,hget,hscan] at h
    · cases fuel <;> simp [Storage.scanSlabs,hget,hscan] at h

theorem scanSlab_found {fuel : Nat} (hget : io.getSlab i = .ok slab)
    (h : Storage.scanSlab found slab fuel slab.getHead = .ok (some c)) :
    c.slab = i ∧ ∃ record next, io.getSlab c.slab = .ok slab ∧ slab.read c = .ok (some (record,next)) := by
  obtain ⟨hat,record,next,hread⟩ := scanSlab_eq_some h
  have hindex : c.slab = i := hat.trans (getSlab_slab hget)
  exact ⟨hindex,record,next,by rw [hindex,hget],hread⟩

/-- A scan returns a cursor at a record of a slab there. -/
theorem scanSlabs_found {fuel : Nat} (h : Storage.scanSlabs found io fuel i = .ok (some c)) :
    ∃ slab record next, io.getSlab c.slab = .ok slab ∧ slab.read c = .ok (some (record,next)) := by
  induction fuel generalizing i with
  | zero =>
    obtain ⟨slab,hget,hfound | ⟨_,rest,hrest,_⟩⟩ := scanSlabs_eq_some h
    · exact ⟨slab,(scanSlab_found hget hfound).2⟩
    · cases hrest
  | succ fuel ih =>
    obtain ⟨slab,hget,hfound | ⟨_,rest,hrest,hlater⟩⟩ := scanSlabs_eq_some h
    · exact ⟨slab,(scanSlab_found hget hfound).2⟩
    · cases hrest
      exact ih hlater

end Scanning

end Finder
