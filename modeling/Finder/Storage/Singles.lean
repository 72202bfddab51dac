import Finder.Storage.Append
import Finder.Storage.Stored

namespace Finder

section Lays

variable [Target] [RecordCodec] {slabSize : Nat} {st st' : Storage slabSize} {sessions : List (List Record)}
  {r : Record}

/-- A record is committed in a slab of its own, however long it is. -/
theorem Lays.store (h : Lays st.io sessions) (hst : Channel.onWriter
      (Channel.writeRecord r.maxSequence r.messageCount r.sequence r.sender r.data) st = (.ok (),st')) :
    Lays st'.io (sessions ++ [[r]]) := by
  obtain ⟨w,w',hwriting,hcommit,rfl⟩ := store_committed hst h.bounded
  exact (h.commit hwriting hcommit).1

theorem Lays.advanced {io io' : MemIo slabSize} (h : Lays io sessions) (hadvanced : io.Advanced io')
    (hcount : io'.slabCount = io.slabCount) : Lays io' sessions := by
  refine h.scribble ?_ hadvanced.length (fun k hk => hadvanced.before k ?_)
  · obtain ⟨count,maxIndex,start,data⟩ := io'
    have h1 := hadvanced.start
    have h2 := hadvanced.maxIndex
    simp only at h1 h2 hcount
    subst h1 h2 hcount
    rfl
  · rw [h.start,h.count]
    omega

/-- A slab of one record lies whole in the memory. -/
theorem Lays.sound {io : MemIo slabSize} {rs : List Record} (h : Lays io (rs.map (fun r => [r]))) : io.Sound := by
  refine ⟨h.start,?_,h.bounded⟩
  rw [h.count,List.length_map]
  rcases Nat.eq_zero_or_pos rs.length with hnone | hsome
  · rw [hnone,Nat.zero_mul]
    exact Nat.zero_le _
  · have hlast : rs.length-1 < rs.length := by omega
    have hi : (rs.map (fun r => [r]))[rs.length-1]? = some [rs[rs.length-1]] := by
      rw [List.getElem?_map,List.getElem?_eq_getElem hlast]
      rfl
    by_contra hout
    have hpast := h.past _ _ hi (by rw [Nat.sub_add_cancel hsome]; omega)
    cases hpast.1

end Lays

section Single

variable [Target] [RecordCodec] {slabSize : Nat} {io : MemIo slabSize} {rs hidden shown : List Record} {r : Record}
  {i : Nat}

/-- What a slab of one record gives is that record, or nothing. -/
theorem Lays.read_single [PrefixCodec] (h : Lays io (rs.map (fun r => [r]))) (hi : rs[i]? = some r) :
    ∃ slab, io.getSlab i = .ok slab ∧ slab.count = 1 ∧
      ∀ x next, slab.read slab.getHead = .ok (some (x,next)) → x = r := by
  have hsingle : (rs.map (fun r => [r]))[i]? = some [r] := by rw [List.getElem?_map,hi]; rfl
  have hlast := (List.getElem?_eq_some_iff.mp hi).1
  have hcounted := h.sound.counted
  have hnext : (i+1)*slabSize ≤ rs.length*slabSize := Nat.mul_le_mul_right _ hlast
  rw [h.count,List.length_map] at hcounted
  obtain ⟨hfits,hbytes⟩ := h.whole i [r] hsingle (hnext.trans hcounted)
  obtain ⟨slice,hget,hslen,hslice⟩ := getSlab_slice h.start h.maxIndex h.positive h.bounded (hnext.trans hcounted)
  have hbound := h.bounded
  rw [Nat.succ_mul] at hnext
  have husize := usizeMax_eq
  obtain ⟨slab,hnew,hindex,hoffset,hcount,hrecords,hframes⟩ := slabNew_counts i ((hslice _ hfits).trans hbytes)
    (by omega) (by simp [u32Max])
  refine ⟨slab,hget.trans hnew,hcount,fun x next hread => ?_⟩
  have hframe : frames [r] = beBytes u32Size (toBytes r).length ++ toBytes r := by simp [frames,frame]
  rw [hframe] at hframes
  obtain ⟨hlen,hdata⟩ := getRange_split hframes
  rw [beBytes_length] at hlen hdata
  have hlow : beNat (beBytes u32Size (toBytes r).length) ≤ (toBytes r).length := by
    rw [beNat_beBytes]
    exact Nat.mod_le _ _
  have harr : readU32 slice slab.offset =
      .ok (beNat (beBytes u32Size (toBytes r).length),SlabWriter.initialOffset+u32Size) := by
    rw [hoffset,readU32,readArr_ok hlen (by have hin := (getRange_eq_some.mp hlen).2.1; omega)]
    rfl
  obtain ⟨_,length,offset,stored,hlength,hstored,hrecord,_⟩ := slab_read_eq_some hread
  rw [hrecords] at hlength hstored
  obtain ⟨rfl,rfl⟩ := Prod.mk.inj (Outcome.ok.inj (harr.symm.trans hlength))
  -- the length field keeps the low bits, so what is read is a start of the record
  rw [←List.take_append_drop (beNat (beBytes u32Size (toBytes r).length)) (toBytes r)] at hdata
  have hfirst := (getRange_split hdata).1
  rw [List.length_take,Nat.min_eq_left hlow,hstored] at hfirst
  rw [Option.some.inj hfirst] at hrecord
  rcases Nat.lt_or_ge (beNat (beBytes u32Size (toBytes r).length)) (toBytes r).length with hshort | hwhole
  · exact absurd hrecord (PrefixCodec.truncated r x _ hshort)
  · rw [List.take_of_length_le hwhole,Postcard.fromBytes_toBytes] at hrecord
    exact (Except.ok.inj hrecord).symm

/-- The slab at the index reads as empty. -/
def MemIo.ReadsEmpty (io : MemIo slabSize) (i : Nat) : Prop :=
  ∃ slab, io.getSlab i = .ok slab ∧ slab.read slab.getHead = .ok none

/-- No search goes past the counted slabs: behind them none was ever committed, or one of them has a record to read. -/
def MemIo.Ends (io : MemIo slabSize) : Prop := io.Blank ∨ ∃ i, i < io.slabCount ∧ ¬io.ReadsEmpty i

theorem MemIo.Ends.advanced {io' : MemIo slabSize} (h : io.Ends) (hs : io.Sound) (hadvanced : io.Advanced io') :
    io'.Ends := by
  rcases h with hblank | ⟨i,hi,hread⟩
  · exact Or.inl (hblank.advanced hadvanced)
  · have hcount : io.slabCount ≤ io'.slabCount := by rcases hadvanced.count with h | h <;> omega
    refine Or.inr ⟨i,hi.trans_le hcount,fun hempty => hread ?_⟩
    obtain ⟨slab,hget,hnone⟩ := hempty
    rw [hadvanced.getSlab hs hi] at hget
    exact ⟨slab,hget,hnone⟩

/-- Each counted slab has one record, in order, and the slabs of the first ones read as empty. -/
structure Singles (io : MemIo slabSize) (hidden rs : List Record) : Prop where
  lays : Lays io ((hidden ++ rs).map (fun r => [r]))
  unread : ∀ i, i < hidden.length → io.ReadsEmpty i

theorem Lays.few_singles (h : Lays io (rs.map (fun r => [r]))) : rs.length < usizeMax := by
  have hcounted := h.sound.counted
  have hbound := h.bounded
  have husize := usizeMax_eq
  have hle := Nat.le_mul_of_pos_right rs.length h.positive
  rw [h.count,List.length_map] at hcounted
  omega

/-- A search for any record stops at the first slab that reads as one. -/
theorem Lays.scanSlabs_first [PrefixCodec] {found : Record → Bool} (hfound : ∀ x, found x = true)
    (h : Lays io (rs.map (fun r => [r])))
    (hends : io.Blank ∨ ∃ k, i ≤ k ∧ k < rs.length ∧ ¬io.ReadsEmpty k) {fuel : Nat} {result : Option Cursor}
    (hi : i ≤ rs.length) (hfuel : rs.length ≤ fuel+i) (hscan : Storage.scanSlabs found io fuel i = .ok result) :
    ∃ j, j ≤ rs.length ∧ (∀ k, i ≤ k → k < j → io.ReadsEmpty k) ∧ ((result = none ∧ j = rs.length) ∨
      ∃ slab r next, rs[j]? = some r ∧ io.getSlab j = .ok slab ∧ result = some slab.getHead ∧
        slab.read slab.getHead = .ok (some (r,next))) := by
  have hnothing : ∀ {i}, (io.Blank ∨ ∃ k, i ≤ k ∧ k < rs.length ∧ ¬io.ReadsEmpty k) → rs.length ≤ i → io.Blank :=
    fun hends hle => hends.resolve_right (fun ⟨k,hk,hlt,_⟩ => by omega)
  induction fuel generalizing i with
  | zero =>
    rw [(hnothing hends (by omega)).scanSlabs h.bounded found 0 (by rw [h.count,List.length_map]; omega)] at hscan
    exact ⟨i,hi,fun k _ _ => by omega,Or.inl ⟨(Outcome.ok.inj hscan).symm,by omega⟩⟩
  | succ fuel ih =>
    rcases Nat.lt_or_ge i rs.length with hlt | hend
    swap
    · rw [(hnothing hends hend).scanSlabs h.bounded found _ (by rw [h.count,List.length_map]; omega)] at hscan
      exact ⟨i,hi,fun k _ _ => by omega,Or.inl ⟨(Outcome.ok.inj hscan).symm,by omega⟩⟩
    have hri := List.getElem?_eq_getElem hlt
    obtain ⟨slab,hget,hcount,hread⟩ := h.read_single hri
    rw [Storage.scanSlabs] at hscan
    simp only [hget,hcount,Storage.scanSlab] at hscan
    rcases hhead : slab.read slab.getHead with (_ | ⟨x,next⟩) | e | _
    · rw [hhead] at hscan
      have hlater : io.Blank ∨ ∃ k, i+1 ≤ k ∧ k < rs.length ∧ ¬io.ReadsEmpty k := by
        refine hends.imp_right (fun ⟨k,hk,hlast,hno⟩ => ⟨k,Nat.lt_of_le_of_ne hk (fun heq => hno ?_),hlast,hno⟩)
        exact heq ▸ ⟨slab,hget,hhead⟩
      obtain ⟨j,hj,hempty,hresult⟩ := ih hlater hlt (by omega) hscan
      refine ⟨j,hj,fun k hk hkj => ?_,hresult⟩
      rcases Nat.eq_or_lt_of_le hk with rfl | hk
      · exact ⟨slab,hget,hhead⟩
      · exact hempty k hk hkj
    · obtain rfl := hread x next hhead
      rw [hhead] at hscan
      simp only [Outcome.ok_bind,hfound,if_true] at hscan
      exact ⟨i,hi,fun k _ _ => by omega,Or.inr ⟨slab,_,next,hri,hget,(Outcome.ok.inj hscan).symm,hhead⟩⟩
    · rw [hhead] at hscan
      cases hscan
    · rw [hhead] at hscan
      cases hscan

variable {st : Storage slabSize} {cursor : Cursor} {ds : List Bytes}

/-- A loop that has read the record of a slab reads those of all later slabs. -/
theorem Lays.readFrom_later [PrefixCodec] (h : Lays st.io (rs.map (fun r => [r]))) {fuel : Nat} (hi : i < rs.length)
    (hslab : cursor.slab = i) (hcount : cursor.readCount = 1) (hread : st.readFrom fuel cursor = .ok ds) :
    ds = (rs.drop (i+1)).map Record.data := by
  induction fuel generalizing i cursor ds with
  | zero => cases hread
  | succ fuel ih =>
    obtain ⟨slab,hget,hone,_⟩ := h.read_single (List.getElem?_eq_getElem hi)
    have hfew := h.few_singles
    have hslabs : st.io.slabCount = rs.length := by rw [h.count,List.length_map]
    have hnext : checkedAdd usizeMax i 1 = some (i+1) := checkedAdd_eq_some.mpr ⟨by omega,rfl⟩
    have hdone : slab.read cursor = .ok none := by simp [Slab.read,hone,hcount]
    rw [Storage.readFrom] at hread
    simp only [Storage.read,hslab,hget,hdone,Outcome.ok_bind,hnext] at hread
    split_ifs at hread with hend
    · rw [List.drop_eq_nil_of_le (by omega)]
      exact (Outcome.ok.inj hread).symm
    have hlt : i+1 < rs.length := by omega
    obtain ⟨slab',hget',_,hread'⟩ := h.read_single (List.getElem?_eq_getElem hlt)
    rcases hhead : slab'.read slab'.getHead with (_ | ⟨x,next⟩) | e | _
    · simp [hget',hhead] at hread
    · obtain rfl := hread' x next hhead
      obtain ⟨hat,_,_,_,hcount'⟩ := slab_read_moves hhead
      simp only [hget',hhead,Outcome.ok_bind] at hread
      obtain ⟨rest,hrest,hds⟩ := Outcome.bind_eq_ok.mp hread
      cases hds
      have hlater := ih hlt (hat.trans (getSlab_slab hget')) hcount' hrest
      rw [hlater,List.drop_eq_getElem_cons hlt,List.map_cons]
    · simp [hget',hhead] at hread
    · simp [hget',hhead] at hread

/-- What such a memory reads are its last records, all from the first slab on that does not read as empty. -/
theorem Lays.records_shown [PrefixCodec] (h : Lays st.io (rs.map (fun r => [r]))) (hends : st.io.Ends)
    (hrecords : st.records = .ok ds) : ∃ hidden shown, rs = hidden ++ shown ∧ ds = shown.map Record.data ∧
      Singles st.io hidden shown ∧ (shown = [] ∨ ¬st.io.ReadsEmpty hidden.length) := by
  have hfew := h.few_singles
  obtain ⟨found,hscan,hrest⟩ := Outcome.bind_eq_ok.mp hrecords
  rw [Storage.getCursorFromSequence,Storage.scan,MemIo.getHead,h.start] at hscan
  have hcount := h.count
  rw [List.length_map] at hcount
  have hstops : st.io.Blank ∨ ∃ k, 0 ≤ k ∧ k < rs.length ∧ ¬st.io.ReadsEmpty k := by
    rcases hends with hblank | ⟨k,hk,hread⟩
    · exact Or.inl hblank
    · exact Or.inr ⟨k,Nat.zero_le k,hcount ▸ hk,hread⟩
  obtain ⟨j,hj,hempty,hresult⟩ := h.scanSlabs_first (by simp) hstops (Nat.zero_le _) (by omega) hscan
  have hsplit := (List.take_append_drop j rs).symm
  have hlen : (rs.take j).length = j := List.length_take_of_le hj
  refine ⟨rs.take j,rs.drop j,hsplit,?_,⟨by rw [←hsplit]; exact h,fun k hk => hempty k (Nat.zero_le _) (by omega)⟩,?_⟩
  · rcases hresult with ⟨rfl,rfl⟩ | ⟨slab,r,next,hr,hget,rfl,hhead⟩
    · rw [List.drop_length]
      exact (Outcome.ok.inj hrest).symm
    · have hlt := (List.getElem?_eq_some_iff.mp hr).1
      have hat : slab.getHead.slab = j := getSlab_slab hget
      obtain ⟨hsame,_,_,_,hcount⟩ := slab_read_moves hhead
      simp only [Storage.steps] at hrest
      rw [Storage.readFrom] at hrest
      simp only [Storage.read,hat,hget,hhead,Outcome.ok_bind] at hrest
      obtain ⟨rest,hlater,hds⟩ := Outcome.bind_eq_ok.mp hrest
      cases hds
      rw [h.readFrom_later hlt (hsame.trans hat) hcount hlater,List.drop_eq_getElem_cons hlt,List.map_cons]
      rw [List.getElem?_eq_getElem hlt] at hr
      rw [Option.some.inj hr]
  · rw [hlen]
    rcases hresult with ⟨_,rfl⟩ | ⟨slab,r,next,_,hget,_,hhead⟩
    · exact Or.inl (List.drop_length)
    · refine Or.inr (fun hnone => ?_)
      obtain ⟨slab',hget',hnone⟩ := hnone
      rw [hget] at hget'
      cases hget'
      rw [hhead] at hnone
      cases hnone

/-- Of such a memory nothing is read but records behind the hidden ones. -/
theorem Singles.records [PrefixCodec] (h : Singles st.io hidden rs) (hends : st.io.Ends) (hrecords : st.records = .ok ds) :
    ds <:+ rs.map Record.data := by
  obtain ⟨hidden',shown,hsplit,rfl,_,hfirst⟩ := h.lays.records_shown hends hrecords
  rcases hfirst with rfl | hread
  · exact List.nil_suffix
  · have hle : hidden.length ≤ hidden'.length := by
      by_contra hlt
      exact hread (h.unread _ (not_le.mp hlt))
    have hshown : shown <:+ hidden ++ rs := ⟨hidden',hsplit.symm⟩
    have hrs : rs <:+ hidden ++ rs := List.suffix_append hidden rs
    have hlens := congrArg List.length hsplit
    rw [List.length_append,List.length_append] at hlens
    exact (List.suffix_of_suffix_length_le hshown hrs (by omega)).map _

theorem singles_new (h : Lays io []) : Singles io [] [] := ⟨h,fun i hi => by cases hi⟩

variable {st' : Storage slabSize}

/-- A record that is stored comes behind the others. -/
theorem Singles.store (h : Singles st.io hidden rs) (hst : Channel.onWriter
      (Channel.writeRecord r.maxSequence r.messageCount r.sequence r.sender r.data) st = (.ok (),st')) :
    Singles st'.io hidden (rs ++ [r]) := by
  have hs := h.lays.sound
  have hcount := h.lays.count
  rw [List.length_map,List.length_append] at hcount
  have hadvanced := (store_advanced hs hst).1
  refine ⟨?_,fun i hi => ?_⟩
  · rw [←List.append_assoc,List.map_append]
    exact h.lays.store hst
  · obtain ⟨slab,hget,hread⟩ := h.unread i hi
    exact ⟨slab,by rw [hadvanced.getSlab hs (by omega),hget],hread⟩

theorem Singles.advanced {io' : MemIo slabSize} (h : Singles io hidden rs) (hadvanced : io.Advanced io')
    (hcount : io'.slabCount = io.slabCount) : Singles io' hidden rs := by
  have hs := h.lays.sound
  have hslabs := h.lays.count
  rw [List.length_map,List.length_append] at hslabs
  refine ⟨h.lays.advanced hadvanced hcount,fun i hi => ?_⟩
  obtain ⟨slab,hget,hread⟩ := h.unread i hi
  exact ⟨slab,by rw [hadvanced.getSlab hs (by omega),hget],hread⟩

end Single

end Finder
