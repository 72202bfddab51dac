import Finder.Storage.Stored

namespace Finder

section

variable [Target] [RecordCodec] {slabSize : Nat} {data : Bytes} {sessions : List (List Record)}
  {st : Storage slabSize}

/-- What memory with its slabs in place shows, where every record can be told by its length field. -/
theorem Lays.shows {io : MemIo slabSize} (h : Lays io sessions)
    (hshort : ∀ rs ∈ sessions, ∀ r ∈ rs, (toBytes r).length < 2^32) : Shows io sessions := by
  have husize := usizeMax_eq
  have hword : 2^32-1 ≤ usizeMax := u32Max_le_usizeMax
  have hbound := h.bounded
  refine ⟨h.start,h.count,?_,fun i rs hi => ?_⟩
  · -- all slabs but the last one are whole
    by_contra hmany
    have hlast : sessions.length-1 < sessions.length := by omega
    have hbefore : sessions.length-2 < sessions.length := by omega
    have hwhole : ¬io.data.length < (sessions.length-2+1)*slabSize := by
      intro hpast
      have hend := (h.past _ _ (List.getElem?_eq_getElem hbefore) hpast).2
      omega
    have hle := Nat.le_mul_of_pos_right (sessions.length-2+1) h.positive
    omega
  · have hrs := List.mem_of_getElem? hi
    by_cases hwhole : (i+1)*slabSize ≤ io.data.length
    · exact Or.inl (h.getSlab hi hwhole (fun r hr => Nat.le_of_lt_succ (hshort rs hrs r hr)))
    · obtain ⟨hnil,hlast⟩ := h.past i rs hi (not_le.mp hwhole)
      have hout : i ≥ io.maxIndex := by
        rw [h.maxIndex]
        exact Nat.le_of_lt_succ ((Nat.div_lt_iff_lt_mul h.positive).mpr (not_le.mp hwhole))
      exact Or.inr ⟨hnil,hlast,by simp [MemIo.getSlab,hout]⟩

/-- The search finds nothing where there is no record of the sequence, and otherwise a cursor from which a loop
gets just the records of the sequence, and then the end. -/
def FindsSuffix (st : Storage slabSize) (log : List Record) (s : U64) : Prop :=
  (st.getCursorFromSequence s = .ok none ↔ ∀ r ∈ log, r.maxSequence < s) ∧
    ((∃ r ∈ log, s ≤ r.maxSequence) → ∃ cursor, st.getCursorFromSequence s = .ok (some cursor) ∧
      Reads st cursor ((log.filter (fun r => decide (s ≤ r.maxSequence))).map Record.data))

omit [Target] [RecordCodec] in
/-- In a sorted log the records of a sequence are the last ones. -/
theorem split_at_sequence {log : List Record} {s : U64} (hsorted : (log.map Record.maxSequence).Pairwise (· ≤ ·))
    (hsome : ∃ r ∈ log, s ≤ r.maxSequence) : ∃ pre r post, log = pre ++ r::post ∧
      (∀ x ∈ pre, x.maxSequence < s) ∧ s ≤ r.maxSequence ∧
      log.filter (fun r => decide (s ≤ r.maxSequence)) = r::post := by
  induction log with
  | nil => simp at hsome
  | cons x log ih =>
    rw [List.map_cons,List.pairwise_cons] at hsorted
    obtain ⟨hhead,htail⟩ := hsorted
    by_cases hx : s ≤ x.maxSequence
    · have hall : ∀ y ∈ log, s ≤ y.maxSequence := fun y hy => hx.trans (hhead _ (List.mem_map_of_mem hy))
      refine ⟨[],x,log,rfl,by simp,hx,?_⟩
      rw [List.filter_cons_of_pos (by simpa using hx),List.filter_eq_self.mpr (fun y hy => by simpa using hall y hy)]
    · have hlater : ∃ r ∈ log, s ≤ r.maxSequence := by
        obtain ⟨r,hr,hle⟩ := hsome
        rcases List.mem_cons.mp hr with rfl | hr
        · exact absurd hle hx
        · exact ⟨r,hr,hle⟩
      obtain ⟨pre,r,post,hlog,hpre,hr,hfilter⟩ := ih htail hlater
      refine ⟨x::pre,r,post,by rw [hlog]; rfl,fun y hy => ?_,hr,?_⟩
      · rcases List.mem_cons.mp hy with rfl | hy
        · exact not_le.mp hx
        · exact hpre y hy
      · rw [List.filter_cons_of_neg (by simpa using hx),hfilter]

/-- Where the search finds a record of the sequence, and what lies on either side of it. -/
theorem Shows.finds (h : Shows st.io sessions) {s : U64}
    (hsorted : (sessions.flatten.map Record.maxSequence).Pairwise (· ≤ ·))
    (hsome : ∃ r ∈ sessions.flatten, s ≤ r.maxSequence) : ∃ j p r q rest,
      st.getCursorFromSequence s = .ok (some (cursorAfter j p)) ∧ sessions.drop j = (p ++ r::q)::rest ∧
      (∀ x ∈ (sessions.take j).flatten, x.maxSequence < s) ∧ s ≤ r.maxSequence ∧
      sessions.flatten.filter (fun r => decide (s ≤ r.maxSequence)) = r::(q ++ rest.flatten) := by
  obtain ⟨pre,r,post,hlog,hpre,hr,hfilter⟩ := split_at_sequence hsorted hsome
  obtain ⟨j,p,q,rest,hscan,hdrop,hpost⟩ := h.scan_found (fun record => decide (record.maxSequence ≥ s)) hlog
    (fun x hx => by simpa using hpre x hx) (by simpa using hr)
  have hbefore : pre = (sessions.take j).flatten ++ p := by
    have hboth := hlog
    rw [←List.take_append_drop j sessions,hdrop,hpost] at hboth
    simp only [List.flatten_append,List.flatten_cons,List.append_assoc,List.cons_append] at hboth
    rw [←List.append_assoc] at hboth
    exact (List.append_cancel_right hboth).symm
  refine ⟨j,p,r,q,rest,hscan,hdrop,fun x hx => hpre x ?_,hr,by rw [hfilter,hpost]⟩
  rw [hbefore]
  exact List.mem_append_left _ hx

/-- Behind a record of the sequence a session without a record stops the loop. -/
theorem FindsSuffix.empty_before {s : U64} (hfinds : FindsSuffix st sessions.flatten s) (h : Shows st.io sessions)
    (hsorted : (sessions.flatten.map Record.maxSequence).Pairwise (· ≤ ·)) {before after : List (List Record)}
    (hsplit : sessions = before ++ []::after) : ∀ r ∈ before.flatten, r.maxSequence < s := by
  intro x hx
  by_contra hle
  have hsome : ∃ r ∈ sessions.flatten, s ≤ r.maxSequence := by
    refine ⟨x,?_,not_lt.mp hle⟩
    rw [hsplit,List.flatten_append]
    exact List.mem_append_left _ hx
  obtain ⟨j,p,r,q,rest,hcursor,hdrop,hbefore,_⟩ := h.finds hsorted hsome
  obtain ⟨cursor,hfound,hreads⟩ := hfinds.2 hsome
  rw [hcursor] at hfound
  cases hfound
  -- the slab without a record lies behind the one the loop starts in
  have hlater : j < before.length := by
    by_contra hearly
    have hfirst : before <+: sessions.take j := by
      rw [List.prefix_take_iff]
      exact ⟨⟨_,hsplit.symm⟩,not_lt.mp hearly⟩
    obtain ⟨rs,hrs,hxrs⟩ := List.mem_flatten.mp hx
    exact hle (hbefore x (List.mem_flatten.mpr ⟨rs,hfirst.subset hrs,hxrs⟩))
  have hrest : rest = before.drop (j+1) ++ []::after := by
    have hnext := congrArg List.tail hdrop
    rw [List.tail_drop,hsplit,List.drop_append_of_le_length hlater] at hnext
    exact hnext.symm
  exact h.not_reads hdrop (by rw [hrest]; simp) _ hreads

/-- The search goes as it should exactly where no session without a record was committed behind a record of the
sequence. -/
theorem cursor_finds_suffix_iff {n : Nat} (h : Stored (List.replicate n 0) sessions st)
    (hshort : ∀ rs ∈ sessions, ∀ r ∈ rs, (toBytes r).length < 2^32)
    (hsorted : (sessions.flatten.map Record.maxSequence).Pairwise (· ≤ ·)) (s : U64) :
    FindsSuffix st sessions.flatten s ↔
      ∀ before after, sessions = before ++ []::after → ∀ r ∈ before.flatten, r.maxSequence < s := by
  have hlays := h.lays.1
  have hshows := hlays.shows hshort
  refine ⟨fun hfinds before after hsplit => hfinds.empty_before hshows hsorted hsplit,fun hcond => ?_⟩
  by_cases hsome : ∃ r ∈ sessions.flatten, s ≤ r.maxSequence
  · obtain ⟨j,p,r,q,rest,hcursor,hdrop,_,hr,hfilter⟩ := hshows.finds hsorted hsome
    have hreads := hshows.reads hdrop (by simp) (fun rs hrs hnil => ?_)
    · refine ⟨?_,fun _ => ⟨_,hcursor,by rw [hfilter]; simpa using hreads⟩⟩
      rw [hcursor]
      refine iff_of_false (by simp) (fun hall => ?_)
      obtain ⟨x,hx,hle⟩ := hsome
      exact absurd (hall x hx) (not_lt.mpr hle)
    · subst hnil
      obtain ⟨a,b,rfl⟩ := List.append_of_mem hrs
      have hlt := hcond (sessions.take j ++ (p ++ r::q)::a) b
        (by rw [List.append_assoc,List.cons_append,←hdrop,List.take_append_drop]) r (by simp)
      exact absurd hlt (not_lt.mpr hr)
  · -- no record is that far on
    have hnone : ∀ r ∈ sessions.flatten, r.maxSequence < s :=
      fun r hr => not_le.mp (fun hle => hsome ⟨r,hr,hle⟩)
    have hscan : st.getCursorFromSequence s = .ok none :=
      hshows.scan_none h.blank hlays.bounded (fun r hr => by simpa using hnone r hr)
    exact ⟨iff_of_true hscan hnone,fun hex => absurd hex hsome⟩

end

def fourRecords : List (List Record) :=
  [[⟨1,0,1,⟨Id.ofByte 1⟩,[7]⟩,⟨2,1,2,⟨Id.ofByte 1⟩,[8]⟩],[⟨3,2,3,⟨Id.ofByte 2⟩,[9]⟩,⟨5,3,5,⟨Id.ofByte 2⟩,[10]⟩]]

/-- The search for the second record of the first slab finds it and all behind it, in both slabs. -/
theorem cursor_finds_suffix_two : ∃ st : Storage 128, Stored (List.replicate 256 0) fourRecords st ∧
    FindsSuffix st fourRecords.flatten 2 := by
  obtain ⟨⟨taken1,st1⟩,hs1,hrest⟩ := Option.bind_eq_some_iff.mp (show ((blankStorage 128 256).session
    (fourRecords.headD [])).bind (fun first => (first.2.session (fourRecords.getLastD [])).map
      (fun second => (first.1,second.1))) = some (fourRecords.headD [],fourRecords.getLastD []) by decide +kernel)
  obtain ⟨⟨taken2,st2⟩,hs2,hsame⟩ := Option.map_eq_some_iff.mp hrest
  obtain ⟨rfl,rfl⟩ := Prod.mk.inj hsame
  have h : Stored (List.replicate 256 0) fourRecords st2 :=
    ((blankStorage_stored (by decide) (by decide)).session hs1).session hs2
  refine ⟨st2,h,(cursor_finds_suffix_iff h (by decide) (by decide) 2).mpr (fun before after hsplit => ?_)⟩
  have hmem : ([] : List Record) ∈ fourRecords := by
    rw [hsplit]
    simp
  exact absurd hmem (by decide)

/-- With an empty slab behind it the loop ends in an error, and a record of 2^32 bytes is not found at all. -/
theorem cursor_finds_suffix_fails :
    (∃ st : Storage 64, Stored (List.replicate 128 0) [[tinyRecord],[]] st ∧
      ¬FindsSuffix st [[tinyRecord],[]].flatten 1) ∧
    ∃ st : Storage (2^32+16), Stored (List.replicate (2^32+16) 0) [[giantRecord]] st ∧
      ¬FindsSuffix st [[giantRecord]].flatten 0 := by
  constructor
  · obtain ⟨_,st,_,h⟩ := tiny_then_empty
    have hshows := h.lays.1.shows (fun rs hrs r hr => by
      have hr' : r ∈ [[tinyRecord],[]].flatten := List.mem_flatten.mpr ⟨rs,hrs,hr⟩
      rw [List.mem_singleton.mp (show r ∈ [tinyRecord] from hr')]
      decide)
    refine ⟨st,h,fun hfinds => ?_⟩
    have hsplit : [[tinyRecord],[]] = [[tinyRecord]] ++ []::[] := rfl
    have hlt := hfinds.empty_before hshows (by decide) hsplit tinyRecord (by simp)
    exact absurd hlt (by decide)
  · have hsize : (slabBytes [giantRecord]).length = 2^32+16 := by
      rw [slabBytes_single,giantRecord_length]
      decide
    have hbound : (slabBytes [giantRecord]).length ≤ isizeMax := by
      rw [hsize]
      decide
    obtain ⟨st,hwritten,hnone⟩ := giant_lost hbound giantRecord_length hsize
    refine ⟨st,hwritten.stored,fun hfinds => ?_⟩
    have hmem : giantRecord ∈ [[giantRecord]].flatten :=
      List.mem_flatten.mpr ⟨[giantRecord],List.mem_singleton.mpr rfl,List.mem_singleton.mpr rfl⟩
    exact absurd (hfinds.1.mp hnone giantRecord hmem) (not_lt.mpr (Fin.zero_le _))

end Finder
