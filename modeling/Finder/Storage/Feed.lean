import Finder.Storage.RoundTrip

namespace Finder

variable {slabSize : Nat} {K : Type}

section At

variable {sessions more : List (List Record)} {cursor : Cursor} {n : Nat}

section

variable [RecordCodec]

/-- The cursor stands behind the first `n` records of the sessions. -/
def At (sessions : List (List Record)) (cursor : Cursor) (n : Nat) : Prop :=
  ∃ i p q, sessions[i]? = some (p ++ q) ∧ cursor = cursorAfter i p ∧ (sessions.take i).flatten.length+p.length = n

/-- More sessions leave it where it is. -/
theorem At.later (h : At sessions cursor n) : At (sessions ++ more) cursor n := by
  obtain ⟨i,p,q,hi,hcursor,hn⟩ := h
  have hlt := (List.getElem?_eq_some_iff.mp hi).1
  refine ⟨i,p,q,?_,hcursor,?_⟩
  · rwa [List.getElem?_append_left hlt]
  · rwa [List.take_append_of_le_length hlt.le]

end

/-- Behind a place in a slab come the rest of the slab and the later slabs. -/
theorem flatten_getElem? {i : Nat} {p q : List Record} (hi : sessions[i]? = some (p ++ q)) :
    sessions.flatten[(sessions.take i).flatten.length+p.length]? = (q ++ (sessions.drop (i+1)).flatten).head? := by
  obtain ⟨hlt,hget⟩ := List.getElem?_eq_some_iff.mp hi
  have hsplit : sessions.flatten = ((sessions.take i).flatten ++ p) ++ (q ++ (sessions.drop (i+1)).flatten) := by
    conv_lhs => rw [←List.take_append_drop i sessions,List.drop_eq_getElem_cons hlt,hget]
    simp
  rw [hsplit,←List.length_append,List.getElem?_append_right le_rfl,Nat.sub_self,List.head?_eq_getElem?]

variable [Target] [RecordCodec] {st : Storage slabSize}

/-- From a cursor the record behind it is read, or there is none. -/
theorem At.read (h : At sessions cursor n) (hholds : Holds st.io sessions) :
    (∃ r next, sessions.flatten[n]? = some r ∧ st.read cursor = .ok (some (r.data,next)) ∧ At sessions next (n+1)) ∨
    (sessions.flatten[n]? = none ∧ st.read cursor = .ok none) := by
  obtain ⟨i,p,q,hi,rfl,rfl⟩ := h
  have hbehind := flatten_getElem? hi
  obtain ⟨hlt,hget⟩ := List.getElem?_eq_some_iff.mp hi
  cases q with
  | cons r q =>
    refine Or.inl ⟨r,_,hbehind,hholds.shows.read_next hi,i,p ++ [r],q,?_,rfl,?_⟩
    · rw [hi]
      simp
    · rw [List.length_append,List.length_singleton,Nat.add_assoc]
  | nil =>
    rw [List.append_nil] at hi
    rw [List.nil_append] at hbehind
    cases hn : sessions[i+1]? with
    | none =>
      have hlen := List.getElem?_eq_none_iff.mp hn
      rw [List.drop_eq_nil_of_le hlen] at hbehind
      exact Or.inr ⟨hbehind,hholds.shows.read_end hi (hholds.nonempty (List.mem_of_getElem? hi)) (by omega)⟩
    | some rs =>
      obtain ⟨hlt',hget'⟩ := List.getElem?_eq_some_iff.mp hn
      obtain ⟨r,rs,rfl⟩ := List.exists_cons_of_ne_nil (hholds.nonempty (List.mem_of_getElem? hn))
      rw [List.drop_eq_getElem_cons hlt',hget'] at hbehind
      refine Or.inl ⟨r,_,hbehind,hholds.shows.read_slab_end hi hn,i+1,[r],rs,hn,rfl,?_⟩
      rw [List.append_nil] at hget
      rw [List.take_succ_eq_append_getElem hlt,hget]
      simp

/-- A cursor that is asked for stands before the first record that is looked for. -/
theorem Holds.scan_at (hholds : Holds st.io sessions) (hblank : st.io.Blank) {found : Record → Bool}
    (hscan : st.scan found = .ok (some cursor)) : At sessions cursor (sessions.flatten.findIdx found) := by
  cases hfind : sessions.flatten.find? found with
  | none =>
    have hnone := hholds.scan_none hblank (fun x hx => by simpa using List.find?_eq_none.mp hfind x hx)
    rw [hnone] at hscan
    cases hscan
  | some r =>
    obtain ⟨hr,pre,post,hsplit,hpre⟩ := List.find?_eq_some_iff_append.mp hfind
    replace hpre : ∀ x ∈ pre, found x = false := fun x hx => by simpa using hpre x hx
    obtain ⟨j,p,q,rest,hat,hdrop,hpost⟩ := hholds.shows.scan_found found hsplit hpre hr
    rw [hat] at hscan
    cases hscan
    obtain ⟨hj,_⟩ := getElem?_of_drop hdrop
    refine ⟨j,p,r::q,hj,rfl,?_⟩
    have hwhole : sessions.flatten = (sessions.take j).flatten ++ (p ++ r::q ++ rest.flatten) := by
      conv_lhs => rw [←List.take_append_drop j sessions,hdrop]
      simp
    have hlen := congrArg List.length (hwhole.symm.trans hsplit)
    rw [hsplit,List.findIdx_append,List.findIdx_eq_length_of_false hpre,if_neg (lt_irrefl _),List.findIdx_cons,hr]
    simp only [hpost,List.length_append,List.length_cons] at hlen
    simp only [cond_true]
    omega

end At

section Feeds

/-- A cursor in use: how many records were before it when it was asked for, and what has been read from it. -/
structure Reader where
  cursor : Cursor
  skipped : Nat
  got : List Bytes

variable [Target] [DecidableEq K]

/-- The storage while sessions write to it and readers read from it, in any order. -/
inductive Feeds [Postcard Record] (data : Bytes) :
    List (List Record) → Storage slabSize → (K → Option Reader) → Prop
  | start (io : MemIo slabSize) (hbound : data.length ≤ isizeMax) (h : MemIo.new data = .ok io) :
      Feeds data [] ⟨io⟩ (fun _ => none)
  | commit (sessions : List (List Record)) (st st' : Storage slabSize) (readers : K → Option Reader)
      (attempts taken : List Record) (hrun : Feeds data sessions st readers)
      (h : st.session attempts = some (taken,st')) (hne : taken ≠ []) : Feeds data (sessions ++ [taken]) st' readers
  | drop (sessions : List (List Record)) (st st' : Storage slabSize) (readers : K → Option Reader)
      (attempts : List Record) (hrun : Feeds data sessions st readers) (h : st.abandon attempts = some st') :
      Feeds data sessions st' readers
  | ask (sessions : List (List Record)) (st : Storage slabSize) (readers : K → Option Reader) (k : K)
      (found : Record → Bool) (cursor : Cursor) (hrun : Feeds data sessions st readers)
      (h : st.scan found = .ok (some cursor)) :
      Feeds data sessions st (Function.update readers k (some ⟨cursor,sessions.flatten.findIdx found,[]⟩))
  | read (sessions : List (List Record)) (st : Storage slabSize) (readers : K → Option Reader) (k : K)
      (reader : Reader) (d : Bytes) (next : Cursor) (hrun : Feeds data sessions st readers)
      (hk : readers k = some reader) (h : st.read reader.cursor = .ok (some (d,next))) :
      Feeds data sessions st (Function.update readers k (some ⟨next,reader.skipped,reader.got ++ [d]⟩))

theorem Feeds.written [Postcard Record] {data : Bytes} {sessions : List (List Record)} {st : Storage slabSize}
    {readers : K → Option Reader} (h : Feeds data sessions st readers) : Written data sessions st := by
  induction h with
  | start io hbound h => exact .start io hbound h
  | commit sessions st st' readers attempts taken _ h hne ih => exact .commit sessions st st' attempts taken ih h hne
  | drop sessions st st' readers attempts _ h ih => exact .drop sessions st st' attempts ih h
  | ask sessions st readers k found cursor _ _ ih => exact ih
  | read sessions st readers k reader d next _ _ _ ih => exact ih

variable [RecordCodec] {n : Nat} {sessions : List (List Record)} {st : Storage slabSize} {readers : K → Option Reader}

/-- What a reader has got are the records from where it was asked for to where it stands. -/
structure Reader.Follows (reader : Reader) (sessions : List (List Record)) : Prop where
  stands : At sessions reader.cursor (reader.skipped+reader.got.length)
  got : reader.got <+: (sessions.flatten.drop reader.skipped).map Record.data

theorem Feeds.follows (h : Feeds (List.replicate n 0) sessions st readers)
    (hshort : ∀ rs ∈ sessions, ∀ r ∈ rs, (toBytes r).length < 2^32) :
    ∀ k reader, readers k = some reader → reader.Follows sessions := by
  induction h with
  | start io hbound h =>
    intro k reader hk
    cases hk
  | commit sessions st st' readers attempts taken hrun h hne ih =>
    intro k reader hk
    obtain ⟨hstands,hgot⟩ := ih (fun rs hrs => hshort rs (List.mem_append_left _ hrs)) k reader hk
    refine ⟨hstands.later,hgot.trans ?_⟩
    rw [List.flatten_append,List.drop_append,List.map_append]
    exact List.prefix_append _ _
  | drop sessions st st' readers attempts hrun h ih => exact ih hshort
  | ask sessions st readers k found cursor hrun h ih =>
    obtain ⟨hholds,hblank⟩ := hrun.written.holds hshort
    intro k' reader hk
    by_cases hsame : k' = k
    · subst hsame
      rw [Function.update_self] at hk
      cases hk
      exact ⟨hholds.scan_at hblank h,List.nil_prefix⟩
    · rw [Function.update_of_ne hsame] at hk
      exact ih hshort k' reader hk
  | read sessions st readers k reader d next hrun hown h ih =>
    obtain ⟨hholds,_⟩ := hrun.written.holds hshort
    intro k' reader' hk
    by_cases hsame : k' = k
    · subst hsame
      rw [Function.update_self] at hk
      cases hk
      obtain ⟨hstands,hgot⟩ := ih hshort k' reader hown
      rcases hstands.read hholds with ⟨r,next',hr,hread,hat⟩ | ⟨_,hread⟩
      · rw [h] at hread
        cases hread
        refine ⟨by rw [List.length_append,List.length_singleton,←Nat.add_assoc]; exact hat,?_⟩
        obtain ⟨rest,hrest⟩ := hgot
        have hfirst : (reader.got ++ rest)[reader.got.length]? = some r.data := by
          rw [hrest,List.getElem?_map,List.getElem?_drop,hr]
          rfl
        rw [List.getElem?_append_right le_rfl,Nat.sub_self] at hfirst
        cases rest with
        | nil => cases hfirst
        | cons d rest =>
          cases hfirst
          exact ⟨rest,by rw [List.append_assoc,List.singleton_append]; exact hrest⟩
      · rw [h] at hread
        cases hread
    · rw [Function.update_of_ne hsame] at hk
      exact ih hshort k' reader' hk

end Feeds

end Finder
