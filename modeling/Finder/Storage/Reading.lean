import Finder.Storage.Sessions

namespace Finder

variable [Target] {slabSize : Nat}

/-- A loop over the storage that starts at the cursor gets these bytes, one after the other. -/
inductive Reads [Postcard Record] (st : Storage slabSize) : Cursor → List Bytes → Prop
  | stop (cursor : Cursor) (h : st.read cursor = .ok none) : Reads st cursor []
  | next (cursor next : Cursor) (data : Bytes) (rest : List Bytes)
      (h : st.read cursor = .ok (some (data,next))) (hrest : Reads st next rest) :
      Reads st cursor (data::rest)

theorem Reads.readFrom [Postcard Record] {st : Storage slabSize} {cursor : Cursor} {ds : List Bytes}
    (h : Reads st cursor ds) (fuel : Nat) (hfuel : ds.length < fuel) :
    st.readFrom fuel cursor = .ok ds := by
  induction h generalizing fuel with
  | stop cursor h =>
    cases fuel with
    | zero => omega
    | succ fuel => simp [Storage.readFrom,h]
  | next cursor next data rest h hrest ih =>
    cases fuel with
    | zero => omega
    | succ fuel =>
      simp only [List.length_cons] at hfuel
      simp [Storage.readFrom,h,ih fuel (by omega)]

theorem Reads.after_read [Postcard Record] {st : Storage slabSize} {cursor next : Cursor} {data : Bytes}
    {ds : List Bytes} (h : Reads st cursor ds) (hread : st.read cursor = .ok (some (data,next))) :
    ∃ rest, ds = data::rest ∧ Reads st next rest := by
  cases h with
  | stop _ hstop =>
    rw [hread] at hstop
    cases hstop
  | next _ _ _ rest hread' hrest =>
    rw [hread] at hread'
    cases hread'
    exact ⟨rest,rfl,hrest⟩

variable [RecordCodec]

/-- What reading sees of the memory: a slab for each session, but for one without a record that was counted
behind the whole slabs. -/
structure Shows (io : MemIo slabSize) (sessions : List (List Record)) : Prop where
  start : io.startOffset = 0
  count : io.slabCount = sessions.length
  few : sessions.length < usizeMax
  slabs : ∀ i rs, sessions[i]? = some rs → (∃ slab, io.getSlab i = .ok slab ∧ SlabHolds slab i rs) ∨
    (rs = [] ∧ i+1 = sessions.length ∧ io.getSlab i = .err .outOfBounds)

theorem Holds.shows {io : MemIo slabSize} {sessions : List (List Record)} (h : Holds io sessions) :
    Shows io sessions :=
  ⟨h.start,h.count,h.length_lt,fun _ _ hi => Or.inl (h.getSlab hi)⟩

section ReadSlab

variable {st : Storage slabSize} {sessions : List (List Record)} {i : Nat} {p q : List Record}
  {ss : List (List Record)}

/-- A slab can be opened unless it is the last one and has no record. -/
theorem Shows.getSlab {io : MemIo slabSize} (h : Shows io sessions) (hi : sessions[i]? = some p)
    (hthere : p ≠ [] ∨ i+1 < sessions.length) : ∃ slab, io.getSlab i = .ok slab ∧ SlabHolds slab i p := by
  rcases h.slabs i p hi with hslab | ⟨hnil,hlast,_⟩
  · exact hslab
  · rcases hthere with hne | hlt
    · exact absurd hnil hne
    · omega

theorem Shows.read_next (h : Shows st.io sessions) {r : Record} (hi : sessions[i]? = some (p ++ r::q)) :
    st.read (cursorAfter i p) = .ok (some (r.data,cursorAfter i (p ++ [r]))) := by
  obtain ⟨slab,hslab,hholds⟩ := h.getSlab hi (Or.inl (by simp))
  have hread := hholds.read_next
  simp only [Storage.read]
  rw [show (cursorAfter i p).slab = i from rfl,hslab,Outcome.ok_bind,hread]
  rfl

theorem Shows.checkedNext (h : Shows st.io sessions) (hi : sessions[i]? = some p) :
    checkedAdd usizeMax i 1 = some (i+1) := by
  have hlast := (List.getElem?_eq_some_iff.mp hi).1
  have hfew := h.few
  exact checkedAdd_eq_some.mpr ⟨by omega,rfl⟩

theorem Shows.read_slab_end (h : Shows st.io sessions) (hi : sessions[i]? = some p) {r : Record}
    (hn : sessions[i+1]? = some (r::q)) :
    st.read (cursorAfter i p) = .ok (some (r.data,cursorAfter (i+1) [r])) := by
  have hlast := (List.getElem?_eq_some_iff.mp hn).1
  obtain ⟨slab,hslab,hholds⟩ := h.getSlab hi (Or.inr hlast)
  obtain ⟨slab',hslab',hholds'⟩ := h.getSlab hn (Or.inl (by simp))
  have hcount := h.count
  have hnext := h.checkedNext hi
  have hread := SlabHolds.read_next (p := []) hholds'
  simp only [Storage.read]
  rw [show (cursorAfter i p).slab = i from rfl,hslab,Outcome.ok_bind,hholds.read_end,Outcome.ok_bind]
  simp only [hnext]
  rw [if_neg (by omega),hslab',Outcome.ok_bind,hholds'.getHead,hread]
  rfl

theorem Shows.read_end (h : Shows st.io sessions) (hi : sessions[i]? = some p) (hne : p ≠ [])
    (hlast : i+1 = sessions.length) : st.read (cursorAfter i p) = .ok none := by
  obtain ⟨slab,hslab,hholds⟩ := h.getSlab hi (Or.inl hne)
  have hcount := h.count
  have hnext := h.checkedNext hi
  simp only [Storage.read]
  rw [show (cursorAfter i p).slab = i from rfl,hslab,Outcome.ok_bind,hholds.read_end,Outcome.ok_bind]
  simp only [hnext]
  rw [if_pos (by omega)]

/-- A slab without a record is not passed over. -/
theorem Shows.read_empty (h : Shows st.io sessions) (hi : sessions[i]? = some p) (hn : sessions[i+1]? = some []) :
    ∃ e, st.read (cursorAfter i p) = .err e := by
  have hlast := (List.getElem?_eq_some_iff.mp hn).1
  obtain ⟨slab,hslab,hholds⟩ := h.getSlab hi (Or.inr hlast)
  have hcount := h.count
  have hnext := h.checkedNext hi
  simp only [Storage.read]
  rw [show (cursorAfter i p).slab = i from rfl,hslab,Outcome.ok_bind,hholds.read_end,Outcome.ok_bind]
  simp only [hnext]
  rw [if_neg (by omega)]
  rcases h.slabs (i+1) [] hn with ⟨slab',hslab',hholds'⟩ | ⟨_,_,hout⟩
  · exact ⟨.unreachable,by rw [hslab',Outcome.ok_bind,hholds'.getHead,hholds'.read_end]; rfl⟩
  · exact ⟨.outOfBounds,by rw [hout]; rfl⟩

omit [Target] [RecordCodec] in
theorem getElem?_of_drop {sessions : List (List Record)} {rs : List Record}
    (h : sessions.drop i = rs::ss) : sessions[i]? = some rs ∧ sessions.drop (i+1) = ss := by
  constructor
  · have h0 := congrArg (fun l => l[0]?) h
    simpa [List.getElem?_drop] using h0
  · rw [←List.drop_drop,h]
    rfl

/-- From inside a slab a loop gets the rest of the slab and then the later slabs, where each has a record. -/
theorem Shows.reads (h : Shows st.io sessions) (hdrop : sessions.drop i = (p ++ q)::ss) (hne : p ++ q ≠ [])
    (hfull : ∀ rs ∈ ss, rs ≠ []) : Reads st (cursorAfter i p) ((q ++ ss.flatten).map Record.data) := by
  induction ss generalizing i p q with
  | nil =>
    obtain ⟨hi,hrest⟩ := getElem?_of_drop hdrop
    induction q generalizing p with
    | nil =>
      rw [List.append_nil] at hi hne
      have hlen := List.drop_eq_nil_iff.mp hrest
      have hlt := (List.getElem?_eq_some_iff.mp hi).1
      exact .stop _ (h.read_end hi hne (by omega))
    | cons r q ih =>
      have happ : p ++ r::q = (p ++ [r]) ++ q := by simp
      exact .next _ _ _ _ (h.read_next hi) (ih (happ ▸ hdrop) (happ ▸ hne) (happ ▸ hi))
  | cons rs ss ihs =>
    obtain ⟨hi,hrest⟩ := getElem?_of_drop hdrop
    have hlater : ∀ rs' ∈ ss, rs' ≠ [] := fun rs' hrs' => hfull rs' (List.mem_cons_of_mem _ hrs')
    induction q generalizing p with
    | nil =>
      rw [List.append_nil] at hi
      obtain ⟨hn,_⟩ := getElem?_of_drop hrest
      cases rs with
      | nil => exact absurd rfl (hfull [] List.mem_cons_self)
      | cons r rs => exact .next _ _ _ _ (h.read_slab_end hi hn) (ihs (p := [r]) (q := rs) hrest (by simp) hlater)
    | cons r q ih =>
      have happ : p ++ r::q = (p ++ [r]) ++ q := by simp
      exact .next _ _ _ _ (h.read_next hi) (ih (happ ▸ hdrop) (happ ▸ hne) (happ ▸ hi))

/-- A loop that comes to a slab without a record does not end. -/
theorem Shows.not_reads (h : Shows st.io sessions) (hdrop : sessions.drop i = (p ++ q)::ss) (hempty : [] ∈ ss)
    (ds : List Bytes) : ¬Reads st (cursorAfter i p) ds := by
  intro hreads
  induction ss generalizing i p q ds with
  | nil => cases hempty
  | cons rs ss ihs =>
    obtain ⟨hi,hrest⟩ := getElem?_of_drop hdrop
    induction q generalizing p ds with
    | nil =>
      rw [List.append_nil] at hi
      obtain ⟨hn,_⟩ := getElem?_of_drop hrest
      cases rs with
      | nil =>
        obtain ⟨e,herr⟩ := h.read_empty hi hn
        cases hreads with
        | stop _ hstop =>
          rw [herr] at hstop
          cases hstop
        | next _ _ _ _ hread _ =>
          rw [herr] at hread
          cases hread
      | cons r rs =>
        have hmem : [] ∈ ss := by simpa using hempty
        obtain ⟨ds,_,hlater⟩ := hreads.after_read (h.read_slab_end hi hn)
        exact ihs (p := [r]) (q := rs) hrest hmem ds hlater
    | cons r q ih =>
      have happ : p ++ r::q = (p ++ [r]) ++ q := by simp
      obtain ⟨ds,_,hlater⟩ := hreads.after_read (h.read_next hi)
      exact ih (happ ▸ hdrop) ds hlater (happ ▸ hi)

theorem Holds.nonempty (h : Holds st.io sessions) {rs : List Record} (hrs : rs ∈ sessions) : rs ≠ [] := by
  obtain ⟨i,hi⟩ := List.getElem?_of_mem hrs
  exact (h.slabs i rs hi).nonempty

theorem Holds.reads (h : Holds st.io sessions) (hdrop : sessions.drop i = (p ++ q)::ss) :
    Reads st (cursorAfter i p) ((q ++ ss.flatten).map Record.data) := by
  have hmem : ∀ rs ∈ (p ++ q)::ss, rs ∈ sessions := fun rs hrs => List.mem_of_mem_drop (hdrop ▸ hrs)
  exact h.shows.reads hdrop (h.nonempty (hmem _ List.mem_cons_self))
    (fun rs hrs => h.nonempty (hmem rs (List.mem_cons_of_mem _ hrs)))

end ReadSlab

section Scan

variable {found : Record → Bool} {slab : Slab} {i : Nat} {p q : List Record}

theorem SlabHolds.scan_none (h : SlabHolds slab i (p ++ q)) (hq : ∀ x ∈ q, found x = false) (fuel : Nat) :
    Storage.scanSlab found slab fuel (cursorAfter i p) = .ok none := by
  induction q generalizing p fuel with
  | nil =>
    rw [List.append_nil] at h
    cases fuel with
    | zero => rfl
    | succ fuel => simp [Storage.scanSlab,h.read_end]
  | cons r q ih =>
    cases fuel with
    | zero => rfl
    | succ fuel =>
      have happ : p ++ r::q = (p ++ [r]) ++ q := by simp
      simp [Storage.scanSlab,h.read_next,hq r (by simp),
        ih (p := p ++ [r]) (happ ▸ h) (fun x hx => hq x (by simp [hx])) fuel]

theorem SlabHolds.scan_found {r : Record} {q' : List Record} (h : SlabHolds slab i (p ++ (q ++ r::q')))
    (hq : ∀ x ∈ q, found x = false) (hr : found r = true) (fuel : Nat) (hfuel : q.length < fuel) :
    Storage.scanSlab found slab fuel (cursorAfter i p) = .ok (some (cursorAfter i (p ++ q))) := by
  induction q generalizing p fuel with
  | nil =>
    cases fuel with
    | zero => omega
    | succ fuel => simp [Storage.scanSlab,SlabHolds.read_next h,hr]
  | cons x q ih =>
    cases fuel with
    | zero => omega
    | succ fuel =>
      have happ : p ++ (x::q ++ r::q') = (p ++ [x]) ++ (q ++ r::q') := by simp
      simp only [List.length_cons] at hfuel
      have hnext := ih (p := p ++ [x]) (happ ▸ h) (fun y hy => hq y (by simp [hy])) fuel (by omega)
      simp [Storage.scanSlab,SlabHolds.read_next (q := q ++ r::q') h,hq x (by simp),hnext]

variable {st : Storage slabSize} {sessions : List (List Record)}

/-- A scan stops at the first record it looks for. -/
theorem Shows.scanSlabs_found {io : MemIo slabSize} (h : Shows io sessions) {ss : List (List Record)}
    (hdrop : sessions.drop i = ss) {pre post : List Record} {r : Record}
    (hsplit : ss.flatten = pre ++ r::post) (hpre : ∀ x ∈ pre, found x = false) (hr : found r = true)
    (fuel : Nat) (hfuel : ss.length ≤ fuel) :
    ∃ j p q rest, Storage.scanSlabs found io fuel i = .ok (some (cursorAfter j p)) ∧
      sessions.drop j = (p ++ r::q)::rest ∧ post = q ++ rest.flatten := by
  induction ss generalizing i pre fuel with
  | nil => simp at hsplit
  | cons rs ss ih =>
    obtain ⟨hi,hrest⟩ := getElem?_of_drop hdrop
    obtain ⟨slab,hslab,hholds⟩ : ∃ slab, io.getSlab i = .ok slab ∧ SlabHolds slab i rs := by
      rcases h.slabs i rs hi with hslab | ⟨rfl,hlast,_⟩
      · exact hslab
      · -- behind the last slab nothing is found
        have hnil : ss = [] := by
          rw [←hrest]
          exact List.drop_eq_nil_iff.mpr (by omega)
        subst hnil
        simp at hsplit
    have hcount := hholds.count
    -- a slab without the record is passed over
    have hpast : ∀ pre', ss.flatten = pre' ++ r::post → (∀ x ∈ pre', found x = false) →
        (∀ x ∈ rs, found x = false) → ∃ j p q rest, Storage.scanSlabs found io fuel i =
          .ok (some (cursorAfter j p)) ∧ sessions.drop j = (p ++ r::q)::rest ∧ post = q ++ rest.flatten := by
      intro pre' hsplit' hpre' hrs
      have hnone := SlabHolds.scan_none (p := []) (q := rs) hholds hrs slab.count
      cases fuel with
      | zero => simp at hfuel
      | succ fuel =>
        obtain ⟨j,p,q,rest,hscan,hat⟩ := ih hrest hsplit' hpre' fuel (by simpa using hfuel)
        refine ⟨j,p,q,rest,?_,hat⟩
        rw [Storage.scanSlabs]
        simp only [hslab,hholds.getHead,hnone,Outcome.ok_bind]
        exact hscan
    rw [List.flatten_cons] at hsplit
    rcases List.append_eq_append_iff.mp hsplit with ⟨as,hpre',hpost⟩ | ⟨bs,hrs,hpost⟩
    · exact hpast as hpost (fun x hx => hpre x (by simp [hpre',hx])) (fun x hx => hpre x (by simp [hpre',hx]))
    · cases bs with
      | nil =>
        rw [List.append_nil] at hrs
        exact hpast [] hpost.symm (by simp) (fun x hx => hpre x (hrs ▸ hx))
      | cons b bs =>
        rw [List.cons_append] at hpost
        obtain ⟨rfl,htail⟩ := List.cons.inj hpost
        have hrlen : pre.length < slab.count := by
          rw [hcount,hrs,List.length_append,List.length_cons]
          omega
        have hslab' : SlabHolds slab i ([] ++ (pre ++ r::bs)) := by simpa [hrs] using hholds
        have hscan := hslab'.scan_found hpre hr slab.count hrlen
        refine ⟨i,pre,bs,ss,?_,by rw [hdrop,hrs],htail⟩
        rw [Storage.scanSlabs.eq_def]
        simp only [hslab,hholds.getHead,hscan,Outcome.ok_bind,List.nil_append]

theorem Shows.scan_found (h : Shows st.io sessions) (found : Record → Bool) {pre post : List Record} {r : Record}
    (hsplit : sessions.flatten = pre ++ r::post) (hpre : ∀ x ∈ pre, found x = false) (hr : found r = true) :
    ∃ j p q rest, st.scan found = .ok (some (cursorAfter j p)) ∧
      sessions.drop j = (p ++ r::q)::rest ∧ post = q ++ rest.flatten := by
  have hfew := h.few
  obtain ⟨j,p,q,rest,hscan,hat⟩ := h.scanSlabs_found (i := 0) List.drop_zero hsplit hpre hr usizeMax (by omega)
  exact ⟨j,p,q,rest,by simp [Storage.scan,MemIo.getHead,h.start,hscan],hat⟩

/-- A scan stops at the first record it looks for, and a loop from there gets that record and all
that follow it. -/
theorem Holds.scan_found (h : Holds st.io sessions) (found : Record → Bool) {pre post : List Record}
    {r : Record}
    (hsplit : sessions.flatten = pre ++ r::post) (hpre : ∀ x ∈ pre, found x = false)
    (hr : found r = true) :
    ∃ cursor, st.scan found = .ok (some cursor) ∧ Reads st cursor ((r::post).map Record.data) := by
  obtain ⟨j,p,q,rest,hscan,hdrop,hpost⟩ := h.shows.scan_found found hsplit hpre hr
  have hreads := h.reads hdrop
  rw [hpost]
  exact ⟨_,hscan,by simpa using hreads⟩

/-- A loop from the first record on gets all records, in the order they were written. -/
theorem Holds.first (h : Holds st.io sessions) (hne : sessions ≠ []) :
    ∃ cursor, st.getCursorFromSequence 0 = .ok (some cursor) ∧
      Reads st cursor (sessions.flatten.map Record.data) ∧
      (sessions.flatten.map Record.data).length < st.steps := by
  obtain ⟨rs,ss,rfl⟩ := List.exists_cons_of_ne_nil hne
  have hrs := (h.slabs 0 rs rfl).nonempty
  obtain ⟨r,qs,rfl⟩ := List.exists_cons_of_ne_nil hrs
  have hfirst : ((r::qs)::ss).flatten = [] ++ r::(qs ++ ss.flatten) := by simp
  obtain ⟨cursor,hscan,hreads⟩ := h.scan_found (fun record => decide (record.maxSequence ≥ 0)) hfirst
    (by simp) (by simp)
  have hlen := h.flatten_le
  refine ⟨cursor,hscan,by simpa using hreads,?_⟩
  simp only [Storage.steps,List.length_map]
  omega

/-- All records are read back, in the order they were written. -/
theorem Holds.records (h : Holds st.io sessions) (hne : sessions ≠ []) :
    st.records = .ok (sessions.flatten.map Record.data) := by
  obtain ⟨cursor,hcursor,hreads,hlen⟩ := h.first hne
  rw [Storage.records,hcursor,Outcome.ok_bind]
  exact hreads.readFrom _ hlen

end Scan

end Finder
