import Finder.Channel.Convergence
import Mathlib.Data.List.MinMax

namespace Finder

namespace ChannelState

variable {maxNodes : Nat} {P T : Type}

/-- Perform the operations one after the other, whatever comes of them. The values of the receives that
succeed are collected. -/
def performAll : List (TableOp P T) → ChannelState maxNodes P → List U64 × ChannelState maxNodes P
  | [],st => ([],st)
  | .addNode node nodeKey::ops,st => performAll ops (addNode node nodeKey st).2
  | .receive sender message id::ops,st =>
    match receive sender message id st with
    | (.ok maxSequence,st') => (maxSequence::(performAll ops st').1,(performAll ops st').2)
    | (_,st') => performAll ops st'

/-- The largest sequence in the table. -/
def largest (st : ChannelState maxNodes P) : Nat :=
  (st.nodes.toList.map (fun r => r.sequence.val)).foldr max 0

theorem le_largest {st : ChannelState maxNodes P} {r : NodeSequence P} (h : r ∈ st.nodes.toList) :
    r.sequence.val ≤ st.largest :=
  List.le_max_of_le (List.mem_map_of_mem h) (le_refl _)

theorem sequenceOf_le_largest (st : ChannelState maxNodes P) (n : NodeId) : st.sequenceOf n ≤ st.largest := by
  cases h : st.record n with
  | none => rw [sequenceOf_unknown h]; exact Nat.zero_le _
  | some r => rw [sequenceOf_eq h]; exact le_largest (record_mem h)

/-- The newest node has the largest sequence. -/
theorem Valid.largest_eq {st : ChannelState maxNodes P} (hv : st.Valid) {c : NodeSequence P}
    (hc : st.record st.newest = some c) : st.largest = c.sequence.val := by
  apply le_antisymm
  · apply List.max_le_of_forall_le
    intro x hx
    obtain ⟨r,hr,rfl⟩ := List.mem_map.mp hx
    have hle := hv.sequenceOf_le hc r.node
    rwa [sequenceOf_eq (hv.sorted.record_of_mem hr)] at hle
  · exact le_largest (record_mem hc)

theorem new_largest {initial : NodeId} {nodeKey : P} {st : ChannelState maxNodes P}
    (h : ChannelState.new initial nodeKey = .ok st) : st.largest = 0 := by
  have hc : st.record st.newest = some (freshRecord initial nodeKey) := by
    rw [new_record h,(new_eq_ok h).1,if_pos rfl]
  exact (new_valid h).largest_eq hc

section Steps

variable {st st' : ChannelState maxNodes P} {sender : NodeId} {message : Message T} {id : EnvelopeId}
  {maxSequence : U64}

/-- A message lies at most one above its cause, and so at most one above the table. -/
theorem Received.sequence_le (h : st.Received st' sender message id maxSequence) :
    message.sequence.val ≤ st.largest+1 := by
  obtain ⟨_,_,_,_,hcause⟩ := h.receivable
  have hle := st.sequenceOf_le_largest message.cause
  omega

theorem Received.largest_eq (hv : st.Valid) (h : st.Received st' sender message id maxSequence) :
    st'.largest = maxSequence.val ∧ maxSequence.val = max st.largest message.sequence.val := by
  obtain ⟨c,hc,hnewest,hmax⟩ := h.newest
  have hst := hv.largest_eq hc
  have hvalue : maxSequence.val = max st.largest message.sequence.val := by
    rw [hmax,hst]
    exact Monotone.map_max (fun _ _ h => h)
  refine ⟨?_,hvalue⟩
  obtain ⟨r,hr,hrec⟩ := h.records
  have hv' := h.valid hv
  obtain ⟨c',hc',_⟩ := hv'.newest
  rw [hv'.largest_eq hc',hvalue,hst]
  rw [hrec,hnewest] at hc'
  by_cases hgt : c.stamp < toLex (message.sequence,id)
  · rw [if_pos hgt,if_pos rfl] at hc'
    cases hc'
    have hle : c.sequence ≤ message.sequence := by
      rcases Prod.Lex.lt_iff.mp hgt with hlt | heq
      · exact le_of_lt hlt
      · exact le_of_eq heq.1
    exact (max_eq_right (Fin.le_def.mp hle)).symm
  · rw [if_neg hgt] at hc'
    have hle : message.sequence ≤ c.sequence :=
      not_lt.mp (fun hlt => hgt (Prod.Lex.lt_iff.mpr (Or.inl hlt)))
    split_ifs at hc' with hn
    · -- the newest node itself would have raised the stamp
      cases hc'
      obtain ⟨r',hr',hlt,_⟩ := h.receivable
      rw [hn,hc] at hr'
      cases hr'
      exact absurd hlt (not_lt.mpr hle)
    · rw [hc] at hc'
      cases hc'
      exact (max_eq_left (Fin.le_def.mp hle)).symm

theorem Added.largest_eq {node : NodeId} {nodeKey : P} (hv : st.Valid) (h : st.Added st' node nodeKey) :
    st'.largest = st.largest := by
  obtain ⟨c,hc,_⟩ := hv.newest
  have hne : node ≠ st.newest := fun he => by
    have hu := h.unknown
    rw [he,hc] at hu
    cases hu
  rw [hv.largest_eq hc,(h.valid hv).largest_eq (by rw [h.newest,h.records,if_neg hne,hc])]

/-- A sequence can only overflow from the greatest one. -/
theorem Valid.address_overflow (hv : st.Valid) {data : T} (h : st.address sender data = .err .sequenceOverFlow) :
    2^64-1 ≤ st.largest := by
  cases hr : st.record sender with
  | none =>
    obtain ⟨i,hi,_⟩ := hv.sorted.search_unknown hr
    simp [address,hi] at h
  | some r =>
    obtain ⟨i,hi,hir⟩ := hv.sorted.search_record hr
    obtain ⟨c,hcur,hc,hmax⟩ := hv.getCurrent_eq
    have hle : ¬c.sequence < r.sequence :=
      not_lt.mpr (NodeSequence.sequence_le_of_stamp_le (hmax sender r hr))
    cases hs : U64.checkedSucc c.sequence with
    | some s => simp [address,hi,hir,hcur,hle,hs] at h
    | none => rw [hv.largest_eq hc,U64.checkedSucc_eq_none.mp hs]

end Steps

section Runs

variable {st st' : ChannelState maxNodes P} {ops : List (TableOp P T)} {returned : List U64}

/-- Along a run the state stays valid, each success raises the largest sequence by at most one, and the
values that are returned climb up to it. -/
theorem Valid.performAll (hv : st.Valid) (h : performAll ops st = (returned,st')) :
    st'.Valid ∧ st.largest ≤ st'.largest ∧ st'.largest ≤ st.largest+returned.length ∧
      returned.Pairwise (· ≤ ·) ∧ ∀ m ∈ returned, st.largest ≤ m.val ∧ m.val ≤ st'.largest := by
  induction ops generalizing st returned with
  | nil =>
    cases h
    exact ⟨hv,Nat.le_refl _,Nat.le_refl _,List.Pairwise.nil,by simp⟩
  | cons op ops ih =>
    cases op with
    | addNode node nodeKey =>
      rw [ChannelState.performAll] at h
      rcases hv.sorted.addNode_cases node nodeKey with ⟨mid,hok,hadded⟩ | ⟨_,e,he⟩
      · rw [hok] at h
        rw [←hadded.largest_eq hv]
        exact ih (hadded.valid hv) h
      · rw [he] at h
        exact ih hv h
    | receive sender message id =>
      rw [ChannelState.performAll] at h
      rcases hv.receive_cases sender message id with ⟨m,mid,hok,hreceived⟩ | ⟨_,e,he⟩
      · rw [hok] at h
        rcases hrun : ChannelState.performAll ops mid with ⟨rest,last⟩
        simp only [hrun,Prod.mk.injEq] at h
        obtain ⟨rfl,rfl⟩ := h
        obtain ⟨hv',hup,hlen,hsorted,hwithin⟩ := ih (hreceived.valid hv) hrun
        obtain ⟨hmid,hmax⟩ := hreceived.largest_eq hv
        have hstep := hreceived.sequence_le
        rw [hmid] at hup hlen hwithin
        refine ⟨hv',by omega,by simp only [List.length_cons]; omega,?_,fun x hx => ?_⟩
        · exact List.pairwise_cons.mpr ⟨fun x hx => (hwithin x hx).1,hsorted⟩
        · rcases List.mem_cons.mp hx with rfl | hx
          · exact ⟨by omega,hup⟩
          · have hle := hwithin x hx
            exact ⟨by omega,hle.2⟩
      · rw [he] at h
        exact ih hv h

/-- Two members, one of which first forges a message with the greatest sequence there is. -/
def forgedRun : List (TableOp Nat Char) :=
  [.addNode ⟨Id.ofByte 2⟩ 20,.receive ⟨Id.ofByte 2⟩ ⟨⟨Id.ofByte 1⟩,0,0-1,'x'⟩ ⟨Id.ofByte 9⟩,
    .receive ⟨Id.ofByte 1⟩ ⟨⟨Id.ofByte 1⟩,0,1,'a'⟩ ⟨Id.ofByte 5⟩,
    .receive ⟨Id.ofByte 2⟩ ⟨⟨Id.ofByte 1⟩,0,2,'b'⟩ ⟨Id.ofByte 6⟩]

theorem forgedRun_returns : ∃ start st : ChannelState 2 Nat, ChannelState.new ⟨Id.ofByte 1⟩ 10 = .ok start ∧
    performAll forgedRun start = ([1,2],st) := by
  let start : ChannelState 2 Nat := ⟨⟨[freshRecord ⟨Id.ofByte 1⟩ 10],by decide⟩,⟨Id.ofByte 1⟩⟩
  have hreturned : (performAll forgedRun start).1 = [1,2] := by decide
  exact ⟨start,(performAll forgedRun start).2,rfl,Prod.ext hreturned rfl⟩

/-- No sender can run the sequences out: after some successful receives no sequence is above their number. -/
theorem sequences_not_exhausted {creator : NodeId} {creatorKey : P} {start : ChannelState maxNodes P}
    (hnew : ChannelState.new creator creatorKey = .ok start) (hrun : performAll ops start = (returned,st)) :
    (∀ r ∈ st.nodes.toList, r.sequence.val ≤ returned.length) ∧
      (∀ (sender : NodeId) (message : Message T) (id : EnvelopeId) (maxSequence : U64) st',
        receive sender message id st = (.ok maxSequence,st') → st'.largest ≤ st.largest+1) ∧
      ∀ (sender : NodeId) (data : T), st.address sender data = .err .sequenceOverFlow →
        2^64-1 ≤ returned.length := by
  obtain ⟨hv,_,hlen,_⟩ := (new_valid hnew).performAll hrun
  rw [new_largest hnew,Nat.zero_add] at hlen
  refine ⟨fun r hr => (le_largest hr).trans hlen,fun sender message id maxSequence st' hok => ?_,
    fun sender data hover => ?_⟩
  · have hreceived := hv.receive_ok hok
    obtain ⟨hlargest,hmax⟩ := hreceived.largest_eq hv
    have hstep := hreceived.sequence_le
    omega
  · have hfull := hv.address_overflow hover
    omega

theorem sequences_not_exhausted_forged : ∃ start st : ChannelState 2 Nat,
    ChannelState.new ⟨Id.ofByte 1⟩ 10 = .ok start ∧ performAll forgedRun start = ([1,2],st) ∧
      ∀ r ∈ st.nodes.toList, r.sequence.val ≤ 2 := by
  obtain ⟨start,st,hnew,hrun⟩ := forgedRun_returns
  exact ⟨start,st,hnew,hrun,(sequences_not_exhausted hnew hrun).1⟩

/-- In every state of a run the table is sorted and the newest node has the greatest stamp, so that the
current node is found and a receive returns the largest sequence, which never falls. -/
theorem representation {creator : NodeId} {creatorKey : P} {start : ChannelState maxNodes P}
    (hnew : ChannelState.new creator creatorKey = .ok start) (hrun : performAll ops start = (returned,st)) :
    st.Sorted ∧ st.nodes.toList.length ≤ maxNodes ∧
      (∃ c, st.getCurrent = .ok c ∧ c ∈ st.nodes.toList ∧ c.node = st.newest ∧
        ∀ r ∈ st.nodes.toList, r.stamp ≤ c.stamp) ∧
      returned.Pairwise (· ≤ ·) ∧
      ∀ (sender : NodeId) (message : Message T) (id : EnvelopeId) (maxSequence : U64) st',
        receive sender message id st = (.ok maxSequence,st') →
          (∀ r ∈ st'.nodes.toList, r.sequence ≤ maxSequence) ∧
          (∃ r ∈ st'.nodes.toList, r.sequence = maxSequence) ∧ ∀ m ∈ returned, m ≤ maxSequence := by
  obtain ⟨hv,_,_,hsorted,hwithin⟩ := (new_valid hnew).performAll hrun
  obtain ⟨c,hcurrent,hc,hmax⟩ := hv.getCurrent_eq
  refine ⟨hv.sorted,st.nodes.bounded,⟨c,hcurrent,record_mem hc,record_node hc,fun r hr => ?_⟩,hsorted,?_⟩
  · exact hmax r.node r (hv.sorted.record_of_mem hr)
  · intro sender message id maxSequence st' hok
    have hreceived := hv.receive_ok hok
    have hv' := hreceived.valid hv
    obtain ⟨hlargest,hvalue⟩ := hreceived.largest_eq hv
    obtain ⟨c',hc',_⟩ := hv'.newest
    refine ⟨fun r hr => ?_,⟨c',record_mem hc',Fin.ext ?_⟩,fun m hm => ?_⟩
    · exact Fin.le_def.mpr (hlargest ▸ le_largest hr)
    · rw [←hlargest,hv'.largest_eq hc']
    · have hle := (hwithin m hm).2
      exact Fin.le_def.mpr (by omega)

theorem representation_forged : ∃ start st : ChannelState 2 Nat,
    ChannelState.new ⟨Id.ofByte 1⟩ 10 = .ok start ∧ performAll forgedRun start = ([1,2],st) ∧
      ∃ c, st.getCurrent = .ok c ∧ ∀ r ∈ st.nodes.toList, r.stamp ≤ c.stamp := by
  obtain ⟨start,st,hnew,hrun⟩ := forgedRun_returns
  obtain ⟨_,_,⟨c,hc,_,_,hmax⟩,_⟩ := representation hnew hrun
  exact ⟨start,st,hnew,hrun,c,hc,hmax⟩

end Runs

end ChannelState

end Finder
