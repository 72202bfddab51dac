import Finder.Channel.Table

namespace Finder

namespace ChannelState

variable {maxNodes : Nat} {P T : Type}

/-- Everything a successful `receive` does. -/
structure Received (st st' : ChannelState maxNodes P) (sender : NodeId) (message : Message T)
    (id : EnvelopeId) (maxSequence : U64) : Prop where
  receivable : st.Receivable sender message
  sorted : st'.Sorted
  length : st'.nodes.toList.length = st.nodes.toList.length
  records : ∃ r, st.record sender = some r ∧
    ∀ n, st'.record n = if sender = n then some (receivedRecord r message id) else st.record n
  newest : ∃ c, st.record st.newest = some c ∧
    st'.newest = (if c.stamp < toLex (message.sequence,id) then sender else st.newest) ∧
    maxSequence = max c.sequence message.sequence

/-- Everything a successful `add_node` does. -/
structure Added (st st' : ChannelState maxNodes P) (node : NodeId) (nodeKey : P) : Prop where
  unknown : st.record node = none
  room : st.nodes.toList.length < maxNodes
  sorted : st'.Sorted
  records : ∀ n, st'.record n = if node = n then some (freshRecord node nodeKey) else st.record n
  newest : st'.newest = st.newest

section New

theorem new_eq_ok {initial : NodeId} {nodeKey : P} {st : ChannelState maxNodes P}
    (h : ChannelState.new initial nodeKey = .ok st) :
    st.newest = initial ∧ st.nodes.toList = [freshRecord initial nodeKey] := by
  unfold ChannelState.new at h
  split at h
  · cases h
  · rename_i nodes hn
    cases h
    exact ⟨rfl,by simpa using HVec.push_eq_some.mp hn⟩

theorem new_record {initial : NodeId} {nodeKey : P} {st : ChannelState maxNodes P}
    (h : ChannelState.new initial nodeKey = .ok st) (n : NodeId) :
    st.record n = if initial = n then some (freshRecord initial nodeKey) else none := by
  rw [record,(new_eq_ok h).2,entry_cons]
  rfl

theorem new_valid {initial : NodeId} {nodeKey : P} {st : ChannelState maxNodes P}
    (h : ChannelState.new initial nodeKey = .ok st) : st.Valid := by
  have hnew := new_eq_ok h
  refine ⟨?_,freshRecord initial nodeKey,?_,?_⟩
  · rw [Sorted,hnew.2]
    exact List.pairwise_singleton _ _
  · rw [new_record h,hnew.1,if_pos rfl]
  · intro n r hr
    rw [new_record h] at hr
    split_ifs at hr
    cases hr
    exact le_refl _

end New

section Receive

variable {st st' : ChannelState maxNodes P} {sender : NodeId} {message : Message T} {id : EnvelopeId}

theorem checkReceiveWorker_ne_panic : st.checkReceiveWorker sender message id ≠ .panic := by
  unfold checkReceiveWorker
  split
  · simp
  · rename_i index _
    cases st.nodes.toList[index]? with
    | none => simp
    | some r =>
      simp only [Outcome.okOr_some,Outcome.ok_bind]
      by_cases hle : message.sequence ≤ r.sequence
      · simp [hle]
      · by_cases hlast : r.sequence = message.senderLast
        · rw [if_neg hle,if_neg (not_not.mpr hlast)]
          cases st.search message.cause with
          | ok pos =>
            cases hp : st.nodes.toList[pos]? with
            | none => simp [hp]
            | some c =>
              simp only [hp,Outcome.okOr_some,Outcome.ok_bind]
              split_ifs <;> simp
          | error _ =>
            dsimp only
            split_ifs <;> simp
        · simp [hle,hlast]

theorem Sorted.checkReceive_cases (hs : st.Sorted) (sender : NodeId) (message : Message T)
    (id : EnvelopeId) :
    (st.Receivable sender message ∧ st.checkReceive sender message id = .ok ()) ∨
    (¬st.Receivable sender message ∧ ∃ e, st.checkReceive sender message id = .err e) := by
  by_cases h : st.Receivable sender message
  · exact Or.inl ⟨h,(hs.checkReceive_eq_ok id).mpr h⟩
  · refine Or.inr ⟨h,?_⟩
    cases hw : st.checkReceiveWorker sender message id with
    | panic => exact absurd hw checkReceiveWorker_ne_panic
    | err e => exact ⟨e,by simp [checkReceive,hw]⟩
    | ok i => exact absurd ((hs.checkReceive_eq_ok id).mp (by simp [checkReceive,hw])) h

theorem newer_iff {c : NodeSequence P} :
    (c.sequence < message.sequence ∨ (c.sequence = message.sequence ∧ c.id < id)) ↔
      c.stamp < toLex (message.sequence,id) := by
  rw [Prod.Lex.lt_iff]
  rfl

/-- `receive` succeeds exactly on what `check_receive` lets through, and otherwise changes nothing. -/
theorem Valid.receive_cases (hv : st.Valid) (sender : NodeId) (message : Message T) (id : EnvelopeId) :
    (∃ maxSequence st', receive sender message id st = (.ok maxSequence,st') ∧
      st.Received st' sender message id maxSequence) ∨
    (¬st.Receivable sender message ∧ ∃ e, receive sender message id st = (.err e,st)) := by
  cases hw : st.checkReceiveWorker sender message id with
  | panic => exact absurd hw checkReceiveWorker_ne_panic
  | err e =>
    refine Or.inr ⟨fun h => ?_,e,by simp [receive,hw]⟩
    obtain ⟨i,_,hi,_⟩ := hv.sorted.checkReceiveWorker_of_receivable h id
    rw [hw] at hi
    cases hi
  | ok i =>
    obtain ⟨r,hir,hr,hrec⟩ := hv.sorted.receivable_of_worker hw
    obtain ⟨c,hc,hcr,hmax⟩ := hv.getCurrent_eq
    have hset := SortedBy.set hv.sorted hir
      (y := receivedRecord r message id) (by simp [receivedRecord])
    have hnode : (receivedRecord r message id).node = sender := by
      simp [receivedRecord,record_node hr]
    refine Or.inl ?_
    by_cases hnew : c.sequence < message.sequence ∨ (c.sequence = message.sequence ∧ c.id < id)
    · refine ⟨message.sequence,⟨st.nodes.set i (receivedRecord r message id),sender⟩,
        by simp only [receive,hw,hc,if_pos hnew,hir],hrec,hset.1,by simp,⟨r,hr,fun n => ?_⟩,c,hcr,?_,?_⟩
      · have hn := hset.2 n
        rwa [hnode] at hn
      · rw [if_pos (newer_iff.mp hnew)]
      · rcases hnew with h | h
        · exact (max_eq_right (le_of_lt h)).symm
        · exact (max_eq_right (le_of_eq h.1)).symm
    · refine ⟨c.sequence,⟨st.nodes.set i (receivedRecord r message id),st.newest⟩,
        by simp only [receive,hw,hc,if_neg hnew,hir],hrec,hset.1,by simp,⟨r,hr,fun n => ?_⟩,c,hcr,?_,?_⟩
      · have hn := hset.2 n
        rwa [hnode] at hn
      · rw [if_neg (fun h => hnew (newer_iff.mpr h))]
      · exact (max_eq_left (not_lt.mp (fun h => hnew (Or.inl h)))).symm

theorem Valid.receive_ok (hv : st.Valid) {maxSequence : U64}
    (h : receive sender message id st = (.ok maxSequence,st')) :
    st.Received st' sender message id maxSequence := by
  rcases hv.receive_cases sender message id with ⟨mx,u,hr,hrec⟩ | ⟨_,e,hr⟩
  · rw [h] at hr
    cases hr
    exact hrec
  · rw [h] at hr
    cases hr

theorem Valid.receive_of_receivable (hv : st.Valid) (h : st.Receivable sender message)
    (id : EnvelopeId) :
    ∃ maxSequence st', receive sender message id st = (.ok maxSequence,st') := by
  rcases hv.receive_cases sender message id with ⟨mx,u,hr,_⟩ | ⟨hn,_⟩
  · exact ⟨mx,u,hr⟩
  · exact absurd h hn

theorem Received.sequenceOf {maxSequence : U64} (h : st.Received st' sender message id maxSequence)
    (n : NodeId) :
    st'.sequenceOf n = if sender = n then message.sequence.val else st.sequenceOf n := by
  obtain ⟨r,_,hrec⟩ := h.records
  simp only [ChannelState.sequenceOf,hrec n]
  split_ifs <;> rfl

theorem Received.knows {maxSequence : U64} (h : st.Received st' sender message id maxSequence)
    (n : NodeId) : (st'.record n).isSome ↔ (st.record n).isSome := by
  obtain ⟨r,hr,hrec⟩ := h.records
  rw [hrec n]
  split_ifs with hn
  · subst hn
    simp [hr]
  · rfl

theorem Received.publicKey {maxSequence : U64} (h : st.Received st' sender message id maxSequence)
    (n : NodeId) :
    (st'.record n).map NodeSequence.publicKey = (st.record n).map NodeSequence.publicKey := by
  obtain ⟨r,hr,hrec⟩ := h.records
  rw [hrec n]
  split_ifs with hn
  · subst hn
    simp [hr,receivedRecord]
  · rfl

theorem Received.valid {maxSequence : U64} (hv : st.Valid)
    (h : st.Received st' sender message id maxSequence) : st'.Valid := by
  obtain ⟨r,hr,hrec⟩ := h.records
  obtain ⟨c,hc,hnew,_⟩ := h.newest
  obtain ⟨c',hc',hmax⟩ := hv.newest
  obtain rfl : c' = c := Option.some.inj (hc'.symm.trans hc)
  obtain ⟨r',hr',hlt,_⟩ := h.receivable
  obtain rfl : r' = r := Option.some.inj (hr'.symm.trans hr)
  have hstamp : (receivedRecord r' message id).stamp = toLex (message.sequence,id) := rfl
  refine ⟨h.sorted,?_⟩
  by_cases hgt : c'.stamp < toLex (message.sequence,id)
  · rw [if_pos hgt] at hnew
    refine ⟨receivedRecord r' message id,by rw [hnew,hrec,if_pos rfl],fun n x hx => ?_⟩
    rw [hrec n] at hx
    split_ifs at hx with hn
    · cases hx
      exact le_refl _
    · rw [hstamp]
      exact le_of_lt (lt_of_le_of_lt (hmax n x hx) hgt)
  · rw [if_neg hgt] at hnew
    have hne : sender ≠ st.newest := by
      intro he
      rw [he,hc] at hr
      cases hr
      exact hgt (Prod.Lex.lt_iff.mpr (Or.inl hlt))
    refine ⟨c',by rw [hnew,hrec,if_neg hne,hc],fun n x hx => ?_⟩
    rw [hrec n] at hx
    split_ifs at hx with hn
    · cases hx
      rw [hstamp]
      exact not_lt.mp hgt
    · exact hmax n x hx

/-- A successful `receive` is determined by the state it starts from. -/
theorem Received.unique {st'' : ChannelState maxNodes P} {m m' : U64}
    (h : st.Received st' sender message id m) (h' : st.Received st'' sender message id m') :
    st' = st'' := by
  obtain ⟨r,hr,hrec⟩ := h.records
  obtain ⟨r',hr',hrec'⟩ := h'.records
  obtain rfl : r = r' := Option.some.inj (hr.symm.trans hr')
  obtain ⟨c,hc,hnew,_⟩ := h.newest
  obtain ⟨c',hc',hnew',_⟩ := h'.newest
  obtain rfl : c = c' := Option.some.inj (hc.symm.trans hc')
  exact h.sorted.ext h'.sorted (fun n => (hrec n).trans (hrec' n).symm) (hnew.trans hnew'.symm)

end Receive

section AddNode

variable {st st' : ChannelState maxNodes P} {node : NodeId} {nodeKey : P}

/-- `add_node` takes a new node while there is room, and otherwise changes nothing. -/
theorem Sorted.addNode_cases (hs : st.Sorted) (node : NodeId) (nodeKey : P) :
    (∃ st', addNode node nodeKey st = (.ok (),st') ∧ st.Added st' node nodeKey) ∨
    ((st.record node ≠ none ∨ maxNodes ≤ st.nodes.toList.length) ∧
      ∃ e, addNode node nodeKey st = (.err e,st)) := by
  cases hr : st.record node with
  | some r =>
    obtain ⟨i,hi,_⟩ := hs.search_record hr
    exact Or.inr ⟨Or.inl (by simp),_,by simp only [addNode,hi]; rfl⟩
  | none =>
    obtain ⟨i,hi,hlen⟩ := hs.search_unknown hr
    cases hins : st.nodes.insert i (freshRecord node nodeKey) with
    | none =>
      exact Or.inr ⟨Or.inr ((HVec.insert_eq_none hlen).mp hins),_,
        by simp only [addNode,hi,hins]; rfl⟩
    | some nodes =>
      have hlist := (HVec.insert_eq_some hlen).mp hins
      have hroom : st.nodes.toList.length < maxNodes := by
        by_contra hn
        rw [(HVec.insert_eq_none hlen).mpr (not_lt.mp hn)] at hins
        cases hins
      have hadd := SortedBy.insert (x := freshRecord node nodeKey) hs hi
      refine Or.inl ⟨⟨nodes,st.newest⟩,by simp only [addNode,hi,hins],hr,hroom,?_,fun n => ?_,rfl⟩
      · rw [Sorted,hlist]
        exact hadd.1
      · rw [record,hlist]
        exact hadd.2 n

theorem Sorted.addNode_ok (hs : st.Sorted) (h : addNode node nodeKey st = (.ok (),st')) :
    st.Added st' node nodeKey := by
  rcases hs.addNode_cases node nodeKey with ⟨u,hu,hadd⟩ | ⟨_,e,he⟩
  · rw [h] at hu
    cases hu
    exact hadd
  · rw [h] at he
    cases he

theorem Sorted.addNode_of_room (hs : st.Sorted) (hn : st.record node = none)
    (hroom : st.nodes.toList.length < maxNodes) (nodeKey : P) : ∃ st', addNode node nodeKey st = (.ok (),st') := by
  rcases hs.addNode_cases node nodeKey with ⟨u,hu,_⟩ | ⟨hbad,_⟩
  · exact ⟨u,hu⟩
  · rcases hbad with hbad | hbad
    · exact absurd hn hbad
    · omega

theorem Added.sequenceOf (h : st.Added st' node nodeKey) (n : NodeId) :
    st'.sequenceOf n = st.sequenceOf n := by
  simp only [ChannelState.sequenceOf,h.records n]
  split_ifs with hn
  · subst hn
    simp [h.unknown,freshRecord]
  · rfl

theorem Added.valid (hv : st.Valid) (h : st.Added st' node nodeKey) : st'.Valid := by
  obtain ⟨c,hc,hmax⟩ := hv.newest
  have hne : node ≠ st.newest := fun he => by
    have hu := h.unknown
    rw [he,hc] at hu
    cases hu
  refine ⟨h.sorted,c,by rw [h.newest,h.records,if_neg hne,hc],fun n r hr => ?_⟩
  rw [h.records n] at hr
  split_ifs at hr with hn
  · cases hr
    apply Prod.Lex.le_iff.mpr
    rcases (Fin.zero_le c.sequence).lt_or_eq with hlt | heq
    · exact Or.inl hlt
    · exact Or.inr ⟨heq,EnvelopeId.zero_le c.id⟩
  · exact hmax n r hr

theorem Added.unique {st'' : ChannelState maxNodes P} (h : st.Added st' node nodeKey)
    (h' : st.Added st'' node nodeKey) : st' = st'' :=
  h.sorted.ext h'.sorted (fun n => (h.records n).trans (h'.records n).symm)
    (h.newest.trans h'.newest.symm)

theorem Added.length (hv : st.Sorted) (h : st.Added st' node nodeKey)
    (hok : addNode node nodeKey st = (.ok (),st')) :
    st'.nodes.toList.length = st.nodes.toList.length+1 := by
  obtain ⟨i,hi,hlen⟩ := hv.search_unknown h.unknown
  cases hins : st.nodes.insert i (freshRecord node nodeKey) with
  | none => simp [addNode,hi,hins] at hok
  | some nodes =>
    simp only [addNode,hi,hins,Prod.mk.injEq,true_and] at hok
    rw [←hok,(HVec.insert_eq_some hlen).mp hins,List.length_insertIdx_of_le_length hlen]

theorem addNode_ne_alreadyReceived {e : ChannelError} (h : addNode node nodeKey st = (.err e,st')) :
    e ≠ .alreadyReceived := by
  rintro rfl
  unfold addNode at h
  split at h
  · cases h
  · split at h
    · cases h
    · cases h

/-- A node that is added after a message is received may as well be added before. -/
theorem Received.after_added {T : Type} {sender : NodeId} {message : Message T} {id : EnvelopeId}
    {maxSequence : U64} {st'' : ChannelState maxNodes P} (hv : st.Valid)
    (hreceived : st.Received st' sender message id maxSequence) (hadded : st'.Added st'' node nodeKey) :
    ∃ mid, addNode node nodeKey st = (.ok (),mid) ∧
      ∃ maxSequence', receive sender message id mid = (.ok maxSequence',st'') := by
  have hnew : st.record node = none := by
    have hknows := hreceived.knows node
    rw [hadded.unknown] at hknows
    simpa using hknows
  have hroom : st.nodes.toList.length < maxNodes := hreceived.length ▸ hadded.room
  obtain ⟨mid,hmid⟩ := hv.sorted.addNode_of_room hnew hroom nodeKey
  have hadd := hv.sorted.addNode_ok hmid
  obtain ⟨r,hr,hrec⟩ := hreceived.records
  obtain ⟨c,hc,hnewest,_⟩ := hreceived.newest
  have hsender : node ≠ sender := fun he => by
    rw [←he,hnew] at hr
    cases hr
  have hcurrent : node ≠ st.newest := fun he => by
    rw [←he,hnew] at hc
    cases hc
  have hmidSender : mid.record sender = some r := by rw [hadd.records,if_neg hsender,hr]
  have hmidNewest : mid.record mid.newest = some c := by rw [hadd.newest,hadd.records,if_neg hcurrent,hc]
  have hreceivable : mid.Receivable sender message := by
    obtain ⟨r',hr',hlt,hlast,hcause⟩ := hreceived.receivable
    obtain rfl : r' = r := Option.some.inj (hr'.symm.trans hr)
    exact ⟨r',hmidSender,hlt,hlast,by rwa [hadd.sequenceOf]⟩
  have hmidValid := hadd.valid hv
  obtain ⟨maxSequence',last,hlast⟩ := hmidValid.receive_of_receivable hreceivable id
  have hlater := hmidValid.receive_ok hlast
  obtain ⟨r',hr',hrec'⟩ := hlater.records
  obtain rfl : r' = r := Option.some.inj (hr'.symm.trans hmidSender)
  obtain ⟨c',hc',hnewest',_⟩ := hlater.newest
  obtain rfl : c' = c := Option.some.inj (hc'.symm.trans hmidNewest)
  obtain rfl : last = st'' := by
    refine hlater.sorted.ext hadded.sorted (fun n => ?_) ?_
    · rw [hrec' n,hadded.records n,hadd.records n,hrec n]
      by_cases hn : node = n
      · subst hn
        rw [if_neg hsender.symm,if_pos rfl,if_pos rfl]
      · rw [if_neg hn,if_neg hn]
    · rw [hnewest',hadded.newest,hnewest,hadd.newest]
  exact ⟨mid,hmid,maxSequence',hlast⟩

end AddNode

section Address

variable {st : ChannelState maxNodes P} {sender : NodeId}

/-- `address` continues the sender's own chain and goes one past the newest sequence. -/
theorem Valid.address_eq_ok (hv : st.Valid) {data : T} {message : Message T} :
    st.address sender data = .ok message ↔
      ∃ r c, st.record sender = some r ∧ st.record st.newest = some c ∧
        message.cause = st.newest ∧ message.senderLast = r.sequence ∧
        message.sequence.val = c.sequence.val+1 ∧ message.data = data := by
  cases hr : st.record sender with
  | none =>
    obtain ⟨i,hi,_⟩ := hv.sorted.search_unknown hr
    simp [address,hi]
  | some r =>
    obtain ⟨i,hi,hir⟩ := hv.sorted.search_record hr
    obtain ⟨c,hcur,hc,hmax⟩ := hv.getCurrent_eq
    have hle : ¬c.sequence < r.sequence :=
      not_lt.mpr (NodeSequence.sequence_le_of_stamp_le (hmax sender r hr))
    simp only [address,hi,hir,Outcome.orPanic_some,Outcome.ok_bind,hcur,if_neg hle]
    constructor
    · intro h
      obtain ⟨s,hs,hm⟩ := Outcome.bind_eq_ok.mp h
      cases hm
      exact ⟨r,c,rfl,hc,record_node hc,rfl,
        U64.checkedSucc_eq_some.mp (Outcome.okOr_eq_ok.mp hs),rfl⟩
    · rintro ⟨r',c',hr',hc',hcause,hlast,hseq,hdata⟩
      cases hr'
      obtain rfl : c = c' := Option.some.inj (hc.symm.trans hc')
      refine Outcome.bind_eq_ok.mpr ⟨message.sequence,?_,?_⟩
      · exact Outcome.okOr_eq_ok.mpr (U64.checkedSucc_eq_some.mpr hseq)
      · cases message
        simp_all [record_node hc]

/-- What has just been addressed can be received at once. -/
theorem Valid.receivable_of_address (hv : st.Valid) {data : T} {message : Message T}
    (h : st.address sender data = .ok message) : st.Receivable sender message := by
  obtain ⟨r,c,hr,hc,hcause,hlast,hseq,_⟩ := hv.address_eq_ok.mp h
  have hle := hv.sequenceOf_le hc sender
  rw [sequenceOf_eq hr] at hle
  refine ⟨r,hr,?_,hlast.symm,?_⟩
  · rw [Fin.lt_def]
    omega
  · rw [hcause,sequenceOf_eq hc]
    omega

end Address

end ChannelState

end Finder
