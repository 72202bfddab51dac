import Finder.Channel.Bounds

namespace Finder

namespace ChannelState

variable {maxNodes : Nat} {P T : Type} {st st' : ChannelState maxNodes P}

theorem performAll_append (before after : List (TableOp P T)) (st : ChannelState maxNodes P) :
    performAll (before ++ after) st =
      ((performAll before st).1 ++ (performAll after (performAll before st).2).1,
        (performAll after (performAll before st).2).2) := by
  induction before generalizing st with
  | nil => rfl
  | cons op ops ih =>
    cases op with
    | addNode node nodeKey =>
      simp only [List.cons_append,performAll]
      exact ih _
    | receive sender message id =>
      simp only [List.cons_append,performAll]
      rcases hreceive : receive sender message id st with ⟨out,mid⟩
      cases out with
      | ok maxSequence => simp [ih]
      | err e => exact ih _
      | panic => exact ih _

/-- Whoever has a record can address, unless the sequences are used up. -/
theorem Valid.address_of_mem (hv : st.Valid) {r : NodeSequence P} (hr : r ∈ st.nodes.toList)
    (hroom : st.largest < 2^64-1) (data : T) : ∃ message, st.address r.node data = .ok message ∧
      message.cause = st.newest ∧ message.senderLast = r.sequence ∧
      message.sequence.val = st.largest+1 := by
  obtain ⟨c,hc,_⟩ := hv.newest
  have hlargest := hv.largest_eq hc
  let message : Message T := ⟨st.newest,r.sequence,⟨c.sequence.val+1,by omega⟩,data⟩
  have haddress : st.address r.node data = .ok message := by
    apply hv.address_eq_ok.mpr
    exact ⟨r,c,hv.sorted.record_of_mem hr,hc,rfl,rfl,rfl,rfl⟩
  exact ⟨message,haddress,rfl,rfl,by rw [hlargest]⟩

/-- A message above the whole table makes its sender the newest, and its sequence is what `receive`
returns. -/
theorem Received.newest_of_largest_lt {sender : NodeId} {message : Message T} {id : EnvelopeId}
    {maxSequence : U64} (hv : st.Valid) (h : st.Received st' sender message id maxSequence)
    (habove : st.largest < message.sequence.val) : st'.newest = sender ∧ maxSequence = message.sequence := by
  obtain ⟨c,hc,hnewest,_⟩ := h.newest
  have hlt : c.stamp < toLex (message.sequence,id) := by
    apply Prod.Lex.lt_iff.mpr
    left
    rw [hv.largest_eq hc] at habove
    exact Fin.lt_def.mpr habove
  have hmax := (h.largest_eq hv).2
  constructor
  · rw [hnewest,if_pos hlt]
  · apply Fin.ext
    omega

/-- The messages of a run that were accepted are not above the table it ends in. -/
theorem accepted_le_largest (hv : st.Valid) {before : List (TableOp P T)} {sender : NodeId}
    {message : Message T} {id : EnvelopeId} {maxSequence : U64} {mid : ChannelState maxNodes P}
    (hok : receive sender message id (performAll before st).2 = (.ok maxSequence,mid))
    (after : List (TableOp P T)) :
    message.sequence.val ≤ (performAll (before ++ .receive sender message id::after) st).2.largest := by
  have hlast : (performAll (before ++ .receive sender message id::after) st).2 =
      (performAll after mid).2 := by
    rw [performAll_append]
    simp only [performAll,hok]
  rcases hbefore : performAll before st with ⟨_,here⟩
  rcases hafter : performAll after mid with ⟨_,last⟩
  rw [hbefore] at hok
  have hhere := (hv.performAll hbefore).1
  have hreceived := hhere.receive_ok hok
  obtain ⟨hlargest,hmax⟩ := hreceived.largest_eq hhere
  have hup := ((hreceived.valid hhere).performAll hafter).2.1
  rw [hlast,hafter]
  dsimp only
  omega

/-- In every state of a run, what a member addresses lies above all that was accepted, and the same state
takes it at once. -/
theorem address_then_receive {creator : NodeId} {creatorKey : P} {start : ChannelState maxNodes P}
    {ops : List (TableOp P T)} {returned : List U64}
    (hnew : ChannelState.new creator creatorKey = .ok start) (hrun : performAll ops start = (returned,st)) :
    (∀ r ∈ st.nodes.toList, st.largest < 2^64-1 → ∀ data : T, ∃ message,
      st.address r.node data = .ok message ∧ message.sequence.val = st.largest+1 ∧
      (∀ before s m i after maxSequence mid, ops = before ++ .receive s m i::after →
        receive s m i (performAll before start).2 = (.ok maxSequence,mid) →
          m.sequence < message.sequence) ∧
      ∀ id, st.checkReceive r.node message id = .ok () ∧
        ∃ st', receive r.node message id st = (.ok message.sequence,st') ∧ st'.newest = r.node) ∧
    ∀ (sender : NodeId) (message : Message T) (id : EnvelopeId),
      st.checkReceive sender message id = .ok () →
        ∃ maxSequence st', receive sender message id st = (.ok maxSequence,st') := by
  have hstart := new_valid hnew
  have hv := (hstart.performAll hrun).1
  constructor
  · intro r hr hroom data
    obtain ⟨message,haddress,_,_,hsequence⟩ := hv.address_of_mem hr hroom data
    have hreceivable := hv.receivable_of_address haddress
    refine ⟨message,haddress,hsequence,?_,fun id => ⟨?_,?_⟩⟩
    · intro before s m i after maxSequence mid hops hok
      have hle := accepted_le_largest hstart hok after
      simp only [←hops,hrun] at hle
      exact Fin.lt_def.mpr (by omega)
    · exact (hv.sorted.checkReceive_eq_ok id).mpr hreceivable
    · obtain ⟨maxSequence,st',hok⟩ := hv.receive_of_receivable hreceivable id
      obtain ⟨hnewest,hmax⟩ := (hv.receive_ok hok).newest_of_largest_lt hv (by omega)
      exact ⟨st',hmax ▸ hok,hnewest⟩
  · intro sender message id hcheck
    exact hv.receive_of_receivable ((hv.sorted.checkReceive_eq_ok id).mp hcheck) id

/-- After two receives the member with the lower sequence sends the third message. -/
theorem address_then_receive_third : ∃ start st : ChannelState 2 Nat, ∃ message : Message Char,
    ChannelState.new ⟨Id.ofByte 1⟩ 10 = .ok start ∧ performAll forgedRun start = ([1,2],st) ∧
      st.address ⟨Id.ofByte 1⟩ 'c' = .ok message ∧ message.sequence = 3 ∧
      ∃ st', receive ⟨Id.ofByte 1⟩ message ⟨Id.ofByte 7⟩ st = (.ok 3,st') ∧ st'.newest = ⟨Id.ofByte 1⟩ := by
  let start : ChannelState 2 Nat := ⟨⟨[freshRecord ⟨Id.ofByte 1⟩ 10],by decide⟩,⟨Id.ofByte 1⟩⟩
  let last : ChannelState 2 Nat :=
    ⟨⟨[⟨10,⟨Id.ofByte 1⟩,⟨Id.ofByte 5⟩,1,1⟩,⟨20,⟨Id.ofByte 2⟩,⟨Id.ofByte 6⟩,2,2⟩],by decide⟩,⟨Id.ofByte 2⟩⟩
  have hrun : performAll forgedRun start = ([1,2],last) := by decide
  obtain ⟨message,haddress,hsequence,_,hreceive⟩ := (address_then_receive rfl hrun).1
    ⟨10,⟨Id.ofByte 1⟩,⟨Id.ofByte 5⟩,1,1⟩ (by decide) (by decide) 'c'
  have hthree : message.sequence = 3 := Fin.ext hsequence
  obtain ⟨_,st',hok,hnewest⟩ := hreceive ⟨Id.ofByte 7⟩
  rw [hthree] at hok
  exact ⟨start,last,message,rfl,hrun,haddress,hthree,st',hok,hnewest⟩

end ChannelState

end Finder
