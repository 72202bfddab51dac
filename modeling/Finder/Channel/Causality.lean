import Finder.Channel.Delivery
import Finder.Math.Causal

namespace Finder

namespace ChannelState

section Refusals

variable {maxNodes : Nat} {P T : Type} {st : ChannelState maxNodes P} {sender : NodeId} {message : Message T}
  {r : NodeSequence P}

/-- What is refused is refused for the first of these reasons, and is what `receive` answers. -/
theorem receive_of_worker {e : ChannelError} {id : EnvelopeId} (h : st.checkReceiveWorker sender message id = .err e) :
    receive sender message id st = (.err e,st) := by
  simp only [receive,h]

theorem Sorted.refuses_unknown (hs : st.Sorted) (h : st.record sender = none) (id : EnvelopeId) :
    receive sender message id st = (.err .unknownNode,st) := by
  apply receive_of_worker
  obtain ⟨i,hi,_⟩ := hs.search_unknown h
  simp only [checkReceiveWorker,hi]

theorem Sorted.refuses_old (hs : st.Sorted) (h : st.record sender = some r) (hold : message.sequence ≤ r.sequence)
    (id : EnvelopeId) : receive sender message id st = (.err .alreadyReceived,st) := by
  apply receive_of_worker
  obtain ⟨i,hi,hir⟩ := hs.search_record h
  simp [checkReceiveWorker,hi,hir,hold]

theorem Sorted.refuses_gap (hs : st.Sorted) (h : st.record sender = some r) (hnew : r.sequence < message.sequence)
    (hgap : r.sequence ≠ message.senderLast) (id : EnvelopeId) :
    receive sender message id st = (.err (.missingFromSender sender r.sequence message.senderLast),st) := by
  apply receive_of_worker
  obtain ⟨i,hi,hir⟩ := hs.search_record h
  simp [checkReceiveWorker,hi,hir,not_le.mpr hnew,hgap]

theorem Sorted.refuses_cause (hs : st.Sorted) (h : st.record sender = some r) (hnew : r.sequence < message.sequence)
    (hlast : r.sequence = message.senderLast) (hcause : st.sequenceOf message.cause+1 < message.sequence.val)
    (id : EnvelopeId) : ∃ have_ : U64, have_.val = st.sequenceOf message.cause ∧
      receive sender message id st =
        (.err (.missingFromSender message.cause have_ (U64.saturatingPred message.sequence)),st) := by
  obtain ⟨i,hi,hir⟩ := hs.search_record h
  cases hc : st.record message.cause with
  | none =>
    obtain ⟨k,hk,_⟩ := hs.search_unknown hc
    rw [sequenceOf_unknown hc] at hcause ⊢
    have htarget : U64.saturatingPred message.sequence ≠ 0 := by
      intro hzero
      have hval := congrArg Fin.val hzero
      rw [U64.saturatingPred_val,Fin.val_zero] at hval
      omega
    refine ⟨0,rfl,?_⟩
    apply receive_of_worker
    simp only [checkReceiveWorker,hi,hir,Outcome.okOr_some,Outcome.ok_bind,if_neg (not_le.mpr hnew),
      if_neg (not_not.mpr hlast),hk,if_pos htarget]
  | some c =>
    obtain ⟨k,hk,hkc⟩ := hs.search_record hc
    rw [sequenceOf_eq hc] at hcause ⊢
    have hshort : c.sequence < U64.saturatingPred message.sequence := by
      rw [Fin.lt_def,U64.saturatingPred_val]
      omega
    refine ⟨c.sequence,rfl,?_⟩
    apply receive_of_worker
    simp only [checkReceiveWorker,hi,hir,Outcome.okOr_some,Outcome.ok_bind,if_neg (not_le.mpr hnew),
      if_neg (not_not.mpr hlast),hk,hkc,if_pos hshort,record_node hc]

end Refusals

end ChannelState

namespace Network

variable {D : Type} [DecidableEq D] {maxNodes : Nat} {P T : Type} {home : NodeId → D}
  {creator : NodeId} {creatorKey : P} {net net' : Network D maxNodes P T}

/-- The one message names the other: the last one before it of its own sender, or the one that it answers. -/
def Names (net : Network D maxNodes P T) (b a : Envelope T) : Prop :=
  b ∈ net.sentBy b.sender ∧ a ∈ net.sentBy a.sender ∧
    ((b.sender = a.sender ∧ b.seq = a.last) ∨ (b.sender = a.message.cause ∧ b.seq+1 = a.seq))

/-- The one message was there when the other one was sent. -/
def SentBefore (net : Network D maxNodes P T) (b a : Envelope T) : Prop :=
  ∃ x ∈ net.sent a.sender, x.toEnvelope = a ∧ b ∈ x.past

/-- A message comes when its cause is at most one behind. What its sender had when it was sent is a first part of what
each node has sent, and numbered below it. -/
structure Timed (net : Network D maxNodes P T) : Prop where
  caused : ∀ d, Founded (fun before e => e.seq ≤ tip Envelope.seq 0 (ofSender e.message.cause before)+1) (net.accepted d)
  past : ∀ s, ∀ x ∈ net.sent s, ∀ n, ofSender n x.past <+: net.sentBy n
  above : ∀ s, ∀ x ∈ net.sent s, ∀ e ∈ x.past, e.seq < x.seq

namespace Timed

omit [DecidableEq D] in
theorem start (st : ChannelState maxNodes P) : Timed (initial st : Network D maxNodes P T) where
  caused _ := Founded.nil
  past := by simp [initial]
  above := by simp [initial]

/-- What a device takes in is caused by what it has. -/
theorem accept (h : Timed net) (hc : Consistent home net) {d : D} {e : Envelope T}
    (hreceivable : (net.device d).Receivable e.sender e.message) (d' : D) :
    Founded (fun before e => e.seq ≤ tip Envelope.seq 0 (ofSender e.message.cause before)+1)
      ((net.accept d e).accepted d') := by
  rw [accept_accepted]
  split_ifs with hd
  · apply (h.caused d).concat
    obtain ⟨_,_,_,_,hcause⟩ := hreceivable
    rw [hc.reached] at hcause
    exact hcause
  · exact h.caused d'

theorem step (h : Timed net) (hc : Consistent home net) (hs : Step home net net') : Timed net' := by
  cases hs with
  | send s data message id maxSequence st haddress hreceive =>
    have hv := hc.valid (home s)
    obtain ⟨_,c,_,hcur,_,_,hseq,_⟩ := hv.address_eq_ok.mp haddress
    refine ⟨fun d => ?_,fun s' x hx n => ?_,fun s' x hx e he => ?_⟩
    · exact h.accept hc (e := ⟨s,message,id⟩) (hv.receive_ok hreceive).receivable d
    · have hgrows : net.sentBy n <+:
          (((net.withDevice (home s) st).post ⟨⟨s,message,id⟩,net.accepted (home s)⟩).accept (home s)
            ⟨s,message,id⟩).sentBy n := by
        rw [accept_sentBy,post_sentBy,withDevice_sentBy]
        split_ifs
        · exact List.prefix_append _ _
        · exact List.prefix_refl _
      rw [accept_sent,post_sent,withDevice_sent] at hx
      split_ifs at hx with hs
      · rcases List.mem_append.mp hx with hx | hx
        · exact (h.past s' x hx n).trans hgrows
        · rw [List.mem_singleton.mp hx]
          exact (hc.part (home s) n).trans hgrows
      · exact (h.past s' x hx n).trans hgrows
    · rw [accept_sent,post_sent,withDevice_sent] at hx
      have hold : x ∈ net.sent s' → e.seq < x.seq := fun hx => h.above s' x hx e he
      split_ifs at hx with hs
      · rcases List.mem_append.mp hx with hx | hx
        · exact hold hx
        · -- the newest node of the sender's table is above all that the sender has
          rw [List.mem_singleton.mp hx] at he ⊢
          have hle : e.seq ≤ c.sequence.val := (hc.seq_le_of_accepted he).trans (hv.sequenceOf_le hcur _)
          change e.seq < message.sequence.val
          omega
      · exact hold hx
  | addNode d node nodeKey => exact ⟨h.caused,h.past,h.above⟩
  | deliver d x maxSequence st hsent hreceive =>
    exact ⟨h.accept hc ((hc.valid d).receive_ok hreceive).receivable,h.past,h.above⟩
  | refuse d x e st hsent hreceive => exact ⟨h.caused,h.past,h.above⟩

end Timed

theorem Reachable.timed (h : Reachable home creator creatorKey net) : Timed net := by
  obtain ⟨start,hstart,hrun⟩ := h
  induction hrun with
  | refl => exact Timed.start start
  | tail hrun hs ih => exact ih.step ((Consistent.start hstart).run hrun) hs

section Causes

variable {s : NodeId} {x : Sent T} {a b e : Envelope T} {d : D}

omit [DecidableEq D] in
theorem Consistent.sent_sender (hc : Consistent home net) (he : e ∈ net.sentBy s) : e.sender = s := by
  obtain ⟨x,hx,rfl⟩ := List.mem_map.mp he
  exact hc.own s x hx

omit [DecidableEq D] in
/-- Of what comes first a device has a first part of each sender's chain. -/
theorem Consistent.first_part (hc : Consistent home net) {before after : List (Envelope T)}
    (hsplit : net.accepted d = before ++ after) (s : NodeId) : ofSender s before <+: net.sentBy s := by
  have hpart := hc.part d s
  rw [acceptedFrom,hsplit,ofSender,List.filter_append] at hpart
  exact (List.prefix_append _ _).trans hpart

omit [DecidableEq D] in
/-- What a message names has come before it. -/
theorem Timed.causal (h : Timed net) (hc : Consistent home net) (d : D) : Causal net.Names (net.accepted d) := by
  intro before a after hsplit b hnames
  obtain ⟨hb,_,⟨hsender,hlast⟩ | ⟨hsender,hseq⟩⟩ := hnames
  · have hpart := hc.part d a.sender
    have hself : ofSender a.sender (a::after) = a::ofSender a.sender after := by simp [ofSender]
    have hsplit' : net.acceptedFrom d a.sender = ofSender a.sender before ++ a::ofSender a.sender after := by
      rw [acceptedFrom,hsplit,←hself,ofSender,ofSender,ofSender,List.filter_append]
    rw [hsplit'] at hpart
    have htip := ((hc.chained a.sender).shorten hpart).last_eq.1
    rw [hsender] at hb
    have hmem := ((hc.chained a.sender).mem_prefix_iff ((List.prefix_append _ _).trans hpart) hb).mpr
      (le_of_eq (hlast.trans htip))
    exact (mem_ofSender.mp hmem).1
  · have hcause := h.caused d before a after hsplit
    rw [hsender] at hb
    have hmem := ((hc.chained a.message.cause).mem_prefix_iff (hc.first_part hsplit _) hb).mpr (by omega)
    exact (mem_ofSender.mp hmem).1

omit [DecidableEq D] in
/-- What a message names was there when it was sent. -/
theorem Timed.sentBefore_of_names (h : Timed net) (hc : Consistent home net) (hnames : net.Names b a) :
    net.SentBefore b a := by
  obtain ⟨hb,ha,hwhich⟩ := hnames
  obtain ⟨x,hx,rfl⟩ := List.mem_map.mp ha
  refine ⟨x,hx,rfl,?_⟩
  rcases hwhich with ⟨hsender,hlast⟩ | ⟨hsender,hseq⟩
  · obtain ⟨p,q,hsplit⟩ := List.mem_iff_append.mp hx
    obtain ⟨hchain,hall⟩ := hc.sent_split hsplit
    rw [hsender,hall] at hb
    have hmem := (hchain.mem_prefix_iff (List.prefix_append _ _) hb).mpr (le_of_eq (hlast.trans hchain.last_eq.1))
    rw [←hc.before _ p x q hsplit] at hmem
    exact (mem_ofSender.mp hmem).1
  · have hcaused := hc.caused x.sender x hx
    rw [hsender] at hb
    have hmem := ((hc.chained x.message.cause).mem_prefix_iff (h.past _ x hx _) hb).mpr (by omega)
    exact (mem_ofSender.mp hmem).1

omit [DecidableEq D] in
/-- A message that is not the first of its sender names the one before it. -/
theorem Consistent.names_last (hc : Consistent home net) (hx : x ∈ net.sent s) (hlast : x.last ≠ 0) :
    ∃ b, net.Names b x.toEnvelope ∧ b.sender = x.sender ∧ b.seq = x.last := by
  obtain ⟨p,q,hsplit⟩ := List.mem_iff_append.mp hx
  obtain ⟨hchain,hall⟩ := hc.sent_split hsplit
  have hown : x.sender = s := hc.own s x hx
  rcases tip_mem Envelope.seq 0 (p.map Sent.toEnvelope) with hzero | ⟨b,hb,htip⟩
  · exact absurd (hchain.last_eq.1.trans hzero) hlast
  · have hsent : b ∈ net.sentBy s := by
      rw [hall]
      exact List.mem_append_left _ hb
    have hseq : b.seq = x.last := htip.trans hchain.last_eq.1.symm
    have hsender : b.sender = s := hc.sent_sender hsent
    refine ⟨b,⟨hsender.symm ▸ hsent,?_,Or.inl ⟨hsender.trans hown.symm,hseq⟩⟩,hsender.trans hown.symm,hseq⟩
    rw [hown]
    exact List.mem_map_of_mem hx

omit [DecidableEq D] in
/-- A message that is not numbered 1 names the one that it answers. -/
theorem Timed.names_cause (h : Timed net) (hc : Consistent home net) (hx : x ∈ net.sent s) (hseq : x.seq ≠ 1) :
    ∃ b, net.Names b x.toEnvelope ∧ b.sender = x.message.cause ∧ b.seq+1 = x.seq := by
  have hcaused := hc.caused s x hx
  rcases tip_mem Envelope.seq 0 (ofSender x.message.cause x.past) with hzero | ⟨b,hb,htip⟩
  · omega
  · have hsent : b ∈ net.sentBy x.message.cause := (h.past s x hx _).subset hb
    have hsender := (mem_ofSender.mp hb).2
    refine ⟨b,⟨hsender.symm ▸ hsent,?_,Or.inr ⟨hsender,by omega⟩⟩,hsender,by omega⟩
    rw [hc.own s x hx]
    exact List.mem_map_of_mem hx

end Causes

/-- What was there when a message was sent, and all that these messages go back to, is numbered below it. The number of
a message is one above the greatest that its sender had. -/
theorem numbers_are_clocks (h : Reachable home creator creatorKey net) :
    (∀ s, ∀ x ∈ net.sent s, (∀ e ∈ x.past, e.seq < x.seq) ∧ (x.seq = 1 ∨ ∃ e ∈ x.past, e.seq+1 = x.seq)) ∧
    (∀ b a, Relation.TransGen net.Names b a → Relation.TransGen net.SentBefore b a) ∧
    ∀ b a, Relation.TransGen net.SentBefore b a → b.seq < a.seq := by
  have hc := h.consistent
  have ht := h.timed
  have hup : ∀ b a, net.SentBefore b a → b.seq < a.seq := by
    intro b a hbefore
    obtain ⟨x,hx,rfl,hb⟩ := hbefore
    exact ht.above _ x hx b hb
  refine ⟨fun s x hx => ⟨ht.above s x hx,?_⟩,fun b a hnames => ?_,fun b a hbefore => transGen_rank hup hbefore⟩
  · have hcaused := hc.caused s x hx
    rcases tip_mem Envelope.seq 0 (ofSender x.message.cause x.past) with hzero | ⟨e,he,htip⟩
    · exact Or.inl (by omega)
    · exact Or.inr ⟨e,(mem_ofSender.mp he).1,by omega⟩
  · exact hnames.lift id (fun b a => ht.sentBefore_of_names hc)

/-- Every device takes in the messages behind all that they go back to: the last message before each of its own sender,
the one that it answers, and what these name in turn. -/
theorem accepted_in_causal_order (h : Reachable home creator creatorKey net) :
    (∀ s, ∀ x ∈ net.sent s,
      (x.last ≠ 0 → ∃ b, net.Names b x.toEnvelope ∧ b.sender = x.sender ∧ b.seq = x.last) ∧
      (x.seq ≠ 1 → ∃ b, net.Names b x.toEnvelope ∧ b.sender = x.message.cause ∧ b.seq+1 = x.seq)) ∧
    ∀ d, Causal (Relation.TransGen net.Names) (net.accepted d) := by
  have hc := h.consistent
  have ht := h.timed
  exact ⟨fun s x hx => ⟨hc.names_last hx,ht.names_cause hc hx⟩,fun d => (ht.causal hc d).transGen⟩

section Gaps

variable {s : NodeId} {x : Sent T} {d : D}

omit [DecidableEq D] in
/-- A device that has not taken in a message has its sender's record below it. -/
theorem Consistent.new_of_not_accepted (hc : Consistent home net) (hx : x ∈ net.sent s)
    (hnew : x.toEnvelope ∉ net.accepted d) : (net.device d).sequenceOf s < x.seq := by
  have hsent : x.toEnvelope ∈ net.sentBy s := List.mem_map_of_mem hx
  rw [hc.mem_accepted hx,(hc.chained s).mem_prefix_iff (hc.part d s) hsent,←hc.reached] at hnew
  exact not_le.mp hnew

omit [DecidableEq D] in
/-- What a device lacks of a sender has a number above the sender's record, and the other way round. -/
theorem Consistent.accepted_iff (hc : Consistent home net) {b : Envelope T} (hb : b ∈ net.sentBy b.sender) :
    b ∈ net.accepted d ↔ b.seq ≤ (net.device d).sequenceOf b.sender := by
  have hmem := (hc.chained b.sender).mem_prefix_iff (hc.part d b.sender) hb
  rw [hc.reached,←hmem,acceptedFrom,mem_ofSender]
  simp

omit [DecidableEq D] in
/-- A message before another one of its sender, with the one that is named between them. -/
theorem Consistent.names_behind (hc : Consistent home net) {p q : List (Sent T)} (hsplit : net.sent s = p ++ x::q)
    {y : Sent T} (hy : y ∈ p) : ∃ b, net.Names b x.toEnvelope ∧ b.sender = s ∧ b.seq = x.last ∧ y.seq ≤ x.last := by
  obtain ⟨hchain,_⟩ := hc.sent_split hsplit
  have hx : x ∈ net.sent s := by simp [hsplit]
  have hp := (chained_append.mp hchain).1
  have hmem : y.toEnvelope ∈ p.map Sent.toEnvelope := List.mem_map_of_mem hy
  have hpos := hp.start_lt hmem
  have hle := hp.le_tip hmem
  have hlast : x.last = tip Envelope.seq 0 (p.map Sent.toEnvelope) := hchain.last_eq.1
  obtain ⟨b,hnames,hsender,hseq⟩ := hc.names_last hx (by omega)
  exact ⟨b,hnames,hsender.trans (hc.own s x hx),hseq,hlast ▸ hle⟩

omit [DecidableEq D] in
/-- A device stands where a new message names it to stand, or lacks the message that is named. -/
theorem Consistent.stands (hc : Consistent home net) (hx : x ∈ net.sent s) (hnew : x.toEnvelope ∉ net.accepted d)
    (hgap : (net.device d).sequenceOf s ≠ x.last) :
    ∃ b, net.Names b x.toEnvelope ∧ b.sender = s ∧ b.seq = x.last ∧ b ∉ net.accepted d := by
  obtain ⟨p,q,hsplit⟩ := List.mem_iff_append.mp hx
  rw [Ne,hc.tip_eq_last_iff hsplit hnew] at hgap
  push Not at hgap
  obtain ⟨y,hy,hlacks⟩ := hgap
  obtain ⟨b,hnames,hsender,hseq,hle⟩ := hc.names_behind hsplit hy
  refine ⟨b,hnames,hsender,hseq,fun hb => hlacks ?_⟩
  have hysent : y ∈ net.sent s := by simp [hsplit,hy]
  have hyown : y.sender = s := hc.own s y hysent
  have hysender : y.toEnvelope ∈ net.sentBy y.sender := by
    rw [hyown]
    exact List.mem_map_of_mem hysent
  have hreached := (hc.accepted_iff hnames.1).mp hb
  rw [hsender] at hreached
  apply (hc.accepted_iff hysender).mpr
  rw [hyown]
  omega

omit [DecidableEq D] in
/-- A device that knows the sender has all that a new message goes back to, or is told of a message that is named and
that it lacks. -/
theorem Timed.answers (h : Timed net) (hc : Consistent home net) (hx : x ∈ net.sent s)
    (hknown : ((net.device d).record s).isSome) (hnew : x.toEnvelope ∉ net.accepted d) :
    ((∀ b, net.Names b x.toEnvelope → b ∈ net.accepted d) ∧
      ∃ maxSequence st, ChannelState.receive s x.message x.id (net.device d) = (.ok maxSequence,st)) ∨
    ∃ b, net.Names b x.toEnvelope ∧ b ∉ net.accepted d ∧ ∃ have_ missing : U64,
      have_.val = (net.device d).sequenceOf b.sender ∧ missing.val = b.seq ∧
      ChannelState.receive s x.message x.id (net.device d) =
        (.err (.missingFromSender b.sender have_ missing),net.device d) := by
  obtain ⟨r,hr⟩ := Option.isSome_iff_exists.mp hknown
  have hv := hc.valid d
  have hreached := ChannelState.sequenceOf_eq hr
  have hlow : r.sequence < x.message.sequence := by
    rw [Fin.lt_def,←hreached]
    exact hc.new_of_not_accepted hx hnew
  by_cases hlast : (net.device d).sequenceOf s = x.last
  · have hsame : r.sequence = x.message.senderLast := Fin.ext (hreached.symm.trans hlast)
    by_cases hcause : (net.device d).sequenceOf x.message.cause+1 < x.seq
    · right
      obtain ⟨b,hnames,hsender,hseq⟩ := h.names_cause hc hx (by omega)
      obtain ⟨have_,hhave,hreceive⟩ := hv.sorted.refuses_cause hr hlow hsame hcause x.id
      refine ⟨b,hnames,fun hb => ?_,have_,_,by rw [hsender]; exact hhave,?_,by rw [hsender]; exact hreceive⟩
      · have hle := (hc.accepted_iff hnames.1).mp hb
        rw [hsender] at hle
        omega
      · have hseq' : b.seq+1 = x.message.sequence.val := hseq
        rw [U64.saturatingPred_val]
        omega
    · refine Or.inl ⟨fun b hnames => ?_,hv.receive_of_receivable ⟨r,hr,hlow,hsame,?_⟩ x.id⟩
      · apply (hc.accepted_iff hnames.1).mpr
        obtain ⟨_,_,⟨hsender,hseq⟩ | ⟨hsender,hseq⟩⟩ := hnames
        · rw [hsender,hc.own s x hx,hlast]
          exact le_of_eq hseq
        · rw [hsender]
          change b.seq+1 = x.seq at hseq
          omega
      · exact not_lt.mp hcause
  · right
    obtain ⟨b,hnames,hsender,hseq,hlacks⟩ := hc.stands hx hnew hlast
    have hgap : r.sequence ≠ x.message.senderLast := by
      intro hsame
      apply hlast
      rw [hreached,hsame]
      rfl
    refine ⟨b,hnames,hlacks,r.sequence,x.message.senderLast,by rw [hsender]; exact hreached.symm,hseq.symm,?_⟩
    rw [hsender]
    exact hv.sorted.refuses_gap hr hlow hgap x.id

end Gaps

/-- What a device answers to any message that has been sent, whenever it comes: it refuses the messages of a sender that
it does not know and those that it has taken in; of the others it takes in exactly those of which it has all that they
go back to, and otherwise it is told of one of these messages that it lacks. -/
theorem gaps_are_detected (h : Reachable home creator creatorKey net) {s : NodeId} {x : Sent T} (hx : x ∈ net.sent s)
    (d : D) :
    ((net.device d).record s = none →
      ChannelState.receive s x.message x.id (net.device d) = (.err .unknownNode,net.device d)) ∧
    (x.toEnvelope ∈ net.accepted d →
      ChannelState.receive s x.message x.id (net.device d) = (.err .alreadyReceived,net.device d)) ∧
    (((net.device d).record s).isSome → x.toEnvelope ∉ net.accepted d →
      (∀ b, Relation.TransGen net.Names b x.toEnvelope → b ∈ net.accepted d) →
      ∃ maxSequence st, ChannelState.receive s x.message x.id (net.device d) = (.ok maxSequence,st)) ∧
    (((net.device d).record s).isSome → x.toEnvelope ∉ net.accepted d →
      (∃ b, Relation.TransGen net.Names b x.toEnvelope ∧ b ∉ net.accepted d) →
      ∃ b, net.Names b x.toEnvelope ∧ b ∉ net.accepted d ∧ ∃ have_ missing : U64,
        have_.val = (net.device d).sequenceOf b.sender ∧ missing.val = b.seq ∧
        ChannelState.receive s x.message x.id (net.device d) =
          (.err (.missingFromSender b.sender have_ missing),net.device d)) := by
  have hc := h.consistent
  have ht := h.timed
  have hs := (hc.valid d).sorted
  refine ⟨fun hnone => hs.refuses_unknown hnone x.id,fun hold => ?_,fun hknown hnew hall => ?_,
    fun hknown hnew hlacks => ?_⟩
  · have hreached := hc.seq_le_of_accepted hold
    have hpos := (hc.chained s).start_lt (List.mem_map_of_mem hx)
    change x.seq ≤ _ at hreached
    rw [show x.toEnvelope.sender = s from hc.own s x hx] at hreached
    cases hr : (net.device d).record s with
    | none =>
      rw [ChannelState.sequenceOf_unknown hr] at hreached
      omega
    | some r =>
      rw [ChannelState.sequenceOf_eq hr] at hreached
      exact hs.refuses_old hr hreached x.id
  · rcases ht.answers hc hx hknown hnew with ⟨_,hok⟩ | ⟨b,hnames,hlacks,_⟩
    · exact hok
    · exact absurd (hall b (.single hnames)) hlacks
  · rcases ht.answers hc hx hknown hnew with ⟨hall,_⟩ | hmissing
    · -- all that the named messages go back to came before them
      obtain ⟨b,hback,hlacks⟩ := hlacks
      apply absurd ?_ hlacks
      cases hback with
      | single hnames => exact hall b hnames
      | tail hbefore hnames => exact (ht.causal hc d).transGen.mem (hall _ hnames) hbefore
    · exact hmissing

section Spoken

def spokenStart : ChannelState 2 Nat :=
  ⟨⟨[ChannelState.freshRecord ⟨Id.ofByte 1⟩ 10],by decide⟩,⟨Id.ofByte 1⟩⟩

def firstSent : Sent Char := ⟨⟨⟨Id.ofByte 1⟩,⟨⟨Id.ofByte 1⟩,0,1,'a'⟩,⟨Id.ofByte 5⟩⟩,[]⟩

def secondSent : Sent Char :=
  ⟨⟨⟨Id.ofByte 1⟩,⟨⟨Id.ofByte 1⟩,1,2,'b'⟩,⟨Id.ofByte 6⟩⟩,[firstSent.toEnvelope]⟩

/-- The table of the creator after so many of its messages. -/
def spokenState (sequence : U64) (id : EnvelopeId) : ChannelState 2 Nat :=
  ⟨⟨[⟨10,⟨Id.ofByte 1⟩,id,1,sequence⟩],Nat.le_succ 1⟩,⟨Id.ofByte 1⟩⟩

def spokenOnce : Network Bool 2 Nat Char :=
  (((initial spokenStart).withDevice true (spokenState 1 ⟨Id.ofByte 5⟩)).post firstSent).accept true
    firstSent.toEnvelope

/-- The creator has sent two messages, and none has come to the other device. -/
def spoken : Network Bool 2 Nat Char :=
  ((spokenOnce.withDevice true (spokenState 2 ⟨Id.ofByte 6⟩)).post secondSent).accept true secondSent.toEnvelope

theorem spoken_reachable : Reachable (fun _ => true) ⟨Id.ofByte 1⟩ 10 spoken := by
  have hfirst : Step (fun _ => true) (initial spokenStart) spokenOnce :=
    Step.send (initial spokenStart) ⟨Id.ofByte 1⟩ 'a' firstSent.message ⟨Id.ofByte 5⟩ 1 _ (by decide) (by decide)
  have hsecond : Step (fun _ => true) spokenOnce spoken :=
    Step.send spokenOnce ⟨Id.ofByte 1⟩ 'b' secondSent.message ⟨Id.ofByte 6⟩ 2 _ (by decide) (by decide)
  exact ⟨spokenStart,rfl,.tail (.single hfirst) hsecond⟩

theorem spoken_sent : spoken.sent ⟨Id.ofByte 1⟩ = [firstSent,secondSent] := rfl

theorem accepted_in_causal_order_spoken : (spoken.accepted true).length = 2 ∧
    Causal (Relation.TransGen spoken.Names) (spoken.accepted true) :=
  ⟨rfl,(accepted_in_causal_order spoken_reachable).2 true⟩

theorem numbers_are_clocks_spoken : spoken.SentBefore firstSent.toEnvelope secondSent.toEnvelope ∧
    firstSent.seq < secondSent.seq := by
  have hbefore : spoken.SentBefore firstSent.toEnvelope secondSent.toEnvelope :=
    ⟨secondSent,spoken_sent ▸ (by simp),rfl,List.mem_cons_self⟩
  exact ⟨hbefore,(numbers_are_clocks spoken_reachable).2.2 _ _ (.single hbefore)⟩

/-- The second message comes first to the other device. -/
theorem gaps_are_detected_spoken : ∃ (b : Envelope Char) (have_ missing : U64), b ∉ spoken.accepted false ∧
    ChannelState.receive ⟨Id.ofByte 1⟩ secondSent.message secondSent.id (spoken.device false) =
      (.err (.missingFromSender b.sender have_ missing),spoken.device false) := by
  have hx : secondSent ∈ spoken.sent ⟨Id.ofByte 1⟩ := by simp [spoken_sent]
  have hsent : spoken.sentBy ⟨Id.ofByte 1⟩ = [firstSent.toEnvelope,secondSent.toEnvelope] := rfl
  have hnames : spoken.Names firstSent.toEnvelope secondSent.toEnvelope := by
    refine ⟨?_,?_,Or.inl (by decide)⟩
    · exact hsent ▸ List.mem_cons_self
    · exact hsent ▸ List.mem_cons_of_mem _ List.mem_cons_self
  obtain ⟨b,_,hlacks,have_,missing,_,_,hreceive⟩ :=
    (gaps_are_detected spoken_reachable hx false).2.2.2 rfl List.not_mem_nil ⟨_,.single hnames,List.not_mem_nil⟩
  exact ⟨b,have_,missing,hlacks,hreceive⟩

end Spoken

end Network

end Finder
