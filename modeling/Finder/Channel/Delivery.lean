import Finder.Channel.Devices
import Mathlib.Data.List.Perm.Subperm

namespace Finder

namespace Network

variable {D : Type} [DecidableEq D] {maxNodes : Nat} {P T : Type} {home : NodeId → D}
  {creator : NodeId} {creatorKey : P} {net : Network D maxNodes P T}

/-- Every device has accepted a prefix of what each node sent; two devices are never on different
chains of one sender. -/
theorem accepted_prefix_of_sent (h : Reachable home creator creatorKey net) :
    (∀ d s, net.acceptedFrom d s <+: net.sentBy s) ∧
    (∀ d d' s, net.acceptedFrom d s <+: net.acceptedFrom d' s ∨
      net.acceptedFrom d' s <+: net.acceptedFrom d s) ∧
    ∀ d s, (net.acceptedFrom d s).Nodup := by
  have hc := h.consistent
  refine ⟨hc.part,fun d d' s => ?_,fun d s => ?_⟩
  · exact List.prefix_or_prefix_of_prefix (hc.part d s) (hc.part d' s)
  · exact ((hc.chained s).shorten (hc.part d s)).nodup

/-- Of the second node the first one's device lacks the afterthought. -/
theorem accepted_prefix_of_sent_delivered :
    talk.acceptedFrom true nodeTwo = [answer.toEnvelope] ∧
    talk.sentBy nodeTwo = [answer.toEnvelope,afterthought.toEnvelope] ∧
    talk.acceptedFrom true nodeTwo <+: talk.sentBy nodeTwo ∧ (talk.acceptedFrom false nodeTwo).Nodup :=
  ⟨rfl,rfl,(accepted_prefix_of_sent talk_reachable).1 true nodeTwo,(accepted_prefix_of_sent talk_reachable).2.2 false _⟩

section Consistent

variable {s : NodeId} {p q : List (Sent T)} {x : Sent T} {d : D}

omit [DecidableEq D] in
theorem Consistent.mem_accepted (hc : Consistent home net) (hx : x ∈ net.sent s) :
    x.toEnvelope ∈ net.accepted d ↔ x.toEnvelope ∈ net.acceptedFrom d s := by
  simp [acceptedFrom,hc.own s x hx]

omit [DecidableEq D] in
theorem Consistent.sent_split (hc : Consistent home net) (hx : net.sent s = p ++ x::q) :
    Chained Envelope.last Envelope.seq 0 (p.map Sent.toEnvelope ++ x.toEnvelope::q.map Sent.toEnvelope) ∧
      net.sentBy s = p.map Sent.toEnvelope ++ x.toEnvelope::q.map Sent.toEnvelope := by
  have hs : net.sentBy s = p.map Sent.toEnvelope ++ x.toEnvelope::q.map Sent.toEnvelope := by
    simp [sentBy,hx]
  exact ⟨hs ▸ hc.chained s,hs⟩

omit [DecidableEq D] in
/-- A device stands just before a message of a chain when it has all the earlier ones and not it. -/
theorem Consistent.tip_eq_last_iff (hc : Consistent home net) (hx : net.sent s = p ++ x::q)
    (hnew : x.toEnvelope ∉ net.accepted d) :
    (net.device d).sequenceOf s = x.last ↔ ∀ y ∈ p, y.toEnvelope ∈ net.accepted d := by
  obtain ⟨hchain,hsent⟩ := hc.sent_split hx
  have hxmem : x ∈ net.sent s := by simp [hx]
  have hmem : ∀ y ∈ p, y ∈ net.sent s := fun y hy => by simp [hx,hy]
  have hpart : net.acceptedFrom d s <+: p.map Sent.toEnvelope := by
    refine hchain.prefix_of_not_mem (hsent ▸ hc.part d s) ?_
    rwa [←hc.mem_accepted hxmem]
  rw [hc.reached,show x.last = tip Envelope.seq 0 (p.map Sent.toEnvelope) from hchain.last_eq.1]
  constructor
  · intro htip y hy
    have hback := hchain.prefix_of_tip_le (List.prefix_append _ _)
      (hpart.trans (List.prefix_append _ _)) (le_of_eq htip.symm)
    exact (hc.mem_accepted (hmem y hy)).mpr (hback.subset (List.mem_map_of_mem hy))
  · intro hall
    refine congrArg _ (hpart.eq_of_length_le ?_)
    have hnodup := ((chained_append.mp hchain).1).nodup
    refine (List.subperm_of_subset hnodup (fun e he => ?_)).length_le
    obtain ⟨y,hy,rfl⟩ := List.mem_map.mp he
    exact (hc.mem_accepted (hmem y hy)).mp (hall y hy)

omit [DecidableEq D] in
/-- A device that has accepted a message has the sender's record at it or past it. -/
theorem Consistent.seq_le_of_accepted (hc : Consistent home net) {e : Envelope T}
    (he : e ∈ net.accepted d) : e.seq ≤ (net.device d).sequenceOf e.sender := by
  have hmem : e ∈ net.acceptedFrom d e.sender := mem_ofSender.mpr ⟨he,rfl⟩
  rw [hc.reached]
  exact ((hc.chained e.sender).shorten (hc.part d e.sender)).le_tip hmem

omit [DecidableEq D] in
theorem Consistent.receivable_iff (hc : Consistent home net) (hx : net.sent s = p ++ x::q)
    (hknown : ((net.device d).record s).isSome) (hnew : x.toEnvelope ∉ net.accepted d) :
    (net.device d).Receivable s x.message ↔ (∀ y ∈ p, y.toEnvelope ∈ net.accepted d) ∧
      x.message.sequence.val-1 ≤ (net.device d).sequenceOf x.message.cause := by
  obtain ⟨r,hr⟩ := Option.isSome_iff_exists.mp hknown
  obtain ⟨hchain,-⟩ := hc.sent_split hx
  rw [←hc.tip_eq_last_iff hx hnew,ChannelState.sequenceOf_eq hr]
  constructor
  · rintro ⟨r',hr',-,hlast,hcause⟩
    obtain rfl : r' = r := Option.some.inj (hr'.symm.trans hr)
    exact ⟨by rw [hlast]; rfl,by omega⟩
  · rintro ⟨hlast,hcause⟩
    have hlt : x.last < x.seq := by
      rw [show x.last = _ from hchain.last_eq.1]
      exact hchain.last_eq.2
    refine ⟨r,hr,?_,Fin.ext hlast,by omega⟩
    rw [Fin.lt_def,hlast]
    exact hlt

omit [DecidableEq D] in
/-- Whoever has the sender's past has its chain up to the message and its cause far enough on. -/
theorem Consistent.past_suffices (hc : Consistent home net) (hx : net.sent s = p ++ x::q)
    (hpast : ∀ e ∈ x.past, e ∈ net.accepted d) : (∀ y ∈ p, y.toEnvelope ∈ net.accepted d) ∧
      x.message.sequence.val-1 ≤ (net.device d).sequenceOf x.message.cause := by
  have hxmem : x ∈ net.sent s := by simp [hx]
  constructor
  · intro y hy
    have hbefore := hc.before s p x q hx
    have hmem : y.toEnvelope ∈ ofSender s x.past := by
      rw [hbefore]
      exact List.mem_map_of_mem hy
    exact hpast _ (mem_ofSender.mp hmem).1
  · have hseq := hc.caused s x hxmem
    change x.seq-1 ≤ _
    rcases tip_mem Envelope.seq 0 (ofSender x.message.cause x.past) with h0 | ⟨e,he,htip⟩
    · omega
    · obtain ⟨hmem,hsender⟩ := mem_ofSender.mp he
      have hle := hc.seq_le_of_accepted (hpast e hmem)
      rw [hsender] at hle
      omega

end Consistent

/-- A device that knows the sender takes a new message exactly when it has all the sender's earlier
ones and the cause at most one behind, hence at the latest when it has all that the sender had. -/
theorem receive_iff_past_accepted (h : Reachable home creator creatorKey net) {s : NodeId}
    {p q : List (Sent T)} {x : Sent T} {d : D} (hx : net.sent s = p ++ x::q)
    (hknown : ((net.device d).record s).isSome) (hnew : x.toEnvelope ∉ net.accepted d) :
    ((∃ maxSequence st, ChannelState.receive s x.message x.id (net.device d) = (.ok maxSequence,st)) ↔
      (∀ y ∈ p, y.toEnvelope ∈ net.accepted d) ∧
        x.message.sequence.val-1 ≤ (net.device d).sequenceOf x.message.cause) ∧
    ((∀ e ∈ x.past, e ∈ net.accepted d) →
      ∃ maxSequence st, ChannelState.receive s x.message x.id (net.device d) = (.ok maxSequence,st)) := by
  have hc := h.consistent
  have hiff := hc.receivable_iff hx hknown hnew
  refine ⟨⟨?_,fun hp => (hc.valid d).receive_of_receivable (hiff.mpr hp) x.id⟩,fun hpast => ?_⟩
  · rintro ⟨maxSequence,st,hok⟩
    exact hiff.mp ((hc.valid d).receive_ok hok).receivable
  · exact (hc.valid d).receive_of_receivable (hiff.mpr (hc.past_suffices hx hpast)) x.id

/-- The afterthought is under way to the first node's device, which has all that its sender had. -/
theorem receive_iff_past_accepted_afterthought : talk.sent nodeTwo = [answer] ++ afterthought::[] ∧
    afterthought.past = [question.toEnvelope,answer.toEnvelope] ∧
    ∃ maxSequence st, ChannelState.receive nodeTwo afterthought.message afterthought.id (talk.device true) =
      (.ok maxSequence,st) := by
  refine ⟨rfl,rfl,(receive_iff_past_accepted talk_reachable (p := [answer]) (q := []) rfl rfl ?_).2 ?_⟩
  · rw [talk_accepted.1]
    decide
  · rw [talk_accepted.1]
    exact fun e he => he

end Network

end Finder
