import Finder.Protocol.Channel
import Mathlib.Data.Prod.Lex
import Mathlib.Tactic.Linarith

namespace Finder

/-- The pair by which the newest node is chosen. -/
def NodeSequence.stamp {P : Type} (r : NodeSequence P) : U64 ×ₗ EnvelopeId :=
  toLex (r.sequence,r.id)

theorem NodeSequence.sequence_le_of_stamp_le {P : Type} {r c : NodeSequence P}
    (h : r.stamp ≤ c.stamp) : r.sequence ≤ c.sequence := by
  rcases Prod.Lex.le_iff.mp h with h | h
  · exact le_of_lt h
  · exact le_of_eq h.1

namespace ChannelState

variable {maxNodes : Nat} {P T : Type}

/-- The record of a node, if it is in the table. -/
def record (st : ChannelState maxNodes P) (n : NodeId) : Option (NodeSequence P) :=
  entry NodeSequence.node n st.nodes.toList

/-- The sequence of a node; an unknown node counts as 0. -/
def sequenceOf (st : ChannelState maxNodes P) (n : NodeId) : Nat :=
  match st.record n with
  | some r => r.sequence.val
  | none => 0

def Sorted (st : ChannelState maxNodes P) : Prop := SortedBy NodeSequence.node st.nodes.toList

/-- The table is sorted and the newest node is in it with the greatest stamp. -/
structure Valid (st : ChannelState maxNodes P) : Prop where
  sorted : st.Sorted
  newest : ∃ c, st.record st.newest = some c ∧ ∀ n r, st.record n = some r → r.stamp ≤ c.stamp

theorem record_node {st : ChannelState maxNodes P} {n : NodeId} {r : NodeSequence P}
    (h : st.record n = some r) : r.node = n := entry_key h

theorem record_mem {st : ChannelState maxNodes P} {n : NodeId} {r : NodeSequence P}
    (h : st.record n = some r) : r ∈ st.nodes.toList := entry_mem h

theorem Sorted.record_of_mem {st : ChannelState maxNodes P} (hs : st.Sorted) {r : NodeSequence P}
    (h : r ∈ st.nodes.toList) : st.record r.node = some r := SortedBy.entry_of_mem hs h

theorem Sorted.mem_nodes_iff {st : ChannelState maxNodes P} (hs : st.Sorted) {n : NodeId} :
    n ∈ st.nodes.toList.map NodeSequence.node ↔ (st.record n).isSome = true := by
  rw [List.mem_map,Option.isSome_iff_exists]
  constructor
  · rintro ⟨r,hr,rfl⟩
    exact ⟨r,hs.record_of_mem hr⟩
  · rintro ⟨r,hr⟩
    exact ⟨r,record_mem hr,record_node hr⟩

theorem sequenceOf_eq {st : ChannelState maxNodes P} {n : NodeId} {r : NodeSequence P}
    (h : st.record n = some r) : st.sequenceOf n = r.sequence.val := by simp [sequenceOf,h]

theorem sequenceOf_unknown {st : ChannelState maxNodes P} {n : NodeId} (h : st.record n = none) :
    st.sequenceOf n = 0 := by simp [sequenceOf,h]

theorem Sorted.search_record {st : ChannelState maxNodes P} (hs : st.Sorted) {n : NodeId}
    {r : NodeSequence P} (h : st.record n = some r) :
    ∃ i, st.search n = .ok i ∧ st.nodes.toList[i]? = some r := SortedBy.search_of_entry hs h

theorem Sorted.search_unknown {st : ChannelState maxNodes P} (hs : st.Sorted) {n : NodeId}
    (h : st.record n = none) : ∃ i, st.search n = .error i ∧ i ≤ st.nodes.toList.length :=
  SortedBy.search_of_entry_none hs h

/-- Two sorted tables with the same records and the same newest node are one state. -/
theorem Sorted.ext {st st' : ChannelState maxNodes P} (hs : st.Sorted) (hs' : st'.Sorted)
    (hr : ∀ n, st.record n = st'.record n) (hn : st.newest = st'.newest) : st = st' :=
  ChannelState.ext (HVec.ext (SortedBy.ext hs hs' hr)) hn

section Lookup

variable {st : ChannelState maxNodes P} {n : NodeId} {r : NodeSequence P}

theorem getNodeKey_cases (st : ChannelState maxNodes P) (n : NodeId) : (∃ key, st.getNodeKey n = .ok key) ∨
    st.getNodeKey n = .err .unknownNode ∨ st.getNodeKey n = .err .unreachable := by
  unfold getNodeKey
  cases st.search n with
  | error i => exact Or.inr (Or.inl rfl)
  | ok i =>
    cases hi : st.nodes.toList[i]? with
    | none => exact Or.inr (Or.inr (by simp [hi]))
    | some r => exact Or.inl ⟨r.publicKey,by simp [hi]⟩

theorem Sorted.getNodeKey_record (hs : st.Sorted) (h : st.record n = some r) :
    st.getNodeKey n = .ok r.publicKey := by
  obtain ⟨i,hi,hr⟩ := hs.search_record h
  simp [getNodeKey,hi,hr]

theorem Sorted.getNodeKey_unknown (hs : st.Sorted) (h : st.record n = none) :
    st.getNodeKey n = .err .unknownNode := by
  obtain ⟨i,hi,_⟩ := hs.search_unknown h
  simp [getNodeKey,hi]

theorem Sorted.getNodeKey_eq_ok (hs : st.Sorted) {key : P} :
    st.getNodeKey n = .ok key ↔ ∃ r, st.record n = some r ∧ r.publicKey = key := by
  cases h : st.record n with
  | some r => simp [hs.getNodeKey_record h]
  | none => simp [hs.getNodeKey_unknown h]

theorem Valid.getCurrent_eq (hv : st.Valid) :
    ∃ c, st.getCurrent = .ok c ∧ st.record st.newest = some c ∧
      ∀ n r, st.record n = some r → r.stamp ≤ c.stamp := by
  obtain ⟨c,hc,hmax⟩ := hv.newest
  obtain ⟨i,hi,hr⟩ := hv.sorted.search_record hc
  exact ⟨c,by simp [getCurrent,hi,hr],hc,hmax⟩

theorem Valid.sequenceOf_le (hv : st.Valid) {c : NodeSequence P} (hc : st.record st.newest = some c)
    (n : NodeId) : st.sequenceOf n ≤ c.sequence.val := by
  obtain ⟨c',hc',hmax⟩ := hv.newest
  obtain rfl : c' = c := Option.some.inj (hc'.symm.trans hc)
  cases h : st.record n with
  | some r => rw [sequenceOf_eq h]; exact NodeSequence.sequence_le_of_stamp_le (hmax n r h)
  | none => rw [sequenceOf_unknown h]; exact Nat.zero_le _

end Lookup

section CheckReceive

variable {st : ChannelState maxNodes P} {sender : NodeId} {message : Message T} {id : EnvelopeId}

/-- What `check_receive` asks: the sender is known, its last sequence is the one the message
names and lies below the message, and the cause is at most one behind. -/
def Receivable (st : ChannelState maxNodes P) (sender : NodeId) (message : Message T) : Prop :=
  ∃ r, st.record sender = some r ∧ r.sequence < message.sequence ∧
    r.sequence = message.senderLast ∧ message.sequence.val ≤ st.sequenceOf message.cause+1

theorem Sorted.checkReceiveWorker_eq_ok (hs : st.Sorted) {i : Nat} :
    st.checkReceiveWorker sender message id = .ok i ↔
      ∃ r, st.search sender = .ok i ∧ st.nodes.toList[i]? = some r ∧ r.sequence < message.sequence ∧
        r.sequence = message.senderLast ∧ message.sequence.val ≤ st.sequenceOf message.cause+1 := by
  cases hr : st.record sender with
  | none =>
    obtain ⟨j,hj,_⟩ := hs.search_unknown hr
    simp [checkReceiveWorker,hj]
  | some r =>
    obtain ⟨j,hj,hjr⟩ := hs.search_record hr
    have hval : message.sequence.val = 0 → ¬r.sequence < message.sequence := by
      intro h; rw [Fin.lt_def,h]; omega
    simp only [checkReceiveWorker,hj,hjr,Outcome.okOr_some,Outcome.ok_bind]
    by_cases hle : message.sequence ≤ r.sequence
    · rw [if_pos hle]
      simp only [reduceCtorEq,Except.ok.injEq,false_iff]
      rintro ⟨r',rfl,hr',hlt,_⟩
      rw [hjr] at hr'
      cases hr'
      exact absurd hlt (not_lt.mpr hle)
    · rw [if_neg hle]
      have hlt : r.sequence < message.sequence := not_le.mp hle
      by_cases hlast : r.sequence = message.senderLast
      · rw [if_neg (not_not.mpr hlast)]
        cases hc : st.record message.cause with
        | none =>
          obtain ⟨k,hk,_⟩ := hs.search_unknown hc
          simp only [hk,sequenceOf_unknown hc]
          by_cases hz : U64.saturatingPred message.sequence = 0
          · have hone : message.sequence.val ≤ 1 := by
              have := congrArg Fin.val hz
              simp only [U64.saturatingPred_val,Fin.val_zero] at this
              omega
            simp only [hz,ne_eq,not_true_eq_false,if_false,Outcome.ok.injEq,Except.ok.injEq]
            exact ⟨fun h => h ▸ ⟨r,rfl,hjr,hlt,hlast,by omega⟩,fun ⟨_,h,_⟩ => h⟩
          · rw [if_pos hz]
            simp only [reduceCtorEq,Except.ok.injEq,false_iff]
            rintro ⟨_,_,_,_,_,hone⟩
            apply hz
            apply Fin.ext
            simp only [U64.saturatingPred_val,Fin.val_zero]
            omega
        | some c =>
          obtain ⟨k,hk,hkc⟩ := hs.search_record hc
          simp only [hk,hkc,Outcome.okOr_some,Outcome.ok_bind,sequenceOf_eq hc]
          by_cases hcause : c.sequence < U64.saturatingPred message.sequence
          · rw [if_pos hcause]
            rw [Fin.lt_def,U64.saturatingPred_val] at hcause
            simp only [reduceCtorEq,Except.ok.injEq,false_iff]
            rintro ⟨_,_,_,_,_,hone⟩
            omega
          · rw [if_neg hcause]
            rw [Fin.lt_def,U64.saturatingPred_val] at hcause
            simp only [Outcome.ok.injEq,Except.ok.injEq]
            exact ⟨fun h => h ▸ ⟨r,rfl,hjr,hlt,hlast,by omega⟩,fun ⟨_,h,_⟩ => h⟩
      · rw [if_pos hlast]
        simp only [reduceCtorEq,Except.ok.injEq,false_iff]
        rintro ⟨r',rfl,hr',_,hlast',_⟩
        rw [hjr] at hr'
        cases hr'
        exact hlast hlast'

theorem Sorted.checkReceiveWorker_of_receivable (hs : st.Sorted) (h : st.Receivable sender message)
    (id : EnvelopeId) :
    ∃ i r, st.checkReceiveWorker sender message id = .ok i ∧ st.nodes.toList[i]? = some r ∧
      st.record sender = some r := by
  obtain ⟨r,hr,hrest⟩ := h
  obtain ⟨i,hi,hir⟩ := hs.search_record hr
  exact ⟨i,r,hs.checkReceiveWorker_eq_ok.mpr ⟨r,hi,hir,hrest⟩,hir,hr⟩

theorem Sorted.receivable_of_worker (hs : st.Sorted) {i : Nat}
    (h : st.checkReceiveWorker sender message id = .ok i) :
    ∃ r, st.nodes.toList[i]? = some r ∧ st.record sender = some r ∧ st.Receivable sender message := by
  obtain ⟨r,hi,hir,hrest⟩ := hs.checkReceiveWorker_eq_ok.mp h
  obtain ⟨r',hr',he⟩ := SortedBy.search_ok hs hi
  obtain rfl : r = r' := Option.some.inj (hir.symm.trans hr')
  exact ⟨r,hir,he,r,he,hrest⟩

theorem Sorted.checkReceive_eq_ok (hs : st.Sorted) (id : EnvelopeId) :
    st.checkReceive sender message id = .ok () ↔ st.Receivable sender message := by
  constructor
  · intro h
    obtain ⟨i,hi,_⟩ := Outcome.bind_eq_ok.mp h
    obtain ⟨_,_,_,hrec⟩ := hs.receivable_of_worker hi
    exact hrec
  · intro h
    obtain ⟨i,_,hi,_⟩ := hs.checkReceiveWorker_of_receivable h id
    exact Outcome.bind_eq_ok.mpr ⟨i,hi,rfl⟩

end CheckReceive

end ChannelState

end Finder
