import Finder.Channel.Steps

namespace Finder

namespace ChannelState

variable {maxNodes : Nat} {P T : Type}

/-- No record is lost: every node keeps its key, and its sequence does not go back. -/
def Grown (st st' : ChannelState maxNodes P) : Prop :=
  ∀ n r, st.record n = some r → ∃ r', st'.record n = some r' ∧ r'.publicKey = r.publicKey ∧
    r.sequence ≤ r'.sequence

variable {st st' st'' : ChannelState maxNodes P} {sender node : NodeId} {message : Message T}
  {id : EnvelopeId} {nodeKey : P}

theorem Grown.refl (st : ChannelState maxNodes P) : st.Grown st := fun _ r hr => ⟨r,hr,rfl,le_refl _⟩

theorem Grown.trans (h : st.Grown st') (h' : st'.Grown st'') : st.Grown st'' := by
  intro n r hr
  obtain ⟨r1,hr1,hkey1,hle1⟩ := h n r hr
  obtain ⟨r2,hr2,hkey2,hle2⟩ := h' n r1 hr1
  exact ⟨r2,hr2,hkey2.trans hkey1,hle1.trans hle2⟩

theorem Grown.sequenceOf (h : st.Grown st') (n : NodeId) : st.sequenceOf n ≤ st'.sequenceOf n := by
  cases hr : st.record n with
  | none =>
    rw [sequenceOf_unknown hr]
    exact Nat.zero_le _
  | some r =>
    obtain ⟨r',hr',_,hle⟩ := h n r hr
    rw [sequenceOf_eq hr,sequenceOf_eq hr']
    exact hle

/-- A key that has been looked up is found for good. -/
theorem Grown.getNodeKey (h : st.Grown st') (hs : st.Sorted) (hs' : st'.Sorted) {key : P}
    (hkey : st.getNodeKey node = .ok key) : st'.getNodeKey node = .ok key := by
  obtain ⟨r,hr,hpublic⟩ := hs.getNodeKey_eq_ok.mp hkey
  obtain ⟨r',hr',hsame,_⟩ := h node r hr
  exact hs'.getNodeKey_eq_ok.mpr ⟨r',hr',hsame.trans hpublic⟩

theorem Received.grown {maxSequence : U64} (h : st.Received st' sender message id maxSequence) : st.Grown st' := by
  intro n r hr
  obtain ⟨r0,hr0,hrec⟩ := h.records
  rw [hrec n]
  split_ifs with hn
  · subst hn
    rw [hr] at hr0
    cases hr0
    obtain ⟨r1,hr1,hlt,_⟩ := h.receivable
    rw [hr] at hr1
    cases hr1
    exact ⟨receivedRecord r message id,rfl,rfl,le_of_lt hlt⟩
  · exact ⟨r,hr,rfl,le_refl _⟩

theorem Added.grown (h : st.Added st' node nodeKey) : st.Grown st' := by
  intro n r hr
  rw [h.records n]
  split_ifs with hn
  · subst hn
    rw [h.unknown] at hr
    cases hr
  · exact ⟨r,hr,rfl,le_refl _⟩

theorem receive_grows (hv : st.Valid) : st.Grown (receive sender message id st).2 := by
  rcases hv.receive_cases sender message id with ⟨_,st',hok,hreceived⟩ | ⟨_,e,he⟩
  · rw [hok]
    exact hreceived.grown
  · rw [he]
    exact .refl st

theorem addNode_grows (hs : st.Sorted) : st.Grown (addNode node nodeKey st).2 := by
  rcases hs.addNode_cases node nodeKey with ⟨st',hok,hadded⟩ | ⟨_,e,he⟩
  · rw [hok]
    exact hadded.grown
  · rw [he]
    exact .refl st

/-- A message that is not above its sender's sequence is already there, and no other is. -/
theorem Sorted.checkReceive_alreadyReceived (hs : st.Sorted) :
    st.checkReceive sender message id = .err .alreadyReceived ↔
      ∃ r, st.record sender = some r ∧ message.sequence ≤ r.sequence := by
  cases hr : st.record sender with
  | none =>
    obtain ⟨i,hi,_⟩ := hs.search_unknown hr
    simp [checkReceive,checkReceiveWorker,hi]
  | some r =>
    obtain ⟨i,hi,hir⟩ := hs.search_record hr
    by_cases hle : message.sequence ≤ r.sequence
    · simp [checkReceive,checkReceiveWorker,hi,hir,hle]
    · simp only [Option.some.injEq,exists_eq_left',hle,iff_false]
      simp only [checkReceive,checkReceiveWorker,hi,hir,Outcome.okOr_some,Outcome.ok_bind]
      rw [if_neg hle]
      by_cases hlast : r.sequence = message.senderLast
      · rw [if_neg (not_not.mpr hlast)]
        cases hc : st.search message.cause with
        | ok pos =>
          cases hp : st.nodes.toList[pos]? with
          | none => simp [hp]
          | some c =>
            simp only [hp,Outcome.okOr_some,Outcome.ok_bind]
            split_ifs <;> simp
        | error _ =>
          dsimp only
          split_ifs <;> simp
      · simp [hlast]

end ChannelState

end Finder
