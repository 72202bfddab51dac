import Finder.Client.Calls
import Mathlib.Data.List.Perm.Subperm

namespace Finder

variable {maxChannels maxNodes slabSize : Nat} {C P S : Type}

/-- The clock of a node that asks for what it has not got yet. -/
def NodeSequence.clock (n : NodeSequence P) : Clock := ⟨n.node,n.sequence⟩

/-- The clock that stands for a node the request does not name. -/
def NodeSequence.firstClock (n : NodeSequence P) : Clock := ⟨n.node,n.firstSequence⟩

/-- The clocks of a request with those of the nodes it does not name, where both are sorted. -/
def mergedClocks : List (NodeSequence P) → List Clock → List Clock
  | [],clocks => clocks
  | n::nodes,[] => n.firstClock::mergedClocks nodes []
  | n::nodes,c::clocks =>
    if c.node = n.node then c::mergedClocks nodes clocks
    else if c.node < n.node then c::mergedClocks (n::nodes) clocks
    else n.firstClock::mergedClocks nodes (c::clocks)
termination_by nodes clocks => nodes.length+clocks.length

section Merged

variable {nodes : List (NodeSequence P)} {clocks : List Clock} {c : Clock}

theorem mergedClocks_node (hc : c ∈ mergedClocks nodes clocks) :
    (∃ x ∈ clocks, x.node = c.node) ∨ ∃ n ∈ nodes, n.node = c.node := by
  induction nodes, clocks using mergedClocks.induct with
  | case1 clocks =>
    rw [mergedClocks] at hc
    exact Or.inl ⟨c,hc,rfl⟩
  | case2 n nodes ih =>
    rw [mergedClocks] at hc
    rcases List.mem_cons.mp hc with rfl | hc
    · exact Or.inr ⟨n,List.mem_cons_self,rfl⟩
    · exact (ih hc).imp_right (fun h => by simp [h])
  | case3 n nodes x clocks hsame ih =>
    rw [mergedClocks,if_pos hsame] at hc
    rcases List.mem_cons.mp hc with rfl | hc
    · exact Or.inl ⟨c,List.mem_cons_self,rfl⟩
    · exact (ih hc).imp (fun h => by simp [h]) (fun h => by simp [h])
  | case4 n nodes x clocks hsame hless ih =>
    rw [mergedClocks,if_neg hsame,if_pos hless] at hc
    rcases List.mem_cons.mp hc with rfl | hc
    · exact Or.inl ⟨c,List.mem_cons_self,rfl⟩
    · exact (ih hc).imp_left (fun h => by simp [h])
  | case5 n nodes x clocks hsame hless ih =>
    rw [mergedClocks,if_neg hsame,if_neg hless] at hc
    rcases List.mem_cons.mp hc with rfl | hc
    · exact Or.inr ⟨n,List.mem_cons_self,rfl⟩
    · exact (ih hc).imp_right (fun h => by simp [h])

theorem mergedClocks_above {k : NodeId} (hnodes : ∀ n ∈ nodes, k < n.node) (hclocks : ∀ x ∈ clocks, k < x.node) :
    ∀ c ∈ mergedClocks nodes clocks, k < c.node := by
  intro c hc
  rcases mergedClocks_node hc with ⟨x,hx,hnode⟩ | ⟨n,hn,hnode⟩
  · exact hnode ▸ hclocks x hx
  · exact hnode ▸ hnodes n hn

theorem SortedBy.le_of_mem {α κ : Type} [LinearOrder κ] {key : α → κ} {x y : α} {xs : List α}
    (h : SortedBy key (x::xs)) (hy : y ∈ x::xs) : key x ≤ key y := by
  rcases List.mem_cons.mp hy with rfl | hy
  · exact le_refl _
  · exact le_of_lt (h.head_lt hy)

theorem mergedClocks_sorted (hnodes : SortedBy NodeSequence.node nodes) (hclocks : SortedBy Clock.node clocks) :
    SortedBy Clock.node (mergedClocks nodes clocks) := by
  induction nodes, clocks using mergedClocks.induct with
  | case1 clocks =>
    rw [mergedClocks]
    exact hclocks
  | case2 n nodes ih =>
    rw [mergedClocks]
    exact List.pairwise_cons.mpr ⟨mergedClocks_above (fun m hm => hnodes.head_lt hm) (by simp),ih hnodes.tail hclocks⟩
  | case3 n nodes x clocks hsame ih =>
    rw [mergedClocks,if_pos hsame]
    refine List.pairwise_cons.mpr ⟨mergedClocks_above (fun m hm => ?_) (fun y hy => hclocks.head_lt hy),
      ih hnodes.tail hclocks.tail⟩
    rw [hsame]
    exact hnodes.head_lt hm
  | case4 n nodes x clocks hsame hless ih =>
    rw [mergedClocks,if_neg hsame,if_pos hless]
    refine List.pairwise_cons.mpr ⟨mergedClocks_above (fun m hm => ?_) (fun y hy => hclocks.head_lt hy),
      ih hnodes hclocks.tail⟩
    exact lt_of_lt_of_le hless (hnodes.le_of_mem hm)
  | case5 n nodes x clocks hsame hless ih =>
    have hlater : n.node < x.node := lt_of_le_of_ne (not_lt.mp hless) (Ne.symm hsame)
    rw [mergedClocks,if_neg hsame,if_neg hless]
    refine List.pairwise_cons.mpr ⟨mergedClocks_above (fun m hm => hnodes.head_lt hm) (fun y hy => ?_),
      ih hnodes.tail hclocks⟩
    exact lt_of_lt_of_le hlater (hclocks.le_of_mem hy)

/-- All clocks of the request are kept, and each node that it does not name has its own one. -/
theorem mem_mergedClocks (hnodes : SortedBy NodeSequence.node nodes) (hclocks : SortedBy Clock.node clocks) :
    c ∈ mergedClocks nodes clocks ↔
      c ∈ clocks ∨ ∃ n ∈ nodes, (∀ x ∈ clocks, x.node ≠ n.node) ∧ c = n.firstClock := by
  induction nodes, clocks using mergedClocks.induct with
  | case1 clocks =>
    rw [mergedClocks]
    simp
  | case2 n nodes ih =>
    rw [mergedClocks,List.mem_cons,ih hnodes.tail hclocks]
    simp
  | case3 n nodes x clocks hsame ih =>
    -- the node is named by the first clock, and no later one is
    have hlater : ∀ m ∈ nodes, x.node ≠ m.node := by
      intro m hm
      rw [hsame]
      exact ne_of_lt (hnodes.head_lt hm)
    rw [mergedClocks,if_pos hsame,List.mem_cons,ih hnodes.tail hclocks.tail,List.mem_cons,or_assoc]
    refine or_congr_right (or_congr_right ⟨?_,?_⟩)
    · rintro ⟨m,hm,hno,rfl⟩
      refine ⟨m,List.mem_cons_of_mem _ hm,fun y hy => ?_,rfl⟩
      rcases List.mem_cons.mp hy with rfl | hy
      · exact hlater m hm
      · exact hno y hy
    · rintro ⟨m,hm,hno,rfl⟩
      rcases List.mem_cons.mp hm with rfl | hm
      · exact absurd hsame (hno x List.mem_cons_self)
      · exact ⟨m,hm,fun y hy => hno y (List.mem_cons_of_mem _ hy),rfl⟩
  | case4 n nodes x clocks hsame hless ih =>
    rw [mergedClocks,if_neg hsame,if_pos hless,List.mem_cons,ih hnodes hclocks.tail,List.mem_cons,or_assoc]
    refine or_congr_right (or_congr_right ⟨?_,?_⟩)
    · rintro ⟨m,hm,hno,rfl⟩
      refine ⟨m,hm,fun y hy => ?_,rfl⟩
      rcases List.mem_cons.mp hy with rfl | hy
      · exact ne_of_lt (lt_of_lt_of_le hless (hnodes.le_of_mem hm))
      · exact hno y hy
    · rintro ⟨m,hm,hno,rfl⟩
      exact ⟨m,hm,fun y hy => hno y (List.mem_cons_of_mem _ hy),rfl⟩
  | case5 n nodes x clocks hsame hless ih =>
    have hlater : n.node < x.node := lt_of_le_of_ne (not_lt.mp hless) (Ne.symm hsame)
    rw [mergedClocks,if_neg hsame,if_neg hless,List.mem_cons,ih hnodes.tail hclocks]
    constructor
    · rintro (rfl | hc | ⟨m,hm,hno,rfl⟩)
      · refine Or.inr ⟨n,List.mem_cons_self,fun y hy => ?_,rfl⟩
        exact ne_of_gt (lt_of_lt_of_le hlater (hclocks.le_of_mem hy))
      · exact Or.inl hc
      · exact Or.inr ⟨m,List.mem_cons_of_mem _ hm,hno,rfl⟩
    · rintro (hc | ⟨m,hm,hno,rfl⟩)
      · exact Or.inr (Or.inl hc)
      · rcases List.mem_cons.mp hm with rfl | hm
        · exact Or.inl rfl
        · exact Or.inr (Or.inr ⟨m,hm,hno,rfl⟩)

end Merged

section Pushing

variable {clocks : List Clock} {v w : HVec Clock maxNodes}

theorem pushClock_ok {c : Clock} (hw : w.toList = v.toList ++ [c]) : Client.pushClock c v = (.ok (),w) := by
  rw [Client.pushClock,HVec.push_eq_some.mpr hw]

/-- Where all clocks find room, the next one does. -/
theorem room_for_clock {c : Clock} (hw : w.toList = v.toList ++ c::clocks) :
    ∃ u : HVec Clock maxNodes, u.toList = v.toList ++ [c] ∧ w.toList = u.toList ++ clocks := by
  have hbound := w.bounded
  rw [hw,List.length_append,List.length_cons] at hbound
  refine ⟨⟨v.toList ++ [c],by rw [List.length_append,List.length_singleton]; omega⟩,rfl,?_⟩
  rw [hw,List.append_assoc]
  rfl

theorem pushClocks_ok (hw : w.toList = v.toList ++ clocks) : Client.pushClocks clocks v = (.ok (),w) := by
  induction clocks generalizing v with
  | nil =>
    rw [List.append_nil] at hw
    rw [HVec.ext hw]
    rfl
  | cons c clocks ih =>
    obtain ⟨u,hu,hrest⟩ := room_for_clock hw
    rw [Client.pushClocks,Call.bind_ok (pushClock_ok hu)]
    exact ih hrest

/-- The loops of `start_sync_response` write the merged clocks, as long as there is room for them. -/
theorem mergeNodes_ok {nodes : List (NodeSequence P)} (hw : w.toList = v.toList ++ mergedClocks nodes clocks) :
    (Client.mergeNodes nodes clocks >>= Client.pushClocks) v = (.ok (),w) := by
  induction nodes, clocks using mergedClocks.induct generalizing v with
  | case1 clocks =>
    rw [mergedClocks] at hw
    rw [Client.mergeNodes,Call.bind_ok (Call.pure_apply clocks v)]
    exact pushClocks_ok hw
  | case2 n nodes ih =>
    rw [mergedClocks] at hw
    obtain ⟨u,hu,hrest⟩ := room_for_clock hw
    refine (Call.bind_congr ?_).trans (ih hrest)
    have hnone : Client.mergeClocks n [] v = (.ok (false,[]),v) := rfl
    rw [Client.mergeNodes,Call.bind_ok hnone]
    exact Call.bind_ok (pushClock_ok hu)
  | case3 n nodes c clocks hsame ih =>
    rw [mergedClocks,if_pos hsame] at hw
    obtain ⟨u,hu,hrest⟩ := room_for_clock hw
    refine (Call.bind_congr ?_).trans (ih hrest)
    have hfound : Client.mergeClocks n (c::clocks) v = (.ok (true,clocks),u) := by
      rw [Client.mergeClocks,if_pos hsame]
      exact Call.bind_ok (pushClock_ok hu)
    rw [Client.mergeNodes]
    exact Call.bind_ok hfound
  | case4 n nodes c clocks hsame hless ih =>
    rw [mergedClocks,if_neg hsame,if_pos hless] at hw
    obtain ⟨u,hu,hrest⟩ := room_for_clock hw
    refine (Call.bind_congr ?_).trans (ih hrest)
    have hnext : Client.mergeClocks n (c::clocks) v = Client.mergeClocks n clocks u := by
      rw [Client.mergeClocks,if_neg hsame,if_pos hless]
      exact Call.bind_ok (pushClock_ok hu)
    rw [Client.mergeNodes,Client.mergeNodes]
    exact Call.bind_congr hnext
  | case5 n nodes c clocks hsame hless ih =>
    rw [mergedClocks,if_neg hsame,if_neg hless] at hw
    obtain ⟨u,hu,hrest⟩ := room_for_clock hw
    refine (Call.bind_congr ?_).trans (ih hrest)
    have hnone : Client.mergeClocks n (c::clocks) v = (.ok (false,c::clocks),v) := by
      rw [Client.mergeClocks,if_neg hsame,if_neg hless]
      rfl
    rw [Client.mergeNodes,Call.bind_ok hnone]
    exact Call.bind_ok (pushClock_ok hu)

end Pushing

section Requests

variable {client : Client maxChannels maxNodes slabSize C P S} {channelId : ChannelId}
  {ch : Channel maxNodes slabSize C P}

/-- A request names every node of the channel with the sequence it is at. -/
theorem finishSyncRequest_ok (hget : client.channels.get channelId = some ch) (request : SyncRequest maxNodes) :
    ∃ clocks : HVec Clock maxNodes, clocks.toList = ch.state.listNodes.map NodeSequence.clock ∧
      client.finishSyncRequest channelId request = (.ok (),{ request with vectorClock := clocks }) := by
  obtain ⟨clocks,hclocks⟩ : ∃ v : HVec Clock maxNodes, v.toList = ch.state.listNodes.map NodeSequence.clock :=
    ⟨⟨_,by rw [List.length_map]; exact ch.state.nodes.bounded⟩,rfl⟩
  have hpush : Client.pushClocks (ch.state.listNodes.map NodeSequence.clock) HVec.empty = (.ok (),clocks) :=
    pushClocks_ok (by rw [hclocks]; rfl)
  refine ⟨clocks,hclocks,?_⟩
  have hheld : client.channel channelId = .ok ch := by simp [Client.channel,hget]
  unfold Client.finishSyncRequest
  rw [Call.bind_ok (a := ch) (t := request) (by simp [hheld]),
    Call.bind_ok (a := ()) (t := { request with vectorClock := HVec.empty }) (by simp)]
  rw [Call.field_apply]
  have hsame : Client.pushClocks (ch.state.listNodes.map (fun node => ⟨node.node,node.sequence⟩)) HVec.empty =
      (.ok (),clocks) := hpush
  simp only [hsame]

/-- A response starts as the nodes of the channel and the clock of the request are merged. -/
theorem startSyncResponse_eq (hget : client.channels.get channelId = some ch) (request : SyncRequest maxNodes)
    (state : SyncResponderState maxNodes) {outcome : Outcome ClientError Unit} {clocks : HVec Clock maxNodes}
    (hmerge : (Client.mergeNodes ch.state.listNodes request.vectorClock.toList >>= Client.pushClocks) HVec.empty =
      (outcome,clocks)) :
    client.startSyncResponse channelId request state = (outcome,{ state with vectorClock := clocks }) := by
  have hheld : client.channel channelId = .ok ch := by simp [Client.channel,hget]
  unfold Client.startSyncResponse
  rw [Call.bind_ok (a := ch) (t := state) (by simp [hheld]),
    Call.bind_ok (a := ()) (t := { state with vectorClock := HVec.empty }) (by simp)]
  rw [Call.field_apply]
  have hsame : (do
      let rest ← Client.mergeNodes ch.state.listNodes request.vectorClock.toList
      Client.pushClocks rest) (HVec.empty : HVec Clock maxNodes) = (outcome,clocks) := hmerge
  simp only [hsame]

/-- The clock of a response is the merged one. -/
theorem startSyncResponse_ok (hget : client.channels.get channelId = some ch) (request : SyncRequest maxNodes)
    (state : SyncResponderState maxNodes) {clocks : HVec Clock maxNodes}
    (hclocks : clocks.toList = mergedClocks ch.state.listNodes request.vectorClock.toList) :
    client.startSyncResponse channelId request state = (.ok (),{ state with vectorClock := clocks }) :=
  startSyncResponse_eq hget request state (mergeNodes_ok (by rw [hclocks]; rfl))

end Requests

section Minimum

variable {clocks : List Clock} {least : U64}

theorem foldl_min (clocks : List Clock) (start : U64) :
    let least := clocks.foldl (fun min c => if min > c.sequence then c.sequence else min) start
    least ≤ start ∧ (∀ c ∈ clocks, least ≤ c.sequence) ∧ (least = start ∨ ∃ c ∈ clocks, least = c.sequence) := by
  induction clocks generalizing start with
  | nil => simp
  | cons x clocks ih =>
    obtain ⟨hstart,hall,hmem⟩ := ih (if start > x.sequence then x.sequence else start)
    simp only [List.foldl_cons]
    refine ⟨hstart.trans ?_,fun c hc => ?_,?_⟩
    · split_ifs with hless
      · exact le_of_lt hless
      · exact le_refl _
    · rcases List.mem_cons.mp hc with rfl | hc
      · refine hstart.trans ?_
        split_ifs with hless
        · exact le_refl _
        · exact not_lt.mp hless
      · exact hall c hc
    · rcases hmem with hsame | ⟨c,hc,hsame⟩
      · split_ifs at hsame with hless
        · exact Or.inr ⟨x,List.mem_cons_self,by rw [if_pos hless]; exact hsame⟩
        · exact Or.inl (by rw [if_neg hless]; exact hsame)
      · exact Or.inr ⟨c,List.mem_cons_of_mem _ hc,hsame⟩

/-- The round starts at the least sequence of the merged clock. -/
theorem getMinSequence_eq_some {state : SyncResponderState maxNodes} :
    state.getMinSequence = some least ↔ (∃ c ∈ state.vectorClock.toList, c.sequence = least) ∧
      ∀ c ∈ state.vectorClock.toList, least ≤ c.sequence := by
  unfold SyncResponderState.getMinSequence
  cases hclocks : state.vectorClock.toList with
  | nil => simp
  | cons x clocks =>
    obtain ⟨_,hall,hmem⟩ := foldl_min (x::clocks) x.sequence
    have hfound : ∃ c ∈ x::clocks, c.sequence =
        (x::clocks).foldl (fun min c => if min > c.sequence then c.sequence else min) x.sequence := by
      rcases hmem with hsame | ⟨c,hc,hsame⟩
      · exact ⟨x,List.mem_cons_self,hsame.symm⟩
      · exact ⟨c,hc,hsame.symm⟩
    rw [Option.some.injEq]
    constructor
    · rintro rfl
      exact ⟨hfound,hall⟩
    · rintro ⟨⟨c,hc,hleast⟩,hle⟩
      obtain ⟨c',hc',hsame⟩ := hfound
      apply le_antisymm
      · rw [←hleast]
        exact hall c hc
      · rw [←hsame]
        exact hle c' hc'

end Minimum

end Finder
