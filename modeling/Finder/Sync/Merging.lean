import Finder.Client.Atomicity
import Finder.Sync.Clocks
import Mathlib.Data.Finset.Card
import Mathlib.Data.Finset.Dedup

namespace Finder

variable {maxChannels maxNodes slabSize : Nat} {C P S : Type}

section Full

variable {v : HVec Clock maxNodes} {clocks : List Clock} {c : Clock}

theorem pushClock_cases (c : Clock) (v : HVec Clock maxNodes) :
    (∃ u : HVec Clock maxNodes, u.toList = v.toList ++ [c] ∧ Client.pushClock c v = (.ok (),u)) ∨
      (maxNodes ≤ v.toList.length ∧ Client.pushClock c v = (.err .unreachable,v)) := by
  cases hpush : v.push c with
  | none => exact Or.inr ⟨HVec.push_eq_none.mp hpush,by rw [Client.pushClock,hpush]⟩
  | some u => exact Or.inl ⟨u,HVec.push_eq_some.mp hpush,pushClock_ok (HVec.push_eq_some.mp hpush)⟩

/-- Where not all clocks find room, the run stops at the first one that finds none. -/
theorem stops_full {x y : Call (HVec Clock maxNodes) ClientError Unit}
    (hx : ∀ u : HVec Clock maxNodes, u.toList = v.toList ++ [c] → x v = y u)
    (hfull : Client.pushClock c v = (.err .unreachable,v) → x v = (.err .unreachable,v))
    (hy : ∀ u : HVec Clock maxNodes, u.toList = v.toList ++ [c] → maxNodes < u.toList.length+clocks.length →
      ∃ w, y u = (.err .unreachable,w))
    (hmany : maxNodes < v.toList.length+(c::clocks).length) : ∃ w, x v = (.err .unreachable,w) := by
  rcases pushClock_cases c v with ⟨u,hu,_⟩ | ⟨_,herr⟩
  · have hrest : maxNodes < u.toList.length+clocks.length := by
      rw [hu]
      simp only [List.length_append,List.length_cons,List.length_nil] at hmany ⊢
      omega
    obtain ⟨w,hw⟩ := hy u hu hrest
    exact ⟨w,(hx u hu).trans hw⟩
  · exact ⟨v,hfull herr⟩

theorem pushClocks_full (hmany : maxNodes < v.toList.length+clocks.length) :
    ∃ w, Client.pushClocks clocks v = (.err .unreachable,w) := by
  induction clocks generalizing v with
  | nil =>
    have hbound := v.bounded
    rw [List.length_nil] at hmany
    omega
  | cons c clocks ih =>
    refine stops_full (y := Client.pushClocks clocks) (fun u hu => ?_) (fun herr => ?_) (fun u _ => ih) hmany
    · exact Call.bind_ok (pushClock_ok hu)
    · exact Call.bind_err herr

/-- The loops of `start_sync_response` fail when the merged clocks do not fit. -/
theorem mergeNodes_full {nodes : List (NodeSequence P)}
    (hmany : maxNodes < v.toList.length+(mergedClocks nodes clocks).length) :
    ∃ w, (Client.mergeNodes nodes clocks >>= Client.pushClocks) v = (.err .unreachable,w) := by
  induction nodes, clocks using mergedClocks.induct generalizing v with
  | case1 clocks =>
    rw [mergedClocks] at hmany
    rw [Client.mergeNodes,Call.bind_ok (Call.pure_apply clocks v)]
    exact pushClocks_full hmany
  | case2 n nodes ih =>
    rw [mergedClocks] at hmany
    have hnone : Client.mergeClocks n [] v = (.ok (false,[]),v) := rfl
    refine stops_full (fun u hu => Call.bind_congr ?_) (fun herr => Call.bind_err ?_) (fun u _ => ih) hmany
    · rw [Client.mergeNodes,Call.bind_ok hnone]
      exact Call.bind_ok (pushClock_ok hu)
    · rw [Client.mergeNodes,Call.bind_ok hnone]
      exact Call.bind_err herr
  | case3 n nodes c clocks hsame ih =>
    rw [mergedClocks,if_pos hsame] at hmany
    refine stops_full (fun u hu => Call.bind_congr ?_) (fun herr => Call.bind_err ?_) (fun u _ => ih) hmany
    · have hfound : Client.mergeClocks n (c::clocks) v = (.ok (true,clocks),u) := by
        rw [Client.mergeClocks,if_pos hsame]
        exact Call.bind_ok (pushClock_ok hu)
      rw [Client.mergeNodes]
      exact Call.bind_ok hfound
    · refine Call.bind_err ?_
      rw [Client.mergeClocks,if_pos hsame]
      exact Call.bind_err herr
  | case4 n nodes c clocks hsame hless ih =>
    rw [mergedClocks,if_neg hsame,if_pos hless] at hmany
    refine stops_full (fun u hu => Call.bind_congr ?_) (fun herr => Call.bind_err ?_) (fun u _ => ih) hmany
    · have hnext : Client.mergeClocks n (c::clocks) v = Client.mergeClocks n clocks u := by
        rw [Client.mergeClocks,if_neg hsame,if_pos hless]
        exact Call.bind_ok (pushClock_ok hu)
      rw [Client.mergeNodes,Client.mergeNodes]
      exact Call.bind_congr hnext
    · refine Call.bind_err ?_
      rw [Client.mergeClocks,if_neg hsame,if_pos hless]
      exact Call.bind_err herr
  | case5 n nodes c clocks hsame hless ih =>
    rw [mergedClocks,if_neg hsame,if_neg hless] at hmany
    have hnone : Client.mergeClocks n (c::clocks) v = (.ok (false,c::clocks),v) := by
      rw [Client.mergeClocks,if_neg hsame,if_neg hless]
      rfl
    refine stops_full (fun u hu => Call.bind_congr ?_) (fun herr => Call.bind_err ?_) (fun u _ => ih) hmany
    · rw [Client.mergeNodes,Call.bind_ok hnone]
      exact Call.bind_ok (pushClock_ok hu)
    · rw [Client.mergeNodes,Call.bind_ok hnone]
      exact Call.bind_err herr

end Full

section Union

variable {nodes : List (NodeSequence P)} {clocks : List Clock}

/-- The nodes of a request and of a channel. -/
def unionNodes (clocks : List Clock) (nodes : List (NodeSequence P)) : Finset NodeId :=
  (clocks.map Clock.node).toFinset ∪ (nodes.map NodeSequence.node).toFinset

theorem mem_unionNodes {n : NodeId} :
    n ∈ unionNodes clocks nodes ↔ (∃ c ∈ clocks, c.node = n) ∨ ∃ r ∈ nodes, r.node = n := by
  simp [unionNodes]

/-- The merged clocks name the nodes of both sides, each once. -/
theorem mergedClocks_nodes (hnodes : SortedBy NodeSequence.node nodes) (hclocks : SortedBy Clock.node clocks) :
    ((mergedClocks nodes clocks).map Clock.node).toFinset = unionNodes clocks nodes := by
  ext n
  rw [List.mem_toFinset,List.mem_map,mem_unionNodes]
  constructor
  · rintro ⟨c,hc,rfl⟩
    exact mergedClocks_node hc
  · intro hn
    by_cases hnamed : ∃ c ∈ clocks, c.node = n
    · obtain ⟨c,hc,rfl⟩ := hnamed
      exact ⟨c,(mem_mergedClocks hnodes hclocks).mpr (Or.inl hc),rfl⟩
    · obtain ⟨r,hr,rfl⟩ := hn.resolve_left hnamed
      refine ⟨r.firstClock,(mem_mergedClocks hnodes hclocks).mpr (Or.inr ⟨r,hr,?_,rfl⟩),rfl⟩
      intro c hc hsame
      exact hnamed ⟨c,hc,hsame⟩

theorem mergedClocks_length (hnodes : SortedBy NodeSequence.node nodes) (hclocks : SortedBy Clock.node clocks) :
    (mergedClocks nodes clocks).length = (unionNodes clocks nodes).card := by
  have hnodup : ((mergedClocks nodes clocks).map Clock.node).Nodup :=
    (List.pairwise_map.mpr (mergedClocks_sorted hnodes hclocks)).imp ne_of_lt
  rw [←mergedClocks_nodes hnodes hclocks,List.toFinset_card_of_nodup hnodup,List.length_map]

end Union

namespace Client

variable {client : Client maxChannels maxNodes slabSize C P S} {channelId : ChannelId}
  {ch : Channel maxNodes slabSize C P}

theorem startSyncResponse_full (hget : client.channels.get channelId = some ch) (request : SyncRequest maxNodes)
    (state : SyncResponderState maxNodes)
    (hmany : maxNodes < (mergedClocks ch.state.listNodes request.vectorClock.toList).length) :
    ∃ state', client.startSyncResponse channelId request state = (.err .unreachable,state') := by
  obtain ⟨w,hmerge⟩ : ∃ w, (Client.mergeNodes ch.state.listNodes request.vectorClock.toList >>= Client.pushClocks)
      HVec.empty = (.err .unreachable,w) := mergeNodes_full (by simpa using hmany)
  exact ⟨_,startSyncResponse_eq hget request state hmerge⟩

variable [Target] [Crypto C P S] [RecordCodec] [Postcard (Message (Protocol P))] [EnvelopeCodec P]
  [Postcard (NewChannel P)]

/-- The clock of a response to a sorted request is the union of both sides, where the response has room for
it, and what is asked of `finish_sync_request` is sorted. -/
theorem Reachable.clocks_merge (h : Reachable client) (hget : client.channels.get channelId = some ch) :
    (∀ request : SyncRequest maxNodes, SortedBy Clock.node request.vectorClock.toList →
      ∀ state : SyncResponderState maxNodes,
      ((∃ state', client.startSyncResponse channelId request state = (.ok (),state')) ↔
        (unionNodes request.vectorClock.toList ch.state.listNodes).card ≤ maxNodes) ∧
      ∀ state', client.startSyncResponse channelId request state = (.ok (),state') →
        SortedBy Clock.node state'.vectorClock.toList ∧
        (state'.vectorClock.toList.map Clock.node).toFinset =
          unionNodes request.vectorClock.toList ch.state.listNodes ∧
        (∀ c ∈ request.vectorClock.toList, c ∈ state'.vectorClock.toList) ∧
        ∀ n ∈ ch.state.listNodes, (∀ c ∈ request.vectorClock.toList, c.node ≠ n.node) →
          ⟨n.node,n.firstSequence⟩ ∈ state'.vectorClock.toList) ∧
    ∀ request : SyncRequest maxNodes, ∃ request', client.finishSyncRequest channelId request = (.ok (),request') ∧
      SortedBy Clock.node request'.vectorClock.toList := by
  have hnodes : SortedBy NodeSequence.node ch.state.listNodes := (h.sound channelId ch hget).valid.sorted
  constructor
  · intro request hsorted state
    have hlength := mergedClocks_length hnodes hsorted
    by_cases hroom : (unionNodes request.vectorClock.toList ch.state.listNodes).card ≤ maxNodes
    · -- the response holds the merged clocks
      let clocks : HVec Clock maxNodes :=
        ⟨mergedClocks ch.state.listNodes request.vectorClock.toList,hlength.trans_le hroom⟩
      have hok : client.startSyncResponse channelId request state = (.ok (),{ state with vectorClock := clocks }) :=
        startSyncResponse_ok hget request state rfl
      refine ⟨iff_of_true ⟨_,hok⟩ hroom,fun state' hstate => ?_⟩
      obtain rfl : { state with vectorClock := clocks } = state' := by
        rw [hok] at hstate
        exact (Prod.mk.inj hstate).2
      refine ⟨mergedClocks_sorted hnodes hsorted,mergedClocks_nodes hnodes hsorted,fun c hc => ?_,fun n hn hno => ?_⟩
      · exact (mem_mergedClocks hnodes hsorted).mpr (Or.inl hc)
      · exact (mem_mergedClocks hnodes hsorted).mpr (Or.inr ⟨n,hn,hno,rfl⟩)
    · obtain ⟨full,herr⟩ := startSyncResponse_full hget request state (by omega)
      have hno : ∀ state', client.startSyncResponse channelId request state ≠ (.ok (),state') := by
        intro state' hok
        rw [herr] at hok
        cases hok
      exact ⟨iff_of_false (fun ⟨state',hok⟩ => hno state' hok) hroom,fun state' hok => absurd hok (hno state')⟩
  · intro request
    obtain ⟨clocks,hclocks,hok⟩ := finishSyncRequest_ok hget request
    refine ⟨_,hok,?_⟩
    rw [SortedBy,hclocks]
    exact List.pairwise_map.mpr hnodes

end Client

section Owner

open PlainCrypto

/-- Someone else who has joined asks the owner; there is room for both. -/
theorem clocks_merge_owner : ∃ (ch : Channel 2 256 PlainCrypto U64) (state' : SyncResponderState 2),
    owner.channels.get (chatId 1) = some ch ∧
      owner.startSyncResponse (chatId 1) ⟨0,0,⟨[⟨nodeOf 2,7⟩],by decide⟩⟩ (SyncResponderState.new ⟨0,0,HVec.empty⟩) =
        (.ok (),state') ∧ ⟨nodeOf 2,7⟩ ∈ state'.vectorClock.toList := by
  have hheld : (owner.channels.get (chatId 1)).isSome = true := by decide +kernel
  obtain ⟨ch,hch⟩ := Option.isSome_iff_exists.mp hheld
  have hnodes : ch.state.listNodes.map NodeSequence.node = [nodeOf 1] := by
    have hall : (owner.channels.get (chatId 1)).map (fun ch => ch.state.listNodes.map NodeSequence.node) =
        some [nodeOf 1] := by decide +kernel
    rw [hch] at hall
    exact Option.some.inj hall
  obtain ⟨hiff,hclocks⟩ := (owner_reachable.clocks_merge hch).1 ⟨0,0,⟨[⟨nodeOf 2,7⟩],by decide⟩⟩
    (List.pairwise_singleton _ _) (SyncResponderState.new ⟨0,0,HVec.empty⟩)
  obtain ⟨state',hok⟩ := hiff.mpr (by rw [unionNodes,hnodes]; decide +kernel)
  exact ⟨ch,state',hch,hok,(hclocks state' hok).2.2.1 _ (List.mem_singleton.mpr rfl)⟩

end Owner

end Finder
