import Finder.Radio.Air

namespace Finder

variable {maxChannels maxNodes maxResponse slabSize : Nat} {A E D C P S : Type}

namespace Air

variable [DecidableEq A] [Target] [RadioRaptorq E D] [Postcard (NetworkProtocol maxChannels maxNodes maxResponse)]
  {air : Air maxChannels maxNodes maxResponse A D} {a s : A} {i : Nat} {message : Nat → Bytes} {count : Nat}
  {heard : List (Arrival A)} {out : List (A × U16 × Bytes)} {receivers : FnvIndexMap A (Receiver D) maxNodes}
  {xs : List (Nat × E)} {done : List Nat} {e : E}

omit [Postcard (NetworkProtocol maxChannels maxNodes maxResponse)] in
/-- A packet that has come has been given to the reader of its message, or passed over. -/
theorem mem_pieces_of_heard (h : Link message count s heard receivers out xs done) {x : Arrival A} (hx : x ∈ heard)
    (hsender : x.sender = s) (hdata : x.data = wireOf D message (x.index,e)) : e ∈ piecesOf x.index xs := by
  have hin : (x.index,x.data) ∈ xs.map (fun y => (y.1,wireOf D message y)) := by
    rw [←h.pieces]
    exact List.mem_map.mpr ⟨x,List.mem_filter.mpr ⟨hx,decide_eq_true hsender⟩,rfl⟩
  obtain ⟨⟨i,e'⟩,hy,hsame⟩ := List.mem_map.mp hin
  obtain ⟨rfl,hwire⟩ := Prod.mk.inj hsame
  rw [hdata] at hwire
  have hserialize : Raptorq.serialize D e' = Raptorq.serialize D e := List.append_cancel_left hwire
  have hread := CodingRaptorq.deserialize_serialize (D := D) e'
  rw [hserialize,CodingRaptorq.deserialize_serialize] at hread
  rw [Option.some.inj hread]
  exact mem_piecesOf.mpr hy

omit [DecidableEq A] [Postcard (NetworkProtocol maxChannels maxNodes maxResponse)] in
/-- Nothing comes of no packets. -/
theorem exists_source {data : Bytes} {size : Nat} (h : Codable data size) :
    ∃ e, e ∈ CodingRaptorq.sourcePackets D data size := by
  refine List.exists_mem_of_ne_nil _ (fun hnone => ?_)
  have hdecodes := CodingRaptorq.decodes (D := D) data size repairCount [] h (by simp) (by simp [hnone])
  cases hdecodes

/-- The senders in the table have been heard. -/
theorem Kept.heard_of_key (h : Kept air) (hkey : s ∈ (air.device a).1.receivers.keys) :
    ∃ x ∈ air.heard a, x.sender = s := by
  obtain ⟨xs,done,hlink⟩ := h.links a s
  have hsome : ((air.device a).1.receivers.get s).isSome = true := FnvIndexMap.mem_keys.mp hkey
  cases hlink.entered with
  | absent hget _ =>
    rw [hget] at hsome
    cases hsome
  | entry r _ _ hne _ =>
    obtain ⟨y,hy⟩ := List.exists_mem_of_ne_nil xs hne
    obtain ⟨x,hx,hsender,_⟩ := hlink.index_mem hy
    exact ⟨x,hx,hsender⟩

/-- Where few senders have been heard, each of them is in the table. -/
theorem Kept.get_of_few (h : Kept air) {senders : List A} (hfew : senders.length ≤ maxNodes)
    (hall : ∀ x ∈ air.heard a, x.sender ∈ senders) (hs : ∃ x ∈ air.heard a, x.sender = s) :
    (air.device a).1.receivers.get s ≠ none := by
  intro hget
  obtain ⟨xs,done,hlink⟩ := h.links a s
  cases hlink.entered with
  | entry r _ hsome _ _ => cases hget.symm.trans hsome
  | absent _ hnone =>
    rcases hnone with rfl | hfull
    · obtain ⟨x,hx,hsender⟩ := hs
      have hin : (x.index,x.data) ∈ (Arrival.of s (air.heard a)).map (fun x => (x.index,x.data)) :=
        List.mem_map.mpr ⟨x,List.mem_filter.mpr ⟨hx,decide_eq_true hsender⟩,rfl⟩
      rw [hlink.pieces] at hin
      cases hin
    · have hnew : s ∉ (air.device a).1.receivers.keys := by
        intro hkey
        have hsome : ((air.device a).1.receivers.get s).isSome = true := FnvIndexMap.mem_keys.mp hkey
        rw [hget] at hsome
        cases hsome
      have hsub : s::(air.device a).1.receivers.keys ⊆ senders := by
        refine List.cons_subset.mpr ⟨?_,fun k hk => ?_⟩
        · obtain ⟨x,hx,rfl⟩ := hs
          exact hall x hx
        · obtain ⟨x,hx,rfl⟩ := h.heard_of_key hk
          exact hall x hx
      have hlen := (List.subperm_of_subset (List.nodup_cons.mpr ⟨hnew,h.keys a⟩) hsub).length_le
      rw [List.length_cons,FnvIndexMap.keys,List.length_map] at hlen
      omega

/-- A message of which the source packets have come, in any order and whatever else of it was lost, has been processed
exactly once, where the packets that have come are of no more devices than the table has room for. -/
theorem Reachable.delivers (h : Reachable slabSize C P S air) (hfew : ∀ s, (air.said s).length ≤ 2^16)
    (hne : ∀ m : NetworkProtocol maxChannels maxNodes maxResponse, toBytes m ≠ []) {t : Transmission _ _ _}
    (ht : (air.said s)[i]? = some t)
    (hcome : ∀ e ∈ CodingRaptorq.sourcePackets D (toBytes t.message) (espNowMtu.val-6), ∃ x ∈ air.heard a,
      x.sender = s ∧ x.index = i ∧ x.data = wireOf D (air.message s) (i,e))
    (hroom : ∃ senders : List A, senders.length ≤ maxNodes ∧ ∀ x ∈ air.heard a, x.sender ∈ senders) :
    (passedOf s (air.processed a)).count (numberOf i,toBytes t.message) = 1 := by
  have hkept := h.kept hfew hne
  obtain ⟨senders,hsenders,hall⟩ := hroom
  have hmessage := message_eq ht
  have hcodable := (hkept.cut s i t ht).codable (hne t.message)
  obtain ⟨e,he⟩ := exists_source (D := D) hcodable
  obtain ⟨x,hx,hsender,_,_⟩ := hcome e he
  have hget := hkept.get_of_few hsenders hall ⟨x,hx,hsender⟩
  obtain ⟨xs,done,hlink⟩ := hkept.links a s
  have hgenuine : ∀ y ∈ xs, Genuine D (air.message s) y := fun y hy => (hlink.genuine y hy).2
  cases hlink.entered with
  | absent hnone _ => exact absurd hnone hget
  | entry r _ _ _ htracks =>
    have hdone : i ∈ done := by
      by_contra hno
      refine htracks.undecoded i hno (toBytes t.message) ?_
      rw [hmessage]
      refine CodingRaptorq.decodes _ _ repairCount (piecesOf i xs) hcodable (fun e he => ?_) (fun e he => ?_)
      · have hencoded := (hgenuine _ (mem_piecesOf.mp he)).encoded
        rwa [hmessage] at hencoded
      · obtain ⟨x,hx,hsender,rfl,hdata⟩ := hcome e he
        exact mem_pieces_of_heard hlink hx hsender hdata
    have hnodup : (done.map (fun i => (numberOf i,air.message s i))).Nodup := by
      refine List.Nodup.map_on (fun j hj k hk hsame => ?_) (htracks.increasing.imp (fun hlt => hlt.ne))
      obtain ⟨y,hy,rfl⟩ := htracks.arrived j hj
      obtain ⟨z,hz,rfl⟩ := htracks.arrived k hk
      exact numberOf_inj (hgenuine y hy).small (hgenuine z hz).small (congrArg Prod.fst hsame)
    rw [hlink.passed]
    refine List.count_eq_one_of_mem hnodup (List.mem_map.mpr ⟨i,hdone,?_⟩)
    rw [hmessage]

end Air

section Greeted

namespace Air

open PlainCrypto

/-- The hello has come whole, and has been processed. -/
theorem delivers_greeted : ∃ t, (greeted.said true)[0]? = some t ∧
    (passedOf true (greeted.processed false)).count (numberOf 0,toBytes t.message) = 1 := by
  have hcome : ((greeted.said true)[0]?).all (fun t => decide (∀ e ∈ CodingRaptorq.sourcePackets BlockDecoder
      (toBytes t.message) (espNowMtu.val-6), ∃ x ∈ greeted.heard false, x.sender = true ∧ x.index = 0 ∧
        x.data = wireOf BlockDecoder (greeted.message true) (0,e))) = true := by decide +kernel
  have hsome : ((greeted.said true)[0]?).isSome = true := by decide +kernel
  obtain ⟨t,ht⟩ := Option.isSome_iff_exists.mp hsome
  rw [ht] at hcome
  have hroom : ∀ x ∈ greeted.heard false, x.sender ∈ [true] := by decide +kernel
  exact ⟨t,ht,greeted_reachable.delivers greeted_few toBytes_ne_nil ht (by simpa using hcome)
    ⟨[true],by decide,hroom⟩⟩

end Air

end Greeted

end Finder
