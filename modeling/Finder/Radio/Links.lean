import Finder.Radio.Isolation
import Finder.Radio.Passes

namespace Finder

variable {maxChannels maxNodes maxResponse slabSize : Nat} {A E D C P S : Type}

/-- Of what has been passed on, that of one sender. -/
def passedOf [DecidableEq A] (s : A) (out : List (A × U16 × Bytes)) : List (U16 × Bytes) :=
  (out.filter (fun d => decide (d.1 = s))).map Prod.snd

theorem passedOf_append [DecidableEq A] (s : A) (out more : List (A × U16 × Bytes)) :
    passedOf s (out ++ more) = passedOf s out ++ passedOf s more := by
  rw [passedOf,List.filter_append,List.map_append]
  rfl

theorem passedOf_self [DecidableEq A] (s : A) (p : Option (U16 × Bytes)) :
    passedOf s (p.map (fun p => (s,p))).toList = p.toList := by
  cases p <;> simp [passedOf]

theorem passedOf_other [DecidableEq A] {s s' : A} (h : s' ≠ s) (p : Option (U16 × Bytes)) :
    passedOf s (p.map (fun p => (s',p))).toList = [] := by
  cases p <;> simp [passedOf,h]

section Stream

variable [Raptorq E D] {message message' : Nat → Bytes} {xs : List (Nat × E)} {r : Receiver D} {done : List Nat}

/-- Only the messages of its packets count for an entry. -/
theorem Tracks.congr (h : Tracks message xs r done) (hsame : ∀ x ∈ xs, message' x.1 = message x.1) :
    Tracks message' xs r done := by
  have hreader : ∀ x ∈ xs, ∀ packets : List E, (readerAt message' x.1 packets : WireReader D) =
      readerAt message x.1 packets := by
    intro x hx packets
    rw [readerAt,readerAt,lengthOf,lengthOf,hsame x hx]
  refine ⟨h.increasing,h.arrived,h.completed,fun i hi value hin => ?_,h.reader,fun x hx hnew => ?_⟩
  · by_cases hsome : ∃ x ∈ xs, x.1 = i
    · obtain ⟨x,hx,rfl⟩ := hsome
      rw [hsame x hx] at hin
      exact h.undecoded x.1 hi value hin
    · rw [piecesOf_eq_nil (fun x hx hxi => hsome ⟨x,hx,hxi⟩)] at hin
      cases hin
  · rw [hreader x (List.mem_of_getLast? hx)]
    exact h.current x hx hnew

/-- What a device holds of a sender: the entry that the packets lead to, or none, where none has come or the table has
no room for it. -/
inductive Entered (message : Nat → Bytes) (xs : List (Nat × E)) (receivers : FnvIndexMap A (Receiver D) maxNodes)
    [DecidableEq A] (s : A) : List Nat → Prop
  | entry (r : Receiver D) (done : List Nat) (hget : receivers.get s = some r) (hsome : xs ≠ [])
      (htracks : Tracks message xs r done) : Entered message xs receivers s done
  | absent (hget : receivers.get s = none) (hnone : xs = [] ∨ maxNodes ≤ receivers.entries.length) :
      Entered message xs receivers s []

end Stream

/-- What has come from a sender: its packets, in the order of their messages, and the ones of its messages that have
been passed on. -/
structure Link [DecidableEq A] [Raptorq E D] (message : Nat → Bytes) (count : Nat) (s : A) (heard : List (Arrival A))
    (receivers : FnvIndexMap A (Receiver D) maxNodes) (out : List (A × U16 × Bytes)) (xs : List (Nat × E))
    (done : List Nat) : Prop where
  pieces : (Arrival.of s heard).map (fun x => (x.index,x.data)) = xs.map (fun x => (x.1,wireOf D message x))
  genuine : ∀ x ∈ xs, x.1 < count ∧ Genuine D message x
  ordered : xs.Pairwise (fun x y => x.1 ≤ y.1)
  entered : Entered message xs receivers s done
  passed : passedOf s out = done.map (fun i => (numberOf i,message i))

namespace Link

variable [DecidableEq A] {message message' : Nat → Bytes} {count count' : Nat} {s : A} {heard : List (Arrival A)}
  {receivers : FnvIndexMap A (Receiver D) maxNodes} {out : List (A × U16 × Bytes)} {xs : List (Nat × E)}
  {done : List Nat}

theorem new [Raptorq E D] (message : Nat → Bytes) (count : Nat) (s : A) :
    Link message count s [] (FnvIndexMap.empty : FnvIndexMap A (Receiver D) maxNodes) [] [] [] :=
  ⟨rfl,by simp,List.Pairwise.nil,.absent rfl (Or.inl rfl),rfl⟩

/-- The sender may say more. -/
theorem later [Raptorq E D] (h : Link message count s heard receivers out xs done) (hcount : count ≤ count')
    (hsame : ∀ i < count, message' i = message i) : Link message' count' s heard receivers out xs done := by
  have heq : ∀ x ∈ xs, message' x.1 = message x.1 := fun x hx => hsame x.1 (h.genuine x hx).1
  refine ⟨?_,fun x hx => ?_,h.ordered,?_,?_⟩
  · rw [h.pieces]
    refine List.map_congr_left (fun x hx => ?_)
    rw [wireOf,wireOf,lengthOf,lengthOf,heq x hx]
  · obtain ⟨hlt,hgenuine⟩ := h.genuine x hx
    refine ⟨hlt.trans_le hcount,hgenuine.small,?_,?_⟩
    · rw [heq x hx]
      exact hgenuine.codable
    · rw [heq x hx]
      exact hgenuine.encoded
  · cases h.entered with
    | entry r _ hget hsome htracks => exact .entry r _ hget hsome (htracks.congr heq)
    | absent hget hnone => exact .absent hget hnone
  · rw [h.passed]
    refine List.map_congr_left (fun i hi => ?_)
    cases h.entered with
    | entry r _ hget hsome htracks =>
      obtain ⟨x,hx,rfl⟩ := htracks.arrived i hi
      rw [heq x hx]
    | absent hget hnone => cases hi

theorem index_mem [Raptorq E D] (h : Link message count s heard receivers out xs done) {y : Nat × E} (hy : y ∈ xs) :
    ∃ x ∈ heard, x.sender = s ∧ x.index = y.1 := by
  have hin : (y.1,wireOf D message y) ∈ (Arrival.of s heard).map (fun x => (x.index,x.data)) := by
    rw [h.pieces]
    exact List.mem_map.mpr ⟨y,hy,rfl⟩
  obtain ⟨x,hx,hsame⟩ := List.mem_map.mp hin
  obtain ⟨hx,hsender⟩ := List.mem_filter.mp hx
  exact ⟨x,hx,of_decide_eq_true hsender,congrArg Prod.fst hsame⟩

end Link

section Packet

variable [DecidableEq A] [Target] [Postcard (NetworkProtocol maxChannels maxNodes maxResponse)] {message : Nat → Bytes}
  {count : Nat} {s : A} {heard : List (Arrival A)} {out : List (A × U16 × Bytes)} {xs : List (Nat × E)}
  {done : List Nat} {st st' : WireState maxChannels maxNodes maxResponse A D} {x : Arrival A} {e : E}
  {client : Client maxChannels maxNodes slabSize C P S} {r : Receiver D}

omit [Target] [Postcard (NetworkProtocol maxChannels maxNodes maxResponse)] in
/-- A table gets no shorter. -/
theorem WireState.Enters.length_le (h : st.Enters st' s r) (hkeys : st.receivers.keys.Nodup) :
    st.receivers.entries.length ≤ st'.receivers.entries.length := by
  have hsub : st.receivers.keys ⊆ st'.receivers.keys := by
    intro a ha
    have hsome : (st.receivers.get a).isSome = true := FnvIndexMap.mem_keys.mp ha
    refine FnvIndexMap.mem_keys.mpr ?_
    rw [FnvIndexMap.containsKey,h.entries]
    split_ifs
    · rfl
    · exact hsome
  have hlen := (List.subperm_of_subset hkeys hsub).length_le
  rwa [FnvIndexMap.keys,FnvIndexMap.keys,List.length_map,List.length_map] at hlen

namespace Link

omit [Target] [Postcard (NetworkProtocol maxChannels maxNodes maxResponse)] in
/-- A sender that can come in has the entry that its packets lead to. -/
theorem tracks [Raptorq E D] (h : Link message count s heard st.receivers out xs done) (hadmits : st.Admits s) :
    Tracks message xs (st.entryOf s) done := by
  cases h.entered with
  | entry r _ hget hsome htracks =>
    rw [WireState.entryOf,hget]
    exact htracks
  | absent hget hnone =>
    rcases hnone with rfl | hfull
    · rw [WireState.entryOf,hget]
      exact Tracks.empty message
    · rcases hadmits with hkey | hroom
      · rw [FnvIndexMap.containsKey,hget] at hkey
        cases hkey
      · exact absurd hfull (not_le.mpr hroom)

variable [CodingRaptorq E D]

/-- The packet is one of the sender's, and not of a message before those of its others. -/
structure Brings (message : Nat → Bytes) (count : Nat) (heard : List (Arrival A)) (x : Arrival A) (e : E) : Prop where
  data : x.data = wireOf D message (x.index,e)
  genuine : Genuine D message (x.index,e)
  said : x.index < count
  ordered : ∀ y ∈ heard, y.sender = x.sender → y.index ≤ x.index

variable (hx : Brings (D := D) message count heard x e)

omit [Postcard (NetworkProtocol maxChannels maxNodes maxResponse)] in
include hx in
theorem before (h : Link message count x.sender heard st.receivers out xs done) :
    ∀ y ∈ xs, y.1 ≤ ((x.index,e) : Nat × E).1 := by
  intro y hy
  obtain ⟨z,hz,hsender,hindex⟩ := h.index_mem hy
  exact hindex ▸ hx.ordered z hz hsender

omit [Postcard (NetworkProtocol maxChannels maxNodes maxResponse)] in
include hx in
/-- The packets with the one that comes. -/
theorem concat (h : Link message count x.sender heard st.receivers out xs done) :
    (Arrival.of x.sender (heard ++ [x])).map (fun x => (x.index,x.data)) =
        (xs ++ [(x.index,e)]).map (fun x => (x.1,wireOf D message x)) ∧
      (∀ y ∈ xs ++ [(x.index,e)], y.1 < count ∧ Genuine D message y) ∧
      (xs ++ [(x.index,e)]).Pairwise (fun x y => x.1 ≤ y.1) := by
  refine ⟨?_,fun y hy => ?_,?_⟩
  · rw [Arrival.of_concat,if_pos rfl,List.map_append,List.map_append,h.pieces,List.map_singleton,List.map_singleton,
      hx.data]
  · rcases List.mem_append.mp hy with hy | hy
    · exact h.genuine y hy
    · rw [List.mem_singleton.mp hy]
      exact ⟨hx.said,hx.genuine⟩
  · refine List.pairwise_append.mpr ⟨h.ordered,List.pairwise_singleton _ _,fun y hy z hz => ?_⟩
    rw [List.mem_singleton.mp hz]
    exact before hx h y hy

variable (hmtu : st.mtu = espNowMtu)
  (hparses : WireState.Parses maxChannels maxNodes maxResponse (message x.index))

include hx hmtu hparses in
variable (client) in
/-- The packet goes to the entry of its sender, unless there is no room for one. -/
theorem receive (h : Link message count x.sender heard st.receivers out xs done) : ∃ done',
    Link message count x.sender (heard ++ [x]) (WireState.receivePacket x.data x.sender client st).2.receivers
      (out ++ ((WireState.passed x.data x.sender st).map (fun p => (x.sender,p))).toList) (xs ++ [(x.index,e)]) done' := by
  obtain ⟨hpieces,hgenuine,hordered⟩ := h.concat hx
  have hnumber : WireReader.checkPacket x.data = .ok (numberOf x.index) := by
    rw [hx.data]
    exact Tracks.number (D := D) (x.index,e)
  by_cases hadmits : st.Admits x.sender
  swap
  · obtain ⟨hno,hfull⟩ := not_or.mp hadmits
    have hdecode := WireState.decodePacket_full hnumber hadmits
    have hget : st.receivers.get x.sender = none := by simpa [FnvIndexMap.containsKey] using hno
    have hdone : done = [] := by
      cases h.entered with
      | entry r _ hheld hsome htracks => cases hget.symm.trans hheld
      | absent _ _ => rfl
    rw [WireState.receivePacket_nothing hdecode,WireState.passed_of_decoded hdecode]
    refine ⟨[],hpieces,hgenuine,hordered,.absent hget (Or.inr (not_lt.mp hfull)),?_⟩
    rw [passedOf_append,h.passed,hdone]
    rfl
  obtain ⟨henters,hpassed⟩ := WireState.receivePacket_enters client hnumber hadmits
  have hself : (WireState.receivePacket x.data x.sender client st).2.receivers.get x.sender = some _ :=
    (henters.entries x.sender).trans (if_pos rfl)
  have htracks := h.tracks hadmits
  rw [hmtu,hx.data] at hpassed hself
  rw [hx.data,hpassed]
  by_cases hdone : x.index ∈ done
  · obtain ⟨hstep,hnext⟩ := htracks.step_done (WireState.Parses maxChannels maxNodes maxResponse) (x := (x.index,e))
      (before hx h) hdone
    rw [hstep] at hself ⊢
    refine ⟨done,hpieces,hgenuine,hordered,.entry _ _ hself (by simp) hnext,?_⟩
    rw [passedOf_append,h.passed,passedOf_self]
    exact List.append_nil _
  · have hall : ∀ y ∈ xs, Genuine D message y := fun y hy => (h.genuine y hy).2
    obtain ⟨r',⟨hstep,hnext⟩ | ⟨hstep,hnext⟩⟩ := htracks.step_new (WireState.Parses maxChannels maxNodes maxResponse)
      hall hx.genuine h.ordered (before hx h) hdone hparses
    · rw [hstep] at hself ⊢
      refine ⟨done,hpieces,hgenuine,hordered,.entry _ _ hself (by simp) hnext,?_⟩
      rw [passedOf_append,h.passed,passedOf_self]
      exact List.append_nil _
    · rw [hstep] at hself ⊢
      refine ⟨_,hpieces,hgenuine,hordered,.entry _ _ hself (by simp) hnext,?_⟩
      rw [passedOf_append,h.passed,passedOf_self,List.map_append]
      rfl

include hx hmtu hparses in
/-- Reading the packet does not panic. -/
theorem returns (h : Link message count x.sender heard st.receivers out xs done) :
    (WireState.receivePacket x.data x.sender client st).1 ≠ .panic := by
  intro hpanic
  refine WireState.receivePacket_panics_iff.mp hpanic (fun p hp hadmits hlast => ?_)
  have hparts := hp
  rw [hx.data,Tracks.parts D message (x.index,e)] at hparts
  cases hparts
  have htracks := h.tracks hadmits
  have hnew : x.index ∉ done := fun hdone => hlast (htracks.completed_of_mem (x := (x.index,e)) (before hx h) hdone)
  have hall : ∀ y ∈ xs, Genuine D message y := fun y hy => (h.genuine y hy).2
  have htakes := htracks.takes hall hx.genuine h.ordered (before hx h) hnew
  rw [←hmtu] at htakes
  refine (WireState.survives_iff hp hadmits hlast).mpr ⟨e,htakes,fun value hvalue => ?_⟩ _ hp hadmits hlast
  rw [hmtu,htracks.readerFor_eq hall hx.genuine h.ordered (before hx h) hnew] at hvalue
  rw [Tracks.value_eq hall hx.genuine hvalue]
  exact hparses

variable (client) in
omit [CodingRaptorq E D] in
/-- A packet of another sender leaves it as it is. -/
theorem other [LawfulRaptorq E D] {number : U16} (h : Link message count s heard st.receivers out xs done)
    (hnumber : WireReader.checkPacket x.data = .ok number) (hne : x.sender ≠ s) (hkeys : st.receivers.keys.Nodup) :
    Link message count s (heard ++ [x]) (WireState.receivePacket x.data x.sender client st).2.receivers
      (out ++ ((WireState.passed x.data x.sender st).map (fun p => (x.sender,p))).toList) xs done := by
  have hpassed : passedOf s (out ++ ((WireState.passed x.data x.sender st).map (fun p => (x.sender,p))).toList) =
      done.map (fun i => (numberOf i,message i)) := by
    rw [passedOf_append,passedOf_other hne,List.append_nil,h.passed]
  have hpieces : (Arrival.of s (heard ++ [x])).map (fun x => (x.index,x.data)) =
      xs.map (fun x => (x.1,wireOf D message x)) := by
    rw [Arrival.of_concat,if_neg hne,h.pieces]
  refine ⟨hpieces,h.genuine,h.ordered,?_,hpassed⟩
  by_cases hadmits : st.Admits x.sender
  swap
  · rw [WireState.receivePacket_nothing (WireState.decodePacket_full hnumber hadmits)]
    exact h.entered
  obtain ⟨henters,_⟩ := WireState.receivePacket_enters client hnumber hadmits
  have hsame := henters.entries s
  rw [if_neg (Ne.symm hne)] at hsame
  cases h.entered with
  | entry r _ hget hsome htracks => exact .entry r _ (hsame.trans hget) hsome htracks
  | absent hget hnone =>
    have hlen := henters.length_le hkeys
    exact .absent (hsame.trans hget) (hnone.imp_right (fun hfull => hfull.trans hlen))

end Link

end Packet

end Finder
