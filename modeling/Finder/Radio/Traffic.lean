import Finder.Radio.Delivery
import Mathlib.Algebra.BigOperators.Group.Finset.Piecewise
import Mathlib.Algebra.Order.BigOperators.Group.Finset

namespace Finder

section Counting

/-- Times that are so far apart are few. -/
theorem length_le_of_spaced {gap : Nat} {times : List Nat} (hspaced : times.Pairwise (fun t u => t+gap ≤ u)) (last : Nat)
    (hlast : ∀ t ∈ times, t ≤ last) : times.length*gap ≤ last+gap := by
  induction times using List.reverseRecOn generalizing last with
  | nil => simp
  | append_singleton times t ih =>
    obtain ⟨hbefore,_,hgap⟩ := List.pairwise_append.mp hspaced
    have ht := hlast t (by simp)
    rw [List.length_append,List.length_singleton,Nat.add_mul,Nat.one_mul]
    cases times with
    | nil => simp
    | cons u times =>
      have hfirst := hgap u List.mem_cons_self t (by simp)
      have hlen := ih hbefore (t-gap) (fun v hv => by
        have := hgap v hv t (by simp)
        omega)
      omega

/-- A list is as long as what it holds of each kind. -/
theorem length_eq_sum {α β : Type} [Fintype β] [DecidableEq β] (f : α → β) (xs : List α) :
    xs.length = ∑ b, (xs.filter (fun x => decide (f x = b))).length := by
  induction xs with
  | nil => simp
  | cons x xs ih =>
    have hcons : ∀ b, ((x::xs).filter (fun x => decide (f x = b))).length =
        (if f x = b then 1 else 0)+(xs.filter (fun x => decide (f x = b))).length := by
      intro b
      by_cases h : f x = b <;> simp [h,Nat.add_comm]
    rw [List.length_cons,Finset.sum_congr rfl (fun b _ => hcons b),Finset.sum_add_distrib,Finset.sum_ite_eq,←ih]
    simp [Nat.add_comm]

end Counting

variable {maxChannels maxNodes maxResponse slabSize : Nat} {A E D C P S : Type}

def NetworkProtocol.isHello : NetworkProtocol maxChannels maxNodes maxResponse → Bool
  | .hello _ _ _ => true
  | .syncRequest _ => false
  | .syncResponse _ => false

section Receive

variable [DecidableEq A] [Target] [Raptorq E D] [Postcard (NetworkProtocol maxChannels maxNodes maxResponse)]
  {st : WireState maxChannels maxNodes maxResponse A D} {received : Option (Arrival A)}
  {client : Client maxChannels maxNodes slabSize C P S}

variable (maxChannels maxNodes maxResponse) in
omit [DecidableEq A] [Target] [Raptorq E D] in
/-- What has been processed is a hello. -/
def saysHello (value : Bytes) : Bool :=
  match (fromBytes value : Except PostcardError (NetworkProtocol maxChannels maxNodes maxResponse)) with
  | .ok m => m.isHello
  | .error _ => false

variable (st received client) in
/-- Only a hello that is processed places something to be sent, and that is a sync request. -/
theorem receiveData_places : (receiveData (received.map Arrival.packet) client st).2.toSend = st.toSend ∨
    st.toSend = none ∧ (∃ request, (receiveData (received.map Arrival.packet) client st).2.toSend =
      some (.syncRequest request)) ∧
      ∃ d, Air.processedBy received st = [d] ∧ saysHello maxChannels maxNodes maxResponse d.2.2 = true := by
  cases received with
  | none => exact Or.inl rfl
  | some x =>
    change (WireState.receivePacket x.data x.sender client st).2.toSend = st.toSend ∨
      st.toSend = none ∧ (∃ request, (WireState.receivePacket x.data x.sender client st).2.toSend =
        some (.syncRequest request)) ∧ _
    obtain ⟨receivers,⟨_,hrun⟩ | ⟨p,message,hpassed,hmessage,hrun⟩⟩ :=
      WireState.receivePacket_shape client st x.sender x.data
    · rw [hrun]
      exact Or.inl rfl
    rw [hrun]
    have hprocessed : Air.processedBy (some x) st = [(x.sender,p)] := by
      rw [Air.processedBy,Option.bind_some,hpassed]
      rfl
    rcases WireState.processMessage_cases message client { st with receivers := receivers } with h | h |
      ⟨hnone,request,h⟩
    · rw [h]
      exact Or.inl rfl
    · rw [h]
      exact Or.inl rfl
    · have hasks := WireState.processMessage_asks client { st with receivers := receivers } message hnone (by rw [h])
      obtain ⟨pubKeyId,peerCount,channelInfo,_,_,_,_,rfl,_⟩ := hasks
      refine Or.inr ⟨hnone,⟨request,by rw [h]⟩,(x.sender,p),hprocessed,?_⟩
      rw [saysHello,hmessage]
      rfl

end Receive

namespace Air

variable [DecidableEq A] [Target] [Raptorq E D] [Postcard (NetworkProtocol maxChannels maxNodes maxResponse)]

omit [DecidableEq A] [Target] [Raptorq E D] [Postcard (NetworkProtocol maxChannels maxNodes maxResponse)] in
def hellos (said : List (Transmission maxChannels maxNodes maxResponse)) :
    List (Transmission maxChannels maxNodes maxResponse) := said.filter (fun t => t.message.isHello)

omit [DecidableEq A] [Target] [Raptorq E D] [Postcard (NetworkProtocol maxChannels maxNodes maxResponse)] in
def requests (said : List (Transmission maxChannels maxNodes maxResponse)) :
    List (Transmission maxChannels maxNodes maxResponse) := said.filter (fun t => !t.message.isHello)

variable (maxChannels maxNodes maxResponse) in
omit [DecidableEq A] [Target] [Raptorq E D] in
/-- The hellos among what has been processed. -/
def hellosHeard (processed : List (A × U16 × Bytes)) : List (A × U16 × Bytes) :=
  processed.filter (fun d => saysHello maxChannels maxNodes maxResponse d.2.2)

/-- A device says its hellos 5 seconds apart, and anything else is a request, for a hello that it has processed. -/
structure Paced (air : Air maxChannels maxNodes maxResponse A D) (a : A) : Prop where
  pending : ∀ m, (air.device a).1.toSend = some m → ∃ request, m = .syncRequest request
  kinds : ∀ t ∈ air.said a, t.message.isHello = false → ∃ request, t.message = .syncRequest request
  spaced : (hellos (air.said a)).Pairwise (fun t u => t.now.val+5000 ≤ u.now.val)
  timer : ∀ t ∈ hellos (air.said a), t.now.val+5000 ≤ (air.device a).1.nextHello.val
  asked : (requests (air.said a)).length+(air.device a).1.toSend.toList.length ≤
    (hellosHeard maxChannels maxNodes maxResponse (air.processed a)).length

omit [DecidableEq A] [Target] [Raptorq E D] [Postcard (NetworkProtocol maxChannels maxNodes maxResponse)] in
theorem makeHello_isHello {peerCount : UInt8} {channelIds : List ChannelId}
    {client : Client maxChannels maxNodes slabSize C P S} {m : NetworkProtocol maxChannels maxNodes maxResponse}
    (h : WireState.makeHello peerCount channelIds client = .ok m) : m.isHello = true := by
  obtain ⟨infos,_,hm⟩ := Outcome.bind_eq_ok.mp h
  cases hm
  rfl

/-- What waits after the radio has been read is counted. -/
theorem Paced.received {air : Air maxChannels maxNodes maxResponse A D} {a : A} (h : air.Paced a)
    (received : Option (Arrival A)) (client : Client maxChannels maxNodes slabSize C P S) :
    (∀ m, (receiveData (received.map Arrival.packet) client (air.device a).1).2.toSend = some m →
      ∃ request, m = .syncRequest request) ∧
    (requests (air.said a)).length+
      (receiveData (received.map Arrival.packet) client (air.device a).1).2.toSend.toList.length ≤
      (hellosHeard maxChannels maxNodes maxResponse (air.processed a ++ processedBy received (air.device a).1)).length := by
  have hasked := h.asked
  rw [hellosHeard,List.filter_append,List.length_append]
  rcases receiveData_places (air.device a).1 received client with
    hsame | ⟨hnone,⟨request,hplaced⟩,d,hprocessed,hhello⟩
  · rw [hsame]
    exact ⟨h.pending,hasked.trans (Nat.le_add_right _ _)⟩
  · rw [hplaced,hprocessed]
    rw [hnone] at hasked
    refine ⟨fun m hm => ?_,?_⟩
    · cases hm
      exact ⟨request,rfl⟩
    · simp only [List.filter_singleton,hhello]
      exact Nat.add_le_add_right hasked 1

theorem Paced.step {air air' : Air maxChannels maxNodes maxResponse A D} (hkept : ∀ a, (air.device a).1.mtu = espNowMtu ∧
    (air.device a).1.helloDuration = 5000) (h : ∀ a, air.Paced a) (hstep : Step slabSize C P S air air') (b : A) :
    air'.Paced b := by
  cases hstep with
  | pass a espNow received now peerCount channelId client packets device hbrings hpass =>
  obtain ⟨st,buffer⟩ := device
  by_cases hb : b = a
  swap
  · obtain ⟨hpending,hkinds,hspaced,htimer,hasked⟩ := h b
    constructor <;> simpa [after,hb]
  subst hb
  obtain ⟨hmtu,hduration,hnext,_⟩ := receiveData_settings (received.map Arrival.packet) client (air.device b).1
  obtain ⟨hends,_⟩ := networkLoop_ends (hmtu.trans (hkept b).1) hpass
  obtain ⟨taken,htaken⟩ : ∃ taken, taken =
    takenBy (received.map Arrival.packet) now peerCount channelId client (air.device b).1 := ⟨_,rfl⟩
  rw [←htaken] at hends ⊢
  obtain ⟨hpending,hasked⟩ := (h b).received received client
  obtain ⟨_,hkinds,hspaced,htimer,_⟩ := h b
  rw [←hnext] at htimer
  have hsettle := hduration.trans (hkept b).2
  cases hends with
  | quiet => constructor <;> simpa [after,saidBy]
  | hello m _ nextHello hnone hdue htime hmake hcut =>
    have hhello := makeHello_isHello hmake
    have hnow : nextHello.val = now.val+5000 := by
      rw [htime,hsettle]
      rfl
    have hpast : ∀ t ∈ hellos (air.said b), t.now.val+5000 ≤ now.val := fun t ht => (htimer t ht).trans hdue
    have hsaid : hellos (air.said b ++ saidBy now packets (some m)) = hellos (air.said b) ++ [⟨m,now,packets⟩] := by
      simp [hellos,saidBy,hhello]
    have hsame : requests (air.said b ++ saidBy now packets (some m)) = requests (air.said b) := by
      simp [requests,saidBy,hhello]
    constructor <;> simp only [after,Function.update_self,hsaid,hsame]
    · exact hpending
    · intro t ht hno
      rcases List.mem_append.mp ht with ht | ht
      · exact hkinds t ht hno
      · obtain rfl : t = ⟨m,now,packets⟩ := List.mem_singleton.mp ht
        cases hhello.symm.trans hno
    · refine List.pairwise_append.mpr ⟨hspaced,List.pairwise_singleton _ _,fun t ht u hu => ?_⟩
      rw [List.mem_singleton.mp hu]
      exact hpast t ht
    · intro t ht
      rcases List.mem_append.mp ht with ht | ht
      · have hlast := hpast t ht
        omega
      · rw [List.mem_singleton.mp ht,hnow]
    · exact hasked
  | waiting m _ hwaits hcut =>
    obtain ⟨request,rfl⟩ := hpending m hwaits
    have hrequest : (NetworkProtocol.syncRequest request : NetworkProtocol maxChannels maxNodes maxResponse).isHello =
      false := rfl
    have hsaid : hellos (air.said b ++ saidBy now packets (some (.syncRequest request))) = hellos (air.said b) := by
      simp [hellos,saidBy,hrequest]
    have hmore : (requests (air.said b ++ saidBy now packets (some (.syncRequest request)))).length = (requests (air.said b)).length+1 := by
      simp [requests,saidBy,hrequest]
    rw [hwaits] at hasked
    constructor <;> simp only [after,Function.update_self,hsaid,hmore]
    · intro m' hm'
      cases hm'
    · intro t ht hno
      rcases List.mem_append.mp ht with ht | ht
      · exact hkinds t ht hno
      · obtain rfl : t = ⟨.syncRequest request,now,packets⟩ := List.mem_singleton.mp ht
        exact ⟨request,rfl⟩
    · exact hspaced
    · exact htimer
    · exact hasked

section Bound

variable {E D : Type} [RadioRaptorq E D] {air : Air maxChannels maxNodes maxResponse A D}

/-- A device hears each hello of another one at most once. -/
theorem Kept.hellosHeard_le (h : Kept air) (a s : A) :
    ((hellosHeard maxChannels maxNodes maxResponse (air.processed a)).filter (fun d => decide (d.1 = s))).length ≤
      if s = a then 0 else (hellos (air.said s)).length := by
  have hheard : ((hellosHeard maxChannels maxNodes maxResponse (air.processed a)).filter
      (fun d => decide (d.1 = s))).length =
        (passedOf s (air.processed a)).countP (fun p => saysHello maxChannels maxNodes maxResponse p.2) := by
    rw [hellosHeard,passedOf,List.filter_filter,List.countP_map,List.countP_filter,List.countP_eq_length_filter]
    refine congrArg List.length (List.filter_congr (fun d _ => ?_))
    rw [Bool.and_comm]
    rfl
  rw [hheard]
  split_ifs with hs
  · rw [hs,h.passed_own a]
    exact le_rfl
  · refine (h.passed_sublist a s).countP_le.trans (le_of_eq ?_)
    have hspoken : air.spoken s = ((air.said s).zipIdx).map (fun t => (numberOf t.2,toBytes t.1.message)) := by
      rw [spoken,List.mapIdx_eq_zipIdx_map]
    have hsaid : ∀ m : NetworkProtocol maxChannels maxNodes maxResponse,
        saysHello maxChannels maxNodes maxResponse (toBytes m) = m.isHello := by
      intro m
      rw [saysHello,Postcard.fromBytes_toBytes]
    rw [hspoken,List.countP_map,hellos,←List.countP_eq_length_filter]
    conv_rhs => rw [←List.zipIdx_map_fst 0 (air.said s),List.countP_map]
    refine List.countP_congr (fun t _ => ?_)
    simp [hsaid]

/-- A device sends no more messages than there have been hellos. -/
theorem Kept.said_le [Fintype A] (h : Kept air) {a : A} (hpaced : air.Paced a) :
    (air.said a).length ≤ ∑ s, (hellos (air.said s)).length := by
  have hsplit : (air.said a).length = (hellos (air.said a)).length+(requests (air.said a)).length := by
    rw [hellos,requests,←List.countP_eq_length_filter,←List.countP_eq_length_filter]
    have hlen := List.length_eq_countP_add_countP (fun t => t.message.isHello) (l := air.said a)
    simpa only [Bool.not_eq_true,decide_not,Bool.decide_eq_false] using hlen
  have hasked : (requests (air.said a)).length ≤
      (hellosHeard maxChannels maxNodes maxResponse (air.processed a)).length :=
    (Nat.le_add_right _ _).trans hpaced.asked
  rw [length_eq_sum Prod.fst (hellosHeard maxChannels maxNodes maxResponse (air.processed a))] at hasked
  have hothers := Finset.sum_le_sum (fun s (_ : s ∈ Finset.univ) => h.hellosHeard_le a s)
  have hrest : (∑ s, if s = a then 0 else (hellos (air.said s)).length)+(hellos (air.said a)).length =
      ∑ s, (hellos (air.said s)).length := by
    rw [←Finset.sum_erase_add _ _ (Finset.mem_univ a),←Finset.sum_erase_add (a := a) _ _ (Finset.mem_univ a),if_pos rfl,
      Nat.add_zero]
    refine congrArg (· + (hellos (air.said a)).length) (Finset.sum_congr rfl (fun s hs => ?_))
    rw [if_neg (Finset.ne_of_mem_erase hs)]
  omega

omit [DecidableEq A] [Target] in
theorem Paced.hellos_le {last : Nat} {a : A} (h : air.Paced a) (hlast : ∀ t ∈ air.said a, t.now.val ≤ last) :
    (hellos (air.said a)).length ≤ last/5000+1 := by
  have hspaced : ((hellos (air.said a)).map (fun t => t.now.val)).Pairwise (fun t u => t+5000 ≤ u) :=
    List.pairwise_map.mpr h.spaced
  have hall : ∀ t ∈ (hellos (air.said a)).map (fun t => t.now.val), t ≤ last := by
    intro t ht
    obtain ⟨u,hu,rfl⟩ := List.mem_map.mp ht
    exact hlast u (List.mem_filter.mp hu).1
  have hlen := length_le_of_spaced hspaced _ hall
  rw [List.length_map] at hlen
  omega

/-- Up to a time there is no more on the air than this of each device. -/
def mostSaid (A : Type) [Fintype A] (last : Nat) : Nat := Fintype.card A*(last/5000+1)

theorem Kept.said_le_most [Fintype A] (h : Kept air) (hpaced : ∀ a, air.Paced a) {last : Nat}
    (hlast : ∀ a, ∀ t ∈ air.said a, t.now.val ≤ last) (a : A) : (air.said a).length ≤ mostSaid A last := by
  refine (h.said_le (hpaced a)).trans ?_
  have hsum := Finset.sum_le_card_nsmul Finset.univ (fun s => (hellos (air.said s)).length) (last/5000+1)
    (fun s _ => (hpaced s).hellos_le (hlast s))
  rw [Finset.card_univ] at hsum
  exact hsum

/-- Until the numbers are used up, the air stays in order. -/
theorem Reachable.orderly [Fintype A] (h : Reachable slabSize C P S air)
    (hne : ∀ m : NetworkProtocol maxChannels maxNodes maxResponse, toBytes m ≠ []) {last : Nat}
    (hlast : ∀ a, ∀ t ∈ air.said a, t.now.val ≤ last) (hfew : mostSaid A last ≤ 2^16) :
    Kept air ∧ ∀ a, air.Paced a := by
  obtain ⟨buffers,hruns⟩ := h
  induction hruns with
  | refl =>
    refine ⟨kept_new buffers,fun a => ⟨fun m hm => ?_,fun t ht => ?_,List.Pairwise.nil,fun t ht => ?_,Nat.zero_le _⟩⟩
    · cases hm
    · cases ht
    · cases ht
  | tail hruns hstep ih =>
    have hbefore := fun a t ht => hlast a t ((hstep.said_later a).subset ht)
    obtain ⟨hkept,hpaced⟩ := ih hbefore
    have hlen := fun a => (hkept.said_le_most hpaced hbefore a).trans hfew
    exact ⟨hkept.step hstep hlen hne,Paced.step (fun a => ⟨hkept.mtu a,hkept.duration a⟩) hpaced hstep⟩

/-- There is no storm: hellos are 5 seconds apart, anything else is a request for one of the hellos that a device has
processed, and so no device sends more messages than there have been hellos, which is a bound on the time alone. -/
theorem Reachable.no_storm [Fintype A] (h : Reachable slabSize C P S air)
    (hne : ∀ m : NetworkProtocol maxChannels maxNodes maxResponse, toBytes m ≠ []) {last : Nat}
    (hlast : ∀ a, ∀ t ∈ air.said a, t.now.val ≤ last) (hfew : mostSaid A last ≤ 2^16) (a : A) :
    (hellos (air.said a)).Pairwise (fun t u => t.now.val+5000 ≤ u.now.val) ∧
    (∀ t ∈ requests (air.said a), ∃ request, t.message = .syncRequest request) ∧
    (requests (air.said a)).length ≤ (hellosHeard maxChannels maxNodes maxResponse (air.processed a)).length ∧
    (air.said a).length ≤ ∑ s, (hellos (air.said s)).length ∧ (air.said a).length ≤ mostSaid A last := by
  obtain ⟨hkept,hpaced⟩ := h.orderly hne hlast hfew
  have hkinds : ∀ t ∈ requests (air.said a), ∃ request, t.message = .syncRequest request := by
    intro t ht
    obtain ⟨ht,hno⟩ := List.mem_filter.mp ht
    exact (hpaced a).kinds t ht (by simpa using hno)
  exact ⟨(hpaced a).spaced,hkinds,(Nat.le_add_right _ _).trans (hpaced a).asked,hkept.said_le (hpaced a),
    hkept.said_le_most hpaced hlast a⟩

end Bound

end Air

section Greeted

namespace Air

open PlainCrypto

/-- Each of the two has sent one message. -/
theorem no_storm_greeted : (greeted.said true).length+(greeted.said false).length = 2 ∧ ∀ a,
    (requests (greeted.said a)).length ≤ (hellosHeard 2 2 64 (greeted.processed a)).length ∧
    (greeted.said a).length ≤ mostSaid Bool 0 := by
  have htimes : ∀ a, ((greeted.said a).all (fun t => decide (t.now.val ≤ 0))) = true := by decide +kernel
  have hlast : ∀ a, ∀ t ∈ greeted.said a, t.now.val ≤ 0 := fun a t ht =>
    of_decide_eq_true (List.all_eq_true.mp (htimes a) t ht)
  refine ⟨by decide +kernel,fun a => ?_⟩
  obtain ⟨_,_,hrequests,_,hmost⟩ := greeted_reachable.no_storm toBytes_ne_nil hlast (by decide) a
  exact ⟨hrequests,hmost⟩

end Air

end Greeted

end Finder
