import Finder.Radio.Links
import Mathlib.Data.List.Sort

namespace Finder

variable {maxChannels maxNodes maxResponse slabSize : Nat} {A E D C P S : Type}

/-- A message that a device has sent, with the time of the pass and the packets that it has broadcast. -/
structure Transmission (maxChannels maxNodes maxResponse : Nat) where
  message : NetworkProtocol maxChannels maxNodes maxResponse
  now : U64
  packets : List Bytes

/-- Devices that all run the loop, each with its message buffer, and what there has been on the air: what each has
sent, the packets that it has heard, and what it has processed of the others. -/
structure Air (maxChannels maxNodes maxResponse : Nat) (A D : Type) where
  device : A → WireState maxChannels maxNodes maxResponse A D × Bytes
  said : A → List (Transmission maxChannels maxNodes maxResponse)
  heard : A → List (Arrival A)
  processed : A → List (A × U16 × Bytes)

namespace Air

def initial (buffers : A → Bytes) : Air maxChannels maxNodes maxResponse A D where
  device a := (WireState.new espNowMtu,buffers a)
  said _ := []
  heard _ := []
  processed _ := []

/-- The radio of a device can bring this packet: another one has sent it, and none of a later message of that one has
come before. -/
structure Brings (air : Air maxChannels maxNodes maxResponse A D) (a : A) (x : Arrival A) : Prop where
  other : x.sender ≠ a
  sent : ∃ t, (air.said x.sender)[x.index]? = some t ∧ x.data ∈ t.packets
  ordered : ∀ y ∈ air.heard a, y.sender = x.sender → y.index ≤ x.index

variable [DecidableEq A] [Target] [Raptorq E D] [Postcard (NetworkProtocol maxChannels maxNodes maxResponse)]

/-- The message at a place, as it is written. -/
def message (air : Air maxChannels maxNodes maxResponse A D) (s : A) (i : Nat) : Bytes :=
  ((air.said s)[i]?).elim [] (fun t => toBytes t.message)

/-- What a packet that has come makes the device process. -/
def processedBy (received : Option (Arrival A)) (st : WireState maxChannels maxNodes maxResponse A D) :
    List (A × U16 × Bytes) :=
  (received.bind (fun x => (WireState.passed x.data x.sender st).map (fun p => (x.sender,p)))).toList

omit [DecidableEq A] [Target] [Raptorq E D] [Postcard (NetworkProtocol maxChannels maxNodes maxResponse)] in
/-- What a pass that takes a message, or none, adds to what the device has sent. -/
def saidBy (now : U64) (packets : List Bytes) (taken : Option (NetworkProtocol maxChannels maxNodes maxResponse)) :
    List (Transmission maxChannels maxNodes maxResponse) :=
  (taken.map (fun m => ⟨m,now,packets⟩)).toList

/-- The air after a pass of a device. -/
def after (air : Air maxChannels maxNodes maxResponse A D) (a : A) (received : Option (Arrival A)) (now : U64)
    (taken : Option (NetworkProtocol maxChannels maxNodes maxResponse)) (packets : List Bytes)
    (device : WireState maxChannels maxNodes maxResponse A D × Bytes) : Air maxChannels maxNodes maxResponse A D where
  device := Function.update air.device a device
  said := Function.update air.said a (air.said a ++ saidBy now packets taken)
  heard := Function.update air.heard a (air.heard a ++ received.toList)
  processed := Function.update air.processed a (air.processed a ++ processedBy received (air.device a).1)

variable (slabSize C P S) in
/-- A device makes a pass that does not panic, whatever the driver answers. Packets may be lost, and may come more than
once. -/
inductive Step (air : Air maxChannels maxNodes maxResponse A D) : Air maxChannels maxNodes maxResponse A D → Prop
  | pass (a : A) (espNow : EspNow) (received : Option (Arrival A)) (now : U64) (peerCount : UInt8)
      (channelId : ChannelId) (client : Client maxChannels maxNodes slabSize C P S) (packets : List Bytes)
      (device : WireState maxChannels maxNodes maxResponse A D × Bytes) (hbrings : ∀ x ∈ received, air.Brings a x)
      (hpass : networkLoop espNow (received.map Arrival.packet) now peerCount channelId client (air.device a) =
        (.ok packets,device)) :
      Step air (air.after a received now
        (takenBy (received.map Arrival.packet) now peerCount channelId client (air.device a).1) packets device)

variable (slabSize C P S) in
def Reachable (air : Air maxChannels maxNodes maxResponse A D) : Prop :=
  ∃ buffers, Relation.ReflTransGen (Step slabSize C P S) (initial buffers) air

/-- What every pass keeps. -/
structure Kept (air : Air maxChannels maxNodes maxResponse A D) : Prop where
  mtu : ∀ a, (air.device a).1.mtu = espNowMtu
  duration : ∀ a, (air.device a).1.helloDuration = 5000
  keys : ∀ a, (air.device a).1.receivers.keys.Nodup
  number : ∀ a, (air.device a).1.nextMessageNumber = numberOf (air.said a).length
  others : ∀ a, ∀ x ∈ air.heard a, x.sender ≠ a
  cut : ∀ a i t, (air.said a)[i]? = some t → CutInto D (numberOf i) (toBytes t.message) t.packets
  links : ∀ a s, ∃ xs done, Link (air.message s) (air.said s).length s (air.heard a) (air.device a).1.receivers
    (air.processed a) xs done

omit [DecidableEq A] [Target] [Raptorq E D] in
theorem message_eq {air : Air maxChannels maxNodes maxResponse A D} {s : A} {i : Nat}
    {t : Transmission maxChannels maxNodes maxResponse} (h : (air.said s)[i]? = some t) :
    air.message s i = toBytes t.message := by
  rw [message,h]
  rfl

omit [Target] [Raptorq E D] [Postcard (NetworkProtocol maxChannels maxNodes maxResponse)] in
/-- What has been said stays said. -/
theorem said_later (air : Air maxChannels maxNodes maxResponse A D) (a s : A)
    (more : List (Transmission maxChannels maxNodes maxResponse)) :
    air.said s <+: Function.update air.said a (air.said a ++ more) s := by
  by_cases hs : s = a
  · subst hs
    rw [Function.update_self]
    exact List.prefix_append _ _
  · have hsame : Function.update air.said a (air.said a ++ more) s = air.said s := Function.update_of_ne hs _ _
    exact hsame.symm ▸ List.prefix_rfl

section Step

variable {E D : Type} [RadioRaptorq E D] {air : Air maxChannels maxNodes maxResponse A D} {a : A} {x : Arrival A}
  {received : Option (Arrival A)} {client : Client maxChannels maxNodes slabSize C P S}

/-- A packet that comes is one of those of its message. -/
theorem Kept.brings (h : Kept air) (hfew : ∀ s, (air.said s).length ≤ 2^16)
    (hne : ∀ m : NetworkProtocol maxChannels maxNodes maxResponse, toBytes m ≠ []) (hx : air.Brings a x) :
    (∃ m : NetworkProtocol maxChannels maxNodes maxResponse, air.message x.sender x.index = toBytes m) ∧
      ∃ e, Link.Brings (D := D) (air.message x.sender) (air.said x.sender).length (air.heard a) x e := by
  obtain ⟨t,ht,hin⟩ := hx.sent
  have hmessage := message_eq ht
  have hcut := h.cut x.sender x.index t ht
  have hcodable := hcut.codable (hne t.message)
  obtain ⟨hlt,_⟩ := List.getElem?_eq_some_iff.mp ht
  rw [←hmessage] at hcut hcodable
  obtain ⟨e,he,hdata⟩ := (hcut.mem_iff hcodable).mp hin
  have hsmall := hlt.trans_le (hfew x.sender)
  exact ⟨⟨t.message,hmessage⟩,e,hdata,⟨hsmall,hcodable,he⟩,hlt,hx.ordered⟩

variable (client) in
/-- Reading the radio does not panic, and keeps the entries of all senders. -/
theorem Kept.receives (h : Kept air) (hfew : ∀ s, (air.said s).length ≤ 2^16)
    (hne : ∀ m : NetworkProtocol maxChannels maxNodes maxResponse, toBytes m ≠ [])
    (hbrings : ∀ x ∈ received, air.Brings a x) :
    (receiveData (received.map Arrival.packet) client (air.device a).1).1 ≠ .panic ∧
    (receiveData (received.map Arrival.packet) client (air.device a).1).2.receivers.keys.Nodup ∧
    ∀ s, ∃ xs done, Link (air.message s) (air.said s).length s (air.heard a ++ received.toList)
      (receiveData (received.map Arrival.packet) client (air.device a).1).2.receivers
      (air.processed a ++ processedBy received (air.device a).1) xs done := by
  cases received with
  | none =>
    refine ⟨fun hpanic => (by cases hpanic),h.keys a,fun s => ?_⟩
    rw [Option.toList_none,List.append_nil,show processedBy none (air.device a).1 = [] from rfl,List.append_nil]
    exact h.links a s
  | some x =>
    obtain ⟨⟨m,hm⟩,e,hx⟩ := h.brings hfew hne (hbrings x rfl)
    have hnumber : WireReader.checkPacket x.data = .ok (numberOf x.index) := by
      rw [hx.data]
      exact Tracks.number (D := D) (x.index,e)
    have hparses : WireState.Parses maxChannels maxNodes maxResponse (air.message x.sender x.index) := by
      rw [hm]
      exact ⟨m,Postcard.fromBytes_toBytes m⟩
    obtain ⟨xs,done,hlink⟩ := h.links a x.sender
    refine ⟨hlink.returns hx (h.mtu a) hparses,?_,fun s => ?_⟩
    · change (WireState.receivePacket x.data x.sender client (air.device a).1).2.receivers.keys.Nodup
      by_cases hadmits : (air.device a).1.Admits x.sender
      · exact (WireState.receivePacket_enters client hnumber hadmits).1.keys (h.keys a)
      · rw [WireState.receivePacket_nothing (WireState.decodePacket_full hnumber hadmits)]
        exact h.keys a
    · by_cases hs : x.sender = s
      · subst hs
        obtain ⟨done',hnext⟩ := hlink.receive client hx (h.mtu a) hparses
        exact ⟨_,done',hnext⟩
      · obtain ⟨xs,done,hlink⟩ := h.links a s
        exact ⟨xs,done,hlink.other client hnumber hs (h.keys a)⟩

omit [Target] in
/-- The messages said are a longer row after a pass, and each as it was written. -/
theorem message_later (air air' : Air maxChannels maxNodes maxResponse A D) {a : A}
    {more : List (Transmission maxChannels maxNodes maxResponse)} (hsaid : air'.said = Function.update air.said a (air.said a ++ more))
    (s : A) : (air.said s).length ≤ (air'.said s).length ∧
      ∀ i < (air.said s).length, air'.message s i = air.message s i := by
  have hlonger : air.said s <+: air'.said s := by
    rw [hsaid]
    exact said_later air a s more
  refine ⟨hlonger.length_le,fun i hi => ?_⟩
  have ht := List.getElem?_eq_getElem hi
  have ht' : (air'.said s)[i]? = some (air.said s)[i] := by
    obtain ⟨rest,hrest⟩ := hlonger
    rw [←hrest,List.getElem?_append_left hi,ht]
  rw [message_eq ht,message_eq ht']

theorem Kept.step {air' : Air maxChannels maxNodes maxResponse A D} (h : Kept air) (hstep : Step slabSize C P S air air')
    (hfew : ∀ s, (air.said s).length ≤ 2^16)
    (hne : ∀ m : NetworkProtocol maxChannels maxNodes maxResponse, toBytes m ≠ []) : Kept air' := by
  cases hstep with
  | pass a espNow received now peerCount channelId client packets device hbrings hpass =>
  obtain ⟨st,buffer⟩ := device
  obtain ⟨_,hkeys,hlinks⟩ := h.receives client hfew hne hbrings
  obtain ⟨hmtu,hduration,_,hnumber⟩ := receiveData_settings (received.map Arrival.packet) client (air.device a).1
  obtain ⟨hends,_⟩ := networkLoop_ends (hmtu.trans (h.mtu a)) hpass
  obtain ⟨taken,htaken⟩ : ∃ taken, taken =
    takenBy (received.map Arrival.packet) now peerCount channelId client (air.device a).1 := ⟨_,rfl⟩
  rw [←htaken] at hends ⊢
  have hlater := message_later air (air.after a received now taken packets (st,buffer)) rfl
  obtain ⟨hreceivers,hst,hsettle,hsends⟩ := hends.sends
  rw [hnumber,h.number a] at hsends
  -- what another device has is as it was
  refine ⟨fun b => ?_,fun b => ?_,fun b => ?_,fun b => ?_,fun b x hx => ?_,fun b i t ht => ?_,fun b s => ?_⟩
  · by_cases hb : b = a
    · subst hb
      simpa [after] using hst.trans (hmtu.trans (h.mtu b))
    · simpa [after,hb] using h.mtu b
  · by_cases hb : b = a
    · subst hb
      simpa [after] using hsettle.trans (hduration.trans (h.duration b))
    · simpa [after,hb] using h.duration b
  · by_cases hb : b = a
    · subst hb
      simpa [after,hreceivers] using hkeys
    · simpa [after,hb] using h.keys b
  · by_cases hb : b = a
    · subst hb
      rcases hsends with ⟨rfl,hnext⟩ | ⟨m,rfl,_,hnext⟩
      · simpa [after,saidBy] using hnext
      · simpa [after,saidBy,numberOf_succ] using hnext
    · simpa [after,hb] using h.number b
  · by_cases hb : b = a
    · subst hb
      simp only [after,Function.update_self] at hx
      rcases List.mem_append.mp hx with hx | hx
      · exact h.others b x hx
      · exact (hbrings x (Option.mem_toList.mp hx)).other
    · simp only [after,Function.update_of_ne hb] at hx
      exact h.others b x hx
  · by_cases hb : b = a
    · subst hb
      simp only [after,Function.update_self] at ht
      by_cases hi : i < (air.said b).length
      · rw [List.getElem?_append_left hi] at ht
        exact h.cut b i t ht
      · rw [List.getElem?_append_right (not_lt.mp hi)] at ht
        rcases hsends with ⟨rfl,_⟩ | ⟨m,rfl,hcut,_⟩
        · cases ht
        · obtain ⟨hlt,hsame⟩ := List.getElem?_eq_some_iff.mp ht
          obtain rfl : t = ⟨m,now,packets⟩ := List.mem_singleton.mp (List.mem_of_getElem? ht)
          have hlast : i = (air.said b).length := by
            rw [saidBy,Option.map_some,Option.toList_some,List.length_singleton] at hlt
            omega
          rw [hlast]
          exact hcut
    · simp only [after,Function.update_of_ne hb] at ht
      exact h.cut b i t ht
  · obtain ⟨hcount,hsame⟩ := hlater s
    by_cases hb : b = a
    · subst hb
      obtain ⟨xs,done,hlink⟩ := hlinks s
      rw [←hreceivers] at hlink
      refine ⟨xs,done,?_⟩
      simpa [after] using hlink.later hcount hsame
    · obtain ⟨xs,done,hlink⟩ := h.links b s
      refine ⟨xs,done,?_⟩
      simpa [after,hb] using hlink.later hcount hsame

theorem kept_new (buffers : A → Bytes) : Kept (initial buffers : Air maxChannels maxNodes maxResponse A D) := by
  refine ⟨fun _ => rfl,fun _ => rfl,fun _ => List.nodup_nil,fun _ => rfl,fun a x hx => ?_,fun a i t ht => ?_,
    fun a s => ⟨[],[],Link.new _ _ s⟩⟩
  · cases hx
  · cases ht

omit [RadioRaptorq E D] in
theorem Step.said_later [Raptorq E D] {air' : Air maxChannels maxNodes maxResponse A D}
    (hstep : Step slabSize C P S air air') (s : A) : air.said s <+: air'.said s := by
  cases hstep with
  | pass a espNow received now peerCount channelId client packets device hbrings hpass => exact air.said_later a s _

theorem Reachable.kept (h : Reachable slabSize C P S air) (hfew : ∀ s, (air.said s).length ≤ 2^16)
    (hne : ∀ m : NetworkProtocol maxChannels maxNodes maxResponse, toBytes m ≠ []) : Kept air := by
  obtain ⟨buffers,hruns⟩ := h
  induction hruns with
  | refl => exact kept_new buffers
  | tail hruns hstep ih =>
    have hbefore := fun s => (hstep.said_later s).length_le.trans (hfew s)
    exact (ih hbefore).step hstep hbefore hne

omit [Target] [RadioRaptorq E D] in
/-- What a device has sent, as others can process it. -/
def spoken (air : Air maxChannels maxNodes maxResponse A D) (s : A) : List (U16 × Bytes) :=
  (air.said s).mapIdx (fun i t => (numberOf i,toBytes t.message))

omit [DecidableEq A] [Target] [RadioRaptorq E D] in
theorem spoken_eq (s : A) : air.spoken s =
    (List.range (air.said s).length).map (fun i => (numberOf i,air.message s i)) := by
  refine List.ext_getElem (by simp [spoken]) (fun i hi _ => ?_)
  rw [spoken,List.length_mapIdx] at hi
  rw [List.getElem_map,List.getElem_range,message_eq (List.getElem?_eq_getElem hi)]
  simp [spoken]

theorem Kept.passed_sublist (h : Kept air) (a s : A) : (passedOf s (air.processed a)).Sublist (air.spoken s) := by
  obtain ⟨xs,done,hlink⟩ := h.links a s
  rw [hlink.passed,spoken_eq]
  refine List.Sublist.map _ ?_
  cases hlink.entered with
  | absent _ _ => exact List.nil_sublist _
  | entry r _ _ _ htracks =>
    have hsub : done ⊆ List.range (air.said s).length := by
      intro i hi
      obtain ⟨x,hx,rfl⟩ := htracks.arrived i hi
      exact List.mem_range.mpr (hlink.genuine x hx).1
    have hnodup : done.Nodup := htracks.increasing.imp (fun hlt => hlt.ne)
    exact List.sublist_of_subperm_of_pairwise (List.subperm_of_subset hnodup hsub)
      (htracks.increasing.imp (fun hlt => hlt.le)) (List.pairwise_le_range)

theorem Kept.passed_own (h : Kept air) (a : A) : passedOf a (air.processed a) = [] := by
  obtain ⟨xs,done,hlink⟩ := h.links a a
  have hnone : xs = [] := by
    refine List.eq_nil_iff_forall_not_mem.mpr (fun y hy => ?_)
    obtain ⟨x,hx,hsender,_⟩ := hlink.index_mem hy
    exact h.others a x hx hsender
  rw [hlink.passed]
  cases hlink.entered with
  | absent _ _ => rfl
  | entry r _ _ hsome _ => exact absurd hnone hsome

/-- Nothing on the air is forged, changed or processed twice: what a device processes of another one are some of the
messages that this one has sent, in their order and with their numbers. -/
theorem Reachable.processed_sublist (h : Reachable slabSize C P S air) (hfew : ∀ s, (air.said s).length ≤ 2^16)
    (hne : ∀ m : NetworkProtocol maxChannels maxNodes maxResponse, toBytes m ≠ []) (a : A) :
    (∀ s, (passedOf s (air.processed a)).Sublist (air.spoken s)) ∧ passedOf a (air.processed a) = [] :=
  ⟨(h.kept hfew hne).passed_sublist a,(h.kept hfew hne).passed_own a⟩

/-- Whatever has come on the air, a pass of a device goes well where the driver's calls succeed, and each packet is as
long as one can be. -/
theorem Reachable.never_panics (h : Reachable slabSize C P S air) (hfew : ∀ s, (air.said s).length ≤ 2^16)
    (hne : ∀ m : NetworkProtocol maxChannels maxNodes maxResponse, toBytes m ≠ []) (hroom : 0 < maxChannels) (a : A)
    (espNow : EspNow) (hdriver : espNow.Succeeds) (received : Option (Arrival A)) (now : U64) (peerCount : UInt8)
    (channelId : ChannelId) (client : Client maxChannels maxNodes slabSize C P S) (hbrings : ∀ x ∈ received, air.Brings a x)
    (hclock : now.val+5000 < 2^64) (hheld : (client.channels.get channelId).isSome)
    (hfits : ∀ m, takenBy (received.map Arrival.packet) now peerCount channelId client (air.device a).1 = some m →
      (toBytes m).length ≤ 2^16-1 ∧ (toBytes m).length ≤ (air.device a).2.length) :
    ∃ packets device, networkLoop espNow (received.map Arrival.packet) now peerCount channelId client (air.device a) =
      (.ok packets,device) ∧ ∀ p ∈ packets, p.length = espNowMtu.val := by
  have hkept := h.kept hfew hne
  obtain ⟨hreturns,_,_⟩ := hkept.receives client hfew hne hbrings
  obtain ⟨hmtu,hduration,_,_⟩ := receiveData_settings (received.map Arrival.packet) client (air.device a).1
  obtain ⟨ch,hget⟩ := Option.isSome_iff_exists.mp hheld
  have hcodable : ∀ m : NetworkProtocol maxChannels maxNodes maxResponse, (toBytes m).length ≤ 2^16-1 →
      Codable (toBytes m) (espNowMtu.val-6) := fun m hm => ⟨List.length_pos_of_ne_nil (hne m),by omega,by decide⟩
  have htimer : now.val+(receiveData (received.map Arrival.packet) client (air.device a).1).2.helloDuration.val < 2^64 := by
    rw [hduration,hkept.duration a]
    exact hclock
  obtain ⟨packets,⟨st,buffer⟩,hpass⟩ := networkLoop_returns (air.device a).2 hdriver hreturns
    (hmtu.trans (hkept.mtu a)) htimer hroom hget (fun m hm => ⟨hcodable m (hfits m hm).1,(hfits m hm).2⟩)
  refine ⟨packets,_,hpass,fun p hp => ?_⟩
  obtain ⟨hends,_⟩ := networkLoop_ends (hmtu.trans (hkept.mtu a)) hpass
  obtain ⟨_,_,_,⟨hnone,_⟩ | ⟨m,hm,⟨w,hnew,hpackets⟩,_⟩⟩ := hends.sends
  · rw [hnone] at hends
    cases hends
    cases hp
  · obtain ⟨_,hsame,_,hsize⟩ := broadcastPackets_new (hcodable m (hfits m hm).1) hnew
    rw [hpackets] at hsame
    cases hsame
    exact hsize p hp

end Step

section Pass

/-- A pass, as it comes to be. -/
def pass (air : Air maxChannels maxNodes maxResponse A D) (a : A) (espNow : EspNow) (received : Option (Arrival A))
    (now : U64) (peerCount : UInt8) (channelId : ChannelId) (client : Client maxChannels maxNodes slabSize C P S) :
    Air maxChannels maxNodes maxResponse A D :=
  air.after a received now (takenBy (received.map Arrival.packet) now peerCount channelId client (air.device a).1)
    ((networkLoop espNow (received.map Arrival.packet) now peerCount channelId client (air.device a)).1.value.getD [])
    (networkLoop espNow (received.map Arrival.packet) now peerCount channelId client (air.device a)).2

theorem Reachable.pass {air : Air maxChannels maxNodes maxResponse A D} (h : Reachable slabSize C P S air) {a : A}
    {espNow : EspNow} {received : Option (Arrival A)} {now : U64} {peerCount : UInt8} {channelId : ChannelId}
    {client : Client maxChannels maxNodes slabSize C P S} (hbrings : ∀ x ∈ received, air.Brings a x)
    (hok : (networkLoop espNow (received.map Arrival.packet) now peerCount channelId client (air.device a)).1.value.isSome) :
    Reachable slabSize C P S (air.pass a espNow received now peerCount channelId client) := by
  obtain ⟨buffers,hruns⟩ := h
  obtain ⟨packets,hpackets⟩ := Option.isSome_iff_exists.mp hok
  have hpass : networkLoop espNow (received.map Arrival.packet) now peerCount channelId client (air.device a) = (.ok packets,_) :=
    Prod.ext (Outcome.value_eq_some.mp hpackets) rfl
  have hstep : Step slabSize C P S air _ := .pass a espNow received now peerCount channelId client packets _ hbrings hpass
  refine ⟨buffers,hruns.tail ?_⟩
  rw [Air.pass,hpackets]
  exact hstep

end Pass

end Air

section Greeted

namespace Air

open PlainCrypto

theorem toBytes_ne_nil (m : NetworkProtocol 2 2 64) : toBytes m ≠ [] := by
  intro hnil
  cases m <;> cases hnil

/-- A driver all of whose calls succeed. -/
def driver : EspNow := ⟨true,true,fun _ => true⟩

theorem driver_succeeds : driver.Succeeds := ⟨rfl,rfl,fun _ => rfl⟩

/-- Two devices that have not said anything. -/
def silence : Air 2 2 64 Bool BlockDecoder := initial (fun _ => List.replicate 200 0)

/-- The first one has said a hello. -/
def greeting : Air 2 2 64 Bool BlockDecoder := silence.pass true driver none 0 1 (chatId 1) owner

def greetingPackets : List Bytes := ((greeting.said true).map Transmission.packets).flatten

def greetingPacket : Bytes := greetingPackets.headD []

/-- The other one has heard it. -/
def greeted : Air 2 2 64 Bool BlockDecoder := greeting.pass false driver (some ⟨true,0,greetingPacket⟩) 0 1 (chatId 1) owner

theorem silence_reachable : Reachable 256 PlainCrypto U64 U64 silence := ⟨_,.refl⟩

theorem greeting_reachable : Reachable 256 PlainCrypto U64 U64 greeting :=
  silence_reachable.pass (by simp) (by decide +kernel)

theorem greeting_brings : greeting.Brings false ⟨true,0,greetingPacket⟩ := by
  refine ⟨by simp,?_,fun y hy => ?_⟩
  · have hsaid : ((greeting.said true)[0]?).map Transmission.packets = some [greetingPacket] := by decide +kernel
    obtain ⟨t,ht,hpackets⟩ := Option.map_eq_some_iff.mp hsaid
    refine ⟨t,ht,?_⟩
    dsimp only
    rw [hpackets]
    simp
  · cases hy

theorem greeted_reachable : Reachable 256 PlainCrypto U64 U64 greeted := by
  refine greeting_reachable.pass (fun x hx => ?_) (by decide +kernel)
  cases hx
  exact greeting_brings

theorem greeted_few (s : Bool) : (greeted.said s).length ≤ 2^16 := by
  have hone : ∀ s, (greeted.said s).length ≤ 1 := by decide +kernel
  exact (hone s).trans (by norm_num)

theorem processed_sublist_greeted : (greeted.processed false).length = 1 ∧
    (passedOf true (greeted.processed false)).Sublist (greeted.spoken true) :=
  ⟨by decide +kernel,(greeted_reachable.processed_sublist greeted_few toBytes_ne_nil false).1 true⟩

theorem never_panics_greeted : ∃ packets device, networkLoop driver ((some ⟨true,0,greetingPacket⟩).map Arrival.packet) 1 1
    (chatId 1) owner (greeting.device false) = (.ok packets,device) ∧ ∀ p ∈ packets, p.length = espNowMtu.val := by
  refine greeting_reachable.never_panics (fun s => ?_) toBytes_ne_nil (by decide) false driver driver_succeeds
    (some ⟨true,0,greetingPacket⟩) 1 1 (chatId 1) owner (fun x hx => ?_) (by decide) (by decide +kernel) (fun m hm => ?_)
  · have hone : ∀ s, (greeting.said s).length ≤ 1 := by decide +kernel
    exact (hone s).trans (by norm_num)
  · cases hx
    exact greeting_brings
  · have hall : (takenBy ((some ⟨true,0,greetingPacket⟩).map Arrival.packet) 1 1 (chatId 1) owner
        (greeting.device false).1).all (fun m => decide ((toBytes m).length ≤ 200)) = true := by decide +kernel
    rw [hm] at hall
    have hlen : (toBytes m).length ≤ 200 := by simpa using hall
    have hroom : (greeting.device false).2.length = 200 := by decide +kernel
    rw [hroom]
    exact ⟨hlen.trans (by norm_num),hlen⟩

end Air

end Greeted

end Finder
