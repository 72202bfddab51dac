import Finder.Radio.Entries
import Finder.Radio.Turns

namespace Finder

variable {maxChannels maxNodes maxResponse slabSize : Nat} {A E D C P S : Type}

/-- What the senders send: each its messages in order, numbered from its first number on. -/
structure Broadcast (A : Type) where
  start : A → U16
  messages : A → List Bytes
  few : ∀ a, (messages a).length < 2^16

namespace Broadcast

variable {b : Broadcast A} {a : A} {i j : Nat} {data : Bytes}

def number (b : Broadcast A) (a : A) (i : Nat) : U16 := b.start a+Fin.ofNat (2^16) i

theorem number_inj (hi : i < 2^16) (hj : j < 2^16) (h : b.number a i = b.number a j) : i = j := by
  have hval := congrArg Fin.val h
  rw [number,number,Fin.val_add,Fin.val_add,Fin.val_ofNat,Fin.val_ofNat,Nat.mod_eq_of_lt hi,Nat.mod_eq_of_lt hj] at hval
  have hstart := (b.start a).isLt
  omega

variable (D) in
/-- The packet is one that a writer of the message writes. -/
def Sends [Target] [Raptorq E D] (b : Broadcast A) (a : A) (i : Nat) (data : Bytes) : Prop :=
  ∃ message, (b.messages a)[i]? = some message ∧
    ∃ mtu repair writer, WireWriter.new D (b.number a i) mtu message repair = .ok writer ∧
      ∃ lastSent buffer length t, WireWriter.next D ({ writer with lastSent := lastSent },buffer) = (.ok length,t) ∧
        data = t.2.take length

variable (D) in
/-- What the packets of one message decode to is of a kind that parses. -/
def AllParse [Target] [Raptorq E D] (b : Broadcast A) (mtu : U16) (parses : Bytes → Prop) : Prop :=
  ∀ a i length datas value, (∀ data ∈ datas, b.Sends D a i data) →
    Yields D mtu (b.number a i) length datas value → parses value

variable (D) in
/-- A decoder can be made for each of the messages, and takes its packets. -/
structure AllTaken [Target] [Raptorq E D] (b : Broadcast A) (mtu : U16) : Prop where
  starts : ∀ a i data p, b.Sends D a i data → packetParts data = some p → p.Starts D mtu
  takes : ∀ a i length datas data payload, ∀ packet : E, ∀ decoder : D, (∀ data ∈ datas, b.Sends D a i data) →
    b.Sends D a i data → Fed mtu (b.number a i) length datas decoder →
    packetParts data = some ⟨b.number a i,length,payload⟩ → Raptorq.deserialize D payload = some packet →
      Raptorq.takes packet decoder = true

theorem Sends.lt [Target] [Raptorq E D] (h : b.Sends D a i data) : i < 2^16 := by
  obtain ⟨message,hmessage,_⟩ := h
  obtain ⟨hi,_⟩ := List.getElem?_eq_some_iff.mp hmessage
  exact hi.trans (b.few a)

/-- Such a packet can be read, and says what it is of. -/
theorem Sends.parts [Target] [LawfulRaptorq E D] (h : b.Sends D a i data) :
    ∃ p packet, packetParts data = some p ∧ p.number = b.number a i ∧ 4 ≤ p.payload.length ∧
      Raptorq.deserialize D p.payload = some packet := by
  obtain ⟨message,_,mtu,repair,writer,hnew,lastSent,buffer,length,t,hnext,rfl⟩ := h
  obtain ⟨e,_,hdata⟩ := WireWriter.next_eq_ok D hnext
  have hnumber : writer.messageNumber = b.number a i := by
    by_cases hcuts : WireWriter.Cuts D mtu message
    · rw [WireWriter.new_ok _ _ hcuts] at hnew
      cases hnew
      rfl
    · rw [WireWriter.new_panic _ _ hcuts] at hnew
      cases hnew
  have hlong : 4 ≤ (Raptorq.serialize D e).length := LawfulRaptorq.serialize_length e
  have hsome : Raptorq.deserialize D (Raptorq.serialize D e) ≠ none := fun hnone =>
    absurd ((LawfulRaptorq.deserialize_eq_none _).mp hnone) (not_lt.mpr hlong)
  obtain ⟨packet,hpacket⟩ := Option.ne_none_iff_exists'.mp hsome
  rw [hdata]
  exact ⟨_,packet,packetParts_header _ _ _,hnumber,hlong,hpacket⟩

end Broadcast

/-- A packet that comes in, with its sender and the position of its message among those of the sender. -/
structure Arrival (A : Type) where
  sender : A
  index : Nat
  data : Bytes

variable (D) in
/-- Packets of few senders come in, those of each sender in the order of its messages; any may be lost, and any may
come more than once. -/
structure Arrives [Target] [Raptorq E D] (b : Broadcast A) (maxNodes : Nat) (xs : List (Arrival A)) : Prop where
  sent : ∀ x ∈ xs, b.Sends D x.sender x.index x.data
  ordered : xs.Pairwise (fun x y => x.sender = y.sender → x.index ≤ y.index)
  few : ∃ senders : List A, senders.length ≤ maxNodes ∧ ∀ x ∈ xs, x.sender ∈ senders

theorem Arrives.sublist [Target] [Raptorq E D] {b : Broadcast A} {xs ys : List (Arrival A)}
    (h : Arrives D b maxNodes xs) (hsub : ys.Sublist xs) : Arrives D b maxNodes ys := by
  obtain ⟨senders,hfew,hin⟩ := h.few
  exact ⟨fun x hx => h.sent x (hsub.subset hx),h.ordered.sublist hsub,senders,hfew,fun x hx => hin x (hsub.subset hx)⟩

/-- The entry of a sender goes with the packets that have come from it, and with what has been passed on of it. -/
structure Follows [Raptorq E D] (b : Broadcast A) (a : A) (mtu : U16) (xs : List (Arrival A)) (r : Receiver D)
    (out : U16 × Bytes → Prop) : Prop where
  fed : ∀ reader, r.reader = some reader → Receiver.FedFrom mtu (xs.map Arrival.data) reader
  completed : ∀ p, out p → ∃ x ∈ xs, ∃ y ∈ xs, r.lastCompleted = some (b.number a x.index) ∧
    p.1 = b.number a y.index ∧ y.index ≤ x.index
  yields : ∀ p, out p → ∃ length datas, datas.Sublist (xs.map Arrival.data) ∧ Yields D mtu p.1 length datas p.2

namespace Follows

variable [Target] [LawfulRaptorq E D] {b : Broadcast A} {a : A} {mtu : U16} {xs : List (Arrival A)} {r : Receiver D}
  {out : U16 × Bytes → Prop} {x : Arrival A} {parses : Bytes → Prop} [DecidablePred parses]

omit [Target] in
theorem empty : Follows b a mtu [] (⟨none,none⟩ : Receiver D) (fun _ => False) :=
  ⟨fun _ h => (by cases h),fun _ h => h.elim,fun _ h => h.elim⟩

omit [Target] in
theorem concat (h : Follows b a mtu xs r out) (x : Arrival A) : Follows b a mtu (xs ++ [x]) r out := by
  have hmore : (xs.map Arrival.data).Sublist ((xs ++ [x]).map Arrival.data) := by
    rw [List.map_append]
    exact List.sublist_append_left _ _
  refine ⟨fun reader hreader => ?_,fun p hp => ?_,fun p hp => ?_⟩
  · obtain ⟨fed,hsub,hfed⟩ := h.fed reader hreader
    exact ⟨fed,hsub.trans hmore,hfed⟩
  · obtain ⟨y,hy,z,hz,hrest⟩ := h.completed p hp
    exact ⟨y,List.mem_append_left _ hy,z,List.mem_append_left _ hz,hrest⟩
  · obtain ⟨length,datas,hsub,hyields⟩ := h.yields p hp
    exact ⟨length,datas,hsub.trans hmore,hyields⟩

variable (parses) in
/-- A packet that comes after the others extends what the entry has been through, and a value that it leads to is of
a message that none has been passed on of. -/
theorem step (h : Follows b a mtu xs r out) (hx : b.Sends D a x.index x.data)
    (hbefore : ∀ y ∈ xs, y.index ≤ x.index) :
    Follows b a mtu (xs ++ [x]) (Receiver.step parses mtu x.data r).2
        (fun p => out p ∨ (Receiver.step parses mtu x.data r).1 = some p) ∧
      ∀ p q, (Receiver.step parses mtu x.data r).1 = some p → out q → q.1 ≠ p.1 := by
  obtain ⟨parts,_,hparts,hnumber,_,_⟩ := hx.parts
  have hmap : (xs ++ [x]).map Arrival.data = xs.map Arrival.data ++ [x.data] := by
    rw [List.map_append,List.map_singleton]
  obtain ⟨fed,hsub,hfed⟩ := Receiver.readerFor_fed h.fed parts
  obtain ⟨hsame,hlength⟩ := r.readerFor_at parts mtu
  rw [←hsame,←hlength] at hfed
  have hmore : (fed ++ [x.data]).Sublist ((xs ++ [x]).map Arrival.data) := by
    rw [hmap]
    exact hsub.append (List.Sublist.refl _)
  have hreads : ∀ (packet : E) (reader : WireReader D), r.Takes parts mtu packet → reader = { r.readerFor parts mtu with
      decoder := (Raptorq.decode packet (r.readerFor parts mtu).decoder).2 } →
      Receiver.FedFrom mtu ((xs ++ [x]).map Arrival.data) reader := by
    intro packet reader htakes hreader
    refine ⟨fed ++ [x.data],hmore,?_⟩
    rw [hreader]
    exact hsame ▸ hlength ▸ Fed.feed hfed hparts htakes.reads htakes.takes
  have hkept := h.concat x
  have hin : x ∈ xs ++ [x] := by simp
  have hstep := Receiver.step_cases parses mtu r hparts
  rcases hstep with ⟨r',hhalts,hstep⟩ | ⟨hlast,packet,htakes,reader,hreader,hstep | ⟨value,hvalue,hstep⟩⟩
  · rw [hstep]
    have hcompleted : r'.lastCompleted = r.lastCompleted := by rcases hhalts with rfl | rfl <;> rfl
    refine ⟨⟨fun current hcurrent => ?_,fun p hp => ?_,fun p hp => hkept.yields p (hp.resolve_right (by simp))⟩,
      fun p q hp => (by cases hp)⟩
    · rcases hhalts with rfl | rfl
      · exact hkept.fed current hcurrent
      · cases hcurrent
        exact ⟨fed,hsub.trans (hmap ▸ List.sublist_append_left _ _),hsame ▸ hlength ▸ hfed⟩
    · rw [hcompleted]
      exact hkept.completed p (hp.resolve_right (by simp))
  · rw [hstep]
    refine ⟨⟨fun current hcurrent => ?_,fun p hp => hkept.completed p (hp.resolve_right (by simp)),
      fun p hp => hkept.yields p (hp.resolve_right (by simp))⟩,fun p q hp => (by cases hp)⟩
    cases hcurrent
    exact hreads packet reader htakes hreader
  · rw [hstep]
    refine ⟨⟨fun current hcurrent => ?_,fun p hp => ?_,fun p hp => ?_⟩,fun p q hp hq hqp => ?_⟩
    · cases hcurrent
      exact hreads packet reader htakes hreader
    · rcases hp with hp | hp
      · obtain ⟨_,_,z,hz,_,hzp,_⟩ := h.completed p hp
        exact ⟨x,hin,z,List.mem_append_left _ hz,by rw [hnumber],hzp,hbefore z hz⟩
      · cases hp
        exact ⟨x,hin,x,hin,by rw [hnumber],hnumber,le_rfl⟩
    · rcases hp with hp | hp
      · exact hkept.yields p hp
      · cases hp
        exact ⟨parts.length,fed ++ [x.data],hmore,fed,x.data,parts.payload,packet,_,rfl,hfed,hparts,htakes.reads,
          htakes.takes,hvalue⟩
    · cases hp
      -- the message passed on would be the one that was completed last
      obtain ⟨y,hy,z,hz,hycompleted,hzq,hzy⟩ := h.completed q hq
      have hyx := hbefore y hy
      have hzx : z.index = x.index := by
        refine Broadcast.number_inj (b := b) (a := a) ?_ hx.lt (hzq.symm.trans (hqp.trans hnumber))
        have := hx.lt
        omega
      have hyx' : y.index = x.index := by omega
      rw [hyx',←hnumber] at hycompleted
      exact hlast hycompleted

end Follows

section Runs

variable [DecidableEq A] [Target] [LawfulRaptorq E D] [Postcard (NetworkProtocol maxChannels maxNodes maxResponse)]
  {b : Broadcast A} {xs : List (Arrival A)} {x : Arrival A} {client : Client maxChannels maxNodes slabSize C P S}
  {st st' : WireState maxChannels maxNodes maxResponse A D} {out : List (A × U16 × Bytes)}

/-- The receive path over a run of packets. -/
def receiveAll (client : Client maxChannels maxNodes slabSize C P S) (packets : List (A × Bytes))
    (st : WireState maxChannels maxNodes maxResponse A D) : WireState maxChannels maxNodes maxResponse A D :=
  packets.foldl (fun st packet => (WireState.receivePacket packet.2 packet.1 client st).2) st

/-- What a run gives to `process_message`: the senders, with the numbers and the values. -/
def delivered (client : Client maxChannels maxNodes slabSize C P S) :
    List (A × Bytes) → WireState maxChannels maxNodes maxResponse A D → List (A × U16 × Bytes)
  | [],_ => []
  | (sender,data)::packets,st => ((WireState.passed data sender st).map (fun p => (sender,p))).toList ++
      delivered client packets (WireState.receivePacket data sender client st).2

theorem delivered_concat (packets : List (A × Bytes)) (sender : A) (data : Bytes)
    (st : WireState maxChannels maxNodes maxResponse A D) : delivered client (packets ++ [(sender,data)]) st =
      delivered client packets st ++
        ((WireState.passed data sender (receiveAll client packets st)).map (fun p => (sender,p))).toList := by
  induction packets generalizing st with
  | nil => exact List.append_nil _
  | cons packet packets ih =>
    obtain ⟨s,d⟩ := packet
    rw [List.cons_append,delivered,delivered,ih,List.append_assoc]
    rfl

def Arrival.packet (x : Arrival A) : A × Bytes := (x.sender,x.data)

/-- The packets of one sender. -/
def Arrival.of (a : A) (xs : List (Arrival A)) : List (Arrival A) := xs.filter (fun x => decide (x.sender = a))

variable (maxChannels maxResponse D) in
/-- The entry that a sender's packets lead to. -/
def entryAfter (maxNodes : Nat) [Postcard (NetworkProtocol maxChannels maxNodes maxResponse)] (mtu : U16) (a : A)
    (xs : List (Arrival A)) : Receiver D :=
  Receiver.after (WireState.Parses maxChannels maxNodes maxResponse) mtu ((Arrival.of a xs).map Arrival.data)

/-- Where a run of packets has led to. -/
structure Heard (b : Broadcast A) (mtu : U16) (xs : List (Arrival A))
    (st : WireState maxChannels maxNodes maxResponse A D) (out : List (A × U16 × Bytes)) : Prop where
  sameMtu : st.mtu = mtu
  keys : st.receivers.keys.Nodup
  entries : ∀ a, st.receivers.get a = if a ∈ xs.map Arrival.sender then
    some (entryAfter maxChannels maxResponse D maxNodes mtu a xs) else none
  follows : ∀ a, Follows b a mtu (Arrival.of a xs) (entryAfter maxChannels maxResponse D maxNodes mtu a xs)
    (fun p => (a,p) ∈ out)
  once : (out.map (fun d => (d.1,d.2.1))).Nodup

omit [Target] in
theorem Arrival.of_concat (a : A) (xs : List (Arrival A)) (x : Arrival A) :
    Arrival.of a (xs ++ [x]) = if x.sender = a then Arrival.of a xs ++ [x] else Arrival.of a xs := by
  rw [Arrival.of,List.filter_append,List.filter_singleton]
  by_cases h : x.sender = a <;> simp [h,Arrival.of]

omit [Target] in
theorem Arrival.of_eq_nil {a : A} (h : a ∉ xs.map Arrival.sender) : Arrival.of a xs = [] := by
  refine List.filter_eq_nil_iff.mpr (fun x hx hsame => h ?_)
  exact List.mem_map.mpr ⟨x,hx,of_decide_eq_true hsame⟩

namespace Heard

theorem entryOf (h : Heard b mtu xs st out) (a : A) :
    st.entryOf a = entryAfter maxChannels maxResponse D maxNodes mtu a xs := by
  rw [WireState.entryOf,h.entries]
  split_ifs with hin
  · rfl
  · rw [entryAfter,Arrival.of_eq_nil hin]
    rfl

theorem admits (h : Heard b mtu xs st out) (hxs : Arrives D b maxNodes (xs ++ [x])) : st.Admits x.sender := by
  obtain ⟨senders,hfew,hin⟩ := hxs.few
  by_cases hkey : st.receivers.containsKey x.sender = true
  · exact Or.inl hkey
  refine Or.inr ?_
  have hnodup : (x.sender::st.receivers.keys).Nodup :=
    List.nodup_cons.mpr ⟨fun hmem => hkey (FnvIndexMap.mem_keys.mp hmem),h.keys⟩
  have hsub : x.sender::st.receivers.keys ⊆ senders := by
    refine List.cons_subset.mpr ⟨hin x (by simp),fun k hk => ?_⟩
    have hget : (st.receivers.get k).isSome = true := FnvIndexMap.mem_keys.mp hk
    rw [h.entries] at hget
    split_ifs at hget with hknown
    · obtain ⟨y,hy,rfl⟩ := List.mem_map.mp hknown
      exact hin y (List.mem_append_left _ hy)
    · cases hget
  have hlen := (List.subperm_of_subset hnodup hsub).length_le
  rw [List.length_cons,FnvIndexMap.keys,List.length_map] at hlen
  omega

variable (client) in
theorem step (h : Heard b mtu xs st out) (hxs : Arrives D b maxNodes (xs ++ [x])) :
    Heard b mtu (xs ++ [x]) (WireState.receivePacket x.data x.sender client st).2
      (out ++ ((WireState.passed x.data x.sender st).map (fun p => (x.sender,p))).toList) := by
  have hx := hxs.sent x (by simp)
  obtain ⟨parts,_,hparts,_⟩ := hx.parts
  obtain ⟨hlong,hlabel,_⟩ := packetParts_eq_some hparts
  have hnumber := checkPacket_ok (show 4 ≤ x.data.length by omega) hlabel
  obtain ⟨henters,hpassed⟩ := WireState.receivePacket_enters client hnumber (h.admits hxs)
  rw [h.entryOf,h.sameMtu] at henters hpassed
  have hbefore : ∀ y ∈ Arrival.of x.sender xs, y.index ≤ x.index := by
    intro y hy
    obtain ⟨hy,hsame⟩ := List.mem_filter.mp hy
    exact (List.pairwise_append.mp hxs.ordered).2.2 y hy x (by simp) (of_decide_eq_true hsame)
  obtain ⟨hfollows,hnew⟩ := (h.follows x.sender).step (WireState.Parses maxChannels maxNodes maxResponse) hx hbefore
  rw [hpassed]
  have hself : entryAfter maxChannels maxResponse D maxNodes mtu x.sender (xs ++ [x]) =
      (Receiver.step (WireState.Parses maxChannels maxNodes maxResponse) mtu x.data
        (entryAfter maxChannels maxResponse D maxNodes mtu x.sender xs)).2 := by
    rw [entryAfter,Arrival.of_concat,if_pos rfl,List.map_append,List.map_singleton]
    exact Receiver.after_concat _ _
  have hother : ∀ a, a ≠ x.sender → entryAfter maxChannels maxResponse D maxNodes mtu a (xs ++ [x]) =
      entryAfter maxChannels maxResponse D maxNodes mtu a xs := by
    intro a ha
    rw [entryAfter,Arrival.of_concat,if_neg (Ne.symm ha),entryAfter]
  obtain ⟨result,hresult⟩ : ∃ result, result =
      (Receiver.step (WireState.Parses maxChannels maxNodes maxResponse) mtu x.data
        (entryAfter maxChannels maxResponse D maxNodes mtu x.sender xs)).1 := ⟨_,rfl⟩
  rw [←hresult] at hfollows hnew ⊢
  have hmem : ∀ a p, (a,p) ∈ out ++ (result.map (fun p => (x.sender,p))).toList ↔
      (a,p) ∈ out ∨ a = x.sender ∧ result = some p := by
    intro a p
    cases result <;> simp [Prod.ext_iff,eq_comm]
  refine ⟨henters.mtu.trans h.sameMtu,henters.keys h.keys,fun a => ?_,fun a => ?_,?_⟩
  · rw [henters.entries,List.map_append,List.map_singleton]
    by_cases ha : a = x.sender
    · rw [ha,if_pos rfl,if_pos (by simp),hself]
    · rw [if_neg ha,h.entries,hother a ha]
      simp [ha]
  · simp only [hmem]
    rw [Arrival.of_concat]
    by_cases ha : a = x.sender
    · rw [ha,if_pos rfl,hself]
      simp only [true_and]
      exact hfollows
    · rw [if_neg (Ne.symm ha),hother a ha]
      simp only [ha,false_and,or_false]
      exact h.follows a
  · rw [List.map_append]
    refine List.nodup_append.mpr ⟨h.once,?_,fun d hd e he => ?_⟩
    · cases result <;> simp
    · cases result with
      | none => simp at he
      | some p =>
        obtain rfl : e = (x.sender,p.1) := by simpa using he
        rintro rfl
        obtain ⟨q,hq,hsame⟩ := List.mem_map.mp hd
        have hsender : q.1 = x.sender := congrArg Prod.fst hsame
        have hold : (x.sender,q.2) ∈ out := by
          rw [←hsender]
          exact hq
        exact hnew p q.2 rfl hold (congrArg Prod.snd hsame)

/-- A packet of the run can be read, its decoder takes it, and what it completes parses. -/
theorem survives (h : Heard b mtu xs st out) (hxs : Arrives D b maxNodes (xs ++ [x])) (htaken : b.AllTaken D mtu)
    (hall : b.AllParse D mtu (WireState.Parses maxChannels maxNodes maxResponse)) :
    st.Survives x.data x.sender := by
  intro p hp hadmits hlast
  have hx := hxs.sent x (by simp)
  obtain ⟨parts,packet,hparts,hnumber,_,hpacket⟩ := hx.parts
  cases hp.symm.trans hparts
  have hentry := h.entryOf x.sender
  have hmtu := h.sameMtu
  obtain ⟨fed,hsub,hfed⟩ := Receiver.readerFor_fed (h.follows x.sender).fed p
  obtain ⟨hsame,hlength⟩ := (entryAfter maxChannels maxResponse D maxNodes mtu x.sender xs).readerFor_at p mtu
  rw [←hsame,←hlength] at hfed
  rw [hnumber] at hfed
  have hfedOwn : ∀ data ∈ fed, b.Sends D x.sender x.index data := by
    intro data hdata
    obtain ⟨y,hy,rfl⟩ := List.mem_map.mp (hsub.subset hdata)
    obtain ⟨hy,hsender⟩ := List.mem_filter.mp hy
    have hsent := hxs.sent y (List.mem_append_left _ hy)
    rw [of_decide_eq_true hsender] at hsent
    obtain ⟨payload,hread⟩ := hfed.parts _ hdata
    obtain ⟨q,_,hq,hqnumber,_⟩ := hsent.parts
    cases hread.symm.trans hq
    rwa [Broadcast.number_inj hx.lt hsent.lt hqnumber]
  have hpn : packetParts x.data = some ⟨b.number x.sender x.index,p.length,p.payload⟩ := by rw [hp,←hnumber]
  have htakes := htaken.takes x.sender x.index p.length fed x.data p.payload packet _ hfedOwn hx hfed hpn hpacket
  refine (WireState.survives_iff hp hadmits hlast).mpr ⟨packet,⟨hpacket,Or.inr ?_,?_⟩,fun value hvalue => ?_⟩ p hp hadmits
    hlast
  · rw [hmtu]
    exact htaken.starts x.sender x.index x.data p hx hp
  · rw [hentry,hmtu]
    exact htakes
  · rw [hentry,hmtu] at hvalue
    refine hall x.sender x.index p.length (fed ++ [x.data]) value (fun data hdata => ?_)
      ⟨fed,x.data,p.payload,packet,_,rfl,hfed,hpn,hpacket,htakes,hvalue⟩
    rcases List.mem_append.mp hdata with hold | hlast
    · exact hfedOwn data hold
    · rwa [List.mem_singleton.mp hlast]

end Heard

/-- Every run leads to where its packets say. -/
theorem heard_all (client : Client maxChannels maxNodes slabSize C P S) (hempty : st.receivers = FnvIndexMap.empty)
    (hxs : Arrives D b maxNodes xs) : Heard b st.mtu xs (receiveAll client (xs.map Arrival.packet) st)
      (delivered client (xs.map Arrival.packet) st) := by
  induction xs using List.reverseRecOn with
  | nil =>
    refine ⟨rfl,?_,fun a => ?_,fun a => ?_,List.nodup_nil⟩
    · change st.receivers.keys.Nodup
      rw [hempty]
      exact List.nodup_nil
    · change st.receivers.get a = none
      rw [hempty]
      rfl
    · have hnone : (fun p => (a,p) ∈ delivered client [] st) = fun _ => False := by
        funext p
        simp [delivered]
      rw [List.map_nil,hnone]
      exact Follows.empty
  | append_singleton xs x ih =>
    have hstep := (ih (hxs.sublist (List.sublist_append_left _ _))).step client hxs
    rw [List.map_append,List.map_singleton,Arrival.packet,delivered_concat,receiveAll,List.foldl_append]
    exact hstep

theorem neverPanics_concat (packets : List (A × Bytes)) (sender : A) (data : Bytes)
    (st : WireState maxChannels maxNodes maxResponse A D) :
    NeverPanics client (packets ++ [(sender,data)]) st ↔ NeverPanics client packets st ∧
      (WireState.receivePacket data sender client (receiveAll client packets st)).1 ≠ .panic := by
  induction packets generalizing st with
  | nil => simp [NeverPanics,receiveAll]
  | cons packet packets ih =>
    obtain ⟨s,d⟩ := packet
    rw [List.cons_append,NeverPanics,NeverPanics,ih,and_assoc]
    rfl

theorem receiveAll_never_panics (client : Client maxChannels maxNodes slabSize C P S)
    (hempty : st.receivers = FnvIndexMap.empty) (hxs : Arrives D b maxNodes xs) (htaken : b.AllTaken D st.mtu)
    (hall : b.AllParse D st.mtu (WireState.Parses maxChannels maxNodes maxResponse)) :
    NeverPanics client (xs.map Arrival.packet) st := by
  induction xs using List.reverseRecOn with
  | nil => trivial
  | append_singleton xs x ih =>
    have hbefore := hxs.sublist (List.sublist_append_left _ _)
    have hheard := heard_all client hempty hbefore
    rw [List.map_append,List.map_singleton,Arrival.packet,neverPanics_concat]
    refine ⟨ih hbefore,fun hpanic => ?_⟩
    exact WireState.receivePacket_panics_iff.mp hpanic (hheard.survives hxs htaken hall)

/-- The senders do not disturb each other: the entry of each is the one that its packets alone lead to, no message is
processed twice, and what is processed of a message comes from a decoder that was given packets of it only. -/
theorem receiveAll_isolates (client : Client maxChannels maxNodes slabSize C P S) (b : Broadcast A)
    (xs : List (Arrival A)) (st : WireState maxChannels maxNodes maxResponse A D)
    (hempty : st.receivers = FnvIndexMap.empty) (hxs : Arrives D b maxNodes xs) :
    (∀ a, (receiveAll client (xs.map Arrival.packet) st).receivers.get a =
      (receiveAll client ((Arrival.of a xs).map Arrival.packet) st).receivers.get a) ∧
    ((delivered client (xs.map Arrival.packet) st).map (fun d => (d.1,d.2.1))).Nodup ∧
    (∀ d ∈ delivered client (xs.map Arrival.packet) st, ∃ length datas,
      datas.Sublist ((Arrival.of d.1 xs).map Arrival.data) ∧ Yields D st.mtu d.2.1 length datas d.2.2) ∧
    (b.AllTaken D st.mtu → b.AllParse D st.mtu (WireState.Parses maxChannels maxNodes maxResponse) →
      NeverPanics client (xs.map Arrival.packet) st) := by
  have hheard := heard_all client hempty hxs
  refine ⟨fun a => ?_,hheard.once,fun d hd => (hheard.follows d.1).yields d.2 hd,
    receiveAll_never_panics client hempty hxs⟩
  have hsub : (Arrival.of a xs).Sublist xs := List.filter_sublist
  have halone := heard_all client hempty (hxs.sublist hsub)
  have hsame : Arrival.of a (Arrival.of a xs) = Arrival.of a xs := by
    rw [Arrival.of,Arrival.of,List.filter_filter]
    simp
  have hin : a ∈ (Arrival.of a xs).map Arrival.sender ↔ a ∈ xs.map Arrival.sender := by
    simp [Arrival.of]
  rw [hheard.entries,halone.entries,entryAfter,entryAfter,hsame]
  simp only [hin]

end Runs

section Radio

open PlainCrypto

def requestOf (i : Nat) : Bytes := [1,UInt8.ofNat i,0,0]

/-- Any senders, each with the same two sync requests. -/
def requests : Broadcast Nat where
  start _ := 0
  messages _ := [requestOf 0,requestOf 1]
  few _ := by decide

def requestPacket (i : Nat) : Bytes := packetOf (UInt8.ofNat i) (requestOf i)

/-- Its writer, with the one packet. -/
def requestWriter (i : Nat) : WireWriter PlainPacket :=
  ⟨Fin.ofNat (2^16) i,4,[BlockDecoder.packet 240 (requestOf i) 0],0⟩

theorem requests_sends (a : Nat) {i : Nat} (hi : i = 0 ∨ i = 1) : requests.Sends BlockDecoder a i (requestPacket i) := by
  have hmessage : (requests.messages a)[i]? = some (requestOf i) := by rcases hi with rfl | rfl <;> rfl
  have hnew : WireWriter.new BlockDecoder (requests.number a i) 250 (requestOf i) 0 = .ok (requestWriter i) := by
    rw [show requests.number a i = Fin.ofNat (2^16) i from Fin.zero_add _]
    rcases hi with rfl | rfl <;> rfl
  have hwire : (requestWriter i).wirePacket BlockDecoder (BlockDecoder.packet 240 (requestOf i) 0) = requestPacket i := by
    rcases hi with rfl | rfl <;> decide +kernel
  have hroom : (requestPacket i).length ≤ (List.replicate 250 (0 : UInt8)).length := by
    rcases hi with rfl | rfl <;> decide +kernel
  have hnext := WireWriter.next_ok (show (requestWriter i).upcoming = some (BlockDecoder.packet 240 (requestOf i) 0) by
    rcases hi with rfl | rfl <;> rfl) (hwire.symm ▸ hroom)
  rw [hwire] at hnext
  exact ⟨requestOf i,hmessage,250,0,_,hnew,0,List.replicate 250 0,_,_,hnext,(overwrite_begin hroom).symm⟩

theorem requests_arrive : Arrives BlockDecoder requests 2
    [⟨7,0,requestPacket 0⟩,⟨8,0,requestPacket 0⟩,⟨7,0,requestPacket 0⟩,⟨7,1,requestPacket 1⟩] := by
  refine ⟨fun x hx => ?_,by simp,[7,8],le_rfl,by simp⟩
  have hx : (x.index = 0 ∨ x.index = 1) ∧ x.data = requestPacket x.index := by
    simp only [List.mem_cons,List.not_mem_nil,or_false] at hx
    rcases hx with rfl | rfl | rfl | rfl <;> exact ⟨by simp,rfl⟩
  rw [hx.2]
  exact requests_sends x.sender hx.1

def requestRun : List (Nat × Bytes) := [(7,requestPacket 0),(8,requestPacket 0),(7,requestPacket 0),(7,requestPacket 1)]

example : (delivered listener requestRun radio).map (fun d => (d.1,d.2.1)) = [(7,0),(8,0),(7,1)] := by decide +kernel

theorem receiveAll_isolates_requests :
    (receiveAll listener requestRun radio).receivers.get 7 =
      (receiveAll listener [(7,requestPacket 0),(7,requestPacket 0),(7,requestPacket 1)] radio).receivers.get 7 :=
  (receiveAll_isolates listener requests _ radio rfl requests_arrive).1 7

end Radio

end Finder
