import Finder.Radio.Receiving

namespace Finder

variable {maxChannels maxNodes maxResponse slabSize : Nat} {A E D C P S : Type}

/-- A decoder of a block that has taken these packets, in this order. -/
inductive Fed [Raptorq E D] (mtu number length : U16) : List Bytes → D → Prop
  | new : Fed mtu number length [] (Raptorq.decoder length.val (mtu.val-6))
  | feed {datas : List Bytes} {decoder : D} {data payload : Bytes} {packet : E} :
      Fed mtu number length datas decoder → packetParts data = some ⟨number,length,payload⟩ →
      Raptorq.deserialize D payload = some packet → Raptorq.takes packet decoder = true →
      Fed mtu number length (datas ++ [data]) (Raptorq.decode packet decoder).2

variable (D) in
/-- A decoder of the block that takes these packets comes to the value with the last of them. -/
def Yields [Raptorq E D] (mtu number length : U16) (datas : List Bytes) (value : Bytes) : Prop :=
  ∃ earlier data payload, ∃ packet : E, ∃ decoder : D, datas = earlier ++ [data] ∧
    Fed mtu number length earlier decoder ∧ packetParts data = some ⟨number,length,payload⟩ ∧
    Raptorq.deserialize D payload = some packet ∧ Raptorq.takes packet decoder = true ∧
    (Raptorq.decode packet decoder).1 = some value

theorem Fed.parts [Raptorq E D] {mtu number length : U16} {datas : List Bytes} {decoder : D}
    (h : Fed mtu number length datas decoder) :
    ∀ data ∈ datas, ∃ payload, packetParts data = some ⟨number,length,payload⟩ := by
  induction h with
  | new => simp
  | feed _ hparts _ _ ih =>
    intro data hdata
    rcases List.mem_append.mp hdata with hin | hlast
    · exact ih data hin
    · rw [List.mem_singleton.mp hlast]
      exact ⟨_,hparts⟩

namespace Receiver

variable [Target] [Raptorq E D] (parses : Bytes → Prop) [DecidablePred parses] (mtu : U16)

/-- What becomes of an entry when a packet comes to it, and the value that is passed on, with its number. -/
def step (data : Bytes) (r : Receiver D) : Option (U16 × Bytes) × Receiver D :=
  match WireReader.checkPacket data with
  | .ok number =>
    match accept number data mtu r with
    | (.ok (some value),r) =>
      if parses value then (some (number,value),{ r with lastCompleted := some number }) else (none,r)
    | (_,r) => (none,r)
  | _ => (none,r)

variable {parses mtu} {data : Bytes} {r : Receiver D} {p : PacketParts} {packet : E}

variable (parses mtu r) in
/-- A packet is passed over, or stops the device, or its block's decoder takes it and may come to a value. -/
theorem step_cases (hp : packetParts data = some p) :
    (∃ r', r.Halts r' p mtu ∧ step parses mtu data r = (none,r')) ∨
      r.lastCompleted ≠ some p.number ∧ ∃ packet, r.Takes p mtu packet ∧ ∃ reader : WireReader D,
        reader = { r.readerFor p mtu with
          decoder := (Raptorq.decode packet (r.readerFor p mtu).decoder).2 } ∧
        (step parses mtu data r = (none,{ r with reader := some reader }) ∨
          ∃ value, (Raptorq.decode packet (r.readerFor p mtu).decoder).1 = some value ∧
            step parses mtu data r = (some (p.number,value),⟨some p.number,some reader⟩)) := by
  obtain ⟨hlen,hlabel,hparts⟩ := packetParts_eq_some hp
  have hnumber : WireReader.checkPacket data = .ok p.number := by
    rw [hparts]
    exact checkPacket_ok (by omega) hlabel
  by_cases hlast : r.lastCompleted = some p.number
  · refine Or.inl ⟨r,Or.inl rfl,?_⟩
    simp only [step,hnumber,accept_completed hlast]
  rcases accept_cases mtu hp hlast with ⟨packet,htakes,haccept⟩ | ⟨_,r',hhalts,haccept⟩
  swap
  · refine Or.inl ⟨r',hhalts,?_⟩
    simp only [step,hnumber,haccept]
  refine Or.inr ⟨hlast,packet,htakes,_,rfl,?_⟩
  cases hvalue : (Raptorq.decode packet (r.readerFor p mtu).decoder).1 with
  | none =>
    refine Or.inl ?_
    simp only [step,hnumber,haccept,decoded,hvalue]
  | some value =>
    by_cases hparses : parses value
    · refine Or.inr ⟨value,rfl,?_⟩
      simp only [step,hnumber,haccept,decoded,hvalue,if_pos hparses]
    · refine Or.inl ?_
      simp only [step,hnumber,haccept,decoded,hvalue,if_neg hparses]

variable (parses mtu) in
/-- The entry of a sender after all of its packets. -/
def after (datas : List Bytes) : Receiver D := datas.foldl (fun r data => (step parses mtu data r).2) ⟨none,none⟩

theorem after_concat (datas : List Bytes) (data : Bytes) :
    (after parses mtu (datas ++ [data]) : Receiver D) = (step parses mtu data (after parses mtu datas)).2 := by
  rw [after,List.foldl_append]
  rfl

/-- The reader's decoder has been given packets of its block out of these. -/
def FedFrom (mtu : U16) (datas : List Bytes) (reader : WireReader D) : Prop :=
  ∃ fed, fed.Sublist datas ∧ Fed mtu reader.messageNumber reader.transferLength fed reader.decoder

omit [Target] in
theorem readerFor_fed {datas : List Bytes} (h : ∀ reader, r.reader = some reader → FedFrom mtu datas reader)
    (p : PacketParts) : FedFrom mtu datas (r.readerFor p mtu) := by
  have hfresh : FedFrom mtu datas (WireReader.fresh p.number p.length mtu : WireReader D) :=
    ⟨[],List.nil_sublist _,Fed.new⟩
  unfold readerFor
  cases hreader : r.reader with
  | none => exact hfresh
  | some reader =>
    dsimp only
    split_ifs
    · exact h reader hreader
    · exact hfresh

end Receiver

namespace WireState

variable [Postcard (NetworkProtocol maxChannels maxNodes maxResponse)]

instance : DecidablePred (Parses maxChannels maxNodes maxResponse) := fun value =>
  match h : (fromBytes value : Except PostcardError (NetworkProtocol maxChannels maxNodes maxResponse)) with
  | .ok command => isTrue ⟨command,h⟩
  | .error _ => isFalse (fun ⟨_,hcommand⟩ => by simp [h] at hcommand)

variable [DecidableEq A] [Target] [Raptorq E D] {st : WireState maxChannels maxNodes maxResponse A D} {sender : A}
  {data : Bytes} {client : Client maxChannels maxNodes slabSize C P S}

/-- The value that `receive_packet` gives to `process_message`, with its number. -/
def passed (data : Bytes) (sender : A) (st : WireState maxChannels maxNodes maxResponse A D) :
    Option (U16 × Bytes) :=
  match (decodePacket data sender st).1 with
  | .ok (some p) => if Parses maxChannels maxNodes maxResponse p.2 then some p else none
  | _ => none

theorem passed_of_decoded {st' : WireState maxChannels maxNodes maxResponse A D} {result : Option (U16 × Bytes)}
    (h : decodePacket data sender st = (.ok result,st')) : passed data sender st =
      result.filter (fun p => decide (Parses maxChannels maxNodes maxResponse p.2)) := by
  rw [passed,h]
  cases result with
  | none => rfl
  | some p => simp [Option.filter]

variable (client) in
/-- The entry of the sender makes the step, and what it passes on is passed on. -/
theorem receivePacket_enters {number : U16} (h : WireReader.checkPacket data = .ok number)
    (hadmits : st.Admits sender) :
    st.Enters (receivePacket data sender client st).2 sender
        (Receiver.step (Parses maxChannels maxNodes maxResponse) st.mtu data (st.entryOf sender)).2 ∧
      passed data sender st =
        (Receiver.step (Parses maxChannels maxNodes maxResponse) st.mtu data (st.entryOf sender)).1 := by
  obtain ⟨st',henters,hdecode⟩ := decodePacket_admitted h hadmits
  rcases haccept : Receiver.accept number data st.mtu (st.entryOf sender) with ⟨result | e | _,r⟩
  all_goals rw [haccept] at henters hdecode
  · have hpassed := passed_of_decoded hdecode
    cases result with
    | none =>
      rw [receivePacket_nothing hdecode,hpassed]
      simp only [Receiver.step,h,haccept]
      exact ⟨henters,rfl⟩
    | some value =>
      by_cases hparses : Parses maxChannels maxNodes maxResponse value
      · simp only [Receiver.step,h,haccept,if_pos hparses]
        refine ⟨(receivePacket_parsed hdecode henters hparses).2,?_⟩
        rw [hpassed]
        simp [hparses]
      · rw [receivePacket_unparsed hdecode hparses]
        simp only [Receiver.step,h,haccept,if_neg hparses]
        refine ⟨henters,?_⟩
        rw [hpassed]
        simp [hparses]
  · rw [receivePacket,Call.bind_err hdecode,passed,hdecode]
    simp only [Receiver.step,h,haccept]
    exact ⟨henters,rfl⟩
  · rw [receivePacket_panic hdecode,passed,hdecode]
    simp only [Receiver.step,h,haccept]
    exact ⟨henters,rfl⟩

end WireState

end Finder
