import Finder.Protocol.Firmware
import Finder.Radio.Coding
import Finder.Radio.Entries

namespace Finder

variable {E D : Type} {i j : Nat}

/-- The number of a message of a radio that has sent as many before it. -/
def numberOf (i : Nat) : U16 := Fin.ofNat (2^16) i

theorem numberOf_inj (hi : i < 2^16) (hj : j < 2^16) (h : numberOf i = numberOf j) : i = j := by
  have hval := congrArg Fin.val h
  rwa [numberOf,numberOf,Fin.val_ofNat,Fin.val_ofNat,Nat.mod_eq_of_lt hi,Nat.mod_eq_of_lt hj] at hval

theorem numberOf_succ (i : Nat) : numberOf (i+1) = numberOf i+1 := by
  refine Fin.ext ?_
  rw [Fin.val_add,numberOf,numberOf,Fin.val_ofNat,Fin.val_ofNat]
  exact (Nat.mod_add_mod i (2^16) 1).symm

section Decoding

variable [Raptorq E D]

/-- The decoder that packets lead to. -/
def decoderAfter (packets : List E) (decoder : D) : D :=
  packets.foldl (fun decoder packet => (Raptorq.decode packet decoder).2) decoder

theorem decoderAfter_concat (packets : List E) (packet : E) (decoder : D) :
    decoderAfter (packets ++ [packet]) decoder = (Raptorq.decode packet (decoderAfter packets decoder)).2 := by
  rw [decoderAfter,List.foldl_append]
  rfl

theorem decodeAll_concat (packets : List E) (packet : E) (decoder : D) :
    Raptorq.decodeAll (packets ++ [packet]) decoder =
      Raptorq.decodeAll packets decoder ++ [(Raptorq.decode packet (decoderAfter packets decoder)).1] := by
  induction packets generalizing decoder with
  | nil => rfl
  | cons first packets ih =>
    rw [List.cons_append,Raptorq.decodeAll,Raptorq.decodeAll,ih]
    rfl

theorem takesAll_concat (packets : List E) (packet : E) (decoder : D) :
    Raptorq.takesAll (packets ++ [packet]) decoder =
      (Raptorq.takesAll packets decoder && Raptorq.takes packet (decoderAfter packets decoder)) := by
  induction packets generalizing decoder with
  | nil => exact Bool.and_true _
  | cons first packets ih =>
    rw [List.cons_append,Raptorq.takesAll,Raptorq.takesAll,ih,Bool.and_assoc]
    rfl

end Decoding

/-- The packets of one message, out of those of a sender, each with the place of its message. -/
def piecesOf (i : Nat) (xs : List (Nat × E)) : List E := (xs.filter (fun x => decide (x.1 = i))).map Prod.snd

section Pieces

variable {xs : List (Nat × E)} {x : Nat × E} {e : E}

theorem mem_piecesOf : e ∈ piecesOf i xs ↔ (i,e) ∈ xs := by
  simp [piecesOf]

theorem piecesOf_concat (i : Nat) (xs : List (Nat × E)) (x : Nat × E) :
    piecesOf i (xs ++ [x]) = if x.1 = i then piecesOf i xs ++ [x.2] else piecesOf i xs := by
  rw [piecesOf,List.filter_append,List.map_append,List.filter_singleton]
  by_cases h : x.1 = i <;> simp [h,piecesOf]

theorem piecesOf_eq_nil (h : ∀ x ∈ xs, x.1 ≠ i) : piecesOf i xs = [] := by
  refine List.eq_nil_iff_forall_not_mem.mpr (fun e he => ?_)
  exact h _ (mem_piecesOf.mp he) rfl

end Pieces

variable (message : Nat → Bytes)

section Stream

variable [Raptorq E D]

def lengthOf (i : Nat) : U16 := Fin.ofNat (2^16) (message i).length

variable (D) in
/-- A packet of a message as it goes on the wire. -/
def wireOf (x : Nat × E) : Bytes := header (numberOf x.1) (lengthOf message x.1) ++ Raptorq.serialize D x.2

/-- The reader of a message that has been given these packets of it. -/
def readerAt (i : Nat) (packets : List E) : WireReader D :=
  { messageNumber := numberOf i
    transferLength := lengthOf message i
    decoder := decoderAfter packets (Raptorq.decoder (message i).length (espNowMtu.val-6)) }

variable (D) in
/-- The packet is one of those that a writer makes of its message. -/
structure Genuine (x : Nat × E) : Prop where
  small : x.1 < 2^16
  codable : Codable (message x.1) (espNowMtu.val-6)
  encoded : x.2 ∈ Raptorq.encodedPackets D (message x.1) (espNowMtu.val-6) repairCount

/-- The entry of a sender, after packets of its messages in their order: it has passed on the messages of some places,
no other message has come together, and the reader is at the last one. -/
structure Tracks (xs : List (Nat × E)) (r : Receiver D) (done : List Nat) : Prop where
  increasing : done.Pairwise (fun i j => i < j)
  arrived : ∀ i ∈ done, ∃ x ∈ xs, x.1 = i
  completed : r.lastCompleted = done.getLast?.map numberOf
  undecoded : ∀ i, i ∉ done → ∀ value,
    some value ∉ Raptorq.decodeAll (piecesOf i xs) (Raptorq.decoder (message i).length (espNowMtu.val-6) : D)
  reader : ∀ reader, r.reader = some reader → ∃ x ∈ xs, reader.messageNumber = numberOf x.1
  current : ∀ x ∈ xs.getLast?, x.1 ∉ done → r.reader = some (readerAt message x.1 (piecesOf x.1 xs))

theorem Tracks.empty : Tracks message [] (⟨none,none⟩ : Receiver D) [] := by
  refine ⟨List.Pairwise.nil,by simp,rfl,fun i _ value hvalue => ?_,fun reader hreader => ?_,by simp⟩
  · cases hvalue
  · cases hreader

end Stream

variable {message}

namespace Tracks

variable [Target] [CodingRaptorq E D] {xs : List (Nat × E)} {x : Nat × E} {r : Receiver D} {done : List Nat}

variable (D message) in
theorem parts (x : Nat × E) : packetParts (wireOf D message x) =
    some ⟨numberOf x.1,lengthOf message x.1,Raptorq.serialize D x.2⟩ := packetParts_header _ _ _

theorem number (x : Nat × E) : WireReader.checkPacket (wireOf D message x) = .ok (numberOf x.1) := by
  obtain ⟨hlong,hlabel,hparts⟩ := packetParts_eq_some (parts D message x)
  rw [checkPacket_ok (by omega) hlabel]
  exact congrArg (fun p => Outcome.ok (PacketParts.number p)) hparts.symm

theorem length_eq (hx : Genuine D message x) : (lengthOf message x.1).val = (message x.1).length :=
  (Fin.val_ofNat _ _).trans (Nat.mod_eq_of_lt hx.codable.short)

/-- What a packet says of its message is what all packets of the message say. -/
theorem fresh_eq (hx : Genuine D message x) :
    (WireReader.fresh (numberOf x.1) (lengthOf message x.1) espNowMtu : WireReader D) = readerAt message x.1 [] := by
  rw [WireReader.fresh,length_eq hx]
  rfl

/-- Where the message of a packet has been passed on, no other has been since. -/
theorem completed_of_mem (h : Tracks message xs r done) (hbefore : ∀ y ∈ xs, y.1 ≤ x.1) (hdone : x.1 ∈ done) :
    r.lastCompleted = some (numberOf x.1) := by
  obtain ⟨before,after,rfl⟩ := List.append_of_mem hdone
  have hnone : after = [] := by
    refine List.eq_nil_iff_forall_not_mem.mpr (fun k hk => ?_)
    have hlater := (List.pairwise_cons.mp (List.pairwise_append.mp h.increasing).2.1).1 k hk
    obtain ⟨y,hy,rfl⟩ := h.arrived k (by simp [hk])
    exact absurd (hbefore y hy) (not_le.mpr hlater)
  rw [h.completed,hnone,List.getLast?_concat]
  rfl

theorem not_completed (h : Tracks message xs r done) (hall : ∀ y ∈ xs, Genuine D message y)
    (hx : Genuine D message x) (hnew : x.1 ∉ done) : r.lastCompleted ≠ some (numberOf x.1) := by
  rw [h.completed]
  intro hlast
  obtain ⟨k,hk,hnumber⟩ := Option.map_eq_some_iff.mp hlast
  have hin := List.mem_of_getLast? hk
  obtain ⟨y,hy,rfl⟩ := h.arrived k hin
  rw [numberOf_inj (hall y hy).small hx.small hnumber] at hin
  exact hnew hin

/-- The packet goes to a reader that has been given those of its message that came before it. -/
theorem readerFor_eq (h : Tracks message xs r done) (hall : ∀ y ∈ xs, Genuine D message y)
    (hx : Genuine D message x) (hordered : xs.Pairwise (fun y z => y.1 ≤ z.1)) (hbefore : ∀ y ∈ xs, y.1 ≤ x.1)
    (hnew : x.1 ∉ done) (payload : Bytes) :
    r.readerFor ⟨numberOf x.1,lengthOf message x.1,payload⟩ espNowMtu = readerAt message x.1 (piecesOf x.1 xs) := by
  have hother : (∀ y ∈ xs, y.1 ≠ x.1) →
      r.readerFor ⟨numberOf x.1,lengthOf message x.1,payload⟩ espNowMtu = readerAt message x.1 (piecesOf x.1 xs) := by
    intro hne
    rw [piecesOf_eq_nil hne,Receiver.readerFor]
    cases hreader : r.reader with
    | none => exact fresh_eq hx
    | some reader =>
      obtain ⟨y,hy,hnumber⟩ := h.reader reader hreader
      have hno : ¬reader.At ⟨numberOf x.1,lengthOf message x.1,payload⟩ := by
        intro hat
        exact hne y hy (numberOf_inj (hall y hy).small hx.small (hnumber.symm.trans hat.1.symm))
      dsimp only
      rw [if_neg hno]
      exact fresh_eq hx
  by_cases hsame : ∃ y ∈ xs, y.1 = x.1
  · obtain ⟨y,hy,hyx⟩ := hsame
    -- then the last packet is of the message too
    have hz := List.getLast?_eq_some_getLast (List.ne_nil_of_mem hy)
    obtain ⟨z,hz⟩ : ∃ z, xs.getLast? = some z := ⟨_,hz⟩
    have hzx : z.1 = x.1 := by
      obtain ⟨front,rfl⟩ := List.getLast?_eq_some_iff.mp hz
      have hle := hbefore z (by simp)
      rcases List.mem_append.mp hy with hy | hy
      · have hyz := (List.pairwise_append.mp hordered).2.2 y hy z (by simp)
        omega
      · rw [List.mem_singleton.mp hy] at hyx
        exact hyx
    have hcurrent := h.current z hz (hzx ▸ hnew)
    rw [hzx] at hcurrent
    have hat : (readerAt message x.1 (piecesOf x.1 xs) : WireReader D).At
        ⟨numberOf x.1,lengthOf message x.1,payload⟩ := ⟨rfl,rfl⟩
    simp only [Receiver.readerFor,hcurrent,if_pos hat]
  · exact hother (fun y hy hyx => hsame ⟨y,hy,hyx⟩)

theorem pieces_encoded (hall : ∀ y ∈ xs, Genuine D message y) (hx : Genuine D message x) :
    ∀ e ∈ piecesOf x.1 xs ++ [x.2],
      e ∈ Raptorq.encodedPackets D (message x.1) (espNowMtu.val-6) repairCount := by
  intro e he
  rcases List.mem_append.mp he with he | he
  · exact (hall _ (mem_piecesOf.mp he)).encoded
  · rw [List.mem_singleton.mp he]
    exact hx.encoded

/-- The reader can take the packet. -/
theorem takes (h : Tracks message xs r done) (hall : ∀ y ∈ xs, Genuine D message y) (hx : Genuine D message x)
    (hordered : xs.Pairwise (fun y z => y.1 ≤ z.1)) (hbefore : ∀ y ∈ xs, y.1 ≤ x.1) (hnew : x.1 ∉ done) :
    r.Takes ⟨numberOf x.1,lengthOf message x.1,Raptorq.serialize D x.2⟩ espNowMtu x.2 := by
  refine ⟨CodingRaptorq.deserialize_serialize _,Or.inr ⟨show 6 ≤ espNowMtu.val by decide,?_⟩,?_⟩
  · dsimp only
    rw [length_eq hx]
    exact EncodingRaptorq.starts_codable _ _ hx.codable
  · rw [h.readerFor_eq hall hx hordered hbefore hnew]
    have hall := CodingRaptorq.takes_encoded (D := D) _ _ repairCount _ hx.codable (pieces_encoded hall hx)
    rw [takesAll_concat] at hall
    exact (Bool.and_eq_true_iff.mp hall).2

/-- What a packet completes is its message. -/
theorem value_eq (hall : ∀ y ∈ xs, Genuine D message y) (hx : Genuine D message x) {value : Bytes}
    (hvalue : (Raptorq.decode x.2 (readerAt message x.1 (piecesOf x.1 xs) : WireReader D).decoder).1 = some value) :
    value = message x.1 := by
  refine CodingRaptorq.decodes_only (D := D) _ _ repairCount (piecesOf x.1 xs ++ [x.2]) hx.codable
    (pieces_encoded hall hx) value ?_
  rw [decodeAll_concat]
  exact List.mem_append_right _ (List.mem_singleton.mpr hvalue.symm)

/-- The packets of other messages are as before. -/
theorem undecoded_concat (h : Tracks message xs r done) (hother : i ≠ x.1) (hnew : i ∉ done) (value : Bytes) :
    some value ∉ Raptorq.decodeAll (piecesOf i (xs ++ [x]))
      (Raptorq.decoder (message i).length (espNowMtu.val-6) : D) := by
  rw [piecesOf_concat,if_neg (Ne.symm hother)]
  exact h.undecoded i hnew value

theorem arrived_concat (h : Tracks message xs r done) (x : Nat × E) : ∀ k ∈ done, ∃ y ∈ xs ++ [x], y.1 = k := by
  intro k hk
  obtain ⟨y,hy,hyk⟩ := h.arrived k hk
  exact ⟨y,List.mem_append_left _ hy,hyk⟩

/-- A packet of a message that has been passed on is passed over. -/
theorem step_done (parses : Bytes → Prop) [DecidablePred parses] (h : Tracks message xs r done)
    (hbefore : ∀ y ∈ xs, y.1 ≤ x.1) (hdone : x.1 ∈ done) :
    Receiver.step parses espNowMtu (wireOf D message x) r = (none,r) ∧ Tracks message (xs ++ [x]) r done := by
  have hlast := h.completed_of_mem hbefore hdone
  refine ⟨?_,h.increasing,h.arrived_concat x,h.completed,fun k hk => ?_,fun reader hreader => ?_,fun y hy hnew => ?_⟩
  · simp only [Receiver.step,number x,Receiver.accept_completed hlast]
  · exact h.undecoded_concat (fun hkx => hk (hkx ▸ hdone)) hk
  · obtain ⟨y,hy,hnumber⟩ := h.reader reader hreader
    exact ⟨y,List.mem_append_left _ hy,hnumber⟩
  · rw [List.getLast?_concat] at hy
    cases hy
    exact absurd hdone hnew

theorem readerAt_number (xs : List (Nat × E)) (x : Nat × E) (packets : List E) : ∀ reader,
    some (readerAt message x.1 packets : WireReader D) = some reader →
      ∃ y ∈ xs ++ [x], reader.messageNumber = numberOf y.1 := by
  intro reader hreader
  cases hreader
  exact ⟨x,by simp,rfl⟩

/-- The message has not come together with the packet. -/
theorem waits (h : Tracks message xs r done) (hnew : x.1 ∉ done)
    (hvalue : (Raptorq.decode x.2 (readerAt message x.1 (piecesOf x.1 xs) : WireReader D).decoder).1 = none) :
    Tracks message (xs ++ [x])
      ⟨r.lastCompleted,some (readerAt message x.1 (piecesOf x.1 (xs ++ [x])) : WireReader D)⟩ done := by
  refine ⟨h.increasing,h.arrived_concat x,h.completed,fun k hk value hin => ?_,readerAt_number xs x _,fun y hy _ => ?_⟩
  · by_cases hkx : k = x.1
    · rw [hkx,piecesOf_concat,if_pos rfl,decodeAll_concat] at hin
      rcases List.mem_append.mp hin with hin | hin
      · exact h.undecoded x.1 hnew value hin
      · have hlast : some value = _ := List.mem_singleton.mp hin
        cases hlast.trans hvalue
    · exact h.undecoded_concat hkx hk value hin
  · rw [List.getLast?_concat] at hy
    cases hy
    rfl

/-- The message has come together with the packet. -/
theorem completes (h : Tracks message xs r done) (hbefore : ∀ y ∈ xs, y.1 ≤ x.1) (hnew : x.1 ∉ done) :
    Tracks message (xs ++ [x]) ⟨some (numberOf x.1),some (readerAt message x.1 (piecesOf x.1 (xs ++ [x])) : WireReader D)⟩
      (done ++ [x.1]) := by
  refine ⟨?_,fun k hk => ?_,?_,fun k hk => ?_,readerAt_number xs x _,fun y hy hno => ?_⟩
  · refine List.pairwise_append.mpr ⟨h.increasing,List.pairwise_singleton _ _,fun k hk l hl => ?_⟩
    rw [List.mem_singleton.mp hl]
    obtain ⟨y,hy,rfl⟩ := h.arrived k hk
    exact lt_of_le_of_ne (hbefore y hy) (fun heq => hnew (heq ▸ hk))
  · rcases List.mem_append.mp hk with hk | hk
    · exact h.arrived_concat x k hk
    · rw [List.mem_singleton.mp hk]
      exact ⟨x,by simp,rfl⟩
  · rw [List.getLast?_concat]
    rfl
  · rw [List.mem_append,not_or,List.mem_singleton] at hk
    exact h.undecoded_concat hk.2 hk.1
  · rw [List.getLast?_concat] at hy
    cases hy
    exact absurd (by simp) hno

/-- A packet of another message is given to the reader of that, and passes it on where it completes it. -/
theorem step_new (parses : Bytes → Prop) [DecidablePred parses] (h : Tracks message xs r done)
    (hall : ∀ y ∈ xs, Genuine D message y) (hx : Genuine D message x)
    (hordered : xs.Pairwise (fun y z => y.1 ≤ z.1)) (hbefore : ∀ y ∈ xs, y.1 ≤ x.1) (hnew : x.1 ∉ done)
    (hparses : parses (message x.1)) :
    ∃ r', (Receiver.step parses espNowMtu (wireOf D message x) r = (none,r') ∧ Tracks message (xs ++ [x]) r' done) ∨
      (Receiver.step parses espNowMtu (wireOf D message x) r = (some (numberOf x.1,message x.1),r') ∧
        Tracks message (xs ++ [x]) r' (done ++ [x.1])) := by
  have hparts := parts D message x
  have hlast := h.not_completed hall hx hnew
  have htakes := h.takes hall hx hordered hbefore hnew
  obtain ⟨packet,hpacket,haccept⟩ := (Receiver.accept_cases espNowMtu hparts hlast).resolve_right
    (fun hno => hno.1 x.2 htakes)
  cases htakes.reads.symm.trans hpacket.reads
  rw [Receiver.decoded,h.readerFor_eq hall hx hordered hbefore hnew] at haccept
  have hafter : ∀ reader : WireReader D, reader = readerAt message x.1 (piecesOf x.1 xs) →
      { reader with decoder := (Raptorq.decode x.2 reader.decoder).2 } =
        readerAt message x.1 (piecesOf x.1 (xs ++ [x])) := by
    rintro _ rfl
    rw [piecesOf_concat,if_pos rfl]
    simp only [readerAt,decoderAfter_concat]
  cases hvalue : (Raptorq.decode x.2 (readerAt message x.1 (piecesOf x.1 xs) : WireReader D).decoder).1 with
  | none =>
    simp only [hvalue,hafter _ rfl] at haccept
    refine ⟨_,Or.inl ⟨?_,h.waits hnew hvalue⟩⟩
    simp only [Receiver.step,number x,haccept]
  | some value =>
    have hsame := value_eq hall hx hvalue
    subst hsame
    simp only [hvalue,hafter _ rfl] at haccept
    refine ⟨_,Or.inr ⟨?_,h.completes hbefore hnew⟩⟩
    simp only [Receiver.step,number x,haccept,if_pos hparses]

end Tracks

end Finder
