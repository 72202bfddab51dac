import Finder.Client.Moves

namespace Finder

variable {maxChannels maxNodes slabSize : Nat} {C P S : Type}

/-- A record as it is sent: its length, then its bytes. -/
def sendFrame (data : Bytes) : Bytes := beBytes u32Size data.length ++ data

def sendFrames (ds : List Bytes) : Bytes := ds.flatMap sendFrame

/-- Of some records the first ones, as many as there is room for. -/
def fitting : Nat → List Bytes → List Bytes
  | _,[] => []
  | room,d::ds => if room < d.length+lenSize then [] else d::fitting (room-(d.length+lenSize)) ds

section Frames

variable {d : Bytes} {ds : List Bytes} {room : Nat}

theorem sendFrame_length (d : Bytes) : (sendFrame d).length = d.length+lenSize := by
  rw [sendFrame,List.length_append,beBytes_length,lenSize,Nat.add_comm]

@[simp] theorem sendFrames_nil : sendFrames [] = [] := rfl

theorem sendFrames_cons (d : Bytes) (ds : List Bytes) : sendFrames (d::ds) = sendFrame d ++ sendFrames ds :=
  List.flatMap_cons

theorem sendFrames_append (ds es : List Bytes) : sendFrames (ds ++ es) = sendFrames ds ++ sendFrames es :=
  List.flatMap_append

theorem sendFrames_cons_length (d : Bytes) (ds : List Bytes) :
    (sendFrames (d::ds)).length = d.length+lenSize+(sendFrames ds).length := by
  rw [sendFrames_cons,List.length_append,sendFrame_length]

theorem length_le_sendFrames (hd : d ∈ ds) : d.length+lenSize ≤ (sendFrames ds).length := by
  induction ds with
  | nil => cases hd
  | cons x ds ih =>
    rw [sendFrames_cons_length]
    rcases List.mem_cons.mp hd with rfl | hd
    · omega
    · have hle := ih hd
      omega

theorem fitting_begins (room : Nat) (ds : List Bytes) : fitting room ds <+: ds := by
  induction ds generalizing room with
  | nil => exact List.prefix_refl _
  | cons d ds ih =>
    rw [fitting]
    split_ifs with hfull
    · exact List.nil_prefix
    · exact List.cons_prefix_cons.mpr ⟨rfl,ih _⟩

theorem fitting_length (room : Nat) (ds : List Bytes) : (sendFrames (fitting room ds)).length ≤ room := by
  induction ds generalizing room with
  | nil => exact Nat.zero_le _
  | cons d ds ih =>
    rw [fitting]
    split_ifs with hfull
    · exact Nat.zero_le _
    · have hrest := ih (room-(d.length+lenSize))
      rw [sendFrames_cons_length]
      omega

/-- All first records that have room are among those that fit. -/
theorem prefix_fitting {es : List Bytes} (hfirst : es <+: ds) (hroom : (sendFrames es).length ≤ room) :
    es <+: fitting room ds := by
  induction ds generalizing room es with
  | nil => exact hfirst
  | cons d ds ih =>
    cases es with
    | nil => exact List.nil_prefix
    | cons e es =>
      obtain ⟨rfl,hrest⟩ := List.cons_prefix_cons.mp hfirst
      rw [sendFrames_cons_length] at hroom
      rw [fitting,if_neg (by omega)]
      exact List.cons_prefix_cons.mpr ⟨rfl,ih hrest (by omega)⟩

theorem fitting_all (h : (sendFrames ds).length ≤ room) : fitting room ds = ds :=
  (fitting_begins room ds).eq_of_length_le (prefix_fitting (List.prefix_refl ds) h).length_le

end Frames

section Fill

variable [Target] [Postcard Record] {st : Storage slabSize} {cursor : Cursor} {ds : List Bytes}
  {buffer : Bytes} {fuel offset count : Nat}

section Step

variable {data : Bytes} {next : Cursor}

theorem fillFrom_stop (hread : st.read cursor = .ok none) :
    Client.fillFrom st (fuel+1) cursor offset count buffer = (.ok (count,offset),buffer) := by
  rw [Client.fillFrom,Call.bind_ok (a := none) (t := buffer) (by simp [hread])]
  rfl

theorem fillFrom_full (hread : st.read cursor = .ok (some (data,next)))
    (hfull : buffer.length-offset < data.length+lenSize) :
    Client.fillFrom st (fuel+1) cursor offset count buffer = (.ok (count,offset),buffer) := by
  rw [Client.fillFrom,Call.bind_ok (a := some (data,next)) (t := buffer) (by simp [hread])]
  dsimp only
  rw [Call.bind_ok (a := buffer.length-offset) (t := buffer) (by simp),if_pos hfull]
  rfl

/-- A record that has room is written, and counted if it can be. -/
theorem fillFrom_next (hread : st.read cursor = .ok (some (data,next))) (hoffset : offset ≤ buffer.length)
    (hmax : buffer.length ≤ isizeMax) (hroom : ¬buffer.length-offset < data.length+lenSize) :
    Client.fillFrom st (fuel+1) cursor offset count buffer =
      if count+1 ≤ u32Max then
        Client.fillFrom st fuel next (offset+(sendFrame data).length) (count+1)
          (overwrite buffer offset (sendFrame data))
      else (.panic,overwrite buffer offset (sendFrame data)) := by
  have husize := usizeMax_eq
  have hlen : lenSize = u32Size := rfl
  have hframe := sendFrame_length data
  have hsize : (beBytes u32Size data.length).length = u32Size := beBytes_length _ _
  have hheader : writeU32 data.length offset buffer =
      (.ok (offset+u32Size),overwrite buffer offset (beBytes u32Size data.length)) :=
    writeU32_ok data.length (by omega) (by omega)
  have hlength : (overwrite buffer offset (beBytes u32Size data.length)).length = buffer.length :=
    overwrite_length (by omega)
  obtain ⟨target,htarget⟩ : ∃ x, getRange (overwrite buffer offset (beBytes u32Size data.length))
      (offset+u32Size) (offset+u32Size+data.length) = some x :=
    ⟨_,getRange_some_of_le (by omega) (by omega)⟩
  have hwritten : overwrite (overwrite buffer offset (beBytes u32Size data.length)) (offset+u32Size) data =
      overwrite buffer offset (sendFrame data) := by
    have happend : overwrite (overwrite buffer offset (beBytes u32Size data.length))
        (offset+(beBytes u32Size data.length).length) data = overwrite buffer offset (sendFrame data) :=
      overwrite_append (by omega)
    rwa [hsize] at happend
  have hsum : offset+u32Size+data.length = offset+(sendFrame data).length := by omega
  rw [Client.fillFrom,Call.bind_ok (a := some (data,next)) (t := buffer) (by simp [hread])]
  dsimp only
  rw [Call.bind_ok (a := buffer.length-offset) (t := buffer) (by simp),if_neg hroom,
    Call.bind_ok (a := offset+u32Size) (t := overwrite buffer offset (beBytes u32Size data.length))
      (by simp [hheader]),
    Call.bind_ok (a := ()) (t := overwrite buffer offset (beBytes u32Size data.length)) (by simp [htarget]),
    Call.bind_ok (a := ()) (t := overwrite buffer offset (sendFrame data)) (by simp [hwritten]),hsum]
  split_ifs with hone
  · rw [Call.bind_ok (a := count+1) (t := overwrite buffer offset (sendFrame data)) (by simp [plainAdd,hone])]
  · rw [Call.bind_panic (t := overwrite buffer offset (sendFrame data)) (by simp [plainAdd,hone])]

end Step

/-- The loop of `fill_send_buffer` writes the records there is room for, one behind the other, and panics only
where it cannot count them. -/
theorem fillFrom_reads (hreads : Reads st cursor ds) (hoffset : offset ≤ buffer.length)
    (hmax : buffer.length ≤ isizeMax) (hcount : count ≤ u32Max) (hfuel : buffer.length-offset < fuel) :
    (count+(fitting (buffer.length-offset) ds).length ≤ u32Max →
      Client.fillFrom st fuel cursor offset count buffer =
        (.ok (count+(fitting (buffer.length-offset) ds).length,
          offset+(sendFrames (fitting (buffer.length-offset) ds)).length),
          overwrite buffer offset (sendFrames (fitting (buffer.length-offset) ds)))) ∧
    (u32Max < count+(fitting (buffer.length-offset) ds).length →
      (Client.fillFrom st fuel cursor offset count buffer).1 = .panic) := by
  induction hreads generalizing fuel offset count buffer with
  | stop cursor hstop =>
    obtain ⟨fuel,rfl⟩ : ∃ f, fuel = f+1 := ⟨fuel-1,by omega⟩
    refine ⟨fun _ => ?_,fun hlarge => ?_⟩
    · rw [fillFrom_stop hstop]
      simp [fitting]
    · simp only [fitting,List.length_nil] at hlarge
      omega
  | next cursor next data rest hread _ ih =>
    obtain ⟨fuel,rfl⟩ : ∃ f, fuel = f+1 := ⟨fuel-1,by omega⟩
    rw [fitting]
    split_ifs with hfull
    · rw [fillFrom_full hread hfull]
      refine ⟨fun _ => by simp,fun hlarge => ?_⟩
      simp only [List.length_nil] at hlarge
      omega
    have hframe := sendFrame_length data
    have hpositive : 0 < lenSize := by decide
    have hnext : (overwrite buffer offset (sendFrame data)).length = buffer.length := overwrite_length (by omega)
    have hroom : buffer.length-(offset+(sendFrame data).length) = buffer.length-offset-(data.length+lenSize) := by
      omega
    rw [fillFrom_next hread hoffset hmax hfull]
    by_cases hone : count+1 ≤ u32Max
    · rw [if_pos hone]
      have hstart : offset+(sendFrame data).length ≤ (overwrite buffer offset (sendFrame data)).length := by omega
      have hsteps : (overwrite buffer offset (sendFrame data)).length-(offset+(sendFrame data).length) < fuel := by
        omega
      obtain ⟨hok,hpanic⟩ := ih hstart (by omega) hone hsteps
      rw [hnext,hroom] at hok hpanic
      refine ⟨fun hfew => ?_,fun hmany => ?_⟩
      · have hrest := hok (by simp only [List.length_cons] at hfew; omega)
        have hfits := fitting_length (buffer.length-offset-(data.length+lenSize)) rest
        rw [hrest,sendFrames_cons,List.length_cons,List.length_append,overwrite_append (by omega)]
        simp only [Prod.mk.injEq,Outcome.ok.injEq,and_true]
        omega
      · exact hpanic (by simp only [List.length_cons] at hmany; omega)
    · rw [if_neg hone]
      refine ⟨fun hfew => ?_,fun _ => rfl⟩
      simp only [List.length_cons] at hfew
      omega

end Fill

namespace Client

variable [Target] [Crypto C P S] [Postcard Record] [Postcard (Message (Protocol P))] [Postcard (ChatEnvelope P)]
  {channelId : ChannelId} {ds : List Bytes} {buffer : Bytes} {offset : Nat}

/-- The loop of `receive_buffer` over the frames themselves. -/
def receiveAll (channelId : ChannelId) :
    List Bytes → Call (Client maxChannels maxNodes slabSize C P S) ClientError Unit
  | [] => pure ()
  | frame::frames => fun client =>
    match doReceive channelId frame client with
    | (.ok _,client) => receiveAll channelId frames client
    | (.err (.channelError .alreadyReceived),client) => receiveAll channelId frames client
    | (.err e,client) => (.err e,client)
    | (.panic,client) => (.panic,client)

omit [Crypto C P S] [Postcard Record] [Postcard (Message (Protocol P))] [Postcard (ChatEnvelope P)] in
/-- The part of `receive_buffer` that takes the buffer apart. -/
def parseFrames (buffer : Bytes) : Nat → Nat → Outcome ClientError (List Bytes × Nat)
  | 0,offset => .ok ([],offset)
  | count+1,offset => do
    let (len,offset) ← (readU32 buffer offset).mapErr .storageError
    let stop ← plainAdd usizeMax offset len
    let envelopeBytes ← Outcome.okOr .unreachable (getRange buffer offset stop)
    let (frames,last) ← parseFrames buffer count stop
    .ok (envelopeBytes::frames,last)

/-- A buffer that can be taken apart is received as the frames in it are, one after the other. -/
theorem receiveFrames_parsed {count last : Nat} (h : parseFrames buffer count offset = .ok (ds,last))
    (client : Client maxChannels maxNodes slabSize C P S) :
    receiveFrames channelId buffer count offset client = receiveAll channelId ds client := by
  induction count generalizing offset ds client with
  | zero =>
    cases h
    rfl
  | succ count ih =>
    obtain ⟨⟨len,start⟩,hread,h1⟩ := Outcome.bind_eq_ok.mp h
    obtain ⟨stop,hstop,h2⟩ := Outcome.bind_eq_ok.mp h1
    obtain ⟨frame,hframe,h3⟩ := Outcome.bind_eq_ok.mp h2
    obtain ⟨⟨frames,end_⟩,hrest,h4⟩ := Outcome.bind_eq_ok.mp h3
    cases h4
    have hlater : receiveFrames channelId buffer count stop = receiveAll channelId frames := funext (ih hrest)
    have hnext : receiveFrames channelId buffer (count+1) offset client = _ :=
      receiveFrames_next (Outcome.mapErr_eq_ok.mp hread) hstop (Outcome.okOr_eq_ok.mp hframe)
    rw [hlater] at hnext
    rw [receiveAll]
    exact hnext

omit [Crypto C P S] [Postcard Record] [Postcard (Message (Protocol P))] [Postcard (ChatEnvelope P)] in
/-- What is sent can be taken apart into its frames. -/
theorem parseFrames_sent (hbuffer : getRange buffer offset (offset+(sendFrames ds).length) = some (sendFrames ds))
    (hmax : buffer.length ≤ isizeMax) (hshort : ∀ d ∈ ds, d.length < 2^32) :
    parseFrames buffer ds.length offset = .ok (ds,offset+(sendFrames ds).length) := by
  have husize := usizeMax_eq
  induction ds generalizing offset with
  | nil => rfl
  | cons d ds ih =>
    have hbound := (getRange_eq_some.mp hbuffer).2.1
    have hsize : (beBytes u32Size d.length).length = u32Size := beBytes_length _ _
    have hframe := sendFrame_length d
    have hlen : lenSize = u32Size := rfl
    rw [sendFrames_cons,List.length_append] at hbuffer hbound
    obtain ⟨hfirst,hrest⟩ := getRange_split hbuffer
    obtain ⟨hheader,hdata⟩ := getRange_split (show getRange buffer offset (offset+(sendFrame d).length) =
      some (beBytes u32Size d.length ++ d) from hfirst)
    rw [hsize] at hheader hdata
    have hd := hshort d List.mem_cons_self
    have hread := readU32_ok hheader (by omega) (by simp only [u32Max]; omega)
    have hend : offset+(sendFrame d).length = offset+u32Size+d.length := by omega
    have hstop : plainAdd usizeMax (offset+u32Size) d.length =
        (.ok (offset+u32Size+d.length) : Outcome ClientError Nat) := plainAdd_eq_ok.mpr ⟨by omega,rfl⟩
    rw [hend] at hdata hrest
    have hbehind : getRange buffer (offset+u32Size+d.length)
        (offset+u32Size+d.length+(sendFrames ds).length) = some (sendFrames ds) := by
      rw [←hrest]
      congr 1
      omega
    have hlater := ih hbehind (fun x hx => hshort x (List.mem_cons_of_mem _ hx))
    have hlast : offset+u32Size+d.length+(sendFrames ds).length = offset+(sendFrames (d::ds)).length := by
      rw [sendFrames_cons,List.length_append]
      omega
    rw [hlast] at hlater
    rw [List.length_cons,parseFrames]
    simp [hread,hstop,hdata,hlater]

/-- A buffer is received as the frames in it are. -/
theorem receiveFrames_all (hbuffer : getRange buffer offset (offset+(sendFrames ds).length) = some (sendFrames ds))
    (hmax : buffer.length ≤ isizeMax) (hshort : ∀ d ∈ ds, d.length < 2^32)
    (client : Client maxChannels maxNodes slabSize C P S) :
    receiveFrames channelId buffer ds.length offset client = receiveAll channelId ds client :=
  receiveFrames_parsed (parseFrames_sent hbuffer hmax hshort) client

end Client

end Finder
