import Finder.Client.Archive
import Finder.Client.Redelivery
import Finder.Storage.Append
import Finder.Storage.Scanning
import Finder.Sync.Framing

namespace Finder

variable {maxChannels maxNodes slabSize : Nat} {C P S : Type}

/-- There is room for so many more slabs, each with a header and the length of a record. -/
def MemIo.HasSlabs (io : MemIo slabSize) (n : Nat) : Prop :=
  SlabWriter.initialOffset+u32Size ≤ slabSize ∧ (io.slabCount+n)*slabSize ≤ io.data.length

instance {io : MemIo slabSize} {n : Nat} : Decidable (io.HasSlabs n) := inferInstanceAs (Decidable (_ ∧ _))

section Slabs

variable {io io' : MemIo slabSize} {n : Nat}

theorem MemIo.HasSlabs.hasSlab (h : io.HasSlabs (n+1)) : io.HasSlab :=
  ⟨h.1,(Nat.mul_le_mul_right slabSize (by omega)).trans h.2⟩

theorem MemIo.HasSlabs.fewer (h : io.HasSlabs (n+1)) : io.HasSlabs n :=
  ⟨h.1,(Nat.mul_le_mul_right slabSize (by omega)).trans h.2⟩

theorem MemIo.HasSlabs.advanced [Target] (h : io.HasSlabs (n+1)) (hadvanced : io.Advanced io') : io'.HasSlabs n := by
  refine ⟨h.1,?_⟩
  rw [hadvanced.length]
  have hcount := hadvanced.count
  exact (Nat.mul_le_mul_right slabSize (by omega)).trans h.2

end Slabs

section Frames

variable {buffer d : Bytes} {frames : List Bytes} {n stop : Nat}

/-- The buffer begins with these frames. -/
structure Framed (buffer : Bytes) (frames : List Bytes) : Prop where
  begins : getRange buffer 0 (sendFrames frames).length = some (sendFrames frames)
  short : ∀ d ∈ frames, d.length < 2^32

theorem framed_nil (buffer : Bytes) : Framed buffer [] := ⟨getRange_refl (Nat.zero_le _),by simp⟩

theorem Framed.first {before : List Bytes} (h : Framed buffer (before ++ frames)) : Framed buffer before := by
  have hbegins := h.begins
  rw [sendFrames_append] at hbegins
  obtain ⟨hfirst,_⟩ := getRange_split hbegins
  rw [Nat.zero_add] at hfirst
  exact ⟨hfirst,fun d hd => h.short d (List.mem_append_left frames hd)⟩

theorem sendFrames_snoc (frames : List Bytes) (d : Bytes) :
    sendFrames (frames ++ [d]) = sendFrames frames ++ sendFrame d := by
  rw [sendFrames_append,sendFrames_cons,sendFrames_nil,List.append_nil]

theorem sendFrames_snoc_length (frames : List Bytes) (d : Bytes) :
    (sendFrames (frames ++ [d])).length = (sendFrames frames).length+u32Size+d.length := by
  have hlen : lenSize = u32Size := rfl
  rw [sendFrames_snoc,List.length_append,sendFrame_length]
  omega

/-- Behind some frames there is one more where there are its length and its bytes. -/
theorem Framed.append [Target] (h : Framed buffer frames)
    (hread : readU32 buffer (sendFrames frames).length = .ok (d.length,stop))
    (hd : getRange buffer stop (stop+d.length) = some d) : Framed buffer (frames ++ [d]) := by
  obtain ⟨hlt,hheader⟩ := readU32_header hread
  obtain ⟨hstop,_⟩ := readU32_stop hread
  subst hstop
  have hframe := getRange_append hheader hd
  have hwhole := getRange_append h.begins hframe
  refine ⟨?_,fun x hx => ?_⟩
  · rw [sendFrames_snoc_length,sendFrames_snoc]
    exact hwhole
  · rcases List.mem_append.mp hx with hx | hx
    · exact h.short x hx
    · rwa [List.mem_singleton.mp hx]

/-- The last of some frames is read from behind the others. -/
theorem Framed.last [Target] (h : Framed buffer (frames ++ [d])) (hmax : buffer.length ≤ isizeMax) :
    readU32 buffer (sendFrames frames).length = .ok (d.length,(sendFrames frames).length+u32Size) ∧
      getRange buffer ((sendFrames frames).length+u32Size) ((sendFrames frames).length+u32Size+d.length) = some d := by
  have husize := usizeMax_eq
  have hd := h.short d (by simp)
  have hsize : (beBytes u32Size d.length).length = u32Size := beBytes_length _ _
  have hbegins := h.begins
  have hbound := (getRange_eq_some.mp hbegins).2.1
  rw [sendFrames_snoc_length] at hbegins hbound
  rw [sendFrames_snoc] at hbegins
  obtain ⟨_,hlast⟩ := getRange_split hbegins
  rw [sendFrame,Nat.zero_add] at hlast
  obtain ⟨hheader,hdata⟩ := getRange_split hlast
  rw [hsize] at hheader hdata
  exact ⟨readU32_ok hheader (by omega) (by simp only [u32Max]; omega),hdata⟩

end Frames

namespace Channel

variable [Target] [Crypto C P S] [RecordCodec] {ch ch' : Channel maxNodes slabSize C P} {channelId : ChannelId}
  {sender : NodeId} {message : Message (Protocol P)} {id : EnvelopeId} {bytes : Bytes} {n : Nat}
  {outcome : Outcome ClientError Unit}

/-- A message is taken in or refused, and takes one slab at most. -/
theorem take_returns (hs : ch.Sound) (hfree : ch.storage.io.HasSlabs (n+1))
    (h : take channelId sender message id bytes ch = (outcome,ch')) :
    outcome ≠ .panic ∧ ch'.storage.io.HasSlabs n := by
  constructor
  · rintro rfl
    by_cases hearly : ch.state.Receivable sender message ∧ ch.chat.Allows channelId sender message.data
    swap
    · obtain ⟨e,he⟩ := take_early hs hearly id bytes
      rw [h] at he
      cases he
    by_cases huser : UserRefused ch message
    · obtain ⟨e,ch1,he,_⟩ := accept_refused hs.valid hearly.1 hearly.2 huser id
      have htake : take channelId sender message id bytes ch = (.err e,ch1) := Call.bind_err he
      rw [h] at htake
      cases htake
    obtain ⟨ch1,hacc,htake⟩ := take_store hs hearly.1 hearly.2 huser id bytes
    rw [h] at htake
    rcases store_cases hs.storage (recordOf ch sender message bytes) with
      ⟨_,_,st,hst,_⟩ | ⟨_,_,st,hst,_⟩ | ⟨hno,_⟩
    · simp [onStorage,hacc.storage,hst] at htake
    · simp [onStorage,hacc.storage,hst] at htake
    · exact hno hfree.hasSlab
  · rcases take_storage h with ⟨_,hsame⟩ | ⟨r,_,hstore⟩
    · rw [hsame]
      exact hfree.fewer
    · exact hfree.advanced (store_advanced hs.storage hstore).1

variable [Postcard (Message (Protocol P))]

theorem doReceive_returns {crypto : C} {envelope : ChatEnvelope P}
    (hopen : ∀ key : P, Crypto.openEnvelope crypto key envelope ≠ .panic) (hs : ch.Sound)
    (hfree : ch.storage.io.HasSlabs (n+1)) (h : doReceive crypto channelId envelope bytes ch = (outcome,ch')) :
    outcome ≠ .panic ∧ ch'.storage.io.HasSlabs n := by
  have herr : ∀ e, doReceive crypto channelId envelope bytes ch = (.err e,ch) →
      outcome ≠ .panic ∧ ch'.storage.io.HasSlabs n := by
    intro e he
    rw [h] at he
    cases he
    exact ⟨by simp,hfree.fewer⟩
  rcases ChannelState.getNodeKey_cases ch.state envelope.sender with ⟨key,hkey⟩ | hkey | hkey
  · cases hmessage : (Crypto.openEnvelope crypto key envelope : Outcome CryptoError (Message (Protocol P))) with
    | panic => exact absurd hmessage (hopen key)
    | err e =>
      refine herr (.cryptoError e) ?_
      unfold doReceive
      rw [Call.bind_ok (a := key) (t := ch) (by simp [hkey])]
      exact Call.bind_err (by simp [hmessage])
    | ok message =>
      rw [doReceive_eq_take hkey hmessage] at h
      exact take_returns hs hfree h
  · exact herr (.channelError .unknownNode) (Call.bind_err (by simp [hkey]))
  · exact herr (.channelError .unreachable) (Call.bind_err (by simp [hkey]))

end Channel

namespace Client

variable [Target] [Crypto C P S] [RecordCodec] [Postcard (Message (Protocol P))] [EnvelopeCodec P]
  {client client' mid : Client maxChannels maxNodes slabSize C P S} {channelId : ChannelId} {buffer bytes : Bytes}
  {frames : List Bytes} {n count : Nat} {outcome : Outcome ClientError Unit}

omit [Target] [Crypto C P S] [RecordCodec] [Postcard (Message (Protocol P))] [EnvelopeCodec P] in
/-- The channel, where the client has it, has room for so many more records. -/
def HasSlabs (client : Client maxChannels maxNodes slabSize C P S) (channelId : ChannelId) (n : Nat) : Prop :=
  ∀ ch, client.channels.get channelId = some ch → ch.storage.io.HasSlabs n

theorem doReceive_returns (hopen : ∀ (crypto : C) (key : P) (envelope : ChatEnvelope P),
      Crypto.openEnvelope crypto key envelope ≠ .panic)
    (hs : Every Channel.Sound client) (hfree : client.HasSlabs channelId (n+1))
    (h : doReceive channelId bytes client = (outcome,client')) : outcome ≠ .panic ∧ client'.HasSlabs channelId n := by
  rcases doReceive_cases h with ⟨e,_,rfl,rfl⟩ | ⟨envelope,ch,ch',_,hget,hrun,rfl⟩
  · exact ⟨by simp,fun ch hget => (hfree ch hget).fewer⟩
  · obtain ⟨hreturns,hlater⟩ := Channel.doReceive_returns (hopen client.crypto · envelope) (hs channelId ch hget)
      (hfree ch hget) hrun
    refine ⟨hreturns,fun c hc => ?_⟩
    rw [channels_set hget,if_pos rfl] at hc
    cases hc
    exact hlater

/-- A frame that the loop goes on behind. -/
def Passed (channelId : ChannelId) (frame : Bytes) (client first : Client maxChannels maxNodes slabSize C P S) : Prop :=
  doReceive channelId frame client = (.ok (),first) ∨
    doReceive channelId frame client = (.err (.channelError .alreadyReceived),first)

section Passed

variable {frame : Bytes} {first : Client maxChannels maxNodes slabSize C P S}

theorem receiveAll_passed (h : Passed channelId frame client first) (frames : List Bytes) :
    receiveAll channelId (frame::frames) client = receiveAll channelId frames first := by
  rw [receiveAll]
  dsimp only
  rcases h with h | h <;> rw [h]

theorem receiveAll_cons_ok (h : receiveAll channelId (frame::frames) client = (.ok (),mid)) :
    ∃ first, Passed channelId frame client first ∧ receiveAll channelId frames first = (.ok (),mid) := by
  rw [receiveAll] at h
  dsimp only at h
  split at h
  · rename_i first hrun
    exact ⟨first,Or.inl hrun,h⟩
  · rename_i first hrun
    exact ⟨first,Or.inr hrun,h⟩
  · cases h
  · cases h

theorem receiveAll_append (h : receiveAll channelId frames client = (.ok (),mid)) (ds : List Bytes) :
    receiveAll channelId (frames ++ ds) client = receiveAll channelId ds mid := by
  induction frames generalizing client with
  | nil =>
    cases h
    rfl
  | cons frame frames ih =>
    obtain ⟨first,hpassed,hrest⟩ := receiveAll_cons_ok h
    rw [List.cons_append,receiveAll_passed hpassed]
    exact ih hrest

theorem receiveAll_snoc (h : receiveAll channelId frames client = (.ok (),mid))
    (hpassed : Passed channelId frame mid first) : receiveAll channelId (frames ++ [frame]) client = (.ok (),first) := by
  rw [receiveAll_append h,receiveAll_passed hpassed]
  rfl

theorem receiveFrames_passed {offset len start : Nat} (hlen : readU32 buffer offset = .ok (len,start))
    (hstop : start+len ≤ usizeMax) (hframe : getRange buffer start (start+len) = some frame)
    (hpassed : Passed channelId frame client first) :
    receiveFrames channelId buffer (count+1) offset client =
      receiveFrames channelId buffer count (start+len) first := by
  rw [receiveFrames_next hlen (plainAdd_eq_ok.mpr ⟨hstop,rfl⟩) hframe]
  rcases hpassed with h | h <;> rw [h]

end Passed

section Stop

variable {offset len start : Nat}

theorem receiveFrames_unread {e : StorageError} (hread : readU32 buffer offset = .err e) :
    receiveFrames channelId buffer (count+1) offset client = (.err (.storageError e),client) := by
  rw [receiveFrames]
  exact Call.bind_err (by simp [hread])

theorem receiveFrames_overflow (hread : readU32 buffer offset = .ok (len,start)) (hlarge : usizeMax < start+len) :
    receiveFrames channelId buffer (count+1) offset client = (.panic,client) := by
  rw [receiveFrames]
  refine (Call.bind_ok (a := (len,start)) (t := client) (by simp [hread])).trans ?_
  exact Call.bind_panic (by simp [plainAdd,not_le.mpr hlarge])

theorem receiveFrames_outside (hread : readU32 buffer offset = .ok (len,start)) (hstop : start+len ≤ usizeMax)
    (hnone : getRange buffer start (start+len) = none) :
    receiveFrames channelId buffer (count+1) offset client = (.err .unreachable,client) := by
  rw [receiveFrames]
  refine (Call.bind_ok (a := (len,start)) (t := client) (by simp [hread])).trans ?_
  refine (Call.bind_ok (a := start+len) (t := client) (by simp [plainAdd,hstop])).trans ?_
  exact Call.bind_err (by simp [hnone])

theorem receiveFrames_rejected {frame : Bytes} {first : Client maxChannels maxNodes slabSize C P S} {e : ClientError}
    (hread : readU32 buffer offset = .ok (len,start)) (hstop : start+len ≤ usizeMax)
    (hframe : getRange buffer start (start+len) = some frame)
    (hreject : doReceive channelId frame client = (.err e,first)) (hnew : e ≠ .channelError .alreadyReceived) :
    receiveFrames channelId buffer (count+1) offset client = (.err e,first) := by
  rw [receiveFrames_next hread (plainAdd_eq_ok.mpr ⟨hstop,rfl⟩) hframe,hreject]
  split <;> simp_all

end Stop

/-- What `receive_buffer` should come to: all the frames it was asked for received in order, or those in front of the
first one that the buffer does not hold or that is rejected. A frame received before is passed over. -/
inductive Ends (channelId : ChannelId) (buffer : Bytes) (count : Nat)
    (client : Client maxChannels maxNodes slabSize C P S) :
    Outcome ClientError Unit → Client maxChannels maxNodes slabSize C P S → Prop
  | all (frames : List Bytes) (mid : Client maxChannels maxNodes slabSize C P S) (hframes : Framed buffer frames)
      (hcount : frames.length = count) (hreceived : receiveAll channelId frames client = (.ok (),mid)) :
      Ends channelId buffer count client (.ok ()) mid
  | truncated (frames : List Bytes) (mid : Client maxChannels maxNodes slabSize C P S) (e : ClientError)
      (hframes : Framed buffer frames) (hcount : frames.length < count)
      (hreceived : receiveAll channelId frames client = (.ok (),mid)) (hend : ∀ d, ¬Framed buffer (frames ++ [d])) :
      Ends channelId buffer count client (.err e) mid
  | rejected (frames : List Bytes) (d : Bytes) (mid after : Client maxChannels maxNodes slabSize C P S)
      (e : ClientError) (hframes : Framed buffer (frames ++ [d])) (hcount : frames.length < count)
      (hreceived : receiveAll channelId frames client = (.ok (),mid))
      (hreject : doReceive channelId d mid = (.err e,after)) (hnew : e ≠ .channelError .alreadyReceived) :
      Ends channelId buffer count client (.err e) after

/-- The loop comes to a frame whose length takes its end beyond the greatest `usize`. -/
def Overflows (channelId : ChannelId) (buffer : Bytes) (count : Nat)
    (client : Client maxChannels maxNodes slabSize C P S) : Prop :=
  ∃ (frames : List Bytes) (mid : Client maxChannels maxNodes slabSize C P S) (len stop : Nat),
    Framed buffer frames ∧ frames.length < count ∧ receiveAll channelId frames client = (.ok (),mid) ∧
      readU32 buffer (sendFrames frames).length = .ok (len,stop) ∧ usizeMax < stop+len

/-- A word of 64 bits has room for any slice and any length behind it. -/
theorem Overflows.narrow (h : Overflows channelId buffer count client) (hmax : buffer.length ≤ isizeMax) :
    Target.usizeBits = 32 := by
  obtain ⟨frames,mid,len,stop,_,_,_,hread,hlarge⟩ := h
  obtain ⟨hlen,_⟩ := readU32_header hread
  obtain ⟨_,hstop⟩ := readU32_stop hread
  rcases Target.wide with h32 | h64
  · exact h32
  · simp only [usizeMax,isizeMax,h64] at hlarge hmax
    omega

/-- The loop goes over the frames that it passes. -/
theorem receiveFrames_behind (before : List Bytes) (hmax : buffer.length ≤ isizeMax)
    (hframes : Framed buffer (before ++ frames)) (hreceived : receiveAll channelId frames client = (.ok (),mid)) :
    receiveFrames channelId buffer (frames.length+n) (sendFrames before).length client =
      receiveFrames channelId buffer n (sendFrames (before ++ frames)).length mid := by
  induction frames generalizing before client with
  | nil =>
    cases hreceived
    rw [List.append_nil,List.length_nil,Nat.zero_add]
  | cons frame frames ih =>
    obtain ⟨first,hpassed,hrest⟩ := receiveAll_cons_ok hreceived
    have hsplit : before ++ frame::frames = before ++ [frame] ++ frames := by simp
    rw [hsplit] at hframes ⊢
    obtain ⟨hread,hdata⟩ := hframes.first.last hmax
    have husize := usizeMax_eq
    have hin := (getRange_eq_some.mp hdata).2.1
    have hcount : (frame::frames).length+n = frames.length+n+1 := by
      rw [List.length_cons]
      omega
    rw [hcount,receiveFrames_passed hread (by omega) hdata hpassed,←sendFrames_snoc_length]
    exact ih _ hframes hrest

/-- Where nothing overflows each frame is received, or the loop ends at it. -/
theorem receiveFrames_ends {after : Client maxChannels maxNodes slabSize C P S}
    (hopen : ∀ (crypto : C) (key : P) (envelope : ChatEnvelope P), Crypto.openEnvelope crypto key envelope ≠ .panic)
    (hmax : buffer.length ≤ isizeMax) (hno : ¬Overflows channelId buffer count client)
    (hs : Every Channel.Sound mid) (hfree : mid.HasSlabs channelId n) (hframes : Framed buffer frames)
    (hreceived : receiveAll channelId frames client = (.ok (),mid)) (hcount : frames.length+n = count)
    (hrun : receiveFrames channelId buffer n (sendFrames frames).length mid = (outcome,after)) :
    Ends channelId buffer count client outcome after := by
  induction n generalizing frames mid with
  | zero =>
    cases hrun
    exact .all frames _ hframes hcount hreceived
  | succ n ih =>
    have hmore : frames.length < count := by omega
    rcases hread : readU32 buffer (sendFrames frames).length with ⟨len,stop⟩ | e | _
    · have hsum : stop+len ≤ usizeMax := by
        by_contra hlarge
        exact hno ⟨frames,mid,len,stop,hframes,hmore,hreceived,hread,not_le.mp hlarge⟩
      cases hframe : getRange buffer stop (stop+len) with
      | none =>
        rw [receiveFrames_outside hread hsum hframe] at hrun
        cases hrun
        refine .truncated frames _ _ hframes hmore hreceived (fun d hd => ?_)
        obtain ⟨hlast,hdata⟩ := hd.last hmax
        rw [hread] at hlast
        cases hlast
        rw [hframe] at hdata
        cases hdata
      | some frame =>
        have hlen : frame.length = len := by
          rw [getRange_length hframe,Nat.add_sub_cancel_left]
        subst hlen
        obtain ⟨hstop,_⟩ := readU32_stop hread
        have hone := hframes.append hread hframe
        have hlast : (sendFrames (frames ++ [frame])).length = stop+frame.length := by
          rw [sendFrames_snoc_length,hstop]
        rcases hreceive : doReceive channelId frame mid with ⟨r,first⟩
        obtain ⟨hreturns,hroom⟩ := doReceive_returns hopen hs hfree hreceive
        have hsound : Every Channel.Sound first := by
          have hkept := doReceive_keeps channelId frame mid hs
          rwa [hreceive] at hkept
        have hpasses : Passed channelId frame mid first → Ends channelId buffer count client outcome after := by
          intro hpassed
          rw [receiveFrames_passed hread hsum hframe hpassed,←hlast] at hrun
          have hlonger : (frames ++ [frame]).length+n = count := by
            rw [List.length_append,List.length_singleton]
            omega
          exact ih hsound hroom hone (receiveAll_snoc hreceived hpassed) hlonger hrun
        cases r with
        | ok u => exact hpasses (Or.inl hreceive)
        | panic => exact absurd rfl hreturns
        | err e =>
          by_cases hold : e = .channelError .alreadyReceived
          · subst hold
            exact hpasses (Or.inr hreceive)
          · rw [receiveFrames_rejected hread hsum hframe hreceive hold] at hrun
            cases hrun
            exact .rejected frames frame mid _ _ hone hmore hreceived hreceive hold
    · rw [receiveFrames_unread hread] at hrun
      cases hrun
      refine .truncated frames _ _ hframes hmore hreceived (fun d hd => ?_)
      rw [(hd.last hmax).1] at hread
      cases hread
    · exact absurd hread readU32_ne_panic

/-- The loop ends as it should exactly where no length takes it beyond the greatest `usize`, and only a word of 32 bits
is too narrow for one. -/
theorem Reachable.receiveBuffer_ends_iff [Postcard (NewChannel P)] (h : Reachable client)
    (hopen : ∀ (crypto : C) (key : P) (envelope : ChatEnvelope P), Crypto.openEnvelope crypto key envelope ≠ .panic)
    (hmax : buffer.length ≤ isizeMax) (hfree : client.HasSlabs channelId count) :
    (Ends channelId buffer count client (receiveBuffer channelId buffer count client).1
      (receiveBuffer channelId buffer count client).2 ↔ ¬Overflows channelId buffer count client) ∧
    (Overflows channelId buffer count client → Target.usizeBits = 32) := by
  refine ⟨⟨?_,fun hno => ?_⟩,fun hover => hover.narrow hmax⟩
  · rintro hends ⟨frames,mid,len,stop,hframes,hmore,hreceived,hread,hlarge⟩
    obtain ⟨n,rfl⟩ := Nat.exists_eq_add_of_lt hmore
    have hbehind := receiveFrames_behind (n := n+1) [] hmax hframes hreceived
    have hpanic : receiveBuffer channelId buffer (frames.length+n+1) client = (.panic,mid) :=
      hbehind.trans (receiveFrames_overflow hread hlarge)
    rw [hpanic] at hends
    cases hends
  · exact receiveFrames_ends hopen hmax hno h.sound hfree (framed_nil buffer) rfl (Nat.zero_add count) rfl

end Client

section Owner

open PlainCrypto

theorem openPlain_ne_panic (crypto : PlainCrypto) (key : U64) (envelope : ChatEnvelope U64) :
    (Crypto.openEnvelope crypto key envelope : Outcome CryptoError (Message (Protocol U64))) ≠ .panic := by
  change openPlain key envelope ≠ .panic
  unfold openPlain
  split_ifs
  · exact fun hpanic => (by cases hpanic)
  · split <;> exact fun hpanic => (by cases hpanic)

/-- The second node makes itself the owner, and then says something. -/
def twoFrames : Bytes :=
  framed usurping ++ framed (sealedBy 2 (chatId 1) ⟨nodeOf 2,3,4,.chatMessage ⟨HString.new⟩⟩)

/-- The owner receives both of these frames. -/
theorem receiveBuffer_ends_ownerOfTwo :
    (Client.receiveBuffer (chatId 1) twoFrames 2 ownerOfTwo).1 = .ok () ∧
    (Client.Ends (chatId 1) twoFrames 2 ownerOfTwo (Client.receiveBuffer (chatId 1) twoFrames 2 ownerOfTwo).1
      (Client.receiveBuffer (chatId 1) twoFrames 2 ownerOfTwo).2 ↔
        ¬Client.Overflows (chatId 1) twoFrames 2 ownerOfTwo) ∧
    (Client.Overflows (chatId 1) twoFrames 2 ownerOfTwo → Target.usizeBits = 32) := by
  have hreachable : Client.Reachable ownerOfTwo := .call _ _ owner_reachable trivial
  refine ⟨by decide +kernel,hreachable.receiveBuffer_ends_iff openPlain_ne_panic (by decide +kernel)
    (fun ch hget => ?_)⟩
  have hall : ((ownerOfTwo.channels.get (chatId 1)).all fun ch => decide (ch.storage.io.HasSlabs 2)) = true := by
    decide +kernel
  rw [hget] at hall
  simpa using hall

section Narrow

/-- The firmware targets. -/
local instance narrow : Target := ⟨32,Or.inl rfl⟩

/-- A length with all bits set takes the end of the first frame beyond 32 bits. -/
theorem length_overflows : Client.Reachable (client 1 : Client 2 2 256 PlainCrypto U64 U64) ∧
    ([255,255,255,255] : Bytes).length ≤ isizeMax ∧
    (client 1 : Client 2 2 256 PlainCrypto U64 U64).HasSlabs (chatId 1) 1 ∧
    ¬Client.Ends (chatId 1) [255,255,255,255] 1 (client 1 : Client 2 2 256 PlainCrypto U64 U64)
      (Client.receiveBuffer (chatId 1) [255,255,255,255] 1 (client 1 : Client 2 2 256 PlainCrypto U64 U64)).1
      (Client.receiveBuffer (chatId 1) [255,255,255,255] 1 (client 1 : Client 2 2 256 PlainCrypto U64 U64)).2 := by
  refine ⟨.new _ _,by decide,fun ch hget => ?_,fun hends => ?_⟩
  · simp [PlainCrypto.client,Client.new] at hget
  · have hpanic : (Client.receiveBuffer (chatId 1) [255,255,255,255] 1
        (client 1 : Client 2 2 256 PlainCrypto U64 U64)).1 = .panic := by decide +kernel
    rw [hpanic] at hends
    cases hends

end Narrow

end Owner

end Finder
