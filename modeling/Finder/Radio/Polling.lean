import Finder.Client.Atomicity
import Finder.Radio.Receiving
import Finder.Radio.Writing

namespace Finder

variable {maxChannels maxNodes maxResponse slabSize : Nat} {A E D C P S : Type}

namespace WireState

variable {st st' : WireState maxChannels maxNodes maxResponse A D} {now : U64} {peerCount : UInt8}
  {channelIds : List ChannelId} {repairCount : Nat} {client : Client maxChannels maxNodes slabSize C P S}
  {m : NetworkProtocol maxChannels maxNodes maxResponse} {buffer : Bytes}

section Take

theorem takeMessage_pending (h : st.toSend = some m) :
    takeMessage now peerCount channelIds client st = (.ok (some m),{ st with toSend := none }) := by
  simp only [takeMessage,h]

theorem takeMessage_later (h : st.toSend = none) (hlater : now < st.nextHello) :
    takeMessage now peerCount channelIds client st = (.ok none,st) := by
  simp only [takeMessage,h,if_pos (show st.nextHello > now from hlater)]

theorem takeMessage_due {nextHello : U64} (h : st.toSend = none) (hdue : st.nextHello ≤ now)
    (hnext : nextHello.val = now.val+st.helloDuration.val) :
    takeMessage now peerCount channelIds client st =
      ((makeHello peerCount channelIds client).bind (fun hello => .ok (some hello)),
        { st with nextHello := nextHello }) := by
  have hadd : (U64.plainAdd now st.helloDuration : Outcome WireError U64) = .ok nextHello :=
    U64.plainAdd_eq_ok.mpr hnext
  simp only [takeMessage,h,if_neg (show ¬st.nextHello > now from not_lt.mpr hdue),hadd]

theorem takeMessage_overflow (h : st.toSend = none) (hdue : st.nextHello ≤ now)
    (hlarge : 2^64 ≤ now.val+st.helloDuration.val) :
    takeMessage now peerCount channelIds client st = (.panic,st) := by
  have hadd : (U64.plainAdd now st.helloDuration : Outcome WireError U64) = .panic := U64.plainAdd_eq_panic.mpr hlarge
  simp only [takeMessage,h,if_neg (show ¬st.nextHello > now from not_lt.mpr hdue),hadd]

theorem helloInfos_ne_err (e : WireError) (channelInfo : HVec ChannelInfo maxChannels) :
    helloInfos client channelIds channelInfo ≠ .err e := by
  induction channelIds generalizing channelInfo with
  | nil => exact fun h => (by cases h)
  | cons channelId channelIds ih =>
    rw [helloInfos]
    cases (client.messageCount channelId).value with
    | none => exact fun h => (by cases h)
    | some messageCount =>
      rw [Outcome.orPanic_some,Outcome.ok_bind]
      cases channelInfo.push ⟨channelId,messageCount⟩ with
      | none => exact fun h => (by cases h)
      | some channelInfo => exact ih channelInfo

/-- Making a hello does not fail with an error: it panics on a list that is not one of the client. -/
theorem makeHello_ne_err (e : WireError) : (makeHello peerCount channelIds client :
    Outcome WireError (NetworkProtocol maxChannels maxNodes maxResponse)) ≠ .err e := by
  intro h
  unfold makeHello at h
  rcases hinfos : helloInfos client channelIds HVec.empty with channelInfo | e' | _
  all_goals
    rw [hinfos] at h
    cases h
  exact helloInfos_ne_err e HVec.empty hinfos

/-- All that taking a message can do: one that waits is taken, nothing is due, a hello is made, or the clock or the list
does not allow for one. -/
theorem takeMessage_cases (now : U64) (peerCount : UInt8) (channelIds : List ChannelId)
    (client : Client maxChannels maxNodes slabSize C P S) (st : WireState maxChannels maxNodes maxResponse A D) :
    (∃ m, st.toSend = some m ∧
      takeMessage now peerCount channelIds client st = (.ok (some m),{ st with toSend := none })) ∨
    (st.toSend = none ∧ now < st.nextHello ∧ takeMessage now peerCount channelIds client st = (.ok none,st)) ∨
    (st.toSend = none ∧ st.nextHello ≤ now ∧ ∃ (nextHello : U64) (hello : _), nextHello.val = now.val+st.helloDuration.val ∧
      makeHello peerCount channelIds client = .ok hello ∧
      takeMessage now peerCount channelIds client st = (.ok (some hello),{ st with nextHello := nextHello })) ∨
    (st.toSend = none ∧ st.nextHello ≤ now ∧ ∃ st' : WireState maxChannels maxNodes maxResponse A D, st'.toSend = none ∧
      (now.val+st.helloDuration.val < 2^64 → (makeHello peerCount channelIds client :
        Outcome WireError (NetworkProtocol maxChannels maxNodes maxResponse)) = .panic) ∧
      takeMessage now peerCount channelIds client st = (.panic,st')) := by
  rcases Option.eq_none_or_eq_some st.toSend with hsend | ⟨m,hsend⟩
  swap
  · exact Or.inl ⟨m,hsend,takeMessage_pending hsend⟩
  by_cases hdue : st.nextHello ≤ now
  swap
  · exact Or.inr (Or.inl ⟨hsend,not_le.mp hdue,takeMessage_later hsend (not_le.mp hdue)⟩)
  by_cases hclock : now.val+st.helloDuration.val < 2^64
  swap
  · exact Or.inr (Or.inr (Or.inr ⟨hsend,hdue,st,hsend,fun h => absurd h hclock,
      takeMessage_overflow hsend hdue (not_lt.mp hclock)⟩))
  have htake : takeMessage now peerCount channelIds client st =
      (_,{ st with nextHello := ⟨now.val+st.helloDuration.val,hclock⟩ }) := takeMessage_due hsend hdue rfl
  cases hhello : (makeHello peerCount channelIds client :
      Outcome WireError (NetworkProtocol maxChannels maxNodes maxResponse)) with
  | err e => exact absurd hhello (makeHello_ne_err e)
  | panic =>
    rw [hhello] at htake
    exact Or.inr (Or.inr (Or.inr ⟨hsend,hdue,{ st with nextHello := ⟨now.val+st.helloDuration.val,hclock⟩ },hsend,
      fun _ => rfl,htake⟩))
  | ok hello =>
    rw [hhello] at htake
    exact Or.inr (Or.inr (Or.inl ⟨hsend,hdue,⟨now.val+st.helloDuration.val,hclock⟩,hello,rfl,rfl,htake⟩))

end Take

variable [Raptorq E D] [Postcard (NetworkProtocol maxChannels maxNodes maxResponse)]

section Poll

omit [Raptorq E D] [Postcard (NetworkProtocol maxChannels maxNodes maxResponse)] in
theorem takeMessage_field {taken : Outcome WireError (Option (NetworkProtocol maxChannels maxNodes maxResponse))}
    (h : takeMessage now peerCount channelIds client st = (taken,st')) :
    (Call.field Prod.fst (fun st s => (st,s.2)) (takeMessage now peerCount channelIds client) :
      Call (WireState maxChannels maxNodes maxResponse A D × Bytes) WireError _) (st,buffer) =
        (taken,(st',buffer)) := by
  rw [Call.field_apply,h]

/-- Where nothing is to be sent the state stays as it is. -/
theorem poll_idle (h : st.toSend = none) (hlater : now < st.nextHello) :
    poll now peerCount channelIds repairCount client (st,buffer) =
      (.ok (⟨⟨st.nextHello.val-now.val,by omega⟩,none⟩ : PollResult E),(st,buffer)) := by
  have hsub : (U64.plainSub st.nextHello now : Outcome WireError U64) = .ok _ := U64.plainSub_of_le (le_of_lt hlater)
  rw [poll,Call.bind_ok (takeMessage_field (takeMessage_later h hlater))]
  dsimp only
  rw [Call.bind_ok (a := st) (t := (st,buffer)) (by simp)]
  rw [Call.bind_ok (a := ⟨st.nextHello.val-now.val,by omega⟩) (t := (st,buffer)) (by simp [hsub])]
  rfl

theorem poll_panic (h : takeMessage now peerCount channelIds client st = (.panic,st')) :
    poll now peerCount channelIds repairCount client (st,buffer) =
      ((.panic : Outcome WireError (PollResult E)),(st',buffer)) := by
  rw [poll,Call.bind_panic (takeMessage_field h)]

/-- The message has been taken, and does not fit the buffer. -/
theorem poll_full (repairCount : Nat) (h : takeMessage now peerCount channelIds client st = (.ok (some m),st'))
    (hfull : buffer.length < (toBytes m).length) :
    ∃ buffer', poll now peerCount channelIds repairCount client (st,buffer) =
      ((.err (.deserializeError .serializeBufferFull) : Outcome WireError (PollResult E)),(st',buffer')) := by
  refine ⟨(toSlice m buffer).2,?_⟩
  have hslice : toSlice m buffer = (.error .serializeBufferFull,(toSlice m buffer).2) := by
    rw [toSlice,if_neg (by omega)]
  rw [poll,Call.bind_ok (takeMessage_field h)]
  refine Call.bind_err (t := (st',(toSlice m buffer).2)) ?_
  rw [Call.field_apply,serializeMessage,hslice]

/-- The message is in the buffer. -/
theorem poll_wrote (h : takeMessage now peerCount channelIds client st = (.ok (some m),st'))
    (hfits : (toBytes m).length ≤ buffer.length) :
    poll now peerCount channelIds repairCount client (st,buffer) = ((do
      let writer ← Call.lift (WireWriter.new D st'.nextMessageNumber st'.mtu (toBytes m) repairCount)
      Call.modify (fun s => ({ s.1 with nextMessageNumber := s.1.nextMessageNumber+1 },s.2))
      let nextPoll ← Call.lift (U64.plainAdd st'.helloDuration now)
      pure { nextPoll := nextPoll
             writer := some writer } : Call (WireState maxChannels maxNodes maxResponse A D × Bytes) WireError
        (PollResult E)) (st',overwrite buffer 0 (toBytes m))) := by
  rw [poll,Call.bind_ok (takeMessage_field h)]
  dsimp only
  rw [Call.bind_ok (a := toBytes m) (t := (st',overwrite buffer 0 (toBytes m)))
    (by rw [Call.field_apply,serializeMessage,toSlice_ok hfits])]
  exact Call.bind_ok (a := st') (t := (st',overwrite buffer 0 (toBytes m))) (by simp)

/-- A message that fits is sent, or it panics in the writer or in the time of the next poll. -/
theorem poll_sends (repairCount : Nat) (h : takeMessage now peerCount channelIds client st = (.ok (some m),st'))
    (hfits : (toBytes m).length ≤ buffer.length) :
    (WireWriter.Cuts D st'.mtu (toBytes m) ∧ st'.helloDuration.val+now.val < 2^64 ∧
      ∃ (w : WireWriter E) (nextPoll : U64) (buffer' : Bytes),
        WireWriter.new D st'.nextMessageNumber st'.mtu (toBytes m) repairCount = .ok w ∧
        nextPoll.val = st'.helloDuration.val+now.val ∧
        poll now peerCount channelIds repairCount client (st,buffer) =
          (.ok ⟨nextPoll,some w⟩,({ st' with nextMessageNumber := st'.nextMessageNumber+1 },buffer'))) ∨
    (¬(WireWriter.Cuts D st'.mtu (toBytes m) ∧ st'.helloDuration.val+now.val < 2^64) ∧
      ∃ last : WireState maxChannels maxNodes maxResponse A D × Bytes, last.1.toSend = st'.toSend ∧
        poll now peerCount channelIds repairCount client (st,buffer) =
          ((.panic : Outcome WireError (PollResult E)),last)) := by
  rw [poll_wrote h hfits]
  by_cases hcuts : WireWriter.Cuts D st'.mtu (toBytes m)
  · obtain ⟨w,hw⟩ : ∃ w : WireWriter E, WireWriter.new D st'.nextMessageNumber st'.mtu (toBytes m) repairCount = .ok w :=
      ⟨_,WireWriter.new_ok _ repairCount hcuts⟩
    rw [Call.bind_ok (a := w) (t := (st',overwrite buffer 0 (toBytes m))) (by simp [hw])]
    rw [Call.bind_ok (a := ()) (t := ({ st' with nextMessageNumber := st'.nextMessageNumber+1 },
      overwrite buffer 0 (toBytes m))) (by simp)]
    by_cases hnext : st'.helloDuration.val+now.val < 2^64
    · have hadd : (U64.plainAdd st'.helloDuration now : Outcome WireError U64) = .ok ⟨_,hnext⟩ :=
        U64.plainAdd_eq_ok.mpr rfl
      refine Or.inl ⟨hcuts,hnext,w,⟨_,hnext⟩,overwrite buffer 0 (toBytes m),hw,rfl,?_⟩
      rw [hadd]
      rfl
    · have hadd : (U64.plainAdd st'.helloDuration now : Outcome WireError U64) = .panic :=
        U64.plainAdd_eq_panic.mpr (not_lt.mp hnext)
      refine Or.inr ⟨fun hall => hnext hall.2,({ st' with nextMessageNumber := st'.nextMessageNumber+1 },
        overwrite buffer 0 (toBytes m)),rfl,?_⟩
      rw [hadd]
      rfl
  · have hpanic := WireWriter.new_panic st'.nextMessageNumber repairCount hcuts
    refine Or.inr ⟨fun hall => hcuts hall.1,(st',overwrite buffer 0 (toBytes m)),rfl,?_⟩
    exact Call.bind_panic (by simp [hpanic])

end Poll

/-- A poll loses nothing: the message that waits is returned in a writer, and an error leaves the state as it is. -/
inductive PollKept (st : WireState maxChannels maxNodes maxResponse A D) (repairCount : Nat) :
    Outcome WireError (PollResult E) → WireState maxChannels maxNodes maxResponse A D → Prop
  | sent (m : NetworkProtocol maxChannels maxNodes maxResponse) (w : WireWriter E) (nextPoll : U64)
      (st' : WireState maxChannels maxNodes maxResponse A D) (hpending : st.toSend = some m)
      (htaken : st'.toSend = none) (hwriter : WireWriter.new D st.nextMessageNumber st.mtu (toBytes m) repairCount = .ok w) :
      PollKept st repairCount (.ok ⟨nextPoll,some w⟩) st'
  | nothing (result : PollResult E) (st' : WireState maxChannels maxNodes maxResponse A D) (hnone : st.toSend = none)
      (hempty : st'.toSend = none) : PollKept st repairCount (.ok result) st'
  | failed (e : WireError) (st' : WireState maxChannels maxNodes maxResponse A D) (hsame : st'.toSend = st.toSend)
      (htimer : st'.nextHello = st.nextHello) (hnumber : st'.nextMessageNumber = st.nextMessageNumber) :
      PollKept st repairCount (.err e) st'
  | panicked (st' : WireState maxChannels maxNodes maxResponse A D) (hsame : st'.toSend = st.toSend) :
      PollKept st repairCount .panic st'

/-- What waits to be sent fits the buffer and a writer, and the clock is not at its end; a hello that is due fits the
buffer. -/
structure Pollable (st : WireState maxChannels maxNodes maxResponse A D) (now : U64) (peerCount : UInt8)
    (channelIds : List ChannelId) (client : Client maxChannels maxNodes slabSize C P S) (buffer : Bytes) : Prop where
  pending : ∀ m, st.toSend = some m → (toBytes m).length ≤ buffer.length ∧ WireWriter.Cuts D st.mtu (toBytes m) ∧
    st.helloDuration.val+now.val < 2^64
  hello : st.toSend = none → st.nextHello ≤ now → now.val+st.helloDuration.val < 2^64 →
    ∀ hello : NetworkProtocol maxChannels maxNodes maxResponse,
      makeHello peerCount channelIds client = .ok hello → (toBytes hello).length ≤ buffer.length

/-- A poll loses nothing exactly where it can send. -/
theorem poll_kept_iff (hduration : 0 < st.helloDuration.val) :
    PollKept st repairCount
      (poll now peerCount channelIds repairCount client (st,buffer) : Outcome WireError (PollResult E) × _).1
      (poll now peerCount channelIds repairCount client (st,buffer) : Outcome WireError (PollResult E) × _).2.1 ↔
        Pollable st now peerCount channelIds client buffer := by
  have hno : st.toSend = none → ∀ m, st.toSend = some m → (toBytes m).length ≤ buffer.length ∧
      WireWriter.Cuts D st.mtu (toBytes m) ∧ st.helloDuration.val+now.val < 2^64 := by
    intro hnone m hm
    rw [hnone] at hm
    cases hm
  rcases takeMessage_cases now peerCount channelIds client st with ⟨m,hsend,htake⟩ | ⟨hsend,hlater,_⟩ |
    ⟨hsend,hdue,nextHello,hello,hnext,hhello,htake⟩ | ⟨hsend,hdue,last,hlast,hstuck,htake⟩
  · by_cases hfits : (toBytes m).length ≤ buffer.length
    · rcases poll_sends (E := E) repairCount htake hfits with
        ⟨hcuts,hclock,w,nextPoll,buffer',hw,_,hpoll⟩ | ⟨hno,last,hlast,hpoll⟩
      · rw [hpoll]
        refine iff_of_true (.sent m w nextPoll _ hsend rfl hw) ⟨fun m' hm' => ?_,fun hnone => ?_⟩
        · rw [hsend] at hm'
          cases hm'
          exact ⟨hfits,hcuts,hclock⟩
        · rw [hsend] at hnone
          cases hnone
      · rw [hpoll]
        refine iff_of_false (fun hkept => ?_) (fun hmeets => hno (hmeets.pending m hsend).2)
        cases hkept with
        | panicked _ hsame =>
          rw [hlast,hsend] at hsame
          cases hsame
    · obtain ⟨buffer',hpoll⟩ := poll_full (E := E) repairCount htake (not_le.mp hfits)
      rw [hpoll]
      refine iff_of_false (fun hkept => ?_) (fun hmeets => hfits (hmeets.pending m hsend).1)
      cases hkept with
      | failed _ _ hsame =>
        rw [hsend] at hsame
        cases hsame
  · rw [poll_idle hsend hlater]
    exact iff_of_true (.nothing _ _ hsend hsend) ⟨hno hsend,fun _ hdue => absurd hlater (not_lt.mpr hdue)⟩
  · by_cases hfits : (toBytes hello).length ≤ buffer.length
    · have hmeets : Pollable st now peerCount channelIds client buffer := by
        refine ⟨hno hsend,fun _ _ _ hello' h => ?_⟩
        rw [hhello] at h
        cases h
        exact hfits
      refine iff_of_true ?_ hmeets
      rcases poll_sends (E := E) repairCount htake hfits with ⟨_,_,w,nextPoll,buffer',_,_,hpoll⟩ | ⟨_,last,hlast,hpoll⟩
      · rw [hpoll]
        exact .nothing _ _ hsend hsend
      · rw [hpoll]
        exact .panicked _ hlast
    · obtain ⟨buffer',hpoll⟩ := poll_full (E := E) repairCount htake (not_le.mp hfits)
      have hclock := nextHello.isLt
      rw [hpoll]
      refine iff_of_false (fun hkept => ?_)
        (fun hmeets => hfits (hmeets.hello hsend hdue (by omega) hello hhello))
      cases hkept with
      | failed _ _ _ htimer =>
        have hmoved : nextHello.val = st.nextHello.val := congrArg Fin.val htimer
        have hle : st.nextHello.val ≤ now.val := hdue
        omega
  · rw [poll_panic htake]
    refine iff_of_true (.panicked _ (hlast.trans hsend.symm)) ⟨hno hsend,fun _ _ hclock hello h => ?_⟩
    rw [hstuck hclock] at h
    cases h

omit [Raptorq E D] [Postcard (NetworkProtocol maxChannels maxNodes maxResponse)] in
theorem takeMessage_keeps {mtu : U16} {helloDuration : U64} :
    Call.Keeps (fun st : WireState maxChannels maxNodes maxResponse A D =>
        st.mtu = mtu ∧ st.helloDuration = helloDuration) (takeMessage now peerCount channelIds client) := by
  intro st hst
  unfold takeMessage
  split
  · exact hst
  · split_ifs
    · exact hst
    · split <;> exact hst

/-- A poll does not change the settings of the radio. -/
theorem poll_keeps {mtu : U16} {helloDuration : U64} :
    Call.Keeps (fun s : WireState maxChannels maxNodes maxResponse A D × Bytes =>
        s.1.mtu = mtu ∧ s.1.helloDuration = helloDuration)
      (poll now peerCount channelIds repairCount client : Call _ WireError (PollResult E)) := by
  refine (takeMessage_keeps.field (fun _ hs => hs) (fun _ _ _ hst => hst)).bind (fun maybeMessage => ?_)
  cases maybeMessage with
  | none => exact (Call.keeps_read _).bind (fun _ => (Call.keeps_lift _).bind (fun _ => Call.keeps_pure _))
  | some m =>
    refine Call.Keeps.bind ?_ (fun wrote => (Call.keeps_read _).bind (fun st => (Call.keeps_lift _).bind (fun w => ?_)))
    · exact Call.Keeps.field (J := fun _ => True) (fun _ _ => trivial) (fun _ _ => trivial) (fun _ _ hs _ => hs)
    · exact Call.Keeps.bind (fun _ hs => hs) (fun _ => (Call.keeps_lift _).bind (fun _ => Call.keeps_pure _))

omit [Raptorq E D] [Postcard (NetworkProtocol maxChannels maxNodes maxResponse)] in
/-- The request that a packet has placed, where nothing waited before. -/
def placedBy (st st' : WireState maxChannels maxNodes maxResponse A D) :
    List (NetworkProtocol maxChannels maxNodes maxResponse) :=
  if st.toSend.isNone then st'.toSend.toList else []

omit [Raptorq E D] [Postcard (NetworkProtocol maxChannels maxNodes maxResponse)] in
/-- The message that waited before a poll, with the writer that the poll has returned. -/
def sentBy (st : WireState maxChannels maxNodes maxResponse A D) (result : Outcome WireError (PollResult E)) :
    List (NetworkProtocol maxChannels maxNodes maxResponse × WireWriter E) :=
  match st.toSend,result with
  | some m,.ok ⟨_,some writer⟩ => [(m,writer)]
  | _,_ => []

end WireState

section Runs

variable [DecidableEq A] [Target] [Raptorq E D] [Postcard (NetworkProtocol maxChannels maxNodes maxResponse)]

variable (slabSize E C P S) in
/-- The states after packets and polls in any order, each with a client of its own. -/
inductive WireState.Reachable : WireState maxChannels maxNodes maxResponse A D → Prop
  | new (mtu : U16) : Reachable (WireState.new mtu)
  | receive (st : WireState maxChannels maxNodes maxResponse A D) (data : Bytes) (sender : A)
      (client : Client maxChannels maxNodes slabSize C P S) (h : Reachable st) :
      Reachable (WireState.receivePacket data sender client st).2
  | poll (st : WireState maxChannels maxNodes maxResponse A D) (now : U64) (peerCount : UInt8)
      (channelIds : List ChannelId) (repairCount : Nat) (client : Client maxChannels maxNodes slabSize C P S)
      (buffer : Bytes) (h : Reachable st) :
      Reachable (WireState.poll now peerCount channelIds repairCount client (st,buffer) :
        Outcome WireError (PollResult E) × _).2.1

theorem WireState.Reachable.duration {st : WireState maxChannels maxNodes maxResponse A D}
    (h : st.Reachable slabSize E C P S) : st.helloDuration = 5000 := by
  induction h with
  | new mtu => rfl
  | receive st data sender client h ih => exact receivePacket_received.helloDuration.trans ih
  | poll st now peerCount channelIds repairCount client buffer h ih => exact (poll_keeps (st,buffer) ⟨rfl,ih⟩).2

variable (slabSize E C P S) in
/-- The states after packets and polls in any order, each with a client of its own, with the requests that the packets
have placed and the ones that the polls have returned. Each poll can send. -/
inductive Polled : WireState maxChannels maxNodes maxResponse A D →
    List (NetworkProtocol maxChannels maxNodes maxResponse) →
      List (NetworkProtocol maxChannels maxNodes maxResponse × WireWriter E) → Prop
  | new (mtu : U16) : Polled (WireState.new mtu) [] []
  | receive (st : WireState maxChannels maxNodes maxResponse A D)
      (placed : List (NetworkProtocol maxChannels maxNodes maxResponse))
      (sent : List (NetworkProtocol maxChannels maxNodes maxResponse × WireWriter E)) (data : Bytes) (sender : A)
      (client : Client maxChannels maxNodes slabSize C P S) (h : Polled st placed sent) :
      Polled (WireState.receivePacket data sender client st).2
        (placed ++ st.placedBy (WireState.receivePacket data sender client st).2) sent
  | poll (st : WireState maxChannels maxNodes maxResponse A D)
      (placed : List (NetworkProtocol maxChannels maxNodes maxResponse))
      (sent : List (NetworkProtocol maxChannels maxNodes maxResponse × WireWriter E)) (now : U64) (peerCount : UInt8)
      (channelIds : List ChannelId) (repairCount : Nat) (client : Client maxChannels maxNodes slabSize C P S)
      (buffer : Bytes) (h : Polled st placed sent) (hmeets : st.Pollable now peerCount channelIds client buffer) :
      Polled (WireState.poll now peerCount channelIds repairCount client (st,buffer) :
          Outcome WireError (PollResult E) × _).2.1 placed
        (sent ++ st.sentBy (WireState.poll now peerCount channelIds repairCount client (st,buffer)).1)

variable {st : WireState maxChannels maxNodes maxResponse A D}
  {placed : List (NetworkProtocol maxChannels maxNodes maxResponse)}
  {sent : List (NetworkProtocol maxChannels maxNodes maxResponse × WireWriter E)}

theorem Polled.reachable (h : Polled slabSize E C P S st placed sent) : st.Reachable slabSize E C P S := by
  induction h with
  | new mtu => exact .new mtu
  | receive st placed sent data sender client h ih => exact .receive st data sender client ih
  | poll st placed sent now peerCount channelIds repairCount client buffer h hmeets ih =>
    exact .poll st now peerCount channelIds repairCount client buffer ih

/-- The state with the requests placed and sent up to it. -/
structure Accounted (st : WireState maxChannels maxNodes maxResponse A D)
    (placed : List (NetworkProtocol maxChannels maxNodes maxResponse))
    (sent : List (NetworkProtocol maxChannels maxNodes maxResponse × WireWriter E)) : Prop where
  all : placed = sent.map Prod.fst ++ st.toSend.toList
  requests : ∀ m ∈ placed, ∃ request : SyncRequest maxNodes, m = .syncRequest request
  writers : ∀ p ∈ sent, ∃ number repairCount, WireWriter.new D number st.mtu (toBytes p.1) repairCount = .ok p.2

omit [DecidableEq A] [Target] in
theorem Accounted.receive {st' : WireState maxChannels maxNodes maxResponse A D} (h : Accounted st placed sent)
    (hreceived : st.Received st') : Accounted st' (placed ++ st.placedBy st') sent := by
  rcases hreceived.toSend with hsame | ⟨hnone,request,hplaced⟩
  · have hnew : st.placedBy st' = [] := by
      rw [WireState.placedBy,hsame]
      cases st.toSend <;> rfl
    rw [hnew,List.append_nil]
    exact ⟨by rw [hsame,←h.all],h.requests,by rw [hreceived.mtu]; exact h.writers⟩
  · have hnew : st.placedBy st' = [.syncRequest request] := by
      rw [WireState.placedBy,hnone,hplaced]
      rfl
    have hall := h.all
    rw [hnone,Option.toList_none,List.append_nil] at hall
    rw [hnew]
    refine ⟨by rw [hplaced,hall]; rfl,fun m hm => ?_,by rw [hreceived.mtu]; exact h.writers⟩
    rcases List.mem_append.mp hm with hm | hm
    · exact h.requests m hm
    · exact ⟨request,List.mem_singleton.mp hm⟩

omit [DecidableEq A] [Target] in
theorem Accounted.poll {st' : WireState maxChannels maxNodes maxResponse A D} {repairCount : Nat}
    {result : Outcome WireError (PollResult E)} (h : Accounted st placed sent) (hmtu : st'.mtu = st.mtu)
    (hkept : st.PollKept repairCount result st') : Accounted st' placed (sent ++ st.sentBy result) := by
  have hsame : st'.toSend = st.toSend → st.sentBy result = [] → Accounted st' placed (sent ++ st.sentBy result) := by
    intro hsend hnone
    rw [hnone,List.append_nil]
    exact ⟨by rw [hsend,←h.all],h.requests,by rw [hmtu]; exact h.writers⟩
  cases hkept with
  | sent m w nextPoll _ hpending htaken hwriter =>
    have hnew : st.sentBy (.ok ⟨nextPoll,some w⟩) = [(m,w)] := by simp only [WireState.sentBy,hpending]
    have hall := h.all
    rw [hpending] at hall
    rw [hnew]
    refine ⟨?_,h.requests,fun p hp => ?_⟩
    · rw [hall,htaken,List.map_append]
      simp
    · rw [hmtu]
      rcases List.mem_append.mp hp with hp | hp
      · exact h.writers p hp
      · rw [List.mem_singleton.mp hp]
        exact ⟨_,_,hwriter⟩
  | nothing result _ hnone hempty => exact hsame (hempty.trans hnone.symm) (by simp only [WireState.sentBy,hnone])
  | failed e _ hsend _ _ => exact hsame hsend (by cases hsend' : st.toSend <;> simp only [WireState.sentBy,hsend'])
  | panicked _ hsend => exact hsame hsend (by cases hsend' : st.toSend <;> simp only [WireState.sentBy,hsend'])

/-- Where every poll can send, the requests placed are the ones sent, each by one poll and in a writer of its own, and
the one that waits; and a poll loses nothing exactly where it can send. -/
theorem Polled.no_request_lost (h : Polled slabSize E C P S st placed sent) :
    placed = sent.map Prod.fst ++ st.toSend.toList ∧
    (∀ m ∈ placed, ∃ request : SyncRequest maxNodes, m = .syncRequest request) ∧
    (∀ p ∈ sent, ∃ number repairCount, WireWriter.new D number st.mtu (toBytes p.1) repairCount = .ok p.2) ∧
    ∀ (now : U64) (peerCount : UInt8) (channelIds : List ChannelId) (repairCount : Nat)
      (client : Client maxChannels maxNodes slabSize C P S) (buffer : Bytes), st.PollKept repairCount
        (WireState.poll now peerCount channelIds repairCount client (st,buffer) :
          Outcome WireError (PollResult E) × _).1
        (WireState.poll now peerCount channelIds repairCount client (st,buffer) :
          Outcome WireError (PollResult E) × _).2.1 ↔ st.Pollable now peerCount channelIds client buffer := by
  have hduration : ∀ {st : WireState maxChannels maxNodes maxResponse A D} {placed sent},
      Polled slabSize E C P S st placed sent → 0 < st.helloDuration.val := by
    intro st placed sent h
    rw [h.reachable.duration]
    decide
  have haccounted : Accounted st placed sent := by
    induction h with
    | new mtu => exact ⟨rfl,by simp,by simp⟩
    | receive st placed sent data sender client h ih => exact ih.receive WireState.receivePacket_received
    | poll st placed sent now peerCount channelIds repairCount client buffer h hmeets ih =>
      exact ih.poll (WireState.poll_keeps (st,buffer) ⟨rfl,rfl⟩).1 ((WireState.poll_kept_iff (hduration h)).mpr hmeets)
  exact ⟨haccounted.all,haccounted.requests,haccounted.writers,fun now peerCount channelIds repairCount client buffer =>
    WireState.poll_kept_iff (hduration h)⟩

end Runs

section Greeted

open PlainCrypto

/-- The channels of a device that holds the chat. -/
def chatInfos : HVec ChannelInfo 2 := ⟨[⟨chatId 1,0⟩],by decide⟩

def knownHello : NetworkProtocol 2 2 64 := .hello (nodeOf 2) 1 chatInfos

/-- The packet that holds it. -/
def knownHelloPacket : Bytes := packetOf 0 (toBytes knownHello)

/-- The radio with a request for the channel of the owner. -/
def greeted : WireState 2 2 64 Nat BlockDecoder := (WireState.receivePacket knownHelloPacket 7 owner radio).2

/-- A poll with a buffer of some bytes. -/
def greetedPoll (room : Nat) : Outcome WireError (PollResult PlainPacket) × WireState 2 2 64 Nat BlockDecoder × Bytes :=
  WireState.poll 0 1 [] 0 owner (greeted,List.replicate room 0)

theorem greeted_polled : Polled 256 PlainPacket PlainCrypto U64 U64 greeted (radio.placedBy greeted) [] := by
  have hnew : Polled 256 PlainPacket PlainCrypto U64 U64 radio [] [] := .new 250
  have hreceived := Polled.receive radio [] [] knownHelloPacket 7 owner hnew
  rwa [List.nil_append,←greeted] at hreceived

theorem greeted_pending {q : NetworkProtocol 2 2 64 → Prop} [DecidablePred q]
    (hq : (greeted.toSend.all fun m => decide (q m)) = true) : ∀ m, greeted.toSend = some m → q m := by
  intro m hm
  rw [hm] at hq
  simpa using hq

/-- The request is gone after a poll with too short a buffer. -/
theorem request_lost : Polled 256 PlainPacket PlainCrypto U64 U64 greeted (radio.placedBy greeted) [] ∧
    greeted.toSend.isSome = true ∧ (greetedPoll 0).1 = .err (.deserializeError .serializeBufferFull) ∧
    (greetedPoll 0).2.1.toSend = none ∧ ¬greeted.PollKept 0 (greetedPoll 0).1 (greetedPoll 0).2.1 := by
  have hsome : greeted.toSend.isSome = true := by decide +kernel
  obtain ⟨m,hm⟩ := Option.isSome_iff_exists.mp hsome
  have hlong : ([] : Bytes).length < (toBytes m).length :=
    greeted_pending (q := fun m => ([] : Bytes).length < (toBytes m).length) (by decide +kernel) m hm
  obtain ⟨buffer,hpoll⟩ := WireState.poll_full (E := PlainPacket) 0 (WireState.takeMessage_pending hm) hlong
  have hlost : greetedPoll 0 = _ := hpoll
  rw [hlost]
  refine ⟨greeted_polled,hsome,rfl,rfl,fun hkept => ?_⟩
  cases hkept with
  | failed _ _ hsame =>
    rw [hm] at hsame
    cases hsame

/-- With room for it the request is returned. -/
theorem no_request_lost_greeted : (greeted.sentBy (greetedPoll 200).1).length = 1 ∧
    radio.placedBy greeted =
      (greeted.sentBy (greetedPoll 200).1).map Prod.fst ++ (greetedPoll 200).2.1.toSend.toList := by
  have hmeets : greeted.Pollable 0 1 [] owner (List.replicate 200 0) := by
    have hmtu : greeted.mtu = 250 := by decide +kernel
    have hlength := greeted_pending (q := fun m => 0 < (toBytes m).length ∧ (toBytes m).length ≤ 200) (by decide +kernel)
    refine ⟨fun m hm => ⟨(hlength m hm).2,?_,by decide +kernel⟩,fun hnone => ?_⟩
    · rw [hmtu]
      exact .of_codable ⟨(hlength m hm).1,(hlength m hm).2.trans_lt (by decide),by decide⟩
    have hsome : greeted.toSend.isSome = true := by decide +kernel
    rw [hnone] at hsome
    cases hsome
  have hkept := (Polled.poll greeted _ [] 0 1 [] 0 owner (List.replicate 200 0) greeted_polled hmeets).no_request_lost.1
  rw [List.nil_append,←greetedPoll] at hkept
  exact ⟨by decide +kernel,hkept⟩

end Greeted

end Finder
