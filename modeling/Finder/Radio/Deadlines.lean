import Finder.Radio.Polling

namespace Finder

variable {maxChannels maxNodes maxResponse slabSize : Nat} {A E D C P S : Type}

/-- What a caller can take `next_poll` for: a time, or how long to wait. -/
inductive Reading where
  | absolute
  | wait
  deriving DecidableEq

/-- When to poll again, after a poll at some time. -/
def Reading.deadline (now nextPoll : U64) : Reading → Nat
  | .absolute => nextPoll.val
  | .wait => now.val+nextPoll.val

/-- The time that `next_poll` stands for in this reading is when the next hello is due. -/
def Reading.Holds (st : WireState maxChannels maxNodes maxResponse A D) (now : U64) : Reading → Prop
  | .absolute =>
    if st.toSend.isSome then st.nextHello.val = now.val+st.helloDuration.val else st.nextHello ≤ now ∨ now.val = 0
  | .wait =>
    if st.toSend.isSome then st.nextHello.val = now.val+(now.val+st.helloDuration.val)
    else now < st.nextHello ∨ now.val = 0

namespace WireState

variable {st st' : WireState maxChannels maxNodes maxResponse A D} {now : U64} {peerCount : UInt8}
  {channelIds : List ChannelId} {repairCount : Nat} {client : Client maxChannels maxNodes slabSize C P S}
  {buffer buffer' : Bytes} {result : PollResult E} {deadline : Nat}
  [Raptorq E D] [Postcard (NetworkProtocol maxChannels maxNodes maxResponse)]

/-- A poll that returns: nothing is to be sent, or a hello is due and moves the timer, or a message waits and does
not. -/
theorem poll_ok_cases (h : poll now peerCount channelIds repairCount client (st,buffer) = (.ok result,(st',buffer'))) :
    st'.toSend = none ∧ st'.helloDuration = st.helloDuration ∧
    ((st.toSend = none ∧ now < st.nextHello ∧ result.writer = none ∧ st'.nextHello = st.nextHello ∧
      result.nextPoll.val = st.nextHello.val-now.val) ∨
    (result.writer.isSome ∧ result.nextPoll.val = st.helloDuration.val+now.val ∧
      ((st.toSend = none ∧ st.nextHello ≤ now ∧ st'.nextHello.val = now.val+st.helloDuration.val) ∨
        (st.toSend.isSome ∧ st'.nextHello = st.nextHello)))) := by
  have hwrites : ∀ m (st1 : WireState maxChannels maxNodes maxResponse A D),
      takeMessage now peerCount channelIds client st = (.ok (some m),st1) →
        result.writer.isSome ∧ result.nextPoll.val = st1.helloDuration.val+now.val ∧ st'.toSend = st1.toSend ∧
          st'.nextHello = st1.nextHello ∧ st'.helloDuration = st1.helloDuration := by
    intro m st1 htake
    by_cases hfits : (toBytes m).length ≤ buffer.length
    · rcases poll_sends (E := E) repairCount htake hfits with
        ⟨_,_,w,nextPoll,buffer1,_,hnext,hpoll⟩ | ⟨_,last,_,hpoll⟩
      · rw [h] at hpoll
        cases hpoll
        exact ⟨rfl,hnext,rfl,rfl,rfl⟩
      · rw [h] at hpoll
        cases hpoll
    · obtain ⟨buffer1,hpoll⟩ := poll_full (E := E) repairCount htake (not_le.mp hfits)
      rw [h] at hpoll
      cases hpoll
  rcases takeMessage_cases now peerCount channelIds client st with ⟨m,hsend,htake⟩ | ⟨hsend,hlater,_⟩ |
    ⟨hsend,hdue,nextHello,hello,hnext,_,htake⟩ | ⟨_,_,last,_,_,htake⟩
  · obtain ⟨hwriter,hpoll,htaken,htimer,hduration⟩ := hwrites m _ htake
    exact ⟨htaken,hduration,Or.inr ⟨hwriter,hpoll,Or.inr ⟨by rw [hsend]; rfl,htimer⟩⟩⟩
  · rw [poll_idle hsend hlater] at h
    cases h
    exact ⟨hsend,rfl,Or.inl ⟨hsend,hlater,rfl,rfl,rfl⟩⟩
  · obtain ⟨hwriter,hpoll,htaken,htimer,hduration⟩ := hwrites hello _ htake
    exact ⟨htaken.trans hsend,hduration,Or.inr ⟨hwriter,hpoll,Or.inl ⟨hsend,hdue,by rw [htimer,hnext]⟩⟩⟩
  · rw [poll_panic htake] at h
    cases h

variable (slabSize E C P S) in
/-- After a poll at some time, and with no packet behind it, no poll before the deadline has anything to send, and one
at the deadline has: it returns where the hello of a valid list has room. -/
structure Sound (st : WireState maxChannels maxNodes maxResponse A D) (now : U64) (deadline : Nat) : Prop where
  quiet : ∀ (t : U64) (peerCount : UInt8) (channelIds : List ChannelId) (repairCount : Nat)
    (client : Client maxChannels maxNodes slabSize C P S) (buffer : Bytes), now < t → t.val < deadline →
      ∃ result : PollResult E, result.writer = none ∧
        poll t peerCount channelIds repairCount client (st,buffer) = (.ok result,(st,buffer))
  wakes : ∀ (t : U64) (peerCount : UInt8) (channelIds : List ChannelId) (repairCount : Nat)
    (client : Client maxChannels maxNodes slabSize C P S) (buffer : Bytes), t.val = deadline →
      ∀ (result : PollResult E) (last : WireState maxChannels maxNodes maxResponse A D × Bytes),
        poll t peerCount channelIds repairCount client (st,buffer) = (.ok result,last) → result.writer.isSome
  returns : ∀ (t : U64) (peerCount : UInt8) (channelIds : List ChannelId) (repairCount : Nat)
    (client : Client maxChannels maxNodes slabSize C P S) (buffer : Bytes)
    (hello : NetworkProtocol maxChannels maxNodes maxResponse), t.val = deadline →
      makeHello peerCount channelIds client = .ok hello → (toBytes hello).length ≤ buffer.length →
        WireWriter.Cuts D st.mtu (toBytes hello) → st.helloDuration.val+t.val < 2^64 →
          ∃ (result : PollResult E) (last : WireState maxChannels maxNodes maxResponse A D × Bytes),
            poll t peerCount channelIds repairCount client (st,buffer) = (.ok result,last)

theorem poll_due_writes (hdue : st.nextHello ≤ now)
    (hpoll : poll now peerCount channelIds repairCount client (st,buffer) = (.ok result,(st',buffer'))) :
    result.writer.isSome := by
  obtain ⟨_,_,⟨_,hlater,_⟩ | ⟨hwriter,_⟩⟩ := poll_ok_cases hpoll
  · exact absurd hlater (not_lt.mpr hdue)
  · exact hwriter

/-- A hello of a valid list that has room is sent when it is due. -/
theorem poll_due_returns {hello : NetworkProtocol maxChannels maxNodes maxResponse} (repairCount : Nat)
    (h : st.toSend = none) (hdue : st.nextHello ≤ now) (hhello : makeHello peerCount channelIds client = .ok hello)
    (hfits : (toBytes hello).length ≤ buffer.length) (hcuts : WireWriter.Cuts D st.mtu (toBytes hello))
    (hclock : st.helloDuration.val+now.val < 2^64) :
    ∃ (result : PollResult E) (last : WireState maxChannels maxNodes maxResponse A D × Bytes),
      poll now peerCount channelIds repairCount client (st,buffer) = (.ok result,last) := by
  have htake : takeMessage now peerCount channelIds client st =
      (_,{ st with nextHello := ⟨now.val+st.helloDuration.val,by omega⟩ }) := takeMessage_due h hdue rfl
  rw [hhello] at htake
  rcases poll_sends (E := E) repairCount htake hfits with ⟨_,_,w,nextPoll,buffer1,_,_,hpoll⟩ | ⟨hno,_⟩
  · exact ⟨_,_,hpoll⟩
  · exact absurd ⟨hcuts,hclock⟩ hno

/-- Where nothing waits to be sent a deadline is sound exactly where it is the time of the next hello. -/
theorem sound_iff (client : Client maxChannels maxNodes slabSize C P S) (h : st.toSend = none)
    (hnow : now < st.nextHello ∨ (now.val+1 < deadline ∧ now.val+1 < 2^64)) :
    st.Sound slabSize E C P S now deadline ↔ deadline = st.nextHello.val := by
  constructor
  · intro hsound
    rcases lt_trichotomy deadline st.nextHello.val with hearly | hsame | hlate
    · have hlater : (⟨deadline,by omega⟩ : U64) < st.nextHello := hearly
      have hwriter := hsound.wakes ⟨deadline,by omega⟩ 0 [] 0 client [] rfl _ _ (poll_idle h hlater)
      cases hwriter
    · exact hsame
    · obtain ⟨t,hafter,hbefore,hdue⟩ : ∃ t : U64, now < t ∧ t.val < deadline ∧ st.nextHello ≤ t := by
        by_cases hlater : now < st.nextHello
        · exact ⟨st.nextHello,hlater,hlate,le_refl _⟩
        · obtain ⟨hone,hclock⟩ := hnow.resolve_left hlater
          have hpast : st.nextHello.val ≤ now.val := not_lt.mp hlater
          refine ⟨⟨now.val+1,hclock⟩,?_,hone,?_⟩
          · exact Fin.lt_def.mpr (Nat.lt_succ_self now.val)
          · exact Fin.le_def.mpr (Nat.le_succ_of_le hpast)
      obtain ⟨result,hnone,hpoll⟩ := hsound.quiet t 0 [] 0 client [] hafter hbefore
      have hwriter := poll_due_writes hdue hpoll
      rw [hnone] at hwriter
      cases hwriter
  · rintro rfl
    refine ⟨fun t peerCount channelIds repairCount client buffer _ hbefore => ?_,
      fun t peerCount channelIds repairCount client buffer ht result last hpoll => ?_,
      fun t peerCount channelIds repairCount client buffer hello ht hhello hfits hcuts hclock => ?_⟩
    · exact ⟨_,rfl,poll_idle h hbefore⟩
    · exact poll_due_writes (le_of_eq (Fin.ext ht.symm)) hpoll
    · exact poll_due_returns repairCount h (le_of_eq (Fin.ext ht.symm)) hhello hfits hcuts hclock

/-- In either reading `next_poll` is a sound deadline exactly where it stands for the time of the next hello. -/
theorem Reachable.next_poll_sound_iff [DecidableEq A] [Target] (h : st.Reachable slabSize E C P S) (reading : Reading)
    (hpoll : WireState.poll now peerCount channelIds repairCount client (st,buffer) = (.ok result,(st',buffer'))) :
    st'.Sound slabSize E C P S now (reading.deadline now result.nextPoll) ↔ reading.Holds st now := by
  have hduration : st.helloDuration.val = 5000 := by
    rw [h.duration]
    rfl
  obtain ⟨hnone,_,hcases⟩ := poll_ok_cases hpoll
  have hlast := result.nextPoll.isLt
  rcases hcases with ⟨hsend,hlater,_,htimer,hnext⟩ | ⟨_,hnext,⟨hsend,hdue,htimer⟩ | ⟨hsend,htimer⟩⟩
  · have hlater' : now < st'.nextHello := by rwa [htimer]
    have hgap : now.val < st.nextHello.val := hlater
    rw [sound_iff client hnone (Or.inl hlater'),htimer]
    cases reading with
    | absolute =>
      simp only [Reading.deadline,Reading.Holds,hsend,Option.isSome_none,Bool.false_eq_true,if_false,hnext]
      rw [or_iff_right (not_le.mpr hlater)]
      omega
    | wait =>
      simp only [Reading.deadline,Reading.Holds,hsend,Option.isSome_none,Bool.false_eq_true,if_false,hnext]
      exact iff_of_true (by omega) (Or.inl hlater)
  · have hlater : now < st'.nextHello := Fin.lt_def.mpr (by omega)
    rw [sound_iff client hnone (Or.inl hlater),htimer]
    cases reading with
    | absolute =>
      simp only [Reading.deadline,Reading.Holds,hsend,Option.isSome_none,Bool.false_eq_true,if_false,hnext]
      exact iff_of_true (by omega) (Or.inl hdue)
    | wait =>
      simp only [Reading.deadline,Reading.Holds,hsend,Option.isSome_none,Bool.false_eq_true,if_false,hnext]
      rw [or_iff_right (not_lt.mpr hdue)]
      omega
  · have hfar : now.val+1 < reading.deadline now result.nextPoll := by
      cases reading <;> simp only [Reading.deadline,hnext] <;> omega
    rw [sound_iff client hnone (Or.inr ⟨hfar,by omega⟩),htimer]
    cases reading with
    | absolute =>
      simp only [Reading.deadline,Reading.Holds,hsend,if_true,hnext]
      omega
    | wait =>
      simp only [Reading.deadline,Reading.Holds,hsend,if_true,hnext]
      omega

end WireState

section Radio

open PlainCrypto

def ownerHello : NetworkProtocol 2 2 64 := .hello owner.nodeId 1 HVec.empty

/-- The first poll of the radio has a hello to send. -/
theorem radio_polled : ∃ (result : PollResult PlainPacket) (last : WireState 2 2 64 Nat BlockDecoder × Bytes),
    WireState.poll 1 1 [] 0 owner (radio,List.replicate 200 0) = (.ok result,last) := by
  have hhello : (WireState.makeHello 1 [] owner : Outcome WireError (NetworkProtocol 2 2 64)) = .ok ownerHello := rfl
  exact WireState.poll_due_returns 0 rfl (by decide) hhello (by decide +kernel)
    (.of_codable ⟨by decide +kernel,by decide +kernel,by decide⟩) (by decide)

theorem next_poll_sound_radio :
    ∃ (result : PollResult PlainPacket) (last : WireState 2 2 64 Nat BlockDecoder × Bytes),
      WireState.poll 1 1 [] 0 owner (radio,List.replicate 200 0) = (.ok result,last) ∧
      (last.1.Sound 256 PlainPacket PlainCrypto U64 U64 1 (Reading.absolute.deadline 1 result.nextPoll) ↔
        Reading.absolute.Holds radio 1) := by
  obtain ⟨result,last,hpoll⟩ := radio_polled
  have hreachable : radio.Reachable 256 PlainPacket PlainCrypto U64 U64 := .new 250
  exact ⟨result,last,hpoll,hreachable.next_poll_sound_iff .absolute hpoll⟩

/-- A hello at time 1 returns the time of the next one, and a poll at time 2 how long there is to wait. -/
theorem no_reading_sound : ¬∃ reading : Reading, ∀ (st st' : WireState 2 2 64 Nat BlockDecoder) (now : U64)
    (result : PollResult PlainPacket) (buffer buffer' : Bytes), st.Reachable 256 PlainPacket PlainCrypto U64 U64 →
      now.val+st.helloDuration.val < 2^64 →
      WireState.poll now 1 [] 0 owner (st,buffer) = (.ok result,(st',buffer')) →
      st'.Sound 256 PlainPacket PlainCrypto U64 U64 now (reading.deadline now result.nextPoll) := by
  rintro ⟨reading,hall⟩
  have hreachable : radio.Reachable 256 PlainPacket PlainCrypto U64 U64 := .new 250
  obtain ⟨result,⟨st,buffer⟩,hpoll⟩ := radio_polled
  obtain ⟨hnone,hduration,⟨_,hlater,_⟩ | ⟨_,hnext,⟨_,_,htimer⟩ | ⟨hsend,_⟩⟩⟩ := WireState.poll_ok_cases hpoll
  · exact absurd hlater (by decide)
  · have htime : st.nextHello.val = 5001 := htimer
    have hfirst : result.nextPoll.val = 5001 := hnext
    cases reading with
    | wait =>
      have hsound := hall radio st 1 result _ buffer hreachable (by decide) hpoll
      have hsame := (WireState.sound_iff owner hnone (Or.inl (Fin.lt_def.mpr (by rw [htime]; decide)))).mp hsound
      rw [Reading.deadline,hfirst,htime] at hsame
      cases hsame
    | absolute =>
      have hsecond : st.Reachable 256 PlainPacket PlainCrypto U64 U64 := by
        have hstep := WireState.Reachable.poll radio 1 1 [] 0 owner (List.replicate 200 0) hreachable
        rwa [hpoll] at hstep
      have hlater : (2 : U64) < st.nextHello := Fin.lt_def.mpr (by rw [htime]; decide)
      have hsound := hall st st 2 _ [] [] hsecond (by rw [hduration]; decide) (WireState.poll_idle hnone hlater)
      have hsame := (WireState.sound_iff owner hnone (Or.inl hlater)).mp hsound
      have hwait : st.nextHello.val-2 = st.nextHello.val := hsame
      omega
  · cases hsend

end Radio

end Finder
