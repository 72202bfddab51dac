import Finder.Client.History
import Finder.Client.Ownership
import Finder.Storage.RoundTrip
import Finder.Sync.Framing
import Mathlib.Data.List.TakeWhile

namespace Finder

variable {maxChannels maxNodes slabSize : Nat} {C P S : Type}

section Run

variable [Target] [Postcard Record] {st : Storage slabSize} {cursor last : Cursor} {ds es sent : List Bytes}

/-- Reading on from a cursor gives these records and leads to another cursor. -/
inductive ReadsTo (st : Storage slabSize) : Cursor → List Bytes → Cursor → Prop
  | here (cursor : Cursor) : ReadsTo st cursor [] cursor
  | next (cursor next last : Cursor) (data : Bytes) (rest : List Bytes)
      (h : st.read cursor = .ok (some (data,next))) (hrest : ReadsTo st next rest last) :
      ReadsTo st cursor (data::rest) last

/-- Of two runs from one cursor the shorter one is where the longer one begins. -/
theorem ReadsTo.comparable {last' : Cursor} (h : ReadsTo st cursor ds last) (h' : ReadsTo st cursor es last') :
    ds <+: es ∨ es <+: ds := by
  induction h generalizing es with
  | here cursor => exact Or.inl List.nil_prefix
  | next cursor next last data rest hread _ ih =>
    cases h' with
    | here cursor => exact Or.inr List.nil_prefix
    | next cursor next' last' data' rest' hread' hrest' =>
      rw [hread] at hread'
      cases hread'
      rcases ih hrest' with hle | hle
      · exact Or.inl (List.cons_prefix_cons.mpr ⟨rfl,hle⟩)
      · exact Or.inr (List.cons_prefix_cons.mpr ⟨rfl,hle⟩)

/-- A run that goes beyond another one begins with a record behind it. -/
theorem ReadsTo.beyond {last' : Cursor} (h : ReadsTo st cursor ds last) (h' : ReadsTo st cursor es last')
    (hlonger : ds.length < es.length) :
    ∃ data next rest, st.read last = .ok (some (data,next)) ∧ es = ds ++ data::rest := by
  induction h generalizing es with
  | here cursor =>
    cases h' with
    | here cursor => simp at hlonger
    | next cursor next last' data rest hread hrest => exact ⟨data,next,rest,hread,rfl⟩
  | next cursor next last data rest hread _ ih =>
    cases h' with
    | here cursor => simp at hlonger
    | next cursor next' last' data' rest' hread' hrest' =>
      rw [hread] at hread'
      cases hread'
      obtain ⟨data'',next'',rest'',hlater,hes⟩ := ih hrest' (by simpa using hlonger)
      exact ⟨data'',next'',rest'',hlater,by rw [hes]; rfl⟩

theorem Reads.begins (h : Reads st cursor ds) (hrun : ReadsTo st cursor es last) : es <+: ds := by
  induction hrun generalizing ds with
  | here cursor => exact List.nil_prefix
  | next cursor next last data rest hread _ ih =>
    obtain ⟨rest',rfl,hrest'⟩ := h.after_read hread
    exact List.cons_prefix_cons.mpr ⟨rfl,ih hrest'⟩

theorem Reads.readsTo (h : Reads st cursor ds) (hes : es <+: ds) : ∃ last, ReadsTo st cursor es last := by
  induction h generalizing es with
  | stop cursor hstop =>
    rw [List.prefix_nil.mp hes]
    exact ⟨cursor,.here cursor⟩
  | next cursor next data rest hread _ ih =>
    cases es with
    | nil => exact ⟨cursor,.here cursor⟩
    | cons e es =>
      obtain ⟨rfl,hrest⟩ := List.cons_prefix_cons.mp hes
      obtain ⟨last,hlast⟩ := ih hrest
      exact ⟨last,.next cursor next last e es hread hlast⟩

theorem Reads.unique (h : Reads st cursor ds) (h' : Reads st cursor es) : ds = es := by
  obtain ⟨_,hds⟩ := h.readsTo (List.prefix_refl ds)
  obtain ⟨_,hes⟩ := h'.readsTo (List.prefix_refl es)
  exact (h'.begins hds).eq_of_length_le (h.begins hes).length_le

/-- The records from a cursor on that fit in a buffer as frames, as many as there are. -/
structure LongestRun (st : Storage slabSize) (cursor : Cursor) (room : Nat) (sent : List Bytes) : Prop where
  run : ∃ last, ReadsTo st cursor sent last
  fits : (sendFrames sent).length ≤ room
  longest : ∀ es last, ReadsTo st cursor es last → (sendFrames es).length ≤ room → es <+: sent

/-- A run is the longest one where the next record, if there is one, has no room. -/
theorem LongestRun.of_full {room : Nat} (hrun : ReadsTo st cursor sent last) (hfits : (sendFrames sent).length ≤ room)
    (hfull : ∀ data next, st.read last = .ok (some (data,next)) →
      room-(sendFrames sent).length < data.length+lenSize) : LongestRun st cursor room sent := by
  refine ⟨⟨last,hrun⟩,hfits,fun es last' hes hroom => ?_⟩
  rcases hrun.comparable hes with hle | hle
  · by_cases hlonger : sent.length < es.length
    · obtain ⟨data,next,rest,hread,rfl⟩ := hrun.beyond hes hlonger
      have hno := hfull data next hread
      rw [sendFrames_append,List.length_append,sendFrames_cons_length] at hroom
      omega
    · obtain rfl : sent = es := hle.eq_of_length_le (by omega)
      exact List.prefix_refl sent
  · exact hle

/-- The loop of `fill_send_buffer` that ends has written the longest run. -/
theorem fillFrom_eq_ok {fuel offset count n m : Nat} {buffer filled : Bytes}
    (h : Client.fillFrom st fuel cursor offset count buffer = (.ok (n,m),filled)) (hoffset : offset ≤ buffer.length)
    (hmax : buffer.length ≤ isizeMax) : ∃ sent, LongestRun st cursor (buffer.length-offset) sent ∧
      n = count+sent.length ∧ m = offset+(sendFrames sent).length ∧
      filled = overwrite buffer offset (sendFrames sent) := by
  induction fuel generalizing cursor offset count buffer with
  | zero => cases h
  | succ fuel ih =>
    rcases hread : st.read cursor with (_ | ⟨data,next⟩) | e | _
    · rw [fillFrom_stop hread] at h
      cases h
      refine ⟨[],.of_full (.here cursor) (Nat.zero_le _) (fun data next hnext => ?_),rfl,rfl,by simp⟩
      rw [hread] at hnext
      cases hnext
    · by_cases hfull : buffer.length-offset < data.length+lenSize
      · rw [fillFrom_full hread hfull] at h
        cases h
        refine ⟨[],.of_full (.here cursor) (Nat.zero_le _) (fun data' next' hnext => ?_),rfl,rfl,by simp⟩
        rw [hread] at hnext
        cases hnext
        exact hfull
      · rw [fillFrom_next hread hoffset hmax hfull] at h
        split_ifs at h with hone
        · have hframe := sendFrame_length data
          have hlength : (overwrite buffer offset (sendFrame data)).length = buffer.length :=
            overwrite_length (by omega)
          obtain ⟨sent,⟨⟨last,hrun⟩,hfits,hlongest⟩,rfl,rfl,rfl⟩ := ih h (by omega) (by omega)
          have hsum := sendFrames_cons_length data sent
          rw [hlength] at hfits hlongest
          refine ⟨data::sent,⟨⟨last,.next cursor next last data sent hread hrun⟩,by omega,?_⟩,?_,by omega,?_⟩
          · intro es last' hes hroom
            cases hes with
            | here cursor => exact List.nil_prefix
            | next cursor next' last' data' rest hread' hrest =>
              rw [hread] at hread'
              cases hread'
              rw [sendFrames_cons_length] at hroom
              exact List.cons_prefix_cons.mpr ⟨rfl,hlongest rest last' hrest (by omega)⟩
          · simp only [List.length_cons]
            omega
          · rw [overwrite_append (by omega),sendFrames_cons]
        · cases h
    · rw [Client.fillFrom,Call.bind_err (e := .storageError e) (t := buffer) (by simp [hread])] at h
      cases h
    · rw [Client.fillFrom,Call.bind_panic (t := buffer) (by simp [hread])] at h
      cases h

end Run

section Suffix

variable [Target] [RecordCodec] {st : Storage slabSize} {cursor : Cursor} {sessions : List (List Record)} {n : Nat}

/-- The first record a round looks for and all that follow it. -/
def fromSequence (least : U64) (records : List Record) : List Record :=
  records.dropWhile (fun r => decide (r.maxSequence < least))

/-- The cursor that is found stands before the first record of the sequence. -/
theorem Holds.reads_fromSequence (h : Holds st.io sessions) (hb : st.io.Blank) {least : U64}
    (hcursor : st.getCursorFromSequence least = .ok (some cursor)) :
    Reads st cursor ((fromSequence least sessions.flatten).map Record.data) := by
  have hsplit := List.takeWhile_append_dropWhile (p := fun r : Record => decide (r.maxSequence < least))
    (l := sessions.flatten)
  have hbefore : ∀ x ∈ sessions.flatten.takeWhile (fun r : Record => decide (r.maxSequence < least)),
      decide (x.maxSequence ≥ least) = false := by
    intro x hx
    have hlow := List.mem_takeWhile_imp hx
    simpa using hlow
  cases hrest : sessions.flatten.dropWhile (fun r : Record => decide (r.maxSequence < least)) with
  | nil =>
    -- no record is that far on, so no cursor is found
    rw [hrest,List.append_nil] at hsplit
    have hnone : st.scan (fun record => decide (record.maxSequence ≥ least)) = .ok none := by
      apply h.scan_none hb
      intro x hx
      rw [←hsplit] at hx
      exact hbefore x hx
    rw [Storage.getCursorFromSequence,hnone] at hcursor
    cases hcursor
  | cons r post =>
    have hr : decide (r.maxSequence ≥ least) = true := by
      have hhead := List.head?_dropWhile_not (fun r : Record => decide (r.maxSequence < least)) sessions.flatten
      rw [hrest] at hhead
      simpa using hhead
    rw [hrest] at hsplit
    obtain ⟨cursor',hfound,hreads⟩ := h.scan_found (fun record => decide (record.maxSequence ≥ least))
      hsplit.symm hbefore hr
    rw [Storage.getCursorFromSequence,hfound] at hcursor
    cases hcursor
    rw [fromSequence,hrest]
    exact hreads

end Suffix

namespace Client

variable [Target] [Crypto C P S] [RecordCodec] [Postcard (Message (Protocol P))] [Postcard (ChatEnvelope P)]
  {client : Client maxChannels maxNodes slabSize C P S} {channelId : ChannelId} {ch : Channel maxNodes slabSize C P}
  {state : SyncResponderState maxNodes} {buffer filled : Bytes} {count offset : Nat}

omit [Crypto C P S] [Postcard (Message (Protocol P))] [Postcard (ChatEnvelope P)] in
/-- What `fill_send_buffer` sends is the longest run from its start cursor on. -/
theorem fillSendBuffer_eq_ok (hget : client.channels.get channelId = some ch) (hmax : buffer.length ≤ isizeMax)
    (hfill : client.fillSendBuffer channelId state buffer = (.ok (count,offset),filled)) :
    ∃ least cursor sent, state.getMinSequence = some least ∧
      ch.storage.getCursorFromSequence least = .ok (some cursor) ∧ LongestRun ch.storage cursor buffer.length sent ∧
      count = sent.length ∧ offset = (sendFrames sent).length ∧ filled = overwrite buffer 0 (sendFrames sent) := by
  have hheld : client.channel channelId = .ok ch := by simp [Client.channel,hget]
  unfold fillSendBuffer at hfill
  rw [Call.bind_ok (a := ch) (t := buffer) (by simp [hheld])] at hfill
  obtain ⟨least,_,h1,hrest⟩ := Call.bind_eq_ok.mp hfill
  obtain ⟨hleast,rfl⟩ := Call.lift_eq_ok.mp h1
  obtain ⟨found,_,h2,hrest⟩ := Call.bind_eq_ok.mp hrest
  obtain ⟨hfound,rfl⟩ := Call.lift_eq_ok.mp h2
  obtain ⟨cursor,_,h3,hrest⟩ := Call.bind_eq_ok.mp hrest
  obtain ⟨hcursor,rfl⟩ := Call.lift_eq_ok.mp h3
  rw [Call.bind_ok (a := buffer.length+1) (t := buffer) (by simp)] at hrest
  obtain ⟨sent,hrun,hcount,hoffset,hfilled⟩ := fillFrom_eq_ok hrest (Nat.zero_le _) hmax
  rw [Outcome.okOr_eq_ok.mp hcursor] at hfound
  refine ⟨least,cursor,sent,Outcome.okOr_eq_ok.mp hleast,Outcome.mapErr_eq_ok.mp hfound,hrun,?_,?_,hfilled⟩
  · rw [hcount,Nat.zero_add]
  · rw [hoffset,Nat.zero_add]

omit [RecordCodec] [Crypto C P S] [Postcard (Message (Protocol P))] [Postcard (ChatEnvelope P)] in
/-- From its start cursor on `fill_send_buffer` sends the records there is room for, if they can be counted. -/
theorem fillSendBuffer_reads [Postcard Record] {least : U64} {cursor : Cursor} {ds : List Bytes}
    (hget : client.channels.get channelId = some ch) (hmax : buffer.length ≤ isizeMax)
    (hleast : state.getMinSequence = some least)
    (hcursor : ch.storage.getCursorFromSequence least = .ok (some cursor)) (hreads : Reads ch.storage cursor ds) :
    ((fitting buffer.length ds).length ≤ u32Max → client.fillSendBuffer channelId state buffer =
      (.ok ((fitting buffer.length ds).length,(sendFrames (fitting buffer.length ds)).length),
        overwrite buffer 0 (sendFrames (fitting buffer.length ds)))) ∧
    (u32Max < (fitting buffer.length ds).length → (client.fillSendBuffer channelId state buffer).1 = .panic) := by
  have hheld : client.channel channelId = .ok ch := by simp [Client.channel,hget]
  have hrun : client.fillSendBuffer channelId state buffer =
      fillFrom ch.storage (buffer.length+1) cursor 0 0 buffer := by
    unfold fillSendBuffer
    rw [Call.bind_ok (a := ch) (t := buffer) (by simp [hheld]),
      Call.bind_ok (a := least) (t := buffer) (by simp [hleast,Outcome.okOr]),
      Call.bind_ok (a := some cursor) (t := buffer) (by simp [hcursor]),
      Call.bind_ok (a := cursor) (t := buffer) (by simp [Outcome.okOr]),
      Call.bind_ok (a := buffer.length+1) (t := buffer) (by simp)]
  obtain ⟨hok,hpanic⟩ := fillFrom_reads hreads (Nat.zero_le _) hmax (Nat.zero_le _)
    (show buffer.length-0 < buffer.length+1 by omega)
  simp only [Nat.sub_zero,Nat.zero_add] at hok hpanic
  rw [hrun]
  exact ⟨hok,hpanic⟩

/-- What `fill_send_buffer` writes is the longest run of records from its start cursor on, which the parsing of
`receive_buffer` gets back, and all else in the buffer stays. -/
theorem sync_framing_round_trip (hget : client.channels.get channelId = some ch) (hmax : buffer.length ≤ isizeMax)
    (hfill : client.fillSendBuffer channelId state buffer = (.ok (count,offset),filled)) :
    offset ≤ buffer.length ∧ filled.length = buffer.length ∧ (∀ k, offset ≤ k → filled[k]? = buffer[k]?) ∧
    ∃ least cursor sent, state.getMinSequence = some least ∧
      ch.storage.getCursorFromSequence least = .ok (some cursor) ∧ LongestRun ch.storage cursor buffer.length sent ∧
      ((∀ d ∈ sent, d.length < 2^32) → parseFrames (filled.take offset) count 0 = .ok (sent,offset) ∧
        ∀ receiver : Client maxChannels maxNodes slabSize C P S,
          receiveBuffer channelId (filled.take offset) count receiver = receiveAll channelId sent receiver) ∧
      ∀ n sessions, Written (List.replicate n 0) sessions ch.storage →
        (∀ rs ∈ sessions, ∀ r ∈ rs, (toBytes r).length < 2^32) →
        let log := (fromSequence least sessions.flatten).map Record.data
        sent <+: log ∧ ∀ ds, ds <+: log → (sendFrames ds).length ≤ buffer.length → ds <+: sent := by
  obtain ⟨least,cursor,sent,hleast,hcursor,hrun,rfl,rfl,rfl⟩ := fillSendBuffer_eq_ok hget hmax hfill
  have hfits := hrun.fits
  have hlength : (overwrite buffer 0 (sendFrames sent)).length = buffer.length := overwrite_length (by omega)
  have htaken : (overwrite buffer 0 (sendFrames sent)).take (sendFrames sent).length = sendFrames sent := by
    simp [overwrite]
  refine ⟨hfits,hlength,fun k hk => ?_,least,cursor,sent,hleast,hcursor,hrun,fun hshort => ?_,
    fun n sessions hwritten hshort => ?_⟩
  · rw [overwrite_getElem (by omega),if_neg (by omega)]
  · have hwhole : getRange (sendFrames sent) 0 (0+(sendFrames sent).length) = some (sendFrames sent) := by
      rw [getRange_some_of_le (by omega) (by omega)]
      simp
    have hparsed := parseFrames_sent hwhole (by omega) hshort
    rw [Nat.zero_add] at hparsed
    rw [htaken]
    exact ⟨hparsed,fun receiver => receiveFrames_parsed hparsed receiver⟩
  · obtain ⟨hholds,hblank⟩ := hwritten.holds hshort
    have hreads := hholds.reads_fromSequence hblank hcursor
    obtain ⟨last,hlast⟩ := hrun.run
    refine ⟨hreads.begins hlast,fun ds hds hroom => ?_⟩
    obtain ⟨last',hlast'⟩ := hreads.readsTo hds
    exact hrun.longest ds last' hlast' hroom

end Client

section Owner

open PlainCrypto

/-- A buffer of 150 bytes has room for one of the two records of the owner. -/
theorem sync_framing_round_trip_ownerOfTwo : ∃ filled sent,
    ownerOfTwo.fillSendBuffer (chatId 1) ⟨0,0,0,0,⟨[⟨nodeOf 1,0⟩],by decide⟩⟩ (List.replicate 150 0) =
      (.ok (1,111),filled) ∧ Client.parseFrames (filled.take 111) 1 0 = .ok (sent,111) := by
  have hheld : (ownerOfTwo.channels.get (chatId 1)).isSome = true := by decide +kernel
  obtain ⟨ch,hch⟩ := Option.isSome_iff_exists.mp hheld
  have hok : (ownerOfTwo.fillSendBuffer (chatId 1) ⟨0,0,0,0,⟨[⟨nodeOf 1,0⟩],by decide⟩⟩
      (List.replicate 150 0)).1.value = some (1,111) := by decide +kernel
  rcases hfill : ownerOfTwo.fillSendBuffer (chatId 1) ⟨0,0,0,0,⟨[⟨nodeOf 1,0⟩],by decide⟩⟩
    (List.replicate 150 0) with ⟨outcome,filled⟩
  rw [hfill] at hok
  obtain rfl : outcome = .ok (1,111) := Outcome.value_eq_some.mp hok
  have hsmall : (List.replicate 150 (0 : UInt8)).length ≤ isizeMax := by
    rw [List.length_replicate]
    decide
  obtain ⟨_,_,_,least,cursor,sent,_,_,hrun,hparsed,_⟩ := Client.sync_framing_round_trip hch hsmall hfill
  refine ⟨filled,sent,rfl,(hparsed (fun d hd => ?_)).1⟩
  have hle := (length_le_sendFrames hd).trans hrun.fits
  rw [List.length_replicate] at hle
  omega

end Owner

end Finder
