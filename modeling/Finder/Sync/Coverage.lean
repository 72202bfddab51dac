import Finder.Client.Numbering
import Finder.Storage.Stored
import Finder.Sync.Merging
import Finder.Sync.Parsing
import Finder.Sync.Stories

namespace Finder

variable {maxChannels maxNodes slabSize : Nat} {C P S : Type}

section Unsorted

variable {nodes : List (NodeSequence P)} {clocks : List Clock}

/-- Every clock of a request is merged, in whatever order they come. -/
theorem subset_mergedClocks {c : Clock} (hc : c ∈ clocks) : c ∈ mergedClocks nodes clocks := by
  induction nodes, clocks using mergedClocks.induct with
  | case1 clocks =>
    rw [mergedClocks]
    exact hc
  | case2 n nodes ih => cases hc
  | case3 n nodes x clocks hsame ih =>
    rw [mergedClocks,if_pos hsame]
    rcases List.mem_cons.mp hc with rfl | hc
    · exact List.mem_cons_self
    · exact List.mem_cons_of_mem _ (ih hc)
  | case4 n nodes x clocks hsame hless ih =>
    rw [mergedClocks,if_neg hsame,if_pos hless]
    rcases List.mem_cons.mp hc with rfl | hc
    · exact List.mem_cons_self
    · exact List.mem_cons_of_mem _ (ih hc)
  | case5 n nodes x clocks hsame hless ih =>
    rw [mergedClocks,if_neg hsame,if_neg hless]
    exact List.mem_cons_of_mem _ (ih hc)

/-- So is the own clock of every node that none of them names. -/
theorem firstClock_mem_mergedClocks {n : NodeSequence P} (hn : n ∈ nodes) (hno : ∀ x ∈ clocks, x.node ≠ n.node) :
    n.firstClock ∈ mergedClocks nodes clocks := by
  induction nodes, clocks using mergedClocks.induct with
  | case1 clocks => cases hn
  | case2 m nodes ih =>
    rw [mergedClocks]
    rcases List.mem_cons.mp hn with rfl | hn
    · exact List.mem_cons_self
    · exact List.mem_cons_of_mem _ (ih hn hno)
  | case3 m nodes x clocks hsame ih =>
    rw [mergedClocks,if_pos hsame]
    rcases List.mem_cons.mp hn with rfl | hn
    · exact absurd hsame (hno x List.mem_cons_self)
    · exact List.mem_cons_of_mem _ (ih hn (fun y hy => hno y (List.mem_cons_of_mem _ hy)))
  | case4 m nodes x clocks hsame hless ih =>
    rw [mergedClocks,if_neg hsame,if_pos hless]
    exact List.mem_cons_of_mem _ (ih hn (fun y hy => hno y (List.mem_cons_of_mem _ hy)))
  | case5 m nodes x clocks hsame hless ih =>
    rw [mergedClocks,if_neg hsame,if_neg hless]
    rcases List.mem_cons.mp hn with rfl | hn
    · exact List.mem_cons_self
    · exact List.mem_cons_of_mem _ (ih hn hno)

end Unsorted

section Least

variable {least : U64} {log : List (Entry P)} {e : Entry P}

/-- An entry is stored as a record that reaches at least to its own sequence. -/
theorem recordsFrom_reaches (top count : U64) (he : e ∈ log) :
    ∃ r ∈ recordsFrom top count log, r.data = e.bytes ∧ e.message.sequence ≤ r.maxSequence := by
  induction log generalizing top count with
  | nil => cases he
  | cons x log ih =>
    rcases List.mem_cons.mp he with rfl | he
    · exact ⟨_,List.mem_cons_self,rfl,le_max_right _ _⟩
    · obtain ⟨r,hr,hdata,hle⟩ := ih _ _ he
      exact ⟨r,List.mem_cons_of_mem _ hr,hdata,hle⟩

theorem mem_fromSequence {r : Record} {records : List Record} (hr : r ∈ records) (hle : least ≤ r.maxSequence) :
    r ∈ fromSequence least records := by
  rw [←List.takeWhile_append_dropWhile (p := fun r : Record => decide (r.maxSequence < least)) (l := records)] at hr
  rcases List.mem_append.mp hr with hr | hr
  · have hlow := List.mem_takeWhile_imp hr
    exact absurd (of_decide_eq_true hlow) (not_lt.mpr hle)
  · exact hr

end Least

/-- The request names the sender of the entry with a sequence before it, or not at all. -/
def Asks (clocks : List Clock) (e : Entry P) : Prop :=
  (∀ c ∈ clocks, c.node ≠ e.sender) ∨ ∃ c ∈ clocks, c.node = e.sender ∧ c.sequence < e.message.sequence

namespace Client

variable {client : Client maxChannels maxNodes slabSize C P S} {channelId : ChannelId}
  {ch : Channel maxNodes slabSize C P}
  {request : SyncRequest maxNodes} {state state' : SyncResponderState maxNodes}

theorem startSyncResponse_eq_ok (hget : client.channels.get channelId = some ch)
    (hstart : client.startSyncResponse channelId request state = (.ok (),state')) :
    state'.vectorClock.toList = mergedClocks ch.state.listNodes request.vectorClock.toList := by
  by_cases hroom : (mergedClocks ch.state.listNodes request.vectorClock.toList).length ≤ maxNodes
  · let clocks : HVec Clock maxNodes := ⟨mergedClocks ch.state.listNodes request.vectorClock.toList,hroom⟩
    have hok : client.startSyncResponse channelId request state = (.ok (),{ state with vectorClock := clocks }) :=
      startSyncResponse_ok hget request state rfl
    rw [hstart] at hok
    rw [(Prod.mk.inj hok).2]
  · obtain ⟨full,herr⟩ := startSyncResponse_full hget request state (by omega)
    rw [hstart] at herr
    cases herr

variable [Target] [Postcard Record]

/-- The buffer has room for all records from the start cursor of the round on. -/
def HoldsAll (ch : Channel maxNodes slabSize C P) (state : SyncResponderState maxNodes) (buffer : Bytes) : Prop :=
  ∀ least cursor ds, state.getMinSequence = some least → ch.storage.getCursorFromSequence least = .ok (some cursor) →
    Reads ch.storage cursor ds → (sendFrames ds).length ≤ buffer.length

/-- A round that has the room sends every entry that it is asked for, whatever the request. -/
def Covers (client : Client maxChannels maxNodes slabSize C P S) (channelId : ChannelId) (log : List (Entry P)) :
    Prop :=
  ∀ (request : SyncRequest maxNodes) (state state' : SyncResponderState maxNodes) (buffer filled : Bytes)
    (count offset : Nat) (ch : Channel maxNodes slabSize C P), (request.vectorClock.toList.map Clock.node).Nodup →
    client.channels.get channelId = some ch → client.startSyncResponse channelId request state = (.ok (),state') →
    buffer.length ≤ isizeMax → HoldsAll ch state' buffer →
    client.fillSendBuffer channelId state' buffer = (.ok (count,offset),filled) →
    ∃ sent, count = sent.length ∧ filled.take offset = sendFrames sent ∧
      ∀ e ∈ log, Asks request.vectorClock.toList e → e.bytes ∈ sent

end Client

section Cover

variable [Target] [IdealCrypto C P S] [RecordCodec] [Postcard (Message (Protocol P))] [EnvelopeCodec P]
  {client : Client maxChannels maxNodes slabSize C P S} {channelId : ChannelId} {ch : Channel maxNodes slabSize C P}
  {log : List (Entry P)} {creator : P} {request : SyncRequest maxNodes} {state : SyncResponderState maxNodes}

omit [Target] [RecordCodec] in
/-- The round starts at or before the record of an entry that it is asked for. -/
theorem Channel.Story.least_le (h : Channel.Story channelId creator log ch) {least : U64} {e : Entry P} (he : e ∈ log)
    (hasks : Asks request.vectorClock.toList e)
    (hclocks : state.vectorClock.toList = mergedClocks ch.state.listNodes request.vectorClock.toList)
    (hleast : state.getMinSequence = some least) : least ≤ e.message.sequence := by
  have hall := (getMinSequence_eq_some.mp hleast).2
  rw [hclocks] at hall
  rcases hasks with hno | ⟨c,hc,_,hless⟩
  · -- the sender is in the table, and its own clock is merged
    obtain ⟨r,hr,hfirst,_⟩ := h.recorded he
    have hnode := ChannelState.record_node hr
    have hclock := hall _ (firstClock_mem_mergedClocks (ChannelState.record_mem hr) (by rw [hnode]; exact hno))
    exact hclock.trans hfirst
  · exact (hall c (subset_mergedClocks hc)).trans (le_of_lt hless)

theorem Client.covers_of_filed (hget : client.channels.get channelId = some ch)
    (hstory : Channel.Story channelId creator log ch) (hfiled : Filed ch.storage.io log) :
    client.Covers channelId log := by
  intro request state state' buffer filled count offset ch' _ hget' hstart hmax hroom hfill
  rw [hget] at hget'
  cases hget'
  have hclocks := startSyncResponse_eq_ok hget hstart
  obtain ⟨least,cursor,sent,hleast,hcursor,hrun,rfl,rfl,rfl⟩ := fillSendBuffer_eq_ok hget hmax hfill
  have hreads := hfiled.holds.reads_fromSequence hfiled.blank hcursor
  rw [flatten_singles] at hreads
  have hfits := hroom least cursor _ hleast hcursor hreads
  obtain ⟨last,hlast⟩ := hreads.readsTo (List.prefix_refl _)
  have hall := hrun.longest _ last hlast hfits
  refine ⟨sent,rfl,by simp [overwrite],fun e he hasks => hall.subset ?_⟩
  obtain ⟨r,hr,hdata,hle⟩ := recordsFrom_reaches 0 0 he
  have hless := (hstory.least_le he hasks hclocks hleast).trans hle
  exact List.mem_map.mpr ⟨r,mem_fromSequence hr hless,hdata⟩

variable [Postcard (NewChannel P)] {creators : ChannelId → Option P} {logs : ChannelId → List (Entry P)}

/-- Where every record can be told by its length field, the channel has stored the messages it accepted, and a
round sends all of them that the request asks for. -/
theorem Client.OkRun.covers_requests (h : OkRun MemIo.Zeroed (MemIo.Archives C) client creators logs)
    (hget : client.channels.get channelId = some ch) (hshort : Short (logs channelId)) :
    ch.storage.records = .ok ((logs channelId).map Entry.bytes) ∧ client.Covers channelId (logs channelId) := by
  obtain ⟨_,_,hstory,hfiled⟩ := h.filed.channels channelId ch hget
  exact ⟨(hfiled hshort).records,covers_of_filed hget hstory (hfiled hshort)⟩

end Cover

section Lost

variable [Target] [RecordCodec] {st st' : Storage slabSize} {sessions : List (List Record)} {r : Record}

/-- A slab that a record of 2^32 bytes fills reads like one without a record. -/
theorem Lays.getSlab_giant {io : MemIo slabSize} (h : Lays io sessions) {i : Nat} (hi : sessions[i]? = some [r])
    (hwhole : (i+1)*slabSize ≤ io.data.length) (hlen : (toBytes r).length = 2^32)
    (hsize : (slabBytes [r]).length = slabSize) :
    ∃ slab, io.getSlab i = .ok slab ∧ slab.count = 1 ∧ slab.read slab.getHead = .ok none := by
  obtain ⟨slice,hget,hslen,hslice⟩ := getSlab_slice h.start h.maxIndex h.positive h.bounded hwhole
  have hbytes := (h.whole i [r] hi hwhole).2
  have hbound := h.bounded
  rw [Nat.succ_mul] at hwhole
  have hall : getRange slice 0 slabSize = some slice := by
    rw [getRange_some_of_le (Nat.zero_le _) (by omega),List.drop_zero,Nat.sub_zero,List.take_of_length_le (by omega)]
  rw [hsize,←hslice slabSize (le_refl _),hall] at hbytes
  obtain rfl := Option.some.inj hbytes
  obtain ⟨slab,hnew,hslab⟩ := giant_slab hlen (by omega) i
  exact ⟨slab,hget.trans hnew,hslab⟩

/-- A search goes past such a slab, and finds the record behind it. -/
theorem Lays.past_giant {g : Record} (h : Lays st.io [[g],[r]]) (hwhole : 2*slabSize ≤ st.io.data.length)
    (hlen : (toBytes g).length = 2^32) (hsize : (slabBytes [g]).length = slabSize)
    (hshort : (toBytes r).length ≤ u32Max) (found : Record → Bool) (hfound : found r = true) :
    st.scan found = .ok (some (cursorAfter 1 [])) ∧ Reads st (cursorAfter 1 []) [r.data] := by
  obtain ⟨slab0,hget0,hone,hread⟩ := h.getSlab_giant (i := 0) rfl (by omega) hlen hsize
  obtain ⟨slab,hget,hholds⟩ := h.getSlab (i := 1) rfl (by omega) (by simpa using hshort)
  have hcount : st.io.slabCount = 2 := h.count
  have hbound := h.bounded
  have husize := usizeMax_eq
  rw [slabBytes_single] at hsize
  constructor
  · obtain ⟨fuel,hfuel⟩ : ∃ fuel, usizeMax = fuel+2 := ⟨usizeMax-2,by omega⟩
    have hlost : Storage.scanSlab found slab0 slab0.count slab0.getHead = .ok none := by
      rw [hone]
      simp [Storage.scanSlab,hread]
    have hslab : Storage.scanSlab found slab slab.count slab.getHead = .ok (some (cursorAfter 1 [])) := by
      have hcount1 : slab.count = 1 := hholds.count
      have hscan := SlabHolds.scan_found (p := []) (q := []) hholds (by simp) hfound slab.count (by rw [hcount1]; simp)
      rw [hholds.getHead]
      exact hscan
    have hhead : st.io.startOffset = 0 := h.start
    simp [Storage.scan,MemIo.getHead,hhead,hfuel,Storage.scanSlabs,hget0,hget,hlost,hslab]
  · refine .next _ (cursorAfter 1 [r]) _ _ ?_ (.stop _ ?_)
    · have hnext := SlabHolds.read_next (p := []) (q := []) hholds
      simp only [Storage.read]
      rw [show (cursorAfter 1 []).slab = 1 from rfl,hget,Outcome.ok_bind,hnext]
      rfl
    · have hend := SlabHolds.read_end hholds
      have hstop : checkedAdd usizeMax 1 1 = some 2 := checkedAdd_eq_some.mpr ⟨by omega,rfl⟩
      simp only [Storage.read]
      rw [show (cursorAfter 1 [r]).slab = 1 from rfl,hget,Outcome.ok_bind,hend,Outcome.ok_bind]
      simp only [hstop]
      rw [if_pos (by omega)]

end Lost

section Uncovered

open PlainCrypto

theorem mergedClocks_nil (nodes : List (NodeSequence P)) :
    mergedClocks nodes [] = nodes.map NodeSequence.firstClock := by
  induction nodes with
  | nil => rw [mergedClocks,List.map_nil]
  | cons n nodes ih => rw [mergedClocks,ih,List.map_cons]

/-- Where both messages have come in, the owner is the only node, and its first message has sequence 1. -/
theorem fresh_firstClocks {ch : Channel 2 giantSlab PlainCrypto U64}
    (h : Client.freshChannel (nodeOf 1) 1 (chatId 1) (blankIo giantSlab 2) = .ok ch) :
    (Channel.accept (chatId 1) (nodeOf 1) greeting (idOf greeting)
      (Channel.accept (chatId 1) (nodeOf 1) opening (idOf opening) ch).2).2.state.listNodes.map
        NodeSequence.firstClock = [⟨nodeOf 1,1⟩] := by
  have hcheck : (Client.freshChannel (nodeOf 1) 1 (chatId 1) (blankIo giantSlab 2) :
      Outcome ClientError (Channel 2 giantSlab PlainCrypto U64)).value.all (fun ch => decide (
        (Channel.accept (chatId 1) (nodeOf 1) greeting (idOf greeting)
          (Channel.accept (chatId 1) (nodeOf 1) opening (idOf opening) ch).2).2.state.listNodes.map
            NodeSequence.firstClock = [⟨nodeOf 1,1⟩])) = true := by decide +kernel
  rw [h] at hcheck
  exact of_decide_eq_true hcheck

/-- The memory holds a record of 2^32 bytes and one behind it that can be read. -/
structure HidesFirst (ch : Channel 2 giantSlab PlainCrypto U64) (log : List (Entry U64)) : Prop where
  length : log.length = 2
  hidden : ∃ e ∈ log, e.sender = nodeOf 1 ∧ e.bytes.length = 2^32-40
  clocks : ch.state.listNodes.map NodeSequence.firstClock = [⟨nodeOf 1,1⟩]
  shown : ∃ bytes : Bytes, bytes.length ≤ 4096 ∧ ch.storage.getCursorFromSequence 1 = .ok (some (cursorAfter 1 [])) ∧
    Reads ch.storage (cursorAfter 1 []) [bytes]

/-- Behind the opening with its zeroes comes the greeting. -/
theorem giant_hides : ∃ (client : Client 2 2 giantSlab PlainCrypto U64 U64) (logs : ChannelId → List (Entry U64))
    (ch : Channel 2 giantSlab PlainCrypto U64),
    Client.OkRun MemIo.Zeroed (MemIo.Archives PlainCrypto) client startedByOwner logs ∧
      client.channels.get (chatId 1) = some ch ∧ HidesFirst ch (logs (chatId 1)) := by
  have hgiant : giantSlab = 2^32+16 := rfl
  have hinit : SlabWriter.initialOffset+u32Size = 16 := rfl
  have hword : u32Max = 2^32-1 := rfl
  have hdata : (blankIo giantSlab 2).data.length = 2*giantSlab := List.length_replicate
  obtain ⟨client,logs,start,ch,bytes,hrun,hlogs,hget,hfresh,hhides⟩ := giant_hidden
  obtain ⟨_,hgreeting,hnext,_⟩ := fresh_takesBoth hfresh
  have hclocks := fresh_firstClocks hfresh
  obtain ⟨r,hfull,hlays⟩ := hhides.lays
  obtain ⟨envelope,hseal⟩ := sealPlain_ok greeting (by decide +kernel)
  have hlen : (toBytes envelope).length ≤ 4096 := by
    have h := envelope_length envelope
    rwa [scratch,List.length_replicate] at h
  have hsmall := record_bounded (Channel.recordOf ch (nodeOf 1) greeting (toBytes envelope))
    (show (toBytes envelope).length < 2^64 by omega)
  change _ ≤ (toBytes envelope).length+72 at hsmall
  have hkey : ch.state.getNodeKey (nodeOf 1) = .ok 1 := by rw [hhides.state]; exact hnext
  have haccept := Channel.accept_sameMessages hhides.state hhides.chat (Prod.ext hgreeting rfl)
  have hcount : ch.storage.io.slabCount = 1 := hlays.count
  obtain ⟨client',logs',ch',hrun',hlogs',hget',_,htaken,hstate,_⟩ := sealed_taken hrun hget hseal
    (Channel.decodeAs_toBytes envelope) (by omega) hkey haccept (by simp [greeting]) hhides.length (le_of_eq hcount)
    (by omega)
  have hlays' := hlays.store htaken.stored
  have hlength : ch'.storage.io.data.length = (blankIo giantSlab 2).data.length := by
    rw [(store_advanced hhides.sound.storage htaken.stored).1.length,hhides.length]
  have hmax := (Channel.recordOf_eq hhides.sound.valid (Channel.accept_eq_ok hhides.sound.valid haccept)
    (toBytes envelope)).1
  obtain ⟨hscan,hreads⟩ := hlays'.past_giant (by rw [hlength,hdata]) hfull (by rw [slabBytes_single]; omega) (by omega)
    (fun record => decide (record.maxSequence ≥ 1)) (by rw [hmax]; decide)
  rw [hlogs,List.singleton_append] at hlogs'
  refine ⟨client',logs',ch',hrun',hget',by rw [hlogs']; rfl,?_,by rw [hstate]; exact hclocks,toBytes envelope,hlen,hscan,
    hreads⟩
  rw [hlogs']
  exact ⟨_,List.mem_cons_self,rfl,hhides.long⟩

/-- A first message whose record takes 4 GiB is stored, and no answer to a request sends it. -/
theorem request_uncovered : ∃ (client : Client 2 2 giantSlab PlainCrypto U64 U64)
    (logs : ChannelId → List (Entry U64)) (ch : Channel 2 giantSlab PlainCrypto U64),
    Client.OkRun MemIo.Zeroed (MemIo.Archives PlainCrypto) client startedByOwner logs ∧
      client.channels.get (chatId 1) = some ch ∧ (logs (chatId 1)).length < 2^32 ∧
      ¬client.Covers (chatId 1) (logs (chatId 1)) := by
  have hlenSize : lenSize = 4 := rfl
  obtain ⟨client,logs,ch,hrun,hget,hlength,⟨e,he,hsender,hlong⟩,hclocks,bytes,hsmall,hcursor,hreads⟩ := giant_hides
  refine ⟨client,logs,ch,hrun,hget,by omega,fun hcovers => ?_⟩
  have hbuffer : (List.replicate 4100 (0 : UInt8)).length = 4100 := List.length_replicate
  have hmax : (List.replicate 4100 (0 : UInt8)).length ≤ isizeMax := by
    rw [hbuffer]
    decide
  have hone : (sendFrames [bytes]).length = bytes.length+lenSize := sendFrames_cons_length bytes []
  have hfitting : fitting (List.replicate 4100 (0 : UInt8)).length [bytes] = [bytes] := fitting_all (by omega)
  -- nobody is named, so the round starts at the first message of the owner
  let request : SyncRequest 2 := ⟨0,0,HVec.empty⟩
  let clocks : HVec Clock 2 := ⟨[⟨nodeOf 1,1⟩],by decide⟩
  have hmerged : clocks.toList = mergedClocks ch.state.listNodes request.vectorClock.toList :=
    ((mergedClocks_nil _).trans hclocks).symm
  have hstart := startSyncResponse_ok hget request (SyncResponderState.new request) hmerged
  have hleast : SyncResponderState.getMinSequence { SyncResponderState.new request with vectorClock := clocks } =
      some 1 := rfl
  have hfill := (Client.fillSendBuffer_reads hget hmax hleast hcursor hreads).1 (by
    rw [hfitting,List.length_singleton,u32Max]
    omega)
  rw [hfitting] at hfill
  obtain ⟨sent,_,htaken,hall⟩ := hcovers request _ _ _ _ _ _ ch List.nodup_nil hget hstart hmax
    (fun least cursor ds hleast' hcursor' hreads' => by
      rw [hleast] at hleast'
      cases hleast'
      rw [hcursor] at hcursor'
      cases hcursor'
      rw [hreads'.unique hreads]
      omega) hfill
  have hin := length_le_sendFrames (hall e he (Or.inl (fun c hc => by cases hc)))
  have hle := List.length_take_le (sendFrames [bytes]).length
    (overwrite (List.replicate 4100 (0 : UInt8)) 0 (sendFrames [bytes]))
  rw [htaken] at hle
  omega

/-- A member that asks the owner of two for everything is sent its three messages. -/
theorem covers_requests_speaker : (speakerLog (chatId 1)).length = 3 ∧
    ∃ ch, speaker.channels.get (chatId 1) = some ch ∧
      ch.storage.records = .ok ((speakerLog (chatId 1)).map Entry.bytes) ∧
      speaker.Covers (chatId 1) (speakerLog (chatId 1)) := by
  obtain ⟨ch,hch⟩ := speaker_holds
  exact ⟨by decide +kernel,ch,hch,(speaker_okRun ownIo_zeroed).covers_requests hch speaker_short⟩

end Uncovered

end Finder
