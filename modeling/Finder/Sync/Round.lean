import Finder.Sync.CatchUp

namespace Finder

variable {maxChannels maxNodes slabSize : Nat} {D C P S : Type}

section Split

variable {least : U64} {log : List (Entry P)}

/-- The records from a sequence on are those of a last part of the log; no entry before it goes that far. -/
theorem fromSequence_split (top count : U64) : ∃ before es, log = before ++ es ∧
    (fromSequence least (recordsFrom top count log)).map Record.data = es.map Entry.bytes ∧
      ∀ e ∈ before, e.message.sequence < least := by
  induction log generalizing top count with
  | nil => exact ⟨[],[],rfl,rfl,by simp⟩
  | cons e log ih =>
    rw [recordsFrom,fromSequence]
    by_cases hlow : (e.record top count).maxSequence < least
    · rw [List.dropWhile_cons_of_pos (by simpa using hlow)]
      obtain ⟨before,es,hlog,hdata,hbefore⟩ := ih (e.top top) (e.count count)
      refine ⟨e::before,es,by rw [hlog]; rfl,hdata,fun x hx => ?_⟩
      rcases List.mem_cons.mp hx with rfl | hx
      · exact lt_of_le_of_lt (le_max_right _ _) hlow
      · exact hbefore x hx
    · rw [List.dropWhile_cons_of_neg (by simpa using hlow)]
      have hall : (recordsFrom top count (e::log)).map Record.data = (e::log).map Entry.bytes := recordsFrom_data
      exact ⟨[],e::log,rfl,hall,by simp⟩

end Split

/-- What has come in by another log is in the table of one that has it all. -/
theorem Channel.Story.ahead [IdealCrypto C P S] [Postcard (Message (Protocol P))] [EnvelopeCodec P]
    {channelId : ChannelId} {creator : P} {logP logQ : List (Entry P)} {chP chQ : Channel maxNodes slabSize C P}
    (hP : Channel.Story channelId creator logP chP) (hQ : Channel.Story channelId creator logQ chQ)
    (hall : ∀ e ∈ logP, e ∈ logQ) : Ahead chQ chP := by
  intro n hn
  have hr := hP.valid.sorted.record_of_mem hn
  have hknown : (chQ.state.record n.node).isSome = true := by
    rw [hQ.knows_iff]
    obtain ⟨key,hkey | ⟨x,hx,hkey⟩,hid⟩ := (hP.knows_iff n.node).mp (by rw [hr]; rfl)
    · exact ⟨key,Or.inl hkey,hid⟩
    · exact ⟨key,Or.inr ⟨x,hall x hx,hkey⟩,hid⟩
  obtain ⟨m,hm⟩ := Option.isSome_iff_exists.mp hknown
  refine ⟨m,ChannelState.record_mem hm,ChannelState.record_node hm,?_⟩
  rw [Fin.le_def,←ChannelState.sequenceOf_eq hr,←ChannelState.sequenceOf_eq hm,(hP.chained _).1,(hQ.chained _).1]
  exact tip_byAuthor_le hall (hQ.chained n.node).2

section Round

variable [Target] [IdealCrypto C P S] [RecordCodec] [Postcard (Message (Protocol P))] [EnvelopeCodec P]

/-- One round: the requester asks, the responder answers into a buffer, and the requester receives what was sent. -/
inductive Round (requester responder : Client maxChannels maxNodes slabSize C P S) (channelId : ChannelId)
    (buffer : Bytes) : Outcome ClientError Unit → Client maxChannels maxNodes slabSize C P S → Prop
  | calls (request request' : SyncRequest maxNodes) (state' : SyncResponderState maxNodes) (count offset : Nat)
      (filled : Bytes) (outcome : Outcome ClientError Unit) (client' : Client maxChannels maxNodes slabSize C P S)
      (hfinish : requester.finishSyncRequest channelId request = (.ok (),request'))
      (hstart : responder.startSyncResponse channelId request' (SyncResponderState.new request') = (.ok (),state'))
      (hfill : responder.fillSendBuffer channelId state' buffer = (.ok (count,offset),filled))
      (hreceive : Client.receiveBuffer channelId (filled.take offset) count requester = (outcome,client')) :
      Round requester responder channelId buffer outcome client'

/-- The channel can store those of the messages that it has not stored. -/
def RoomFor (ch : Channel maxNodes slabSize C P) (sent : List Bytes) : Prop :=
  ∀ (es : List (Entry P)) held c, (∀ e ∈ es, e.Signed C) → es.map Entry.bytes = sent →
    ch.storage.records = .ok held → ch.state.getCurrent = .ok c →
    ch.storage.HasRoomFor (recordsFrom c.sequence ch.chat.messageCount (news held es))

namespace Logs

variable {g : Group D C P S} {clients : D → Client maxChannels maxNodes slabSize C P S} {logs : D → List (Entry P)}
  {p q : D} {chP chQ : Channel maxNodes slabSize C P} {e : Entry P} {least : U64} {buffer : Bytes} {ds : List Bytes}
  {outcome : Outcome ClientError Unit} {client' : Client maxChannels maxNodes slabSize C P S}

/-- A round starts no later than at what the requester lacks. -/
theorem starts_le (h : Logs g clients logs) (hp : (clients p).channels.get g.channelId = some chP)
    (hq : (clients q).channels.get g.channelId = some chQ) (hstarts : StartsAt chQ chP least) (he : e ∈ logs p)
    (hnew : e ∉ logs q) : least ≤ e.message.sequence := by
  by_cases hasks : ∃ m ∈ chQ.state.listNodes, m.node = e.sender
  · obtain ⟨m,hm,hnode⟩ := hasks
    have hsorted : chQ.state.Sorted := h.nodes_sorted hq
    have hreachedQ := (((h.keeps q).story chQ hq).chained e.sender).1
    rw [←hnode,ChannelState.sequenceOf_eq (hsorted.record_of_mem hm),hnode] at hreachedQ
    have hlow : m.sequence.val < e.seq := by
      rw [hreachedQ]
      exact not_le.mp (fun hle => hnew ((h.coherent.mem_iff he).mpr hle))
    exact (hstarts.2 (Or.inl ⟨m,hm,rfl⟩)).trans (le_of_lt hlow)
  · obtain ⟨r,hr,hfirst,_⟩ := ((h.keeps p).story chP hp).recorded he
    refine (hstarts.2 (Or.inr ⟨r,ChannelState.record_mem hr,fun m hm hsame => ?_,rfl⟩)).trans hfirst
    exact hasks ⟨m,hm,hsame.trans (ChannelState.record_node hr)⟩

/-- What is offered are the entries from some one on, and the requester has all before. -/
theorem offers (h : Logs g clients logs) (hp : (clients p).channels.get g.channelId = some chP)
    (hq : (clients q).channels.get g.channelId = some chQ) (hoffers : Offers chQ chP ds) :
    ∃ before es, logs p = before ++ es ∧ ds = es.map Entry.bytes ∧ ∀ e ∈ before, e ∈ logs q := by
  obtain ⟨least,cursor,hstarts,hcursor,hreads⟩ := hoffers
  have hfiled := (h.keeps p).filed chP hp
  have hall := hfiled.holds.reads_fromSequence hfiled.blank hcursor
  rw [flatten_singles] at hall
  obtain ⟨before,es,hsplit,hdata,hbefore⟩ : ∃ before es, logs p = before ++ es ∧
      (fromSequence least (recordsFrom 0 0 (logs p))).map Record.data = es.map Entry.bytes ∧
        ∀ e ∈ before, e.message.sequence < least := fromSequence_split 0 0
  refine ⟨before,es,hsplit,(hreads.unique hall).trans hdata,fun e he => ?_⟩
  by_contra hnew
  have hmem : e ∈ logs p := by
    rw [hsplit]
    exact List.mem_append_left _ he
  exact absurd (h.starts_le hp hq hstarts hmem hnew) (not_le.mpr (hbefore e he))

/-- What was sent is received frame by frame. -/
theorem receiveBuffer_sent (h : Logs g clients logs) (hp : (clients p).channels.get g.channelId = some chP)
    (hoffers : Offers chQ chP ds) (hmax : buffer.length ≤ isizeMax) :
    Client.receiveBuffer g.channelId ((overwrite buffer 0 (sendFrames (fitting buffer.length ds))).take
      (sendFrames (fitting buffer.length ds)).length) (fitting buffer.length ds).length (clients q) =
        Client.receiveAll g.channelId (fitting buffer.length ds) (clients q) := by
  have hfits := fitting_length buffer.length ds
  have htaken : (overwrite buffer 0 (sendFrames (fitting buffer.length ds))).take
      (sendFrames (fitting buffer.length ds)).length = sendFrames (fitting buffer.length ds) := by simp [overwrite]
  have hwhole : getRange (sendFrames (fitting buffer.length ds)) 0
      (0+(sendFrames (fitting buffer.length ds)).length) = some (sendFrames (fitting buffer.length ds)) := by
    rw [getRange_some_of_le (by omega) (by omega)]
    simp
  have hshort : ∀ b ∈ fitting buffer.length ds, b.length < 2^32 := by
    intro b hb
    obtain ⟨e,he,rfl⟩ := List.mem_map.mp (h.offers_stored hp hoffers b ((fitting_begins _ _).subset hb))
    have hlen := ((h.keeps p).proper e he).short
    rw [scratch,List.length_replicate] at hlen
    omega
  rw [htaken]
  exact Client.receiveFrames_all hwhole (hfits.trans hmax) hshort (clients q)

/-- A round is the receiving of as much of the offer as the buffer has room for. -/
theorem receives_of_round (h : Logs g clients logs) (hp : (clients p).channels.get g.channelId = some chP)
    (hq : (clients q).channels.get g.channelId = some chQ) (hmax : buffer.length ≤ isizeMax)
    (hround : Round (clients q) (clients p) g.channelId buffer outcome client') : ∃ ds, Offers chQ chP ds ∧
      (fitting buffer.length ds).length ≤ u32Max ∧
      Client.receiveAll g.channelId (fitting buffer.length ds) (clients q) = (outcome,client') := by
  obtain ⟨request,request',state',count,offset,filled,_,_,hfinish,hstart,hfill,hreceive⟩ := hround
  have hfiled := (h.keeps p).filed chP hp
  obtain ⟨least,cursor,_,hleast,hcursor,_⟩ := Client.fillSendBuffer_eq_ok hp hmax hfill
  have hreads := hfiled.holds.reads_fromSequence hfiled.blank hcursor
  have hstarts := (startsAt_iff (h.nodes_sorted hp) (h.nodes_sorted hq) (h.merged hp hq hfinish hstart)).mpr hleast
  obtain ⟨ds,hds⟩ : ∃ ds, Reads chP.storage cursor ds := ⟨_,hreads⟩
  have hoffers : Offers chQ chP ds := ⟨least,cursor,hstarts,hcursor,hds⟩
  obtain ⟨hok,hpanic⟩ := Client.fillSendBuffer_reads hp hmax hleast hcursor hds
  have hfew : (fitting buffer.length ds).length ≤ u32Max := by
    by_contra hmany
    have hlost := hpanic (not_le.mp hmany)
    rw [hfill] at hlost
    cases hlost
  have hsent := hok hfew
  rw [hfill] at hsent
  cases hsent
  refine ⟨ds,hoffers,hfew,?_⟩
  rw [←hreceive]
  exact (h.receiveBuffer_sent hp hoffers hmax).symm

theorem round_of_offers (h : Logs g clients logs) (hp : (clients p).channels.get g.channelId = some chP)
    (hq : (clients q).channels.get g.channelId = some chQ) (hmax : buffer.length ≤ isizeMax)
    (hoffers : Offers chQ chP ds) (hfew : (fitting buffer.length ds).length ≤ u32Max)
    (hreceive : Client.receiveAll g.channelId (fitting buffer.length ds) (clients q) = (outcome,client')) :
    Round (clients q) (clients p) g.channelId buffer outcome client' := by
  let request : SyncRequest maxNodes := ⟨0,0,HVec.empty⟩
  obtain ⟨request',_,hfinish,_⟩ := h.start_ok hp hq request (SyncResponderState.new request)
  obtain ⟨request2,state',hfinish2,hstart,_,hclocks⟩ := h.start_ok hp hq request (SyncResponderState.new request')
  rw [hfinish] at hfinish2
  cases hfinish2
  obtain ⟨least,cursor,hstarts,hcursor,hreads⟩ := hoffers
  have hleast := (startsAt_iff (h.nodes_sorted hp) (h.nodes_sorted hq) hclocks).mp hstarts
  have hfill := (Client.fillSendBuffer_reads hp hmax hleast hcursor hreads).1 hfew
  refine .calls request request' state' _ _ _ outcome client' hfinish hstart hfill ?_
  rw [h.receiveBuffer_sent hp ⟨least,cursor,hstarts,hcursor,hreads⟩ hmax]
  exact hreceive

/-- What is all known is passed over. -/
theorem receives_held (h : Logs g clients logs) {bs : List Bytes}
    (hall : ∀ b ∈ bs, b ∈ (logs q).map Entry.bytes) :
    Client.receiveAll g.channelId bs (clients q) = (.ok (),clients q) := by
  induction bs with
  | nil => rfl
  | cons b bs ih =>
    obtain ⟨e,he,rfl⟩ := List.mem_map.mp (hall b List.mem_cons_self)
    rw [Client.receiveAll]
    simp only [h.passOver he]
    exact ih (fun b hb => hall b (List.mem_cons_of_mem _ hb))

variable [DecidableEq D]

/-- What is sent is received, where there is room for it, and what was lacking is taken in. -/
theorem receives (h : Logs g clients logs) (hp : (clients p).channels.get g.channelId = some chP)
    (hq : (clients q).channels.get g.channelId = some chQ) (hoffers : Offers chQ chP ds)
    (hroom : RoomFor chQ (fitting buffer.length ds)) :
    ∃ before es rest client' chQ', logs p = before ++ (es ++ rest) ∧ (∀ e ∈ before, e ∈ logs q) ∧
      ds = (es ++ rest).map Entry.bytes ∧ fitting buffer.length ds = es.map Entry.bytes ∧
      Client.receiveAll g.channelId (fitting buffer.length ds) (clients q) = (.ok (),client') ∧
      client'.channels.get g.channelId = some chQ' ∧ Logs g (Function.update clients q client')
        (Function.update logs q (logs q ++ news ((logs q).map Entry.bytes) es)) := by
  obtain ⟨before,all,hsplit,hdata,hbefore⟩ := h.offers hp hq hoffers
  obtain ⟨more,hmore⟩ := fitting_begins buffer.length ds
  obtain ⟨es,rest,rfl,hes,_⟩ : ∃ es rest, all = es ++ rest ∧ es.map Entry.bytes = fitting buffer.length ds ∧
      rest.map Entry.bytes = more := List.map_eq_append_iff.mp (by rw [←hdata,hmore])
  have hstory := (h.keeps q).story chQ hq
  obtain ⟨c,hcur,htop⟩ := hstory.topped
  have hsigned : ∀ e ∈ es, e.Signed C := by
    intro e he
    exact ((h.keeps p).proper e (by rw [hsplit]; simp [he])).signed
  have hslabs := hroom es _ c hsigned hes ((h.keeps q).filed chQ hq).records hcur
  rw [htop,hstory.counted] at hslabs
  obtain ⟨client',chQ',hreceive,hq',hlogs⟩ := h.catchUp hsplit hbefore hp hq hslabs
  refine ⟨before,es,rest,client',chQ',hsplit,hbefore,hdata,hes.symm,?_,hq',hlogs⟩
  rw [←hes]
  exact hreceive

end Logs

/-- The buffer has room for all that the responder offers. -/
def Fits (chQ chP : Channel maxNodes slabSize C P) (buffer : Bytes) : Prop :=
  ∀ ds, Offers chQ chP ds → (sendFrames ds).length ≤ buffer.length

/-- Some record of the offer is not stored by the requester, and the buffer has room for all up to it. -/
def Within (chQ chP : Channel maxNodes slabSize C P) (buffer : Bytes) : Prop :=
  ∃ before b after held, Offers chQ chP (before ++ b::after) ∧ chQ.storage.records = .ok held ∧ b ∉ held ∧
    (sendFrames (before ++ [b])).length ≤ buffer.length

/-- A round in which the requester stores something it had not. -/
def Progresses (requester responder : Client maxChannels maxNodes slabSize C P S) (channelId : ChannelId)
    (buffer : Bytes) : Prop :=
  ∃ client' chQ chQ' held held' b, Round requester responder channelId buffer (.ok ()) client' ∧
    requester.channels.get channelId = some chQ ∧ client'.channels.get channelId = some chQ' ∧
    chQ.storage.records = .ok held ∧ chQ'.storage.records = .ok held' ∧ b ∈ held' ∧ b ∉ held

/-- One device has of every node what the other one has. -/
def CaughtUp (channelId : ChannelId) (p q : D) (clients : D → Client maxChannels maxNodes slabSize C P S) : Prop :=
  ∀ chQ chP, (clients q).channels.get channelId = some chQ → (clients p).channels.get channelId = some chP →
    Ahead chQ chP

/-- A round between two devices, of which the others know nothing. -/
def Syncs [DecidableEq D] (channelId : ChannelId) (p q : D)
    (clients clients' : D → Client maxChannels maxNodes slabSize C P S) : Prop :=
  ∃ chQ chP buffer client', (clients q).channels.get channelId = some chQ ∧
    (clients p).channels.get channelId = some chP ∧ buffer.length ≤ isizeMax ∧ Within chQ chP buffer ∧
    (∀ ds, Offers chQ chP ds → RoomFor chQ (fitting buffer.length ds)) ∧
    Round (clients q) (clients p) channelId buffer (.ok ()) client' ∧ clients' = Function.update clients q client'

section Progress

variable {g : Group D C P S} {clients clients' : D → Client maxChannels maxNodes slabSize C P S}
  {logs : D → List (Entry P)} {p q : D} {chP chQ : Channel maxNodes slabSize C P} {buffer : Bytes} {ds ds' : List Bytes}

omit [IdealCrypto C P S] [Postcard (Message (Protocol P))] [EnvelopeCodec P] in
theorem Offers.unique (h : Offers chQ chP ds) (h' : Offers chQ chP ds') : ds = ds' := by
  obtain ⟨least,cursor,hstarts,hcursor,hreads⟩ := h
  obtain ⟨least',cursor',hstarts',hcursor',hreads'⟩ := h'
  obtain rfl := IsLeast.unique hstarts hstarts'
  rw [hcursor] at hcursor'
  cases hcursor'
  exact hreads.unique hreads'

/-- Where the buffer ends before what is lacking, nothing is stored. -/
theorem Logs.within_of_progresses (h : Logs g clients logs) (hp : (clients p).channels.get g.channelId = some chP)
    (hq : (clients q).channels.get g.channelId = some chQ) (hmax : buffer.length ≤ isizeMax)
    (hprogress : Progresses (clients q) (clients p) g.channelId buffer) :
    Within chQ chP buffer ∧ Counted chQ chP buffer := by
  obtain ⟨client',chQ1,chQ',held,held',b,hround,hq1,hq',hheld,hheld',hb,hnew⟩ := hprogress
  rw [hq] at hq1
  cases hq1
  obtain ⟨ds,hoffers,hfew,hreceive⟩ := h.receives_of_round hp hq hmax hround
  have hrecords := ((h.keeps q).filed chQ hq).records
  rw [hheld] at hrecords
  cases hrecords
  refine ⟨?_,fun ds' hoffers' => by rw [←hoffers.unique hoffers']; exact hfew⟩
  have hlacks : ∃ x ∈ fitting buffer.length ds, x ∉ (logs q).map Entry.bytes := by
    by_contra hno
    have hsame := h.receives_held (q := q) (fun x hx => by_contra (fun hlack => hno ⟨x,hx,hlack⟩))
    rw [hreceive] at hsame
    cases hsame
    rw [hq] at hq'
    cases hq'
    rw [hheld] at hheld'
    cases hheld'
    exact hnew hb
  obtain ⟨x,hx,hlack⟩ := hlacks
  obtain ⟨before,after,hsplit⟩ := List.append_of_mem hx
  obtain ⟨more,hmore⟩ := fitting_begins buffer.length ds
  refine ⟨before,x,after ++ more,_,?_,hheld,hlack,?_⟩
  · rw [hsplit,List.append_assoc,List.cons_append] at hmore
    rwa [hmore]
  · have hfits := fitting_length buffer.length ds
    have hwhole : fitting buffer.length ds = (before ++ [x]) ++ after := by simp [hsplit]
    rw [hwhole,sendFrames_append,List.length_append] at hfits
    omega

variable [DecidableEq D]

theorem Logs.stores (h : Logs g clients logs) (hp : (clients p).channels.get g.channelId = some chP)
    (hq : (clients q).channels.get g.channelId = some chQ)
    (hroom : ∀ ds, Offers chQ chP ds → RoomFor chQ (fitting buffer.length ds)) (hwithin : Within chQ chP buffer) :
    ∃ ds client' chQ' news e, Offers chQ chP ds ∧
      Client.receiveAll g.channelId (fitting buffer.length ds) (clients q) = (.ok (),client') ∧
      client'.channels.get g.channelId = some chQ' ∧
      Logs g (Function.update clients q client') (Function.update logs q (logs q ++ news)) ∧
      e ∈ logs p ∧ e ∈ news ∧ e ∉ logs q := by
  obtain ⟨before,b,after,held,hoffers,hheld,hlack,hfits⟩ := hwithin
  rw [((h.keeps q).filed chQ hq).records] at hheld
  cases hheld
  obtain ⟨_,es,rest,client',chQ',hsplit,_,_,hes,hreceive,hq',hlogs'⟩ := h.receives hp hq hoffers (hroom _ hoffers)
  have hfirst : before ++ [b] <+: before ++ b::after := ⟨after,by simp⟩
  have hsent : b ∈ fitting buffer.length (before ++ b::after) := (prefix_fitting hfirst hfits).subset (by simp)
  rw [hes] at hsent
  obtain ⟨e,he,rfl⟩ := List.mem_map.mp hsent
  refine ⟨_,client',chQ',_,e,hoffers,hreceive,hq',hlogs',?_,mem_news.mpr ⟨he,hlack⟩,fun hmem => ?_⟩
  · rw [hsplit]
    simp [he]
  · exact hlack (List.mem_map.mpr ⟨e,hmem,rfl⟩)

theorem Logs.progresses (h : Logs g clients logs) (hp : (clients p).channels.get g.channelId = some chP)
    (hq : (clients q).channels.get g.channelId = some chQ) (hmax : buffer.length ≤ isizeMax)
    (hroom : ∀ ds, Offers chQ chP ds → RoomFor chQ (fitting buffer.length ds)) (hwithin : Within chQ chP buffer)
    (hcounted : Counted chQ chP buffer) : Progresses (clients q) (clients p) g.channelId buffer := by
  obtain ⟨ds,client',chQ',more,e,hoffers,hreceive,hq',hlogs',he,hmem,hnew⟩ := h.stores hp hq hroom hwithin
  have hround := h.round_of_offers hp hq hmax hoffers (hcounted ds hoffers) hreceive
  have hown : (Function.update clients q client' q).channels.get g.channelId = some chQ' := by
    rw [Function.update_self]
    exact hq'
  have hrecords := ((hlogs'.keeps q).filed chQ' hown).records
  rw [Function.update_self] at hrecords
  exact ⟨client',chQ,chQ',_,_,e.bytes,hround,hq,hq',((h.keeps q).filed chQ hq).records,hrecords,
    List.mem_map.mpr ⟨e,List.mem_append_right _ hmem,rfl⟩,fun hheld => hnew (h.mem_of_bytes he hheld)⟩

/-- The entries of one log that another one lacks. -/
def lacking (logs : D → List (Entry P)) (p q : D) : List (Entry P) := news ((logs q).map Entry.bytes) (logs p)

/-- Each round leaves less to be sent. -/
theorem Logs.syncs (h : Logs g clients logs) (hsyncs : Syncs g.channelId p q clients clients') :
    ∃ logs', Logs g clients' logs' ∧ (lacking logs' p q).length < (lacking logs p q).length := by
  obtain ⟨chQ,chP,buffer,client',hq,hp,hmax,hwithin,hroom,hround,rfl⟩ := hsyncs
  obtain ⟨ds,client1,_,more,e,hoffers,hreceive,_,hlogs',he,hmem,hnew⟩ := h.stores hp hq hroom hwithin
  obtain ⟨ds',hoffers',_,hreceive'⟩ := h.receives_of_round hp hq hmax hround
  rw [hoffers'.unique hoffers,hreceive] at hreceive'
  cases hreceive'
  have hpq : p ≠ q := by
    rintro rfl
    exact hnew he
  refine ⟨_,hlogs',?_⟩
  -- of what was lacking there is left what has not come now
  have hleft : lacking (Function.update logs q (logs q ++ more)) p q =
      news (more.map Entry.bytes) (lacking logs p q) := by
    rw [lacking,lacking,Function.update_self,Function.update_of_ne hpq,List.map_append,news_append]
  rw [hleft,news,List.length_filter_lt_length_iff_exists]
  exact ⟨e,mem_news.mpr ⟨he,fun hheld => hnew (h.mem_of_bytes he hheld)⟩,
    by simpa using ⟨e,hmem,rfl⟩⟩

/-- So a run of rounds comes to an end, and then nothing is lacking. -/
theorem Logs.caught (h : Logs g clients logs) (run : Nat → D → Client maxChannels maxNodes slabSize C P S)
    (hstart : run 0 = clients) (hrun : ∀ i, CaughtUp g.channelId p q (run i) ∨
      Syncs g.channelId p q (run i) (run (i+1))) : ∃ n, CaughtUp g.channelId p q (run n) := by
  induction hcount : (lacking logs p q).length using Nat.strong_induction_on generalizing clients logs run with
  | _ count ih =>
    rcases hrun 0 with hcaught | hsyncs
    · exact ⟨0,hcaught⟩
    · rw [hstart] at hsyncs
      obtain ⟨logs',hlogs',hless⟩ := h.syncs hsyncs
      rw [hcount] at hless
      obtain ⟨n,hn⟩ := ih _ hless hlogs' (fun i => run (i+1)) rfl (fun i => hrun (i+1)) rfl
      exact ⟨n+1,hn⟩

end Progress

variable [DecidableEq D] [Postcard (NewChannel P)] {g : Group D C P S}
  {clients : D → Client maxChannels maxNodes slabSize C P S} {p q : D} {chP chQ : Channel maxNodes slabSize C P}
  {buffer : Bytes} {outcome : Outcome ClientError Unit} {client' : Client maxChannels maxNodes slabSize C P S}

/-- One round brings the requester all that the responder has, where there is room for it. -/
theorem Honest.round_suffices (h : Honest g clients) (hq : (clients q).channels.get g.channelId = some chQ)
    (hp : (clients p).channels.get g.channelId = some chP) (hmax : buffer.length ≤ isizeMax)
    (hfits : Fits chQ chP buffer) (hroom : ∀ ds, Offers chQ chP ds → RoomFor chQ ds)
    (hround : Round (clients q) (clients p) g.channelId buffer outcome client') :
    outcome = .ok () ∧ ∃ chQ', client'.channels.get g.channelId = some chQ' ∧ Ahead chQ' chP := by
  obtain ⟨logs,hlogs⟩ := h.logs
  obtain ⟨ds,hoffers,_,hreceive⟩ := hlogs.receives_of_round hp hq hmax hround
  have hall := fitting_all (hfits ds hoffers)
  have hroom' : RoomFor chQ (fitting buffer.length ds) := by
    rw [hall]
    exact hroom ds hoffers
  obtain ⟨before,es,rest,client1,chQ',hsplit,hbefore,hdata,hes,hok,hq',hlogs'⟩ :=
    hlogs.receives hp hq hoffers hroom'
  rw [hreceive] at hok
  cases hok
  obtain rfl : rest = [] := by
    have hlength := congrArg List.length (hall.symm.trans hes)
    rw [hdata,List.length_map,List.length_map,List.length_append] at hlength
    exact List.eq_nil_of_length_eq_zero (by omega)
  refine ⟨rfl,chQ',hq',((hlogs.keeps p).story chP hp).ahead ((hlogs'.keeps q).story chQ' ?_) (fun e he => ?_)⟩
  · rw [Function.update_self]
    exact hq'
  · rw [Function.update_self,List.mem_append,mem_news]
    have hmem := he
    rw [hsplit,List.append_nil] at hmem
    rcases List.mem_append.mp hmem with hmem | hmem
    · exact Or.inl (hbefore e hmem)
    · by_cases hheld : e.bytes ∈ (logs q).map Entry.bytes
      · exact Or.inl (hlogs.mem_of_bytes he hheld)
      · exact Or.inr ⟨hmem,hheld⟩

/-- A round brings something new exactly if the buffer reaches what is lacking; and then rounds come to an end. -/
theorem Honest.rounds_progress (h : Honest g clients) (hq : (clients q).channels.get g.channelId = some chQ)
    (hp : (clients p).channels.get g.channelId = some chP) (hmax : buffer.length ≤ isizeMax)
    (hroom : ∀ ds, Offers chQ chP ds → RoomFor chQ (fitting buffer.length ds)) :
    (Progresses (clients q) (clients p) g.channelId buffer ↔ Within chQ chP buffer ∧ Counted chQ chP buffer) ∧
      ∀ run : Nat → D → Client maxChannels maxNodes slabSize C P S, run 0 = clients →
        (∀ i, CaughtUp g.channelId p q (run i) ∨ Syncs g.channelId p q (run i) (run (i+1))) →
        ∃ n, CaughtUp g.channelId p q (run n) := by
  obtain ⟨logs,hlogs⟩ := h.logs
  refine ⟨⟨hlogs.within_of_progresses hp hq hmax,fun hround => ?_⟩,hlogs.caught⟩
  exact hlogs.progresses hp hq hmax hroom hround.1 hround.2

end Round

section Pair

open PlainCrypto

/-- A requester with slabs enough, and wide enough, has room for what comes. -/
theorem roomFor_of_length {ch : Channel 2 256 PlainCrypto U64} {sent : List Bytes}
    (hslabs : (ch.storage.io.slabCount+sent.length)*256 ≤ ch.storage.io.data.length)
    (hshort : ∀ b ∈ sent, b.length ≤ 168) : RoomFor ch sent := by
  have hinit : SlabWriter.initialOffset+u32Size = 16 := rfl
  intro es held c _ hes _ _
  have hdata := (recordsFrom_data : (recordsFrom c.sequence ch.chat.messageCount (news held es)).map Record.data = _)
  have hcount : (recordsFrom c.sequence ch.chat.messageCount (news held es)).length ≤ sent.length := by
    have hlength := congrArg List.length hdata
    rw [List.length_map,List.length_map] at hlength
    rw [hlength,←hes,List.length_map]
    exact List.length_filter_le _ _
  refine ⟨(Nat.mul_le_mul_right _ (by omega)).trans hslabs,fun r hr => ?_⟩
  have hmem : r.data ∈ (news held es).map Entry.bytes := by
    rw [←hdata]
    exact List.mem_map.mpr ⟨r,hr,rfl⟩
  obtain ⟨e,he,hbytes⟩ := List.mem_map.mp hmem
  have hlen := hshort e.bytes (by rw [←hes]; exact List.mem_map.mpr ⟨e,(mem_news.mp he).1,rfl⟩)
  have hbound := record_bounded r (by rw [←hbytes]; omega)
  rw [slabBytes_single]
  rw [←hbytes] at hbound
  omega

/-- The requester has the first of the two records of the responder. -/
structure PairState (chQ chP : Channel 2 256 PlainCrypto U64) (first second : Bytes) : Prop where
  requester : (pairClients false).channels.get pair.channelId = some chQ
  responder : (pairClients true).channels.get pair.channelId = some chP
  asks : chQ.state.listNodes.map NodeSequence.clock = [⟨nodeOf 1,1⟩]
  reached : chP.state.listNodes.map NodeSequence.clock = [⟨nodeOf 1,2⟩]
  one : chQ.storage.records = .ok [first]
  both : chP.storage.records = .ok [first,second]
  lengths : first.length = 107 ∧ second.length = 104
  memory : chQ.storage.io.slabCount = 1 ∧ chQ.storage.io.data.length = 1024
  start : chP.storage.getCursorFromSequence 1 = chP.storage.getCursorFromSequence 0

theorem pair_state : ∃ chQ chP first second, PairState chQ chP first second := by
  have hfirst : (follower.channels.get (chatId 1)).map (fun ch => (ch.storage.records.value,ch.storage.io.slabCount,
      ch.storage.io.data.length)) = (greeter.channels.get (chatId 1)).map (fun ch =>
        (ch.storage.records.value.map (List.take 1),1,1024)) := by decide +kernel
  have hstored : (greeter.channels.get (chatId 1)).map (fun ch => (ch.storage.records.value.map (List.map List.length),
      decide (ch.storage.getCursorFromSequence 1 = ch.storage.getCursorFromSequence 0))) =
        some (some [107,104],true) := by decide +kernel
  obtain ⟨chQ,_,_,hq,hclocksQ,_⟩ := shown_eq_some follower_shown
  obtain ⟨chP,_,held,hp,hclocksP,_,_,hheld,_⟩ := shown_eq_some greeter_shown
  rw [hq,hp] at hfirst
  rw [hp] at hstored
  simp only [Option.map_some,Option.some.injEq,Prod.mk.injEq,decide_eq_true_eq,hheld,Outcome.value,
    List.map_eq_cons_iff,List.map_eq_nil_iff] at hfirst hstored
  obtain ⟨⟨first,_,rfl,hlen1,second,_,rfl,hlen2,rfl⟩,hstart⟩ := hstored
  refine ⟨chQ,chP,first,second,?_,?_,hclocksQ,hclocksP,?_,hheld,⟨hlen1,hlen2⟩,hfirst.2,hstart⟩
  · rw [pairClients,if_neg (by decide)]
    exact hq
  · rw [pairClients,if_pos rfl]
    exact hp
  · exact Outcome.value_eq_some.mp hfirst.1

namespace PairState

variable {chQ chP : Channel 2 256 PlainCrypto U64} {first second : Bytes} {ds : List Bytes}

theorem knows (h : PairState chQ chP first second) : ∃ n ∈ chQ.state.listNodes, n.node = nodeOf 1 ∧ n.sequence = 1 := by
  have hclock : (⟨nodeOf 1,1⟩ : Clock) ∈ chQ.state.listNodes.map NodeSequence.clock := by
    rw [h.asks]
    exact List.mem_singleton.mpr rfl
  obtain ⟨n,hn,hsame⟩ := List.mem_map.mp hclock
  exact ⟨n,hn,congrArg Clock.node hsame,congrArg Clock.sequence hsame⟩

theorem reaches (h : PairState chQ chP first second) {n : NodeSequence U64} (hn : n ∈ chP.state.listNodes) :
    n.node = nodeOf 1 ∧ n.sequence = 2 := by
  have hclock : n.clock ∈ chP.state.listNodes.map NodeSequence.clock := List.mem_map.mpr ⟨n,hn,rfl⟩
  rw [h.reached,List.mem_singleton] at hclock
  exact ⟨congrArg Clock.node hclock,congrArg Clock.sequence hclock⟩

theorem startsAt (h : PairState chQ chP first second) {least : U64} (hstarts : StartsAt chQ chP least) : least = 1 := by
  obtain ⟨m,hm,hnode,_⟩ := h.knows
  rcases hstarts.1 with ⟨n,hn,rfl⟩ | ⟨n,hn,hno,_⟩
  · have hclock : n.clock ∈ chQ.state.listNodes.map NodeSequence.clock := List.mem_map.mpr ⟨n,hn,rfl⟩
    rw [h.asks,List.mem_singleton] at hclock
    exact congrArg Clock.sequence hclock
  · exact absurd (hnode.trans (h.reaches hn).1.symm) (hno m hm)

/-- The round starts at the record that the requester has. -/
theorem offers (h : PairState chQ chP first second) (hoffers : Offers chQ chP ds) : ds = [first,second] := by
  obtain ⟨logs,hlogs⟩ := pairClients_honest.logs
  have hfiled := (hlogs.keeps true).filed chP h.responder
  obtain ⟨least,cursor,hstarts,hcursor,hreads⟩ := hoffers
  rw [h.startsAt hstarts,h.start] at hcursor
  have hall := hfiled.holds.reads_fromSequence hfiled.blank hcursor
  have hzero : ∀ records : List Record, fromSequence 0 records = records := by
    intro records
    cases records with
    | nil => rfl
    | cons r records => exact List.dropWhile_cons_of_neg (by simp)
  rw [flatten_singles,hzero] at hall
  have hrecords := hfiled.records
  rw [h.both] at hrecords
  rw [hreads.unique hall,recordsFrom_data]
  exact (Outcome.ok.inj hrecords).symm

theorem offered (h : PairState chQ chP first second) : Offers chQ chP [first,second] := by
  obtain ⟨logs,hlogs⟩ := pairClients_honest.logs
  have hne : logs true ≠ [] := by
    intro hnil
    have hrecords := ((hlogs.keeps true).filed chP h.responder).records
    rw [h.both,hnil] at hrecords
    cases hrecords
  obtain ⟨c,hcur,htop⟩ := ((hlogs.keeps true).story chP h.responder).topped
  obtain ⟨n,hn,_⟩ := hlogs.knows_creator h.responder
  obtain ⟨m,hm,_,hseq⟩ := h.knows
  have hle : m.sequence ≤ c.sequence := by
    have htwo := hlogs.sequence_le_top h.responder hn
    rw [(h.reaches hn).2] at htwo
    rw [hseq,htop]
    exact le_trans (by decide) htwo
  obtain ⟨ds,hoffers⟩ := hlogs.offered h.responder h.requester hne (Or.inl ⟨m,hm,c,hcur,hle⟩)
  have hsame := h.offers hoffers
  rwa [hsame] at hoffers

theorem room (h : PairState chQ chP first second) (hoffers : Offers chQ chP ds) {sent : List Bytes}
    (hsent : sent <+: ds) : RoomFor chQ sent := by
  obtain ⟨h1,h2⟩ := h.lengths
  obtain ⟨hslabs,hdata⟩ := h.memory
  rw [h.offers hoffers] at hsent
  have hfew : sent.length ≤ 2 := hsent.length_le
  refine roomFor_of_length (by rw [hslabs,hdata]; omega) (fun b hb => ?_)
  rcases List.mem_cons.mp (hsent.subset hb) with rfl | hb
  · omega
  · rw [List.mem_singleton.mp hb]
    omega

theorem lacks (h : PairState chQ chP first second) : second ∉ [first] := by
  obtain ⟨h1,h2⟩ := h.lengths
  intro hsame
  have hlength := congrArg List.length (List.mem_singleton.mp hsame)
  omega

theorem within (h : PairState chQ chP first second) {buffer : Bytes} :
    Within chQ chP buffer ↔ 219 ≤ buffer.length := by
  obtain ⟨h1,h2⟩ := h.lengths
  have hlen : lenSize = 4 := rfl
  have hall : (sendFrames [first,second]).length = 219 := by
    rw [sendFrames_cons_length,sendFrames_cons_length,sendFrames_nil,List.length_nil]
    omega
  constructor
  · rintro ⟨before,b,after,held,hoffers,hheld,hlack,hfits⟩
    rw [h.one] at hheld
    cases hheld
    have hsplit := h.offers hoffers
    cases before with
    | nil =>
      rw [List.nil_append] at hsplit
      exact absurd (List.mem_singleton.mpr (List.cons.inj hsplit).1) hlack
    | cons x before =>
      have hrest : before ++ b::after = [second] := (List.cons.inj hsplit).2
      have hcount := congrArg List.length hrest
      rw [List.length_append,List.length_cons,List.length_singleton] at hcount
      obtain rfl : before = [] := List.eq_nil_of_length_eq_zero (by omega)
      obtain ⟨rfl,_⟩ := List.cons.inj hsplit
      obtain ⟨rfl,_⟩ := List.cons.inj hrest
      rw [←hall]
      exact hfits
  · intro hlarge
    exact ⟨[first],second,[],_,h.offered,h.one,h.lacks,by rw [←hall] at hlarge; exact hlarge⟩

end PairState

/-- A buffer that holds any of the two records, but not both, brings nothing new. -/
theorem pair_stalls : ∃ chQ chP held, Honest pair pairClients ∧
    (pairClients false).channels.get pair.channelId = some chQ ∧
    (pairClients true).channels.get pair.channelId = some chP ∧ ¬Ahead chQ chP ∧ chP.storage.records = .ok held ∧
    (∀ b ∈ held, b.length+lenSize ≤ (List.replicate 150 (0 : UInt8)).length) ∧
    (∀ ds, Offers chQ chP ds → RoomFor chQ ds) ∧
    ¬Progresses (pairClients false) (pairClients true) pair.channelId (List.replicate 150 0) := by
  obtain ⟨chQ,chP,first,second,h⟩ := pair_state
  obtain ⟨logs,hlogs⟩ := pairClients_honest.logs
  obtain ⟨h1,h2⟩ := h.lengths
  have hlen : lenSize = 4 := rfl
  have hbuffer : (List.replicate 150 (0 : UInt8)).length = 150 := List.length_replicate
  refine ⟨chQ,chP,_,pairClients_honest,h.requester,h.responder,fun hahead => ?_,h.both,fun b hb => ?_,
    fun ds hoffers => h.room hoffers (List.prefix_refl ds),fun hprogress => ?_⟩
  · obtain ⟨n,hn,_⟩ := hlogs.knows_creator h.responder
    obtain ⟨m,hm,_,hle⟩ := hahead n hn
    have hclock : m.clock ∈ chQ.state.listNodes.map NodeSequence.clock := List.mem_map.mpr ⟨m,hm,rfl⟩
    rw [h.asks,List.mem_singleton] at hclock
    have hseq : m.sequence = 1 := congrArg Clock.sequence hclock
    rw [(h.reaches hn).2,hseq] at hle
    exact absurd hle (by decide)
  · rcases List.mem_cons.mp hb with rfl | hb
    · omega
    · rw [List.mem_singleton.mp hb]
      omega
  · have hmax : (List.replicate 150 (0 : UInt8)).length ≤ isizeMax := by
      rw [hbuffer]
      decide
    have hwithin := h.within.mp (hlogs.within_of_progresses h.responder h.requester hmax hprogress).1
    omega

/-- A buffer that holds both does. -/
theorem pair_progresses : Progresses (pairClients false) (pairClients true) pair.channelId (List.replicate 219 0) := by
  obtain ⟨chQ,chP,first,second,h⟩ := pair_state
  have hbuffer : (List.replicate 219 (0 : UInt8)).length = 219 := List.length_replicate
  have hmax : (List.replicate 219 (0 : UInt8)).length ≤ isizeMax := by
    rw [hbuffer]
    decide
  have hcounted : Counted chQ chP (List.replicate 219 0) := counted_of_small (by rw [hbuffer]; decide)
  exact (pairClients_honest.rounds_progress h.requester h.responder hmax
    (fun ds hoffers => h.room hoffers (fitting_begins _ ds))).1.mpr ⟨h.within.mpr (by rw [hbuffer]),hcounted⟩

/-- One such round is enough for the other device. -/
theorem pair_suffices : ∃ chQ chP chQ' client', (pairClients false).channels.get pair.channelId = some chQ ∧
    (pairClients true).channels.get pair.channelId = some chP ∧
    Round (pairClients false) (pairClients true) pair.channelId (List.replicate 1024 0) (.ok ()) client' ∧
    client'.channels.get pair.channelId = some chQ' ∧ Ahead chQ' chP := by
  obtain ⟨chQ,chP,first,second,h⟩ := pair_state
  obtain ⟨logs,hlogs⟩ := pairClients_honest.logs
  obtain ⟨h1,h2⟩ := h.lengths
  have hlen : lenSize = 4 := rfl
  have hbuffer : (List.replicate 1024 (0 : UInt8)).length = 1024 := List.length_replicate
  have hmax : (List.replicate 1024 (0 : UInt8)).length ≤ isizeMax := by
    rw [hbuffer]
    decide
  have hcounted : Counted chQ chP (List.replicate 1024 0) := counted_of_small (by rw [hbuffer]; decide)
  obtain ⟨client',_,_,_,_,_,hround,_⟩ := hlogs.progresses h.responder h.requester hmax
    (fun ds hoffers => h.room hoffers (fitting_begins _ ds)) (h.within.mpr (by rw [hbuffer]; omega)) hcounted
  have hfits : Fits chQ chP (List.replicate 1024 0) := by
    intro ds hoffers
    rw [h.offers hoffers,sendFrames_cons_length,sendFrames_cons_length,sendFrames_nil,List.length_nil]
    omega
  obtain ⟨_,chQ',hq',hahead⟩ := pairClients_honest.round_suffices h.requester h.responder hmax hfits
    (fun ds hoffers => h.room hoffers (List.prefix_refl ds)) hround
  exact ⟨chQ,chP,chQ',client',h.requester,h.responder,hround,hq',hahead⟩

end Pair

end Finder
