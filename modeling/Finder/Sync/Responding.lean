import Finder.Sync.Coverage
import Finder.Sync.Group

namespace Finder

variable {maxChannels maxNodes slabSize : Nat} {D C P S : Type}

section Top

variable {least top count : U64} {log : List (Entry P)} {e : Entry P}

theorem seq_le_topFrom (he : e ∈ log) : e.message.sequence ≤ topFrom top log := by
  induction log generalizing top with
  | nil => cases he
  | cons x log ih =>
    rcases List.mem_cons.mp he with rfl | he
    · have hle : e.top top ≤ topFrom (e.top top) log := topFrom_le
      exact (le_max_right top e.message.sequence).trans hle
    · exact ih he

/-- The last record of a log reaches as far as the log does. -/
theorem recordsFrom_top (hne : log ≠ []) : ∃ r ∈ recordsFrom top count log, r.maxSequence = topFrom top log := by
  induction log generalizing top count with
  | nil => exact absurd rfl hne
  | cons x log ih =>
    by_cases hlast : log = []
    · subst hlast
      exact ⟨_,List.mem_cons_self,rfl⟩
    · obtain ⟨r,hr,htop⟩ : ∃ r ∈ recordsFrom (x.top top) (x.count count) log, r.maxSequence = topFrom (x.top top) log :=
        ih hlast
      exact ⟨r,List.mem_cons_of_mem _ hr,htop⟩

variable [Target] [RecordCodec] {st : Storage slabSize}

/-- A cursor is found as long as the log goes that far. -/
theorem Filed.cursor_found (h : Filed st.io log) (hne : log ≠ []) (hle : least ≤ topFrom 0 log) :
    ∃ cursor, st.getCursorFromSequence least = .ok (some cursor) := by
  obtain ⟨r,hr,htop⟩ : ∃ r ∈ recordsFrom 0 0 log, r.maxSequence = topFrom 0 log := recordsFrom_top hne
  have hfound : ((recordsFrom 0 0 log).find? (fun record => decide (record.maxSequence ≥ least))).isSome = true := by
    rw [List.find?_isSome]
    exact ⟨r,hr,by rw [htop]; exact decide_eq_true hle⟩
  obtain ⟨first,hfirst⟩ := Option.isSome_iff_exists.mp hfound
  obtain ⟨hreaches,pre,post,hsplit,hpre⟩ := List.find?_eq_some_iff_append.mp hfirst
  have hflat : ((recordsFrom 0 0 log).map (fun r => [r])).flatten = pre ++ first::post := by
    rw [flatten_singles]
    exact hsplit
  obtain ⟨cursor,hscan,_⟩ := h.holds.scan_found (fun record => decide (record.maxSequence ≥ least)) hflat
    (fun x hx => by simpa using hpre x hx) hreaches
  exact ⟨cursor,hscan⟩

theorem Filed.cursor_none (h : Filed st.io log) (hlt : topFrom 0 log < least) :
    st.getCursorFromSequence least = .ok none := by
  have hnone : st.scan (fun record => decide (record.maxSequence ≥ least)) = .ok none := by
    refine h.holds.scan_none h.blank (fun x hx => ?_)
    rw [flatten_singles] at hx
    exact decide_eq_false (not_le.mpr (lt_of_le_of_lt (recordsFrom_top_le x hx) hlt))
  exact hnone

end Top

namespace Logs

variable [Target] [IdealCrypto C P S] [RecordCodec] [Postcard (Message (Protocol P))] [EnvelopeCodec P]
  {g : Group D C P S} {clients : D → Client maxChannels maxNodes slabSize C P S} {logs : D → List (Entry P)}
  {p q : D} {chP chQ : Channel maxNodes slabSize C P} {e : Entry P}

theorem held (h : Logs g clients logs) (he : e ∈ logs p) : ∃ ch, (clients p).channels.get g.channelId = some ch := by
  cases hget : (clients p).channels.get g.channelId with
  | none =>
    rw [(h.keeps p).absent hget] at he
    cases he
  | some ch => exact ⟨ch,rfl⟩

theorem namesOwner (h : Logs g clients logs) (p : D) : Channel.NamesOwner g.creator (logs p) :=
  fun e he m hm => ((h.keeps p).proper e he).names m hm |>.1

/-- Only the owner adds users. -/
theorem adds (h : Logs g clients logs) (he : e ∈ logs p) {key : P} (hkey : e.message.data.added = some key) :
    e.sender = g.node g.owner := by
  obtain ⟨ch,hget⟩ := h.held he
  cases hdata : e.message.data with
  | newChannel m => simp [hdata,Protocol.added] at hkey
  | chatMessage m => simp [hdata,Protocol.added] at hkey
  | addUser m => exact (((h.keeps p).story ch hget).owner (h.namesOwner p)).2 e he m hdata

/-- Where a log has all that another one has of the owner, its table has all nodes of the other's. -/
theorem knows_mono (h : Logs g clients logs) (hp : (clients p).channels.get g.channelId = some chP)
    (hq : (clients q).channels.get g.channelId = some chQ)
    (hsub : ∀ e ∈ logs p, e.sender = g.node g.owner → e ∈ logs q) {n : NodeId}
    (hn : (chP.state.record n).isSome = true) : (chQ.state.record n).isSome = true := by
  rw [((h.keeps p).story chP hp).knows_iff] at hn
  rw [((h.keeps q).story chQ hq).knows_iff]
  obtain ⟨key,hkey | ⟨e,he,hkey⟩,hid⟩ := hn
  · exact ⟨key,Or.inl hkey,hid⟩
  · exact ⟨key,Or.inr ⟨e,hsub e he (h.adds he hkey),hkey⟩,hid⟩

/-- Of two tables of a group one has all nodes of the other one. -/
theorem knows_comparable (h : Logs g clients logs) (hp : (clients p).channels.get g.channelId = some chP)
    (hq : (clients q).channels.get g.channelId = some chQ) :
    (∀ n, (chP.state.record n).isSome = true → (chQ.state.record n).isSome = true) ∨
      ∀ n, (chQ.state.record n).isSome = true → (chP.state.record n).isSome = true := by
  have hsub : ∀ {a b : D}, entriesOf (g.node g.owner) (logs a) <+: entriesOf (g.node g.owner) (logs b) →
      ∀ e ∈ logs a, e.sender = g.node g.owner → e ∈ logs b :=
    fun hle e he hsender => (mem_byAuthor.mp (hle.subset (mem_byAuthor.mpr ⟨he,hsender⟩))).1
  rcases List.prefix_or_prefix_of_prefix (h.coherent.shared p g.owner) (h.coherent.shared q g.owner) with hle | hle
  · exact Or.inl (fun n => h.knows_mono hp hq (hsub hle))
  · exact Or.inr (fun n => h.knows_mono hq hp (hsub hle))

theorem nodes_sorted (h : Logs g clients logs) (hp : (clients p).channels.get g.channelId = some chP) :
    SortedBy NodeSequence.node chP.state.listNodes := ((h.keeps p).sound _ chP hp).valid.sorted

/-- So a response always has room for the merged clock. -/
theorem merged_length (h : Logs g clients logs) (hp : (clients p).channels.get g.channelId = some chP)
    (hq : (clients q).channels.get g.channelId = some chQ) :
    (mergedClocks chP.state.listNodes (chQ.state.listNodes.map NodeSequence.clock)).length ≤ maxNodes := by
  have hsortedP := h.nodes_sorted hp
  have hsortedQ := h.nodes_sorted hq
  have hclocks : SortedBy Clock.node (chQ.state.listNodes.map NodeSequence.clock) := List.pairwise_map.mpr hsortedQ
  have hcard : ∀ nodes : List (NodeSequence P), nodes.length ≤ maxNodes →
      ((nodes.map NodeSequence.node).toFinset).card ≤ maxNodes := by
    intro nodes hlen
    refine (List.toFinset_card_le _).trans ?_
    rwa [List.length_map]
  have hunion : ∀ {ch ch' : Channel maxNodes slabSize C P}, ch.state.Sorted → ch'.state.Sorted →
      (∀ n, (ch.state.record n).isSome = true → (ch'.state.record n).isSome = true) →
      ∀ r ∈ ch.state.listNodes, r.node ∈ (ch'.state.listNodes.map NodeSequence.node).toFinset := by
    intro ch ch' hs hs' hsub r hr
    have hknown := hsub r.node (by rw [hs.record_of_mem hr]; rfl)
    obtain ⟨r',hr'⟩ := Option.isSome_iff_exists.mp hknown
    exact List.mem_toFinset.mpr (List.mem_map.mpr ⟨r',ChannelState.record_mem hr',ChannelState.record_node hr'⟩)
  rw [mergedClocks_length hsortedP hclocks]
  rcases h.knows_comparable hp hq with hsub | hsub
  · refine (Finset.card_le_card ?_).trans (hcard chQ.state.listNodes chQ.state.nodes.bounded)
    intro n hn
    rcases mem_unionNodes.mp hn with ⟨c,hc,rfl⟩ | ⟨r,hr,rfl⟩
    · obtain ⟨r,hr,rfl⟩ := List.mem_map.mp hc
      exact List.mem_toFinset.mpr (List.mem_map.mpr ⟨r,hr,rfl⟩)
    · exact hunion hsortedP hsortedQ hsub r hr
  · refine (Finset.card_le_card ?_).trans (hcard chP.state.listNodes chP.state.nodes.bounded)
    intro n hn
    rcases mem_unionNodes.mp hn with ⟨c,hc,rfl⟩ | ⟨r,hr,rfl⟩
    · obtain ⟨r,hr,rfl⟩ := List.mem_map.mp hc
      exact hunion hsortedQ hsortedP hsub r hr
    · exact List.mem_toFinset.mpr (List.mem_map.mpr ⟨r,hr,rfl⟩)

/-- The first two calls of a round always return, with the merged clock of both sides. -/
theorem start_ok (h : Logs g clients logs) (hp : (clients p).channels.get g.channelId = some chP)
    (hq : (clients q).channels.get g.channelId = some chQ) (request : SyncRequest maxNodes)
    (state : SyncResponderState maxNodes) :
    ∃ request' state', (clients q).finishSyncRequest g.channelId request = (.ok (),request') ∧
      (clients p).startSyncResponse g.channelId request' state = (.ok (),state') ∧
      request'.vectorClock.toList = chQ.state.listNodes.map NodeSequence.clock ∧
      state'.vectorClock.toList = mergedClocks chP.state.listNodes (chQ.state.listNodes.map NodeSequence.clock) := by
  obtain ⟨clocks,hclocks,hfinish⟩ := finishSyncRequest_ok hq request
  obtain ⟨merged,hmerged⟩ : ∃ v : HVec Clock maxNodes,
      v.toList = mergedClocks chP.state.listNodes (chQ.state.listNodes.map NodeSequence.clock) :=
    ⟨⟨_,h.merged_length hp hq⟩,rfl⟩
  refine ⟨_,_,hfinish,startSyncResponse_ok hp _ state ?_,hclocks,hmerged⟩
  rw [hmerged,hclocks]

/-- Whatever a round merges, it is the clocks of both sides. -/
theorem merged (h : Logs g clients logs) (hp : (clients p).channels.get g.channelId = some chP)
    (hq : (clients q).channels.get g.channelId = some chQ) {request request' : SyncRequest maxNodes}
    {state state' : SyncResponderState maxNodes}
    (hfinish : (clients q).finishSyncRequest g.channelId request = (.ok (),request'))
    (hstart : (clients p).startSyncResponse g.channelId request' state = (.ok (),state')) :
    state'.vectorClock.toList = mergedClocks chP.state.listNodes (chQ.state.listNodes.map NodeSequence.clock) := by
  obtain ⟨_,_,hfinish',hstart',_,hclocks⟩ := h.start_ok hp hq request state
  rw [hfinish] at hfinish'
  cases hfinish'
  rw [hstart] at hstart'
  cases hstart'
  exact hclocks

/-- A table has none of its nodes beyond what has come in. -/
theorem sequence_le_top (h : Logs g clients logs) (hp : (clients p).channels.get g.channelId = some chP)
    {n : NodeSequence P} (hn : n ∈ chP.state.listNodes) : n.sequence ≤ topFrom 0 (logs p) := by
  obtain ⟨hreached,_⟩ := ((h.keeps p).story chP hp).chained n.node
  have hsorted : chP.state.Sorted := h.nodes_sorted hp
  rw [ChannelState.sequenceOf_eq (hsorted.record_of_mem hn)] at hreached
  rw [Fin.le_def,hreached]
  rcases tip_mem Entry.seq 0 (entriesOf n.node (logs p)) with hzero | ⟨e,he,htip⟩
  · rw [hzero]
    exact Nat.zero_le _
  · rw [←htip]
    exact seq_le_topFrom (mem_byAuthor.mp he).1

end Logs

/-- A round starts at the least of the sequences that the requester is at, and of the first ones of the nodes that
only the responder knows. -/
def StartsAt (chQ chP : Channel maxNodes slabSize C P) (least : U64) : Prop :=
  IsLeast { s | (∃ n ∈ chQ.state.listNodes, n.sequence = s) ∨
    ∃ n ∈ chP.state.listNodes, (∀ m ∈ chQ.state.listNodes, m.node ≠ n.node) ∧ n.firstSequence = s } least

/-- The requester has a node that is not beyond all that the responder has, or lacks one of its nodes. -/
def Reaches (chQ chP : Channel maxNodes slabSize C P) : Prop :=
  (∃ n ∈ chQ.state.listNodes, ∃ c, chP.state.getCurrent = .ok c ∧ n.sequence ≤ c.sequence) ∨
    ∃ n ∈ chP.state.listNodes, ∀ m ∈ chQ.state.listNodes, m.node ≠ n.node

/-- What the responder has from the start of a round on. -/
def Offers [Target] [Postcard Record] (chQ chP : Channel maxNodes slabSize C P) (ds : List Bytes) : Prop :=
  ∃ least cursor, StartsAt chQ chP least ∧ chP.storage.getCursorFromSequence least = .ok (some cursor) ∧
    Reads chP.storage cursor ds

/-- As much of it as the buffer has room for can be counted. -/
def Counted [Target] [Postcard Record] (chQ chP : Channel maxNodes slabSize C P) (buffer : Bytes) : Prop :=
  ∀ ds, Offers chQ chP ds → (fitting buffer.length ds).length ≤ u32Max

theorem count_le_sendFrames (ds : List Bytes) : ds.length ≤ (sendFrames ds).length := by
  induction ds with
  | nil => exact le_refl _
  | cons d ds ih =>
    rw [sendFrames_cons_length,List.length_cons,lenSize,u32Size]
    omega

/-- A buffer of less than 4 GiB never holds too many. -/
theorem counted_of_small [Target] [Postcard Record] {chQ chP : Channel maxNodes slabSize C P} {buffer : Bytes}
    (h : buffer.length ≤ u32Max) : Counted chQ chP buffer :=
  fun ds _ => (count_le_sendFrames _).trans ((fitting_length buffer.length ds).trans h)

section Starts

variable {chP chQ : Channel maxNodes slabSize C P} {state : SyncResponderState maxNodes} {least : U64}

theorem startsAt_iff (hsortedP : SortedBy NodeSequence.node chP.state.listNodes)
    (hsortedQ : SortedBy NodeSequence.node chQ.state.listNodes)
    (hclocks : state.vectorClock.toList =
      mergedClocks chP.state.listNodes (chQ.state.listNodes.map NodeSequence.clock)) :
    StartsAt chQ chP least ↔ state.getMinSequence = some least := by
  have hclocked : SortedBy Clock.node (chQ.state.listNodes.map NodeSequence.clock) := List.pairwise_map.mpr hsortedQ
  have hmem : ∀ s, (∃ c ∈ state.vectorClock.toList, c.sequence = s) ↔ (∃ n ∈ chQ.state.listNodes, n.sequence = s) ∨
      ∃ n ∈ chP.state.listNodes, (∀ m ∈ chQ.state.listNodes, m.node ≠ n.node) ∧ n.firstSequence = s := by
    intro s
    rw [hclocks]
    constructor
    · rintro ⟨c,hc,rfl⟩
      rcases (mem_mergedClocks hsortedP hclocked).mp hc with hc | ⟨n,hn,hno,rfl⟩
      · obtain ⟨n,hn,rfl⟩ := List.mem_map.mp hc
        exact Or.inl ⟨n,hn,rfl⟩
      · exact Or.inr ⟨n,hn,fun m hm => hno m.clock (List.mem_map.mpr ⟨m,hm,rfl⟩),rfl⟩
    · rintro (⟨n,hn,rfl⟩ | ⟨n,hn,hno,rfl⟩)
      · exact ⟨n.clock,subset_mergedClocks (List.mem_map.mpr ⟨n,hn,rfl⟩),rfl⟩
      · refine ⟨n.firstClock,firstClock_mem_mergedClocks hn (fun c hc => ?_),rfl⟩
        obtain ⟨m,hm,rfl⟩ := List.mem_map.mp hc
        exact hno m hm
  rw [getMinSequence_eq_some]
  constructor
  · rintro ⟨hfound,hlower⟩
    exact ⟨(hmem least).mpr hfound,fun c hc => hlower ((hmem c.sequence).mp ⟨c,hc,rfl⟩)⟩
  · rintro ⟨hfound,hlower⟩
    refine ⟨(hmem least).mp hfound,fun s hs => ?_⟩
    obtain ⟨c,hc,rfl⟩ := (hmem s).mpr hs
    exact hlower c hc

theorem getMinSequence_ok {c : Clock} (hc : c ∈ state.vectorClock.toList) :
    ∃ least, state.getMinSequence = some least := by
  unfold SyncResponderState.getMinSequence
  cases hclocks : state.vectorClock.toList with
  | nil =>
    rw [hclocks] at hc
    cases hc
  | cons x clocks => exact ⟨_,rfl⟩

end Starts

/-- The requester has of every node of the responder what the responder has. -/
def Ahead (chQ chP : Channel maxNodes slabSize C P) : Prop :=
  ∀ n ∈ chP.state.listNodes, ∃ m ∈ chQ.state.listNodes, m.node = n.node ∧ n.sequence ≤ m.sequence

/-- The three calls of a round return, and a requester that is ahead is sent only what it has stored. -/
def Responds [Target] [Postcard Record] (requester responder : Client maxChannels maxNodes slabSize C P S)
    (channelId : ChannelId) (chQ chP : Channel maxNodes slabSize C P) (request : SyncRequest maxNodes)
    (state : SyncResponderState maxNodes) (buffer : Bytes) : Prop :=
  ∃ request' state' count offset filled, requester.finishSyncRequest channelId request = (.ok (),request') ∧
    responder.startSyncResponse channelId request' state = (.ok (),state') ∧
    responder.fillSendBuffer channelId state' buffer = (.ok (count,offset),filled) ∧
    (Ahead chQ chP → ∃ sent held, filled.take offset = sendFrames sent ∧ count = sent.length ∧
      chQ.storage.records = .ok held ∧ ∀ b ∈ sent, b ∈ held)

namespace Logs

variable [Target] [IdealCrypto C P S] [RecordCodec] [Postcard (Message (Protocol P))] [EnvelopeCodec P]
  {g : Group D C P S} {clients : D → Client maxChannels maxNodes slabSize C P S} {logs : D → List (Entry P)}
  {p q : D} {chP chQ : Channel maxNodes slabSize C P} {least : U64} {buffer : Bytes}

/-- The creator is in every table. -/
theorem knows_creator (h : Logs g clients logs) (hp : (clients p).channels.get g.channelId = some chP) :
    ∃ n ∈ chP.state.listNodes, n.node = g.node g.owner := by
  have hknown : (chP.state.record (g.node g.owner)).isSome = true := by
    rw [((h.keeps p).story chP hp).knows_iff]
    exact ⟨g.creator,Or.inl rfl,rfl⟩
  obtain ⟨n,hn⟩ := Option.isSome_iff_exists.mp hknown
  exact ⟨n,ChannelState.record_mem hn,ChannelState.record_node hn⟩

/-- The responder has a record to start at exactly if the requester does not name sequences beyond it only. -/
theorem reaches_iff (h : Logs g clients logs) (hp : (clients p).channels.get g.channelId = some chP)
    (hstarts : StartsAt chQ chP least) : least ≤ topFrom 0 (logs p) ↔ Reaches chQ chP := by
  obtain ⟨c,hcur,htop⟩ := ((h.keeps p).story chP hp).topped
  constructor
  · intro hle
    rcases hstarts.1 with ⟨n,hn,rfl⟩ | ⟨n,hn,hno,_⟩
    · exact Or.inl ⟨n,hn,c,hcur,by rwa [htop]⟩
    · exact Or.inr ⟨n,hn,hno⟩
  · rintro (⟨n,hn,c',hcur',hle⟩ | ⟨n,hn,hno⟩)
    · rw [hcur] at hcur'
      cases hcur'
      rw [←htop]
      exact (hstarts.2 (Or.inl ⟨n,hn,rfl⟩)).trans hle
    · -- a node starts no later than it is at
      have hsorted : chP.state.Sorted := h.nodes_sorted hp
      have hfirst := (((h.keeps p).story chP hp).first_le (hsorted.record_of_mem hn)).2.1
      exact (hstarts.2 (Or.inr ⟨n,hn,hno,rfl⟩)).trans (hfirst.trans (h.sequence_le_top hp hn))

/-- A requester that is ahead has all that the responder has. -/
theorem held_of_ahead (h : Logs g clients logs) (hp : (clients p).channels.get g.channelId = some chP)
    (hq : (clients q).channels.get g.channelId = some chQ) (hahead : Ahead chQ chP) : ∀ e ∈ logs p, e ∈ logs q := by
  intro e he
  rw [h.coherent.mem_iff he]
  obtain ⟨hreached,_⟩ := ((h.keeps q).story chQ hq).chained e.sender
  obtain ⟨r,hr,_,hle⟩ := ((h.keeps p).story chP hp).recorded he
  obtain ⟨m,hm,hnode,hless⟩ := hahead r (ChannelState.record_mem hr)
  have hsorted : chQ.state.Sorted := h.nodes_sorted hq
  have hknown := hsorted.record_of_mem hm
  rw [hnode,ChannelState.record_node hr] at hknown
  rw [ChannelState.sequenceOf_eq hknown] at hreached
  change _ ≤ tip Entry.seq 0 (entriesOf e.sender (logs q))
  rw [Fin.le_def] at hless
  omega

/-- Where nothing has the sequence a round starts at, it fails. -/
theorem reaches_of_responds (h : Logs g clients logs) (hp : (clients p).channels.get g.channelId = some chP)
    (hq : (clients q).channels.get g.channelId = some chQ) (hmax : buffer.length ≤ isizeMax)
    {request : SyncRequest maxNodes} {state : SyncResponderState maxNodes}
    (hresponds : Responds (clients q) (clients p) g.channelId chQ chP request state buffer) : Reaches chQ chP := by
  obtain ⟨request',state',count,offset,filled,hfinish,hstart,hfill,_⟩ := hresponds
  obtain ⟨least,cursor,_,hleast,hcursor,_⟩ := Client.fillSendBuffer_eq_ok hp hmax hfill
  have hstarts := (startsAt_iff (h.nodes_sorted hp) (h.nodes_sorted hq) (h.merged hp hq hfinish hstart)).mpr hleast
  rw [←h.reaches_iff hp hstarts]
  by_contra hlate
  rw [((h.keeps p).filed chP hp).cursor_none (not_le.mp hlate)] at hcursor
  cases hcursor

/-- Where there is too much to count, it panics. -/
theorem counted_of_responds (h : Logs g clients logs) (hp : (clients p).channels.get g.channelId = some chP)
    (hq : (clients q).channels.get g.channelId = some chQ) (hmax : buffer.length ≤ isizeMax)
    {request : SyncRequest maxNodes} {state : SyncResponderState maxNodes}
    (hresponds : Responds (clients q) (clients p) g.channelId chQ chP request state buffer) :
    Counted chQ chP buffer := by
  obtain ⟨request',state',count,offset,filled,hfinish,hstart,hfill,_⟩ := hresponds
  rintro ds ⟨least,cursor,hstarts,hcursor,hreads⟩
  have hleast := (startsAt_iff (h.nodes_sorted hp) (h.nodes_sorted hq) (h.merged hp hq hfinish hstart)).mp hstarts
  by_contra hmany
  have hpanic := (Client.fillSendBuffer_reads hp hmax hleast hcursor hreads).2 (not_le.mp hmany)
  rw [hfill] at hpanic
  cases hpanic

/-- A round that reaches the responder has something to start at. -/
theorem offered (h : Logs g clients logs) (hp : (clients p).channels.get g.channelId = some chP)
    (hq : (clients q).channels.get g.channelId = some chQ) (hne : logs p ≠ []) (hreaches : Reaches chQ chP) :
    ∃ ds, Offers chQ chP ds := by
  have hfiled := (h.keeps p).filed chP hp
  let request : SyncRequest maxNodes := ⟨0,0,HVec.empty⟩
  obtain ⟨request',state',hfinish,hstart,_,hclocks⟩ := h.start_ok hp hq request (SyncResponderState.new request)
  obtain ⟨n,hn,_⟩ := h.knows_creator hq
  obtain ⟨least,hleast⟩ : ∃ least, state'.getMinSequence = some least := by
    refine getMinSequence_ok (c := n.clock) ?_
    rw [hclocks]
    exact subset_mergedClocks (List.mem_map.mpr ⟨n,hn,rfl⟩)
  have hstarts := (startsAt_iff (h.nodes_sorted hp) (h.nodes_sorted hq) hclocks).mpr hleast
  obtain ⟨cursor,hcursor⟩ := hfiled.cursor_found hne ((h.reaches_iff hp hstarts).mpr hreaches)
  exact ⟨_,least,cursor,hstarts,hcursor,hfiled.holds.reads_fromSequence hfiled.blank hcursor⟩

/-- All that is offered has been stored. -/
theorem offers_stored (h : Logs g clients logs) (hp : (clients p).channels.get g.channelId = some chP) {ds : List Bytes}
    (hoffers : Offers chQ chP ds) : ∀ b ∈ ds, b ∈ (logs p).map Entry.bytes := by
  obtain ⟨least,cursor,_,hcursor,hreads⟩ := hoffers
  have hfiled := (h.keeps p).filed chP hp
  have hall := hfiled.holds.reads_fromSequence hfiled.blank hcursor
  rw [flatten_singles] at hall
  intro b hb
  rw [hreads.unique hall] at hb
  obtain ⟨r,hr,rfl⟩ := List.mem_map.mp hb
  rw [←(recordsFrom_data : (recordsFrom 0 0 (logs p)).map Record.data = (logs p).map Entry.bytes)]
  exact List.mem_map.mpr ⟨r,(List.dropWhile_sublist _).subset hr,rfl⟩

theorem responds (h : Logs g clients logs) (hp : (clients p).channels.get g.channelId = some chP)
    (hq : (clients q).channels.get g.channelId = some chQ) (hne : logs p ≠ []) (hmax : buffer.length ≤ isizeMax)
    (hreaches : Reaches chQ chP) (hcounted : Counted chQ chP buffer) (request : SyncRequest maxNodes)
    (state : SyncResponderState maxNodes) :
    Responds (clients q) (clients p) g.channelId chQ chP request state buffer := by
  obtain ⟨request',state',hfinish,hstart,_,hclocks⟩ := h.start_ok hp hq request state
  obtain ⟨ds,least,cursor,hstarts,hcursor,hreads⟩ := h.offered hp hq hne hreaches
  have hleast := (startsAt_iff (h.nodes_sorted hp) (h.nodes_sorted hq) hclocks).mp hstarts
  have hoffers : Offers chQ chP ds := ⟨least,cursor,hstarts,hcursor,hreads⟩
  have hfill := (Client.fillSendBuffer_reads hp hmax hleast hcursor hreads).1 (hcounted ds hoffers)
  refine ⟨request',state',_,_,_,hfinish,hstart,hfill,fun hahead => ?_⟩
  refine ⟨_,_,by simp [overwrite],rfl,((h.keeps q).filed chQ hq).records,fun b hb => ?_⟩
  have hsent := (fitting_begins _ _).subset hb
  obtain ⟨e,he,hbytes⟩ := List.mem_map.mp (h.offers_stored hp hoffers b hsent)
  exact List.mem_map.mpr ⟨e,h.held_of_ahead hp hq hahead e he,hbytes⟩

end Logs

section Answer

variable [Target] [DecidableEq D] [IdealCrypto C P S] [RecordCodec] [Postcard (Message (Protocol P))] [EnvelopeCodec P]
  [Postcard (NewChannel P)] {g : Group D C P S} {clients : D → Client maxChannels maxNodes slabSize C P S} {p q : D}
  {chP chQ : Channel maxNodes slabSize C P} {held : List Bytes} {buffer : Bytes}

/-- The responder answers exactly if the requester does not name sequences beyond it only, and what is sent can be
counted. -/
theorem Honest.responds_iff (h : Honest g clients) (hq : (clients q).channels.get g.channelId = some chQ)
    (hp : (clients p).channels.get g.channelId = some chP) (hstored : chP.storage.records = .ok held) (hne : held ≠ [])
    (hmax : buffer.length ≤ isizeMax) (request : SyncRequest maxNodes) (state : SyncResponderState maxNodes) :
    Responds (clients q) (clients p) g.channelId chQ chP request state buffer ↔
      Reaches chQ chP ∧ Counted chQ chP buffer := by
  obtain ⟨logs,hlogs⟩ := h.logs
  have hsome : logs p ≠ [] := by
    rintro hnil
    rw [((hlogs.keeps p).filed chP hp).records,hnil] at hstored
    cases hstored
    exact hne rfl
  constructor
  · intro hresponds
    exact ⟨hlogs.reaches_of_responds hp hq hmax hresponds,hlogs.counted_of_responds hp hq hmax hresponds⟩
  · rintro ⟨hreaches,hcounted⟩
    exact hlogs.responds hp hq hsome hmax hreaches hcounted request state

end Answer

section Pair

open PlainCrypto

/-- Two devices with a channel that the first one has made. -/
def pair : Group Bool PlainCrypto U64 U64 where
  keys d := if d then ⟨1,1⟩ else ⟨2,2⟩
  owner := true
  channelId := chatId 1
  paired d := by cases d <;> rfl
  distinct := by decide

/-- The owner after it has greeted. -/
def greeter : Client 2 2 256 PlainCrypto U64 U64 := (ClientCall.run (.sendMessage (chatId 1) Str.empty) owner).2

/-- The other device once the owner's first record has reached it. -/
def follower : Client 2 2 256 PlainCrypto U64 U64 :=
  (ClientCall.run (.receiveBuffer (chatId 1) (framed (sealedBy 1 (chatId 1) opening)) 1) joiner).2

def pairClients : Bool → Client 2 2 256 PlainCrypto U64 U64 := fun d => if d then greeter else follower

/-- The two devices before any call, and while they come to share the channel. -/
def pairNew : Bool → Client 2 2 256 PlainCrypto U64 U64 := fun d => if d then client 1 else client 2

theorem pairNew_honest : Honest pair pairNew := by
  have hnew : Honest pair (fun d => Client.new (pair.keys d) (⟨0⟩ : PlainCrypto) FnvIndexMap.empty :
      Bool → Client 2 2 256 PlainCrypto U64 U64) := .new (fun _ => (⟨0⟩ : PlainCrypto))
  have hsame : (fun d => Client.new (pair.keys d) (⟨0⟩ : PlainCrypto) FnvIndexMap.empty :
      Bool → Client 2 2 256 PlainCrypto U64 U64) = pairNew := by
    funext d
    cases d <;> rfl
  rwa [hsame] at hnew

def pairJoined : Bool → Client 2 2 256 PlainCrypto U64 U64 := fun d => if d then owner else joiner

theorem pairJoined_honest : Honest pair pairJoined := by
  have hio : (blankIo 256 4).Zeroed := blankIo_zeroed (by decide) (by decide +kernel)
  have hinit : (Client.initChat chatStr (blankIo 256 4) (client 1 : Client 2 2 256 PlainCrypto U64 U64)).1 =
      .ok (chatId 1) := by decide +kernel
  have howner : owner = (Client.initChat chatStr (blankIo 256 4) (client 1)).2 := by
    rw [owner,ClientCall.run,Call.bind_ok (run_eq hinit rfl),Call.pure_apply]
  have hjoin : (Client.addChannel 1 (chatId 1) (blankIo 256 4) (client 2 : Client 2 2 256 PlainCrypto U64 U64)).1 =
      .ok () := by decide +kernel
  have hjoined : Client.addChannel 1 (chatId 1) (blankIo 256 4) (client 2) = (.ok (),joiner) := run_eq hjoin rfl
  have h1 := Honest.initChat pairNew owner chatStr (blankIo 256 4) pairNew_honest rfl hio (run_eq hinit howner)
  have h2 := Honest.addChannel _ false joiner (blankIo 256 4) h1 (by decide) rfl hio hjoined
  have hsame : Function.update (Function.update pairNew pair.owner owner) false joiner = pairJoined := by
    funext d
    cases d <;> rfl
  rwa [hsame] at h2

theorem pairClients_honest : Honest pair pairClients := by
  have hreceive : (Client.receiveBuffer (chatId 1) (framed (sealedBy 1 (chatId 1) opening)) 1 joiner).1 = .ok () := by
    decide +kernel
  have hreceived : Client.receiveBuffer (chatId 1) (framed (sealedBy 1 (chatId 1) opening)) 1 joiner =
      (.ok (),follower) := run_eq hreceive rfl
  have hsend : (Client.sendMessage (chatId 1) Str.empty owner).1 = .ok () := by decide +kernel
  have hsent : Client.sendMessage (chatId 1) Str.empty owner = (.ok (),greeter) := run_eq hsend rfl
  have hstored : (owner.channels.get (chatId 1)).map (fun ch => ch.storage.records.value) =
      some (some [sealedBy 1 (chatId 1) opening]) := by decide +kernel
  obtain ⟨ch,hch,hvalue⟩ := Option.map_eq_some_iff.mp hstored
  have hsmall : (framed (sealedBy 1 (chatId 1) opening)).length ≤ isizeMax := by decide +kernel
  have hdelivers : Delivers pairJoined (chatId 1) (framed (sealedBy 1 (chatId 1) opening)) 1 := by
    refine ⟨[sealedBy 1 (chatId 1) opening],rfl,?_,fun b hb => ⟨true,ch,_,?_,Outcome.value_eq_some.mp hvalue,hb⟩⟩
    · rw [sendFrames_cons,sendFrames_nil,List.append_nil]
      exact List.prefix_refl _
    · rw [pairJoined,if_pos rfl]
      exact hch
  have h1 := Honest.receiveBuffer pairJoined false follower _ 1 pairJoined_honest hsmall hdelivers hreceived
  have h2 := Honest.sendMessage _ true greeter Str.empty h1 hsent
  have hsame : Function.update (Function.update pairJoined false follower) true greeter = pairClients := by
    funext d
    cases d <;> rfl
  rwa [hsame] at h2

/-- What a client shows of its channel: its clocks, the newest sequence and how many records it has. -/
def shown (client : Client 2 2 256 PlainCrypto U64 U64) : Option (List Clock × Option U64 × Option Nat) :=
  (client.channels.get (chatId 1)).map (fun ch => (ch.state.listNodes.map NodeSequence.clock,
    ch.state.getCurrent.value.map NodeSequence.sequence,ch.storage.records.value.map List.length))

theorem shown_eq_some {client : Client 2 2 256 PlainCrypto U64 U64} {clocks : List Clock} {top : U64} {count : Nat}
    (h : shown client = some (clocks,some top,some count)) : ∃ ch c held, client.channels.get (chatId 1) = some ch ∧
      ch.state.listNodes.map NodeSequence.clock = clocks ∧ ch.state.getCurrent = .ok c ∧ c.sequence = top ∧
      ch.storage.records = .ok held ∧ held.length = count := by
  obtain ⟨ch,hch,hall⟩ := Option.map_eq_some_iff.mp h
  simp only [Prod.mk.injEq] at hall
  obtain ⟨hclocks,htop,hcount⟩ := hall
  obtain ⟨c,hc,hseq⟩ := Option.map_eq_some_iff.mp htop
  obtain ⟨held,hheld,hlength⟩ := Option.map_eq_some_iff.mp hcount
  exact ⟨ch,c,held,hch,hclocks,Outcome.value_eq_some.mp hc,hseq,Outcome.value_eq_some.mp hheld,hlength⟩

theorem greeter_shown : shown greeter = some ([⟨nodeOf 1,2⟩],some 2,some 2) := by decide +kernel

theorem follower_shown : shown follower = some ([⟨nodeOf 1,1⟩],some 1,some 1) := by decide +kernel

/-- The owner is ahead, and when it asks the other device there is no record to start at. -/
theorem greeter_unanswered : ∃ chQ chP held, Honest pair pairClients ∧
    (pairClients true).channels.get pair.channelId = some chQ ∧
    (pairClients false).channels.get pair.channelId = some chP ∧ chP.storage.records = .ok held ∧ held ≠ [] ∧
    ¬Responds (pairClients true) (pairClients false) pair.channelId chQ chP ⟨0,0,HVec.empty⟩
      (SyncResponderState.new ⟨0,0,HVec.empty⟩) (List.replicate 1024 0) := by
  obtain ⟨chQ,_,_,hq,hclocksQ,_⟩ := shown_eq_some greeter_shown
  obtain ⟨chP,c,held,hp,hclocksP,hcur,htop,hheld,hcount⟩ := shown_eq_some follower_shown
  have hownQ : (pairClients true).channels.get pair.channelId = some chQ := by
    rw [pairClients,if_pos rfl]
    exact hq
  have hownP : (pairClients false).channels.get pair.channelId = some chP := by
    rw [pairClients,if_neg (by decide)]
    exact hp
  refine ⟨chQ,chP,held,pairClients_honest,hownQ,hownP,hheld,?_,fun hresponds => ?_⟩
  · rintro rfl
    cases hcount
  obtain ⟨logs,hlogs⟩ := pairClients_honest.logs
  have hsmall : (List.replicate 1024 (0 : UInt8)).length ≤ isizeMax := by
    rw [List.length_replicate]
    decide
  rcases hlogs.reaches_of_responds hownP hownQ hsmall hresponds with ⟨n,hn,c',hcur',hle⟩ | ⟨n,hn,hno⟩
  · have hclock : n.clock ∈ chQ.state.listNodes.map NodeSequence.clock := List.mem_map.mpr ⟨n,hn,rfl⟩
    rw [hclocksQ,List.mem_singleton] at hclock
    have hseq : n.sequence = 2 := congrArg Clock.sequence hclock
    rw [hcur] at hcur'
    cases hcur'
    rw [hseq,htop] at hle
    exact absurd hle (by decide)
  · -- the only node is known to both
    have hclock : n.clock ∈ chP.state.listNodes.map NodeSequence.clock := List.mem_map.mpr ⟨n,hn,rfl⟩
    rw [hclocksP,List.mem_singleton] at hclock
    have hfirst : (⟨nodeOf 1,2⟩ : Clock) ∈ chQ.state.listNodes.map NodeSequence.clock := by
      rw [hclocksQ]
      exact List.mem_singleton.mpr rfl
    obtain ⟨m,hm,hclock'⟩ := List.mem_map.mp hfirst
    exact hno m hm ((congrArg Clock.node hclock').trans (congrArg Clock.node hclock).symm)

/-- The other device is behind, and the owner answers it. -/
theorem follower_answered : ∃ chQ chP, (pairClients false).channels.get pair.channelId = some chQ ∧
    (pairClients true).channels.get pair.channelId = some chP ∧
    Responds (pairClients false) (pairClients true) pair.channelId chQ chP ⟨0,0,HVec.empty⟩
      (SyncResponderState.new ⟨0,0,HVec.empty⟩) (List.replicate 1024 0) := by
  obtain ⟨chQ,_,_,hq,hclocksQ,_⟩ := shown_eq_some follower_shown
  obtain ⟨chP,c,held,hp,_,hcur,htop,hheld,hcount⟩ := shown_eq_some greeter_shown
  have hownQ : (pairClients false).channels.get pair.channelId = some chQ := by
    rw [pairClients,if_neg (by decide)]
    exact hq
  have hownP : (pairClients true).channels.get pair.channelId = some chP := by
    rw [pairClients,if_pos rfl]
    exact hp
  have hne : held ≠ [] := by
    rintro rfl
    cases hcount
  have hsmall : (List.replicate 1024 (0 : UInt8)).length ≤ isizeMax := by
    rw [List.length_replicate]
    decide
  have hfirst : (⟨nodeOf 1,1⟩ : Clock) ∈ chQ.state.listNodes.map NodeSequence.clock := by
    rw [hclocksQ]
    exact List.mem_singleton.mpr rfl
  obtain ⟨n,hn,hclock⟩ := List.mem_map.mp hfirst
  have hseq : n.sequence = 1 := congrArg Clock.sequence hclock
  have hreaches : Reaches chQ chP := Or.inl ⟨n,hn,c,hcur,by rw [hseq,htop]; decide⟩
  have hcounted : Counted chQ chP (List.replicate 1024 0) := counted_of_small (by rw [List.length_replicate]; decide)
  exact ⟨chQ,chP,hownQ,hownP,
    (pairClients_honest.responds_iff hownQ hownP hheld hne hsmall _ _).mpr ⟨hreaches,hcounted⟩⟩

end Pair

end Finder
