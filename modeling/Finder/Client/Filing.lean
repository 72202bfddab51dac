import Finder.Client.Runs
import Finder.Storage.Append

namespace Finder

variable {maxChannels maxNodes slabSize : Nat} {C P S : Type}

/-- The chat message that a message is, if any. -/
def Protocol.chat : Protocol P → Option ChatMessage
  | .chatMessage m => some m
  | _ => none

/-- The chat messages of a log, in the order they were accepted. -/
def chats (log : List (Entry P)) : List ChatMessage := log.filterMap (fun e => e.message.data.chat)

namespace Entry

/-- The number of chat messages up to an entry. -/
def count (e : Entry P) (before : U64) : U64 :=
  match e.message.data with
  | .chatMessage _ => before+1
  | _ => before

/-- The greatest sequence up to an entry. -/
def top (e : Entry P) (before : U64) : U64 := max before e.message.sequence

/-- The record an entry is stored as. -/
def record (e : Entry P) (topBefore countBefore : U64) : Record :=
  { maxSequence := e.top topBefore
    messageCount := e.count countBefore
    sequence := e.message.sequence
    sender := e.sender
    data := e.bytes }

end Entry

/-- The records a log is stored as, behind others that reach up to a sequence and a count. -/
def recordsFrom : U64 → U64 → List (Entry P) → List Record
  | _,_,[] => []
  | top,count,e::log => e.record top count::recordsFrom (e.top top) (e.count count) log

def topFrom (top : U64) (log : List (Entry P)) : U64 := log.foldl (fun top e => e.top top) top

def countFrom (count : U64) (log : List (Entry P)) : U64 := log.foldl (fun count e => e.count count) count

section Records

variable {top count : U64} {log log' : List (Entry P)}

theorem recordsFrom_append : recordsFrom top count (log ++ log') =
    recordsFrom top count log ++ recordsFrom (topFrom top log) (countFrom count log) log' := by
  induction log generalizing top count with
  | nil => rfl
  | cons e log ih =>
    rw [List.cons_append,recordsFrom,ih]
    rfl

theorem recordsFrom_data : (recordsFrom top count log).map Record.data = log.map Entry.bytes := by
  induction log generalizing top count with
  | nil => rfl
  | cons e log ih =>
    rw [recordsFrom,List.map_cons,ih]
    rfl

theorem chats_append : chats (log ++ log') = chats log ++ chats log' := List.filterMap_append

theorem Entry.count_val (e : Entry P) (count : U64) (h : count.val+(chats [e]).length < 2^64) :
    (e.count count).val = count.val+(chats [e]).length := by
  unfold Entry.count
  cases hdata : e.message.data with
  | newChannel m => simp [chats,hdata,Protocol.chat]
  | addUser m => simp [chats,hdata,Protocol.chat]
  | chatMessage m =>
    simp only [chats,hdata,Protocol.chat,List.filterMap_cons,List.filterMap_nil,List.length_singleton] at h ⊢
    rw [Fin.val_add]
    exact Nat.mod_eq_of_lt h

theorem countFrom_val (h : count.val+(chats log).length < 2^64) :
    (countFrom count log).val = count.val+(chats log).length := by
  induction log generalizing count with
  | nil => rfl
  | cons e log ih =>
    rw [show e::log = [e] ++ log from rfl,chats_append,List.length_append] at h ⊢
    have he := e.count_val count (by omega)
    have hrest := ih (show (e.count count).val+(chats log).length < 2^64 by omega)
    change (countFrom (e.count count) log).val = _
    omega

/-- No record counts more chat messages than there are. -/
theorem recordsFrom_count_le (h : count.val+(chats log).length < 2^64) :
    ∀ r ∈ recordsFrom top count log, r.messageCount.val ≤ count.val+(chats log).length := by
  induction log generalizing top count with
  | nil => simp [recordsFrom]
  | cons e log ih =>
    rw [show e::log = [e] ++ log from rfl,chats_append,List.length_append] at h ⊢
    have he := e.count_val count (by omega)
    intro r hr
    rcases List.mem_cons.mp hr with rfl | hr
    · change (e.count count).val ≤ _
      omega
    · have hrest := ih (show (e.count count).val+(chats log).length < 2^64 by omega) r hr
      omega

theorem topFrom_le : top ≤ topFrom top log := by
  induction log generalizing top with
  | nil => exact le_refl _
  | cons e log ih => exact (le_max_left _ _).trans ih

theorem recordsFrom_top_le : ∀ r ∈ recordsFrom top count log, r.maxSequence ≤ topFrom top log := by
  induction log generalizing top count with
  | nil => simp [recordsFrom]
  | cons e log ih =>
    intro r hr
    rcases List.mem_cons.mp hr with rfl | hr
    · exact (topFrom_le : e.top top ≤ topFrom (e.top top) log)
    · exact ih r hr

end Records

section Received

variable {st st' : ChannelState maxNodes P} {sender : NodeId} {message : Message (Protocol P)} {id : EnvelopeId}
  {maxSequence : U64}

/-- The sequence that `receive` gives back is the newest node's from then on. -/
theorem ChannelState.Received.top (h : st.Received st' sender message id maxSequence) :
    ∃ c, st'.record st'.newest = some c ∧ c.sequence = maxSequence := by
  obtain ⟨c,hc,hnewest,hmax⟩ := h.newest
  obtain ⟨r,hr,hrec⟩ := h.records
  obtain ⟨r',hr',hlt,_⟩ := h.receivable
  rw [hr] at hr'
  cases hr'
  rw [hnewest,hmax]
  split_ifs with hnewer
  · refine ⟨receivedRecord r message id,by rw [hrec,if_pos rfl],?_⟩
    refine (max_eq_right ?_).symm
    rcases newer_iff.mpr hnewer with hless | ⟨heq,_⟩
    · exact le_of_lt hless
    · exact le_of_eq heq
  · have hle : message.sequence ≤ c.sequence := not_lt.mp (fun hless => hnewer (newer_iff.mp (Or.inl hless)))
    refine ⟨c,?_,(max_eq_left hle).symm⟩
    rw [hrec,if_neg ?_]
    · exact hc
    · -- the sender was below the message, and the newest node is not
      intro hsame
      rw [←hsame,hr] at hc
      cases hc
      exact absurd hlt (not_lt.mpr hle)

/-- Accepting a message gives back the newest sequence. -/
theorem Accepted.top [Crypto C P S] {ch ch' : Channel maxNodes slabSize C P} {channelId : ChannelId}
    (h : Accepted ch ch' channelId sender message id maxSequence) :
    (∃ c, ch.state.record ch.state.newest = some c ∧ maxSequence = max c.sequence message.sequence) ∧
      ∃ c, ch'.state.record ch'.state.newest = some c ∧ c.sequence = maxSequence := by
  obtain ⟨st,hreceived,hstate⟩ := h.state
  obtain ⟨c,hc,_,hmax⟩ := hreceived.newest
  refine ⟨⟨c,hc,hmax⟩,?_⟩
  have htop := hreceived.top
  cases hdata : message.data with
  | newChannel m =>
    rw [hdata] at hstate
    exact hstate ▸ htop
  | chatMessage m =>
    rw [hdata] at hstate
    exact hstate ▸ htop
  | addUser m =>
    rw [hdata] at hstate
    obtain ⟨c',hc',hseq⟩ := htop
    refine ⟨c',?_,hseq⟩
    rw [hstate.newest,hstate.records,if_neg ?_]
    · exact hc'
    · intro hsame
      rw [←hsame,hstate.unknown] at hc'
      cases hc'

end Received

namespace Channel

variable [Crypto C P S] [Postcard (Message (Protocol P))] [EnvelopeCodec P] {channelId : ChannelId} {creator : P}
  {log : List (Entry P)} {ch ch' : Channel maxNodes slabSize C P}

theorem Story.chats (h : Story channelId creator log ch) : ch.chat.messageCount.val = (chats log).length := by
  induction h with
  | new ch _ hchat =>
    rw [hchat]
    rfl
  | accept log ch ch' crypto e maxSequence _ _ haccepted ih =>
    rw [haccepted.chat.messageCount,chats_append,List.length_append]
    cases hdata : e.message.data <;> simp [Chat.countAfter,Finder.chats,hdata,Protocol.chat,ih]
  | store log ch storage _ ih => exact ih

theorem Story.counted (h : Story channelId creator log ch) : ch.chat.messageCount = countFrom 0 log := by
  have hchats := h.chats
  apply Fin.ext
  rw [countFrom_val (by rw [←hchats]; simp),hchats]
  simp

theorem Story.topped (h : Story channelId creator log ch) :
    ∃ c, ch.state.getCurrent = .ok c ∧ c.sequence = topFrom 0 log := by
  have hrecord : ∃ c, ch.state.record ch.state.newest = some c ∧ c.sequence = topFrom 0 log := by
    induction h with
    | new ch hstate _ =>
      refine ⟨ChannelState.freshRecord (computeId C creator) creator,?_,rfl⟩
      rw [ChannelState.new_record hstate,(ChannelState.new_eq_ok hstate).1,if_pos rfl]
    | accept log ch ch' crypto e maxSequence h _ haccepted ih =>
      obtain ⟨⟨c,hc,hmax⟩,c',hc',hseq⟩ := haccepted.top
      obtain ⟨c0,hc0,hseq0⟩ := ih
      rw [hc] at hc0
      cases hc0
      refine ⟨c',hc',hseq.trans (hmax.trans ?_)⟩
      simp [hseq0,topFrom,Entry.top]
    | store log ch storage _ ih => exact ih
  obtain ⟨c,hc,hseq⟩ := hrecord
  obtain ⟨c',hcur,hc',_⟩ := h.valid.getCurrent_eq
  rw [hc] at hc'
  cases hc'
  exact ⟨c,hcur,hseq⟩

/-- The record that a channel is about to store is the next one of its log. -/
theorem Story.recordOf_eq (h : Story channelId creator log ch) (e : Entry P) :
    recordOf ch e.sender e.message e.bytes = e.record (topFrom 0 log) (countFrom 0 log) := by
  obtain ⟨c,hcur,hseq⟩ := h.topped
  rw [recordOf,hcur,h.counted,←hseq]
  rfl

end Channel

section Signed

variable [IdealCrypto C P S] [Postcard (Message (Protocol P))] [EnvelopeCodec P] {log log' : List (Entry P)}

variable (C) in
/-- The bytes of the entry are an envelope of its sender that opens to its message. -/
def Entry.Signed (e : Entry P) : Prop :=
  ∃ (crypto : C) (envelope : ChatEnvelope P) (key : P), decodeAs (ChatEnvelope P) e.bytes = .ok envelope ∧
    envelope.sender = e.sender ∧ computeId C key = e.sender ∧
    Crypto.openEnvelope crypto key envelope = .ok e.message ∧ Crypto.envelopeId crypto envelope = e.id

/-- Bytes are of one entry only. -/
theorem Entry.Signed.unique {e e' : Entry P} (h : e.Signed C) (h' : e'.Signed C) (hbytes : e.bytes = e'.bytes) :
    e = e' := by
  obtain ⟨crypto,envelope,key,hdecode,hsender,hkey,hopen,hid⟩ := h
  obtain ⟨crypto',envelope',key',hdecode',hsender',hkey',hopen',hid'⟩ := h'
  rw [←hbytes,hdecode] at hdecode'
  cases hdecode'
  rw [←hsender] at hkey
  rw [←hsender',←hkey] at hkey'
  obtain rfl := computeId_injective C hkey'
  rw [IdealCrypto.open_stateless crypto' crypto,hopen] at hopen'
  rw [IdealCrypto.envelopeId_stateless crypto' crypto,hid] at hid'
  cases e
  cases e'
  simp only [Outcome.ok.injEq] at hopen' hsender hsender' hid' hbytes
  subst hopen' hsender hsender' hid' hbytes
  rfl

theorem log_unique (h : ∀ e ∈ log, e.Signed C) (h' : ∀ e ∈ log', e.Signed C)
    (hbytes : log.map Entry.bytes = log'.map Entry.bytes) : log = log' := by
  induction log generalizing log' with
  | nil => exact (List.map_eq_nil_iff.mp hbytes.symm).symm
  | cons e log ih =>
    cases log' with
    | nil => simp at hbytes
    | cons e' log' =>
      simp only [List.map_cons,List.cons.injEq] at hbytes
      rw [(h e List.mem_cons_self).unique (h' e' List.mem_cons_self) hbytes.1,
        ih (fun x hx => h x (List.mem_cons_of_mem _ hx)) (fun x hx => h' x (List.mem_cons_of_mem _ hx)) hbytes.2]

/-- What a channel opens is signed by its sender: a node keeps its key under the id of it. -/
theorem Channel.Carries.signed {state : ChannelState maxNodes P} {crypto : C} {e : Entry P}
    (h : Channel.Carries crypto state e.bytes e.sender e.message e.id) (hk : state.Keyed C) : e.Signed C := by
  obtain ⟨envelope,key,hdecode,hsender,hkey,hopen,hid⟩ := h
  obtain ⟨r,hr,rfl⟩ := hk.valid.sorted.getNodeKey_eq_ok.mp hkey
  exact ⟨crypto,envelope,r.publicKey,hdecode,hsender,hk.keys _ r hr,hopen,hid⟩

theorem Channel.Attested.signed {state : ChannelState maxNodes P} (h : Channel.Attested C state log)
    (hk : state.Keyed C) (crypto : C) : ∀ e ∈ log, e.Signed C :=
  fun e he => (h.carried e he crypto).signed hk

end Signed

section Filed

/-- Every record of the log can be told by its length field. -/
def Short [Postcard Record] (log : List (Entry P)) : Prop := ∀ r ∈ recordsFrom 0 0 log, (toBytes r).length < 2^32

theorem Short.init [Postcard Record] {log : List (Entry P)} {e : Entry P} (h : Short (log ++ [e])) : Short log :=
  fun r hr => h r (by rw [recordsFrom_append]; exact List.mem_append_left _ hr)

/-- The memory holds the records of the log, each in a slab of its own, and nothing else. -/
structure Filed [Target] [RecordCodec] (io : MemIo slabSize) (log : List (Entry P)) : Prop where
  holds : Holds io ((recordsFrom 0 0 log).map (fun r => [r]))
  blank : io.Blank

/-- A slice with nothing counted. -/
def MemIo.Fresh [Target] (io : MemIo slabSize) : Prop :=
  ∃ data, data.length ≤ isizeMax ∧ MemIo.new data = .ok io

/-- A slice of zeroes with nothing counted. -/
def MemIo.Zeroed [Target] (io : MemIo slabSize) : Prop :=
  ∃ n, n ≤ isizeMax ∧ MemIo.new (List.replicate n 0) = .ok io

theorem flatten_singles {α : Type} (l : List α) : (l.map (fun a => [a])).flatten = l := by
  induction l with
  | nil => rfl
  | cons a l ih => rw [List.map_cons,List.flatten_cons,ih,List.singleton_append]

variable [Target] [RecordCodec] {io : MemIo slabSize} {st st' : Storage slabSize} {log log' : List (Entry P)}

omit [RecordCodec] in
theorem MemIo.Zeroed.fresh (h : io.Zeroed) : io.Fresh := by
  obtain ⟨n,hn,hnew⟩ := h
  exact ⟨List.replicate n 0,by rw [List.length_replicate]; exact hn,hnew⟩

omit [RecordCodec] in
theorem MemIo.Fresh.sound (h : io.Fresh) : io.Sound := by
  obtain ⟨data,hbound,hnew⟩ := h
  exact memIo_new_sound hbound hnew

omit [RecordCodec] in
theorem MemIo.Zeroed.sound (h : io.Zeroed) : io.Sound := h.fresh.sound

theorem MemIo.Fresh.holds (h : io.Fresh) : Holds io [] := by
  obtain ⟨data,hbound,hnew⟩ := h
  exact (holds_new hbound hnew).1

omit [RecordCodec] in
theorem MemIo.Zeroed.blank (h : io.Zeroed) : io.Blank := by
  obtain ⟨n,_,hnew⟩ := h
  exact memIo_new_blank hnew

theorem MemIo.Zeroed.filed (h : io.Zeroed) : Filed io ([] : List (Entry P)) := ⟨h.fresh.holds,h.blank⟩

/-- Records in slabs of their own are read back, in order. -/
theorem Holds.records_singles {rs : List Record} (h : Holds st.io (rs.map (fun r => [r])))
    (hblank : rs = [] → st.io.Blank) : st.records = .ok (rs.map Record.data) := by
  by_cases hne : rs = []
  · have hnone : st.scan (fun record => decide (record.maxSequence ≥ 0)) = .ok none :=
      h.scan_none (hblank hne) (by simp [hne])
    rw [Storage.records,Storage.getCursorFromSequence,hnone,hne]
    rfl
  · have hread := h.records (by simpa using hne)
    rwa [flatten_singles] at hread

omit [Target] [RecordCodec] in
theorem recordsFrom_eq_nil {top count : U64} {log : List (Entry P)} : recordsFrom top count log = [] ↔ log = [] := by
  cases log <;> simp [recordsFrom]

theorem Holds.records_log (h : Holds st.io ((recordsFrom 0 0 log).map (fun r => [r])))
    (hblank : log = [] → st.io.Blank) : st.records = .ok (log.map Entry.bytes) := by
  rw [←(recordsFrom_data : (recordsFrom 0 0 log).map Record.data = log.map Entry.bytes)]
  exact h.records_singles (fun hnil => hblank (recordsFrom_eq_nil.mp hnil))

/-- What is filed is read back, in order. -/
theorem Filed.records (h : Filed st.io log) : st.records = .ok (log.map Entry.bytes) :=
  h.holds.records_log (fun _ => h.blank)

/-- The next record of the log is stored behind the others. -/
theorem Holds.store_entry {e : Entry P} (h : Holds st.io ((recordsFrom 0 0 log).map (fun r => [r])))
    (hshort : (toBytes (e.record (topFrom 0 log) (countFrom 0 log))).length < 2^32) {r : Record}
    (hr : r = e.record (topFrom 0 log) (countFrom 0 log)) (hst : Channel.onWriter
      (Channel.writeRecord r.maxSequence r.messageCount r.sequence r.sender r.data) st = (.ok (),st')) :
    Holds st'.io ((recordsFrom 0 0 (log ++ [e])).map (fun r => [r])) := by
  subst hr
  rw [recordsFrom_append,List.map_append]
  exact h.store hshort hst

theorem Filed.store {e : Entry P} (h : Filed st.io log)
    (hshort : (toBytes (e.record (topFrom 0 log) (countFrom 0 log))).length < 2^32) {r : Record}
    (hr : r = e.record (topFrom 0 log) (countFrom 0 log)) (hst : Channel.onWriter
      (Channel.writeRecord r.maxSequence r.messageCount r.sequence r.sender r.data) st = (.ok (),st')) :
    Filed st'.io (log ++ [e]) :=
  ⟨h.holds.store_entry hshort hr hst,h.blank.advanced (store_advanced h.holds.sound hst).1⟩

variable [IdealCrypto C P S] [Postcard (Message (Protocol P))] [EnvelopeCodec P]

variable (C) in
/-- The memory a channel was kept in: the messages it holds are signed, and where there are none it reads none. -/
def MemIo.Keeps (io : MemIo slabSize) : Prop :=
  ∃ log : List (Entry P), (∀ e ∈ log, e.Signed C) ∧ Holds io ((recordsFrom 0 0 log).map (fun r => [r])) ∧
    (log = [] → io.Blank)

variable (C) in
/-- Memory that started as zeroes and that a channel was kept in. -/
def MemIo.Archives (io : MemIo slabSize) : Prop := ∃ log : List (Entry P), (∀ e ∈ log, e.Signed C) ∧ Filed io log

theorem MemIo.Archives.keeps (h : io.Archives C) : io.Keeps C := by
  obtain ⟨log,hsigned,hfiled⟩ := h
  exact ⟨log,hsigned,hfiled.holds,fun _ => hfiled.blank⟩

theorem MemIo.Keeps.sound (h : io.Keeps C) : io.Sound := by
  obtain ⟨_,_,hholds,_⟩ := h
  exact hholds.sound

end Filed

namespace Client

variable [Target] [IdealCrypto C P S] [RecordCodec] [Postcard (Message (Protocol P))] [EnvelopeCodec P]
  [Postcard (NewChannel P)] {client : Client maxChannels maxNodes slabSize C P S}
  {creators : ChannelId → Option P} {log : ChannelId → List (Entry P)}

/-- Every channel holds what it has accepted, as long as every record can be told by its length field. -/
theorem OkRun.held (h : OkRun MemIo.Fresh (MemIo.Keeps C) client creators log) :
    Kept (fun id creator log ch => Channel.Story id creator log ch ∧
      (Short log → Holds ch.storage.io ((recordsFrom 0 0 log).map (fun r => [r])))) client creators log := by
  refine h.rule (fun _ hio => hio.sound) (fun _ hio => hio.sound) ?_ ?_ ?_
  · intro id creator io ch hio hfresh
    refine ⟨Channel.story_fresh hfresh,fun _ => ?_⟩
    rw [Channel.freshChannel_storage hfresh]
    exact hio.holds
  · intro id creator crypto ch hio hopens
    obtain ⟨hstory,hrecords⟩ := hopens.story_stored crypto
    have hk := (hopens.sound hio.sound).keyed
    obtain ⟨log',hsigned,hholds,hblank⟩ := hio
    rw [hholds.records_log hblank] at hrecords
    have hsame := log_unique hsigned (hstory.attested.signed hk crypto) (Outcome.ok.inj hrecords)
    exact ⟨hstory,fun _ => hsame ▸ hholds⟩
  · intro id creator log ch ch' crypto e hch hs hcarries htake
    obtain ⟨hstory,hholds⟩ := hch
    have htaken := Channel.take_ok hs htake
    refine ⟨hstory.take hcarries htaken,fun hshort => ?_⟩
    refine (hholds hshort.init).store_entry (hshort _ ?_) (hstory.recordOf_eq e) htaken.stored
    rw [recordsFrom_append]
    exact List.mem_append_right _ List.mem_cons_self

/-- Memory that started as zeroes reads nothing beyond what it counts. -/
theorem OkRun.blank (h : OkRun MemIo.Zeroed (MemIo.Archives C) client creators log) :
    Kept (fun _ _ _ ch => ch.storage.io.Blank) client creators log := by
  refine h.rule (fun _ hio => hio.fresh.sound) (fun _ hio => hio.keeps.sound) ?_ ?_ ?_
  · intro id creator io ch hio hfresh
    rw [Channel.freshChannel_storage hfresh]
    exact hio.blank
  · intro id creator crypto ch hio _
    obtain ⟨_,_,hfiled⟩ := hio
    exact hfiled.blank
  · intro id creator log ch ch' crypto e hblank hs _ htake
    exact hblank.advanced (store_advanced hs.storage (Channel.take_ok hs htake).stored).1

/-- Memory that starts as zeroes holds what the channel has accepted, as long as every record can be told by its
length field. -/
theorem OkRun.filed (h : OkRun MemIo.Zeroed (MemIo.Archives C) client creators log) :
    Kept (fun id creator log ch => Channel.Story id creator log ch ∧ (Short log → Filed ch.storage.io log))
      client creators log := by
  have hboth := (h.mono (fun _ hio => hio.fresh) (fun _ hio => hio.keeps)).held.and h.blank
  refine ⟨hboth.nodeId,hboth.paired,hboth.sound,fun id ch hget => ?_⟩
  obtain ⟨creator,hcreator,⟨hstory,hholds⟩,hblank⟩ := hboth.channels id ch hget
  exact ⟨creator,hcreator,hstory,fun hshort => ⟨hholds hshort,hblank⟩⟩

/-- The stored log determines the state: where every record can be told by its length field, the storage reads
the messages that were accepted, and replaying them from the first state of the channel's creator on accepts them
all and gives the table and the chat of the live channel. -/
theorem OkRun.log_determines_state (h : OkRun MemIo.Fresh (MemIo.Keeps C) client creators log)
    {channelId : ChannelId} {ch : Channel maxNodes slabSize C P} (hget : client.channels.get channelId = some ch)
    (hshort : Short (log channelId)) :
    ∃ creator start, creators channelId = some creator ∧
      ChannelState.new (computeId C creator) creator = .ok start ∧
      (log channelId ≠ [] ∨ ch.storage.io.Blank → ch.storage.records = .ok ((log channelId).map Entry.bytes)) ∧
      Channel.replayAll client.crypto channelId ((log channelId).map Entry.bytes) (start,Chat.new channelId) =
        (.ok (),(ch.state,ch.chat)) := by
  obtain ⟨creator,hcreator,hstory,hholds⟩ := h.held.channels channelId ch hget
  obtain ⟨start,hstart,hreplay⟩ := hstory.replay client.crypto
  refine ⟨creator,start,hcreator,hstart,fun hread => ?_,hreplay⟩
  exact (hholds hshort).records_log (fun hnil => hread.resolve_left (fun hne => hne hnil))

end Client

section Owner

open PlainCrypto

theorem blankIo_zeroed {slabSize slabs : Nat} (hpos : 0 < slabSize) (hsmall : slabs*slabSize ≤ isizeMax) :
    (blankIo slabSize slabs).Zeroed := by
  refine ⟨slabs*slabSize,hsmall,?_⟩
  unfold MemIo.new
  rw [if_neg (by omega),List.length_replicate,Nat.mul_div_cancel _ hpos]
  rfl

theorem ownIo_zeroed : (blankIo 256 4).Zeroed := blankIo_zeroed (by decide) (by decide +kernel)

theorem speaker_short : Short (speakerLog (chatId 1)) := by
  unfold Short
  decide +kernel

/-- The owner of two has stored its new channel, the node it added and its message, and replays them to the
channel it has. -/
theorem log_determines_state_speaker : (speakerLog (chatId 1)).length = 3 ∧
    ∃ ch, speaker.channels.get (chatId 1) = some ch ∧ ∃ creator start, startedByOwner (chatId 1) = some creator ∧
      ChannelState.new (computeId PlainCrypto creator) creator = .ok start ∧
      ch.storage.records = .ok ((speakerLog (chatId 1)).map Entry.bytes) ∧
      Channel.replayAll speaker.crypto (chatId 1) ((speakerLog (chatId 1)).map Entry.bytes)
        (start,Chat.new (chatId 1)) = (.ok (),(ch.state,ch.chat)) := by
  have hlen : (speakerLog (chatId 1)).length = 3 := by decide +kernel
  obtain ⟨ch,hch⟩ := speaker_holds
  obtain ⟨creator,start,hcreator,hstart,hrecords,hreplay⟩ :=
    (speaker_okRun ownIo_zeroed.fresh).log_determines_state hch speaker_short
  exact ⟨hlen,ch,hch,creator,start,hcreator,hstart,hrecords (Or.inl (List.ne_nil_of_length_pos (by omega))),hreplay⟩

end Owner

end Finder
