import Finder.Channel.Convergence
import Finder.Sync.Round

namespace Finder

variable {maxChannels maxNodes slabSize : Nat} {D C P S : Type}

/-- Tables of the same operations have the same nodes, and the same newest one where ids tell messages apart. -/
theorem ChannelState.Summary.nodes_eq {T : Type} {creator : NodeId} {creatorKey : P} {ops : List (TableOp P T)}
    {st st' : ChannelState maxNodes P} (h : ChannelState.Summary creator creatorKey ops st)
    (h' : ChannelState.Summary creator creatorKey ops st') : st.nodes = st'.nodes := by
  have transfer : ∀ {u v : ChannelState maxNodes P}, ChannelState.Summary creator creatorKey ops u →
      ChannelState.Summary creator creatorKey ops v → ∀ n r, u.record n = some r → v.record n = some r := by
    intro u v hu hv n r hr
    have hsome : ∃ r', v.record n = some r' := by
      rcases hu.known n r hr with rfl | ⟨k,hk⟩
      · obtain ⟨x,hx,_⟩ := hv.started
        exact ⟨x,hx⟩
      · obtain ⟨_,x,hx,_⟩ := hv.added n k hk
        exact ⟨x,hx⟩
    obtain ⟨r',hr'⟩ := hsome
    rw [hr',hu.record_unique hv hr hr']
  have hrecords : ∀ n, ({ st with newest := st'.newest } : ChannelState maxNodes P).record n = st'.record n :=
    fun n => Option.ext (fun r => ⟨transfer h h' n r,transfer h' h n r⟩)
  have hsorted : ({ st with newest := st'.newest } : ChannelState maxNodes P).Sorted := h.valid.sorted
  have hsame : { st with newest := st'.newest } = st' := hsorted.ext h'.valid.sorted hrecords rfl
  have hnodes := congrArg ChannelState.nodes hsame
  exact hnodes

section Operations

variable [Crypto C P S]

variable (C) in
/-- What an entry does to the table. -/
def Entry.operations (e : Entry P) : List (TableOp P (Protocol P)) :=
  .receive e.sender e.message e.id::(e.message.data.added.toList.map (fun key => .addNode (computeId C key) key))

variable (C) in
def operations (log : List (Entry P)) : List (TableOp P (Protocol P)) := log.flatMap (Entry.operations C)

theorem mem_operations_receive {log : List (Entry P)} {n : NodeId} {m : Message (Protocol P)} {id : EnvelopeId}
    (h : .receive n m id ∈ operations C log) : ∃ e ∈ log, e.sender = n ∧ e.message = m ∧ e.id = id := by
  obtain ⟨e,he,hop⟩ := List.mem_flatMap.mp h
  rcases List.mem_cons.mp hop with hop | hop
  · cases hop
    exact ⟨e,he,rfl,rfl,rfl⟩
  · obtain ⟨key,_,hop⟩ := List.mem_map.mp hop
    cases hop

variable [Postcard (Message (Protocol P))] [EnvelopeCodec P] {channelId : ChannelId} {creator : P}
  {log log' : List (Entry P)} {ch ch' : Channel maxNodes slabSize C P}

/-- The table of a channel is summed up by the operations of its log. -/
theorem Channel.Story.summary (h : Channel.Story channelId creator log ch) :
    ChannelState.Summary (computeId C creator) creator (operations C log) ch.state := by
  induction h with
  | new ch hstate _ => exact ChannelState.Summary.start hstate
  | accept log ch ch' crypto e maxSequence _ _ haccepted ih =>
    obtain ⟨st,hreceived,hstate⟩ := haccepted.state
    have hnext := ih.receive hreceived
    have hops : operations C (log ++ [e]) = operations C log ++ [.receive e.sender e.message e.id] ++
        (e.message.data.added.toList.map (fun key => .addNode (computeId C key) key)) := by
      simp [operations,Entry.operations]
    rw [hops]
    cases hdata : e.message.data with
    | newChannel m =>
      rw [hdata] at hstate
      simpa [Protocol.added,hstate] using hnext
    | chatMessage m =>
      rw [hdata] at hstate
      simpa [Protocol.added,hstate] using hnext
    | addUser m =>
      rw [hdata] at hstate
      exact hnext.addNode hstate
  | store log ch storage _ ih => exact ih

omit [Postcard (Message (Protocol P))] [EnvelopeCodec P] in
theorem own_insert {users users' : FnvIndexMap NodeId P maxNodes} {k key : P} {n : NodeId}
    (hinsert : users.insert (computeId C k) k = some users')
    (hold : users.get n = some key → computeId C key = n) (hget : users'.get n = some key) :
    computeId C key = n := by
  rw [FnvIndexMap.insert_get hinsert] at hget
  split_ifs at hget with hsame
  · cases hget
    exact hsame.symm
  · exact hold hget

/-- The user kept under an id has it. -/
theorem Channel.Story.user_id (h : Channel.Story channelId creator log ch) {n : NodeId} {key : P}
    (hn : ch.chat.users.get n = some key) : computeId C key = n := by
  induction h with
  | new ch _ hchat =>
    rw [hchat] at hn
    simp [Chat.new] at hn
  | accept log ch ch' crypto e maxSequence _ _ haccepted ih =>
    have husers := haccepted.chat.users
    cases hdata : e.message.data with
    | newChannel m =>
      rw [hdata] at husers
      exact own_insert husers ih hn
    | addUser m =>
      rw [hdata] at husers
      exact own_insert husers ih hn
    | chatMessage m =>
      rw [hdata] at husers
      exact ih (by rw [Option.some.inj husers]; exact hn)
  | store log ch storage _ ih => exact ih hn

end Operations

section Agreement

variable [Target] [IdealCrypto C P S] [RecordCodec] [Postcard (Message (Protocol P))] [EnvelopeCodec P]

variable (C) in
/-- No two of the envelopes have one id. -/
def Distinct (held : List Bytes) : Prop :=
  ∀ b ∈ held, ∀ b' ∈ held, ∀ (crypto : C) (envelope envelope' : ChatEnvelope P),
    decodeAs (ChatEnvelope P) b = .ok envelope → decodeAs (ChatEnvelope P) b' = .ok envelope' →
      Crypto.envelopeId crypto envelope = Crypto.envelopeId crypto envelope' → b = b'

/-- What a client shows of a channel is the same. -/
structure SameView (ch ch' : Channel maxNodes slabSize C P) : Prop where
  nodes : ch.state.nodes = ch'.state.nodes
  ownerId : ch.chat.ownerId = ch'.chat.ownerId
  users : ∀ n, ch.chat.users.get n = ch'.chat.users.get n
  messageCount : ch.chat.messageCount = ch'.chat.messageCount

section Story

variable {channelId : ChannelId} {creator : P} {log log' : List (Entry P)} {ch ch' : Channel maxNodes slabSize C P}

omit [Target] [RecordCodec] in
/-- Channels that have accepted the same entries, in whatever orders, look the same. -/
theorem Channel.Story.sameView (h : Channel.Story channelId creator log ch)
    (h' : Channel.Story channelId creator log' ch') (hnames : Channel.NamesOwner creator log) (hperm : log.Perm log') :
    SameView ch ch' := by
  have hmem : ∀ e, e ∈ log ↔ e ∈ log' := fun e => hperm.mem_iff
  have hnames' : Channel.NamesOwner creator log' := hnames.sub (fun e he => (hmem e).mpr he)
  have hops : ∀ op, op ∈ operations C log' ↔ op ∈ operations C log := by
    intro op
    simp only [operations,List.mem_flatMap,hmem]
  refine ⟨h.summary.nodes_eq (h'.summary.congr hops),?_,fun n => ?_,Fin.ext ?_⟩
  · by_cases hopened : Channel.Opened log
    · obtain ⟨e,he,m,hm⟩ := hopened
      rw [(h.owner hnames).1 ⟨e,he,m,hm⟩,(h'.owner hnames').1 ⟨e,(hmem e).mp he,m,hm⟩]
    · have hopened' : ¬Channel.Opened log' := by
        intro hopened'
        obtain ⟨e,he,m,hm⟩ := hopened'
        exact hopened ⟨e,(hmem e).mpr he,m,hm⟩
      rw [(h.unopened hopened).1,(h'.unopened hopened').1]
  · have hkeys : ch.chat.users.containsKey n = true ↔ ch'.chat.users.containsKey n = true := by
      rw [h.users_iff,h'.users_iff]
      simp only [hmem]
    cases hn : ch.chat.users.get n with
    | none =>
      cases hn' : ch'.chat.users.get n with
      | none => rfl
      | some key' => simp [FnvIndexMap.containsKey,hn,hn'] at hkeys
    | some key =>
      cases hn' : ch'.chat.users.get n with
      | none => simp [FnvIndexMap.containsKey,hn,hn'] at hkeys
      | some key' => rw [computeId_injective C ((h.user_id hn).trans (h'.user_id hn').symm)]
  · rw [h.chats,h'.chats]
    exact (hperm.filterMap _).length_eq

omit [Target] [RecordCodec] in
/-- Where ids tell the envelopes apart, all of the table is the same. -/
theorem Channel.Story.same_state (h : Channel.Story channelId creator log ch)
    (h' : Channel.Story channelId creator log' ch') (hperm : log.Perm log') (hsigned : ∀ e ∈ log, e.Signed C)
    (hdistinct : Distinct C (log.map Entry.bytes)) : ch.state = ch'.state := by
  have hops : ∀ op, op ∈ operations C log' ↔ op ∈ operations C log := by
    intro op
    simp only [operations,List.mem_flatMap,hperm.mem_iff]
  refine h.summary.unique (h'.summary.congr hops) (fun n m n' m' id hop hop' => ?_)
  obtain ⟨e,he,rfl,rfl,rfl⟩ := mem_operations_receive hop
  obtain ⟨e',he',rfl,rfl,hid⟩ := mem_operations_receive hop'
  have hsame : e = e' := by
    obtain ⟨crypto,envelope,key,hdecode,_,_,_,hcarried⟩ := hsigned e he
    obtain ⟨crypto',envelope',key',hdecode',_,_,_,hcarried'⟩ := hsigned e' he'
    refine (hsigned e he).unique (hsigned e' he') ?_
    refine hdistinct _ (List.mem_map.mpr ⟨e,he,rfl⟩) _ (List.mem_map.mpr ⟨e',he',rfl⟩) crypto envelope envelope'
      hdecode hdecode' ?_
    rw [hcarried,IdealCrypto.envelopeId_stateless crypto crypto',hcarried',hid]
  rw [hsame]
  exact ⟨rfl,rfl⟩

end Story

/-- The vector clock of a channel, as it is asked with. -/
def Channel.clocks (ch : Channel maxNodes slabSize C P) : List Clock := ch.state.listNodes.map NodeSequence.clock

omit [Target] [IdealCrypto C P S] [RecordCodec] [Postcard (Message (Protocol P))] [EnvelopeCodec P] in
theorem ahead_of_clocks {chP chQ : Channel maxNodes slabSize C P} (h : chP.clocks = chQ.clocks) : Ahead chQ chP := by
  intro n hn
  have hclock : n.clock ∈ chQ.clocks := by
    rw [←h]
    exact List.mem_map.mpr ⟨n,hn,rfl⟩
  obtain ⟨m,hm,hsame⟩ := List.mem_map.mp hclock
  exact ⟨m,hm,congrArg Clock.node hsame,le_of_eq (congrArg Clock.sequence hsame).symm⟩

section Group

variable {g : Group D C P S} {clients : D → Client maxChannels maxNodes slabSize C P S} {logs : D → List (Entry P)}
  {p q : D} {chP chQ : Channel maxNodes slabSize C P}

theorem Logs.perm (h : Logs g clients logs) (hpq : ∀ e ∈ logs p, e ∈ logs q) (hqp : ∀ e ∈ logs q, e ∈ logs p) :
    (logs p).Perm (logs q) :=
  (List.perm_ext_iff_of_nodup (h.nodup p) (h.nodup q)).mpr (fun e => ⟨hpq e,hqp e⟩)

/-- One stored record after the other tells what has been accepted. -/
theorem Logs.perm_iff (h : Logs g clients logs) :
    ((logs p).map Entry.bytes).Perm ((logs q).map Entry.bytes) ↔ (logs p).Perm (logs q) := by
  refine ⟨fun hbytes => ?_,fun hperm => hperm.map _⟩
  apply h.perm
  · intro e he
    exact h.mem_of_bytes he (hbytes.mem_iff.mp (List.mem_map.mpr ⟨e,he,rfl⟩))
  · intro e he
    exact h.mem_of_bytes he (hbytes.mem_iff.mpr (List.mem_map.mpr ⟨e,he,rfl⟩))

variable [DecidableEq D] [Postcard (NewChannel P)]

/-- Two devices show one vector clock exactly if they have stored the same messages, in whatever orders; and then
they show the same members, owner and users and count the same messages. -/
theorem Honest.same_clocks_iff (h : Honest g clients) (hp : (clients p).channels.get g.channelId = some chP)
    (hq : (clients q).channels.get g.channelId = some chQ) : ∃ heldP heldQ, chP.storage.records = .ok heldP ∧
      chQ.storage.records = .ok heldQ ∧ (chP.clocks = chQ.clocks ↔ heldP.Perm heldQ) ∧
      (chP.clocks = chQ.clocks → SameView chP chQ ∧ (Distinct C heldP → chP.state = chQ.state)) := by
  obtain ⟨logs,hlogs⟩ := h.logs
  have hstoryP := (hlogs.keeps p).story chP hp
  have hstoryQ := (hlogs.keeps q).story chQ hq
  have hperm : chP.clocks = chQ.clocks → (logs p).Perm (logs q) := by
    intro hclocks
    apply hlogs.perm
    · exact hlogs.held_of_ahead hp hq (ahead_of_clocks hclocks)
    · exact hlogs.held_of_ahead hq hp (ahead_of_clocks hclocks.symm)
  have hview : (logs p).Perm (logs q) → SameView chP chQ := hstoryP.sameView hstoryQ (hlogs.namesOwner p)
  refine ⟨_,_,((hlogs.keeps p).filed chP hp).records,((hlogs.keeps q).filed chQ hq).records,?_,fun hclocks => ?_⟩
  · rw [hlogs.perm_iff]
    refine ⟨hperm,fun hsame => ?_⟩
    rw [Channel.clocks,Channel.clocks,ChannelState.listNodes,ChannelState.listNodes,(hview hsame).nodes]
  · refine ⟨hview (hperm hclocks),fun hdistinct => ?_⟩
    exact hstoryP.same_state hstoryQ (hperm hclocks) (fun e he => ((hlogs.keeps p).proper e he).signed) hdistinct

end Group

end Agreement

section Pair

open PlainCrypto

/-- The two devices with these clients. -/
def both (first second : Client 2 2 256 PlainCrypto U64 U64) : Bool → Client 2 2 256 PlainCrypto U64 U64 :=
  fun d => if d then first else second

@[simp] theorem both_true (a b : Client 2 2 256 PlainCrypto U64 U64) : both a b true = a := rfl
@[simp] theorem both_false (a b : Client 2 2 256 PlainCrypto U64 U64) : both a b false = b := rfl

@[simp] theorem both_update_true (a b c : Client 2 2 256 PlainCrypto U64 U64) :
    Function.update (both a b) true c = both c b := by
  funext d
  cases d <;> rfl

@[simp] theorem both_update_false (a b c : Client 2 2 256 PlainCrypto U64 U64) :
    Function.update (both a b) false c = both a c := by
  funext d
  cases d <;> rfl

/-- The client after a call that has succeeded. -/
def ended {α : Type} (x : Outcome ClientError α × Client 2 2 256 PlainCrypto U64 U64) :
    Client 2 2 256 PlainCrypto U64 U64 := x.2

theorem ended_eq {α : Type} {x : Outcome ClientError α × Client 2 2 256 PlainCrypto U64 U64} {a : α}
    (hok : x.1 = .ok a) : x = (.ok a,ended x) := Prod.ext hok rfl

/-- What a client has stored of the channel. -/
def storedBy (client : Client 2 2 256 PlainCrypto U64 U64) : Option (List Bytes) :=
  (client.channels.get (chatId 1)).bind (fun ch => ch.storage.records.value)

theorem storedBy_eq_some {client : Client 2 2 256 PlainCrypto U64 U64} {held : List Bytes}
    (h : storedBy client = some held) :
    ∃ ch, client.channels.get (chatId 1) = some ch ∧ ch.storage.records = .ok held := by
  obtain ⟨ch,hch,hvalue⟩ := Option.bind_eq_some_iff.mp h
  exact ⟨ch,hch,Outcome.value_eq_some.mp hvalue⟩

theorem delivers_stored {clients : Bool → Client 2 2 256 PlainCrypto U64 U64} {d : Bool} {ds held : List Bytes}
    (h : storedBy (clients d) = some held) (hsub : ds ⊆ held) :
    Delivers clients (chatId 1) (sendFrames ds) ds.length := by
  obtain ⟨ch,hch,hheld⟩ := storedBy_eq_some h
  exact ⟨ds,rfl,List.prefix_refl _,fun b hb => ⟨d,ch,held,hch,hheld,hsub hb⟩⟩

/-- What the owner asks, and what the other device says before it has heard it. -/
def question : ChatMessage := ⟨⟨⟨[97],rfl⟩,by decide⟩⟩

def reply : ChatMessage := ⟨⟨⟨[98],rfl⟩,by decide⟩⟩

def questioning : Bytes := sealedBy 1 (chatId 1) ⟨nodeOf 1,2,3,.chatMessage question⟩

def replying : Bytes := sealedBy 2 (chatId 1) ⟨nodeOf 1,0,3,.chatMessage reply⟩

def openingBytes : Bytes := sealedBy 1 (chatId 1) opening

def joinerOfTwo : Client 2 2 256 PlainCrypto U64 U64 :=
  ended (Client.receiveBuffer (chatId 1) (sendFrames [openingBytes,adding]) 2 joiner)

def asker : Client 2 2 256 PlainCrypto U64 U64 :=
  ended (Client.sendMessage (chatId 1) question.text.str ownerOfTwo)

def replier : Client 2 2 256 PlainCrypto U64 U64 :=
  ended (Client.sendMessage (chatId 1) reply.text.str joinerOfTwo)

def replierAsked : Client 2 2 256 PlainCrypto U64 U64 :=
  ended (Client.receiveBuffer (chatId 1) (sendFrames [questioning]) 1 replier)

def askerAnswered : Client 2 2 256 PlainCrypto U64 U64 :=
  ended (Client.receiveBuffer (chatId 1) (sendFrames [replying]) 1 asker)

/-- Both have spoken at once, and then heard each other. -/
def talkers : Bool → Client 2 2 256 PlainCrypto U64 U64 := both askerAnswered replierAsked

/-- The calls of the two succeed, and what they have stored by then. -/
theorem talkers_run : ((Client.addNode (chatId 1) 2 Str.empty owner).1 = .ok () ∧
      (Client.receiveBuffer (chatId 1) (sendFrames [openingBytes,adding]) 2 joiner).1 = .ok () ∧
      (Client.sendMessage (chatId 1) question.text.str ownerOfTwo).1 = .ok () ∧
      (Client.sendMessage (chatId 1) reply.text.str joinerOfTwo).1 = .ok () ∧
      (Client.receiveBuffer (chatId 1) (sendFrames [questioning]) 1 replier).1 = .ok () ∧
      (Client.receiveBuffer (chatId 1) (sendFrames [replying]) 1 asker).1 = .ok ()) ∧
    storedBy ownerOfTwo = some [openingBytes,adding] ∧
    storedBy asker = some [openingBytes,adding,questioning] ∧
    storedBy askerAnswered = some [openingBytes,adding,questioning,replying] ∧
    storedBy replierAsked = some [openingBytes,adding,replying,questioning] ∧
    (askerAnswered.channels.get (chatId 1)).map Channel.clocks =
      (replierAsked.channels.get (chatId 1)).map Channel.clocks ∧ questioning ≠ replying ∧
    (sendFrames [openingBytes,adding]).length ≤ isizeMax ∧ (sendFrames [questioning]).length ≤ isizeMax ∧
    (sendFrames [replying]).length ≤ isizeMax := by
  decide +kernel

/-- What they receive is what the other one has stored by then. -/
theorem talkers_deliver :
    Delivers (both ownerOfTwo joiner) (chatId 1) (sendFrames [openingBytes,adding]) 2 ∧
    Delivers (both asker replier) (chatId 1) (sendFrames [questioning]) 1 ∧
    Delivers (both asker replierAsked) (chatId 1) (sendFrames [replying]) 1 := by
  obtain ⟨_,hfirst,hasked,_,hreplied,_⟩ := talkers_run
  refine ⟨delivers_stored (d := true) ((congrArg storedBy (both_true _ _)).trans hfirst) (List.Subset.refl _),
    delivers_stored (d := true) ((congrArg storedBy (both_true _ _)).trans hasked)
      (List.subset_append_right [openingBytes,adding] [questioning]),
    delivers_stored (d := false) ((congrArg storedBy (both_false _ _)).trans hreplied)
      (fun b hb => List.mem_of_getElem? (i := 2) (congrArg some (List.mem_singleton.mp hb).symm))⟩

theorem talkers_honest : Honest pair talkers := by
  obtain ⟨⟨hadd,hjoin,hask,hreply,hasked,hanswered⟩,_,_,_,_,_,_,hsmall1,hsmall2,hsmall3⟩ := talkers_run
  obtain ⟨hfirst,hquestion,hreplied⟩ := talkers_deliver
  have h0 : Honest pair (both owner joiner) := pairJoined_honest
  have h1 := Honest.addNode _ true ownerOfTwo 2 Str.empty h0 (by rw [both_true]; exact run_eq hadd rfl)
  rw [both_update_true] at h1
  have h2 := Honest.receiveBuffer _ false joinerOfTwo _ 2 h1 hsmall1 hfirst
    (by rw [both_false]; exact ended_eq hjoin)
  rw [both_update_false] at h2
  have h3 := Honest.sendMessage _ true asker question.text.str h2 (by rw [both_true]; exact ended_eq hask)
  rw [both_update_true] at h3
  have h4 := Honest.sendMessage _ false replier reply.text.str h3 (by rw [both_false]; exact ended_eq hreply)
  rw [both_update_false] at h4
  have h5 := Honest.receiveBuffer _ false replierAsked _ 1 h4 hsmall2 hquestion
    (by rw [both_false]; exact ended_eq hasked)
  rw [both_update_false] at h5
  have h6 := Honest.receiveBuffer _ true askerAnswered _ 1 h5 hsmall3 hreplied
    (by rw [both_true]; exact ended_eq hanswered)
  rwa [both_update_true] at h6

/-- Two devices that have spoken at once have the same clocks, and the same records in two orders; where the one has
greeted and the other has not heard it, they have neither. -/
theorem pair_differs : (∃ (chP chQ : Channel 2 256 PlainCrypto U64) (heldP heldQ : List Bytes),
      (talkers true).channels.get pair.channelId = some chP ∧ (talkers false).channels.get pair.channelId = some chQ ∧
      chP.storage.records = .ok heldP ∧ chQ.storage.records = .ok heldQ ∧ heldP ≠ heldQ ∧ chP.clocks = chQ.clocks ∧
      heldP.Perm heldQ ∧ SameView chP chQ) ∧
    ∃ (chP chQ : Channel 2 256 PlainCrypto U64) (heldP heldQ : List Bytes),
      (pairClients true).channels.get pair.channelId = some chP ∧
      (pairClients false).channels.get pair.channelId = some chQ ∧ chP.storage.records = .ok heldP ∧
      chQ.storage.records = .ok heldQ ∧ chP.clocks ≠ chQ.clocks ∧ ¬heldP.Perm heldQ := by
  constructor
  · obtain ⟨_,_,_,hstoredP,hstoredQ,hshown,hne,_⟩ := talkers_run
    obtain ⟨chP,hchP,hheldP⟩ := storedBy_eq_some hstoredP
    obtain ⟨chQ,hchQ,hheldQ⟩ := storedBy_eq_some hstoredQ
    rw [hchP,hchQ] at hshown
    have hclocks : chP.clocks = chQ.clocks := Option.some.inj hshown
    have hownP : (talkers true).channels.get pair.channelId = some chP := by
      rw [talkers,both,if_pos rfl]
      exact hchP
    have hownQ : (talkers false).channels.get pair.channelId = some chQ := by
      rw [talkers,both,if_neg (by decide)]
      exact hchQ
    obtain ⟨heldP,heldQ,hP,hQ,hiff,hsame⟩ := talkers_honest.same_clocks_iff hownP hownQ
    cases hheldP.symm.trans hP
    cases hheldQ.symm.trans hQ
    refine ⟨chP,chQ,_,_,hownP,hownQ,hheldP,hheldQ,fun h => hne ?_,hclocks,hiff.mp hclocks,(hsame hclocks).1⟩
    exact (List.cons.inj (List.cons.inj (List.cons.inj h).2).2).1
  · obtain ⟨chQ,chP,first,second,h⟩ := pair_state
    obtain ⟨heldP,heldQ,hP,hQ,hiff,_⟩ := pairClients_honest.same_clocks_iff h.responder h.requester
    have hne : chP.clocks ≠ chQ.clocks := by
      rw [Channel.clocks,Channel.clocks,h.reached,h.asks]
      decide
    exact ⟨chP,chQ,heldP,heldQ,h.responder,h.requester,hP,hQ,hne,fun hperm => hne (hiff.mpr hperm)⟩

end Pair

end Finder
