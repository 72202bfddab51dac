import Finder.Client.Numbering
import Finder.Sync.Agreement

namespace Finder

variable {maxChannels maxNodes slabSize : Nat} {D C P S : Type}

/-- The chat messages of a log with their senders, in the order they were accepted. -/
def board (log : List (Entry P)) : List (NodeId × ChatMessage) :=
  log.filterMap (fun e => e.message.data.chat.map (fun m => (e.sender,m)))

/-- What one sender has on a board. -/
def postsOf (n : NodeId) (posts : List (NodeId × ChatMessage)) : List ChatMessage :=
  (posts.filter (fun post => decide (post.1 = n))).map Prod.snd

section Board

variable {log log' : List (Entry P)} {n : NodeId} {e : Entry P}

theorem board_texts : (board log).map Prod.snd = chats log := by
  rw [board,chats,List.map_filterMap]
  refine List.filterMap_congr (fun e _ => ?_)
  cases e.message.data.chat <;> rfl

theorem postsOf_board : postsOf n (board log) = chats (entriesOf n log) := by
  induction log with
  | nil => rfl
  | cons e log ih =>
    have hcons : ∀ es : List (Entry P), board (e::es) = board [e] ++ board es := fun es => by
      rw [board,show e::es = [e] ++ es from rfl,List.filterMap_append]
      rfl
    have hsplit : entriesOf n (e::log) = entriesOf n [e] ++ entriesOf n log := by
      rw [show e::log = [e] ++ log from rfl,entriesOf,byAuthor_append]
    rw [hcons,postsOf,List.filter_append,List.map_append,hsplit,chats_append]
    refine congrArg₂ (· ++ ·) ?_ ih
    rw [entriesOf,byAuthor_single]
    cases hchat : e.message.data.chat with
    | none => split_ifs <;> simp [board,chats,hchat]
    | some m =>
      by_cases hn : e.sender = n
      · simp [board,chats,hchat,hn]
      · simp [board,chats,hchat,hn]

theorem chats_prefix (h : log <+: log') : chats log <+: chats log' := by
  obtain ⟨rest,rfl⟩ := h
  rw [chats_append]
  exact List.prefix_append _ _

end Board

section Talks

variable [Target] [IdealCrypto C P S] [RecordCodec] [Postcard (Message (Protocol P))] [EnvelopeCodec P]
  [Postcard (NewChannel P)] [DecidableEq D]

/-- The clients of a group after any calls that have all succeeded, with what each of them has been given to send. -/
inductive Talks (g : Group D C P S) :
    (D → List ChatMessage) → (D → Client maxChannels maxNodes slabSize C P S) → Prop
  | new (cryptos : D → C) : Talks g (fun _ => []) (fun d => Client.new (g.keys d) (cryptos d) FnvIndexMap.empty)
  | initChat (said : D → List ChatMessage) (clients : D → Client maxChannels maxNodes slabSize C P S)
      (client : Client maxChannels maxNodes slabSize C P S) (nameStr : Str) (io : MemIo slabSize)
      (h : Talks g said clients)
      (hnone : (clients g.owner).channels.get g.channelId = none) (hio : io.Zeroed)
      (hcall : Client.initChat nameStr io (clients g.owner) = (.ok g.channelId,client)) :
      Talks g said (Function.update clients g.owner client)
  | addChannel (said : D → List ChatMessage) (clients : D → Client maxChannels maxNodes slabSize C P S) (d : D)
      (client : Client maxChannels maxNodes slabSize C P S) (io : MemIo slabSize) (h : Talks g said clients)
      (hjoins : d ≠ g.owner) (hnone : (clients d).channels.get g.channelId = none) (hio : io.Zeroed)
      (hcall : Client.addChannel g.creator g.channelId io (clients d) = (.ok (),client)) :
      Talks g said (Function.update clients d client)
  | sendMessage (said : D → List ChatMessage) (clients : D → Client maxChannels maxNodes slabSize C P S) (d : D)
      (client : Client maxChannels maxNodes slabSize C P S) (m : ChatMessage) (h : Talks g said clients)
      (hcall : Client.sendMessage g.channelId m.text.str (clients d) = (.ok (),client)) :
      Talks g (Function.update said d (said d ++ [m])) (Function.update clients d client)
  | addNode (said : D → List ChatMessage) (clients : D → Client maxChannels maxNodes slabSize C P S) (d : D)
      (client : Client maxChannels maxNodes slabSize C P S) (pubKey : P) (name : Str) (h : Talks g said clients)
      (hcall : Client.addNode g.channelId pubKey name (clients d) = (.ok (),client)) :
      Talks g said (Function.update clients d client)
  | receiveBuffer (said : D → List ChatMessage) (clients : D → Client maxChannels maxNodes slabSize C P S) (d : D)
      (client : Client maxChannels maxNodes slabSize C P S) (buffer : Bytes) (count : Nat) (h : Talks g said clients)
      (hmax : buffer.length ≤ isizeMax) (hdelivers : Delivers clients g.channelId buffer count)
      (hcall : Client.receiveBuffer g.channelId buffer count (clients d) = (.ok (),client)) :
      Talks g said (Function.update clients d client)
  | elsewhere (said : D → List ChatMessage) (clients : D → Client maxChannels maxNodes slabSize C P S) (d : D)
      (client : Client maxChannels maxNodes slabSize C P S) (call : ClientCall slabSize P) (h : Talks g said clients)
      (hsound : call.Sound) (hcall : call.run (clients d) = (.ok (),client))
      (hsame : client.channels.get g.channelId = (clients d).channels.get g.channelId) :
      Talks g said (Function.update clients d client)

/-- What a device has been given to send is what it has of its own. -/
def Logs.Own (g : Group D C P S) (said : D → List ChatMessage) (logs : D → List (Entry P)) : Prop :=
  ∀ d, chats (entriesOf (g.node d) (logs d)) = said d

variable {g : Group D C P S} {said : D → List ChatMessage}
  {clients : D → Client maxChannels maxNodes slabSize C P S} {logs : D → List (Entry P)} {d p q : D} {e : Entry P}
  {client : Client maxChannels maxNodes slabSize C P S} {ch chP chQ : Channel maxNodes slabSize C P}

namespace Logs

omit [Target] [RecordCodec] [Postcard (Message (Protocol P))] [EnvelopeCodec P] [Postcard (NewChannel P)] in
/-- One more entry of its own. -/
theorem Own.say (h : Own g said logs) (hsender : e.sender = g.node d) :
    Own g (Function.update said d (said d ++ chats [e])) (Function.update logs d (logs d ++ [e])) := by
  intro d'
  by_cases hd : d' = d
  · subst hd
    rw [Function.update_self,Function.update_self,←h d',entriesOf,byAuthor_append,byAuthor_single,if_pos hsender,
      chats_append]
  · rw [Function.update_of_ne hd,Function.update_of_ne hd]
    exact h d'

omit [Postcard (NewChannel P)] in
/-- What comes from others is not its own. -/
theorem Own.hear {more : List (Entry P)} (h : Own g said logs) (hlogs : Logs g clients logs)
    (hafter : Logs g (Function.update clients d client) (Function.update logs d (logs d ++ more)))
    (hmore : ∀ x ∈ more, ∃ d', x ∈ logs d') : Own g said (Function.update logs d (logs d ++ more)) := by
  intro d'
  by_cases hd : d' = d
  · subst hd
    have hnone : byAuthor Entry.sender (g.node d') more = [] := by
      apply List.filter_eq_nil_iff.mpr
      intro x hx
      have hnodup := hafter.nodup d'
      rw [Function.update_self] at hnodup
      intro hsender
      have hsender := of_decide_eq_true hsender
      obtain ⟨p,hp⟩ := hmore x hx
      have hown : x ∈ entriesOf (g.node d') (logs d') :=
        (hlogs.coherent.shared p d').subset (mem_byAuthor.mpr ⟨hp,hsender⟩)
      exact (List.disjoint_of_nodup_append hnodup) (mem_byAuthor.mp hown).1 hx
    rw [Function.update_self,entriesOf,byAuthor_append,hnone,List.append_nil]
    exact h d'
  · rw [Function.update_of_ne hd]
    exact h d'

end Logs

theorem Talks.kept (h : Talks g said clients) : ∃ logs, Logs g clients logs ∧ Logs.Own g said logs := by
  induction h with
  | new cryptos => exact ⟨_,Logs.new cryptos,fun d => rfl⟩
  | initChat said clients client nameStr io _ hnone hio hcall ih =>
    obtain ⟨logs,hlogs,hown⟩ := ih
    obtain ⟨e,m,hsender,hdata,hnext⟩ := hlogs.initChat hnone hio hcall
    have hsilent : chats [e] = [] := by simp [chats,hdata,Protocol.chat]
    have hsay := hown.say hsender
    rw [hsilent,List.append_nil,Function.update_eq_self] at hsay
    exact ⟨_,hnext,hsay⟩
  | addChannel said clients d client io _ hjoins hnone hio hcall ih =>
    obtain ⟨logs,hlogs,hown⟩ := ih
    exact ⟨logs,hlogs.addChannel hnone hio hcall,hown⟩
  | sendMessage said clients d client m _ hcall ih =>
    obtain ⟨logs,hlogs,hown⟩ := ih
    obtain ⟨text,_,hlift,hsend⟩ := Call.bind_eq_ok.mp hcall
    obtain ⟨htext,rfl⟩ := Call.lift_eq_ok.mp hlift
    obtain rfl : text = m.text := HString.ext (HString.tryFrom_eq_some.mp (Outcome.okOr_eq_ok.mp htext))
    obtain ⟨e,hsender,hdata,hnext⟩ := hlogs.doSend (fun m hm => by cases hm) hsend
    have hsaid : chats [e] = [m] := by simp [chats,hdata,Protocol.chat]
    have hsay := hown.say hsender
    rw [hsaid] at hsay
    exact ⟨_,hnext,hsay⟩
  | addNode said clients d client pubKey name _ hcall ih =>
    obtain ⟨logs,hlogs,hown⟩ := ih
    obtain ⟨text,_,hlift,hsend⟩ := Call.bind_eq_ok.mp hcall
    obtain ⟨_,rfl⟩ := Call.lift_eq_ok.mp hlift
    obtain ⟨e,hsender,hdata,hnext⟩ := hlogs.doSend (fun m hm => by cases hm) hsend
    have hsilent : chats [e] = [] := by simp [chats,hdata,Protocol.chat]
    have hsay := hown.say hsender
    rw [hsilent,List.append_nil,Function.update_eq_self] at hsay
    exact ⟨_,hnext,hsay⟩
  | receiveBuffer said clients d client buffer count _ hmax hdelivers hcall ih =>
    obtain ⟨logs,hlogs,hown⟩ := ih
    obtain ⟨more,hmore,hnext⟩ := hlogs.receiveBuffer hmax hdelivers hcall
    exact ⟨_,hnext,hown.hear hlogs hnext hmore⟩
  | elsewhere said clients d client call _ hsound hcall hsame ih =>
    obtain ⟨logs,hlogs,hown⟩ := ih
    exact ⟨logs,hlogs.elsewhere hsound hcall hsame,hown⟩

/-- The messages that a client shows, from number 1 on, are these and no more. -/
def History (client : Client maxChannels maxNodes slabSize C P S) (channelId : ChannelId)
    (texts : List ChatMessage) : Prop := ∀ index : U64, 1 ≤ index.val → client.getMessage channelId index =
      Outcome.okOr .messageIndexOutOfBounds texts[index.val-1]?

omit [Postcard (NewChannel P)] [DecidableEq D] in
theorem Logs.shows (h : Logs g clients logs) (hget : (clients d).channels.get g.channelId = some ch) :
    (chats (logs d)).length = ch.chat.messageCount.val ∧ History (clients d) g.channelId (chats (logs d)) := by
  have hstory := (h.keeps d).story ch hget
  have hfiled := (h.keeps d).filed ch hget
  refine ⟨hstory.chats.symm,fun index hpos => ?_⟩
  cases hm : (chats (logs d))[index.val-1]? with
  | some m => exact Client.getMessage_found hget hstory hfiled hm hpos
  | none =>
    have hlen := List.getElem?_eq_none_iff.mp hm
    exact Client.getMessage_none hget hfiled (by omega)

/-- What a device shows is by its members: of each author, in their order, the first of the messages that it was
given to send; of its own all, and of an author with whom it has caught up all too. -/
theorem Talks.board (h : Talks g said clients) (hq : (clients q).channels.get g.channelId = some chQ) :
    ∃ posts : List (NodeId × ChatMessage), posts.length = chQ.chat.messageCount.val ∧
      History (clients q) g.channelId (posts.map Prod.snd) ∧ (∀ post ∈ posts, ∃ d, post.1 = g.node d) ∧
      (∀ d, postsOf (g.node d) posts <+: said d) ∧ postsOf (g.node q) posts = said q ∧
      ∀ p chP, (clients p).channels.get g.channelId = some chP → Ahead chQ chP →
        postsOf (g.node p) posts = said p := by
  obtain ⟨logs,hlogs,hown⟩ := h.kept
  obtain ⟨hcount,hreads⟩ := hlogs.shows hq
  refine ⟨Finder.board (logs q),?_,?_,fun post hpost => ?_,fun d => ?_,?_,fun p chP hp hahead => ?_⟩
  · rw [←hcount,←board_texts,List.length_map]
  · rw [board_texts]
    exact hreads
  · obtain ⟨e,he,hchat⟩ := List.mem_filterMap.mp hpost
    obtain ⟨m,_,rfl⟩ := Option.map_eq_some_iff.mp hchat
    exact hlogs.coherent.named q e he
  · rw [postsOf_board,←hown d]
    exact chats_prefix (hlogs.coherent.shared q d)
  · rw [postsOf_board]
    exact hown q
  · have hall := hlogs.held_of_ahead hp hq hahead
    have hwhole : entriesOf (g.node p) (logs q) = entriesOf (g.node p) (logs p) := by
      refine (hlogs.coherent.shared q p).eq_of_length_le ?_
      refine (List.subperm_of_subset (hlogs.coherent.chained p _).nodup (fun e he => ?_)).length_le
      obtain ⟨hmem,hsender⟩ := mem_byAuthor.mp he
      exact mem_byAuthor.mpr ⟨hall e hmem,hsender⟩
    rw [postsOf_board,hwhole]
    exact hown p

end Talks

section Pair

open PlainCrypto

/-- What the owner and the other device have said, neither having heard the other. -/
def talkersSaid : Bool → List ChatMessage := fun d => if d then [question] else [reply]

theorem pairJoined_talks : Talks pair (fun _ => []) pairJoined := by
  have hio : (blankIo 256 4).Zeroed := blankIo_zeroed (by decide) (by decide +kernel)
  have hinit : (Client.initChat chatStr (blankIo 256 4) (client 1 : Client 2 2 256 PlainCrypto U64 U64)).1 =
      .ok (chatId 1) := by decide +kernel
  have howner : owner = (Client.initChat chatStr (blankIo 256 4) (client 1)).2 := by
    rw [owner,ClientCall.run,Call.bind_ok (run_eq hinit rfl),Call.pure_apply]
  have hjoin : (Client.addChannel 1 (chatId 1) (blankIo 256 4) (client 2 : Client 2 2 256 PlainCrypto U64 U64)).1 =
      .ok () := by decide +kernel
  have hjoined : Client.addChannel 1 (chatId 1) (blankIo 256 4) (client 2) = (.ok (),joiner) := run_eq hjoin rfl
  have hnew : Talks pair (fun _ => []) pairNew := by
    have h : Talks pair (fun _ => []) (fun d => Client.new (pair.keys d) (⟨0⟩ : PlainCrypto) FnvIndexMap.empty :
        Bool → Client 2 2 256 PlainCrypto U64 U64) := .new (fun _ => (⟨0⟩ : PlainCrypto))
    have hsame : (fun d => Client.new (pair.keys d) (⟨0⟩ : PlainCrypto) FnvIndexMap.empty :
        Bool → Client 2 2 256 PlainCrypto U64 U64) = pairNew := by
      funext d
      cases d <;> rfl
    rwa [hsame] at h
  have h1 := Talks.initChat _ pairNew owner chatStr (blankIo 256 4) hnew rfl hio (run_eq hinit howner)
  have h2 := Talks.addChannel _ _ false joiner (blankIo 256 4) h1 (by decide) rfl hio hjoined
  have hsame : Function.update (Function.update pairNew pair.owner owner) false joiner = pairJoined := by
    funext d
    cases d <;> rfl
  rwa [hsame] at h2

theorem talkers_talk : Talks pair talkersSaid talkers := by
  obtain ⟨⟨hadd,hjoin,hask,hreply,hasked,hanswered⟩,_,_,_,_,_,_,hsmall1,hsmall2,hsmall3⟩ := talkers_run
  obtain ⟨hfirst,hquestion,hreplied⟩ := talkers_deliver
  have h0 : Talks pair (fun _ => []) (both owner joiner) := pairJoined_talks
  have h1 := Talks.addNode _ _ true ownerOfTwo 2 Str.empty h0 (by rw [both_true]; exact run_eq hadd rfl)
  rw [both_update_true] at h1
  have h2 := Talks.receiveBuffer _ _ false joinerOfTwo _ 2 h1 hsmall1 hfirst
    (by rw [both_false]; exact ended_eq hjoin)
  rw [both_update_false] at h2
  have h3 := Talks.sendMessage _ _ true asker question h2 (by rw [both_true]; exact ended_eq hask)
  rw [both_update_true] at h3
  have h4 := Talks.sendMessage _ _ false replier reply h3 (by rw [both_false]; exact ended_eq hreply)
  rw [both_update_false] at h4
  have h5 := Talks.receiveBuffer _ _ false replierAsked _ 1 h4 hsmall2 hquestion
    (by rw [both_false]; exact ended_eq hasked)
  rw [both_update_false] at h5
  have h6 := Talks.receiveBuffer _ _ true askerAnswered _ 1 h5 hsmall3 hreplied
    (by rw [both_true]; exact ended_eq hanswered)
  rw [both_update_true] at h6
  have hsaid : Function.update (Function.update (fun _ => []) true ([] ++ [question])) false ([] ++ [reply]) =
      talkersSaid := by
    funext d
    cases d <;> rfl
  rwa [show talkers = both askerAnswered replierAsked from rfl,←hsaid]

/-- The other device shows its own message and the owner's. -/
theorem pair_board : ∃ (ch : Channel 2 256 PlainCrypto U64) (posts : List (NodeId × ChatMessage)),
    replierAsked.channels.get (chatId 1) = some ch ∧ posts.length = ch.chat.messageCount.val ∧
      History replierAsked (chatId 1) (posts.map Prod.snd) ∧ postsOf (nodeOf 2) posts = [reply] ∧
      postsOf (nodeOf 1) posts = [question] := by
  obtain ⟨_,_,_,hstoredP,hstoredQ,hshown,_⟩ := talkers_run
  obtain ⟨chP,hchP,_⟩ := storedBy_eq_some hstoredP
  obtain ⟨chQ,hchQ,_⟩ := storedBy_eq_some hstoredQ
  rw [hchP,hchQ] at hshown
  have hclocks : chP.clocks = chQ.clocks := Option.some.inj hshown
  have hownP : (talkers true).channels.get pair.channelId = some chP := by
    rw [talkers,both_true]
    exact hchP
  have hownQ : (talkers false).channels.get pair.channelId = some chQ := by
    rw [talkers,both_false]
    exact hchQ
  obtain ⟨posts,hlength,hhistory,_,_,hown,hcaught⟩ := talkers_talk.board hownQ
  rw [talkers,both_false] at hhistory
  exact ⟨chQ,posts,hchQ,hlength,hhistory,hown,hcaught true chP hownP (ahead_of_clocks hclocks)⟩

end Pair

end Finder
