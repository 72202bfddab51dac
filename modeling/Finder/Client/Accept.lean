import Finder.Channel.Steps
import Finder.Protocol.Client

namespace Finder

section Chat

variable {maxUsers : Nat} {C P S : Type} [Crypto C P S]

/-- There is a place among the users for this key. -/
def Chat.HasPlace (chat : Chat maxUsers C P) (key : P) : Prop :=
  chat.users.containsKey (computeId C key) ∨ chat.users.entries.length < maxUsers

/-- What a chat asks of a message: the channel's id, the owner's hand, or a known author. -/
def Chat.Allows (chat : Chat maxUsers C P) (id : ChannelId) (author : NodeId) : Protocol P → Prop
  | .newChannel m => id = chat.id ∧ chat.HasPlace m.owner
  | .addUser m => chat.ownerId = some author ∧ chat.HasPlace m.key
  | .chatMessage _ => chat.users.containsKey author ∧ chat.messageCount.val+1 < 2^64

/-- What the calls learn from a message the chat took. -/
def AcceptResult.of : Protocol P → U64 → AcceptResult P
  | .newChannel _,_ => .none
  | .addUser m,_ => .addUser m.key
  | .chatMessage _,count => .newMessage count

theorem Chat.addUser_cases (chat : Chat maxUsers C P) (key : P) :
    (chat.HasPlace key ∧ ∃ users, chat.users.insert (computeId C key) key = some users ∧
      Chat.addUser key chat = (.ok (computeId C key),{ chat with users := users })) ∨
    (¬chat.HasPlace key ∧ Chat.addUser key chat = (.err .maxUsersExceeded,chat)) := by
  unfold Chat.addUser Chat.HasPlace
  cases h : chat.users.insert (computeId C key) key with
  | none =>
    obtain ⟨hkey,hfull⟩ := FnvIndexMap.insert_eq_none.mp h
    refine Or.inr ⟨?_,rfl⟩
    rintro (hk | hlt)
    · rw [hkey] at hk
      cases hk
    · omega
  | some users =>
    refine Or.inl ⟨?_,users,rfl,rfl⟩
    by_contra hno
    rw [not_or,not_lt] at hno
    rw [FnvIndexMap.insert_eq_none.mpr ⟨by simpa using hno.1,hno.2⟩] at h
    cases h

def Chat.ownerAfter (chat : Chat maxUsers C P) : Protocol P → Option NodeId
  | .newChannel m => some (computeId C m.owner)
  | .addUser _ => chat.ownerId
  | .chatMessage _ => chat.ownerId

def Chat.usersAfter (chat : Chat maxUsers C P) : Protocol P → Option (FnvIndexMap NodeId P maxUsers)
  | .newChannel m => chat.users.insert (computeId C m.owner) m.owner
  | .addUser m => chat.users.insert (computeId C m.key) m.key
  | .chatMessage _ => some chat.users

omit [Crypto C P S] in
def Chat.countAfter (chat : Chat maxUsers C P) : Protocol P → Nat
  | .newChannel _ => chat.messageCount.val
  | .addUser _ => chat.messageCount.val
  | .chatMessage _ => chat.messageCount.val+1

/-- What a message changes in a chat. -/
structure Chat.Took (chat chat' : Chat maxUsers C P) (message : Protocol P) : Prop where
  id : chat'.id = chat.id
  ownerId : chat'.ownerId = chat.ownerAfter message
  users : chat.usersAfter message = some chat'.users
  messageCount : chat'.messageCount.val = chat.countAfter message

/-- A chat takes exactly the messages it allows; another one leaves it as it was. -/
theorem Chat.acceptMessage_cases (chat : Chat maxUsers C P) (id : ChannelId) (author : NodeId)
    (message : Protocol P) :
    (chat.Allows id author message ∧ ∃ chat', Chat.acceptMessage id author message chat =
      (.ok (AcceptResult.of message chat'.messageCount),chat') ∧ chat.Took chat' message) ∨
    (¬chat.Allows id author message ∧ ∃ e, Chat.acceptMessage id author message chat = (.err e,chat)) := by
  cases message with
  | newChannel m =>
    by_cases hid : id = chat.id
    · rcases chat.addUser_cases m.owner with ⟨hplace,users,hinsert,hadd⟩ | ⟨hplace,hadd⟩
      · exact Or.inl ⟨⟨hid,hplace⟩,{ chat with users := users, ownerId := some (computeId C m.owner) },
          by simp [Chat.acceptMessage,hid,hadd,AcceptResult.of],rfl,rfl,hinsert,rfl⟩
      · exact Or.inr ⟨fun h => hplace h.2,_,by simp [Chat.acceptMessage,hid,hadd]; rfl⟩
    · exact Or.inr ⟨fun h => hid h.1,_,by simp [Chat.acceptMessage,hid]; rfl⟩
  | addUser m =>
    cases howner : chat.ownerId with
    | none =>
      refine Or.inr ⟨fun h => ?_,_,by simp [Chat.acceptMessage,howner]; rfl⟩
      have hsome := h.1
      rw [howner] at hsome
      cases hsome
    | some ownerId =>
      by_cases hauthor : author = ownerId
      · subst hauthor
        rcases chat.addUser_cases m.key with ⟨hplace,users,hinsert,hadd⟩ | ⟨hplace,hadd⟩
        · exact Or.inl ⟨⟨howner,hplace⟩,{ chat with users := users },
            by simp [Chat.acceptMessage,howner,hadd,AcceptResult.of],rfl,rfl,hinsert,rfl⟩
        · exact Or.inr ⟨fun h => hplace h.2,_,by simp [Chat.acceptMessage,howner,hadd]; rfl⟩
      · refine Or.inr ⟨fun h => ?_,_,by simp [Chat.acceptMessage,howner,hauthor]; rfl⟩
        have hsome := h.1
        rw [howner] at hsome
        exact hauthor (Option.some.inj hsome).symm
  | chatMessage m =>
    by_cases huser : chat.users.containsKey author = true
    · cases hcount : U64.checkedSucc chat.messageCount with
      | none =>
        refine Or.inr ⟨fun h => ?_,_,by simp [Chat.acceptMessage,huser,hcount]; rfl⟩
        have hmax := U64.checkedSucc_eq_none.mp hcount
        have := h.2
        omega
      | some count =>
        have hsucc := U64.checkedSucc_eq_some.mp hcount
        refine Or.inl ⟨⟨huser,?_⟩,{ chat with messageCount := count },
          by simp [Chat.acceptMessage,huser,hcount,AcceptResult.of],rfl,rfl,rfl,hsucc⟩
        rw [←hsucc]
        exact count.isLt
    · exact Or.inr ⟨fun h => huser h.1,_,by simp [Chat.acceptMessage,huser]; rfl⟩

theorem Chat.acceptMessage_eq_ok {chat chat' : Chat maxUsers C P} {id : ChannelId} {author : NodeId}
    {message : Protocol P} {result : AcceptResult P}
    (h : Chat.acceptMessage id author message chat = (.ok result,chat')) :
    chat.Allows id author message ∧ chat.Took chat' message ∧
      result = AcceptResult.of message chat'.messageCount := by
  rcases chat.acceptMessage_cases id author message with ⟨hallow,chat'',hok,htook⟩ | ⟨_,e,he⟩
  · rw [h] at hok
    cases hok
    exact ⟨hallow,htook,rfl⟩
  · rw [h] at he
    cases he

/-- A chat is determined by the chat before and the message it took. -/
theorem Chat.Took.unique {chat chat' chat'' : Chat maxUsers C P} {message : Protocol P}
    (h : chat.Took chat' message) (h' : chat.Took chat'' message) : chat' = chat'' := by
  refine Chat.ext (h.id.trans h'.id.symm) (h.ownerId.trans h'.ownerId.symm) ?_
    (Fin.ext (h.messageCount.trans h'.messageCount.symm))
  exact Option.some.inj (h.users.symm.trans h'.users)

/-- Accept messages one after the other, each from its author. -/
def Chat.acceptAll (id : ChannelId) : List (NodeId × Protocol P) → Call (Chat maxUsers C P) ChatError Unit
  | [] => pure ()
  | (author,message)::log => do
    let _ ← Chat.acceptMessage id author message
    acceptAll id log

/-- A new chat accepts all these messages and ends as the given one. -/
def Chat.Run (id : ChannelId) (log : List (NodeId × Protocol P)) (chat : Chat maxUsers C P) : Prop :=
  Chat.acceptAll id log (Chat.new id) = (.ok (),chat)

theorem Chat.acceptAll_append {id : ChannelId} {before after : List (NodeId × Protocol P)}
    {chat chat' : Chat maxUsers C P} : Chat.acceptAll id (before ++ after) chat = (.ok (),chat') ↔
      ∃ mid, Chat.acceptAll id before chat = (.ok (),mid) ∧ Chat.acceptAll id after mid = (.ok (),chat') := by
  induction before generalizing chat with
  | nil => simp [Chat.acceptAll]
  | cons entry before ih =>
    simp only [List.cons_append,Chat.acceptAll,Call.bind_eq_ok,ih]
    constructor
    · rintro ⟨result,chat1,haccept,mid,hbefore,hafter⟩
      exact ⟨mid,⟨result,chat1,haccept,hbefore⟩,hafter⟩
    · rintro ⟨mid,⟨result,chat1,haccept,hbefore⟩,hafter⟩
      exact ⟨result,chat1,haccept,mid,hbefore,hafter⟩

theorem Chat.run_append_single {id : ChannelId} {log : List (NodeId × Protocol P)} {author : NodeId}
    {message : Protocol P} {chat' : Chat maxUsers C P} : Chat.Run id (log ++ [(author,message)]) chat' ↔
      ∃ chat result, Chat.Run id log chat ∧ Chat.acceptMessage id author message chat = (.ok result,chat') := by
  simp only [Chat.Run,Chat.acceptAll_append,Chat.acceptAll,Call.bind_eq_ok,Call.pure_apply,Prod.mk.injEq,true_and]
  constructor
  · rintro ⟨chat,hlog,result,_,haccept,rfl⟩
    exact ⟨chat,result,hlog,haccept⟩
  · rintro ⟨chat,result,hlog,haccept⟩
    exact ⟨chat,hlog,result,chat',haccept,rfl⟩

/-- The chat is what the messages it has accepted make of a new one. -/
def Chat.Ran (chat : Chat maxUsers C P) : Prop := ∃ log, Chat.Run chat.id log chat

theorem Chat.new_ran (id : ChannelId) : (Chat.new id : Chat maxUsers C P).Ran := ⟨[],rfl⟩

theorem Chat.acceptMessage_keeps (id : ChannelId) (author : NodeId) (message : Protocol P) :
    Call.Keeps Chat.Ran (Chat.acceptMessage id author message :
      Call (Chat maxUsers C P) ChatError (AcceptResult P)) := by
  rintro chat ⟨log,hlog⟩
  rcases chat.acceptMessage_cases id author message with ⟨hallow,chat',hok,htook⟩ | ⟨_,e,he⟩
  · rw [hok]
    refine ⟨log ++ [(author,message)],Chat.run_append_single.mpr ?_⟩
    rw [htook.id]
    refine ⟨chat,AcceptResult.of message chat'.messageCount,hlog,?_⟩
    -- only a new channel looks at the id, and it has found it to be the chat's own
    cases message with
    | newChannel m => exact hallow.1 ▸ hok
    | addUser m => exact hok
    | chatMessage m => exact hok
  · rw [he]
    exact ⟨log,hlog⟩

end Chat

section Accept

variable {maxNodes slabSize : Nat} {C P S : Type} [Crypto C P S]

/-- The table has no record of the key's node yet, and a place for one. -/
def ChannelState.Addable (st : ChannelState maxNodes P) (C : Type) [Crypto C P S] (key : P) : Prop :=
  st.record (computeId C key) = none ∧ st.nodes.toList.length < maxNodes

/-- Every node stands in the table under the id of its key. -/
structure ChannelState.Keyed (st : ChannelState maxNodes P) (C : Type) [Crypto C P S] : Prop where
  valid : st.Valid
  keys : ∀ n r, st.record n = some r → computeId C r.publicKey = n

theorem ChannelState.new_keyed {key : P} {st : ChannelState maxNodes P}
    (h : ChannelState.new (computeId C key) key = .ok st) : st.Keyed C := by
  refine ⟨ChannelState.new_valid h,fun n r hr => ?_⟩
  rw [ChannelState.new_record h] at hr
  split_ifs at hr with hn
  cases hr
  exact hn

theorem ChannelState.receive_keyed {T : Type} (sender : NodeId) (message : Message T) (id : EnvelopeId) :
    Call.Keeps (fun st => st.Keyed C) (ChannelState.receive sender message id :
      Call (ChannelState maxNodes P) ChannelError U64) := by
  intro st hk
  rcases hk.valid.receive_cases sender message id with ⟨_,st',hok,hreceived⟩ | ⟨_,e,he⟩
  · rw [hok]
    refine ⟨hreceived.valid hk.valid,fun n r hr => ?_⟩
    have hkey := hreceived.publicKey n
    rw [hr,Option.map_some,eq_comm,Option.map_eq_some_iff] at hkey
    obtain ⟨r',hr',hsame⟩ := hkey
    rw [←hsame]
    exact hk.keys n r' hr'
  · rw [he]
    exact hk

theorem ChannelState.addNode_keyed (key : P) : Call.Keeps (fun st => st.Keyed C)
    (ChannelState.addNode (computeId C key) key : Call (ChannelState maxNodes P) ChannelError Unit) := by
  intro st hk
  rcases hk.valid.sorted.addNode_cases (computeId C key) key with ⟨st',hok,hadded⟩ | ⟨_,e,he⟩
  · rw [hok]
    refine ⟨hadded.valid hk.valid,fun n r hr => ?_⟩
    rw [hadded.records n] at hr
    split_ifs at hr with hn
    · cases hr
      exact hn
    · exact hk.keys n r hr
  · rw [he]
    exact hk

/-- Everything that accepting a message does to a channel. -/
structure Accepted (ch ch' : Channel maxNodes slabSize C P) (channelId : ChannelId) (sender : NodeId)
    (message : Message (Protocol P)) (id : EnvelopeId) (maxSequence : U64) : Prop where
  state : ∃ st, ch.state.Received st sender message id maxSequence ∧
    match message.data with
    | .addUser m => st.Added ch'.state (computeId C m.key) m.key
    | _ => ch'.state = st
  allowed : ch.chat.Allows channelId sender message.data
  chat : ch.chat.Took ch'.chat message.data
  storage : ch'.storage = ch.storage

variable {ch : Channel maxNodes slabSize C P} {channelId : ChannelId} {sender : NodeId}
  {message : Message (Protocol P)} {id : EnvelopeId}

/-- The message passes both checks, but its new user cannot enter the table. -/
def UserRefused (ch : Channel maxNodes slabSize C P) (message : Message (Protocol P)) : Prop :=
  ∃ m, message.data = .addUser m ∧ ¬ch.state.Addable C m.key

theorem Channel.accept_early (hv : ch.state.Valid)
    (h : ¬(ch.state.Receivable sender message ∧ ch.chat.Allows channelId sender message.data))
    (id : EnvelopeId) :
    ∃ e, Channel.accept channelId sender message id ch = (.err e,ch) := by
  unfold Channel.accept
  rcases hv.sorted.checkReceive_cases sender message id with
    ⟨hrec,hc⟩ | ⟨_,e,hc⟩
  · rcases ch.chat.acceptMessage_cases channelId sender message.data with ⟨hallow,_⟩ | ⟨_,e,he⟩
    · exact absurd ⟨hrec,hallow⟩ h
    · refine ⟨.chatError e,?_⟩
      rw [Call.bind_ok (a := ()) (t := ch) (by simp [hc])]
      exact Call.bind_err (by simp [Channel.onChat,he])
  · exact ⟨.channelError e,Call.bind_err (by simp [hc])⟩

/-- A message that passes the checks is in the channel before its new user is looked at. -/
theorem Channel.accept_late (hv : ch.state.Valid) (hrec : ch.state.Receivable sender message)
    (hallow : ch.chat.Allows channelId sender message.data) (id : EnvelopeId) :
    ∃ maxSequence st chat, ch.state.Received st sender message id maxSequence ∧
      ch.chat.Took chat message.data ∧
      Channel.accept channelId sender message id ch =
        (match message.data with
        | .addUser m => (do
          Channel.onState (Call.mapErr .channelError (ChannelState.addNode (computeId C m.key) m.key))
          pure maxSequence : Call (Channel maxNodes slabSize C P) ClientError U64)
        | _ => pure maxSequence) { ch with state := st, chat := chat } := by
  rcases ch.chat.acceptMessage_cases channelId sender message.data with ⟨_,chat,hchat,htook⟩ | ⟨hno,_⟩
  swap
  · exact absurd hallow hno
  obtain ⟨maxSequence,st,hreceive⟩ := hv.receive_of_receivable hrec id
  refine ⟨maxSequence,st,chat,hv.receive_ok hreceive,htook,?_⟩
  have hc := (hv.sorted.checkReceive_eq_ok id).mpr hrec
  unfold Channel.accept
  rw [Call.bind_ok (a := ()) (t := ch) (by simp [hc]),
    Call.bind_ok (a := AcceptResult.of message.data chat.messageCount) (t := { ch with chat := chat })
      (by simp [Channel.onChat,hchat]),
    Call.bind_ok (a := maxSequence) (t := { ch with state := st, chat := chat })
      (by simp [Channel.onState,hreceive])]
  cases message.data <;> rfl

theorem Channel.accept_ok (hv : ch.state.Valid) (hrec : ch.state.Receivable sender message)
    (hallow : ch.chat.Allows channelId sender message.data) (huser : ¬UserRefused ch message)
    (id : EnvelopeId) : ∃ maxSequence ch', Channel.accept channelId sender message id ch = (.ok maxSequence,ch') ∧
      Accepted ch ch' channelId sender message id maxSequence := by
  obtain ⟨maxSequence,st,chat,hreceived,htook,haccept⟩ := Channel.accept_late hv hrec hallow id
  refine ⟨maxSequence,?_⟩
  cases hdata : message.data with
  | newChannel m =>
    rw [hdata] at haccept
    exact ⟨_,haccept,⟨st,hreceived,by rw [hdata]⟩,hallow,htook,rfl⟩
  | chatMessage m =>
    rw [hdata] at haccept
    exact ⟨_,haccept,⟨st,hreceived,by rw [hdata]⟩,hallow,htook,rfl⟩
  | addUser m =>
    rw [hdata] at haccept
    obtain ⟨hnew,hroom⟩ : ch.state.Addable C m.key :=
      not_not.mp (fun h => huser ⟨m,hdata,h⟩)
    have hnew' : st.record (computeId C m.key) = none := by
      have hknows := hreceived.knows (computeId C m.key)
      rw [hnew] at hknows
      simpa using hknows
    have hsorted := hreceived.sorted
    obtain ⟨st',hadd⟩ := hsorted.addNode_of_room hnew' (by rw [hreceived.length]; exact hroom) m.key
    refine ⟨{ ch with state := st', chat := chat },?_,⟨st,hreceived,?_⟩,hallow,htook,rfl⟩
    · exact haccept.trans (Call.bind_ok (a := ()) (t := { ch with state := st', chat := chat })
        (by simp [Channel.onState,hadd]))
    · rw [hdata]
      exact hsorted.addNode_ok hadd

theorem Channel.accept_refused (hv : ch.state.Valid) (hrec : ch.state.Receivable sender message)
    (hallow : ch.chat.Allows channelId sender message.data) (huser : UserRefused ch message)
    (id : EnvelopeId) : ∃ e ch', Channel.accept channelId sender message id ch = (.err e,ch') ∧
      e ≠ .channelError .alreadyReceived ∧ ch'.state.sequenceOf sender ≠ ch.state.sequenceOf sender := by
  obtain ⟨maxSequence,st,chat,hreceived,htook,haccept⟩ := Channel.accept_late hv hrec hallow id
  obtain ⟨m,hdata,hrefused⟩ := huser
  rw [hdata] at haccept
  have hseq : st.sequenceOf sender ≠ ch.state.sequenceOf sender := by
    rw [hreceived.sequenceOf,if_pos rfl]
    obtain ⟨r,hr,hlt,-,-⟩ := hrec
    rw [ChannelState.sequenceOf_eq hr]
    exact Nat.ne_of_gt hlt
  rcases hreceived.sorted.addNode_cases (computeId C m.key) m.key with ⟨st',_,hadded⟩ | ⟨_,e,he⟩
  · refine absurd ⟨?_,?_⟩ hrefused
    · have hknows := hreceived.knows (computeId C m.key)
      rw [hadded.unknown] at hknows
      simpa using hknows
    · rw [←hreceived.length]
      exact hadded.room
  · refine ⟨.channelError e,{ ch with state := st, chat := chat },?_,fun hno => ?_,hseq⟩
    swap
    · exact ChannelState.addNode_ne_alreadyReceived he (ClientError.channelError.inj hno)
    rw [haccept]
    exact Call.bind_err (by simp [Channel.onState,he])

/-- A channel accepts a message exactly when it passes the checks and its new user can enter. -/
theorem Channel.accept_eq_ok (hv : ch.state.Valid) {maxSequence : U64} {ch' : Channel maxNodes slabSize C P}
    (h : Channel.accept channelId sender message id ch = (.ok maxSequence,ch')) :
    Accepted ch ch' channelId sender message id maxSequence := by
  by_cases hearly : ch.state.Receivable sender message ∧ ch.chat.Allows channelId sender message.data
  swap
  · obtain ⟨e,he⟩ := Channel.accept_early hv hearly id
    rw [h] at he
    cases he
  by_cases huser : UserRefused ch message
  · obtain ⟨e,ch'',he,_⟩ := Channel.accept_refused hv hearly.1 hearly.2 huser id
    rw [h] at he
    cases he
  · obtain ⟨mx,ch'',hok,hacc⟩ := Channel.accept_ok hv hearly.1 hearly.2 huser id
    rw [h] at hok
    cases hok
    exact hacc

theorem Accepted.sequenceOf {ch' : Channel maxNodes slabSize C P} {maxSequence : U64}
    (h : Accepted ch ch' channelId sender message id maxSequence) (n : NodeId) :
    ch'.state.sequenceOf n = if sender = n then message.sequence.val else ch.state.sequenceOf n := by
  obtain ⟨st,hreceived,hstate⟩ := h.state
  rw [←hreceived.sequenceOf n]
  cases hdata : message.data with
  | newChannel m =>
    rw [hdata] at hstate
    rw [hstate]
  | chatMessage m =>
    rw [hdata] at hstate
    rw [hstate]
  | addUser m =>
    rw [hdata] at hstate
    exact hstate.sequenceOf n

theorem Accepted.sequence_ne {ch' : Channel maxNodes slabSize C P} {maxSequence : U64}
    (h : Accepted ch ch' channelId sender message id maxSequence) :
    ch'.state.sequenceOf sender ≠ ch.state.sequenceOf sender := by
  obtain ⟨st,hreceived,_⟩ := h.state
  obtain ⟨r,hr,hlt,-,-⟩ := hreceived.receivable
  rw [h.sequenceOf,if_pos rfl,ChannelState.sequenceOf_eq hr]
  exact Nat.ne_of_gt hlt

theorem Accepted.valid {ch' : Channel maxNodes slabSize C P} {maxSequence : U64} (hv : ch.state.Valid)
    (h : Accepted ch ch' channelId sender message id maxSequence) : ch'.state.Valid := by
  obtain ⟨st,hreceived,hstate⟩ := h.state
  have hst := hreceived.valid hv
  cases hdata : message.data with
  | newChannel m =>
    rw [hdata] at hstate
    exact hstate ▸ hst
  | chatMessage m =>
    rw [hdata] at hstate
    exact hstate ▸ hst
  | addUser m =>
    rw [hdata] at hstate
    exact hstate.valid hst

end Accept

end Finder
