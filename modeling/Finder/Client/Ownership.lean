import Finder.Client.Atomicity

namespace Finder

section

variable {maxUsers : Nat} {C P S : Type} [Crypto C P S]

/-- The owner stays once there is one, and every other user was added by the owner's own hand. -/
structure SingleAdmin (id : ChannelId) (log : List (NodeId × Protocol P)) (chat : Chat maxUsers C P) : Prop where
  owner : ∀ before after (mid : Chat maxUsers C P) o, log = before ++ after → Chat.Run id before mid →
    mid.ownerId = some o → chat.ownerId = some o
  users : ∀ o n key, chat.ownerId = some o → chat.users.get n = some key → n ≠ o →
    ∃ m, (o,Protocol.addUser m) ∈ log ∧ m.key = key ∧ computeId C key = n

omit [Crypto C P S] in
/-- All new channels of a run name one owner. -/
def OneOwner (C : Type) [Crypto C P S] (log : List (NodeId × Protocol P)) : Prop :=
  ∀ a m a' m', (a,Protocol.newChannel m) ∈ log → (a',Protocol.newChannel m') ∈ log →
    computeId C m.owner = computeId C m'.owner

theorem OneOwner.mono {log log' : List (NodeId × Protocol P)} (h : OneOwner C log') (hsub : log ⊆ log') :
    OneOwner C log := fun a m a' m' hm hm' => h a m a' m' (hsub hm) (hsub hm')

namespace Chat

variable {id : ChannelId} {log : List (NodeId × Protocol P)} {chat : Chat maxUsers C P}

/-- The owner of a chat is the one some new channel named. -/
theorem Run.named (h : Run id log chat) {o : NodeId} (ho : chat.ownerId = some o) :
    ∃ a m, (a,Protocol.newChannel m) ∈ log ∧ computeId C m.owner = o := by
  induction log using List.reverseRecOn generalizing chat with
  | nil =>
    cases h
    cases ho
  | append_singleton log entry ih =>
    obtain ⟨author,message⟩ := entry
    obtain ⟨mid,result,hlog,haccept⟩ := run_append_single.mp h
    obtain ⟨_,htook,_⟩ := acceptMessage_eq_ok haccept
    rw [htook.ownerId] at ho
    cases message with
    | newChannel m => exact ⟨author,m,by simp,Option.some.inj ho⟩
    | addUser m =>
      obtain ⟨a,m',hmem,hm'⟩ := ih hlog ho
      exact ⟨a,m',by simp [hmem],hm'⟩
    | chatMessage m =>
      obtain ⟨a,m',hmem,hm'⟩ := ih hlog ho
      exact ⟨a,m',by simp [hmem],hm'⟩

/-- Where all new channels name one owner, that is the owner from the first of them on. -/
theorem Run.owner_of_mem (h : Run id log chat) (hone : OneOwner C log) {a : NodeId} {m : NewChannel P}
    (hm : (a,Protocol.newChannel m) ∈ log) : chat.ownerId = some (computeId C m.owner) := by
  induction log using List.reverseRecOn generalizing chat with
  | nil => cases hm
  | append_singleton log entry ih =>
    obtain ⟨author,message⟩ := entry
    obtain ⟨mid,result,hlog,haccept⟩ := run_append_single.mp h
    obtain ⟨_,htook,_⟩ := acceptMessage_eq_ok haccept
    have hbefore := ih hlog (hone.mono (List.subset_append_left _ _))
    rw [htook.ownerId]
    cases message with
    | newChannel m' => exact congrArg some (hone author m' a m (by simp) hm)
    | addUser m' => exact hbefore (by simpa using hm)
    | chatMessage m' => exact hbefore (by simpa using hm)

/-- A new channel makes the owner it names the owner. -/
theorem Run.owner_of_last {author : NodeId} {m : NewChannel P}
    (h : Run id (log ++ [(author,.newChannel m)]) chat) : chat.ownerId = some (computeId C m.owner) := by
  obtain ⟨mid,result,_,haccept⟩ := run_append_single.mp h
  exact (acceptMessage_eq_ok haccept).2.1.ownerId

/-- Every user was named by a new channel, or added by the one who was the owner then. -/
theorem Run.introduced (h : Run id log chat) {n : NodeId} {key : P} (hn : chat.users.get n = some key) :
    computeId C key = n ∧ ((∃ a m, (a,Protocol.newChannel m) ∈ log ∧ m.owner = key) ∨
      ∃ a m a' m', (a,Protocol.addUser m) ∈ log ∧ m.key = key ∧ (a',Protocol.newChannel m') ∈ log ∧
        computeId C m'.owner = a) := by
  induction log using List.reverseRecOn generalizing chat with
  | nil =>
    cases h
    simp [Chat.new] at hn
  | append_singleton log entry ih =>
    obtain ⟨author,message⟩ := entry
    obtain ⟨mid,result,hlog,haccept⟩ := run_append_single.mp h
    obtain ⟨hallow,htook,_⟩ := acceptMessage_eq_ok haccept
    have hkeep : mid.users.get n = some key → computeId C key = n ∧
        ((∃ a m, (a,Protocol.newChannel m) ∈ log ++ [(author,message)] ∧ m.owner = key) ∨
          ∃ a m a' m', (a,Protocol.addUser m) ∈ log ++ [(author,message)] ∧ m.key = key ∧
            (a',Protocol.newChannel m') ∈ log ++ [(author,message)] ∧ computeId C m'.owner = a) := by
      intro hmid
      obtain ⟨hid,⟨a,m,hm,hkey⟩ | ⟨a,m,a',m',hm,hkey,hm',ha⟩⟩ := ih hlog hmid
      · exact ⟨hid,Or.inl ⟨a,m,by simp [hm],hkey⟩⟩
      · exact ⟨hid,Or.inr ⟨a,m,a',m',by simp [hm],hkey,by simp [hm'],ha⟩⟩
    have husers := htook.users
    cases message with
    | newChannel m =>
      rw [FnvIndexMap.insert_get husers] at hn
      split_ifs at hn with hid
      · cases hn
        exact ⟨hid.symm,Or.inl ⟨author,m,by simp,rfl⟩⟩
      · exact hkeep hn
    | addUser m =>
      rw [FnvIndexMap.insert_get husers] at hn
      split_ifs at hn with hid
      · cases hn
        obtain ⟨a',m',hm',ha⟩ := hlog.named hallow.1
        exact ⟨hid.symm,Or.inr ⟨author,m,a',m',by simp,rfl,by simp [hm'],ha⟩⟩
      · exact hkeep hn
    | chatMessage m =>
      rw [←Option.some.inj husers] at hn
      exact hkeep hn

/-- A single admin is the owner that every new channel named. -/
theorem Run.oneOwner (h : Run id log chat) (hadmin : SingleAdmin id log chat) : OneOwner C log := by
  intro a m a' m' hm hm'
  have howner : ∀ a m, (a,Protocol.newChannel m) ∈ log → chat.ownerId = some (computeId C m.owner) := by
    intro a m hm
    obtain ⟨before,after,rfl⟩ := List.append_of_mem hm
    rw [show before ++ (a,Protocol.newChannel m)::after = (before ++ [(a,.newChannel m)]) ++ after by simp] at h
    obtain ⟨mid,hmid,_⟩ := acceptAll_append.mp h
    exact hadmin.owner (before ++ [(a,Protocol.newChannel m)]) after mid _ (by simp) hmid (Run.owner_of_last hmid)
  exact Option.some.inj ((howner a m hm).symm.trans (howner a' m' hm'))

theorem Run.singleAdmin (h : Run id log chat) (hone : OneOwner C log) : SingleAdmin id log chat := by
  refine ⟨fun before after mid o hsplit hmid ho => ?_,fun o n key ho hn hne => ?_⟩
  · obtain ⟨a,m,hm,rfl⟩ := hmid.named ho
    exact h.owner_of_mem hone (by rw [hsplit]; exact List.mem_append_left _ hm)
  · obtain ⟨hid,⟨a,m,hm,hkey⟩ | ⟨a,m,a',m',hm,hkey,hm',ha⟩⟩ := h.introduced hn
    · rw [h.owner_of_mem hone hm,hkey,hid] at ho
      exact absurd (Option.some.inj ho) hne
    · rw [h.owner_of_mem hone hm',ha] at ho
      cases ho
      exact ⟨m,hm,hkey,hid⟩

/-- A run of accepted messages has a single admin exactly if its new channels name one owner. -/
theorem singleAdmin_iff (h : Run id log chat) : SingleAdmin id log chat ↔ OneOwner C log :=
  ⟨h.oneOwner,h.singleAdmin⟩

end Chat

/-- The chat of every channel a client holds is a run of accepted messages, and has a single admin exactly if the new
channels of a run that leads to it name one owner. -/
theorem Client.Reachable.admin_iff [Target] [RecordCodec] [Postcard (Message (Protocol P))] [EnvelopeCodec P]
    [Postcard (NewChannel P)] {maxChannels maxNodes slabSize : Nat}
    {client : Client maxChannels maxNodes slabSize C P S} (h : Client.Reachable client) {channelId : ChannelId}
    {ch : Channel maxNodes slabSize C P} (hget : client.channels.get channelId = some ch) :
    ch.chat.Ran ∧ ∀ log, Chat.Run ch.chat.id log ch.chat →
      (SingleAdmin ch.chat.id log ch.chat ↔ OneOwner C log) :=
  ⟨(h.sound channelId ch hget).chat,fun _ hrun => ⟨hrun.oneOwner,hrun.singleAdmin⟩⟩

end

section Owner

open PlainCrypto

/-- The owner after it has added a second node. -/
def ownerOfTwo : Client 2 2 256 PlainCrypto U64 U64 :=
  (ClientCall.run (.addNode (chatId 1) 2 Str.empty) owner).2

/-- The second node opens the channel anew, in its own name. -/
def usurpation : Message (Protocol U64) := ⟨nodeOf 1,0,3,.newChannel ⟨0,HString.new,2⟩⟩

def usurping : Bytes :=
  match (sealPlain (nodeOf 2) (.channel (chatId 1)) ⟨2,2⟩ usurpation scratch.length :
      Outcome CryptoError (ChatEnvelope U64)) with
  | .ok envelope => toBytes envelope
  | _ => []

/-- The messages the owner's chat has accepted by then. -/
def usurpedLog : List (NodeId × Protocol U64) :=
  [(nodeOf 1,.newChannel ⟨0,chatName,1⟩),(nodeOf 1,.addUser ⟨HString.new,2⟩),
    (nodeOf 2,usurpation.data)]

/-- Any member can make itself the owner: `do_receive` takes its new channel. -/
theorem member_takes_ownership : Client.Reachable ownerOfTwo ∧
    (ownerOfTwo.channels.get (chatId 1)).map (fun ch => ch.chat.ownerId) = some (some (nodeOf 1)) ∧
    (Client.doReceive (chatId 1) usurping ownerOfTwo).1 = .ok () ∧
    ((Client.doReceive (chatId 1) usurping ownerOfTwo).2.channels.get (chatId 1)).map
      (fun ch => ch.chat.ownerId) = some (some (nodeOf 2)) ∧
    ∃ chat : Chat 2 PlainCrypto U64, Chat.Run (chatId 1) usurpedLog chat ∧
      ¬SingleAdmin (chatId 1) usurpedLog chat := by
  refine ⟨.call _ _ owner_reachable trivial,by decide +kernel,by decide +kernel,by decide +kernel,?_⟩
  obtain ⟨first,hfirst⟩ : ∃ p, p = (Chat.acceptAll (chatId 1) (usurpedLog.take 1) (Chat.new (chatId 1)) :
    Outcome ChatError Unit × Chat 2 PlainCrypto U64) := ⟨_,rfl⟩
  obtain ⟨last,hlast⟩ : ∃ p, p = (Chat.acceptAll (chatId 1) usurpedLog (Chat.new (chatId 1)) :
    Outcome ChatError Unit × Chat 2 PlainCrypto U64) := ⟨_,rfl⟩
  have h1 : first.1 = .ok () ∧ first.2.ownerId = some (nodeOf 1) := by
    rw [hfirst]
    decide +kernel
  have h2 : last.1 = .ok () ∧ last.2.ownerId = some (nodeOf 2) := by
    rw [hlast]
    decide +kernel
  refine ⟨last.2,hlast.symm.trans (Prod.ext h2.1 rfl),fun hadmin => ?_⟩
  have hkept := hadmin.owner _ _ first.2 (nodeOf 1) (List.take_append_drop 1 usurpedLog).symm
    (hfirst.symm.trans (Prod.ext h1.1 rfl)) h1.2
  rw [h2.2] at hkept
  exact absurd hkept (by decide +kernel)

/-- The chat of an owner and one added user has a single admin. -/
theorem singleAdmin_before : ∃ chat : Chat 2 PlainCrypto U64, Chat.Run (chatId 1) (usurpedLog.take 2) chat ∧
    SingleAdmin (chatId 1) (usurpedLog.take 2) chat := by
  obtain ⟨last,hlast⟩ : ∃ p, p = (Chat.acceptAll (chatId 1) (usurpedLog.take 2) (Chat.new (chatId 1)) :
    Outcome ChatError Unit × Chat 2 PlainCrypto U64) := ⟨_,rfl⟩
  have hok : last.1 = .ok () := by
    rw [hlast]
    decide +kernel
  have hrun : Chat.Run (chatId 1) (usurpedLog.take 2) last.2 := hlast.symm.trans (Prod.ext hok rfl)
  refine ⟨last.2,hrun,(Chat.singleAdmin_iff hrun).mpr (fun a m a' m' hm hm' => ?_)⟩
  simp only [usurpedLog,List.take_succ_cons,List.take_zero,List.mem_cons,Prod.mk.injEq,Protocol.newChannel.injEq,
    reduceCtorEq,and_false,List.not_mem_nil,or_false] at hm hm'
  rw [hm.2,hm'.2]

end Owner

end Finder
