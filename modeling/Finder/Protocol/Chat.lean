import Finder.Framework.Strings
import Finder.Protocol.Crypto

namespace Finder

def nameMax : Nat := 128
def chatMax : Nat := 1024

structure NewChannel (P : Type) where
  nonce : BitVec 128
  name : HString nameMax
  owner : P

structure AddUser (P : Type) where
  name : HString nameMax
  key : P

structure ChatMessage where
  text : HString chatMax
  deriving DecidableEq

inductive Protocol (P : Type) where
  | addUser (addUser : AddUser P)
  | newChannel (newChannel : NewChannel P)
  | chatMessage (chatMessage : ChatMessage)

inductive ChatError where
  | unexpectedId
  | maxUsersExceeded
  | uninitlized
  | unauthorized
  | unreachable
  deriving DecidableEq

/-- The chat of a channel; `C` is the cryptography its keys belong to. -/
@[ext] structure Chat (maxUsers : Nat) (C P : Type) where
  id : ChannelId
  ownerId : Option NodeId
  users : FnvIndexMap NodeId P maxUsers
  messageCount : U64

inductive AcceptResult (P : Type) where
  | addUser (key : P)
  | newMessage (count : U64)
  | none

namespace Chat

variable {maxUsers : Nat} {C P S : Type} [Crypto C P S]

omit [Crypto C P S] in
def new (id : ChannelId) : Chat maxUsers C P :=
  { id := id
    ownerId := none
    users := FnvIndexMap.empty
    messageCount := 0 }

/-- Insert a key under its id; the map gives the pair back where it is full. -/
def addUser (key : P) : Call (Chat maxUsers C P) ChatError NodeId := fun chat =>
  match chat.users.insert (computeId C key) key with
  | none => (.err .maxUsersExceeded,chat)
  | some users => (.ok (computeId C key),{ chat with users := users })

def acceptMessage (id : ChannelId) (author : NodeId) (message : Protocol P) :
    Call (Chat maxUsers C P) ChatError (AcceptResult P) := fun chat =>
  match message with
  | .newChannel newChannel =>
    if id ≠ chat.id then (.err .unexpectedId,chat)
    else
      match addUser newChannel.owner chat with
      | (.err e,chat') => (.err e,chat')
      | (.panic,chat') => (.panic,chat')
      | (.ok ownerId,chat') => (.ok .none,{ chat' with ownerId := some ownerId })
  | .addUser add =>
    match chat.ownerId with
    | none => (.err .uninitlized,chat)
    | some ownerId =>
      if author ≠ ownerId then (.err .unauthorized,chat)
      else
        match addUser add.key chat with
        | (.err e,chat') => (.err e,chat')
        | (.panic,chat') => (.panic,chat')
        | (.ok _,chat') => (.ok (.addUser add.key),chat')
  | .chatMessage _ =>
    if chat.users.containsKey author = false then (.err .unauthorized,chat)
    else
      match U64.checkedSucc chat.messageCount with
      | none => (.err .unreachable,chat)
      | some count => (.ok (.newMessage count),{ chat with messageCount := count })

end Chat

end Finder
