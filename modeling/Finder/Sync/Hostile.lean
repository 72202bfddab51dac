import Finder.Client.Permanence
import Finder.Storage.RoundTrip
import Finder.Sync.Responding
import Mathlib.Data.List.Sort

namespace Finder

variable {maxChannels maxNodes slabSize : Nat} {D C P S : Type}

section Messages

variable [Crypto C P S] [Postcard (Message (Protocol P))] [Postcard (ChatEnvelope P)]

/-- The message that bytes are under a key: they are an envelope of the node of the key, and the key opens it. -/
def messageOf (crypto : C) (key : P) (bytes : Bytes) : Option (Message (Protocol P)) :=
  match decodeAs (ChatEnvelope P) bytes with
  | .ok envelope => if envelope.sender = computeId C key then (Crypto.openEnvelope crypto key envelope).value else none
  | _ => none

variable [Target] [Postcard Record]

/-- The messages under a key that a client has stored on a channel. -/
def Client.messagesOf (client : Client maxChannels maxNodes slabSize C P S) (channelId : ChannelId) (key : P) :
    List (Message (Protocol P)) :=
  match client.channels.get channelId with
  | none => []
  | some ch =>
    match ch.storage.records with
    | .ok ds => ds.filterMap (messageOf client.crypto key)
    | _ => []

end Messages

/-- A list in order, of what is in another one in order, is a part of it. -/
theorem sublist_of_ordered {α : Type} {f : α → Nat} {xs ys : List α} (hxs : xs.Pairwise (fun a b => f a < f b))
    (hys : ys.Pairwise (fun a b => f a < f b)) (hmem : ∀ a ∈ xs, a ∈ ys) : xs.Sublist ys := by
  have hnodup : xs.Nodup := hxs.imp (fun hlt heq => by rw [heq] at hlt; omega)
  have : Std.Antisymm (fun a b : α => f a < f b) := ⟨fun a b hlt hgt => by omega⟩
  exact List.sublist_of_subperm_of_pairwise (List.subperm_of_subset hnodup hmem) hxs hys

section Hoards

variable [Target] [RecordCodec] [IdealCrypto C P S] [Postcard (Message (Protocol P))] [EnvelopeCodec P]
  {ch ch' : Channel maxNodes slabSize C P} {log : List (Entry P)} {e : Entry P} {crypto : C} {channelId : ChannelId}
  {outcome : Outcome ClientError Unit}

/-- What a channel has stored, whatever has come of its calls: every entry is signed, each sender's are in order and
not above where the table has the sender. -/
structure Channel.Hoards (ch : Channel maxNodes slabSize C P) (log : List (Entry P)) : Prop where
  signed : ∀ e ∈ log, e.Signed C
  passed : ∀ e ∈ log, e.message.sequence.val ≤ ch.state.sequenceOf e.sender
  ordered : log.Pairwise (fun e x => e.sender = x.sender → e.message.sequence.val < x.message.sequence.val)
  stored : ∃ rs : List Record, rs.map Record.data = log.map Entry.bytes ∧
    Holds ch.storage.io (rs.map (fun r => [r]))
  blank : ch.storage.io.Blank

namespace Channel.Hoards

theorem empty (hio : ch.storage.io.Zeroed) : ch.Hoards [] := by
  have hfiled : Filed ch.storage.io ([] : List (Entry P)) := hio.filed
  exact ⟨by simp,by simp,.nil,⟨[],rfl,hfiled.holds⟩,hfiled.blank⟩

theorem records (h : ch.Hoards log) : ch.storage.records = .ok (log.map Entry.bytes) := by
  obtain ⟨rs,hdata,hholds⟩ := h.stored
  rw [←hdata]
  exact hholds.records_singles (fun _ => h.blank)

/-- A message that is taken in comes behind what there is of its sender. -/
theorem take (h : ch.Hoards log) (hslab : slabSize ≤ 2^32) (hs : ch.Sound)
    (hcarries : Channel.Carries crypto ch.state e.bytes e.sender e.message e.id)
    (htake : Channel.take channelId e.sender e.message e.id e.bytes ch = (.ok (),ch')) : ch'.Hoards (log ++ [e]) := by
  have htaken := Channel.take_ok hs htake
  have hgrown := Channel.take_grows hs htake
  obtain ⟨_,hnew,hseq⟩ := htaken.accepted.attests
  obtain ⟨rs,hdata,hholds⟩ := h.stored
  refine ⟨fun x hx => ?_,fun x hx => ?_,?_,⟨rs ++ [Channel.recordOf ch e.sender e.message e.bytes],?_,?_⟩,?_⟩
  · rcases List.mem_append.mp hx with hx | hx
    · exact h.signed x hx
    · rw [List.mem_singleton.mp hx]
      exact Channel.Carries.signed hcarries hs.keyed
  · rcases List.mem_append.mp hx with hx | hx
    · exact (h.passed x hx).trans (hgrown.sequenceOf x.sender)
    · rw [List.mem_singleton.mp hx]
      exact le_of_eq hseq.symm
  · refine List.pairwise_append.mpr ⟨h.ordered,List.pairwise_singleton _ _,fun x hx y hy hsender => ?_⟩
    obtain rfl := List.mem_singleton.mp hy
    have hpassed := h.passed x hx
    rw [hsender] at hpassed
    exact hpassed.trans_lt hnew
  · rw [List.map_append,List.map_append,hdata,List.map_singleton,List.map_singleton,htaken.data]
  · rw [List.map_append]
    refine hholds.store ?_ htaken.stored
    -- a record that a slab has room for is shorter than the slab
    have hinit : SlabWriter.initialOffset = 12 := rfl
    have hbytes := slabBytes_single (Channel.recordOf ch e.sender e.message e.bytes)
    rcases store_cases hs.storage (Channel.recordOf ch e.sender e.message e.bytes) with
      ⟨_,hfits,_⟩ | ⟨_,_,st,hst,_⟩ | ⟨_,hst⟩
    · omega
    · rw [htaken.stored] at hst
      cases hst
    · rw [htaken.stored] at hst
      cases hst
  · exact h.blank.advanced (store_advanced hs.storage htaken.stored).1

/-- Any other message leaves what is stored as it is. -/
theorem refuse (h : ch.Hoards log) (hs : ch.Sound)
    (htake : Channel.take channelId e.sender e.message e.id e.bytes ch = (outcome,ch')) (hno : outcome ≠ .ok ()) :
    ch'.Hoards log := by
  have hgrown := Channel.take_grows hs htake
  obtain ⟨rs,hdata,hholds⟩ := h.stored
  have hpassed : ∀ x ∈ log, x.message.sequence.val ≤ ch'.state.sequenceOf x.sender :=
    fun x hx => (h.passed x hx).trans (hgrown.sequenceOf x.sender)
  rcases Channel.take_storage htake with ⟨_,hsame⟩ | ⟨r,_,hstored⟩
  · exact ⟨h.signed,hpassed,h.ordered,⟨rs,hdata,by rw [hsame]; exact hholds⟩,by rw [hsame]; exact h.blank⟩
  · obtain ⟨hadvanced,hcount⟩ := store_refused hs.storage hstored hno
    exact ⟨h.signed,hpassed,h.ordered,⟨rs,hdata,hholds.advanced hadvanced hcount⟩,h.blank.advanced hadvanced⟩

end Channel.Hoards

end Hoards

section Hostile

variable [Target] [RecordCodec] [IdealCrypto C P S] [Postcard (Message (Protocol P))] [EnvelopeCodec P]

/-- What one device of a group has stored of the channel. -/
structure Group.Hoards (g : Group D C P S) (d : D) (client : Client maxChannels maxNodes slabSize C P S)
    (log : List (Entry P)) : Prop where
  keyPair : client.keyPair = g.keys d
  nodeId : client.nodeId = g.node d
  sound : client.Every Channel.Sound
  absent : client.channels.get g.channelId = none → log = []
  hoards : ∀ ch, client.channels.get g.channelId = some ch → ch.Hoards log

/-- If the entry is of a device of the group, that one has stored its message. -/
def Group.Traced (g : Group D C P S) (logs : D → List (Entry P)) (e : Entry P) : Prop :=
  ∀ s, e.sender = g.node s → ∃ x ∈ logs s, x.sender = e.sender ∧ x.message = e.message

/-- A device goes on while the others stay as they are: it keeps what it has, and what is new is its own or of
messages that their senders have. -/
def Group.Goes (g : Group D C P S) (logs : D → List (Entry P)) (d : D)
    (client : Client maxChannels maxNodes slabSize C P S) : Prop :=
  ∃ log, g.Hoards d client log ∧ (∀ e ∈ logs d, e ∈ log) ∧ ∀ e ∈ log, e.sender = g.node d ∨ g.Traced logs e

namespace Group.Goes

variable {g : Group D C P S} {logs : D → List (Entry P)} {d : D}
  {client client' : Client maxChannels maxNodes slabSize C P S} {ch ch' : Channel maxNodes slabSize C P}
  {e : Entry P} {crypto : C} {outcome : Outcome ClientError Unit}

theorem elsewhere (h : g.Goes logs d client) (hid : client'.nodeId = client.nodeId)
    (hkey : client'.keyPair = client.keyPair) (hs : client'.Every Channel.Sound)
    (hsame : client'.channels.get g.channelId = client.channels.get g.channelId) : g.Goes logs d client' := by
  obtain ⟨log,hlog,hkept,horigin⟩ := h
  refine ⟨log,⟨hkey.trans hlog.keyPair,hid.trans hlog.nodeId,hs,?_,?_⟩,hkept,horigin⟩
  all_goals rw [hsame]
  · exact hlog.absent
  · exact hlog.hoards

/-- The channel takes a message in, or not. -/
theorem take (h : g.Goes logs d client) (hslab : slabSize ≤ 2^32)
    (hstart : ch.Sound ∧ ∀ log, g.Hoards d client log → ch.Hoards log)
    (hcarries : Channel.Carries crypto ch.state e.bytes e.sender e.message e.id)
    (htake : Channel.take g.channelId e.sender e.message e.id e.bytes ch = (outcome,ch'))
    (horigin : e.sender = g.node d ∨ g.Traced logs e) (hid : client'.nodeId = client.nodeId)
    (hkey : client'.keyPair = client.keyPair) (hs : client'.Every Channel.Sound)
    (hget : client'.channels.get g.channelId = some ch') : g.Goes logs d client' := by
  obtain ⟨log,hlog,hkept,hall⟩ := h
  have hch := hstart.2 log hlog
  have hnext : ∀ log', ch'.Hoards log' → g.Hoards d client' log' := by
    intro log' hlog'
    refine ⟨hkey.trans hlog.keyPair,hid.trans hlog.nodeId,hs,fun hnone => ?_,fun c hc => ?_⟩
    · rw [hget] at hnone
      cases hnone
    · rw [hget] at hc
      cases hc
      exact hlog'
  by_cases hok : outcome = .ok ()
  · subst hok
    refine ⟨log ++ [e],hnext _ (hch.take hslab hstart.1 hcarries htake),fun x hx => ?_,fun x hx => ?_⟩
    · exact List.mem_append_left _ (hkept x hx)
    · rcases List.mem_append.mp hx with hx | hx
      · exact hall x hx
      · rw [List.mem_singleton.mp hx]
        exact horigin
  · exact ⟨log,hnext _ (hch.refuse hstart.1 htake hok),hkept,hall⟩

/-- A call on one channel of the device. -/
theorem onChannel {x : Call (Channel maxNodes slabSize C P) ClientError Unit} {channelId : ChannelId}
    (h : g.Goes logs d client) (hslab : slabSize ≤ 2^32)
    (hx : ∀ ch ch', ch.Sound → x ch = (outcome,ch') → ch'.Sound ∧ (channelId = g.channelId → ch' = ch ∨ ∃ (crypto : C)
      (e : Entry P), Channel.Carries crypto ch.state e.bytes e.sender e.message e.id ∧
        Channel.take g.channelId e.sender e.message e.id e.bytes ch = (outcome,ch') ∧
        (e.sender = g.node d ∨ g.Traced logs e)))
    (hrun : Client.onChannel channelId x client = (outcome,client')) : g.Goes logs d client' := by
  have hsound := h.elim (fun log hlog => hlog.1.sound)
  rcases Client.onChannel_cases hrun with ⟨_,_,rfl⟩ | ⟨ch,ch',hget,hch,rfl⟩
  · exact h
  have hother := Client.channels_set hget ch'
  obtain ⟨hs',htaken⟩ := hx ch ch' (hsound _ ch hget) hch
  have hs : Client.Every Channel.Sound { client with channels := client.channels.set channelId ch' } := by
    intro id c hc
    rw [hother] at hc
    split_ifs at hc
    · cases hc
      exact hs'
    · exact hsound id c hc
  by_cases hid : channelId = g.channelId
  · subst hid
    rcases htaken rfl with rfl | ⟨crypto,e,hcarries,htake,horigin⟩
    · exact h.elsewhere rfl rfl hs (by rw [hother,if_pos rfl,hget])
    · exact h.take hslab ⟨hsound _ ch hget,fun log hlog => hlog.hoards ch hget⟩ hcarries htake horigin rfl rfl hs
        (by rw [hother,if_pos rfl])
  · exact h.elsewhere rfl rfl hs (by rw [hother,if_neg (Ne.symm hid)])

theorem doSend {channelId : ChannelId} {data : Protocol P} (h : g.Goes logs d client) (hslab : slabSize ≤ 2^32)
    (hrun : Client.doSend channelId data client = (outcome,client')) : g.Goes logs d client' := by
  obtain ⟨log,hlog,_⟩ := id h
  refine h.onChannel hslab (fun ch ch' hs hch => ⟨(Channel.doSend_moves hch).sound hs,fun hid => ?_⟩) hrun
  subst hid
  rcases Channel.doSend_cases hch with ⟨message,envelope,haddress,hseal,htake⟩ | ⟨_,hsame⟩
  · rw [hlog.nodeId] at haddress hseal htake
    rw [hlog.keyPair] at hseal
    exact Or.inr ⟨client.crypto,⟨g.node d,message,_,_⟩,Channel.carries_of_sealed hs.keyed (g.paired d) haddress hseal,
      htake,Or.inl rfl⟩
  · exact Or.inl hsame

theorem doReceive {channelId : ChannelId} {bytes : Bytes} (h : g.Goes logs d client) (hslab : slabSize ≤ 2^32)
    (hown : channelId = g.channelId → ∀ e : Entry P, e.Signed C → e.bytes = bytes → g.Traced logs e)
    (hrun : Client.doReceive channelId bytes client = (outcome,client')) : g.Goes logs d client' := by
  rcases Client.doReceive_cases hrun with ⟨_,_,_,rfl⟩ | ⟨envelope,_,_,hdecode,_,_,_⟩
  · exact h
  rw [Client.doReceive_decoded hdecode] at hrun
  refine h.onChannel hslab (fun ch ch' hs hch => ⟨?_,fun hid => ?_⟩) hrun
  · have hmoves : Channel.Moves client.nodeId client.keyPair channelId (outcome ≠ .ok ()) ch ch' :=
      Channel.doReceive_moves hdecode hch
    exact hmoves.sound hs
  subst hid
  rcases Channel.doReceive_cases hch with ⟨key,message,hkey,hopen,htake⟩ | ⟨_,hsame⟩
  · have hcarries : Channel.Carries client.crypto ch.state bytes envelope.sender message
        (Crypto.envelopeId client.crypto envelope) := ⟨envelope,key,hdecode,rfl,hkey,hopen,rfl⟩
    have hsigned : Entry.Signed C (⟨envelope.sender,message,_,bytes⟩ : Entry P) :=
      Channel.Carries.signed hcarries hs.keyed
    exact Or.inr ⟨client.crypto,⟨envelope.sender,message,_,bytes⟩,hcarries,htake,Or.inr (hown rfl _ hsigned rfl)⟩
  · exact Or.inl hsame

end Group.Goes

/-- What every frame of a buffer keeps, a buffer keeps. -/
theorem Client.receiveFrames_rule {I : Client maxChannels maxNodes slabSize C P S → Prop} {channelId : ChannelId}
    {buffer : Bytes} {count offset : Nat} (hI : ∀ frame ∈ framesOf buffer count offset, ∀ client outcome client',
      I client → Client.doReceive channelId frame client = (outcome,client') → I client')
    {client client' : Client maxChannels maxNodes slabSize C P S} {outcome : Outcome ClientError Unit} (h : I client)
    (hrun : Client.receiveFrames channelId buffer count offset client = (outcome,client')) : I client' := by
  induction count generalizing offset client with
  | zero =>
    cases hrun
    exact h
  | succ count ih =>
    rw [Client.receiveFrames] at hrun
    rcases Call.lift_bind_cases hrun with ⟨⟨len,start⟩,hlen,h1⟩ | ⟨_,hsame⟩
    swap
    · exact (show client' = client from hsame) ▸ h
    rcases Call.lift_bind_cases h1 with ⟨stop,hstop,h2⟩ | ⟨_,hsame⟩
    swap
    · exact (show client' = client from hsame) ▸ h
    rcases Call.lift_bind_cases h2 with ⟨frame,hframe,h3⟩ | ⟨_,hsame⟩
    swap
    · exact (show client' = client from hsame) ▸ h
    rw [framesOf_next hlen hstop hframe] at hI
    have hfirst := hI frame List.mem_cons_self
    have hlater := fun b hb => hI b (List.mem_cons_of_mem _ hb)
    split at h3
    · rename_i mid hcall
      exact ih hlater (hfirst client _ mid h hcall) h3
    · rename_i mid hcall
      exact ih hlater (hfirst client _ mid h hcall) h3
    · rename_i e mid _ hcall
      cases h3
      exact hfirst client _ _ h hcall
    · rename_i mid hcall
      cases h3
      exact hfirst client _ _ h hcall

section Calls

variable [Postcard (NewChannel P)] {g : Group D C P S} {logs : D → List (Entry P)} {d : D}
  {client client' : Client maxChannels maxNodes slabSize C P S} {outcome : Outcome ClientError Unit}

omit [Postcard (NewChannel P)] in
theorem Group.Goes.idle (h : g.Goes logs d client) (hidle : Client.Idle client client') : g.Goes logs d client' := by
  have hs : client'.Every Channel.Sound := by
    obtain ⟨log,hlog,_⟩ := h
    intro id ch hid
    rw [hidle.channels] at hid
    exact hlog.sound id ch hid
  exact h.elsewhere hidle.nodeId hidle.keyPair hs (by rw [hidle.channels])

omit [Postcard (NewChannel P)] in
/-- A channel that is made where there was none, and has stored nothing. -/
theorem Group.Goes.made {made : Channel maxNodes slabSize C P → Prop} {id : ChannelId} (h : g.Goes logs d client)
    (hmakes : Client.Makes id made client client') (hs : client'.Every Channel.Sound)
    (hnone : id = g.channelId → client.channels.get g.channelId = none)
    (hmade : id = g.channelId → ∀ ch, made ch → ch.Hoards []) : g.Goes logs d client' := by
  obtain ⟨ch,hch,hget⟩ := hmakes.channels
  by_cases hid : id = g.channelId
  swap
  · exact h.elsewhere hmakes.nodeId hmakes.keyPair hs (by rw [hget,if_neg (Ne.symm hid)])
  subst hid
  obtain ⟨log,hlog,hkept,horigin⟩ := h
  obtain rfl := hlog.absent (hnone rfl)
  refine ⟨[],⟨hmakes.keyPair.trans hlog.keyPair,hmakes.nodeId.trans hlog.nodeId,hs,fun _ => rfl,fun c hc => ?_⟩,
    hkept,horigin⟩
  rw [hget,if_pos rfl] at hc
  cases hc
  exact hmade rfl ch hch

/-- Any call that makes no channel in the place of the group's, and is given nothing forged. -/
theorem Group.Goes.call {call : ClientCall slabSize P} (h : g.Goes logs d client) (hslab : slabSize ≤ 2^32)
    (hsound : call.Sound) (hfree : call.target client = some g.channelId →
      client.channels.get g.channelId = none ∧ ∀ io ∈ call.memory, io.Zeroed)
    (hown : ∀ buffer count, call = .receiveBuffer g.channelId buffer count → ∀ b ∈ Client.framesOf buffer count 0,
      ∀ e : Entry P, e.Signed C → e.bytes = b → g.Traced logs e)
    (hrun : call.run client = (outcome,client')) : g.Goes logs d client' := by
  have hs' : client'.Every Channel.Sound := by
    obtain ⟨log,hlog,_⟩ := h
    have hkept := Client.run_keeps hsound client hlog.sound
    rwa [hrun] at hkept
  cases call with
  | initChat nameStr io =>
    obtain ⟨result,c,hinit,⟨id,rfl,hpure⟩ | ⟨hno,_,rfl⟩⟩ := Call.bind_cases
      (show (Client.initChat nameStr io >>= fun _ => pure ()) client = (outcome,client') from hrun)
    · cases hpure
      obtain ⟨_,_,start,_,_,_,hfresh,hmakes⟩ := Client.initChat_takes hsound hinit
      by_cases hid : id = g.channelId
      · subst hid
        obtain ⟨hnone,hzeroed⟩ := hfree (ClientCall.initChat_target hinit)
        obtain ⟨log,hlog,_⟩ := id h
        rw [hlog.keyPair] at hfresh hmakes
        obtain ⟨ch,⟨message,envelope,haddress,hseal,htake⟩,hget⟩ := hmakes.channels
        have hstart := Channel.freshChannel_sound hsound hfresh
        have hempty : ∀ log, g.Hoards d client log → start.Hoards log := by
          intro log hlog
          rw [hlog.absent hnone]
          exact .empty (by rw [Channel.freshChannel_storage hfresh]; exact hzeroed io rfl)
        exact h.take hslab ⟨hstart,hempty⟩ (e := ⟨g.node d,message,_,_⟩)
          (Channel.carries_of_sealed hstart.keyed (g.paired d) haddress hseal) htake (Or.inl rfl) hmakes.nodeId
          hmakes.keyPair hs' (by rw [hget,if_pos rfl])
      · exact h.made hmakes hs' (fun heq => absurd heq hid) (fun heq => absurd heq hid)
    · rcases Client.initChat_makes hsound hinit with ⟨id,hok,_⟩ | ⟨_,hidle⟩
      · exact absurd hok (hno id)
      · exact h.idle hidle
  | addChannel sender channelId io =>
    rcases Client.addChannel_makes hrun with ⟨_,hmakes⟩ | ⟨_,hidle⟩
    · refine h.made hmakes hs' (fun hid => ?_) (fun hid ch hfresh => ?_)
      · exact (hfree (congrArg some hid)).1
      · exact .empty (by rw [Channel.freshChannel_storage hfresh]; exact (hfree (congrArg some hid)).2 io rfl)
    · exact h.idle hidle
  | openChat channelId io =>
    rcases Client.openChat_makes hrun with ⟨_,hmakes⟩ | ⟨_,hidle⟩
    · refine h.made hmakes hs' (fun hid => ?_) (fun hid ch hopens => ?_)
      · exact (hfree (congrArg some hid)).1
      · exact .empty (by rw [hopens.1]; exact (hfree (congrArg some hid)).2 io rfl)
    · exact h.idle hidle
  | sendMessage channelId msg =>
    rcases Call.lift_bind_cases hrun with ⟨text,_,hsend⟩ | ⟨_,hsame⟩
    · exact h.doSend hslab hsend
    · exact (show client' = client from hsame) ▸ h
  | addNode channelId pubKey name =>
    rcases Call.lift_bind_cases hrun with ⟨nameString,_,hsend⟩ | ⟨_,hsame⟩
    · exact h.doSend hslab hsend
    · exact (show client' = client from hsame) ▸ h
  | receiveBuffer channelId buffer count =>
    refine Client.receiveFrames_rule (fun frame hframe c o c' hc hcall => ?_) h hrun
    exact hc.doReceive hslab (fun hid => hown buffer count (by rw [hid]) frame hframe) hcall

end Calls

section World

variable [DecidableEq D] [Postcard (NewChannel P)] {g : Group D C P S}
  {clients : D → Client maxChannels maxNodes slabSize C P S} {logs : D → List (Entry P)} {d : D}

/-- Bytes that are a message under the key of a device are one that it has stored on the channel. -/
def Unforged (g : Group D C P S) (clients : D → Client maxChannels maxNodes slabSize C P S) (bytes : Bytes) : Prop :=
  ∀ s m, messageOf (clients s).crypto (g.keys s).pub bytes = some m →
    m ∈ (clients s).messagesOf g.channelId (g.keys s).pub

/-- The devices of a group after any calls with any outcomes, on a network that gives them any bytes but forged
ones. A device makes the channel where it has none, on zeroed memory. -/
inductive Besieged (g : Group D C P S) : (D → Client maxChannels maxNodes slabSize C P S) → Prop
  | new (cryptos : D → C) : Besieged g (fun d => Client.new (g.keys d) (cryptos d) FnvIndexMap.empty)
  | call (clients : D → Client maxChannels maxNodes slabSize C P S) (d : D) (call : ClientCall slabSize P)
      (h : Besieged g clients) (hsound : call.Sound)
      (hfree : call.target (clients d) = some g.channelId →
        (clients d).channels.get g.channelId = none ∧ ∀ io ∈ call.memory, io.Zeroed)
      (hunforged : ∀ buffer count, call = .receiveBuffer g.channelId buffer count →
        ∀ b ∈ Client.framesOf buffer count 0, Unforged g clients b) :
      Besieged g (Function.update clients d (call.run (clients d)).2)

/-- What the devices have stored, each entry a message that its sender has. -/
structure Hoard (g : Group D C P S) (clients : D → Client maxChannels maxNodes slabSize C P S)
    (logs : D → List (Entry P)) : Prop where
  hoards : ∀ d, g.Hoards d (clients d) (logs d)
  own : ∀ d, ∀ e ∈ logs d, g.Traced logs e

omit [Target] [RecordCodec] [DecidableEq D] [Postcard (NewChannel P)] in
theorem messageOf_signed {e : Entry P} (h : e.Signed C) (crypto : C) (key : P) : messageOf crypto key e.bytes =
    if e.sender = computeId C key then some e.message else none := by
  obtain ⟨crypto',envelope,key',hdecode,hsender,hkey,hopen,_⟩ := h
  rw [messageOf,hdecode]
  dsimp only
  rw [hsender]
  by_cases hown : e.sender = computeId C key
  · rw [if_pos hown,if_pos hown]
    rw [computeId_injective C (hkey.trans hown),IdealCrypto.open_stateless crypto' crypto] at hopen
    rw [hopen]
    rfl
  · rw [if_neg hown,if_neg hown]

omit [Target] [RecordCodec] [DecidableEq D] [Postcard (NewChannel P)] in
theorem filterMap_messageOf {log : List (Entry P)} (h : ∀ e ∈ log, e.Signed C) (crypto : C) (key : P) :
    (log.map Entry.bytes).filterMap (messageOf crypto key) =
      (log.filter (fun e => decide (e.sender = computeId C key))).map (fun e => e.message) := by
  induction log with
  | nil => rfl
  | cons e log ih =>
    rw [List.map_cons,List.filterMap_cons,messageOf_signed (h e List.mem_cons_self),
      ih (fun x hx => h x (List.mem_cons_of_mem _ hx))]
    by_cases hown : e.sender = computeId C key
    · simp [hown]
    · simp [hown]

omit [DecidableEq D] [Postcard (NewChannel P)] in
/-- The messages under a key are those of its node in the log. -/
theorem Group.Hoards.messagesOf {client : Client maxChannels maxNodes slabSize C P S} {log : List (Entry P)}
    (h : g.Hoards d client log) (key : P) : client.messagesOf g.channelId key =
      (log.filter (fun e => decide (e.sender = computeId C key))).map (fun e => e.message) := by
  rw [Client.messagesOf]
  cases hget : client.channels.get g.channelId with
  | none =>
    rw [h.absent hget]
    rfl
  | some ch =>
    have hch := h.hoards ch hget
    dsimp only
    rw [hch.records]
    exact filterMap_messageOf hch.signed client.crypto key

omit [DecidableEq D] [Postcard (NewChannel P)] in
theorem Group.Hoards.mem_messagesOf {client : Client maxChannels maxNodes slabSize C P S} {log : List (Entry P)}
    (h : g.Hoards d client log) {key : P} {m : Message (Protocol P)} :
    m ∈ client.messagesOf g.channelId key ↔ ∃ e ∈ log, e.sender = computeId C key ∧ e.message = m := by
  simp [h.messagesOf,and_assoc]

omit [DecidableEq D] [Postcard (NewChannel P)] in
/-- The messages under a key are in the order of their numbers. -/
theorem Group.Hoards.ordered {client : Client maxChannels maxNodes slabSize C P S} {log : List (Entry P)}
    (h : g.Hoards d client log) (key : P) :
    (client.messagesOf g.channelId key).Pairwise (fun m m' => m.sequence.val < m'.sequence.val) := by
  cases hget : client.channels.get g.channelId with
  | none =>
    rw [h.messagesOf,h.absent hget]
    exact .nil
  | some ch =>
    rw [h.messagesOf,List.pairwise_map]
    refine ((h.hoards ch hget).ordered.sublist List.filter_sublist).imp_of_mem (fun ha hb hlt => hlt ?_)
    rw [of_decide_eq_true (List.mem_filter.mp ha).2,of_decide_eq_true (List.mem_filter.mp hb).2]

omit [DecidableEq D] [Postcard (NewChannel P)] in
/-- What is read by its number is the message of a stored record under the key of its sender. -/
theorem Group.Hoards.getMessage {client : Client maxChannels maxNodes slabSize C P S} {log : List (Entry P)}
    (h : g.Hoards d client log) {index : U64} {text : ChatMessage}
    (hm : client.getMessage g.channelId index = .ok text) :
    ∃ key m, m ∈ client.messagesOf g.channelId key ∧ m.data = .chatMessage text := by
  unfold Client.getMessage Client.channel at hm
  obtain ⟨ch,hch,h1⟩ := Outcome.bind_eq_ok.mp hm
  have hget := Outcome.okOr_eq_ok.mp hch
  have hhoards := h.hoards ch hget
  obtain ⟨rs,hdata,hholds⟩ := hhoards.stored
  obtain ⟨found,hscan,h2⟩ := Outcome.bind_eq_ok.mp h1
  obtain ⟨cursor,hcursor,h3⟩ := Outcome.bind_eq_ok.mp h2
  obtain rfl := Outcome.okOr_eq_ok.mp hcursor
  obtain ⟨record,hread,h4⟩ := Outcome.bind_eq_ok.mp h3
  obtain ⟨⟨bytes,next⟩,hrecord,h5⟩ := Outcome.bind_eq_ok.mp h4
  obtain rfl := Outcome.okOr_eq_ok.mp hrecord
  replace hscan := Outcome.mapErr_eq_ok.mp hscan
  replace hread := Outcome.mapErr_eq_ok.mp hread
  have hbytes : bytes ∈ log.map Entry.bytes := by
    rw [←hdata]
    cases hfind : rs.find? (fun r => decide (r.messageCount ≥ index)) with
    | none =>
      have hpast : ∀ r ∈ (rs.map (fun r => [r])).flatten, decide (r.messageCount ≥ index) = false := by
        rw [flatten_singles]
        intro x hx
        simpa using List.find?_eq_none.mp hfind x hx
      rw [Storage.getCursorFromIndex,hholds.scan_none hhoards.blank hpast] at hscan
      cases hscan
    | some r =>
      obtain ⟨hr,pre,post,hsplit,hpre⟩ := List.find?_eq_some_iff_append.mp hfind
      obtain ⟨cursor',hfound,hreads⟩ := hholds.scan_found (fun r => decide (r.messageCount ≥ index))
        (by rw [flatten_singles]; exact hsplit) (fun x hx => by simpa using hpre x hx) hr
      rw [Storage.getCursorFromIndex,hfound] at hscan
      cases hscan
      rw [List.map_cons] at hreads
      cases hreads with
      | next _ _ _ _ hnext _ =>
        rw [hread] at hnext
        cases hnext
        exact List.mem_map.mpr ⟨r,by rw [hsplit]; exact List.mem_append_right _ List.mem_cons_self,rfl⟩
  obtain ⟨envelope,hdecode,h6⟩ := Outcome.bind_eq_ok.mp h5
  obtain ⟨key,hkey,h7⟩ := Outcome.bind_eq_ok.mp h6
  obtain ⟨message,hopen,h8⟩ := Outcome.bind_eq_ok.mp h7
  replace hkey := Outcome.mapErr_eq_ok.mp hkey
  replace hopen := Outcome.mapErr_eq_ok.mp hopen
  have hkeyed := (h.sound _ ch hget).keyed
  obtain ⟨r,hr,rfl⟩ := hkeyed.valid.sorted.getNodeKey_eq_ok.mp hkey
  have hmessage : messageOf client.crypto r.publicKey bytes = some message := by
    rw [messageOf,hdecode]
    dsimp only
    rw [if_pos (hkeyed.keys _ r hr).symm,hopen]
    rfl
  have hmem : message ∈ client.messagesOf g.channelId r.publicKey := by
    rw [Client.messagesOf,hget]
    dsimp only
    rw [hhoards.records]
    exact List.mem_filterMap.mpr ⟨bytes,hbytes,hmessage⟩
  cases hchat : message.data with
  | chatMessage m =>
    rw [hchat] at h8
    cases h8
    exact ⟨r.publicKey,message,hmem,hchat⟩
  | newChannel m =>
    rw [hchat] at h8
    cases h8
  | addUser m =>
    rw [hchat] at h8
    cases h8

theorem Besieged.hoard (h : Besieged g clients) (hslab : slabSize ≤ 2^32) : ∃ logs, Hoard g clients logs := by
  induction h with
  | new cryptos =>
    refine ⟨fun _ => [],fun d => ⟨rfl,rfl,fun id ch hid => ?_,fun _ => rfl,fun ch hid => ?_⟩,by simp⟩
    · cases hid
    · cases hid
  | call clients d call _ hsound hfree hunforged ih =>
    obtain ⟨logs,hlogs⟩ := ih
    have hgoes : g.Goes logs d (clients d) := ⟨logs d,hlogs.hoards d,fun _ he => he,fun e he => Or.inr (hlogs.own d e he)⟩
    obtain ⟨log,hlog,hkept,horigin⟩ := hgoes.call hslab hsound hfree (fun buffer count hcall b hb e hsigned hbytes s hs => by
      have hmessage : messageOf (clients s).crypto (g.keys s).pub b = some e.message := by
        rw [←hbytes,messageOf_signed hsigned]
        exact if_pos hs
      obtain ⟨x,hx,hsender,hsame⟩ := (hlogs.hoards s).mem_messagesOf.mp (hunforged buffer count hcall b hb s _ hmessage)
      exact ⟨x,hx,hsender.trans hs.symm,hsame⟩) (Prod.eta _).symm
    have hlater : ∀ e, g.Traced logs e → g.Traced (Function.update logs d log) e := by
      intro e he s hs
      obtain ⟨x,hx,hsame⟩ := he s hs
      refine ⟨x,?_,hsame⟩
      by_cases hd : s = d
      · subst hd
        rw [Function.update_self]
        exact hkept x hx
      · rwa [Function.update_of_ne hd]
    refine ⟨Function.update logs d log,fun d' => ?_,fun d' e he => ?_⟩
    · by_cases hd : d' = d
      · subst hd
        rw [Function.update_self,Function.update_self]
        exact hlog
      · rw [Function.update_of_ne hd,Function.update_of_ne hd]
        exact hlogs.hoards d'
    · by_cases hd : d' = d
      · subst hd
        rw [Function.update_self] at he
        rcases horigin e he with hsender | htraced
        · intro s hs
          obtain rfl := g.node_injective (hs.symm.trans hsender)
          exact ⟨e,by rwa [Function.update_self],rfl,rfl⟩
        · exact hlater e htraced
      · rw [Function.update_of_ne hd] at he
        exact hlater e (hlogs.own d' e he)

/-- Nothing that the network does makes a device store a message of another one that this has not stored, twice or
out of order; and what it reads by a number is one of the messages it has stored. -/
theorem Besieged.nothing_forged (h : Besieged g clients) (hslab : slabSize ≤ 2^32) (d : D) :
    (∀ s, ((clients d).messagesOf g.channelId (g.keys s).pub).Sublist
        ((clients s).messagesOf g.channelId (g.keys s).pub) ∧
      ((clients d).messagesOf g.channelId (g.keys s).pub).Pairwise (fun m m' => m.sequence < m'.sequence)) ∧
    ∀ index text, (clients d).getMessage g.channelId index = .ok text → ∃ key m,
      m ∈ (clients d).messagesOf g.channelId key ∧ m.data = .chatMessage text := by
  obtain ⟨logs,hlogs⟩ := h.hoard hslab
  have hordered := fun d s => (hlogs.hoards d).ordered (g.keys s).pub
  refine ⟨fun s => ⟨sublist_of_ordered (hordered d s) (hordered s s) (fun m hm => ?_),hordered d s⟩,
    fun index text hm => (hlogs.hoards d).getMessage hm⟩
  obtain ⟨e,he,hsender,rfl⟩ := (hlogs.hoards d).mem_messagesOf.mp hm
  obtain ⟨x,hx,hsame,hmessage⟩ := hlogs.own d e he s hsender
  exact (hlogs.hoards s).mem_messagesOf.mpr ⟨x,hx,hsame.trans hsender,hmessage⟩

end World

end Hostile

section Pair

open PlainCrypto

/-- The owner's first record with one more byte behind it, then bytes that are no envelope. -/
def tampered : Bytes := sendFrames [sealedBy 1 (chatId 1) opening ++ [7],[1,2,3]]

/-- The other device once it has been given the two. -/
def deceived : Client 2 2 256 PlainCrypto U64 U64 :=
  (ClientCall.run (.receiveBuffer (chatId 1) tampered 2) joiner).2

def pairDeceived : Bool → Client 2 2 256 PlainCrypto U64 U64 := fun d => if d then owner else deceived

/-- Messages are compared by their bytes. -/
theorem unforged_of_bytes {clients : Bool → Client 2 2 256 PlainCrypto U64 U64} {b : Bytes}
    (h : ∀ s, ∀ x ∈ (messageOf (clients s).crypto (pair.keys s).pub b).map toBytes,
      x ∈ ((clients s).messagesOf pair.channelId (pair.keys s).pub).map toBytes) : Unforged pair clients b := by
  intro s m hm
  obtain ⟨m',hm',hbytes⟩ := List.mem_map.mp (h s (toBytes m) (by rw [hm]; rfl))
  have hread : fromBytes (toBytes m') = .ok m := by rw [hbytes,Postcard.fromBytes_toBytes]
  rw [Postcard.fromBytes_toBytes] at hread
  cases hread
  exact hm'

theorem pairJoined_besieged : Besieged pair pairJoined := by
  have hio : (blankIo 256 4).Zeroed := blankIo_zeroed (by decide) (by decide +kernel)
  have hnew : Besieged pair (fun d => Client.new (pair.keys d) (⟨0⟩ : PlainCrypto) FnvIndexMap.empty :
      Bool → Client 2 2 256 PlainCrypto U64 U64) := .new (fun _ => (⟨0⟩ : PlainCrypto))
  have hsame : (fun d => Client.new (pair.keys d) (⟨0⟩ : PlainCrypto) FnvIndexMap.empty :
      Bool → Client 2 2 256 PlainCrypto U64 U64) = pairNew := by
    funext d
    cases d <;> rfl
  rw [hsame] at hnew
  have hinit := Besieged.call _ true (.initChat chatStr (blankIo 256 4)) hnew hio.sound
    (fun _ => ⟨rfl,fun io hmem => (by cases hmem; exact hio)⟩) (fun _ _ hno => by cases hno)
  have howner : Function.update pairNew true owner = (fun d => if d then owner else client 2) := by
    funext d
    cases d <;> rfl
  rw [show (ClientCall.run (.initChat chatStr (blankIo 256 4)) (pairNew true)).2 = owner from rfl,howner] at hinit
  have hjoin := Besieged.call _ false (.addChannel 1 (chatId 1) (blankIo 256 4)) hinit hio.sound
    (fun _ => ⟨rfl,fun io hmem => (by cases hmem; exact hio)⟩) (fun _ _ hno => by cases hno)
  have hjoined : Function.update (fun d => if d then owner else client 2) false joiner = pairJoined := by
    funext d
    cases d <;> rfl
  rwa [show (ClientCall.run (.addChannel 1 (chatId 1) (blankIo 256 4))
    ((fun d => if d then owner else client 2) false)).2 = joiner from rfl,hjoined] at hjoin

theorem pairDeceived_besieged : Besieged pair pairDeceived := by
  have hframes : Client.framesOf tampered 2 0 = [sealedBy 1 (chatId 1) opening ++ [7],[1,2,3]] := by decide +kernel
  have hgiven := Besieged.call pairJoined false (.receiveBuffer (chatId 1) tampered 2) pairJoined_besieged trivial
    (fun hno => by cases hno) (fun buffer count hcall b hb => by
      cases hcall
      rw [hframes] at hb
      refine unforged_of_bytes ?_
      rcases List.mem_cons.mp hb with hb | hb
      · rw [hb]
        decide +kernel
      · rw [List.mem_singleton.mp hb]
        decide +kernel)
  have hlast : Function.update pairJoined false deceived = pairDeceived := by
    funext d
    cases d <;> rfl
  rwa [show (ClientCall.run (.receiveBuffer (chatId 1) tampered 2) (pairJoined false)).2 = deceived from rfl,
    hlast] at hgiven

theorem nothing_forged_deceived : deceived.channels.get (chatId 1) ≠ none ∧
    (deceived.messagesOf (chatId 1) 1).length = 1 ∧
    (deceived.messagesOf (chatId 1) 1).Sublist (owner.messagesOf (chatId 1) 1) :=
  ⟨by decide +kernel,by decide +kernel,((pairDeceived_besieged.nothing_forged (by decide) false).1 true).1⟩

end Pair

end Finder
