import Finder.Client.Addressing
import Finder.Sync.Responding

namespace Finder

variable {maxChannels maxNodes slabSize : Nat} {D C P S : Type}

section Same

/-- Sorted tables of the same nodes are of one length. -/
theorem ChannelState.Sorted.length_congr {st st' : ChannelState maxNodes P} (hs : st.Sorted) (hs' : st'.Sorted)
    (hsame : ∀ n, (st.record n).isSome = true ↔ (st'.record n).isSome = true) :
    st.nodes.toList.length = st'.nodes.toList.length := by
  have hnodup : ∀ {s : ChannelState maxNodes P}, s.Sorted → (s.nodes.toList.map NodeSequence.node).Nodup :=
    fun hs => (List.pairwise_map.mpr hs).imp ne_of_lt
  have hperm : (st.nodes.toList.map NodeSequence.node).Perm (st'.nodes.toList.map NodeSequence.node) :=
    (List.perm_ext_iff_of_nodup (hnodup hs) (hnodup hs')).mpr
      (fun n => hs.mem_nodes_iff.trans ((hsame n).trans hs'.mem_nodes_iff.symm))
  simpa using hperm.length_eq

/-- Maps with the same keys, each once, are of one length. -/
theorem FnvIndexMap.length_congr {κ ν : Type} [DecidableEq κ] {n : Nat} {m m' : FnvIndexMap κ ν n}
    (h : m.keys.Nodup) (h' : m'.keys.Nodup) (hsame : ∀ k, m.containsKey k = true ↔ m'.containsKey k = true) :
    m.entries.length = m'.entries.length := by
  have hperm : m.keys.Perm m'.keys := (List.perm_ext_iff_of_nodup h h').mpr
    (fun k => FnvIndexMap.mem_keys.trans ((hsame k).trans FnvIndexMap.mem_keys.symm))
  simpa [FnvIndexMap.keys] using hperm.length_eq

theorem Protocol.admitted_of_added {m : Protocol P} {key : P} (h : m.added = some key) : m.admitted = some key := by
  cases m <;> simp_all [Protocol.added,Protocol.admitted]

theorem Channel.Story.chatId [Crypto C P S] [Postcard (Message (Protocol P))] [EnvelopeCodec P]
    {channelId : ChannelId} {creator : P} {log : List (Entry P)} {ch : Channel maxNodes slabSize C P}
    (h : Channel.Story channelId creator log ch) : ch.chat.id = channelId := by
  induction h with
  | new ch _ hchat =>
    rw [hchat]
    rfl
  | accept log ch ch' crypto e maxSequence _ _ haccepted ih => exact haccepted.chat.id.trans ih
  | store log ch storage _ ih => exact ih

/-- A log takes a slab for each entry. -/
theorem Filed.length_le [Target] [RecordCodec] {io : MemIo slabSize} {log : List (Entry P)} (h : Filed io log) :
    log.length ≤ isizeMax := by
  have hroom := h.holds.room
  have hbound := h.holds.bounded
  have hrecords : (recordsFrom 0 0 log).length = log.length := by
    have hlength := congrArg List.length
      (recordsFrom_data : (recordsFrom 0 0 log).map Record.data = log.map Entry.bytes)
    simpa using hlength
  rw [List.length_map,hrecords] at hroom
  exact (Nat.le_mul_of_pos_right _ h.holds.positive).trans (hroom.trans hbound)

end Same

/-- Of what one has the entry is the first that the other lacks. -/
structure Lacks (logs : D → List (Entry P)) (p q : D) (before : List (Entry P)) (e : Entry P) (after : List (Entry P)) :
    Prop where
  split : logs p = before ++ e::after
  before : ∀ x ∈ before, x ∈ logs q
  missing : e ∉ logs q

section Next

variable [Target] [IdealCrypto C P S] [RecordCodec] [Postcard (Message (Protocol P))] [EnvelopeCodec P]
  {g : Group D C P S} {clients : D → Client maxChannels maxNodes slabSize C P S} {logs : D → List (Entry P)}
  {p q : D} {c c' chP chQ : Channel maxNodes slabSize C P} {e x : Entry P} {before after : List (Entry P)}
  {maxSequence : U64} {key : P}

/-- Only the owner brings in users, itself among them. -/
theorem Logs.admits (h : Logs g clients logs) (hx : x ∈ logs p) (hkey : x.message.data.admitted = some key) :
    x.sender = g.node g.owner := by
  cases hdata : x.message.data with
  | newChannel m => exact (((h.keeps p).proper x hx).names m hdata).2
  | addUser m =>
    have hadded : x.message.data.added = some m.key := by rw [hdata]; rfl
    exact h.adds hx hadded
  | chatMessage m =>
    rw [hdata] at hkey
    cases hkey

namespace Lacks

/-- So of users the other one has what came before, where the entry is the owner's. -/
theorem admits_iff (hl : Lacks logs p q before e after) (h : Logs g clients logs) (howner : e.sender = g.node g.owner)
    (hkey : x.message.data.admitted = some key) : x ∈ logs q ↔ x ∈ before := by
  refine ⟨fun hx => ?_,hl.before x⟩
  have hsender := (h.admits hx hkey).trans howner.symm
  have hmem : x ∈ entriesOf e.sender (logs q) := mem_byAuthor.mpr ⟨hx,hsender⟩
  have hsame : entriesOf e.sender (logs q) = entriesOf e.sender before := h.coherent.next hl.split hl.before hl.missing
  rw [hsame] at hmem
  exact (mem_byAuthor.mp hmem).1

theorem knows_iff (hl : Lacks logs p q before e after) (h : Logs g clients logs) (howner : e.sender = g.node g.owner)
    (hq : (clients q).channels.get g.channelId = some chQ) (hc : Channel.Story g.channelId g.creator before c)
    (n : NodeId) : (chQ.state.record n).isSome = true ↔ (c.state.record n).isSome = true := by
  rw [((h.keeps q).story chQ hq).knows_iff,hc.knows_iff]
  refine exists_congr (fun key => and_congr_left (fun _ => or_congr_right (exists_congr (fun x => ?_))))
  exact and_congr_left (fun hkey => hl.admits_iff h howner (Protocol.admitted_of_added hkey))

theorem users_iff (hl : Lacks logs p q before e after) (h : Logs g clients logs) (howner : e.sender = g.node g.owner)
    (hq : (clients q).channels.get g.channelId = some chQ) (hc : Channel.Story g.channelId g.creator before c)
    (n : NodeId) : chQ.chat.users.containsKey n = true ↔ c.chat.users.containsKey n = true := by
  rw [((h.keeps q).story chQ hq).users_iff,hc.users_iff]
  constructor
  · rintro ⟨x,hx,key,hkey,hid⟩
    exact ⟨x,(hl.admits_iff h howner hkey).mp hx,key,hkey,hid⟩
  · rintro ⟨x,hx,key,hkey,hid⟩
    exact ⟨x,hl.before x hx,key,hkey,hid⟩

/-- What has a place among the users there has one here. -/
theorem hasPlace (hl : Lacks logs p q before e after) (h : Logs g clients logs) (howner : e.sender = g.node g.owner)
    (hq : (clients q).channels.get g.channelId = some chQ) (hc : Channel.Story g.channelId g.creator before c)
    (hplace : c.chat.HasPlace key) : chQ.chat.HasPlace key := by
  have hsame := hl.users_iff h howner hq hc
  have hlength := FnvIndexMap.length_congr ((h.keeps q).story chQ hq).users_nodup hc.users_nodup hsame
  unfold Chat.HasPlace at hplace ⊢
  rwa [hsame,hlength]

/-- The sender stands where it stood, and every other node at least there. -/
theorem receivable (hl : Lacks logs p q before e after) (h : Logs g clients logs)
    (hq : (clients q).channels.get g.channelId = some chQ) (hc : Channel.Story g.channelId g.creator before c)
    (hreceivable : c.state.Receivable e.sender e.message) : chQ.state.Receivable e.sender e.message := by
  have hstory := (h.keeps q).story chQ hq
  obtain ⟨r,hr,hlt,hlast,hcause⟩ := hreceivable
  have hknown : (chQ.state.record e.sender).isSome = true := by
    rw [hstory.knows_iff]
    obtain ⟨key,hkey | ⟨x,hx,hkey⟩,hid⟩ := (hc.knows_iff e.sender).mp (by rw [hr]; rfl)
    · exact ⟨key,Or.inl hkey,hid⟩
    · exact ⟨key,Or.inr ⟨x,hl.before x hx,hkey⟩,hid⟩
  obtain ⟨r',hr'⟩ := Option.isSome_iff_exists.mp hknown
  have hsame : entriesOf e.sender (logs q) = entriesOf e.sender before := h.coherent.next hl.split hl.before hl.missing
  have hsequence : r'.sequence = r.sequence := by
    apply Fin.ext
    rw [←ChannelState.sequenceOf_eq hr',←ChannelState.sequenceOf_eq hr,(hstory.chained e.sender).1,
      (hc.chained e.sender).1,hsame]
  have hle : c.state.sequenceOf e.message.cause ≤ chQ.state.sequenceOf e.message.cause := by
    rw [(hstory.chained _).1,(hc.chained _).1]
    exact tip_byAuthor_le hl.before (hstory.chained e.message.cause).2
  exact ⟨r',hr',by rwa [hsequence],by rwa [hsequence],by omega⟩

/-- The chat has been opened by the same owner, and counts no more messages than there are records. -/
theorem allowed (hl : Lacks logs p q before e after) (h : Logs g clients logs)
    (hq : (clients q).channels.get g.channelId = some chQ) (hc : Channel.Story g.channelId g.creator before c)
    (hallowed : c.chat.Allows g.channelId e.sender e.message.data) :
    chQ.chat.Allows g.channelId e.sender e.message.data := by
  have hstory := (h.keeps q).story chQ hq
  have he : e ∈ logs p := by simp [hl.split]
  cases hdata : e.message.data with
  | newChannel m =>
    rw [hdata] at hallowed
    exact ⟨hstory.chatId.symm,hl.hasPlace h (((h.keeps p).proper e he).names m hdata).2 hq hc hallowed.2⟩
  | addUser m =>
    rw [hdata] at hallowed
    have hadded : e.message.data.added = some m.key := by rw [hdata]; rfl
    have howner := h.adds he hadded
    refine ⟨?_,hl.hasPlace h howner hq hc hallowed.2⟩
    obtain ⟨x,hx,m',hm'⟩ := hc.opened (Or.inl hallowed.1)
    rw [(hstory.owner (h.namesOwner q)).1 ⟨x,hl.before x hx,m',hm'⟩,howner]
    rfl
  | chatMessage m =>
    rw [hdata] at hallowed
    obtain ⟨x,hx,hadmitted⟩ := (hc.users_iff e.sender).mp hallowed.1
    refine ⟨(hstory.users_iff e.sender).mpr ⟨x,hl.before x hx,hadmitted⟩,?_⟩
    have hcount := hstory.chats
    have hfew : (chats (logs q)).length ≤ (logs q).length := List.length_filterMap_le _ _
    have hlog := ((h.keeps q).filed chQ hq).length_le
    have hmax := usizeMax_eq
    have hword := usizeMax_lt
    omega

theorem not_refused (hl : Lacks logs p q before e after) (h : Logs g clients logs)
    (hq : (clients q).channels.get g.channelId = some chQ) (hc : Channel.Story g.channelId g.creator before c)
    (haccepted : Accepted c c' g.channelId e.sender e.message e.id maxSequence) : ¬UserRefused chQ e.message := by
  rintro ⟨m,hdata,hrefused⟩
  have he : e ∈ logs p := by simp [hl.split]
  have hadded : e.message.data.added = some m.key := by rw [hdata]; rfl
  have hknows := hl.knows_iff h (h.adds he hadded) hq hc
  refine hrefused ⟨?_,?_⟩
  · have hunknown := haccepted.added_unknown hadded
    have hsame := hknows (computeId C m.key)
    rw [hunknown] at hsame
    simpa using hsame
  · obtain ⟨st,hreceived,hstate⟩ := haccepted.state
    rw [hdata] at hstate
    have hroom := hstate.room
    rw [hreceived.length] at hroom
    have hsortedQ : chQ.state.Sorted := h.nodes_sorted hq
    rwa [hsortedQ.length_congr hc.valid.sorted hknows]

/-- What one has accepted has a place with the other, if there is a slab for it. -/
theorem place (hl : Lacks logs p q before e after) (h : Logs g clients logs)
    (hp : (clients p).channels.get g.channelId = some chP) (hq : (clients q).channels.get g.channelId = some chQ)
    (hslab : chQ.storage.io.HasSlab)
    (hfits : (slabBytes [e.record (topFrom 0 (logs q)) (countFrom 0 (logs q))]).length ≤ slabSize) :
    chQ.HasPlace g.channelId e.sender e.message e.bytes := by
  have hstoryP := (h.keeps p).story chP hp
  rw [hl.split] at hstoryP
  obtain ⟨c,c',maxSequence,hc,haccepted⟩ := hstoryP.split
  refine ⟨hl.receivable h hq hc haccepted.receivable,hl.allowed h hq hc haccepted.allowed,
    hl.not_refused h hq hc haccepted,hslab,?_⟩
  rwa [((h.keeps q).story chQ hq).recordOf_eq e]

end Lacks

/-- The storage has a slab for each of the records, and each of them fits in one. -/
structure Storage.HasRoomFor (st : Storage slabSize) (rs : List Record) : Prop where
  slabs : (st.io.slabCount+rs.length)*slabSize ≤ st.io.data.length
  fits : ∀ r ∈ rs, (slabBytes [r]).length ≤ slabSize

omit [Target] in
theorem Storage.HasRoomFor.hasSlab {st : Storage slabSize} {r : Record} {rs : List Record}
    (h : st.HasRoomFor (r::rs)) : st.io.HasSlab := by
  have hfits := h.fits r List.mem_cons_self
  have hframe := frame_length r
  rw [slabBytes_single] at hfits
  refine ⟨by omega,(Nat.mul_le_mul_right _ ?_).trans h.slabs⟩
  rw [List.length_cons]
  omega

theorem Storage.HasRoomFor.store {st st' : Storage slabSize} {r x : Record} {rs : List Record}
    (h : st.HasRoomFor (r::rs)) (hs : st.io.Sound) (hst : Channel.onWriter
      (Channel.writeRecord x.maxSequence x.messageCount x.sequence x.sender x.data) st = (.ok (),st')) :
    st'.HasRoomFor rs := by
  obtain ⟨hadvanced,hcount⟩ := store_advanced hs hst
  refine ⟨?_,fun y hy => h.fits y (List.mem_cons_of_mem _ hy)⟩
  have hslabs := h.slabs
  rw [List.length_cons] at hslabs
  rw [hcount rfl,hadvanced.length,Nat.add_assoc,Nat.add_comm 1]
  exact hslabs

namespace Logs

/-- What a member has signed is carried to all that know it. -/
theorem carries (h : Logs g clients logs) (he : e ∈ logs p) (hq : (clients q).channels.get g.channelId = some chQ)
    (hknown : (chQ.state.record e.sender).isSome = true) (crypto : C) :
    Channel.Carries crypto chQ.state e.bytes e.sender e.message e.id := by
  obtain ⟨crypto',envelope,key,hdecode,hsender,hid,hopen,henvelope⟩ := ((h.keeps p).proper e he).signed
  have hs := (h.keeps q).sound _ chQ hq
  obtain ⟨r,hr⟩ := Option.isSome_iff_exists.mp hknown
  have hkey : r.publicKey = key := computeId_injective C ((hs.keyed.keys _ r hr).trans hid.symm)
  have hcarries : Channel.Carries crypto' chQ.state e.bytes e.sender e.message e.id :=
    ⟨envelope,key,hdecode,hsender,hs.valid.sorted.getNodeKey_eq_ok.mpr ⟨r,hr,hkey⟩,hopen,henvelope⟩
  exact hcarries.congr_crypto crypto

/-- The first entry that one lacks is taken in. -/
theorem takeNext (h : Logs g clients logs) (hl : Lacks logs p q before e after)
    (hp : (clients p).channels.get g.channelId = some chP) (hq : (clients q).channels.get g.channelId = some chQ)
    {rs : List Record}
    (hroom : chQ.storage.HasRoomFor (e.record (topFrom 0 (logs q)) (countFrom 0 (logs q))::rs)) :
    ∃ client' chQ', Client.doReceive g.channelId e.bytes (clients q) = (.ok (),client') ∧
      client'.channels.get g.channelId = some chQ' ∧ chQ'.storage.HasRoomFor rs := by
  have hs := (h.keeps q).sound _ chQ hq
  have he : e ∈ logs p := by simp [hl.split]
  have hplace := hl.place h hp hq hroom.hasSlab (hroom.fits _ List.mem_cons_self)
  obtain ⟨r,hr,_⟩ := hplace.receivable
  obtain ⟨envelope,key,hdecode,hsender,hkey,hopen,_⟩ := h.carries he hq (by rw [hr]; rfl) (clients q).crypto
  rw [←hsender] at hkey hplace
  have hok := (Channel.doReceive_ok_iff hs).mpr ⟨key,e.message,hkey,hopen,hplace⟩
  rcases hrun : Channel.doReceive (clients q).crypto g.channelId envelope e.bytes chQ with ⟨outcome,chQ'⟩
  rw [hrun] at hok
  obtain rfl : outcome = .ok () := hok
  have hother := Client.onChannel_get (x := Channel.doReceive (clients q).crypto g.channelId envelope e.bytes) hq
    g.channelId
  rw [if_pos rfl,hrun] at hother
  obtain ⟨sender,message,id,_,htake⟩ := Channel.doReceive_takes hdecode hrun
  refine ⟨_,chQ',?_,hother,hroom.store hs.storage (Channel.take_ok hs htake).stored⟩
  rw [Client.doReceive_decoded hdecode]
  refine Prod.ext ?_ rfl
  rw [Client.onChannel_some hq,hrun]

/-- What one has is passed over. -/
theorem passOver (h : Logs g clients logs) (he : e ∈ logs q) :
    Client.doReceive g.channelId e.bytes (clients q) = (.err (.channelError .alreadyReceived),clients q) := by
  obtain ⟨chQ,hq⟩ := h.held he
  have hattested := ((h.keeps q).story chQ hq).attested
  have hpassed := hattested.passed e he
  obtain ⟨envelope,key,_,_,hkey,_⟩ := hattested.carried e he (clients q).crypto
  obtain ⟨r,hr,_⟩ := ((h.keeps q).sound _ chQ hq).valid.sorted.getNodeKey_eq_ok.mp hkey
  rw [ChannelState.sequenceOf_eq hr] at hpassed
  exact Client.doReceive_of_delivered (h.keeps q).sound hq ⟨e.sender,e.message,e.id,hattested.carried e he,r,hr,hpassed⟩

/-- Bytes are of one entry of the group only. -/
theorem mem_of_bytes (h : Logs g clients logs) (he : e ∈ logs p) (hbytes : e.bytes ∈ (logs q).map Entry.bytes) :
    e ∈ logs q := by
  obtain ⟨x,hx,hsame⟩ := List.mem_map.mp hbytes
  rwa [←((h.keeps q).proper x hx).signed.unique ((h.keeps p).proper e he).signed hsame]

theorem nodup (h : Logs g clients logs) (p : D) : (logs p).Nodup := by
  cases hget : (clients p).channels.get g.channelId with
  | none =>
    rw [(h.keeps p).absent hget]
    exact List.nodup_nil
  | some ch => exact ((h.keeps p).story ch hget).attested.distinct.of_map _

end Logs

/-- Those entries of which the bytes are not held. -/
def news (held : List Bytes) (es : List (Entry P)) : List (Entry P) := es.filter (fun e => decide (e.bytes ∉ held))

section News

omit [Target] [IdealCrypto C P S] [RecordCodec] [Postcard (Message (Protocol P))] [EnvelopeCodec P]

variable {held : List Bytes} {es : List (Entry P)}

@[simp] theorem mem_news : e ∈ news held es ↔ e ∈ es ∧ e.bytes ∉ held := by simp [news]

theorem news_held (he : e.bytes ∈ held) : news held (e::es) = news held es :=
  List.filter_cons_of_neg (fun h => of_decide_eq_true h he)

theorem news_cons (he : e.bytes ∉ held) : news held (e::es) = e::news held es :=
  List.filter_cons_of_pos (decide_eq_true he)

theorem news_append (held more : List Bytes) (es : List (Entry P)) :
    news (held ++ more) es = news more (news held es) := by
  rw [news,news,news,List.filter_filter]
  refine List.filter_congr (fun x _ => ?_)
  rw [Bool.eq_iff_iff,Bool.and_eq_true,decide_eq_true_iff,decide_eq_true_iff,decide_eq_true_iff,List.mem_append,not_or,
    and_comm]

theorem news_concat (hno : ∀ x ∈ es, x.bytes ≠ e.bytes) : news (held ++ [e.bytes]) es = news held es := by
  refine List.filter_congr (fun x hx => ?_)
  simp [hno x hx]

end News

/-- No later entry of a log has the same bytes. -/
theorem Logs.bytes_ne (h : Logs g clients logs) (hsplit : logs p = before ++ e::after) :
    ∀ x ∈ after, x.bytes ≠ e.bytes := by
  intro x hx hbytes
  have he : e ∈ logs p := by simp [hsplit]
  have hx' : x ∈ logs p := by simp [hsplit,hx]
  have hsame := ((h.keeps p).proper x hx').signed.unique ((h.keeps p).proper e he).signed hbytes
  have hnodup := h.nodup p
  rw [hsplit] at hnodup
  have hcons := (List.nodup_append.mp hnodup).2.1
  rw [List.nodup_cons] at hcons
  exact hcons.1 (hsame ▸ hx)

variable [DecidableEq D]

/-- One receives what the other has stored from some record on, where it has all before: what it has is passed over,
what it lacks is taken in. -/
theorem Logs.catchUp {es rest : List (Entry P)} (h : Logs g clients logs) (hsplit : logs p = before ++ (es ++ rest))
    (hbefore : ∀ x ∈ before, x ∈ logs q) (hp : (clients p).channels.get g.channelId = some chP)
    (hq : (clients q).channels.get g.channelId = some chQ)
    (hroom : chQ.storage.HasRoomFor (recordsFrom (topFrom 0 (logs q)) (countFrom 0 (logs q))
      (news ((logs q).map Entry.bytes) es))) :
    ∃ client' chQ', Client.receiveAll g.channelId (es.map Entry.bytes) (clients q) = (.ok (),client') ∧
      client'.channels.get g.channelId = some chQ' ∧ Logs g (Function.update clients q client')
        (Function.update logs q (logs q ++ news ((logs q).map Entry.bytes) es)) := by
  induction es generalizing clients logs before chQ with
  | nil =>
    refine ⟨clients q,chQ,rfl,hq,?_⟩
    rw [news,List.filter_nil,List.append_nil,Function.update_eq_self,Function.update_eq_self]
    exact h
  | cons e es ih =>
    have hfirst : logs p = before ++ e::(es ++ rest) := by simp [hsplit]
    have hnext : logs p = (before ++ [e]) ++ (es ++ rest) := by simp [hsplit]
    have he : e ∈ logs p := by simp [hsplit]
    rw [List.map_cons,Client.receiveAll]
    by_cases hheld : e.bytes ∈ (logs q).map Entry.bytes
    · have hmem := h.mem_of_bytes he hheld
      have hbefore' : ∀ x ∈ before ++ [e], x ∈ logs q := by
        intro x hx
        rcases List.mem_append.mp hx with hx | hx
        · exact hbefore x hx
        · rwa [List.mem_singleton.mp hx]
      rw [news_held hheld] at hroom ⊢
      simp only [h.passOver hmem]
      exact ih h hnext hbefore' hp hq hroom
    · have hnew : e ∉ logs q := fun hmem => hheld (List.mem_map.mpr ⟨e,hmem,rfl⟩)
      have hpq : p ≠ q := by
        rintro rfl
        exact hnew he
      rw [news_cons hheld] at hroom ⊢
      rw [recordsFrom] at hroom
      obtain ⟨client1,chQ1,hreceive,hq1,hroom1⟩ := h.takeNext ⟨hfirst,hbefore,hnew⟩ hp hq hroom
      have hlater : news ((logs q ++ [e]).map Entry.bytes) es = news ((logs q).map Entry.bytes) es := by
        rw [List.map_append]
        exact news_concat (fun x hx => h.bytes_ne hfirst x (List.mem_append_left _ hx))
      have hsplit1 : Function.update logs q (logs q ++ [e]) p = (before ++ [e]) ++ (es ++ rest) := by
        rw [Function.update_of_ne hpq,hnext]
      have hbefore1 : ∀ x ∈ before ++ [e], x ∈ Function.update logs q (logs q ++ [e]) q := by
        intro x hx
        rw [Function.update_self]
        rcases List.mem_append.mp hx with hx | hx
        · exact List.mem_append_left _ (hbefore x hx)
        · exact List.mem_append_right _ hx
      have hp1 : (Function.update clients q client1 p).channels.get g.channelId = some chP := by
        rw [Function.update_of_ne hpq]
        exact hp
      have hown1 : (Function.update clients q client1 q).channels.get g.channelId = some chQ1 := by
        rw [Function.update_self]
        exact hq1
      have hroom1' : chQ1.storage.HasRoomFor (recordsFrom (topFrom 0 (Function.update logs q (logs q ++ [e]) q))
          (countFrom 0 (Function.update logs q (logs q ++ [e]) q))
          (news ((Function.update logs q (logs q ++ [e]) q).map Entry.bytes) es)) := by
        rw [Function.update_self,hlater]
        simpa [topFrom,countFrom] using hroom1
      obtain ⟨client',chQ',hrun,hq',hlogs⟩ := ih (h.doReceive he hreceive) hsplit1 hbefore1 hp1 hown1 hroom1'
      rw [Function.update_self] at hrun hlogs
      rw [hlater,Function.update_idem,Function.update_idem,List.append_assoc] at hlogs
      refine ⟨client',chQ',?_,hq',hlogs⟩
      simp only [hreceive]
      exact hrun

end Next

end Finder
