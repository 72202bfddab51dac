import Finder.Math.Gossip
import Finder.Sync.Agreement

namespace Finder

variable {maxChannels maxNodes slabSize : Nat} {D C P S : Type}

section Group

variable [Target] [IdealCrypto C P S] [RecordCodec] [Postcard (Message (Protocol P))] [EnvelopeCodec P]

/-- The last record that the client has stored on the channel. -/
def Wrote (client : Client maxChannels maxNodes slabSize C P S) (channelId : ChannelId) (b : Bytes) : Prop :=
  ∃ ch held, client.channels.get channelId = some ch ∧ ch.storage.records = .ok (held ++ [b])

/-- A round with a buffer and a storage that are large enough. -/
structure Suffices (requester responder : Client maxChannels maxNodes slabSize C P S) (channelId : ChannelId)
    (client' : Client maxChannels maxNodes slabSize C P S) : Prop where
  round : ∃ chQ chP buffer outcome, requester.channels.get channelId = some chQ ∧
    responder.channels.get channelId = some chP ∧ buffer.length ≤ isizeMax ∧ Fits chQ chP buffer ∧
    (∀ ds, Offers chQ chP ds → RoomFor chQ ds) ∧ Round requester responder channelId buffer outcome client'

variable {g : Group D C P S} {clients : D → Client maxChannels maxNodes slabSize C P S} {logs : D → List (Entry P)}
  {d p q : D} {client' : Client maxChannels maxNodes slabSize C P S} {chP chQ : Channel maxNodes slabSize C P}
  {events : List (Event D Bytes)} {e : Entry P} {b : Bytes}

variable [DecidableEq D]

/-- After such a round the requester has what it had, and what the responder has. -/
theorem Logs.suffices (h : Logs g clients logs) (hround : Suffices (clients q) (clients p) g.channelId client') :
    ∃ more, Logs g (Function.update clients q client') (Function.update logs q (logs q ++ more)) ∧
      ∀ x, x ∈ logs q ++ more ↔ x ∈ logs q ∨ x ∈ logs p := by
  obtain ⟨chQ,chP,buffer,outcome,hq,hp,hmax,hfits,hroom,hcalls⟩ := hround.round
  obtain ⟨ds,hoffers,_,hreceive⟩ := h.receives_of_round hp hq hmax hcalls
  have hall := fitting_all (hfits ds hoffers)
  have hroom' : RoomFor chQ (fitting buffer.length ds) := by
    rw [hall]
    exact hroom ds hoffers
  obtain ⟨before,es,rest,client1,chQ',hsplit,hbefore,hdata,hes,hok,_,hlogs⟩ := h.receives hp hq hoffers hroom'
  rw [hreceive] at hok
  cases hok
  obtain rfl : rest = [] := by
    have hlength := congrArg List.length (hall.symm.trans hes)
    rw [hdata,List.length_map,List.length_map,List.length_append] at hlength
    exact List.eq_nil_of_length_eq_zero (by omega)
  rw [List.append_nil] at hsplit
  refine ⟨_,hlogs,fun x => ?_⟩
  rw [List.mem_append,mem_news,hsplit,List.mem_append]
  constructor
  · rintro (hx | ⟨hx,_⟩)
    · exact Or.inl hx
    · exact Or.inr (Or.inr hx)
  · rintro (hx | hx | hx)
    · exact Or.inl hx
    · exact Or.inl (hbefore x hx)
    · by_cases hheld : x.bytes ∈ (logs q).map Entry.bytes
      · exact Or.inl (h.mem_of_bytes (p := p) (by rw [hsplit]; exact List.mem_append_right _ hx) hheld)
      · exact Or.inr ⟨hx,hheld⟩

variable [Postcard (NewChannel P)]

/-- The clients of a group after calls that have all succeeded and rounds that have sufficed, with what has
happened: which records were written, and who asked whom. -/
inductive Gossips (g : Group D C P S) :
    List (Event D Bytes) → (D → Client maxChannels maxNodes slabSize C P S) → Prop
  | new (cryptos : D → C) : Gossips g [] (fun d => Client.new (g.keys d) (cryptos d) FnvIndexMap.empty)
  | initChat (events : List (Event D Bytes)) (clients : D → Client maxChannels maxNodes slabSize C P S)
      (client : Client maxChannels maxNodes slabSize C P S) (nameStr : Str) (io : MemIo slabSize) (b : Bytes)
      (h : Gossips g events clients)
      (hnone : (clients g.owner).channels.get g.channelId = none) (hio : io.Zeroed)
      (hcall : Client.initChat nameStr io (clients g.owner) = (.ok g.channelId,client))
      (hwrote : Wrote client g.channelId b) :
      Gossips g (events ++ [.learns g.owner b]) (Function.update clients g.owner client)
  | addChannel (events : List (Event D Bytes)) (clients : D → Client maxChannels maxNodes slabSize C P S) (d : D)
      (client : Client maxChannels maxNodes slabSize C P S) (io : MemIo slabSize) (h : Gossips g events clients)
      (hjoins : d ≠ g.owner) (hnone : (clients d).channels.get g.channelId = none) (hio : io.Zeroed)
      (hcall : Client.addChannel g.creator g.channelId io (clients d) = (.ok (),client)) :
      Gossips g events (Function.update clients d client)
  | sendMessage (events : List (Event D Bytes)) (clients : D → Client maxChannels maxNodes slabSize C P S) (d : D)
      (client : Client maxChannels maxNodes slabSize C P S) (msg : Str) (b : Bytes) (h : Gossips g events clients)
      (hcall : Client.sendMessage g.channelId msg (clients d) = (.ok (),client))
      (hwrote : Wrote client g.channelId b) :
      Gossips g (events ++ [.learns d b]) (Function.update clients d client)
  | addNode (events : List (Event D Bytes)) (clients : D → Client maxChannels maxNodes slabSize C P S) (d : D)
      (client : Client maxChannels maxNodes slabSize C P S) (pubKey : P) (name : Str) (b : Bytes)
      (h : Gossips g events clients)
      (hcall : Client.addNode g.channelId pubKey name (clients d) = (.ok (),client))
      (hwrote : Wrote client g.channelId b) :
      Gossips g (events ++ [.learns d b]) (Function.update clients d client)
  | round (events : List (Event D Bytes)) (clients : D → Client maxChannels maxNodes slabSize C P S) (q p : D)
      (client : Client maxChannels maxNodes slabSize C P S) (h : Gossips g events clients)
      (hround : Suffices (clients q) (clients p) g.channelId client) :
      Gossips g (events ++ [.hears q p]) (Function.update clients q client)
  | elsewhere (events : List (Event D Bytes)) (clients : D → Client maxChannels maxNodes slabSize C P S) (d : D)
      (client : Client maxChannels maxNodes slabSize C P S) (call : ClientCall slabSize P)
      (h : Gossips g events clients) (hsound : call.Sound) (hcall : call.run (clients d) = (.ok (),client))
      (hsame : client.channels.get g.channelId = (clients d).channels.get g.channelId) :
      Gossips g events (Function.update clients d client)

/-- Every device has stored what has come to it. -/
def Carried (events : List (Event D Bytes)) (logs : D → List (Entry P)) : Prop :=
  ∀ d b, b ∈ (logs d).map Entry.bytes ↔ Spread events d b

omit [DecidableEq D] [Postcard (NewChannel P)] in
theorem Wrote.eq {client : Client maxChannels maxNodes slabSize C P S} {log : List (Entry P)}
    (h : Wrote client g.channelId b) (hkeeps : g.Keeps d client (log ++ [e])) : b = e.bytes := by
  obtain ⟨ch,held,hget,hrecords⟩ := h
  rw [(hkeeps.filed ch hget).records,List.map_append] at hrecords
  have hlast := (List.append_inj' (Outcome.ok.inj hrecords) rfl).2
  exact (List.cons.inj hlast).1.symm

namespace Carried

omit [Target] [IdealCrypto C P S] [RecordCodec] [Postcard (Message (Protocol P))] [EnvelopeCodec P]
  [Postcard (NewChannel P)]

theorem learns (h : Carried events logs) :
    Carried (events ++ [.learns d e.bytes]) (Function.update logs d (logs d ++ [e])) := by
  intro d' b
  rw [spread_learns,←h d' b]
  by_cases hd : d' = d
  · subst hd
    simp [Function.update_self,eq_comm]
  · simp [hd]

theorem hears {more : List (Entry P)} (h : Carried events logs)
    (hmore : ∀ x, x ∈ logs q ++ more ↔ x ∈ logs q ∨ x ∈ logs p) :
    Carried (events ++ [.hears q p]) (Function.update logs q (logs q ++ more)) := by
  intro d b
  rw [spread_hears,←h d b,←h p b]
  by_cases hd : d = q
  · subst hd
    simp only [Function.update_self,List.mem_map,hmore,true_and]
    constructor
    · rintro ⟨x,hx | hx,hbytes⟩
      · exact Or.inl ⟨x,hx,hbytes⟩
      · exact Or.inr ⟨x,hx,hbytes⟩
    · rintro (⟨x,hx,hbytes⟩ | ⟨x,hx,hbytes⟩)
      · exact ⟨x,Or.inl hx,hbytes⟩
      · exact ⟨x,Or.inr hx,hbytes⟩
  · simp [hd]

end Carried

/-- What every device has stored is what paths of rounds have brought to it from those that wrote it. -/
theorem Gossips.carried (h : Gossips g events clients) : ∃ logs, Logs g clients logs ∧ Carried events logs := by
  induction h with
  | new cryptos =>
    refine ⟨_,Logs.new cryptos,fun d b => ?_⟩
    simp [spread_nil]
  | initChat events clients client nameStr io b _ hnone hio hcall hwrote ih =>
    obtain ⟨logs,hlogs,hcarried⟩ := ih
    obtain ⟨e,_,_,_,hnext⟩ := hlogs.initChat hnone hio hcall
    have hkeeps := hnext.keeps g.owner
    rw [Function.update_self,Function.update_self] at hkeeps
    rw [hwrote.eq hkeeps]
    exact ⟨_,hnext,hcarried.learns⟩
  | addChannel events clients d client io _ hjoins hnone hio hcall ih =>
    obtain ⟨logs,hlogs,hcarried⟩ := ih
    exact ⟨logs,hlogs.addChannel hnone hio hcall,hcarried⟩
  | sendMessage events clients d client msg b _ hcall hwrote ih =>
    obtain ⟨logs,hlogs,hcarried⟩ := ih
    obtain ⟨text,_,hlift,hsend⟩ := Call.bind_eq_ok.mp hcall
    obtain ⟨_,rfl⟩ := Call.lift_eq_ok.mp hlift
    obtain ⟨e,_,_,hnext⟩ := hlogs.doSend (fun m hm => by cases hm) hsend
    have hkeeps := hnext.keeps d
    rw [Function.update_self,Function.update_self] at hkeeps
    rw [hwrote.eq hkeeps]
    exact ⟨_,hnext,hcarried.learns⟩
  | addNode events clients d client pubKey name b _ hcall hwrote ih =>
    obtain ⟨logs,hlogs,hcarried⟩ := ih
    obtain ⟨text,_,hlift,hsend⟩ := Call.bind_eq_ok.mp hcall
    obtain ⟨_,rfl⟩ := Call.lift_eq_ok.mp hlift
    obtain ⟨e,_,_,hnext⟩ := hlogs.doSend (fun m hm => by cases hm) hsend
    have hkeeps := hnext.keeps d
    rw [Function.update_self,Function.update_self] at hkeeps
    rw [hwrote.eq hkeeps]
    exact ⟨_,hnext,hcarried.learns⟩
  | round events clients q p client _ hround ih =>
    obtain ⟨logs,hlogs,hcarried⟩ := ih
    obtain ⟨more,hnext,hmore⟩ := hlogs.suffices hround
    exact ⟨_,hnext,hcarried.hears hmore⟩
  | elsewhere events clients d client call _ hsound hcall hsame ih =>
    obtain ⟨logs,hlogs,hcarried⟩ := ih
    exact ⟨logs,hlogs.elsewhere hsound hcall hsame,hcarried⟩

/-- A device has stored a record exactly if rounds have led from the device that wrote it, in their order, and it
has stored it once. -/
theorem Gossips.stored_iff (h : Gossips g events clients) {ch : Channel maxNodes slabSize C P}
    (hget : (clients d).channels.get g.channelId = some ch) : ∃ held, ch.storage.records = .ok held ∧ held.Nodup ∧
      ∀ b, b ∈ held ↔ ∃ before s after, events = before ++ .learns s b::after ∧ Path after s d := by
  obtain ⟨logs,hlogs,hcarried⟩ := h.carried
  refine ⟨_,((hlogs.keeps d).filed ch hget).records,?_,hcarried d⟩
  refine (List.nodup_map_iff_inj_on (hlogs.nodup d)).mpr (fun x hx y hy hbytes => ?_)
  exact ((hlogs.keeps d).proper x hx).signed.unique ((hlogs.keeps d).proper y hy).signed hbytes

/-- Once rounds have led from every device to every other one, all that share the channel have stored exactly what
was ever written, and they show the same channel. -/
theorem Gossips.all_agree {meetings : List (Event D Bytes)} (h : Gossips g (events ++ meetings) clients)
    (hmeetings : Meetings meetings) (hall : ∀ s t, Path meetings s t)
    (hp : (clients p).channels.get g.channelId = some chP) (hq : (clients q).channels.get g.channelId = some chQ) :
    ∃ heldP heldQ, chP.storage.records = .ok heldP ∧ chQ.storage.records = .ok heldQ ∧ heldP.Perm heldQ ∧
      (∀ b, b ∈ heldP ↔ ∃ s, .learns s b ∈ events) ∧ SameView chP chQ ∧
      (Distinct C heldP → chP.state = chQ.state) := by
  obtain ⟨logs,hlogs,hcarried⟩ := h.carried
  have hstoryP := (hlogs.keeps p).story chP hp
  have hstoryQ := (hlogs.keeps q).story chQ hq
  have hknown : ∀ d b, b ∈ (logs d).map Entry.bytes ↔ ∃ s, Spread events s b :=
    fun d b => (hcarried d b).trans (spread_all hmeetings hall)
  have hperm : (logs p).Perm (logs q) := by
    apply hlogs.perm
    · intro e he
      exact hlogs.mem_of_bytes he ((hknown q _).mpr ((hknown p _).mp (List.mem_map.mpr ⟨e,he,rfl⟩)))
    · intro e he
      exact hlogs.mem_of_bytes he ((hknown p _).mpr ((hknown q _).mp (List.mem_map.mpr ⟨e,he,rfl⟩)))
  refine ⟨_,_,((hlogs.keeps p).filed chP hp).records,((hlogs.keeps q).filed chQ hq).records,hperm.map _,fun b => ?_,
    hstoryP.sameView hstoryQ (hlogs.namesOwner p) hperm,fun hdistinct => ?_⟩
  · rw [hknown]
    exact spread_some
  · exact hstoryP.same_state hstoryQ hperm (fun e he => ((hlogs.keeps p).proper e he).signed) hdistinct

end Group

theorem sendFrames_bound {ds : List Bytes} {n : Nat} (h : ∀ b ∈ ds, b.length ≤ n) :
    (sendFrames ds).length ≤ ds.length*(n+lenSize) := by
  induction ds with
  | nil => exact Nat.zero_le _
  | cons d ds ih =>
    have hd := h d List.mem_cons_self
    have hrest := ih (fun b hb => h b (List.mem_cons_of_mem _ hb))
    rw [sendFrames_cons_length,List.length_cons,Nat.add_mul]
    omega

section Pair

open PlainCrypto

variable {clients : Bool → Client 2 2 256 PlainCrypto U64 U64} {logs : Bool → List (Entry U64)} {p q : Bool}
  {chP chQ : Channel 2 256 PlainCrypto U64} {held : List Bytes}

/-- Two short records and memory for them are enough for a round. -/
theorem pair_round (h : Logs pair clients logs) (hp : (clients p).channels.get pair.channelId = some chP)
    (hq : (clients q).channels.get pair.channelId = some chQ) (hheld : chP.storage.records = .ok held)
    (htwo : held.length = 2) (hshort : ∀ b ∈ held, b.length ≤ 168) (hreaches : Reaches chQ chP)
    (hslabs : (chQ.storage.io.slabCount+2)*256 ≤ chQ.storage.io.data.length) :
    ∃ client', Suffices (clients q) (clients p) pair.channelId client' := by
  have hbuffer : (List.replicate 1024 (0 : UInt8)).length = 1024 := List.length_replicate
  have hmax : (List.replicate 1024 (0 : UInt8)).length ≤ isizeMax := by
    rw [hbuffer]
    decide
  have hrecords := ((h.keeps p).filed chP hp).records
  rw [hheld] at hrecords
  cases hrecords
  have hne : logs p ≠ [] := by
    intro hnil
    rw [hnil] at htwo
    cases htwo
  have hpart : ∀ ds, Offers chQ chP ds → ds.length ≤ 2 ∧ ∀ b ∈ ds, b.length ≤ 168 := by
    intro ds hoffers
    obtain ⟨before,es,hsplit,rfl,_⟩ := h.offers hp hq hoffers
    rw [hsplit,List.map_append] at htwo hshort
    rw [List.length_append] at htwo
    exact ⟨by omega,fun b hb => hshort b (List.mem_append_right _ hb)⟩
  have hframes : ∀ ds, Offers chQ chP ds → (sendFrames ds).length ≤ 1024 := by
    intro ds hoffers
    obtain ⟨hlen,hsmall⟩ := hpart ds hoffers
    have hbound := sendFrames_bound hsmall
    have hmul : ds.length*(168+lenSize) ≤ 2*(168+lenSize) := Nat.mul_le_mul_right _ hlen
    have hsize : lenSize = 4 := rfl
    omega
  have hroom : ∀ ds, Offers chQ chP ds → RoomFor chQ ds := by
    intro ds hoffers
    obtain ⟨hlen,hsmall⟩ := hpart ds hoffers
    refine roomFor_of_length ?_ hsmall
    exact (Nat.mul_le_mul_right _ (Nat.add_le_add_left hlen _)).trans hslabs
  have hfits : Fits chQ chP (List.replicate 1024 0) := by
    intro ds hoffers
    rw [hbuffer]
    exact hframes ds hoffers
  obtain ⟨ds,hoffers⟩ := h.offered hp hq hne hreaches
  have hall := fitting_all (hfits ds hoffers)
  have hsent : RoomFor chQ (fitting (List.replicate 1024 (0 : UInt8)).length ds) := by
    rw [hall]
    exact hroom ds hoffers
  obtain ⟨before,es,rest,client',chQ',_,_,_,_,hreceive,_⟩ := h.receives hp hq hoffers hsent
  have hfew : (fitting (List.replicate 1024 (0 : UInt8)).length ds).length ≤ u32Max :=
    counted_of_small (by rw [hbuffer]; decide) ds hoffers
  exact ⟨client',chQ,chP,_,_,hq,hp,hmax,hfits,hroom,h.round_of_offers hp hq hmax hoffers hfew hreceive⟩

/-- The two devices once the owner has greeted, before any round. -/
def pairApart : Bool → Client 2 2 256 PlainCrypto U64 U64 := fun d => if d then greeter else joiner

/-- What a client shows of its memory. -/
def memory (client : Client 2 2 256 PlainCrypto U64 U64) : Option (List Clock × Option (List Bytes) × Nat × Nat) :=
  (client.channels.get (chatId 1)).map (fun ch => (ch.clocks,ch.storage.records.value,ch.storage.io.slabCount,
    ch.storage.io.data.length))

theorem memory_eq_some {client : Client 2 2 256 PlainCrypto U64 U64} {clocks : List Clock} {slabs size : Nat}
    (h : memory client = some (clocks,some held,slabs,size)) : ∃ ch, client.channels.get (chatId 1) = some ch ∧
      ch.clocks = clocks ∧ ch.storage.records = .ok held ∧ ch.storage.io.slabCount = slabs ∧
      ch.storage.io.data.length = size := by
  obtain ⟨ch,hch,hall⟩ := Option.map_eq_some_iff.mp h
  simp only [Prod.mk.injEq] at hall
  exact ⟨ch,hch,hall.1,Outcome.value_eq_some.mp hall.2.1,hall.2.2⟩

def first : Bytes := sealedBy 1 (chatId 1) opening

def second : Bytes := sealedBy 1 (chatId 1) greeting

theorem owner_memory : memory owner = some ([⟨nodeOf 1,1⟩],some [first],1,1024) := by decide +kernel

theorem greeter_memory : memory greeter = some ([⟨nodeOf 1,2⟩],some [first,second],2,1024) := by decide +kernel

theorem joiner_memory : memory joiner = some ([⟨nodeOf 1,0⟩],some [],0,1024) := by decide +kernel

theorem wrote_of_memory {client : Client 2 2 256 PlainCrypto U64 U64} {clocks : List Clock} {slabs size : Nat}
    {b : Bytes} (held : List Bytes) (h : memory client = some (clocks,some (held ++ [b]),slabs,size)) :
    Wrote client (chatId 1) b := by
  obtain ⟨ch,hch,_,hrecords,_⟩ := memory_eq_some h
  exact ⟨ch,held,hch,hrecords⟩

theorem pairApart_gossips : Gossips pair [.learns true first,.learns true second] pairApart := by
  have hio : (blankIo 256 4).Zeroed := blankIo_zeroed (by decide) (by decide +kernel)
  have hinit : (Client.initChat chatStr (blankIo 256 4) (client 1 : Client 2 2 256 PlainCrypto U64 U64)).1 =
      .ok (chatId 1) := by decide +kernel
  have howner : owner = (Client.initChat chatStr (blankIo 256 4) (client 1)).2 := by
    rw [owner,ClientCall.run,Call.bind_ok (run_eq hinit rfl),Call.pure_apply]
  have hjoin : (Client.addChannel 1 (chatId 1) (blankIo 256 4) (client 2 : Client 2 2 256 PlainCrypto U64 U64)).1 =
      .ok () := by decide +kernel
  have hjoined : Client.addChannel 1 (chatId 1) (blankIo 256 4) (client 2) = (.ok (),joiner) := run_eq hjoin rfl
  have hsend : (Client.sendMessage (chatId 1) Str.empty owner).1 = .ok () := by decide +kernel
  have hsent : Client.sendMessage (chatId 1) Str.empty owner = (.ok (),greeter) := run_eq hsend rfl
  have hnew : Gossips pair [] pairNew := by
    have h : Gossips pair [] (fun d => Client.new (pair.keys d) (⟨0⟩ : PlainCrypto) FnvIndexMap.empty :
        Bool → Client 2 2 256 PlainCrypto U64 U64) := .new (fun _ => (⟨0⟩ : PlainCrypto))
    have hsame : (fun d => Client.new (pair.keys d) (⟨0⟩ : PlainCrypto) FnvIndexMap.empty :
        Bool → Client 2 2 256 PlainCrypto U64 U64) = pairNew := by
      funext d
      cases d <;> rfl
    rwa [hsame] at h
  have h1 := Gossips.initChat [] pairNew owner chatStr (blankIo 256 4) first hnew rfl hio (run_eq hinit howner)
    (wrote_of_memory [] owner_memory)
  have h2 := Gossips.addChannel _ _ false joiner (blankIo 256 4) h1 (by decide) rfl hio hjoined
  have h3 := Gossips.sendMessage _ _ true greeter Str.empty second h2 hsent (wrote_of_memory [first] greeter_memory)
  have hsame : Function.update (Function.update (Function.update pairNew pair.owner owner) false joiner) true greeter =
      pairApart := by
    funext d
    cases d <;> rfl
  rwa [hsame] at h3

/-- Nobody is beyond the responder that knows nothing of the owner, or what the other one has. -/
theorem reaches_of_clocks {n : U64} (h : Logs pair clients logs)
    (hp : (clients p).channels.get pair.channelId = some chP) (hP : chP.clocks = [⟨nodeOf 1,2⟩])
    (hQ : chQ.clocks = [⟨nodeOf 1,n⟩]) (hle : n ≤ 2) : Reaches chQ chP := by
  have hasked : (⟨nodeOf 1,n⟩ : Clock) ∈ chQ.clocks := by
    rw [hQ]
    exact List.mem_singleton.mpr rfl
  have hreached : (⟨nodeOf 1,2⟩ : Clock) ∈ chP.clocks := by
    rw [hP]
    exact List.mem_singleton.mpr rfl
  obtain ⟨x,hx,hclock⟩ := List.mem_map.mp hasked
  obtain ⟨y,hy,hclock'⟩ := List.mem_map.mp hreached
  obtain ⟨c,hcur,htop⟩ := ((h.keeps p).story chP hp).topped
  refine Or.inl ⟨x,hx,c,hcur,?_⟩
  have htwo := h.sequence_le_top hp hy
  have hx' : x.sequence = n := congrArg Clock.sequence hclock
  have hy' : y.sequence = 2 := congrArg Clock.sequence hclock'
  rw [hx',htop]
  rw [hy'] at htwo
  exact hle.trans htwo

theorem spread_first : Spread ([.learns true first] : List (Event Bool Bytes)) true first :=
  ⟨[],true,[],rfl,.start true⟩

theorem held_of_spread {events : List (Event Bool Bytes)} {d : Bool} {b : Bytes} (h : Logs pair clients logs)
    (hcarried : Carried events logs) (hspread : Spread events d b) :
    ∃ ch, (clients d).channels.get pair.channelId = some ch := by
  obtain ⟨e,he,_⟩ := List.mem_map.mp ((hcarried d b).mpr hspread)
  exact h.held he

/-- Each of the two has asked the other one. -/
theorem pair_meets : ∃ (clients : Bool → Client 2 2 256 PlainCrypto U64 U64) (chP chQ : Channel 2 256 PlainCrypto U64),
    Gossips pair ([.learns true first,.learns true second] ++ [.hears false true,.hears true false]) clients ∧
      (clients true).channels.get pair.channelId = some chP ∧
      (clients false).channels.get pair.channelId = some chQ := by
  have hshort : ∀ b ∈ [first,second], b.length ≤ 168 := by decide +kernel
  obtain ⟨chP,hp,hclocksP,hheld,hslabs,hsize⟩ := memory_eq_some greeter_memory
  obtain ⟨chQ,hq,hclocksQ,hempty,hnone,hroom⟩ := memory_eq_some joiner_memory
  have hslabsP : (chP.storage.io.slabCount+2)*256 ≤ chP.storage.io.data.length := by
    rw [hslabs,hsize]
  have hslabsQ : (chQ.storage.io.slabCount+2)*256 ≤ chQ.storage.io.data.length := by
    rw [hnone,hroom]
    norm_num
  obtain ⟨logs,hlogs,hcarried⟩ := pairApart_gossips.carried
  have hownP : (pairApart true).channels.get pair.channelId = some chP := by
    rw [pairApart,if_pos rfl]
    exact hp
  have hownQ : (pairApart false).channels.get pair.channelId = some chQ := by
    rw [pairApart,if_neg (by decide)]
    exact hq
  have hreaches := reaches_of_clocks hlogs hownP hclocksP hclocksQ (by decide)
  obtain ⟨client1,hfirst⟩ := pair_round hlogs hownP hownQ hheld rfl hshort hreaches hslabsQ
  have h1 := Gossips.round _ _ false true client1 pairApart_gossips hfirst
  -- the other device now has what the owner has
  have hapart : Spread ([.learns true first,.learns true second] : List (Event Bool Bytes)) true first :=
    spread_first.later (.refl [.learns true second] true)
  have hnothing : ∀ b, ¬Spread ([.learns true first,.learns true second] : List (Event Bool Bytes)) false b := by
    intro b hspread
    have hmem := (hcarried false b).mpr hspread
    have hrecords := ((hlogs.keeps false).filed chQ hownQ).records
    rw [hempty] at hrecords
    rw [←Outcome.ok.inj hrecords] at hmem
    cases hmem
  obtain ⟨logs1,hlogs1,hcarried1⟩ := h1.carried
  have hsame : ∀ b, b ∈ (logs1 false).map Entry.bytes ↔ b ∈ (logs1 true).map Entry.bytes := by
    intro b
    rw [hcarried1,hcarried1,spread_hears,spread_hears]
    simp [hnothing b]
  have hperm : (logs1 false).Perm (logs1 true) := by
    apply hlogs1.perm
    · intro e he
      exact hlogs1.mem_of_bytes he ((hsame _).mp (List.mem_map.mpr ⟨e,he,rfl⟩))
    · intro e he
      exact hlogs1.mem_of_bytes he ((hsame _).mpr (List.mem_map.mpr ⟨e,he,rfl⟩))
  have hownP1 : (Function.update pairApart false client1 true).channels.get pair.channelId = some chP := by
    rw [Function.update_of_ne (by decide)]
    exact hownP
  obtain ⟨chQ1,hownQ1⟩ := held_of_spread hlogs1 hcarried1 (spread_hears.mpr (Or.inr ⟨rfl,hapart⟩))
  have hheldP1 := ((hlogs1.keeps true).filed chP hownP1).records
  have hheldQ1 := ((hlogs1.keeps false).filed chQ1 hownQ1).records
  rw [hheld] at hheldP1
  have hbytes : ((logs1 false).map Entry.bytes).Perm [first,second] := by
    rw [Outcome.ok.inj hheldP1]
    exact hperm.map _
  have hview := ((hlogs1.keeps false).story chQ1 hownQ1).sameView ((hlogs1.keeps true).story chP hownP1)
    (hlogs1.namesOwner false) hperm
  have hclocksQ1 : chQ1.clocks = [⟨nodeOf 1,2⟩] := by
    rw [←hclocksP,Channel.clocks,Channel.clocks,ChannelState.listNodes,ChannelState.listNodes,hview.nodes]
  have hback := reaches_of_clocks hlogs1 hownQ1 hclocksQ1 hclocksP (by decide)
  obtain ⟨client2,hsecond⟩ := pair_round hlogs1 hownQ1 hownP1 hheldQ1 hbytes.length_eq
    (fun b hb => hshort b (hbytes.mem_iff.mp hb)) hback hslabsP
  have h2 := Gossips.round _ _ true false client2 h1 hsecond
  obtain ⟨logs2,hlogs2,hcarried2⟩ := h2.carried
  obtain ⟨chP2,hownP2⟩ := held_of_spread hlogs2 hcarried2
    (spread_hears.mpr (Or.inl (spread_hears.mpr (Or.inl hapart))))
  obtain ⟨chQ2,hownQ2⟩ := held_of_spread hlogs2 hcarried2
    (spread_hears.mpr (Or.inl (spread_hears.mpr (Or.inr ⟨rfl,hapart⟩))))
  exact ⟨_,chP2,chQ2,h2,hownP2,hownQ2⟩

/-- What the other device has stored came to it from the owner. -/
theorem pair_stored : ∃ (clients : Bool → Client 2 2 256 PlainCrypto U64 U64) (ch : Channel 2 256 PlainCrypto U64),
    (clients false).channels.get pair.channelId = some ch ∧ ∃ held, ch.storage.records = .ok held ∧ held.Nodup ∧
      ∀ b, b ∈ held ↔ ∃ before s after, [.learns true first,.learns true second] ++
        [.hears false true,.hears true false] = before ++ .learns s b::after ∧ Path after s false := by
  obtain ⟨clients,_,ch,hrun,_,hget⟩ := pair_meets
  exact ⟨clients,ch,hget,hrun.stored_iff hget⟩

/-- The two have stored the same two records. -/
theorem pair_agrees : ∃ (chP chQ : Channel 2 256 PlainCrypto U64) (heldP heldQ : List Bytes),
    chP.storage.records = .ok heldP ∧ chQ.storage.records = .ok heldQ ∧ heldP.Perm heldQ ∧
      (∀ b, b ∈ heldP ↔ ∃ s : Bool, .learns s b ∈ [Event.learns true first,.learns true second]) ∧
      SameView chP chQ := by
  obtain ⟨clients,chP,chQ,hrun,hp,hq⟩ := pair_meets
  have hmeetings : Meetings ([.hears false true,.hears true false] : List (Event Bool Bytes)) := by
    intro d b
    simp
  have hall : ∀ s t, Path ([.hears false true] ++ [.hears true false] : List (Event Bool Bytes)) s t := by
    intro s t
    have hfirst : ∀ s t, Path ([] ++ [.hears false true] : List (Event Bool Bytes)) s t ↔
        s = t ∨ (t = false ∧ s = true) := by
      intro s t
      rw [path_hears,path_nil,path_nil]
    rw [List.nil_append] at hfirst
    rw [path_hears,hfirst,hfirst]
    revert s t
    decide
  obtain ⟨heldP,heldQ,hP,hQ,hperm,hmem,hview,_⟩ := hrun.all_agree hmeetings hall hp hq
  exact ⟨chP,chQ,heldP,heldQ,hP,hQ,hperm,hmem,hview⟩

end Pair

end Finder
