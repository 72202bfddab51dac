import Finder.Channel.Growth
import Finder.Client.History

namespace Finder

variable {maxChannels maxNodes slabSize : Nat} {C P S : Type}

/-- Accepting a message moves its sender up to it. -/
theorem Accepted.attests [Crypto C P S] {ch ch' : Channel maxNodes slabSize C P} {channelId : ChannelId}
    {sender : NodeId} {message : Message (Protocol P)} {id : EnvelopeId} {maxSequence : U64}
    (h : Accepted ch ch' channelId sender message id maxSequence) :
    ch.state.Grown ch'.state ∧ ch.state.sequenceOf sender < message.sequence.val ∧
      ch'.state.sequenceOf sender = message.sequence.val := by
  have hseq := h.sequenceOf sender
  rw [if_pos rfl] at hseq
  obtain ⟨st,hreceived,hstate⟩ := h.state
  obtain ⟨r,hr,hlt,_⟩ := hreceived.receivable
  refine ⟨hreceived.grown.trans ?_,by rw [ChannelState.sequenceOf_eq hr]; exact hlt,hseq⟩
  cases hdata : message.data with
  | newChannel m =>
    rw [hdata] at hstate
    exact hstate ▸ .refl st
  | chatMessage m =>
    rw [hdata] at hstate
    exact hstate ▸ .refl st
  | addUser m =>
    rw [hdata] at hstate
    exact hstate.grown

namespace Channel

section Take

variable [Target] [Crypto C P S] {channelId : ChannelId} {sender : NodeId} {message : Message (Protocol P)}
  {id : EnvelopeId} {bytes : Bytes} {ch ch' : Channel maxNodes slabSize C P} {outcome : Outcome ClientError Unit}

omit [Target] in
theorem accept_grows {st : ChannelState maxNodes P} :
    Call.Keeps (fun ch : Channel maxNodes slabSize C P => ch.state.Keyed C ∧ st.Grown ch.state)
      (accept channelId sender message id) := by
  have hstate : ∀ {ε α : Type} {x : Call (ChannelState maxNodes P) ε α},
      Call.Keeps (fun s => s.Keyed C ∧ st.Grown s) x →
        Call.Keeps (fun ch : Channel maxNodes slabSize C P => ch.state.Keyed C ∧ st.Grown ch.state) (onState x) :=
    fun hx => onState_keeps hx (fun _ h => h) (fun _ _ _ h => h)
  refine accept_rule ?_ (hstate ?_) (fun key => hstate ?_)
  · exact onChat_keeps (J := fun _ => True) (fun _ _ => trivial) (fun _ _ => trivial) (fun _ _ h _ => h)
  · exact fun s hs => ⟨ChannelState.receive_keyed sender message id s hs.1,
      hs.2.trans (ChannelState.receive_grows hs.1.valid)⟩
  · exact fun s hs => ⟨ChannelState.addNode_keyed key s hs.1,
      hs.2.trans (ChannelState.addNode_grows hs.1.valid.sorted)⟩

/-- Whatever comes of a message, the table it leaves has grown. -/
theorem take_grows [Postcard Record] (hs : ch.Sound)
    (h : take channelId sender message id bytes ch = (outcome,ch')) : ch.state.Grown ch'.state := by
  have htake : Call.Keeps (fun c : Channel maxNodes slabSize C P => c.state.Keyed C ∧ ch.state.Grown c.state)
      (take channelId sender message id bytes) :=
    accept_grows.bind (fun _ => (Call.keeps_read _).bind (fun _ =>
      Call.Keeps.field (J := fun _ => True) (fun _ _ => trivial) (fun _ _ => trivial) (fun _ _ h _ => h)))
  have hkept := htake ch ⟨hs.keyed,.refl ch.state⟩
  rw [h] at hkept
  exact hkept.2

omit [Target] in
theorem accept_storage {st : Storage slabSize} :
    Call.Keeps (fun ch : Channel maxNodes slabSize C P => ch.storage = st) (accept channelId sender message id) := by
  have hstate : ∀ {ε α : Type} (x : Call (ChannelState maxNodes P) ε α),
      Call.Keeps (fun ch : Channel maxNodes slabSize C P => ch.storage = st) (onState x) :=
    fun x => onState_keeps (J := fun _ => True) (fun _ _ => trivial) (fun _ _ => trivial) (fun _ _ h _ => h)
  exact accept_rule (onChat_keeps (J := fun _ => True) (fun _ _ => trivial) (fun _ _ => trivial) (fun _ _ h _ => h))
    (hstate _) (fun _ => hstate _)

/-- A call reaches the storage with one record of its bytes, or not at all. -/
theorem take_storage [Postcard Record] (h : take channelId sender message id bytes ch = (outcome,ch')) :
    (outcome ≠ .ok () ∧ ch'.storage = ch.storage) ∨ ∃ r : Record, r.data = bytes ∧
      onWriter (writeRecord r.maxSequence r.messageCount r.sequence r.sender r.data) ch.storage =
        (outcome,ch'.storage) := by
  have hkept : (accept channelId sender message id ch).2.storage = ch.storage := accept_storage ch rfl
  unfold take at h
  obtain ⟨result,ch1,hrun,⟨maxSequence,rfl,hstore⟩ | ⟨_,hno,rfl⟩⟩ := Call.bind_cases h
  · rw [hrun] at hkept
    rw [Call.bind_ok (a := ch1.chat.messageCount) (t := ch1) (by simp)] at hstore
    refine Or.inr ⟨⟨maxSequence,ch1.chat.messageCount,message.sequence,sender,bytes⟩,rfl,?_⟩
    rw [←show ch1.storage = ch.storage from hkept]
    simp only [onStorage,Call.field_apply,Prod.mk.injEq] at hstore
    obtain ⟨rfl,rfl⟩ := hstore
    rfl
  · rw [hrun] at hkept
    exact Or.inl ⟨hno (),hkept⟩

theorem take_of_alreadyReceived [Postcard Record]
    (h : ch.state.checkReceive sender message id = .err .alreadyReceived) :
    take channelId sender message id bytes ch = (.err (.channelError .alreadyReceived),ch) :=
  Call.bind_err (Call.bind_err (by simp [h]))

/-- Only the check can say that a message is already there. -/
theorem alreadyReceived_of_take [RecordCodec] (hs : ch.Sound)
    (h : take channelId sender message id bytes ch = (.err (.channelError .alreadyReceived),ch')) :
    ch.state.checkReceive sender message id = .err .alreadyReceived := by
  rcases hs.valid.sorted.checkReceive_cases sender message id with ⟨hrec,_⟩ | ⟨_,e,he⟩
  · exfalso
    rcases ch.chat.acceptMessage_cases channelId sender message.data with ⟨hallow,_⟩ | ⟨_,e,he⟩
    · by_cases hlate : FailsLate ch channelId sender message bytes
      · obtain ⟨e,_,he,hno,_⟩ := take_refused hs hlate id
        rw [h] at he
        cases he
        exact hno rfl
      · have hlate' := not_and.mp hlate ⟨hrec,hallow⟩
        rw [not_or] at hlate'
        obtain ⟨ch1,hacc,htake⟩ := take_store hs hrec hallow hlate'.1 id bytes
        rw [htake] at h
        rcases store_cases hs.storage (recordOf ch sender message bytes) with
          ⟨_,_,st',hst',_⟩ | ⟨_,_,st',hst',_⟩ | ⟨_,hst'⟩
        all_goals simp [onStorage,hacc.storage,hst'] at h
    · have hcheck := (hs.valid.sorted.checkReceive_eq_ok id).mpr hrec
      have htake : take channelId sender message id bytes ch = (.err (.chatError e),ch) := by
        refine Call.bind_err ?_
        unfold accept
        rw [Call.bind_ok (a := ()) (t := ch) (by simp [hcheck])]
        exact Call.bind_err (by simp [onChat,he])
      rw [h] at htake
      cases htake
  · have htake : take channelId sender message id bytes ch = (.err (.channelError e),ch) :=
      Call.bind_err (Call.bind_err (by simp [he]))
    rw [h] at htake
    cases htake
    exact he

end Take

section Attested

variable [IdealCrypto C P S] [Postcard (Message (Protocol P))] [EnvelopeCodec P]
  {st st' : ChannelState maxNodes P} {log : List (Entry P)} {channelId : ChannelId} {creator : P}
  {ch ch' : Channel maxNodes slabSize C P}

variable (C) in
/-- The table verifies every message of the log and has none of them before it; no two are of one sender
with one sequence. -/
structure Attested (st : ChannelState maxNodes P) (log : List (Entry P)) : Prop where
  carried : ∀ e ∈ log, ∀ crypto : C, Carries crypto st e.bytes e.sender e.message e.id
  passed : ∀ e ∈ log, e.message.sequence.val ≤ st.sequenceOf e.sender
  distinct : (log.map (fun e => (e.sender,e.message.sequence))).Nodup

theorem attested_nil : Attested C st ([] : List (Entry P)) := ⟨by simp,by simp,by simp⟩

theorem Carries.grown {crypto : C} {bytes : Bytes} {sender : NodeId} {message : Message (Protocol P)}
    {id : EnvelopeId} (h : Carries crypto st bytes sender message id) (hgrown : st.Grown st') (hs : st.Sorted)
    (hs' : st'.Sorted) : Carries crypto st' bytes sender message id := by
  obtain ⟨envelope,key,hdecode,hsender,hkey,hopen⟩ := h
  exact ⟨envelope,key,hdecode,hsender,hgrown.getNodeKey hs hs' hkey,hopen⟩

theorem Attested.grown (h : Attested C st log) (hgrown : st.Grown st') (hs : st.Sorted) (hs' : st'.Sorted) :
    Attested C st' log :=
  ⟨fun e he crypto => (h.carried e he crypto).grown hgrown hs hs',
    fun e he => (h.passed e he).trans (hgrown.sequenceOf e.sender),h.distinct⟩

/-- A new message is above all that its sender has sent before. -/
theorem Attested.push (h : Attested C st log) (hgrown : st.Grown st') (hs : st.Sorted) (hs' : st'.Sorted)
    {crypto : C} {e : Entry P} (hcarries : Carries crypto st e.bytes e.sender e.message e.id)
    (hnew : st.sequenceOf e.sender < e.message.sequence.val)
    (hpassed : e.message.sequence.val ≤ st'.sequenceOf e.sender) : Attested C st' (log ++ [e]) := by
  have hlater := h.grown hgrown hs hs'
  refine ⟨fun x hx crypto' => ?_,fun x hx => ?_,?_⟩
  · rcases List.mem_append.mp hx with hx | hx
    · exact hlater.carried x hx crypto'
    · rw [List.mem_singleton.mp hx]
      exact (hcarries.congr_crypto crypto').grown hgrown hs hs'
  · rcases List.mem_append.mp hx with hx | hx
    · exact hlater.passed x hx
    · rw [List.mem_singleton.mp hx]
      exact hpassed
  · rw [List.map_append,List.nodup_append]
    refine ⟨h.distinct,by simp,fun p hp q hq hpq => ?_⟩
    obtain ⟨x,hx,rfl⟩ := List.mem_map.mp hp
    obtain rfl := List.mem_singleton.mp hq
    have hold := h.passed x hx
    rw [(Prod.mk.inj hpq).1,(Prod.mk.inj hpq).2] at hold
    omega

/-- The messages of a story are all attested by the table they made. -/
theorem Story.attested (h : Story channelId creator log ch) : Attested C ch.state log := by
  induction h with
  | new ch _ _ => exact attested_nil
  | accept log ch ch' crypto entry maxSequence h hcarries haccepted ih =>
    obtain ⟨hgrown,hnew,hseq⟩ := haccepted.attests
    exact ih.push hgrown h.valid.sorted (haccepted.valid h.valid).sorted hcarries hnew (le_of_eq hseq.symm)
  | store log ch storage _ ih => exact ih

end Attested

end Channel

end Finder
