import Finder.Client.Reachable

namespace Finder

variable {maxNodes slabSize : Nat} {C P S : Type}

namespace Channel

section Fold

variable [Crypto C P S] [Postcard (Message (Protocol P))] [Postcard (ChatEnvelope P)]

/-- The loop of `open_chat` over a list of records. -/
def replayAll (crypto : C) (channelId : ChannelId) :
    List Bytes → Call (ChannelState maxNodes P × Chat maxNodes C P) ClientError Unit
  | [] => pure ()
  | data::rest => do
    replayRecord crypto channelId data
    replayAll crypto channelId rest

theorem replayFrom_reads [Target] [Postcard Record] {crypto : C} {channelId : ChannelId} {st : Storage slabSize}
    {cursor : Cursor} {ds : List Bytes} (h : Reads st cursor ds) (fuel : Nat) (hfuel : ds.length < fuel) :
    (replayFrom crypto channelId st fuel cursor :
      Call (ChannelState maxNodes P × Chat maxNodes C P) ClientError Unit) = replayAll crypto channelId ds := by
  induction h generalizing fuel with
  | stop cursor h =>
    cases fuel with
    | zero => omega
    | succ fuel =>
      funext s
      rw [replayFrom,Call.bind_ok (a := none) (t := s) (by simp [h])]
      rfl
  | next cursor next data rest h hrest ih =>
    cases fuel with
    | zero => omega
    | succ fuel =>
      have hrest := ih fuel (by simpa using hfuel)
      funext s
      rw [replayFrom,Call.bind_ok (a := some (data,next)) (t := s) (by simp [h])]
      simp only [hrest,replayAll]

/-- A loop that gets through has read some records, all of which it has replayed. -/
theorem replayFrom_eq_ok [Target] [Postcard Record] {crypto : C} {channelId : ChannelId} {st : Storage slabSize}
    {fuel : Nat} {cursor : Cursor} {s s' : ChannelState maxNodes P × Chat maxNodes C P}
    (h : replayFrom crypto channelId st fuel cursor s = (.ok (),s')) :
    ∃ ds, Reads st cursor ds ∧ ds.length < fuel ∧ replayAll crypto channelId ds s = (.ok (),s') := by
  induction fuel generalizing cursor s with
  | zero => cases h
  | succ fuel ih =>
    rw [replayFrom] at h
    obtain ⟨found,_,hlift,hrest⟩ := Call.bind_eq_ok.mp h
    obtain ⟨hread,rfl⟩ := Call.lift_eq_ok.mp hlift
    cases found with
    | none =>
      cases hrest
      exact ⟨[],.stop cursor (Outcome.mapErr_eq_ok.mp hread),Nat.succ_pos _,rfl⟩
    | some p =>
      obtain ⟨u,t,hrecord,hlater⟩ := Call.bind_eq_ok.mp hrest
      obtain ⟨ds,hreads,hlen,hreplay⟩ := ih hlater
      exact ⟨p.1::ds,.next cursor p.2 p.1 ds (Outcome.mapErr_eq_ok.mp hread) hreads,Nat.succ_lt_succ hlen,
        (Call.bind_ok hrecord).trans hreplay⟩

theorem replayAll_append {crypto : C} {channelId : ChannelId} {ds es : List Bytes}
    {s s' : ChannelState maxNodes P × Chat maxNodes C P} :
    replayAll crypto channelId (ds ++ es) s = (.ok (),s') ↔
      ∃ mid, replayAll crypto channelId ds s = (.ok (),mid) ∧
        replayAll crypto channelId es mid = (.ok (),s') := by
  induction ds generalizing s with
  | nil => simp [replayAll]
  | cons d ds ih =>
    simp only [List.cons_append,replayAll,Call.bind_eq_ok,ih]
    constructor
    · rintro ⟨u,t,hd,mid,hds,hes⟩
      exact ⟨mid,⟨u,t,hd,hds⟩,hes⟩
    · rintro ⟨mid,⟨u,t,hd,hds⟩,hes⟩
      exact ⟨u,t,hd,mid,hds,hes⟩

theorem replayAll_keeps (crypto : C) (channelId : ChannelId) (ds : List Bytes) :
    Call.Keeps (fun st => st.1.Keyed C ∧ st.2.Ran) (replayAll crypto channelId ds :
      Call (ChannelState maxNodes P × Chat maxNodes C P) ClientError Unit) := by
  induction ds with
  | nil => exact Call.keeps_pure ()
  | cons d ds ih => exact replayRecord_keeps.bind (fun _ => ih)

/-- The bytes are an envelope that opens to the message under the key the table has for its sender. -/
def Carries (crypto : C) (st : ChannelState maxNodes P) (bytes : Bytes) (sender : NodeId)
    (message : Message (Protocol P)) (id : EnvelopeId) : Prop :=
  ∃ (envelope : ChatEnvelope P) (key : P), decodeAs (ChatEnvelope P) bytes = .ok envelope ∧
    envelope.sender = sender ∧ st.getNodeKey sender = .ok key ∧
    Crypto.openEnvelope crypto key envelope = .ok message ∧ Crypto.envelopeId crypto envelope = id

/-- What the calls accepted, the replay accepts too, with the same result: it does not matter on which
side of the message its new user enters the table. -/
theorem replayRecord_of_accepted {crypto : C} {channelId : ChannelId} {bytes : Bytes} {sender : NodeId}
    {message : Message (Protocol P)} {id : EnvelopeId} {maxSequence : U64}
    {ch ch' : Channel maxNodes slabSize C P} (hv : ch.state.Valid)
    (hcarries : Carries crypto ch.state bytes sender message id)
    (h : Accepted ch ch' channelId sender message id maxSequence) :
    replayRecord crypto channelId bytes (ch.state,ch.chat) = (.ok (),(ch'.state,ch'.chat)) := by
  obtain ⟨envelope,key,hdecode,rfl,hkey,hopen,rfl⟩ := hcarries
  obtain ⟨st,hreceived,hstate⟩ := h.state
  have hcheck := (hv.sorted.checkReceive_eq_ok (Crypto.envelopeId crypto envelope)).mpr hreceived.receivable
  have hchat : Chat.acceptMessage channelId envelope.sender message.data ch.chat =
      (.ok (AcceptResult.of message.data ch'.chat.messageCount),ch'.chat) := by
    rcases ch.chat.acceptMessage_cases channelId envelope.sender message.data with
      ⟨_,chat,hok,htook⟩ | ⟨hno,_⟩
    · obtain rfl := htook.unique h.chat
      exact hok
    · exact absurd h.allowed hno
  unfold replayRecord
  rw [Call.bind_ok (a := envelope) (t := (ch.state,ch.chat)) (by simp [hdecode]),
    Call.bind_ok (a := key) (t := (ch.state,ch.chat)) (by simp [hkey]),
    Call.bind_ok (a := message) (t := (ch.state,ch.chat)) (by simp [hopen]),
    Call.bind_ok (a := ()) (t := (ch.state,ch.chat)) (by simp [hcheck]),
    Call.bind_ok (a := AcceptResult.of message.data ch'.chat.messageCount) (t := (ch.state,ch'.chat))
      (by simp [hchat])]
  have hplain : ch'.state = st → (do
      let _ ← Call.field Prod.fst (fun state st => (state,st.2)) (Call.mapErr (fun _ => .unreachable)
        (ChannelState.receive envelope.sender message (Crypto.envelopeId crypto envelope)))
      pure () : Call (ChannelState maxNodes P × Chat maxNodes C P) ClientError Unit) (ch.state,ch'.chat) =
        (.ok (),(ch'.state,ch'.chat)) := by
    rintro rfl
    obtain ⟨maxSequence',st',hok⟩ := hv.receive_of_receivable hreceived.receivable
      (Crypto.envelopeId crypto envelope)
    obtain rfl := (hv.receive_ok hok).unique hreceived
    exact Call.bind_ok (a := maxSequence') (t := (ch'.state,ch'.chat)) (by simp [hok])
  cases hdata : message.data with
  | newChannel m =>
    rw [hdata] at hstate
    exact hplain hstate
  | chatMessage m =>
    rw [hdata] at hstate
    exact hplain hstate
  | addUser m =>
    rw [hdata] at hstate
    obtain ⟨mid,hadd,maxSequence',hok⟩ := hreceived.after_added hv hstate
    refine (Call.bind_ok (a := ()) (t := (mid,ch'.chat)) (by simp [hadd])).trans ?_
    exact Call.bind_ok (a := maxSequence') (t := (ch'.state,ch'.chat)) (by simp [hok])

/-- What the replay accepts, the calls would have accepted. -/
theorem accepted_of_replayRecord {crypto : C} {channelId : ChannelId} {bytes : Bytes}
    {ch : Channel maxNodes slabSize C P} {s : ChannelState maxNodes P × Chat maxNodes C P} (hv : ch.state.Valid)
    (h : replayRecord crypto channelId bytes (ch.state,ch.chat) = (.ok (),s)) :
    ∃ sender message id maxSequence, Carries crypto ch.state bytes sender message id ∧
      Accepted ch { ch with state := s.1, chat := s.2 } channelId sender message id maxSequence := by
  obtain ⟨envelope,_,hlift,h1⟩ := Call.bind_eq_ok.mp h
  obtain ⟨hdecode,rfl⟩ := Call.lift_eq_ok.mp hlift
  obtain ⟨key,_,hread,h2⟩ := Call.bind_eq_ok.mp h1
  obtain ⟨hkey,rfl⟩ := Call.read_eq_ok.mp hread
  obtain ⟨message,_,hopened,h3⟩ := Call.bind_eq_ok.mp h2
  obtain ⟨hopen,rfl⟩ := Call.lift_eq_ok.mp hopened
  obtain ⟨_,_,hchecked,h4⟩ := Call.bind_eq_ok.mp h3
  obtain ⟨hcheck,rfl⟩ := Call.read_eq_ok.mp hchecked
  obtain ⟨result,_,hchat,h5⟩ := Call.bind_eq_ok.mp h4
  obtain ⟨chat,haccept,rfl⟩ := Call.field_eq_ok.mp hchat
  obtain ⟨hallow,htook,rfl⟩ := Chat.acceptMessage_eq_ok (Call.mapErr_eq_ok.mp haccept)
  have hreceivable := (hv.sorted.checkReceive_eq_ok _).mp (Outcome.mapErr_eq_ok.mp hcheck)
  have hcarries : Carries crypto ch.state bytes envelope.sender message (Crypto.envelopeId crypto envelope) :=
    ⟨envelope,key,hdecode,rfl,Outcome.mapErr_eq_ok.mp hkey,Outcome.mapErr_eq_ok.mp hopen,rfl⟩
  have hplain : ∀ st : ChannelState maxNodes P, st.Valid → (do
      let _ ← Call.field Prod.fst (fun state st => (state,st.2)) (Call.mapErr (fun _ => .unreachable)
        (ChannelState.receive envelope.sender message (Crypto.envelopeId crypto envelope)))
      pure () : Call (ChannelState maxNodes P × Chat maxNodes C P) ClientError Unit) (st,chat) = (.ok (),s) →
        s.2 = chat ∧ ∃ maxSequence, st.Received s.1 envelope.sender message
          (Crypto.envelopeId crypto envelope) maxSequence := by
    intro st hst hrun
    obtain ⟨maxSequence,_,hfield,hpure⟩ := Call.bind_eq_ok.mp hrun
    obtain ⟨st',hreceive,rfl⟩ := Call.field_eq_ok.mp hfield
    cases hpure
    exact ⟨rfl,maxSequence,hst.receive_ok (Call.mapErr_eq_ok.mp hreceive)⟩
  cases hdata : message.data with
  | newChannel m =>
    rw [hdata] at h5
    obtain ⟨hsame,maxSequence,hreceived⟩ := hplain ch.state hv h5
    exact ⟨_,message,_,maxSequence,hcarries,⟨s.1,hreceived,by rw [hdata]⟩,hallow,by rw [hsame]; exact htook,rfl⟩
  | chatMessage m =>
    rw [hdata] at h5
    obtain ⟨hsame,maxSequence,hreceived⟩ := hplain ch.state hv h5
    exact ⟨_,message,_,maxSequence,hcarries,⟨s.1,hreceived,by rw [hdata]⟩,hallow,by rw [hsame]; exact htook,rfl⟩
  | addUser m =>
    rw [hdata] at h5
    obtain ⟨_,_,hfield,h6⟩ := Call.bind_eq_ok.mp h5
    obtain ⟨mid,hadd,rfl⟩ := Call.field_eq_ok.mp hfield
    have hadded := hv.sorted.addNode_ok (Call.mapErr_eq_ok.mp hadd)
    obtain ⟨hsame,maxSequence,hreceived⟩ := hplain mid (hadded.valid hv) h6
    -- on the other side of the message the new user finds its place too
    obtain ⟨maxSequence',st,hok⟩ := hv.receive_of_receivable hreceivable (Crypto.envelopeId crypto envelope)
    have hfirst := hv.receive_ok hok
    have hnew : st.record (computeId C m.key) = none := by
      have hknows := hfirst.knows (computeId C m.key)
      rw [hadded.unknown] at hknows
      simpa using hknows
    obtain ⟨last,hlast⟩ := hfirst.sorted.addNode_of_room hnew (by rw [hfirst.length]; exact hadded.room) m.key
    have hlater := hfirst.sorted.addNode_ok hlast
    obtain ⟨mid',hmid',maxSequence'',hlast'⟩ := hfirst.after_added hv hlater
    obtain rfl := (hv.sorted.addNode_ok hmid').unique hadded
    obtain rfl := ((hadded.valid hv).receive_ok hlast').unique hreceived
    exact ⟨_,message,_,maxSequence',hcarries,⟨st,hfirst,by rw [hdata]; exact hlater⟩,hallow,
      by rw [hsame]; exact htook,rfl⟩

end Fold

end Channel

end Finder
