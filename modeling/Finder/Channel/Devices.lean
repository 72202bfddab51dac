import Finder.Channel.Steps
import Finder.Math.Chain
import Mathlib.Logic.Relation

namespace Finder

/-- A message as it travels: who sent it and under which envelope id. -/
structure Envelope (T : Type) where
  sender : NodeId
  message : Message T
  id : EnvelopeId
  deriving DecidableEq

/-- A message that has been sent, with all that the sending device had accepted by then. -/
structure Sent (T : Type) extends Envelope T where
  past : List (Envelope T)

def Envelope.last {T : Type} (e : Envelope T) : Nat := e.message.senderLast.val
def Envelope.seq {T : Type} (e : Envelope T) : Nat := e.message.sequence.val

/-- The envelopes of one sender, in the order they stand in. -/
def ofSender {T : Type} (s : NodeId) (es : List (Envelope T)) : List (Envelope T) :=
  es.filter (fun e => decide (e.sender = s))

@[simp] theorem mem_ofSender {T : Type} {s : NodeId} {es : List (Envelope T)} {e : Envelope T} :
    e ∈ ofSender s es ↔ e ∈ es ∧ e.sender = s := by simp [ofSender]

theorem ofSender_append_single {T : Type} (s : NodeId) (es : List (Envelope T)) (e : Envelope T) :
    ofSender s (es ++ [e]) = if e.sender = s then ofSender s es ++ [e] else ofSender s es := by
  by_cases h : e.sender = s <;> simp [ofSender,h]

/-- The devices of a channel, every message that was ever sent, and what each device has accepted. -/
structure Network (D : Type) (maxNodes : Nat) (P T : Type) where
  device : D → ChannelState maxNodes P
  sent : NodeId → List (Sent T)
  accepted : D → List (Envelope T)

namespace Network

section

variable {D : Type} {maxNodes : Nat} {P T : Type}

def initial (start : ChannelState maxNodes P) : Network D maxNodes P T :=
  { device := fun _ => start
    sent := fun _ => []
    accepted := fun _ => [] }

def post (net : Network D maxNodes P T) (x : Sent T) : Network D maxNodes P T :=
  { net with sent := Function.update net.sent x.sender (net.sent x.sender ++ [x]) }

/-- The messages a node has sent, oldest first. -/
def sentBy (net : Network D maxNodes P T) (s : NodeId) : List (Envelope T) :=
  (net.sent s).map Sent.toEnvelope

/-- The messages of a sender that a device has accepted, in the order it accepted them. -/
def acceptedFrom (net : Network D maxNodes P T) (d : D) (s : NodeId) : List (Envelope T) :=
  ofSender s (net.accepted d)

variable (net : Network D maxNodes P T) (x : Sent T) (s : NodeId)

@[simp] theorem post_device : (net.post x).device = net.device := rfl
@[simp] theorem post_accepted : (net.post x).accepted = net.accepted := rfl
@[simp] theorem post_acceptedFrom (d : D) : (net.post x).acceptedFrom d s = net.acceptedFrom d s := rfl
@[simp] theorem post_sent :
    (net.post x).sent s = if s = x.sender then net.sent s ++ [x] else net.sent s := by
  by_cases h : s = x.sender
  · subst h
    simp [post]
  · simp [post,h]

theorem post_sentBy : (net.post x).sentBy s =
    if s = x.sender then net.sentBy s ++ [x.toEnvelope] else net.sentBy s := by
  unfold sentBy
  rw [post_sent]
  split_ifs <;> simp

end

variable {D : Type} [DecidableEq D] {maxNodes : Nat} {P T : Type}

def withDevice (net : Network D maxNodes P T) (d : D) (st : ChannelState maxNodes P) :
    Network D maxNodes P T :=
  { net with device := Function.update net.device d st }

def accept (net : Network D maxNodes P T) (d : D) (e : Envelope T) : Network D maxNodes P T :=
  { net with accepted := Function.update net.accepted d (net.accepted d ++ [e]) }

section Access

variable (net : Network D maxNodes P T) (d d' : D) (st : ChannelState maxNodes P) (e : Envelope T)
  (s : NodeId)

@[simp] theorem withDevice_sent : (net.withDevice d st).sent = net.sent := rfl
@[simp] theorem withDevice_accepted : (net.withDevice d st).accepted = net.accepted := rfl
@[simp] theorem withDevice_sentBy : (net.withDevice d st).sentBy s = net.sentBy s := rfl
@[simp] theorem withDevice_acceptedFrom :
    (net.withDevice d st).acceptedFrom d' s = net.acceptedFrom d' s := rfl
@[simp] theorem accept_device : (net.accept d e).device = net.device := rfl
@[simp] theorem accept_sent : (net.accept d e).sent = net.sent := rfl
@[simp] theorem accept_sentBy : (net.accept d e).sentBy s = net.sentBy s := rfl
@[simp] theorem withDevice_device :
    (net.withDevice d st).device d' = if d' = d then st else net.device d' := by
  simp [withDevice,Function.update_apply]
@[simp] theorem withDevice_self : net.withDevice d (net.device d) = net := by
  simp [withDevice]
@[simp] theorem accept_accepted :
    (net.accept d e).accepted d' = if d' = d then net.accepted d ++ [e] else net.accepted d' := by
  simp [accept,Function.update_apply]

theorem accept_acceptedFrom : (net.accept d e).acceptedFrom d' s =
    if d' = d ∧ e.sender = s then net.acceptedFrom d' s ++ [e] else net.acceptedFrom d' s := by
  unfold acceptedFrom
  rw [accept_accepted]
  by_cases hd : d' = d
  · subst hd
    rw [if_pos rfl,ofSender_append_single]
    simp
  · rw [if_neg hd,if_neg (fun h => hd h.1)]

end Access

/-- One event. A node sends from its home device; a sent message may reach any device at any time. -/
inductive Step (home : NodeId → D) : Network D maxNodes P T → Network D maxNodes P T → Prop
  | send (net : Network D maxNodes P T) (s : NodeId) (data : T) (message : Message T) (id : EnvelopeId)
      (maxSequence : U64) (st : ChannelState maxNodes P)
      (haddress : (net.device (home s)).address s data = .ok message)
      (hreceive : ChannelState.receive s message id (net.device (home s)) = (.ok maxSequence,st)) :
      Step home net (((net.withDevice (home s) st).post ⟨⟨s,message,id⟩,net.accepted (home s)⟩).accept
        (home s) ⟨s,message,id⟩)
  | addNode (net : Network D maxNodes P T) (d : D) (node : NodeId) (nodeKey : P) :
      Step home net (net.withDevice d (ChannelState.addNode node nodeKey (net.device d)).2)
  | deliver (net : Network D maxNodes P T) (d : D) (x : Sent T) (maxSequence : U64)
      (st : ChannelState maxNodes P) (hsent : x ∈ net.sent x.sender)
      (hreceive : ChannelState.receive x.sender x.message x.id (net.device d) = (.ok maxSequence,st)) :
      Step home net ((net.withDevice d st).accept d x.toEnvelope)
  | refuse (net : Network D maxNodes P T) (d : D) (x : Sent T) (e : ChannelError)
      (st : ChannelState maxNodes P) (hsent : x ∈ net.sent x.sender)
      (hreceive : ChannelState.receive x.sender x.message x.id (net.device d) = (.err e,st)) :
      Step home net (net.withDevice d st)

/-- The states the devices of a channel can reach from its creator's record alone. -/
def Reachable (home : NodeId → D) (creator : NodeId) (creatorKey : P) (net : Network D maxNodes P T) :
    Prop :=
  ∃ start, ChannelState.new creator creatorKey = .ok start ∧
    Relation.ReflTransGen (Step home) (initial start) net

/-- Every device has a part of each sender's chain, and its table stands at the end of that part. -/
structure Consistent (home : NodeId → D) (net : Network D maxNodes P T) : Prop where
  valid : ∀ d, (net.device d).Valid
  own : ∀ s, ∀ x ∈ net.sent s, x.sender = s
  chained : ∀ s, Chained Envelope.last Envelope.seq 0 (net.sentBy s)
  part : ∀ d s, net.acceptedFrom d s <+: net.sentBy s
  reached : ∀ d s, (net.device d).sequenceOf s = tip Envelope.seq 0 (net.acceptedFrom d s)
  atHome : ∀ s, net.acceptedFrom (home s) s = net.sentBy s
  caused : ∀ s, ∀ x ∈ net.sent s,
    x.seq = tip Envelope.seq 0 (ofSender x.message.cause x.past)+1
  before : ∀ s p x q, net.sent s = p ++ x::q → ofSender s x.past = p.map Sent.toEnvelope

namespace Consistent

variable {home : NodeId → D} {net : Network D maxNodes P T}

omit [DecidableEq D] in
theorem start {creator : NodeId} {creatorKey : P} {st : ChannelState maxNodes P}
    (h : ChannelState.new creator creatorKey = .ok st) :
    Consistent home (initial st : Network D maxNodes P T) where
  valid _ := ChannelState.new_valid h
  own := by simp [initial]
  chained _ := trivial
  part _ _ := List.prefix_refl _
  reached d s := by
    have hr := ChannelState.new_record h s
    split_ifs at hr
    · exact ChannelState.sequenceOf_eq hr
    · exact ChannelState.sequenceOf_unknown hr
  atHome _ := rfl
  caused := by simp [initial]
  before s p x q hs := by simp [initial] at hs

/-- What a device takes in moves its table and its part of the chain by the same step. -/
theorem accept_valid (h : Consistent home net) {d : D} {e : Envelope T} {maxSequence : U64}
    {st : ChannelState maxNodes P} (hstep : (net.device d).Received st e.sender e.message e.id maxSequence) (d' : D) :
    ((net.withDevice d st).device d').Valid := by
  rw [withDevice_device]
  split_ifs
  · exact hstep.valid (h.valid d)
  · exact h.valid d'

theorem accept_reached (h : Consistent home net) {d : D} {e : Envelope T} {maxSequence : U64}
    {st : ChannelState maxNodes P} (hstep : (net.device d).Received st e.sender e.message e.id maxSequence) (d' : D)
    (s : NodeId) : ((net.withDevice d st).device d').sequenceOf s =
      tip Envelope.seq 0 (((net.withDevice d st).accept d e).acceptedFrom d' s) := by
  rw [accept_acceptedFrom,withDevice_device,withDevice_acceptedFrom]
  by_cases hd : d' = d
  · subst hd
    rw [if_pos rfl,hstep.sequenceOf]
    by_cases he : e.sender = s
    · subst he
      rw [if_pos rfl,if_pos ⟨rfl,rfl⟩,tip_append_single]
      rfl
    · rw [if_neg he,if_neg (fun hh => he hh.2)]
      exact h.reached d' s
  · rw [if_neg hd,if_neg (fun hh => hd hh.1)]
    exact h.reached d' s

theorem send (h : Consistent home net) {s : NodeId} {data : T} {message : Message T} {id : EnvelopeId}
    {maxSequence : U64} {st : ChannelState maxNodes P}
    (haddress : (net.device (home s)).address s data = .ok message)
    (hreceive : ChannelState.receive s message id (net.device (home s)) = (.ok maxSequence,st)) :
    Consistent home (((net.withDevice (home s) st).post ⟨⟨s,message,id⟩,net.accepted (home s)⟩).accept
      (home s) ⟨s,message,id⟩) := by
  have hv := h.valid (home s)
  have hstep := hv.receive_ok hreceive
  obtain ⟨r,c,hr,hc,hcause,hlast,hseq,-⟩ := hv.address_eq_ok.mp haddress
  have htip : r.sequence.val = tip Envelope.seq 0 (net.sentBy s) := by
    rw [←ChannelState.sequenceOf_eq hr,h.reached,h.atHome]
  have hrc : r.sequence.val ≤ c.sequence.val := by
    have hle := hv.sequenceOf_le hc s
    rwa [ChannelState.sequenceOf_eq hr] at hle
  have hsent : ∀ s', (((net.withDevice (home s) st).post ⟨⟨s,message,id⟩,net.accepted (home s)⟩).accept
      (home s) ⟨s,message,id⟩).sentBy s' =
        if s' = s then net.sentBy s' ++ [⟨s,message,id⟩] else net.sentBy s' := by
    intro s'
    rw [accept_sentBy,post_sentBy,withDevice_sentBy]
  refine ⟨fun d => ?_,fun s' x hx => ?_,fun s' => ?_,fun d s' => ?_,fun d s' => ?_,fun s' => ?_,
    fun s' x hx => ?_,fun s' p x q hs => ?_⟩
  · exact h.accept_valid (e := ⟨s,message,id⟩) hstep d
  · rw [accept_sent,post_sent,withDevice_sent] at hx
    split_ifs at hx with he
    · rcases List.mem_append.mp hx with hx | hx
      · exact h.own s' x hx
      · rw [List.mem_singleton.mp hx]
        exact he.symm
    · exact h.own s' x hx
  · rw [hsent]
    split_ifs with he
    · subst he
      refine (h.chained s').append_single ?_ ?_
      · simpa [Envelope.last,hlast] using htip
      · simp only [Envelope.seq]
        omega
    · exact h.chained s'
  · rw [hsent,accept_acceptedFrom]
    by_cases he : s' = s
    · subst he
      rw [if_pos rfl]
      by_cases hd : d = home s'
      · subst hd
        rw [if_pos ⟨rfl,rfl⟩]
        rw [post_acceptedFrom,withDevice_acceptedFrom,h.atHome]
      · rw [if_neg (fun hh => hd hh.1)]
        exact (h.part d s').trans (List.prefix_append _ _)
    · rw [if_neg he,if_neg (fun hh => he hh.2.symm)]
      exact h.part d s'
  · exact h.accept_reached (e := ⟨s,message,id⟩) hstep d s'
  · rw [hsent,accept_acceptedFrom]
    by_cases he : s' = s
    · subst he
      rw [if_pos rfl,if_pos ⟨rfl,rfl⟩]
      exact congrArg (· ++ _) (h.atHome s')
    · rw [if_neg he,if_neg (fun hh => he hh.2.symm)]
      exact h.atHome s'
  · rw [accept_sent,post_sent,withDevice_sent] at hx
    have hnew : message.sequence.val =
        tip Envelope.seq 0 (ofSender message.cause (net.accepted (home s)))+1 := by
      rw [hseq,←ChannelState.sequenceOf_eq hc,hcause,h.reached]
      rfl
    split_ifs at hx with he
    · rcases List.mem_append.mp hx with hx | hx
      · exact h.caused s' x hx
      · rw [List.mem_singleton.mp hx]
        exact hnew
    · exact h.caused s' x hx
  · rw [accept_sent,post_sent,withDevice_sent] at hs
    split_ifs at hs with he
    · subst he
      rcases List.eq_nil_or_concat q with rfl | ⟨q',y,rfl⟩
      · obtain ⟨hp,hx⟩ := List.append_inj' hs rfl
        cases hx
        rw [←hp]
        exact h.atHome s'
      · rw [List.concat_eq_append,←List.cons_append,←List.append_assoc] at hs
        exact h.before s' p x q' (List.append_inj' hs rfl).1
    · exact h.before s' p x q hs

theorem deliver (h : Consistent home net) {d : D} {x : Sent T} {maxSequence : U64}
    {st : ChannelState maxNodes P} (hsent : x ∈ net.sent x.sender)
    (hreceive : ChannelState.receive x.sender x.message x.id (net.device d) = (.ok maxSequence,st)) :
    Consistent home ((net.withDevice d st).accept d x.toEnvelope) := by
  have hv := h.valid d
  have hstep := hv.receive_ok hreceive
  obtain ⟨r,hr,hlt,hlast,-⟩ := hstep.receivable
  have htip : r.sequence.val = tip Envelope.seq 0 (net.acceptedFrom d x.sender) := by
    rw [←ChannelState.sequenceOf_eq hr,h.reached]
  have hmem : x.toEnvelope ∈ net.sentBy x.sender := List.mem_map_of_mem hsent
  have hext : net.acceptedFrom d x.sender ++ [x.toEnvelope] <+: net.sentBy x.sender :=
    (h.chained x.sender).extends (h.part d x.sender) hmem
      (by rw [←htip,hlast]; rfl) (by rw [←htip]; exact hlt)
  refine ⟨fun d' => ?_,h.own,h.chained,fun d' s => ?_,fun d' s => ?_,fun s => ?_,h.caused,h.before⟩
  · exact h.accept_valid hstep d'
  · rw [accept_acceptedFrom,accept_sentBy,withDevice_sentBy,withDevice_acceptedFrom]
    split_ifs with hs
    · obtain ⟨rfl,rfl⟩ := hs
      exact hext
    · exact h.part d' s
  · exact h.accept_reached hstep d' s
  · rw [accept_acceptedFrom,accept_sentBy,withDevice_sentBy,withDevice_acceptedFrom]
    split_ifs with hs
    · -- a device already has all that is sent from it
      obtain ⟨rfl,rfl⟩ := hs
      have hlen := hext.length_le
      rw [h.atHome x.sender,List.length_append,List.length_singleton] at hlen
      omega
    · exact h.atHome s

theorem addNode (h : Consistent home net) (d : D) (node : NodeId) (nodeKey : P) :
    Consistent home (net.withDevice d (ChannelState.addNode node nodeKey (net.device d)).2) := by
  have hv := h.valid d
  rcases hv.sorted.addNode_cases node nodeKey with ⟨st,hst,hadd⟩ | ⟨-,e,he⟩
  · rw [hst]
    refine ⟨fun d' => ?_,h.own,h.chained,h.part,fun d' s => ?_,h.atHome,h.caused,h.before⟩
    · rw [withDevice_device]
      split_ifs
      · exact hadd.valid hv
      · exact h.valid d'
    · rw [withDevice_device,withDevice_acceptedFrom]
      split_ifs with hd
      · rw [hadd.sequenceOf,hd]
        exact h.reached d s
      · exact h.reached d' s
  · rw [he,withDevice_self]
    exact h

theorem refuse (h : Consistent home net) {d : D} {x : Sent T} {e : ChannelError}
    {st : ChannelState maxNodes P}
    (hreceive : ChannelState.receive x.sender x.message x.id (net.device d) = (.err e,st)) :
    net.withDevice d st = net := by
  rcases (h.valid d).receive_cases x.sender x.message x.id with ⟨_,_,hok,_⟩ | ⟨_,e',herr⟩
  · rw [hreceive] at hok
    cases hok
  · rw [hreceive] at herr
    cases herr
    exact withDevice_self net d

theorem step (h : Consistent home net) {net' : Network D maxNodes P T} (hs : Step home net net') :
    Consistent home net' := by
  cases hs with
  | send s data message id maxSequence st haddress hreceive => exact h.send haddress hreceive
  | addNode d node nodeKey => exact h.addNode d node nodeKey
  | deliver d x maxSequence st hsent hreceive => exact h.deliver hsent hreceive
  | refuse d x e st hsent hreceive => exact (h.refuse hreceive).symm ▸ h

theorem run (h : Consistent home net) {net' : Network D maxNodes P T}
    (hs : Relation.ReflTransGen (Step home) net net') : Consistent home net' := by
  induction hs with
  | refl => exact h
  | tail _ hs ih => exact ih.step hs

end Consistent

theorem Reachable.consistent {home : NodeId → D} {creator : NodeId} {creatorKey : P}
    {net : Network D maxNodes P T} (h : Reachable home creator creatorKey net) : Consistent home net := by
  obtain ⟨start,hstart,hrun⟩ := h
  exact (Consistent.start hstart).run hrun

section Events

variable (home : NodeId → D) (net : Network D maxNodes P T)

/-- What comes of a node that sends: nothing, where its device cannot. -/
def send (s : NodeId) (data : T) (id : EnvelopeId) : Network D maxNodes P T :=
  match (net.device (home s)).address s data with
  | .ok message =>
    match ChannelState.receive s message id (net.device (home s)) with
    | (.ok _,st) => ((net.withDevice (home s) st).post ⟨⟨s,message,id⟩,net.accepted (home s)⟩).accept (home s)
        ⟨s,message,id⟩
    | _ => net
  | _ => net

def addNode (d : D) (node : NodeId) (nodeKey : P) : Network D maxNodes P T :=
  net.withDevice d (ChannelState.addNode node nodeKey (net.device d)).2

/-- What comes of a message that reaches a device. -/
def deliver (d : D) (x : Sent T) : Network D maxNodes P T :=
  match ChannelState.receive x.sender x.message x.id (net.device d) with
  | (.ok _,st) => (net.withDevice d st).accept d x.toEnvelope
  | (.err _,st) => net.withDevice d st
  | (.panic,_) => net

variable {home net} {creator : NodeId} {creatorKey : P}

theorem Reachable.send (h : Reachable home creator creatorKey net) (s : NodeId) (data : T) (id : EnvelopeId) :
    Reachable home creator creatorKey (net.send home s data id) := by
  obtain ⟨start,hstart,hrun⟩ := h
  unfold Network.send
  rcases haddress : (net.device (home s)).address s data with message | e | _
  · dsimp only
    rcases hreceive : ChannelState.receive s message id (net.device (home s)) with ⟨maxSequence | e | _,st⟩
    · exact ⟨start,hstart,hrun.tail (.send net s data message id maxSequence st haddress hreceive)⟩
    · exact ⟨start,hstart,hrun⟩
    · exact ⟨start,hstart,hrun⟩
  · exact ⟨start,hstart,hrun⟩
  · exact ⟨start,hstart,hrun⟩

theorem Reachable.addNode (h : Reachable home creator creatorKey net) (d : D) (node : NodeId) (nodeKey : P) :
    Reachable home creator creatorKey (net.addNode d node nodeKey) := by
  obtain ⟨start,hstart,hrun⟩ := h
  exact ⟨start,hstart,hrun.tail (.addNode net d node nodeKey)⟩

theorem Reachable.deliver (h : Reachable home creator creatorKey net) (d : D) {x : Sent T}
    (hsent : x ∈ net.sent x.sender) : Reachable home creator creatorKey (net.deliver d x) := by
  obtain ⟨start,hstart,hrun⟩ := h
  unfold Network.deliver
  rcases hreceive : ChannelState.receive x.sender x.message x.id (net.device d) with ⟨maxSequence | e | _,st⟩
  · exact ⟨start,hstart,hrun.tail (.deliver net d x maxSequence st hsent hreceive)⟩
  · exact ⟨start,hstart,hrun.tail (.refuse net d x e st hsent hreceive)⟩
  · exact ⟨start,hstart,hrun⟩

end Events

section Talk

def nodeOne : NodeId := ⟨Id.ofByte 1⟩

def nodeTwo : NodeId := ⟨Id.ofByte 2⟩

/-- The first node's device, and the one of all others. -/
def homeOf (s : NodeId) : Bool := decide (s = nodeOne)

/-- Two devices that both know two nodes. -/
def introduced : Network Bool 2 Nat Char :=
  ((initial ⟨⟨[ChannelState.freshRecord nodeOne 10],by decide⟩,nodeOne⟩).addNode true nodeTwo 20).addNode false nodeTwo 20

def question : Sent Char := ⟨⟨nodeOne,⟨nodeOne,0,1,'a'⟩,⟨Id.ofByte 5⟩⟩,[]⟩

def answer : Sent Char := ⟨⟨nodeTwo,⟨nodeOne,0,2,'b'⟩,⟨Id.ofByte 6⟩⟩,[question.toEnvelope]⟩

def afterthought : Sent Char :=
  ⟨⟨nodeTwo,⟨nodeTwo,2,3,'c'⟩,⟨Id.ofByte 7⟩⟩,[question.toEnvelope,answer.toEnvelope]⟩

/-- The second node answers the first one, and has an afterthought. -/
def talk : Network Bool 2 Nat Char :=
  ((((introduced.send homeOf nodeOne 'a' question.id).deliver false question).send homeOf nodeTwo 'b' answer.id).deliver
    true answer).send homeOf nodeTwo 'c' afterthought.id

theorem talk_reachable : Reachable homeOf nodeOne 10 talk := by
  have hintroduced : Reachable homeOf nodeOne 10 introduced :=
    Reachable.addNode (Reachable.addNode ⟨_,rfl,.refl⟩ true nodeTwo 20) false nodeTwo 20
  have hanswered := ((hintroduced.send nodeOne 'a' question.id).deliver false (x := question)
    (List.mem_singleton.mpr rfl)).send nodeTwo 'b' answer.id
  exact (hanswered.deliver true (x := answer) (List.mem_singleton.mpr rfl)).send nodeTwo 'c' afterthought.id

theorem talk_accepted : talk.accepted true = [question.toEnvelope,answer.toEnvelope] ∧
    talk.accepted false = [question.toEnvelope,answer.toEnvelope,afterthought.toEnvelope] := ⟨rfl,rfl⟩

end Talk

end Network

end Finder
