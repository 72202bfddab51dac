import Finder.Client.Filing
import Finder.Client.Members
import Finder.Math.Replicas

namespace Finder

variable {maxNodes slabSize : Nat} {C P S : Type}

namespace Entry

def last (e : Entry P) : Nat := e.message.senderLast.val
def seq (e : Entry P) : Nat := e.message.sequence.val

end Entry

/-- The entries of one sender, in the order they stand in. -/
abbrev entriesOf (n : NodeId) (log : List (Entry P)) : List (Entry P) := byAuthor Entry.sender n log

section Accepted

variable [Crypto C P S] {ch ch' : Channel maxNodes slabSize C P} {channelId : ChannelId} {sender : NodeId}
  {message : Message (Protocol P)} {id : EnvelopeId} {maxSequence : U64}

theorem Accepted.receivable (h : Accepted ch ch' channelId sender message id maxSequence) :
    ch.state.Receivable sender message := by
  obtain ⟨st,hreceived,_⟩ := h.state
  exact hreceived.receivable

/-- Where the records of a table come from when a message has been accepted. -/
theorem Accepted.record_cases (h : Accepted ch ch' channelId sender message id maxSequence) {n : NodeId}
    {r : NodeSequence P} (hr : ch'.state.record n = some r) :
    (sender = n ∧ ∃ r0, ch.state.record n = some r0 ∧ r = ChannelState.receivedRecord r0 message id) ∨
      (sender ≠ n ∧ ch.state.record n = some r) ∨ ∃ key, r = ChannelState.freshRecord n key := by
  obtain ⟨st,hreceived,hstate⟩ := h.state
  obtain ⟨r0,hr0,hrecords⟩ := hreceived.records
  have hst : ∀ r, st.record n = some r →
      (sender = n ∧ ∃ r0, ch.state.record n = some r0 ∧ r = ChannelState.receivedRecord r0 message id) ∨
        (sender ≠ n ∧ ch.state.record n = some r) := by
    intro r1 hr1
    rw [hrecords] at hr1
    split_ifs at hr1 with hn
    · subst hn
      exact Or.inl ⟨rfl,r0,hr0,(Option.some.inj hr1).symm⟩
    · exact Or.inr ⟨hn,hr1⟩
  cases hdata : message.data with
  | newChannel m =>
    rw [hdata] at hstate
    rw [hstate] at hr
    exact (hst r hr).imp_right Or.inl
  | chatMessage m =>
    rw [hdata] at hstate
    rw [hstate] at hr
    exact (hst r hr).imp_right Or.inl
  | addUser m =>
    rw [hdata] at hstate
    rw [hstate.records] at hr
    split_ifs at hr with hn
    · subst hn
      exact Or.inr (Or.inr ⟨m.key,(Option.some.inj hr).symm⟩)
    · exact (hst r hr).imp_right Or.inl

theorem Accepted.added_unknown (h : Accepted ch ch' channelId sender message id maxSequence) {key : P}
    (hkey : message.data.added = some key) : ch.state.record (computeId C key) = none := by
  obtain ⟨st,hreceived,hstate⟩ := h.state
  cases hdata : message.data with
  | newChannel m => simp [hdata,Protocol.added] at hkey
  | chatMessage m => simp [hdata,Protocol.added] at hkey
  | addUser m =>
    rw [hdata] at hstate
    obtain rfl : m.key = key := by simpa [hdata,Protocol.added] using hkey
    have hknows := hreceived.knows (computeId C m.key)
    rw [hstate.unknown] at hknows
    simpa using hknows

end Accepted

theorem Chat.Took.users_nodup [Crypto C P S] {maxUsers : Nat} {chat chat' : Chat maxUsers C P}
    {message : Protocol P} (h : chat.Took chat' message) (hchat : chat.users.keys.Nodup) :
    chat'.users.keys.Nodup := by
  have husers := h.users
  cases message with
  | newChannel m => exact FnvIndexMap.insert_nodup husers hchat
  | addUser m => exact FnvIndexMap.insert_nodup husers hchat
  | chatMessage m => exact (Option.some.inj husers) ▸ hchat

namespace Channel

variable [IdealCrypto C P S] [Postcard (Message (Protocol P))] [EnvelopeCodec P] {channelId : ChannelId}
  {creator : P} {log before after : List (Entry P)} {ch : Channel maxNodes slabSize C P} {e : Entry P}

/-- The table stands where the entries of each sender end, and these are a chain. -/
theorem Story.chained (h : Story channelId creator log ch) (n : NodeId) :
    ch.state.sequenceOf n = tip Entry.seq 0 (entriesOf n log) ∧
      Chained Entry.last Entry.seq 0 (entriesOf n log) := by
  induction h with
  | new ch hstate _ =>
    refine ⟨?_,trivial⟩
    have hr := ChannelState.new_record hstate n
    split_ifs at hr
    · exact ChannelState.sequenceOf_eq hr
    · exact ChannelState.sequenceOf_unknown hr
  | accept log ch ch' crypto e maxSequence _ _ haccepted ih =>
    obtain ⟨hreached,hchain⟩ := ih
    rw [haccepted.sequenceOf,entriesOf,byAuthor_append,byAuthor_single]
    split_ifs with hn
    · subst hn
      obtain ⟨r,hr,hlt,hlast,_⟩ := haccepted.receivable
      rw [ChannelState.sequenceOf_eq hr] at hreached
      refine ⟨by rw [tip_append_single]; rfl,hchain.append_single ?_ ?_⟩
      · rw [←hreached,hlast]
        rfl
      · rw [←hreached]
        exact hlt
    · rw [List.append_nil]
      exact ⟨hreached,hchain⟩
  | store log ch storage _ ih => exact ih

/-- What a story was when one of its entries came. -/
theorem Story.split (h : Story channelId creator (before ++ e::after) ch) :
    ∃ (c c' : Channel maxNodes slabSize C P) (maxSequence : U64), Story channelId creator before c ∧
      Accepted c c' channelId e.sender e.message e.id maxSequence := by
  have hsplit : before ++ e::after = (before ++ [e]) ++ after := by simp
  rw [hsplit] at h
  obtain ⟨last,hlast⟩ := h.before
  generalize hall : before ++ [e] = all at hlast
  induction hlast with
  | new ch _ _ => simp at hall
  | accept log c c' crypto e' maxSequence h _ haccepted _ =>
    obtain ⟨rfl,he⟩ := List.append_inj' hall rfl
    cases he
    exact ⟨c,c',maxSequence,h,haccepted⟩
  | store log ch storage _ ih => exact ih hall

/-- The users of a chat are those that its messages brought in. -/
theorem Story.users_iff (h : Story channelId creator log ch) (n : NodeId) :
    ch.chat.users.containsKey n = true ↔
      ∃ e ∈ log, ∃ key, e.message.data.admitted = some key ∧ computeId C key = n := by
  constructor
  · intro hn
    induction h with
    | new ch _ hchat =>
      rw [hchat] at hn
      simp [Chat.new,FnvIndexMap.containsKey] at hn
    | accept log ch ch' crypto e maxSequence _ _ haccepted ih =>
      rcases (haccepted.chat.users_iff n).mp hn with hold | ⟨key,hkey,hid⟩
      · obtain ⟨x,hx,hadmitted⟩ := ih hold
        exact ⟨x,List.mem_append_left _ hx,hadmitted⟩
      · exact ⟨e,by simp,key,hkey,hid⟩
    | store log ch storage _ ih => exact ih hn
  · rintro ⟨e,he,key,hkey,rfl⟩
    exact h.admits he hkey

theorem Story.users_nodup (h : Story channelId creator log ch) : ch.chat.users.keys.Nodup := by
  induction h with
  | new ch _ hchat =>
    rw [hchat]
    exact List.nodup_nil
  | accept log ch ch' crypto e maxSequence _ _ haccepted ih => exact haccepted.chat.users_nodup ih
  | store log ch storage _ ih => exact ih

/-- Every new channel of the log names this key. -/
def NamesOwner (creator : P) (log : List (Entry P)) : Prop :=
  ∀ e ∈ log, ∀ m, e.message.data = .newChannel m → m.owner = creator

omit [IdealCrypto C P S] [Postcard (Message (Protocol P))] [EnvelopeCodec P] in
theorem NamesOwner.sub (h : NamesOwner creator log) (hsub : ∀ e ∈ before, e ∈ log) : NamesOwner creator before :=
  fun e he => h e (hsub e he)

omit [IdealCrypto C P S] [Postcard (Message (Protocol P))] [EnvelopeCodec P] in
theorem Opened.init {e : Entry P} (h : Opened (log ++ [e])) (hno : ∀ m, e.message.data ≠ .newChannel m) :
    Opened log := by
  obtain ⟨x,hx,m,hm⟩ := h
  rcases List.mem_append.mp hx with hx | hx
  · exact ⟨x,hx,m,hm⟩
  · rw [List.mem_singleton.mp hx] at hm
    exact absurd hm (hno m)

/-- Then its owner is the one, and nobody else has added a user. -/
theorem Story.owner (h : Story channelId creator log ch) (hnames : NamesOwner creator log) :
    (Opened log → ch.chat.ownerId = some (computeId C creator)) ∧
      ∀ e ∈ log, ∀ m, e.message.data = .addUser m → e.sender = computeId C creator := by
  induction h with
  | new ch _ _ =>
    refine ⟨fun hopened => ?_,by simp⟩
    obtain ⟨e,he,_⟩ := hopened
    cases he
  | accept log ch ch' crypto e maxSequence h _ haccepted ih =>
    obtain ⟨howner,hadds⟩ := ih (hnames.sub (fun x hx => List.mem_append_left _ hx))
    have hallowed := haccepted.allowed
    have hid := haccepted.chat.ownerId
    refine ⟨fun hopened => ?_,fun x hx m hm => ?_⟩
    · rw [hid]
      cases hdata : e.message.data with
      | newChannel m =>
        rw [Chat.ownerAfter,hnames e (by simp) m hdata]
      | addUser m => exact howner (hopened.init (by simp [hdata]))
      | chatMessage m => exact howner (hopened.init (by simp [hdata]))
    · rcases List.mem_append.mp hx with hx | hx
      · exact hadds x hx m hm
      · rw [List.mem_singleton.mp hx] at hm ⊢
        rw [hm] at hallowed
        have hsame := howner (h.opened (Or.inl hallowed.1))
        rw [hallowed.1] at hsame
        exact Option.some.inj hsame
  | store log ch storage _ ih => exact ih hnames

/-- The first sequence of a node is not above any message of its own. -/
theorem Story.first_le (h : Story channelId creator log ch) {n : NodeId} {r : NodeSequence P}
    (hr : ch.state.record n = some r) :
    (r.firstSequence = 0 → r.sequence = 0) ∧ r.firstSequence ≤ r.sequence ∧
      ∀ e ∈ log, e.sender = n → r.firstSequence.val ≤ e.seq := by
  induction h generalizing r with
  | new ch hstate _ =>
    rw [ChannelState.new_record hstate] at hr
    split_ifs at hr
    cases hr
    exact ⟨fun _ => rfl,le_refl _,by simp⟩
  | accept log ch ch' crypto e maxSequence h _ haccepted ih =>
    rcases haccepted.record_cases hr with ⟨hn,r0,hr0,rfl⟩ | ⟨hn,hr0⟩ | ⟨key,rfl⟩
    · obtain ⟨hzero,hlast,hfirst⟩ := ih hr0
      obtain ⟨r1,hr1,hlt,_⟩ := haccepted.receivable
      rw [hn,hr0] at hr1
      cases hr1
      have hseq : r0.sequence.val < e.seq := hlt
      rw [Fin.le_def] at hlast
      by_cases h0 : r0.firstSequence = 0
      · -- nothing of the node has come before
        have hnone : ∀ x ∈ log, x.sender ≠ n := by
          intro x hx hsender
          obtain ⟨hreached,hchain⟩ := h.chained n
          have hmem : x ∈ entriesOf n log := mem_byAuthor.mpr ⟨hx,hsender⟩
          have hpos := hchain.start_lt hmem
          have hle := hchain.le_tip hmem
          rw [←hreached,ChannelState.sequenceOf_eq hr0,hzero h0,Fin.val_zero] at hle
          omega
        simp only [ChannelState.receivedRecord,h0,if_true]
        refine ⟨fun h => h,le_refl _,fun x hx hsender => ?_⟩
        rcases List.mem_append.mp hx with hx | hx
        · exact absurd hsender (hnone x hx)
        · rw [List.mem_singleton.mp hx]
          exact le_refl _
      · simp only [ChannelState.receivedRecord,h0,if_false]
        refine ⟨fun h => h.elim,le_of_lt (lt_of_le_of_lt hlast hseq),fun x hx hsender => ?_⟩
        rcases List.mem_append.mp hx with hx | hx
        · exact hfirst x hx hsender
        · rw [List.mem_singleton.mp hx]
          omega
    · obtain ⟨hzero,hlast,hfirst⟩ := ih hr0
      refine ⟨hzero,hlast,fun x hx hsender => ?_⟩
      rcases List.mem_append.mp hx with hx | hx
      · exact hfirst x hx hsender
      · rw [List.mem_singleton.mp hx] at hsender
        exact absurd hsender hn
    · exact ⟨fun _ => rfl,le_refl _,fun x _ _ => Nat.zero_le _⟩
  | store log ch storage _ ih => exact ih hr

/-- The sender of a message is in the table, which has taken the message in. -/
theorem Story.recorded (h : Story channelId creator log ch) {e : Entry P} (he : e ∈ log) :
    ∃ r, ch.state.record e.sender = some r ∧ r.firstSequence ≤ e.message.sequence ∧ e.seq ≤ r.sequence.val := by
  obtain ⟨hreached,hchain⟩ := h.chained e.sender
  have hmem : e ∈ entriesOf e.sender log := mem_byAuthor.mpr ⟨he,rfl⟩
  have hpos := hchain.start_lt hmem
  have hle := hchain.le_tip hmem
  cases hr : ch.state.record e.sender with
  | none =>
    rw [ChannelState.sequenceOf_unknown hr] at hreached
    omega
  | some r =>
    rw [ChannelState.sequenceOf_eq hr] at hreached
    exact ⟨r,rfl,(h.first_le hr).2.2 e he rfl,by omega⟩

end Channel

end Finder
