import Finder.Channel.Steps

namespace Finder

/-- The operations that change a channel's table. -/
inductive TableOp (P T : Type) where
  | receive (sender : NodeId) (message : Message T) (id : EnvelopeId)
  | addNode (node : NodeId) (nodeKey : P)

namespace ChannelState

variable {maxNodes : Nat} {P T : Type}

def perform : TableOp P T → Call (ChannelState maxNodes P) ChannelError Unit
  | .receive sender message id => do
    let _ ← receive sender message id
    pure ()
  | .addNode node nodeKey => addNode node nodeKey

/-- A run in which every operation succeeds. -/
def runOps : List (TableOp P T) → ChannelState maxNodes P → Option (ChannelState maxNodes P)
  | [],st => some st
  | op::ops,st =>
    match perform op st with
    | (.ok _,st') => runOps ops st'
    | _ => none

theorem runOps_cons {op : TableOp P T} {ops : List (TableOp P T)} {st st' : ChannelState maxNodes P} :
    runOps (op::ops) st = some st' ↔ ∃ u, perform op st = (.ok (),u) ∧ runOps ops u = some st' := by
  rw [runOps]
  rcases h : perform op st with ⟨_ | _ | _,u⟩ <;> simp

/-- What a successful run leaves, told by the operations in it and not by their order. -/
structure Summary (creator : NodeId) (creatorKey : P) (ops : List (TableOp P T))
    (st : ChannelState maxNodes P) : Prop where
  valid : st.Valid
  started : ∃ r, st.record creator = some r ∧ r.publicKey = creatorKey
  added : ∀ n k, .addNode n k ∈ ops → n ≠ creator ∧ ∃ r, st.record n = some r ∧ r.publicKey = k
  known : ∀ n r, st.record n = some r → n = creator ∨ ∃ k, .addNode n k ∈ ops
  positive : ∀ n m id, .receive n m id ∈ ops → 0 < m.sequence
  once : ∀ n m id m' id', .receive n m id ∈ ops → .receive n m' id' ∈ ops →
    m.sequence = m'.sequence → m = m' ∧ id = id'
  idle : ∀ n r, st.record n = some r → (∀ m id, .receive n m id ∉ ops) →
    r.sequence = 0 ∧ r.id = EnvelopeId.zero ∧ r.firstSequence = 0
  within : ∀ n m id, .receive n m id ∈ ops → ∃ r, st.record n = some r ∧
    m.sequence ≤ r.sequence ∧ r.firstSequence ≤ m.sequence
  reached : ∀ n r, st.record n = some r → r.sequence ≠ 0 →
    (∃ m, .receive n m r.id ∈ ops ∧ m.sequence = r.sequence) ∧
    ∃ m id, .receive n m id ∈ ops ∧ m.sequence = r.firstSequence
  untouched : (∀ n m id, .receive n m id ∉ ops) → st.newest = creator

namespace Summary

variable {creator : NodeId} {creatorKey : P} {ops : List (TableOp P T)} {st st' : ChannelState maxNodes P}

theorem start (h : ChannelState.new creator creatorKey = .ok st) :
    Summary creator creatorKey ([] : List (TableOp P T)) st := by
  have hrec := new_record h
  refine ⟨new_valid h,⟨_,by rw [hrec,if_pos rfl],rfl⟩,by simp,?_,by simp,by simp,?_,by simp,?_,
    fun _ => (new_eq_ok h).1⟩
  · intro n r hr
    rw [hrec] at hr
    split_ifs at hr with hn
    exact Or.inl hn.symm
  · intro n r hr _
    rw [hrec] at hr
    split_ifs at hr
    cases hr
    exact ⟨rfl,rfl,rfl⟩
  · intro n r hr hne
    rw [hrec] at hr
    split_ifs at hr
    cases hr
    exact absurd rfl hne

/-- Only which operations occur matters. -/
theorem congr {ops' : List (TableOp P T)} (h : Summary creator creatorKey ops st)
    (hm : ∀ op, op ∈ ops ↔ op ∈ ops') : Summary creator creatorKey ops' st where
  valid := h.valid
  started := h.started
  added n k hk := h.added n k ((hm _).mpr hk)
  known n r hr := (h.known n r hr).imp_right (fun ⟨k,hk⟩ => ⟨k,(hm _).mp hk⟩)
  positive n m id hr := h.positive n m id ((hm _).mpr hr)
  once n m id m' id' hr hr' := h.once n m id m' id' ((hm _).mpr hr) ((hm _).mpr hr')
  idle n r hr hno := h.idle n r hr (fun m id hmem => hno m id ((hm _).mp hmem))
  within n m id hr := h.within n m id ((hm _).mpr hr)
  reached n r hr hne := by
    obtain ⟨⟨m,hmem,hs⟩,m',id',hmem',hs'⟩ := h.reached n r hr hne
    exact ⟨⟨m,(hm _).mp hmem,hs⟩,m',id',(hm _).mp hmem',hs'⟩
  untouched hno := h.untouched (fun n m id hmem => hno n m id ((hm _).mp hmem))

/-- The record of a node that has been heard starts and ends at messages of the run. -/
theorem heard (h : Summary creator creatorKey ops st) {n : NodeId} {r : NodeSequence P}
    (hr : st.record n = some r) {m : Message T} {id : EnvelopeId} (hmem : .receive n m id ∈ ops) :
    r.sequence ≠ 0 ∧ r.firstSequence ≠ 0 ∧ m.sequence ≤ r.sequence ∧ r.firstSequence ≤ m.sequence := by
  obtain ⟨r',hr',hle,hfirst⟩ := h.within n m id hmem
  obtain rfl : r' = r := Option.some.inj (hr'.symm.trans hr)
  have hpos := h.positive n m id hmem
  have hne : r'.sequence ≠ 0 := ne_of_gt (lt_of_lt_of_le hpos hle)
  obtain ⟨_,m',id',hmem',hs'⟩ := h.reached n r' hr hne
  exact ⟨hne,hs' ▸ ne_of_gt (h.positive n m' id' hmem'),hle,hfirst⟩

theorem first_le (h : Summary creator creatorKey ops st) {n : NodeId} {r : NodeSequence P}
    (hr : st.record n = some r) : r.firstSequence ≤ r.sequence := by
  by_cases hne : r.sequence = 0
  · have hno : ∀ m id, (.receive n m id : TableOp P T) ∉ ops :=
      fun m id hmem => (h.heard hr hmem).1 hne
    rw [(h.idle n r hr hno).2.2]
    exact Fin.zero_le _
  · obtain ⟨_,m,id,hmem,hs⟩ := h.reached n r hr hne
    exact hs ▸ (h.heard hr hmem).2.2.1

/-- One received message extends the summary by itself. -/
theorem receive (h : Summary creator creatorKey ops st) {sender : NodeId} {message : Message T}
    {id : EnvelopeId} {maxSequence : U64} (hstep : st.Received st' sender message id maxSequence) :
    Summary creator creatorKey (ops ++ [.receive sender message id]) st' := by
  obtain ⟨r,hr,hrec⟩ := hstep.records
  obtain ⟨r',hr',hlt,-,-⟩ := hstep.receivable
  obtain rfl : r' = r := Option.some.inj (hr'.symm.trans hr)
  have hself : st'.record sender = some (receivedRecord r' message id) := by rw [hrec,if_pos rfl]
  have hother : ∀ n, sender ≠ n → st'.record n = st.record n := fun n hn => by rw [hrec,if_neg hn]
  have hpos : 0 < message.sequence := lt_of_le_of_lt (Fin.zero_le _) hlt
  have mem : ∀ n m i, (.receive n m i : TableOp P T) ∈ ops ++ [.receive sender message id] ↔
      .receive n m i ∈ ops ∨ (n = sender ∧ m = message ∧ i = id) := by simp
  have memAdd : ∀ n k, (.addNode n k : TableOp P T) ∈ ops ++ [.receive sender message id] ↔
      .addNode n k ∈ ops := by simp
  have key : ∀ n x, st.record n = some x → ∃ y, st'.record n = some y ∧ y.publicKey = x.publicKey := by
    intro n x hx
    by_cases hn : sender = n
    · subst hn
      exact ⟨_,hself,by rw [Option.some.inj (hx.symm.trans hr)]; rfl⟩
    · exact ⟨x,by rw [hother n hn,hx],rfl⟩
  have older : ∀ m i, (.receive sender m i : TableOp P T) ∈ ops → m.sequence < message.sequence :=
    fun m i hm => lt_of_le_of_lt (h.heard hr hm).2.2.1 hlt
  refine ⟨hstep.valid h.valid,?_,?_,?_,?_,?_,?_,?_,?_,?_⟩
  · obtain ⟨x,hx,hk⟩ := h.started
    obtain ⟨y,hy,hyk⟩ := key _ x hx
    exact ⟨y,hy,hyk.trans hk⟩
  · intro n k hk
    obtain ⟨hne,x,hx,hxk⟩ := h.added n k ((memAdd n k).mp hk)
    obtain ⟨y,hy,hyk⟩ := key _ x hx
    exact ⟨hne,y,hy,hyk.trans hxk⟩
  · intro n x hx
    have hsome : ∃ y, st.record n = some y :=
      Option.isSome_iff_exists.mp ((hstep.knows n).mp (by rw [hx]; rfl))
    obtain ⟨y,hy⟩ := hsome
    exact (h.known n y hy).imp_right (fun ⟨k,hk⟩ => ⟨k,(memAdd n k).mpr hk⟩)
  · intro n m i hm
    rcases (mem n m i).mp hm with hm | ⟨_,rfl,_⟩
    · exact h.positive n m i hm
    · exact hpos
  · intro n m i m' i' hm hm' heq
    rcases (mem n m i).mp hm with hold | ⟨rfl,rfl,rfl⟩ <;>
      rcases (mem _ m' i').mp hm' with hold' | ⟨hs,rfl,rfl⟩
    · exact h.once n m i m' i' hold hold' heq
    · subst hs
      exact absurd heq (ne_of_lt (older m i hold))
    · exact absurd heq.symm (ne_of_lt (older m' i' hold'))
    · exact ⟨rfl,rfl⟩
  · intro n x hx hno
    have hn : sender ≠ n := fun hn => hno message id ((mem n _ _).mpr (Or.inr ⟨hn.symm,rfl,rfl⟩))
    rw [hother n hn] at hx
    exact h.idle n x hx (fun m i hm => hno m i ((mem n m i).mpr (Or.inl hm)))
  · intro n m i hm
    rcases (mem n m i).mp hm with hm | ⟨rfl,rfl,rfl⟩
    · obtain ⟨x,hx,hle,hfirst⟩ := h.within n m i hm
      by_cases hn : sender = n
      · subst hn
        obtain rfl : x = r' := Option.some.inj (hx.symm.trans hr)
        refine ⟨_,hself,le_of_lt (older m i hm),?_⟩
        simp only [receivedRecord,if_neg (h.heard hr hm).2.1]
        exact hfirst
      · exact ⟨x,by rw [hother n hn,hx],hle,hfirst⟩
    · refine ⟨_,hself,le_refl _,?_⟩
      simp only [receivedRecord]
      split_ifs
      · exact le_refl _
      · exact (h.first_le hr).trans (le_of_lt hlt)
  · intro n x hx hne
    by_cases hn : sender = n
    · subst hn
      rw [hself] at hx
      cases hx
      refine ⟨⟨message,(mem _ _ _).mpr (Or.inr ⟨rfl,rfl,rfl⟩),rfl⟩,?_⟩
      simp only [receivedRecord]
      split_ifs with hz
      · exact ⟨message,id,(mem _ _ _).mpr (Or.inr ⟨rfl,rfl,rfl⟩),rfl⟩
      · have hseq : r'.sequence ≠ 0 := fun h0 => hz <| Fin.ext (Nat.le_zero.mp (by
          have hle := h.first_le hr
          rw [h0] at hle
          exact hle))
        obtain ⟨_,m,i,hm,hs⟩ := h.reached sender r' hr hseq
        exact ⟨m,i,(mem _ _ _).mpr (Or.inl hm),hs⟩
    · rw [hother n hn] at hx
      obtain ⟨⟨m,hm,hs⟩,m',i',hm',hs'⟩ := h.reached n x hx hne
      exact ⟨⟨m,(mem _ _ _).mpr (Or.inl hm),hs⟩,m',i',(mem _ _ _).mpr (Or.inl hm'),hs'⟩
  · intro hno
    exact absurd ((mem _ _ _).mpr (Or.inr ⟨rfl,rfl,rfl⟩)) (hno sender message id)

/-- One added node extends the summary by itself. -/
theorem addNode (h : Summary creator creatorKey ops st) {node : NodeId} {nodeKey : P}
    (hstep : st.Added st' node nodeKey) :
    Summary creator creatorKey (ops ++ [.addNode node nodeKey]) st' := by
  have hself : st'.record node = some (freshRecord node nodeKey) := by rw [hstep.records,if_pos rfl]
  have hother : ∀ n x, st.record n = some x → st'.record n = some x := fun n x hx => by
    have hn : node ≠ n := fun hn => by
      have hu := hstep.unknown
      rw [hn,hx] at hu
      cases hu
    rw [hstep.records,if_neg hn,hx]
  have back : ∀ n x, st'.record n = some x →
      st.record n = some x ∨ (n = node ∧ x = freshRecord node nodeKey) := by
    intro n x hx
    rw [hstep.records] at hx
    split_ifs at hx with hn
    · exact Or.inr ⟨hn.symm,(Option.some.inj hx).symm⟩
    · exact Or.inl hx
  have mem : ∀ n m i, (.receive n m i : TableOp P T) ∈ ops ++ [.addNode node nodeKey] ↔
      .receive n m i ∈ ops := by simp
  have memAdd : ∀ n k, (.addNode n k : TableOp P T) ∈ ops ++ [.addNode node nodeKey] ↔
      .addNode n k ∈ ops ∨ (n = node ∧ k = nodeKey) := by simp
  refine ⟨hstep.valid h.valid,?_,?_,?_,?_,?_,?_,?_,?_,?_⟩
  · obtain ⟨x,hx,hk⟩ := h.started
    exact ⟨x,hother _ x hx,hk⟩
  · intro n k hk
    rcases (memAdd n k).mp hk with hk | ⟨rfl,rfl⟩
    · obtain ⟨hne,x,hx,hxk⟩ := h.added n k hk
      exact ⟨hne,x,hother n x hx,hxk⟩
    · refine ⟨fun he => ?_,_,hself,rfl⟩
      obtain ⟨x,hx,_⟩ := h.started
      have hu := hstep.unknown
      rw [he,hx] at hu
      cases hu
  · intro n x hx
    rcases back n x hx with hx | ⟨rfl,_⟩
    · exact (h.known n x hx).imp_right (fun ⟨k,hk⟩ => ⟨k,(memAdd n k).mpr (Or.inl hk)⟩)
    · exact Or.inr ⟨nodeKey,(memAdd _ _).mpr (Or.inr ⟨rfl,rfl⟩)⟩
  · exact fun n m i hm => h.positive n m i ((mem n m i).mp hm)
  · exact fun n m i m' i' hm hm' => h.once n m i m' i' ((mem n m i).mp hm) ((mem n m' i').mp hm')
  · intro n x hx hno
    rcases back n x hx with hx | ⟨_,rfl⟩
    · exact h.idle n x hx (fun m i hm => hno m i ((mem n m i).mpr hm))
    · exact ⟨rfl,rfl,rfl⟩
  · intro n m i hm
    obtain ⟨x,hx,hle⟩ := h.within n m i ((mem n m i).mp hm)
    exact ⟨x,hother n x hx,hle⟩
  · intro n x hx hne
    rcases back n x hx with hx | ⟨_,rfl⟩
    · obtain ⟨⟨m,hm,hs⟩,m',i',hm',hs'⟩ := h.reached n x hx hne
      exact ⟨⟨m,(mem _ _ _).mpr hm,hs⟩,m',i',(mem _ _ _).mpr hm',hs'⟩
    · exact absurd rfl hne
  · intro hno
    exact hstep.newest.trans (h.untouched (fun n m i hm => hno n m i ((mem n m i).mpr hm)))

theorem perform (h : Summary creator creatorKey ops st) {op : TableOp P T}
    (hop : ChannelState.perform op st = (.ok (),st')) :
    Summary creator creatorKey (ops ++ [op]) st' := by
  cases op with
  | receive sender message id =>
    obtain ⟨maxSequence,u,hrec,hu⟩ := Call.bind_eq_ok.mp hop
    cases hu
    exact h.receive (h.valid.receive_ok hrec)
  | addNode node nodeKey => exact h.addNode (h.valid.sorted.addNode_ok hop)

theorem runOps (h : Summary creator creatorKey ops st) {ops' : List (TableOp P T)}
    (hrun : ChannelState.runOps ops' st = some st') :
    Summary creator creatorKey (ops ++ ops') st' := by
  induction ops' generalizing ops st with
  | nil =>
    cases hrun
    simpa using h
  | cons op ops' ih =>
    obtain ⟨u,hu,hrest⟩ := runOps_cons.mp hrun
    simpa using ih (h.perform hu) hrest

/-- The newest node sent the greatest of all messages of the run. -/
theorem newest_greatest (h : Summary creator creatorKey ops st) {n : NodeId} {m : Message T}
    {id : EnvelopeId} (hmem : .receive n m id ∈ ops) :
    ∃ m' id', .receive st.newest m' id' ∈ ops ∧ ∀ n' x i, .receive n' x i ∈ ops →
      toLex (x.sequence,i) ≤ toLex (m'.sequence,id') := by
  obtain ⟨c,hc,hmax⟩ := h.valid.newest
  have bound : ∀ n' x i, .receive n' x i ∈ ops → toLex (x.sequence,i) ≤ c.stamp := by
    intro n' x i hx
    obtain ⟨r,hr,hle,_⟩ := h.within n' x i hx
    refine le_trans ?_ (hmax n' r hr)
    rcases hle.lt_or_eq with hlt | heq
    · exact Prod.Lex.le_iff.mpr (Or.inl hlt)
    · obtain ⟨⟨y,hy,hys⟩,_⟩ := h.reached n' r hr (h.heard hr hx).1
      rw [(h.once n' x i y r.id hx hy (heq.trans hys.symm)).2]
      exact Prod.Lex.le_iff.mpr (Or.inr ⟨heq,le_refl _⟩)
  have hne : c.sequence ≠ 0 := by
    obtain ⟨r,hr,_⟩ := h.within n m id hmem
    have hle := NodeSequence.sequence_le_of_stamp_le (hmax n r hr)
    intro h0
    rw [h0] at hle
    exact (h.heard hr hmem).1 (Fin.le_zero_iff.mp hle)
  obtain ⟨⟨m',hm',hs⟩,_⟩ := h.reached st.newest c hc hne
  refine ⟨m',c.id,hm',fun n' x i hx => ?_⟩
  rw [hs]
  exact bound n' x i hx

theorem record_unique (h : Summary creator creatorKey ops st) (h' : Summary creator creatorKey ops st')
    {n : NodeId} {r r' : NodeSequence P} (hr : st.record n = some r) (hr' : st'.record n = some r') :
    r = r' := by
  have hkey : r.publicKey = r'.publicKey := by
    rcases h.known n r hr with rfl | ⟨k,hk⟩
    · obtain ⟨x,hx,hxk⟩ := h.started
      obtain ⟨x',hx',hxk'⟩ := h'.started
      rw [Option.some.inj (hr.symm.trans hx),Option.some.inj (hr'.symm.trans hx'),hxk,hxk']
    · obtain ⟨_,x,hx,hxk⟩ := h.added n k hk
      obtain ⟨_,x',hx',hxk'⟩ := h'.added n k hk
      rw [Option.some.inj (hr.symm.trans hx),Option.some.inj (hr'.symm.trans hx'),hxk,hxk']
  have hnode : r.node = r'.node := (record_node hr).trans (record_node hr').symm
  have hrest : r.sequence = r'.sequence ∧ r.id = r'.id ∧ r.firstSequence = r'.firstSequence := by
    by_cases hany : ∃ m id, (.receive n m id : TableOp P T) ∈ ops
    · obtain ⟨m,id,hm⟩ := hany
      have hh := h.heard hr hm
      have hh' := h'.heard hr' hm
      obtain ⟨⟨a,ha,has⟩,b,bi,hb,hbs⟩ := h.reached n r hr hh.1
      obtain ⟨⟨a',ha',has'⟩,b',bi',hb',hbs'⟩ := h'.reached n r' hr' hh'.1
      have hseq : r.sequence = r'.sequence :=
        le_antisymm (has ▸ (h'.heard hr' ha).2.2.1) (has' ▸ (h.heard hr ha').2.2.1)
      refine ⟨hseq,(h.once n a r.id a' r'.id ha ha' (has.trans (hseq.trans has'.symm))).2,?_⟩
      exact le_antisymm (hbs' ▸ (h.heard hr hb').2.2.2) (hbs ▸ (h'.heard hr' hb).2.2.2)
    · have hno : ∀ m id, (.receive n m id : TableOp P T) ∉ ops := fun m id hm => hany ⟨m,id,hm⟩
      have hi := h.idle n r hr hno
      have hi' := h'.idle n r' hr' hno
      exact ⟨hi.1.trans hi'.1.symm,hi.2.1.trans hi'.2.1.symm,hi.2.2.trans hi'.2.2.symm⟩
  obtain ⟨hseq,hid,hfirst⟩ := hrest
  cases r
  cases r'
  simp_all

/-- The summary determines the state where envelope ids tell messages apart. -/
theorem unique (h : Summary creator creatorKey ops st) (h' : Summary creator creatorKey ops st')
    (hids : ∀ n m n' m' id, .receive n m id ∈ ops → .receive n' m' id ∈ ops → n = n' ∧ m = m') :
    st = st' := by
  have transfer : ∀ {u v : ChannelState maxNodes P}, Summary creator creatorKey ops u →
      Summary creator creatorKey ops v → ∀ n r, u.record n = some r → v.record n = some r := by
    intro u v hu hv n r hr
    have hsome : ∃ r', v.record n = some r' := by
      rcases hu.known n r hr with rfl | ⟨k,hk⟩
      · obtain ⟨x,hx,_⟩ := hv.started
        exact ⟨x,hx⟩
      · obtain ⟨_,x,hx,_⟩ := hv.added n k hk
        exact ⟨x,hx⟩
    obtain ⟨r',hr'⟩ := hsome
    rw [hr',hu.record_unique hv hr hr']
  refine h.valid.sorted.ext h'.valid.sorted (fun n => Option.ext (fun r =>
    ⟨transfer h h' n r,transfer h' h n r⟩)) ?_
  by_cases hany : ∃ n m id, (.receive n m id : TableOp P T) ∈ ops
  · obtain ⟨n,m,id,hm⟩ := hany
    obtain ⟨a,i,ha,hmax⟩ := h.newest_greatest hm
    obtain ⟨a',i',ha',hmax'⟩ := h'.newest_greatest hm
    have heq := le_antisymm (hmax' _ _ _ ha) (hmax _ _ _ ha')
    have hi : i = i' := congrArg (fun p => (ofLex p).2) heq
    subst hi
    exact (hids _ _ _ _ _ ha ha').1
  · have hno : ∀ n m id, (.receive n m id : TableOp P T) ∉ ops := fun n m id hm => hany ⟨n,m,id,hm⟩
    exact (h.untouched hno).trans (h'.untouched hno).symm

end Summary

/-- Two successful runs of the same operations in any two orders end in the same state. -/
theorem runOps_order_independent {creator : NodeId} {creatorKey : P} {start st st' : ChannelState maxNodes P}
    {ops ops' : List (TableOp P T)} (hstart : ChannelState.new creator creatorKey = .ok start)
    (hrun : runOps ops start = some st) (hrun' : runOps ops' start = some st')
    (hsame : ∀ op, op ∈ ops ↔ op ∈ ops')
    (hids : ∀ n m n' m' id id', .receive n m id ∈ ops → .receive n' m' id' ∈ ops →
      (n,m) ≠ (n',m') → id ≠ id') : st = st' := by
  have h := (Summary.start hstart).runOps hrun
  have h' := (Summary.start hstart).runOps hrun'
  rw [List.nil_append] at h h'
  refine h.unique (h'.congr (fun op => (hsame op).symm)) (fun n m n' m' id hm hm' => ?_)
  by_contra hne
  refine hids n m n' m' id id hm hm' (fun heq => hne ?_) rfl
  exact Prod.mk.inj heq

/-- Two members speak at once, and the messages arrive in either order. -/
theorem runOps_two_orders :
    ∃ start st st' : ChannelState 2 Nat,
      ChannelState.new ⟨Id.ofByte 1⟩ 10 = .ok start ∧
      runOps [.addNode ⟨Id.ofByte 2⟩ 20,.receive ⟨Id.ofByte 1⟩ ⟨⟨Id.ofByte 1⟩,0,1,'a'⟩ ⟨Id.ofByte 5⟩,
        .receive ⟨Id.ofByte 2⟩ ⟨⟨Id.ofByte 1⟩,0,1,'b'⟩ ⟨Id.ofByte 6⟩] start = some st ∧
      runOps [.addNode ⟨Id.ofByte 2⟩ 20,.receive ⟨Id.ofByte 2⟩ ⟨⟨Id.ofByte 1⟩,0,1,'b'⟩ ⟨Id.ofByte 6⟩,
        .receive ⟨Id.ofByte 1⟩ ⟨⟨Id.ofByte 1⟩,0,1,'a'⟩ ⟨Id.ofByte 5⟩] start = some st' ∧
      st = st' := by
  let start : ChannelState 2 Nat := ⟨⟨[freshRecord ⟨Id.ofByte 1⟩ 10],by decide⟩,⟨Id.ofByte 1⟩⟩
  have hstart : ChannelState.new ⟨Id.ofByte 1⟩ 10 = .ok start := rfl
  obtain ⟨st,hst⟩ : ∃ st, runOps [.addNode ⟨Id.ofByte 2⟩ 20,
      .receive ⟨Id.ofByte 1⟩ ⟨⟨Id.ofByte 1⟩,0,1,'a'⟩ ⟨Id.ofByte 5⟩,
      .receive ⟨Id.ofByte 2⟩ ⟨⟨Id.ofByte 1⟩,0,1,'b'⟩ ⟨Id.ofByte 6⟩] start = some st :=
    Option.isSome_iff_exists.mp (by decide)
  obtain ⟨st',hst'⟩ : ∃ st', runOps [.addNode ⟨Id.ofByte 2⟩ 20,
      .receive ⟨Id.ofByte 2⟩ ⟨⟨Id.ofByte 1⟩,0,1,'b'⟩ ⟨Id.ofByte 6⟩,
      .receive ⟨Id.ofByte 1⟩ ⟨⟨Id.ofByte 1⟩,0,1,'a'⟩ ⟨Id.ofByte 5⟩] start = some st' :=
    Option.isSome_iff_exists.mp (by decide)
  refine ⟨start,st,st',hstart,hst,hst',
    runOps_order_independent hstart hst hst' (fun op => ?_) ?_⟩
  · simp only [List.mem_cons,List.not_mem_nil,or_false]
    tauto
  · intro n m n' m' id id' hm hm' hne
    simp only [List.mem_cons,List.not_mem_nil,or_false,reduceCtorEq,false_or,
      TableOp.receive.injEq] at hm hm'
    rcases hm with ⟨rfl,rfl,rfl⟩ | ⟨rfl,rfl,rfl⟩ <;> rcases hm' with ⟨rfl,rfl,rfl⟩ | ⟨rfl,rfl,rfl⟩
    · exact absurd rfl hne
    · decide
    · decide
    · exact absurd rfl hne

end ChannelState

end Finder
