import Finder.Protocol.HeapType

namespace Finder

namespace StaticAllocation

variable {K T : Type} {static : StaticAllocation T}

section Alone

variable {i : Place} {s t u : StaticAllocation T} {r : Outcome GuardCellError Unit}

/-- What the closure has done at each place, if it found the cell not borrowed. -/
inductive Inside (s : StaticAllocation T) : Place → StaticAllocation T → Prop
  | borrow : Inside s .borrow s
  | check : Inside s .check { s with borrowed := true }
  | take (hfree : s.cell.taken = false) : Inside s .take { s with borrowed := true }
  | refused (htaken : s.cell.taken = true) : Inside s (.release (.err .alreadyUsed)) { s with borrowed := true }
  | given (hfree : s.cell.taken = false) :
      Inside s (.release (.ok ())) { s with borrowed := true, cell := { s.cell with taken := true } }

theorem takeMutSteps_inside (hborrowed : s.borrowed = false) (h : takeMutSteps.Reaches s i t) : Inside s i t := by
  induction h with
  | start => exact .borrow
  | move i j t u _ hstep ih =>
    cases ih with
    | borrow =>
      simp only [takeMutSteps,hborrowed] at hstep
      cases hstep
      exact .check
    | check =>
      cases htaken : s.cell.taken with
      | false =>
        simp only [takeMutSteps,htaken] at hstep
        cases hstep
        exact .take htaken
      | true =>
        simp only [takeMutSteps,htaken] at hstep
        cases hstep
        exact .refused htaken
    | take hfree =>
      cases hstep
      exact .given hfree
    | refused htaken => cases hstep
    | given hfree => cases hstep

/-- Run alone, the steps are the closure. -/
theorem takeMutSteps_runs (hborrowed : s.borrowed = false) (h : takeMutSteps.Runs s r u) : takeMut s = (r,u) := by
  obtain ⟨i,t,hreaches,hstep⟩ := h
  obtain ⟨borrowed,taken,data⟩ := s
  obtain rfl : borrowed = false := hborrowed
  cases takeMutSteps_inside rfl hreaches with
  | borrow => cases hstep
  | check =>
    cases taken
    · cases hstep
    · cases hstep
  | take hfree => cases hstep
  | refused htaken =>
    obtain rfl : taken = true := htaken
    cases hstep
    rfl
  | given hfree =>
    obtain rfl : taken = false := hfree
    cases hstep
    rfl

/-- Of calls one after the other the first one gets the data, and all others are told so. -/
theorem takeMutSteps_serial {initial : T} {done : List (K × Outcome GuardCellError Unit)}
    (h : takeMutSteps.Serial (wrap initial) done s) : s = { borrowed := false, cell := ⟨!done.isEmpty,initial⟩ } ∧
    done.map Prod.snd = (List.replicate done.length (.err .alreadyUsed)).set 0 (.ok ()) := by
  induction h with
  | nil => exact ⟨rfl,rfl⟩
  | call done t u k r _ hrun ih =>
    obtain ⟨rfl,hresults⟩ := ih
    have hcall := takeMutSteps_runs rfl hrun
    cases done with
    | nil =>
      cases hcall
      exact ⟨rfl,rfl⟩
    | cons first done =>
      cases hcall
      refine ⟨rfl,?_⟩
      rw [List.map_append,hresults,List.length_append,List.length_singleton,List.replicate_succ']
      rfl

end Alone

section Shared

variable [DecidableEq K]

/-- The callers of `take_mut` on one static, one step of one of them after the other, with all that is written through
the references they have got. -/
inductive Used (initial : T) :
    CriticalSection K (StaticAllocation T) Place (Outcome GuardCellError Unit) → List (K × T) → Prop
  | wrap : Used initial (.new (wrap initial)) []
  | call (s s' : CriticalSection K (StaticAllocation T) Place (Outcome GuardCellError Unit)) (writes : List (K × T))
      (h : Used initial s writes) (hstep : CriticalSection.Step takeMutSteps s s') : Used initial s' writes
  | write (s : CriticalSection K (StaticAllocation T) Place (Outcome GuardCellError Unit)) (writes : List (K × T))
      (k : K) (data : T) (h : Used initial s writes) (hown : s.phase k = .left (.ok ())) :
      Used initial { s with shared := { s.shared with cell := { s.shared.cell with data := data } } }
        (writes ++ [(k,data)])

variable {initial : T} {s : CriticalSection K (StaticAllocation T) Place (Outcome GuardCellError Unit)}
  {writes : List (K × T)}

/-- The data apart. -/
def guard (static : StaticAllocation T) : StaticAllocation Unit := ⟨static.borrowed,⟨static.cell.taken,()⟩⟩

theorem takeMutSteps_guard (i : Place) (static : StaticAllocation T) :
    takeMutSteps.step i static.guard = ((takeMutSteps.step i static).1,(takeMutSteps.step i static).2.guard) := by
  obtain ⟨borrowed,taken,data⟩ := static
  cases i with
  | borrow => cases borrowed <;> rfl
  | check => cases taken <;> rfl
  | take => rfl
  | release result => rfl

theorem takeMutSteps_data (i : Place) (static : StaticAllocation T) :
    (takeMutSteps.step i static).2.cell.data = static.cell.data := by
  obtain ⟨borrowed,taken,data⟩ := static
  cases i with
  | borrow => cases borrowed <;> rfl
  | check => cases taken <;> rfl
  | take => rfl
  | release result => rfl

/-- What is written makes no difference to the callers. -/
theorem Used.guarded (h : Used initial s writes) :
    Relation.ReflTransGen (CriticalSection.Step takeMutSteps) (.new (StaticAllocation.wrap ())) (s.map guard) := by
  induction h with
  | wrap => exact .refl
  | call s s' writes _ hstep ih => exact ih.tail (hstep.map rfl takeMutSteps_guard)
  | write s writes k data _ _ ih => exact ih

theorem Used.written (h : Used initial s writes) : (∀ w ∈ writes, s.phase w.1 = .left (.ok ())) ∧
    s.shared.cell.data = (writes.getLast?.map Prod.snd).getD initial := by
  induction h with
  | wrap => exact ⟨by simp,rfl⟩
  | call s s' writes _ hstep ih =>
    obtain ⟨howned,hdata⟩ := ih
    have hsame : s'.shared.cell.data = s.shared.cell.data := hstep.shared_keeps (fun static => static.cell.data) takeMutSteps_data
    exact ⟨fun w hw => hstep.left_stays (howned w hw),hsame.trans hdata⟩
  | write s writes k data _ hown ih =>
    refine ⟨fun w hw => ?_,by simp⟩
    rcases List.mem_append.mp hw with hw | hw
    · exact ih.1 w hw
    · rw [List.mem_singleton.mp hw]
      exact hown

/-- However the steps of its callers come, a static is given away once: nobody panics, whoever does not get it is
told that it is in use, somebody has got it as soon as anybody is back, and all that is ever written to it is written by
that one, whose last write it holds. -/
theorem Used.one_owner (h : Used initial s writes) :
    (∀ k r, s.phase k = .left r → r = .ok () ∨ r = .err .alreadyUsed) ∧
    (∀ k k', s.phase k = .left (.ok ()) → s.phase k' = .left (.ok ()) → k = k') ∧
    ((∃ k r, s.phase k = .left r) → ∃ owner, s.phase owner = .left (.ok ()) ∧ ∀ w ∈ writes, w.1 = owner) ∧
    s.shared.cell.data = (writes.getLast?.map Prod.snd).getD initial := by
  obtain ⟨done,hdone⟩ := CriticalSection.serialized h.guarded
  obtain ⟨t,hserial⟩ : ∃ t, takeMutSteps.Serial (StaticAllocation.wrap ()) done t := by
    cases hholder : s.holder with
    | none => exact ⟨_,(hdone.free hholder).1⟩
    | some k =>
      obtain ⟨t,_,hserial,_⟩ := hdone.held k hholder
      exact ⟨t,hserial⟩
  obtain ⟨_,hresults⟩ := takeMutSteps_serial hserial
  obtain ⟨hwritten,hdata⟩ := h.written
  cases done with
  | nil =>
    have hnobody : ∀ k r, s.phase k ≠ .left r := fun k r hleft => by cases (hdone.left k r).mp hleft
    exact ⟨fun k r hleft => absurd hleft (hnobody k r),fun k _ hleft _ => absurd hleft (hnobody k _),
      fun ⟨k,r,hleft⟩ => absurd hleft (hnobody k r),hdata⟩
  | cons first done =>
    obtain ⟨owner,result⟩ := first
    obtain ⟨rfl,hothers⟩ : result = .ok () ∧ done.map Prod.snd = List.replicate done.length (.err .alreadyUsed) := by
      simpa [List.replicate_succ] using hresults
    have hrefused : ∀ p ∈ done, p.2 = .err .alreadyUsed := fun p hp =>
      List.eq_of_mem_replicate (hothers ▸ List.mem_map_of_mem hp)
    have howner : ∀ k, s.phase k = .left (.ok ()) → k = owner := by
      intro k hleft
      rcases List.mem_cons.mp ((hdone.left k _).mp hleft) with hfirst | hlater
      · cases hfirst
        rfl
      · cases hrefused _ hlater
    have hfirst : s.phase owner = .left (.ok ()) := (hdone.left owner _).mpr List.mem_cons_self
    refine ⟨fun k r hleft => ?_,fun k k' hk hk' => (howner k hk).trans (howner k' hk').symm,
      fun _ => ⟨owner,hfirst,fun w hw => howner w.1 (hwritten w hw)⟩,hdata⟩
    rcases List.mem_cons.mp ((hdone.left k r).mp hleft) with hmem | hmem
    · cases hmem
      exact Or.inl rfl
    · exact Or.inr (hrefused _ hmem)

end Shared

/-- The first of two writes while the second one is told no. -/
theorem one_owner_both : ∃ (s : CriticalSection Bool (StaticAllocation Nat) Place (Outcome GuardCellError Unit))
    (writes : List (Bool × Nat)), Used 7 s writes ∧ s.phase true = .left (.ok ()) ∧
      s.phase false = .left (.err .alreadyUsed) ∧ s.shared.cell.data = 9 ∧
      ∃ owner, s.phase owner = .left (.ok ()) ∧ ∀ w ∈ writes, w.1 = owner := by
  have h0 : Used 7 (.new (wrap 7)) ([] : List (Bool × Nat)) := .wrap
  have h1 := h0.call _ _ _ (.enter _ true rfl rfl)
  have h2 := h1.call _ _ _ (.move _ true _ _ _ rfl rfl)
  have h3 := h2.call _ _ _ (.move _ true _ _ _ rfl rfl)
  have h4 := h3.call _ _ _ (.move _ true _ _ _ rfl rfl)
  have h5 := h4.call _ _ _ (.leave _ true _ _ _ rfl rfl)
  have h6 := h5.call _ _ _ (.enter _ false rfl rfl)
  have h7 := h6.call _ _ _ (.move _ false _ _ _ rfl rfl)
  have h8 := h7.write _ _ true 9 rfl
  have h9 := h8.call _ _ _ (.move _ false _ _ _ rfl rfl)
  have h10 := h9.call _ _ _ (.leave _ false _ _ _ rfl rfl)
  obtain ⟨_,_,howner,_⟩ := h10.one_owner
  exact ⟨_,_,h10,rfl,rfl,rfl,howner ⟨true,.ok (),rfl⟩⟩

end StaticAllocation

end Finder
