import Mathlib.Data.List.Nodup
import Mathlib.Logic.Function.Basic
import Mathlib.Logic.Relation

namespace Finder

/-- What is run inside a critical section: each step goes on somewhere or ends with a result. -/
structure Body (σ ι ρ : Type) where
  start : ι
  step : ι → σ → (ι ⊕ ρ) × σ

inductive Phase (ι ρ : Type) where
  | waiting
  | inside (place : ι)
  | left (result : ρ)

/-- Callers of one body under one lock. A caller makes one call. -/
structure CriticalSection (K σ ι ρ : Type) where
  shared : σ
  holder : Option K
  phase : K → Phase ι ρ

variable {K σ τ ι ρ : Type}

namespace Body

variable {body : Body σ ι ρ} {s t u : σ} {i : ι} {r : ρ}

/-- The places of the body when it is run alone. -/
inductive Reaches (body : Body σ ι ρ) (s : σ) : ι → σ → Prop
  | start : Reaches body s body.start s
  | move (i j : ι) (t u : σ) (h : Reaches body s i t) (hstep : body.step i t = (.inl j,u)) : Reaches body s j u

def Runs (body : Body σ ι ρ) (s : σ) (r : ρ) (u : σ) : Prop :=
  ∃ i t, body.Reaches s i t ∧ body.step i t = (.inr r,u)

/-- Calls one after the other, with their results. -/
inductive Serial (body : Body σ ι ρ) (s : σ) : List (K × ρ) → σ → Prop
  | nil : Serial body s [] s
  | call (done : List (K × ρ)) (t u : σ) (k : K) (r : ρ) (h : Serial body s done t) (hrun : body.Runs t r u) :
      Serial body s (done ++ [(k,r)]) u

end Body

namespace CriticalSection

variable [DecidableEq K] {body : Body σ ι ρ} {s s' : CriticalSection K σ ι ρ} {k : K} {r : ρ}

def new (shared : σ) : CriticalSection K σ ι ρ := ⟨shared,none,fun _ => .waiting⟩

/-- One step of one caller. Only entering asks for the lock. -/
inductive Step (body : Body σ ι ρ) : CriticalSection K σ ι ρ → CriticalSection K σ ι ρ → Prop
  | enter (s : CriticalSection K σ ι ρ) (k : K) (hwaits : s.phase k = .waiting) (hfree : s.holder = none) :
      Step body s ⟨s.shared,some k,Function.update s.phase k (.inside body.start)⟩
  | move (s : CriticalSection K σ ι ρ) (k : K) (i j : ι) (u : σ) (hinside : s.phase k = .inside i)
      (hstep : body.step i s.shared = (.inl j,u)) :
      Step body s ⟨u,s.holder,Function.update s.phase k (.inside j)⟩
  | leave (s : CriticalSection K σ ι ρ) (k : K) (i : ι) (r : ρ) (u : σ) (hinside : s.phase k = .inside i)
      (hstep : body.step i s.shared = (.inr r,u)) :
      Step body s ⟨u,none,Function.update s.phase k (.left r)⟩

theorem Step.left_stays (h : Step body s s') (hleft : s.phase k = .left r) : s'.phase k = .left r := by
  have hother : ∀ k' phase, s.phase k' ≠ .left r → Function.update s.phase k' phase k = .left r := by
    intro k' phase hno
    have hne : k ≠ k' := fun hsame => hno (hsame ▸ hleft)
    rw [Function.update_of_ne hne]
    exact hleft
  cases h with
  | enter k' hwaits _ => exact hother k' _ (by simp [hwaits])
  | move k' i j u hinside _ => exact hother k' _ (by simp [hinside])
  | leave k' i r' u hinside _ => exact hother k' _ (by simp [hinside])

/-- What a step of the body keeps of the shared state, a step of a caller keeps. -/
theorem Step.shared_keeps {α : Type} (get : σ → α) (hbody : ∀ i t, get (body.step i t).2 = get t)
    (h : Step body s s') : get s'.shared = get s.shared := by
  cases h with
  | enter k hwaits hfree => rfl
  | move k i j u _ hstep =>
    have hkept := hbody i s.shared
    rwa [hstep] at hkept
  | leave k i r u _ hstep =>
    have hkept := hbody i s.shared
    rwa [hstep] at hkept

omit [DecidableEq K] in
def map (f : σ → τ) (s : CriticalSection K σ ι ρ) : CriticalSection K τ ι ρ := ⟨f s.shared,s.holder,s.phase⟩

/-- A body that does not look at what is forgotten takes the same steps without it. -/
theorem Step.map {body' : Body τ ι ρ} {f : σ → τ} (hstart : body'.start = body.start)
    (hbody : ∀ i t, body'.step i (f t) = ((body.step i t).1,f (body.step i t).2)) (h : Step body s s') :
    Step body' (s.map f) (s'.map f) := by
  cases h with
  | enter k hwaits hfree =>
    rw [CriticalSection.map,CriticalSection.map,←hstart]
    exact .enter (s.map f) k hwaits hfree
  | move k i j u hinside hstep => exact .move (s.map f) k i j (f u) hinside (by rw [CriticalSection.map,hbody,hstep])
  | leave k i r u hinside hstep => exact .leave (s.map f) k i r (f u) hinside (by rw [CriticalSection.map,hbody,hstep])

/-- The calls that are done are as if they had been made one after the other, and at most one more is on its way. -/
structure Serialized (body : Body σ ι ρ) (init : σ) (s : CriticalSection K σ ι ρ) (done : List (K × ρ)) : Prop where
  once : (done.map Prod.fst).Nodup
  left : ∀ k r, s.phase k = .left r ↔ (k,r) ∈ done
  free : s.holder = none → body.Serial init done s.shared ∧ ∀ k i, s.phase k ≠ .inside i
  held : ∀ k, s.holder = some k → ∃ t i, body.Serial init done t ∧ s.phase k = .inside i ∧ body.Reaches t i s.shared ∧
    ∀ k' i', s.phase k' = .inside i' → k' = k

variable {init : σ} {done : List (K × ρ)}

omit [DecidableEq K] in
/-- Whoever is inside holds the lock. -/
theorem Serialized.inside (h : s.Serialized body init done) {i : ι} (hinside : s.phase k = .inside i) :
    s.holder = some k ∧ ∃ t, body.Serial init done t ∧ body.Reaches t i s.shared := by
  cases hholder : s.holder with
  | none => exact absurd hinside ((h.free hholder).2 k i)
  | some k' =>
    obtain ⟨t,i',hserial,hphase,hreaches,hother⟩ := h.held k' hholder
    obtain rfl := hother k i hinside
    rw [hinside] at hphase
    cases hphase
    exact ⟨rfl,t,hserial,hreaches⟩

omit [DecidableEq K] in
theorem Serialized.alone (h : s.Serialized body init done) {i i' : ι} {k' : K} (hinside : s.phase k = .inside i)
    (hinside' : s.phase k' = .inside i') : k' = k := by
  obtain ⟨t,_,_,_,_,hother⟩ := h.held k (h.inside hinside).1
  exact hother k' i' hinside'

omit [DecidableEq K] in
/-- A caller that is inside is not done. -/
theorem Serialized.fresh (h : s.Serialized body init done) {i : ι} (hinside : s.phase k = .inside i) :
    k ∉ done.map Prod.fst := by
  intro hmem
  obtain ⟨⟨k',r⟩,hmem,hk⟩ := List.mem_map.mp hmem
  have hleft := (h.left k' r).mpr hmem
  rw [show k' = k from hk,hinside] at hleft
  cases hleft

/-- Going in and moving on inside makes nobody leave. -/
theorem update_left {phases : K → Phase ι ρ} (hbefore : ∀ r, phases k ≠ .left r) (i : ι) (k' : K) (r : ρ) :
    Function.update phases k (.inside i) k' = .left r ↔ phases k' = .left r := by
  by_cases hk : k' = k
  · rw [hk,Function.update_self]
    exact ⟨(fun hno => nomatch hno),fun hleft => absurd hleft (hbefore r)⟩
  · rw [Function.update_of_ne hk]

theorem update_inside {phases : K → Phase ι ρ} {phase : Phase ι ρ} {k' : K} {i : ι}
    (h : Function.update phases k phase k' = .inside i) (hk : k' ≠ k) : phases k' = .inside i := by
  rwa [Function.update_of_ne hk] at h

theorem Serialized.step (h : s.Serialized body init done) (hstep : Step body s s') :
    ∃ done', s'.Serialized body init done' := by
  cases hstep with
  | enter k hwaits hfree =>
    obtain ⟨hserial,hempty⟩ := h.free hfree
    have hleft := update_left (fun r hno => by cases hwaits.symm.trans hno) body.start
    refine ⟨done,⟨h.once,fun k' r => (hleft k' r).trans (h.left k' r),(fun hno => nomatch hno),fun k' hk => ?_⟩⟩
    cases hk
    refine ⟨s.shared,body.start,hserial,Function.update_self ..,.start,fun k' i' hinside => ?_⟩
    by_contra hk
    exact hempty k' i' (update_inside hinside hk)
  | move k i j u hinside hmove =>
    obtain ⟨hholder,t,hserial,hreaches⟩ := h.inside hinside
    have hleft := update_left (fun r hno => by cases hinside.symm.trans hno) j
    refine ⟨done,⟨h.once,fun k' r => (hleft k' r).trans (h.left k' r),fun hno => ?_,fun k' hk => ?_⟩⟩
    · cases hholder.symm.trans hno
    · cases hholder.symm.trans hk
      refine ⟨t,j,hserial,Function.update_self ..,.move i j s.shared u hreaches hmove,fun k' i' hinside' => ?_⟩
      by_contra hk
      exact hk (h.alone hinside (update_inside hinside' hk))
  | leave k i r u hinside hleave =>
    obtain ⟨_,t,hserial,hreaches⟩ := h.inside hinside
    refine ⟨done ++ [(k,r)],⟨?_,fun k' r' => ?_,fun _ => ⟨.call done t u k r hserial ⟨i,s.shared,hreaches,hleave⟩,?_⟩,
      fun k' hk => by cases hk⟩⟩
    · rw [List.map_append]
      exact List.nodup_append_comm.mp (List.nodup_cons.mpr ⟨h.fresh hinside,h.once⟩)
    · rw [List.mem_append,List.mem_singleton,Prod.mk.injEq,←h.left]
      change Function.update s.phase k (.left r) k' = .left r' ↔ _
      by_cases hk : k' = k
      · rw [hk,Function.update_self,hinside]
        simp [eq_comm]
      · rw [Function.update_of_ne hk]
        simp [hk]
    · intro k' i' hinside'
      by_cases hk : k' = k
      · subst hk
        cases (Function.update_self ..).symm.trans hinside'
      · exact hk (h.alone hinside (update_inside hinside' hk))

/-- However the callers take their steps, the results are those of calls made one after the other. -/
theorem serialized (h : Relation.ReflTransGen (Step body) (new init) s) : ∃ done, s.Serialized body init done := by
  induction h with
  | refl =>
    refine ⟨[],⟨List.nodup_nil,fun k r => ?_,fun _ => ⟨.nil,fun k i hno => by cases hno⟩,fun k hk => by cases hk⟩⟩
    simp [new]
  | tail _ hstep ih =>
    obtain ⟨done,hdone⟩ := ih
    exact hdone.step hstep

end CriticalSection

end Finder
