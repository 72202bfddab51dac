import Mathlib.Data.List.Induction

namespace Finder

variable {D α : Type}

/-- What happens among devices that pass on what they know: one learns something by itself, or it hears all that
another one knows. -/
inductive Event (D α : Type) where
  | learns (device : D) (a : α)
  | hears (device other : D)

/-- A way through the meetings, in their order, from one device to another. -/
inductive Path : List (Event D α) → D → D → Prop
  | start (d : D) : Path [] d d
  | wait (events : List (Event D α)) (event : Event D α) (s t : D) (h : Path events s t) :
      Path (events ++ [event]) s t
  | cross (events : List (Event D α)) (s p q : D) (h : Path events s p) : Path (events ++ [.hears q p]) s q

/-- A device has learned something by itself, or some path brings it from the one that has. -/
def Spread (events : List (Event D α)) (d : D) (a : α) : Prop :=
  ∃ before s after, events = before ++ .learns s a::after ∧ Path after s d

/-- The meetings alone. -/
def Meetings (events : List (Event D α)) : Prop := ∀ d a, .learns d a ∉ events

variable {events events' : List (Event D α)} {d p q s t : D} {a b : α}

theorem path_nil : Path ([] : List (Event D α)) s t ↔ s = t := by
  constructor
  · intro h
    generalize hall : ([] : List (Event D α)) = all at h
    cases h with
    | start => rfl
    | wait events event _ _ h => simp at hall
    | cross events _ p _ h => simp at hall
  · rintro rfl
    exact .start s

theorem path_learns : Path (events ++ [.learns d a]) s t ↔ Path events s t := by
  constructor
  · intro h
    generalize hall : events ++ [.learns d a] = all at h
    cases h with
    | start => simp at hall
    | wait events' event _ _ h =>
      obtain ⟨rfl,_⟩ := List.append_inj' hall rfl
      exact h
    | cross events' _ p _ h =>
      obtain ⟨_,hlast⟩ := List.append_inj' hall rfl
      cases hlast
  · exact .wait events _ s t

theorem path_hears : Path (events ++ [.hears q p]) s t ↔ Path events s t ∨ (t = q ∧ Path events s p) := by
  constructor
  · intro h
    generalize hall : events ++ [.hears q p] = all at h
    cases h with
    | start => simp at hall
    | wait events' event _ _ h =>
      obtain ⟨rfl,_⟩ := List.append_inj' hall rfl
      exact Or.inl h
    | cross events' _ p' _ h =>
      obtain ⟨rfl,hlast⟩ := List.append_inj' hall rfl
      cases hlast
      exact Or.inr ⟨rfl,h⟩
  · rintro (h | ⟨rfl,h⟩)
    · exact .wait events _ s t h
    · exact .cross events s p t h

theorem Path.refl (events : List (Event D α)) (d : D) : Path events d d := by
  induction events using List.reverseRecOn with
  | nil => exact .start d
  | append_singleton events event ih => exact .wait events event d d ih

/-- One way and then another. -/
theorem Path.trans (h : Path events s p) (h' : Path events' p t) : Path (events ++ events') s t := by
  induction h' with
  | start => simpa using h
  | wait events' event p t _ ih =>
    rw [←List.append_assoc]
    exact .wait _ event s t (ih h)
  | cross events' p p' q _ ih =>
    rw [←List.append_assoc]
    exact .cross _ s p' q (ih h)

theorem spread_nil : ¬Spread ([] : List (Event D α)) d a := by
  rintro ⟨before,s,after,hnil,_⟩
  simp at hnil

/-- Nothing that a device knows is forgotten. -/
theorem Spread.later (h : Spread events s a) (hpath : Path events' s t) : Spread (events ++ events') t a := by
  obtain ⟨before,r,after,rfl,hafter⟩ := h
  exact ⟨before,r,after ++ events',by simp,hafter.trans hpath⟩

theorem spread_learns : Spread (events ++ [.learns s a]) d b ↔ Spread events d b ∨ (d = s ∧ b = a) := by
  constructor
  · rintro ⟨before,r,after,hsplit,hpath⟩
    rcases List.eq_nil_or_concat after with rfl | ⟨after,event,rfl⟩
    · obtain ⟨_,hlast⟩ := List.append_inj' hsplit rfl
      cases hlast
      exact Or.inr ⟨(path_nil.mp hpath).symm,rfl⟩
    · rw [List.concat_eq_append,←List.cons_append,←List.append_assoc] at hsplit
      obtain ⟨rfl,hlast⟩ := List.append_inj' hsplit rfl
      cases hlast
      rw [List.concat_eq_append] at hpath
      exact Or.inl ⟨before,r,after,rfl,path_learns.mp hpath⟩
  · rintro (h | ⟨rfl,rfl⟩)
    · exact h.later (.refl _ d)
    · exact ⟨events,d,[],rfl,.start d⟩

theorem spread_hears : Spread (events ++ [.hears q p]) d b ↔ Spread events d b ∨ (d = q ∧ Spread events p b) := by
  constructor
  · rintro ⟨before,r,after,hsplit,hpath⟩
    rcases List.eq_nil_or_concat after with rfl | ⟨after,event,rfl⟩
    · obtain ⟨_,hlast⟩ := List.append_inj' hsplit rfl
      cases hlast
    · rw [List.concat_eq_append,←List.cons_append,←List.append_assoc] at hsplit
      obtain ⟨rfl,hlast⟩ := List.append_inj' hsplit rfl
      cases hlast
      rw [List.concat_eq_append] at hpath
      rcases path_hears.mp hpath with hstay | ⟨rfl,hcross⟩
      · exact Or.inl ⟨before,r,after,rfl,hstay⟩
      · exact Or.inr ⟨rfl,before,r,after,rfl,hcross⟩
  · rintro (h | ⟨rfl,h⟩)
    · exact h.later (.refl _ d)
    · exact h.later (path_hears.mpr (Or.inr ⟨rfl,path_nil.mpr rfl⟩))

/-- Meetings bring nothing that nobody knew. -/
theorem Spread.earlier (h : Spread (events ++ events') t a) (hmeetings : Meetings events') :
    ∃ s, Spread events s a ∧ Path events' s t := by
  induction events' using List.reverseRecOn generalizing t with
  | nil => exact ⟨t,by simpa using h,.start t⟩
  | append_singleton events' event ih =>
    have hearlier : Meetings events' := fun d a hmem => hmeetings d a (List.mem_append_left _ hmem)
    rw [←List.append_assoc] at h
    cases event with
    | learns d a => exact absurd (by simp) (hmeetings d a)
    | hears q p =>
      rcases spread_hears.mp h with hstay | ⟨rfl,hcross⟩
      · obtain ⟨s,hs,hpath⟩ := ih hstay hearlier
        exact ⟨s,hs,.wait _ _ s t hpath⟩
      · obtain ⟨s,hs,hpath⟩ := ih hcross hearlier
        exact ⟨s,hs,.cross _ s p t hpath⟩

theorem spread_some : (∃ d, Spread events d a) ↔ ∃ d, .learns d a ∈ events := by
  constructor
  · rintro ⟨d,before,s,after,rfl,_⟩
    exact ⟨s,by simp⟩
  · rintro ⟨d,hd⟩
    obtain ⟨before,after,rfl⟩ := List.append_of_mem hd
    exact ⟨d,before,d,after,rfl,.refl after d⟩

/-- Where the meetings lead from every device to every other one, all know the same. -/
theorem spread_all (hmeetings : Meetings events') (hall : ∀ s t, Path events' s t) :
    Spread (events ++ events') d a ↔ ∃ s, Spread events s a := by
  constructor
  · intro h
    obtain ⟨s,hs,_⟩ := h.earlier hmeetings
    exact ⟨s,hs⟩
  · rintro ⟨s,hs⟩
    exact hs.later (hall s d)

end Finder
