import Finder.Math.Chain
import Mathlib.Data.List.Perm.Subperm
import Mathlib.Logic.Function.Basic

namespace Finder

variable {D A E : Type} [DecidableEq A] {author : E → A} {last seq : E → Nat} {name : D → A}

section ByAuthor

variable (author)

/-- The items of one author, in the order they stand in. -/
def byAuthor (a : A) (log : List E) : List E := log.filter (fun e => decide (author e = a))

variable {author} {a : A} {log log' : List E} {e : E}

@[simp] theorem mem_byAuthor : e ∈ byAuthor author a log ↔ e ∈ log ∧ author e = a := by simp [byAuthor]

@[simp] theorem byAuthor_nil : byAuthor author a ([] : List E) = [] := rfl

theorem byAuthor_append : byAuthor author a (log ++ log') = byAuthor author a log ++ byAuthor author a log' :=
  List.filter_append ..

theorem byAuthor_single : byAuthor author a [e] = if author e = a then [e] else [] := by
  by_cases h : author e = a <;> simp [byAuthor,h]

theorem byAuthor_cons_self : byAuthor author (author e) (e::log) = e::byAuthor author (author e) log := by
  simp [byAuthor]

/-- Where all items of one log are in another one, no author's last number is greater. -/
theorem tip_byAuthor_le (hsub : ∀ e ∈ log, e ∈ log') (hchain : Chained last seq 0 (byAuthor author a log')) :
    tip seq 0 (byAuthor author a log) ≤ tip seq 0 (byAuthor author a log') := by
  rcases tip_mem seq 0 (byAuthor author a log) with hzero | ⟨e,he,htip⟩
  · rw [hzero]
    exact Nat.zero_le _
  · rw [←htip]
    apply hchain.le_tip
    exact mem_byAuthor.mpr ⟨hsub e (mem_byAuthor.mp he).1,(mem_byAuthor.mp he).2⟩

end ByAuthor

variable (author last seq name) in
/-- Logs whose items are by the holders of the logs: of each author every log has a first part of what the
author's own log has. -/
structure Coherent (logs : D → List E) : Prop where
  named : ∀ d, ∀ e ∈ logs d, ∃ d', author e = name d'
  chained : ∀ d a, Chained last seq 0 (byAuthor author a (logs d))
  shared : ∀ d d', byAuthor author (name d') (logs d) <+: byAuthor author (name d') (logs d')

namespace Coherent

variable {logs : D → List E} {d p q : D} {e : E}

theorem nil : Coherent author last seq name (fun _ : D => []) :=
  ⟨by simp,fun _ _ => trivial,fun _ _ => List.prefix_refl _⟩

/-- All of an item's author that a log has is the first part of one chain, in which the item stands. -/
theorem whole (h : Coherent author last seq name logs) (he : e ∈ logs p) :
    ∃ chain, Chained last seq 0 chain ∧ e ∈ chain ∧ ∀ d, byAuthor author (author e) (logs d) <+: chain := by
  obtain ⟨d,hd⟩ := h.named p e he
  have hshared : ∀ d', byAuthor author (author e) (logs d') <+: byAuthor author (author e) (logs d) := by
    intro d'
    rw [hd]
    exact h.shared d' d
  exact ⟨_,h.chained d (author e),(hshared p).subset (mem_byAuthor.mpr ⟨he,rfl⟩),hshared⟩

/-- A log has an item exactly if the author's last number in it is not below the item's. -/
theorem mem_iff (h : Coherent author last seq name logs) (he : e ∈ logs p) :
    e ∈ logs q ↔ seq e ≤ tip seq 0 (byAuthor author (author e) (logs q)) := by
  obtain ⟨chain,hchain,hmem,hpart⟩ := h.whole he
  rw [←hchain.mem_prefix_iff (hpart q) hmem,mem_byAuthor]
  simp

/-- The first item of a log that another log lacks continues what that one has of its author. -/
theorem next (h : Coherent author last seq name logs) {before after : List E} (hp : logs p = before ++ e::after)
    (hbefore : ∀ x ∈ before, x ∈ logs q) (hnew : e ∉ logs q) :
    byAuthor author (author e) (logs q) = byAuthor author (author e) before := by
  have he : e ∈ logs p := by simp [hp]
  obtain ⟨chain,hchain,_,hpart⟩ := h.whole he
  have hsplit : byAuthor author (author e) (logs p) =
      byAuthor author (author e) before ++ e::byAuthor author (author e) after := by
    rw [hp,byAuthor_append,byAuthor_cons_self]
  obtain ⟨rest,hrest⟩ := hpart p
  rw [hsplit,List.append_assoc,List.cons_append] at hrest
  have hlacks : byAuthor author (author e) (logs q) <+: byAuthor author (author e) before := by
    subst hrest
    apply hchain.prefix_of_not_mem (hpart q)
    intro hmem
    exact hnew (mem_byAuthor.mp hmem).1
  have hnodup : (byAuthor author (author e) before).Nodup := by
    subst hrest
    exact (chained_append.mp hchain).1.nodup
  have hsub : byAuthor author (author e) before ⊆ byAuthor author (author e) (logs q) := by
    intro x hx
    obtain ⟨hmem,hauthor⟩ := mem_byAuthor.mp hx
    exact mem_byAuthor.mpr ⟨hbefore x hmem,hauthor⟩
  exact hlacks.eq_of_length_le (List.subperm_of_subset hnodup hsub).length_le

/-- A log takes a new item that continues its author's chain: one of the holder's own, or one of another log. -/
theorem push [DecidableEq D] (h : Coherent author last seq name logs) (hname : Function.Injective name)
    (horigin : author e = name d ∨ ∃ d', e ∈ logs d')
    (hlast : last e = tip seq 0 (byAuthor author (author e) (logs d)))
    (hseq : tip seq 0 (byAuthor author (author e) (logs d)) < seq e) :
    Coherent author last seq name (Function.update logs d (logs d ++ [e])) := by
  have hpush : ∀ d' a, byAuthor author a (Function.update logs d (logs d ++ [e]) d') =
      if d' = d ∧ author e = a then byAuthor author a (logs d') ++ [e] else byAuthor author a (logs d') := by
    intro d' a
    by_cases hd : d' = d
    · subst hd
      rw [Function.update_self,byAuthor_append,byAuthor_single]
      by_cases ha : author e = a <;> simp [ha]
    · rw [Function.update_of_ne hd,if_neg (fun hh => hd hh.1)]
  refine ⟨fun d' x hx => ?_,fun d' a => ?_,fun d1 d2 => ?_⟩
  · by_cases hd : d' = d
    · subst hd
      rw [Function.update_self] at hx
      rcases List.mem_append.mp hx with hx | hx
      · exact h.named d' x hx
      · rw [List.mem_singleton.mp hx]
        rcases horigin with hown | ⟨d'',hother⟩
        · exact ⟨d',hown⟩
        · exact h.named d'' e hother
    · rw [Function.update_of_ne hd] at hx
      exact h.named d' x hx
  · rw [hpush]
    split_ifs with hnew
    · obtain ⟨rfl,rfl⟩ := hnew
      exact (h.chained d' (author e)).append_single hlast hseq
    · exact h.chained d' a
  · rw [hpush d1,hpush d2]
    by_cases hauthor : author e = name d2
    · by_cases h2 : d2 = d
      · subst h2
        by_cases h1 : d1 = d2
        · rw [h1]
        · rw [if_neg (fun hh => h1 hh.1),if_pos ⟨rfl,hauthor⟩]
          exact (h.shared d1 d2).trans (List.prefix_append _ _)
      · rw [if_neg (show ¬(d2 = d ∧ author e = name d2) from fun hh => h2 hh.1)]
        split_ifs with h1
        · -- the item is of another log, so the author's own one has it already
          rcases horigin with hown | ⟨d',hother⟩
          · exact absurd (hname (hauthor.symm.trans hown)) h2
          · have hmem : e ∈ byAuthor author (name d2) (logs d') := mem_byAuthor.mpr ⟨hother,hauthor⟩
            rw [h1.1]
            rw [hauthor] at hlast hseq
            exact (h.chained d2 _).extends (h.shared d d2) ((h.shared d' d2).subset hmem) hlast hseq
        · exact h.shared d1 d2
    · rw [if_neg (show ¬(d1 = d ∧ author e = name d2) from fun hh => hauthor hh.2),
        if_neg (show ¬(d2 = d ∧ author e = name d2) from fun hh => hauthor hh.2)]
      exact h.shared d1 d2

end Coherent

end Finder
