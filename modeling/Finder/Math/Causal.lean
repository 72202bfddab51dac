import Mathlib.Data.List.Infix
import Mathlib.Logic.Relation

namespace Finder

variable {α : Type} {holds : List α → α → Prop} {needs : α → α → Prop} {as bs : List α} {a b : α}

variable (holds) in
/-- Of every item something holds that depends on the items before it. -/
def Founded (as : List α) : Prop := ∀ before a after, as = before ++ a::after → holds before a

theorem Founded.nil : Founded holds ([] : List α) := by
  intro before a after h
  simp at h

theorem Founded.concat (h : Founded holds as) (ha : holds as a) : Founded holds (as ++ [a]) := by
  intro before x after hsplit
  rcases List.eq_nil_or_concat after with rfl | ⟨after,y,rfl⟩
  · obtain ⟨rfl,hx⟩ := List.append_inj' hsplit rfl
    cases hx
    exact ha
  · rw [List.concat_eq_append,←List.cons_append,←List.append_assoc] at hsplit
    exact h before x after (List.append_inj' hsplit rfl).1

variable (needs) in
/-- Every item stands behind all that it needs. -/
def Causal (as : List α) : Prop := Founded (fun before a => ∀ b, needs b a → b ∈ before) as

namespace Causal

theorem mem (h : Causal needs as) (ha : a ∈ as) (hneeds : needs b a) : b ∈ as := by
  obtain ⟨before,after,hsplit⟩ := List.mem_iff_append.mp ha
  rw [hsplit]
  exact List.mem_append_left _ (h before a after hsplit b hneeds)

/-- So it stands behind all that these need, and so on. -/
theorem transGen (h : Causal needs as) : Causal (Relation.TransGen needs) as := by
  intro before a after hsplit b hneeds
  induction hneeds generalizing before after with
  | single hba => exact h before _ after hsplit b hba
  | @tail c a hbc hca ih =>
    have hc : c ∈ before := h before a after hsplit c hca
    obtain ⟨first,rest,rfl⟩ := List.mem_iff_append.mp hc
    have hmem := ih first (rest ++ a::after) (by simp [hsplit])
    exact List.mem_append_left _ hmem

end Causal

/-- What is needed has a lower rank. -/
theorem transGen_rank {rank : α → Nat} (h : ∀ b a, needs b a → rank b < rank a)
    (hneeds : Relation.TransGen needs b a) : rank b < rank a := by
  induction hneeds with
  | single hba => exact h _ _ hba
  | tail _ hca ih => exact ih.trans (h _ _ hca)

end Finder
