import Mathlib.Data.List.Basic
import Mathlib.Data.List.Infix

namespace Finder

variable {α : Type} (last seq : α → Nat)

/-- Every item names the number of the item before it, the first one the number `k`, and the
numbers increase. -/
def Chained (k : Nat) : List α → Prop
  | [] => True
  | a::as => last a = k ∧ k < seq a ∧ Chained (seq a) as

/-- The number of the last item, or `k` where there is none. -/
def tip (k : Nat) : List α → Nat
  | [] => k
  | a::as => tip (seq a) as

variable {last seq}

@[simp] theorem tip_nil (k : Nat) : tip seq k ([] : List α) = k := rfl

theorem tip_append (k : Nat) (as bs : List α) : tip seq k (as ++ bs) = tip seq (tip seq k as) bs := by
  induction as generalizing k with
  | nil => rfl
  | cons a as ih => exact ih (seq a)

@[simp] theorem tip_append_single (k : Nat) (as : List α) (a : α) : tip seq k (as ++ [a]) = seq a := by
  rw [tip_append]
  rfl

theorem chained_append {k : Nat} {as bs : List α} :
    Chained last seq k (as ++ bs) ↔ Chained last seq k as ∧ Chained last seq (tip seq k as) bs := by
  induction as generalizing k with
  | nil => simp [Chained]
  | cons a as ih => simp only [List.cons_append,Chained,tip,ih,and_assoc]

theorem Chained.append_single {k : Nat} {as : List α} {a : α} (h : Chained last seq k as)
    (hl : last a = tip seq k as) (hs : tip seq k as < seq a) : Chained last seq k (as ++ [a]) :=
  chained_append.mpr ⟨h,hl,hs,trivial⟩

theorem Chained.shorten {k : Nat} {as bs : List α} (h : Chained last seq k bs) (hp : as <+: bs) :
    Chained last seq k as := by
  obtain ⟨t,rfl⟩ := hp
  exact (chained_append.mp h).1

theorem Chained.start_le {k : Nat} {as : List α} (h : Chained last seq k as) : k ≤ tip seq k as := by
  induction as generalizing k with
  | nil => exact Nat.le_refl _
  | cons a as ih => exact (Nat.le_of_lt h.2.1).trans (ih h.2.2)

theorem Chained.start_lt {k : Nat} {as : List α} (h : Chained last seq k as) {a : α} (ha : a ∈ as) :
    k < seq a := by
  induction as generalizing k with
  | nil => simp at ha
  | cons b as ih =>
    rcases List.mem_cons.mp ha with rfl | ha
    · exact h.2.1
    · exact h.2.1.trans (ih h.2.2 ha)

theorem Chained.le_tip {k : Nat} {as : List α} (h : Chained last seq k as) {a : α} (ha : a ∈ as) :
    seq a ≤ tip seq k as := by
  induction as generalizing k with
  | nil => simp at ha
  | cons b as ih =>
    rcases List.mem_cons.mp ha with rfl | ha
    · exact h.2.2.start_le
    · exact ih h.2.2 ha

/-- The tip of a list is the number of one of its items. -/
theorem tip_mem (seq : α → Nat) (k : Nat) (as : List α) : tip seq k as = k ∨ ∃ a ∈ as, seq a = tip seq k as := by
  induction as generalizing k with
  | nil => exact Or.inl rfl
  | cons a as ih =>
    rcases ih (seq a) with h | ⟨b,hb,h⟩
    · exact Or.inr ⟨a,List.mem_cons_self,h.symm⟩
    · exact Or.inr ⟨b,List.mem_cons_of_mem a hb,h⟩

/-- An item names exactly what stands before it. -/
theorem Chained.last_eq {k : Nat} {as bs : List α} {a : α} (h : Chained last seq k (as ++ a::bs)) :
    last a = tip seq k as ∧ tip seq k as < seq a := by
  have ht := (chained_append.mp h).2
  exact ⟨ht.1,ht.2.1⟩

theorem Chained.seq_lt {k : Nat} {as : List α} (h : Chained last seq k as) :
    as.Pairwise (fun a b => seq a < seq b) := by
  induction as generalizing k with
  | nil => exact List.Pairwise.nil
  | cons a as ih => exact List.pairwise_cons.mpr ⟨fun b hb => h.2.2.start_lt hb,ih h.2.2⟩

theorem Chained.nodup {k : Nat} {as : List α} (h : Chained last seq k as) : as.Nodup :=
  h.seq_lt.imp (fun hlt he => by simp [he] at hlt)

/-- What a receiver that has taken `as` has of a longer chain: the items up to its tip. -/
theorem Chained.mem_prefix_iff {k : Nat} {as bs : List α} (h : Chained last seq k bs) (hp : as <+: bs)
    {a : α} (ha : a ∈ bs) : a ∈ as ↔ seq a ≤ tip seq k as := by
  obtain ⟨t,rfl⟩ := hp
  obtain ⟨has,ht⟩ := chained_append.mp h
  refine ⟨has.le_tip,fun hle => ?_⟩
  rcases List.mem_append.mp ha with ha | ha
  · exact ha
  · exact absurd (ht.start_lt ha) (Nat.not_lt.mpr hle)

/-- Of a chain only the next item continues a given part of it. -/
theorem Chained.extends {k : Nat} {as bs : List α} (h : Chained last seq k bs) (hp : as <+: bs) {a : α}
    (ha : a ∈ bs) (hl : last a = tip seq k as) (hs : tip seq k as < seq a) : as ++ [a] <+: bs := by
  obtain ⟨t,rfl⟩ := hp
  obtain ⟨has,ht⟩ := chained_append.mp h
  have hat : a ∈ t := by
    rcases List.mem_append.mp ha with ha | ha
    · exact absurd (has.le_tip ha) (Nat.not_le.mpr hs)
    · exact ha
  obtain ⟨p,q,rfl⟩ := List.mem_iff_append.mp hat
  have hlast := ht.last_eq
  cases p with
  | nil => exact ⟨q,by simp⟩
  | cons b p =>
    -- an item in between would already have moved the number on
    have hb : tip seq k as < tip seq (tip seq k as) (b::p) := by
      have hbp := (chained_append.mp ht).1
      exact hbp.2.1.trans_le (hbp.le_tip List.mem_cons_self)
    omega

/-- A part that lacks an item ends before it. -/
theorem Chained.prefix_of_not_mem {k : Nat} {as p q : List α} {a : α}
    (h : Chained last seq k (p ++ a::q)) (hp : as <+: p ++ a::q) (ha : a ∉ as) : as <+: p := by
  have hlt : tip seq k as < seq a :=
    Nat.not_le.mp (fun hle => ha ((h.mem_prefix_iff hp (by simp)).mpr hle))
  rcases List.prefix_or_prefix_of_prefix hp (List.prefix_append p (a::q)) with h1 | ⟨t,rfl⟩
  · exact h1
  · cases t with
    | nil => simp
    | cons b t =>
      obtain ⟨u,hu⟩ := hp
      rw [List.append_assoc,List.cons_append] at hu
      have hb : b = a := (List.cons.inj (List.append_cancel_left hu)).1
      exact absurd (by simp [hb]) ha

/-- Parts of one chain are ordered by their tips. -/
theorem Chained.prefix_of_tip_le {k : Nat} {as bs cs : List α} (h : Chained last seq k cs)
    (ha : as <+: cs) (hb : bs <+: cs) (hle : tip seq k as ≤ tip seq k bs) : as <+: bs := by
  rcases List.prefix_or_prefix_of_prefix ha hb with hp | ⟨t,rfl⟩
  · exact hp
  · cases t with
    | nil => simp
    | cons a t =>
      have hc := (chained_append.mp (h.shorten ha)).2
      have hlt := hc.2.1.trans_le (hc.le_tip List.mem_cons_self)
      rw [tip_append] at hle
      omega

end Finder
