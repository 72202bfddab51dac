import Mathlib.Data.List.InsertIdx
import Mathlib.Order.Basic
import Mathlib.Order.Defs.LinearOrder
import Mathlib.Order.Lattice

namespace Finder

variable {α κ : Type} [LinearOrder κ] (key : α → κ)

/-- `slice::binary_search_by_key`: `.ok` with the position of the key, `.error` with the
position at which it would be inserted. The slice is sorted by the key. -/
def binarySearchByKey (k : κ) : List α → Except Nat Nat
  | [] => .error 0
  | x::xs =>
      if key x<k then
        match binarySearchByKey k xs with
        | .ok i => .ok (i+1)
        | .error i => .error (i+1)
      else if key x=k then .ok 0
      else .error 0

/-- Strictly increasing keys. -/
def SortedBy (xs : List α) : Prop := xs.Pairwise (fun a b => key a<key b)

/-- The entry of a key. -/
def entry (k : κ) (xs : List α) : Option α := xs.find? (fun x => decide (key x=k))

variable {key}

theorem entry_key {k : κ} {xs : List α} {x : α} (h : entry key k xs=some x) : key x=k := by
  simpa using List.find?_some h

theorem entry_mem {k : κ} {xs : List α} {x : α} (h : entry key k xs=some x) : x∈xs :=
  List.mem_of_find?_eq_some h

theorem entry_cons (k : κ) (x : α) (xs : List α) :
    entry key k (x::xs)=if key x=k then some x else entry key k xs := by
  by_cases h : key x=k <;> simp [entry,h]

theorem SortedBy.tail {x : α} {xs : List α} (h : SortedBy key (x::xs)) : SortedBy key xs :=
  (List.pairwise_cons.mp h).2

theorem SortedBy.head_lt {x y : α} {xs : List α} (h : SortedBy key (x::xs)) (hy : y∈xs) :
    key x<key y := (List.pairwise_cons.mp h).1 y hy

theorem SortedBy.entry_none_of_le {k : κ} {x : α} {xs : List α} (h : SortedBy key (x::xs))
    (hk : k≤key x) : entry key k xs=none := by
  rw [entry,List.find?_eq_none]
  intro y hy
  simpa using ne_of_gt (hk.trans_lt (h.head_lt hy))

theorem SortedBy.entry_of_mem {x : α} {xs : List α} (h : SortedBy key xs) (hx : x∈xs) :
    entry key (key x) xs=some x := by
  induction xs with
  | nil => simp at hx
  | cons y ys ih =>
    rw [entry_cons]
    rcases List.mem_cons.mp hx with rfl | hx
    · simp
    · rw [if_neg (ne_of_lt (h.head_lt hx)),ih h.tail hx]

/-- A found position holds the entry of the key. -/
theorem binarySearchByKey_ok {k : κ} {xs : List α} {i : Nat} (h : binarySearchByKey key k xs=.ok i) :
    ∃ x, xs[i]?=some x ∧ key x=k := by
  induction xs generalizing i with
  | nil => simp [binarySearchByKey] at h
  | cons y ys ih =>
    rw [binarySearchByKey] at h
    split_ifs at h with hlt heq
    · cases hs : binarySearchByKey key k ys with
      | error j => simp [hs] at h
      | ok j =>
        simp only [hs,Except.ok.injEq] at h
        subst h
        simpa using ih hs
    · cases h
      exact ⟨y,rfl,heq⟩

theorem SortedBy.search_ok {k : κ} {xs : List α} {i : Nat} (hs : SortedBy key xs)
    (h : binarySearchByKey key k xs=.ok i) : ∃ x, xs[i]?=some x ∧ entry key k xs=some x := by
  obtain ⟨x,hx,rfl⟩ := binarySearchByKey_ok h
  exact ⟨x,hx,hs.entry_of_mem (List.mem_of_getElem? hx)⟩

theorem SortedBy.search_error {k : κ} {xs : List α} {i : Nat} (hs : SortedBy key xs)
    (h : binarySearchByKey key k xs=.error i) : i≤xs.length ∧ entry key k xs=none := by
  induction xs generalizing i with
  | nil => simp_all [binarySearchByKey,entry]
  | cons y ys ih =>
    rw [binarySearchByKey] at h
    rw [entry_cons]
    split_ifs at h with hlt heq
    · cases hj : binarySearchByKey key k ys with
      | ok j => simp [hj] at h
      | error j =>
        simp only [hj,Except.error.injEq] at h
        subst h
        have ht := ih hs.tail hj
        exact ⟨by simpa using ht.1,by rw [if_neg (ne_of_lt hlt),ht.2]⟩
    · have hle : k≤key y := not_lt.mp hlt
      exact ⟨by cases h; simp,by rw [if_neg heq,hs.entry_none_of_le hle]⟩

theorem SortedBy.search_of_entry {k : κ} {xs : List α} {x : α} (hs : SortedBy key xs)
    (h : entry key k xs=some x) : ∃ i, binarySearchByKey key k xs=.ok i ∧ xs[i]?=some x := by
  cases hb : binarySearchByKey key k xs with
  | ok i =>
    obtain ⟨y,hy,he⟩ := hs.search_ok hb
    exact ⟨i,rfl,by rw [hy,←he,h]⟩
  | error i => rw [(hs.search_error hb).2] at h; cases h

theorem SortedBy.search_of_entry_none {k : κ} {xs : List α} (hs : SortedBy key xs)
    (h : entry key k xs=none) : ∃ i, binarySearchByKey key k xs=.error i ∧ i≤xs.length := by
  cases hb : binarySearchByKey key k xs with
  | ok i =>
    obtain ⟨y,_,he⟩ := hs.search_ok hb
    rw [he] at h; cases h
  | error i => exact ⟨i,rfl,(hs.search_error hb).1⟩

private theorem mem_insertIdx_cases {x y : α} {xs : List α} {i : Nat} (h : y∈xs.insertIdx i x) :
    y=x ∨ y∈xs := by
  simpa using List.insertIdx_subset_cons i x xs h

/-- Inserting at the reported position keeps the order and adds one entry. -/
theorem SortedBy.insert {x : α} {xs : List α} {i : Nat} (hs : SortedBy key xs)
    (h : binarySearchByKey key (key x) xs=.error i) :
    SortedBy key (xs.insertIdx i x) ∧
      ∀ k, entry key k (xs.insertIdx i x)=if key x=k then some x else entry key k xs := by
  induction xs generalizing i with
  | nil =>
    simp only [binarySearchByKey,Except.error.injEq] at h
    subst h
    exact ⟨List.pairwise_singleton _ _,fun k => entry_cons k x []⟩
  | cons y ys ih =>
    rw [binarySearchByKey] at h
    split_ifs at h with hlt heq
    · cases hj : binarySearchByKey key (key x) ys with
      | ok j => simp [hj] at h
      | error j =>
        simp only [hj,Except.error.injEq] at h
        subst h
        obtain ⟨hsort,hentry⟩ := ih hs.tail hj
        rw [List.insertIdx_succ_cons]
        refine ⟨List.pairwise_cons.mpr ⟨?_,hsort⟩,?_⟩
        · intro z hz
          rcases mem_insertIdx_cases hz with rfl | hz
          · exact hlt
          · exact hs.head_lt hz
        · intro k
          rw [entry_cons,entry_cons,hentry k]
          by_cases hy : key y=k
          · have hx : key x≠k := fun hx => (hy.trans hx.symm ▸ hlt).false
            simp [hy,hx]
          · simp [hy]
    · cases h
      have hlt' : key x<key y := lt_of_le_of_ne (not_lt.mp hlt) (Ne.symm heq)
      refine ⟨List.pairwise_cons.mpr ⟨?_,hs⟩,fun k => entry_cons k x (y::ys)⟩
      intro z hz
      rcases List.mem_cons.mp hz with rfl | hz
      · exact hlt'
      · exact hlt'.trans (hs.head_lt hz)

/-- Rewriting one entry under its own key keeps the order and every other entry. -/
theorem SortedBy.set {x y : α} {xs : List α} {i : Nat} (hs : SortedBy key xs)
    (hi : xs[i]?=some x) (hy : key y=key x) :
    SortedBy key (xs.set i y) ∧
      ∀ k, entry key k (xs.set i y)=if key y=k then some y else entry key k xs := by
  induction xs generalizing i with
  | nil => simp at hi
  | cons z zs ih =>
    cases i with
    | zero =>
      simp only [List.getElem?_cons_zero,Option.some.injEq] at hi
      subst hi
      refine ⟨List.pairwise_cons.mpr ⟨fun w hw => hy ▸ hs.head_lt hw,hs.tail⟩,fun k => ?_⟩
      rw [List.set_cons_zero,entry_cons,entry_cons]
      by_cases hk : key y=k
      · simp [hk]
      · rw [if_neg hk,if_neg hk,if_neg (hy ▸ hk)]
    | succ j =>
      rw [List.getElem?_cons_succ] at hi
      obtain ⟨hsort,hentry⟩ := ih hs.tail hi
      have hmem : x∈zs := List.mem_of_getElem? hi
      rw [List.set_cons_succ]
      refine ⟨List.pairwise_cons.mpr ⟨?_,hsort⟩,fun k => ?_⟩
      · intro w hw
        rcases List.mem_or_eq_of_mem_set hw with hw | rfl
        · exact hs.head_lt hw
        · exact hy ▸ hs.head_lt hmem
      · rw [entry_cons,entry_cons,hentry k]
        by_cases hz : key z=k
        · have hne : key y≠k := fun h => (hz ▸ h ▸ hy ▸ hs.head_lt hmem).false
          simp [hz,hne]
        · simp [hz]

/-- A sorted table is determined by its entries. -/
theorem SortedBy.ext {xs ys : List α} (hx : SortedBy key xs) (hy : SortedBy key ys)
    (h : ∀ k, entry key k xs=entry key k ys) : xs=ys := by
  have mem_iff : ∀ {us vs : List α}, SortedBy key us → SortedBy key vs →
      (∀ k, entry key k us=entry key k vs) → ∀ a∈us, a∈vs := fun hu _ he a ha =>
    entry_mem ((he (key a)) ▸ hu.entry_of_mem ha)
  have irrefl : ∀ {us : List α}, SortedBy key us → us.Nodup := fun hu =>
    List.Pairwise.imp (fun hab he => (he ▸ hab).false) hu
  have perm : xs.Perm ys := (List.perm_ext_iff_of_nodup (irrefl hx) (irrefl hy)).mpr fun a =>
    ⟨mem_iff hx hy h a,mem_iff hy hx (fun k => (h k).symm) a⟩
  exact perm.eq_of_pairwise (fun a b _ _ hab hba => absurd (hab.trans hba) (lt_irrefl _)) hx hy

end Finder
