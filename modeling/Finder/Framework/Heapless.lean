import Mathlib.Data.List.InsertIdx
import Mathlib.Tactic.Common

namespace Finder

/-- A vector of fixed capacity; the bound is part of the value. -/
@[ext] structure HVec (α : Type) (capacity : Nat) where
  toList : List α
  bounded : toList.length ≤ capacity

namespace HVec

variable {α : Type} {n : Nat}

instance [DecidableEq α] : DecidableEq (HVec α n) := fun v w =>
  decidable_of_iff (v.toList = w.toList) HVec.ext_iff.symm

def empty : HVec α n := ⟨[],Nat.zero_le n⟩

/-- `from_slice`: none where the slice is longer than the capacity. -/
def fromSlice (xs : List α) : Option (HVec α n) :=
  if h : xs.length ≤ n then some ⟨xs,h⟩ else none

/-- `push` gives the element back, here none, when the vector is full. -/
def push (v : HVec α n) (a : α) : Option (HVec α n) := fromSlice (v.toList ++ [a])

/-- `insert` shifts the tail; the index is at most the length at every call. -/
def insert (v : HVec α n) (i : Nat) (a : α) : Option (HVec α n) :=
  if v.toList.length < n then fromSlice (v.toList.insertIdx i a) else none

/-- Assignment through `get_mut`. -/
def set (v : HVec α n) (i : Nat) (a : α) : HVec α n :=
  ⟨v.toList.set i a,by simpa using v.bounded⟩

@[simp] theorem empty_toList : (empty : HVec α n).toList = [] := rfl
@[simp] theorem set_toList (v : HVec α n) (i : Nat) (a : α) :
    (v.set i a).toList = v.toList.set i a := rfl

theorem fromSlice_eq_some {xs : List α} {v : HVec α n} : fromSlice xs = some v ↔ v.toList = xs := by
  unfold fromSlice
  split_ifs with h
  · simp only [Option.some.injEq]
    exact ⟨fun e => e ▸ rfl,fun e => HVec.ext e.symm⟩
  · simp only [false_iff]
    exact fun e => h (e ▸ v.bounded)

theorem fromSlice_eq_none {xs : List α} : (fromSlice xs : Option (HVec α n)) = none ↔ n < xs.length := by
  simp [fromSlice]

theorem push_eq_some {v w : HVec α n} {a : α} : v.push a = some w ↔ w.toList = v.toList ++ [a] :=
  fromSlice_eq_some

theorem push_eq_none {v : HVec α n} {a : α} : v.push a = none ↔ n ≤ v.toList.length := by
  rw [push,fromSlice_eq_none,List.length_append,List.length_singleton]
  omega

theorem insert_eq_some {v w : HVec α n} {i : Nat} {a : α} (hi : i ≤ v.toList.length) :
    v.insert i a = some w ↔ w.toList = v.toList.insertIdx i a := by
  unfold insert
  split_ifs with h
  · exact fromSlice_eq_some
  · simp only [false_iff]
    intro e
    have hw := w.bounded
    rw [e,List.length_insertIdx_of_le_length hi] at hw
    omega

theorem insert_eq_none {v : HVec α n} {i : Nat} {a : α} (hi : i ≤ v.toList.length) :
    v.insert i a = none ↔ n ≤ v.toList.length := by
  unfold insert
  split_ifs with h
  · rw [fromSlice_eq_none,List.length_insertIdx_of_le_length hi]
    omega
  · simpa using h

end HVec

/-- An index map of fixed capacity, in insertion order. -/
@[ext] structure FnvIndexMap (κ ν : Type) (capacity : Nat) where
  entries : List (κ × ν)
  bounded : entries.length ≤ capacity

namespace FnvIndexMap

variable {κ ν : Type} {n : Nat} [DecidableEq κ]

/-- The value of a key in a list of pairs. -/
def find (k : κ) : List (κ × ν) → Option ν
  | [] => none
  | (k',v) :: es => if k' = k then some v else find k es

/-- Replace the value of a key that is present. -/
def replace (k : κ) (v : ν) : List (κ × ν) → List (κ × ν)
  | [] => []
  | (k',v') :: es => if k' = k then (k',v) :: es else (k',v') :: replace k v es

theorem replace_length (k : κ) (v : ν) (es : List (κ × ν)) : (replace k v es).length = es.length := by
  induction es with
  | nil => rfl
  | cons e es ih =>
    rw [replace]
    split_ifs <;> simp [ih]

theorem replace_find {k : κ} {v : ν} {es : List (κ × ν)} (h : find k es = some v) : replace k v es = es := by
  induction es with
  | nil => rfl
  | cons e es ih =>
    obtain ⟨a,b⟩ := e
    rw [find] at h
    rw [replace]
    split_ifs at h ⊢
    · cases h
      rfl
    · rw [ih h]

def empty : FnvIndexMap κ ν n := ⟨[],Nat.zero_le n⟩

def get (m : FnvIndexMap κ ν n) (k : κ) : Option ν := find k m.entries

def containsKey (m : FnvIndexMap κ ν n) (k : κ) : Bool := (m.get k).isSome

/-- Assignment through `get_mut`: nothing happens to an absent key. -/
def set (m : FnvIndexMap κ ν n) (k : κ) (v : ν) : FnvIndexMap κ ν n :=
  ⟨replace k v m.entries,by rw [replace_length]; exact m.bounded⟩

/-- `insert` overwrites a present key and appends an absent one; none where the map is full. -/
def insert (m : FnvIndexMap κ ν n) (k : κ) (v : ν) : Option (FnvIndexMap κ ν n) :=
  if m.containsKey k then some (m.set k v)
  else if h : (m.entries ++ [(k,v)]).length ≤ n then some ⟨m.entries ++ [(k,v)],h⟩
  else none

@[simp] theorem get_empty (k : κ) : (empty : FnvIndexMap κ ν n).get k = none := rfl

theorem find_replace (k k' : κ) (v : ν) (es : List (κ × ν)) :
    find k' (replace k v es) = if k' = k then (find k es).map (fun _ => v) else find k' es := by
  induction es with
  | nil => simp [replace,find]
  | cons e es ih =>
    obtain ⟨a,b⟩ := e
    by_cases ha : a = k
    · subst ha
      by_cases hk : k' = a
      · simp [replace,find,hk]
      · simp [replace,find,hk,Ne.symm hk]
    · by_cases hk : k' = k
      · subst hk
        simpa [replace,find,ha] using ih
      · by_cases hka : a = k' <;> simp [replace,find,ha,hk,hka,ih]

theorem find_append_single (k k' : κ) (v : ν) (es : List (κ × ν)) (h : find k es = none) :
    find k' (es ++ [(k,v)]) = if k' = k then some v else find k' es := by
  induction es with
  | nil => simp [find,eq_comm]
  | cons e es ih =>
    obtain ⟨a,b⟩ := e
    rw [find] at h
    split_ifs at h with ha
    rw [List.cons_append,find,find,ih h]
    by_cases hk : k' = k
    · subst hk
      simp [ha]
    · simp [hk]

theorem set_get (m : FnvIndexMap κ ν n) (k k' : κ) (v : ν) :
    (m.set k v).get k' = if k' = k then (m.get k).map (fun _ => v) else m.get k' :=
  find_replace k k' v m.entries

theorem set_self {m : FnvIndexMap κ ν n} {k : κ} {v : ν} (h : m.get k = some v) : m.set k v = m :=
  FnvIndexMap.ext (replace_find h)

theorem insert_get {m m' : FnvIndexMap κ ν n} {k : κ} {v : ν} (h : m.insert k v = some m') (k' : κ) :
    m'.get k' = if k' = k then some v else m.get k' := by
  unfold insert at h
  split_ifs at h with hc hl
  · cases h
    obtain ⟨w,hw⟩ := Option.isSome_iff_exists.mp hc
    rw [set_get,hw]
    rfl
  · cases h
    exact find_append_single k k' v m.entries (by simpa [containsKey,get] using hc)

theorem insert_eq_none {m : FnvIndexMap κ ν n} {k : κ} {v : ν} :
    m.insert k v = none ↔ m.containsKey k = false ∧ n ≤ m.entries.length := by
  unfold insert
  split_ifs with hc hl
  · simp [hc]
  · simp only [List.length_append,List.length_singleton] at hl
    simp only [false_iff,not_and,Nat.not_le]
    omega
  · simp only [List.length_append,List.length_singleton] at hl
    simp only [true_iff]
    exact ⟨by simpa using hc,by omega⟩

/-- The keys, in insertion order. -/
def keys (m : FnvIndexMap κ ν n) : List κ := m.entries.map Prod.fst

theorem replace_keys (k : κ) (v : ν) (es : List (κ × ν)) : (replace k v es).map Prod.fst = es.map Prod.fst := by
  induction es with
  | nil => rfl
  | cons e es ih =>
    rw [replace]
    split_ifs with he
    · simp
    · simp [ih]

theorem find_isSome (k : κ) (es : List (κ × ν)) : (find k es).isSome = true ↔ k ∈ es.map Prod.fst := by
  induction es with
  | nil => simp [find]
  | cons e es ih =>
    rw [find]
    split_ifs with he
    · simp [he]
    · simp [ih,Ne.symm he]

theorem mem_keys {m : FnvIndexMap κ ν n} {k : κ} : k ∈ m.keys ↔ m.containsKey k = true :=
  (find_isSome k m.entries).symm

/-- No key stands in a map twice. -/
theorem insert_nodup {m m' : FnvIndexMap κ ν n} {k : κ} {v : ν} (h : m.insert k v = some m') (hm : m.keys.Nodup) :
    m'.keys.Nodup := by
  unfold insert at h
  split_ifs at h with hc
  · cases h
    rw [keys,set,replace_keys]
    exact hm
  · cases h
    rw [keys,List.map_append,List.map_singleton,List.nodup_append]
    refine ⟨hm,by simp,fun a ha b hb => ?_⟩
    rw [List.mem_singleton.mp hb]
    rintro rfl
    exact hc (mem_keys.mp ha)

end FnvIndexMap

end Finder
