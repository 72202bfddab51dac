import Mathlib.Algebra.Group.Nat.Defs
import Mathlib.Data.List.Induction
import Mathlib.Tactic.Ring

namespace Finder

abbrev Bytes := List UInt8

/-- `slice::get(start..stop)`. -/
def getRange (data : Bytes) (start stop : Nat) : Option Bytes :=
  if start ≤ stop ∧ stop ≤ data.length then some ((data.drop start).take (stop-start)) else none

/-- `copy_from_slice` at a position where the piece fits. -/
def overwrite (data : Bytes) (start : Nat) (piece : Bytes) : Bytes :=
  data.take start ++ piece ++ data.drop (start+piece.length)

/-- The low `n` bytes of a number, most significant first. -/
def beBytes : Nat → Nat → Bytes
  | 0,_ => []
  | n+1,v => beBytes n (v/256) ++ [UInt8.ofNat v]

/-- The number a big-endian byte string stands for. -/
def beNat (b : Bytes) : Nat := b.foldl (fun acc x => 256*acc+x.toNat) 0

theorem getRange_eq_some {data b : Bytes} {i j : Nat} :
    getRange data i j = some b ↔ i ≤ j ∧ j ≤ data.length ∧ b = (data.drop i).take (j-i) := by
  unfold getRange
  split_ifs with h
  · simp [h,eq_comm]
  · simp only [false_iff]
    tauto

theorem getRange_length {data b : Bytes} {i j : Nat} (h : getRange data i j = some b) :
    b.length = j-i := by
  obtain ⟨hij,hj,rfl⟩ := getRange_eq_some.mp h
  simp only [List.length_take,List.length_drop]
  omega

theorem getRange_some_of_le {data : Bytes} {i j : Nat} (hij : i ≤ j) (hj : j ≤ data.length) :
    getRange data i j = some ((data.drop i).take (j-i)) := by
  simp [getRange,hij,hj]

theorem getRange_getElem {data b : Bytes} {i j : Nat} (h : getRange data i j = some b) (k : Nat)
    (hk : k < j-i) : b[k]? = data[i+k]? := by
  obtain ⟨_,_,rfl⟩ := getRange_eq_some.mp h
  rw [List.getElem?_take_of_lt hk,List.getElem?_drop]

/-- A range only depends on the bytes inside it. -/
theorem getRange_congr {data data' : Bytes} {i j : Nat} (hl : data'.length = data.length)
    (h : ∀ k, i ≤ k → k < j → data'[k]? = data[k]?) : getRange data' i j = getRange data i j := by
  unfold getRange
  rw [hl]
  split_ifs with hr
  · congr 1
    apply List.ext_getElem?
    intro k
    by_cases hk : k < j-i
    · rw [List.getElem?_take_of_lt hk,List.getElem?_take_of_lt hk,List.getElem?_drop,
        List.getElem?_drop]
      exact h (i+k) (by omega) (by omega)
    · rw [List.getElem?_eq_none (by rw [List.length_take]; omega),
        List.getElem?_eq_none (by rw [List.length_take]; omega)]
  · rfl

/-- A range is the same in other bytes that agree on it. -/
theorem getRange_shared {data data' b : Bytes} {i j : Nat} (h : getRange data i j = some b) (hj : j ≤ data'.length)
    (hd : ∀ k, i ≤ k → k < j → data'[k]? = data[k]?) : getRange data' i j = some b := by
  obtain ⟨hij,_,rfl⟩ := getRange_eq_some.mp h
  refine getRange_eq_some.mpr ⟨hij,hj,?_⟩
  apply List.ext_getElem?
  intro k
  by_cases hk : k < j-i
  · rw [List.getElem?_take_of_lt hk,List.getElem?_take_of_lt hk,List.getElem?_drop,List.getElem?_drop]
    exact (hd (i+k) (by omega) (by omega)).symm
  · rw [List.getElem?_take_eq_none (by omega),List.getElem?_take_eq_none (by omega)]

/-- A range of a range. -/
theorem getRange_getRange {data b : Bytes} {i j k l : Nat} (h : getRange data i j = some b)
    (hl : l ≤ j-i) : getRange b k l = getRange data (i+k) (i+l) := by
  have hb := getRange_length h
  have hr := getRange_eq_some.mp h
  by_cases hkl : k ≤ l
  · rw [getRange_some_of_le hkl (by omega),getRange_some_of_le (by omega) (by omega),hr.2.2]
    congr 1
    rw [List.drop_take,List.drop_drop,List.take_take]
    congr 1
    omega
  · simp [getRange,hkl]

theorem overwrite_length {data piece : Bytes} {i : Nat} (h : i+piece.length ≤ data.length) :
    (overwrite data i piece).length = data.length := by
  simp only [overwrite,List.length_append,List.length_take,List.length_drop]
  omega

theorem overwrite_getElem {data piece : Bytes} {i : Nat} (h : i+piece.length ≤ data.length) (k : Nat) :
    (overwrite data i piece)[k]? =
      if i ≤ k ∧ k < i+piece.length then piece[k-i]? else data[k]? := by
  have ht : (data.take i).length = i := by rw [List.length_take]; omega
  unfold overwrite
  by_cases h1 : k < i
  · rw [if_neg (by omega),List.append_assoc,List.getElem?_append_left (by omega),
      List.getElem?_take_of_lt h1]
  · by_cases h2 : k < i+piece.length
    · rw [if_pos ⟨by omega,h2⟩,List.getElem?_append_left (by rw [List.length_append]; omega),
        List.getElem?_append_right (by omega),ht]
    · rw [if_neg (by omega),List.getElem?_append_right (by rw [List.length_append]; omega),
        List.length_append,ht,List.getElem?_drop]
      congr 1
      omega

/-- Outside the piece nothing changes. -/
theorem getRange_overwrite_of_disjoint {data piece : Bytes} {i j k : Nat}
    (h : i+piece.length ≤ data.length) (hd : k ≤ i ∨ i+piece.length ≤ j) :
    getRange (overwrite data i piece) j k = getRange data j k := by
  apply getRange_congr (overwrite_length h)
  intro l hjl hlk
  rw [overwrite_getElem h,if_neg (by omega)]

theorem getRange_overwrite_self {data piece : Bytes} {i : Nat} (h : i+piece.length ≤ data.length) :
    getRange (overwrite data i piece) i (i+piece.length) = some piece := by
  rw [getRange_some_of_le (by omega) (by rw [overwrite_length h]; exact h)]
  congr 1
  have ht : (data.take i).length = i := by rw [List.length_take]; omega
  rw [overwrite,List.append_assoc,List.drop_append_of_le_length (by omega),
    List.drop_of_length_le (by omega),List.nil_append,Nat.add_sub_cancel_left]
  exact List.take_left' rfl

/-- Writing back a slice into which a piece was written is writing the piece. -/
theorem overwrite_overwrite_slice {data target piece : Bytes} {i j : Nat}
    (h : getRange data i j = some target) (hp : piece.length ≤ target.length) :
    overwrite data i (overwrite target 0 piece) = overwrite data i piece := by
  have hr := getRange_eq_some.mp h
  have hlen := getRange_length h
  have htl : (overwrite target 0 piece).length = target.length := overwrite_length (by omega)
  apply List.ext_getElem?
  intro k
  have hwide : i+(overwrite target 0 piece).length ≤ data.length := by omega
  have hnarrow : i+piece.length ≤ data.length := by omega
  rw [overwrite_getElem hwide,overwrite_getElem hnarrow,htl]
  by_cases hk : i ≤ k ∧ k < i+target.length
  · rw [if_pos hk,overwrite_getElem (by omega)]
    by_cases hk' : k < i+piece.length
    · rw [if_pos ⟨by omega,by omega⟩,if_pos ⟨hk.1,hk'⟩,Nat.sub_zero]
    · rw [if_neg (by omega),if_neg (by omega),getRange_getElem h (k-i) (by omega)]
      congr 1
      omega
  · rw [if_neg hk,if_neg (by omega)]

/-- Two adjacent pieces, the later one written first. -/
theorem overwrite_overwrite_adjacent {data x y : Bytes} {i : Nat}
    (h : i+x.length+y.length ≤ data.length) :
    overwrite (overwrite data (i+x.length) y) i x = overwrite data i (x ++ y) := by
  have hl : (overwrite data (i+x.length) y).length = data.length := overwrite_length h
  apply List.ext_getElem?
  intro k
  have hx : i+x.length ≤ (overwrite data (i+x.length) y).length := by omega
  have hxy : i+(x ++ y).length ≤ data.length := by rw [List.length_append]; omega
  rw [overwrite_getElem hx,overwrite_getElem h,overwrite_getElem hxy,List.length_append]
  by_cases hx : i ≤ k ∧ k < i+x.length
  · rw [if_pos hx,if_pos (by omega),List.getElem?_append_left (by omega)]
  · by_cases hy : i+x.length ≤ k ∧ k < i+x.length+y.length
    · rw [if_neg hx,if_pos hy,if_pos (by omega),List.getElem?_append_right (by omega)]
      congr 1
      omega
    · rw [if_neg hx,if_neg hy,if_neg (by omega)]

/-- Two adjacent pieces, the earlier one written first. -/
theorem overwrite_append {data x y : Bytes} {i : Nat} (h : i+x.length+y.length ≤ data.length) :
    overwrite (overwrite data i x) (i+x.length) y = overwrite data i (x ++ y) := by
  have hl : (overwrite data i x).length = data.length := overwrite_length (by omega)
  apply List.ext_getElem?
  intro k
  rw [overwrite_getElem (by omega),overwrite_getElem (by omega),
    overwrite_getElem (by rw [List.length_append]; omega),List.length_append]
  by_cases hx : i ≤ k ∧ k < i+x.length
  · rw [if_neg (by omega),if_pos hx,if_pos (by omega),List.getElem?_append_left (by omega)]
  · by_cases hy : i+x.length ≤ k ∧ k < i+x.length+y.length
    · rw [if_pos hy,if_pos (by omega),List.getElem?_append_right (by omega)]
      congr 1
      omega
    · rw [if_neg hy,if_neg hx,if_neg (by omega)]

@[simp] theorem overwrite_nil (data : Bytes) (i : Nat) : overwrite data i [] = data := by simp [overwrite]

/-- Two adjacent ranges are one range. -/
theorem getRange_append {data x y : Bytes} {i j k : Nat} (hx : getRange data i j = some x)
    (hy : getRange data j k = some y) : getRange data i k = some (x ++ y) := by
  obtain ⟨hij,hj,rfl⟩ := getRange_eq_some.mp hx
  obtain ⟨hjk,hk,rfl⟩ := getRange_eq_some.mp hy
  refine getRange_eq_some.mpr ⟨by omega,hk,?_⟩
  rw [show k-i = (j-i)+(k-j) by omega,List.take_add,List.drop_drop,show i+(j-i) = j by omega]

/-- A range that holds two pieces holds each at its place. -/
theorem getRange_split {data x y : Bytes} {i k : Nat} (h : getRange data i k = some (x ++ y)) :
    getRange data i (i+x.length) = some x ∧ getRange data (i+x.length) k = some y := by
  obtain ⟨hik,hk,he⟩ := getRange_eq_some.mp h
  have hlen := getRange_length h
  rw [List.length_append] at hlen
  constructor
  · refine getRange_eq_some.mpr ⟨by omega,by omega,?_⟩
    have ht := congrArg (List.take x.length) he
    rw [List.take_left' rfl,List.take_take,Nat.min_eq_left (by omega)] at ht
    rwa [Nat.add_sub_cancel_left]
  · refine getRange_eq_some.mpr ⟨by omega,hk,?_⟩
    have hd := congrArg (List.drop x.length) he
    rw [List.drop_left' rfl,List.drop_take,List.drop_drop] at hd
    rw [hd]
    congr 1
    omega

theorem getRange_refl {data : Bytes} {i : Nat} (h : i ≤ data.length) : getRange data i i = some [] := by
  simp [getRange,h]

@[simp] theorem beBytes_length (n v : Nat) : (beBytes n v).length = n := by
  induction n generalizing v with
  | zero => rfl
  | succ n ih => simp [beBytes,ih]

theorem beNat_append_single (b : Bytes) (x : UInt8) : beNat (b ++ [x]) = 256*beNat b+x.toNat := by
  simp [beNat,List.foldl_append]

/-- `from_be_bytes (to_be_bytes v)`, with the truncation of a narrower type. -/
theorem beNat_beBytes (n v : Nat) : beNat (beBytes n v) = v%256^n := by
  induction n generalizing v with
  | zero => simp [beBytes,beNat,Nat.mod_one]
  | succ n ih =>
    have hp : 256^(n+1) = 256*256^n := by ring
    rw [beBytes,beNat_append_single,ih,UInt8.toNat_ofNat',hp,Nat.mod_mul]
    omega

theorem beNat_lt (b : Bytes) : beNat b < 256^b.length := by
  induction b using List.reverseRecOn with
  | nil => simp [beNat]
  | append_singleton b x ih =>
    have hp : 256^(b.length+1) = 256*256^b.length := by ring
    have hx := x.toNat_lt
    rw [beNat_append_single,List.length_append,List.length_singleton,hp]
    omega

/-- `to_be_bytes (from_be_bytes b)`. -/
theorem beBytes_beNat (b : Bytes) : beBytes b.length (beNat b) = b := by
  induction b using List.reverseRecOn with
  | nil => rfl
  | append_singleton b x ih =>
    have hx := x.toNat_lt
    have hhigh : (256*beNat b+x.toNat)/256 = beNat b := by omega
    have hlow : UInt8.ofNat (256*beNat b+x.toNat) = x := by
      apply UInt8.toNat_inj.mp
      rw [UInt8.toNat_ofNat']
      omega
    rw [beNat_append_single,List.length_append,List.length_singleton,beBytes,hhigh,hlow,ih]

end Finder
