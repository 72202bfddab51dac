import Mathlib.Data.List.Nodup
import Mathlib.Data.List.Perm.Subperm
import Mathlib.Data.Nat.ModEq
import Mathlib.Tactic.Common

namespace Finder

section Rotation

variable {modulus n start count i j : Nat}

/-- The place in a row of `n` that a counter names, `i` steps from its start. The counter begins again at its
modulus. -/
def place (modulus n start i : Nat) : Nat := (start+i)%modulus%n

def turns (modulus n start count : Nat) : List Nat := (List.range count).map (place modulus n start)

theorem turns_succ : turns modulus n start (count+1) =
    start%modulus%n::turns modulus n (start%modulus+1) count := by
  rw [turns,List.range_succ_eq_map,List.map_cons,List.map_map]
  congr 1
  refine List.map_congr_left (fun i _ => ?_)
  rw [Function.comp_apply,place,place,Nat.add_assoc (start%modulus),Nat.mod_add_mod,Nat.succ_eq_add_one,
    Nat.add_comm i]

/-- What is seen from some step on for a while. -/
theorem turns_window {length : Nat} (h : i+length ≤ count) :
    ((turns modulus n start count).drop i).take length = turns modulus n (start+i) length := by
  refine List.ext_getElem (by simp [turns]; omega) (fun k _ _ => ?_)
  simp only [turns,List.getElem_take,List.getElem_drop,List.getElem_map,List.getElem_range,place,Nat.add_assoc]

theorem place_lt (hn : 0 < n) (i : Nat) : place modulus n start i < n := Nat.mod_lt _ hn

/-- The counter does not begin again on the way, or does so at a whole number of rounds. -/
def Evenly (modulus n start : Nat) : Prop := start%modulus+n ≤ modulus ∨ n ∣ modulus

instance (modulus n start : Nat) : Decidable (Evenly modulus n start) := by
  unfold Evenly
  infer_instance

/-- Then it goes around evenly. -/
theorem Evenly.place_eq (h : Evenly modulus n start) (hi : i < n) : place modulus n start i = (start%modulus+i)%n := by
  rw [place,←Nat.mod_add_mod]
  rcases h with hroom | hdvd
  · rw [Nat.mod_eq_of_lt (show start%modulus+i < modulus by omega)]
  · rw [Nat.mod_mod_of_dvd _ hdvd]

theorem Evenly.place_inj (h : Evenly modulus n start) (hi : i < n) (hj : j < n)
    (hsame : place modulus n start i = place modulus n start j) : i = j := by
  rw [h.place_eq hi,h.place_eq hj] at hsame
  have hmod : i ≡ j [MOD n] := Nat.ModEq.add_left_cancel' _ hsame
  exact hmod.eq_of_lt_of_lt hi hj

/-- A round that comes to no place twice comes to all of them. -/
theorem turns_perm_of_nodup (hnodup : (turns modulus n start n).Nodup) :
    (turns modulus n start n).Perm (List.range n) := by
  have hsub : turns modulus n start n ⊆ List.range n := by
    intro x hx
    obtain ⟨i,hi,rfl⟩ := List.mem_map.mp hx
    exact List.mem_range.mpr (place_lt (Nat.zero_lt_of_lt (List.mem_range.mp hi)) i)
  refine (List.subperm_of_subset hnodup hsub).perm_of_length_le ?_
  rw [turns,List.length_map]

theorem Evenly.turns_perm (h : Evenly modulus n start) : (turns modulus n start n).Perm (List.range n) := by
  refine turns_perm_of_nodup (List.Nodup.map_on (fun i hi j hj hsame => ?_) List.nodup_range)
  exact h.place_inj (List.mem_range.mp hi) (List.mem_range.mp hj) hsame

/-- Where it begins again in the midst of a round, it comes to a place twice. -/
theorem place_twice (hmod : 0 < modulus) (h : ¬Evenly modulus n start) :
    ∃ i j, i < j ∧ j < n ∧ place modulus n start i = place modulus n start j := by
  unfold Evenly at h
  rw [not_or] at h
  obtain ⟨hroom,hdvd⟩ := h
  have hlow := Nat.mod_lt start hmod
  have hrest := Nat.mod_lt modulus (show 0 < n by omega)
  have hpos : 0 < modulus%n := Nat.pos_of_ne_zero (fun hzero => hdvd (Nat.dvd_of_mod_eq_zero hzero))
  have hle := Nat.mod_le modulus n
  -- as far behind the beginning as one is before the end of the last whole round
  obtain ⟨x,hx⟩ : ∃ x, x+1 = min (modulus%n) (start%modulus+n-modulus) := ⟨_,Nat.sub_add_cancel (by omega)⟩
  refine ⟨modulus-start%modulus-(modulus%n-x),modulus-start%modulus+x,by omega,by omega,?_⟩
  have hbefore : start%modulus+(modulus-start%modulus-(modulus%n-x)) = n*(modulus/n)+x := by
    have hdiv := Nat.mod_add_div modulus n
    omega
  have hbehind : start%modulus+(modulus-start%modulus+x) = modulus+x := by omega
  have hend : n*(modulus/n)+x < modulus := by omega
  rw [place,place,←Nat.mod_add_mod,←Nat.mod_add_mod start,hbefore,hbehind,Nat.mod_eq_of_lt hend,
    Nat.add_mod_left,Nat.mod_eq_of_lt (show x < modulus by omega),Nat.mul_add_mod]

theorem turns_perm_iff (hmod : 0 < modulus) :
    (turns modulus n start n).Perm (List.range n) ↔ Evenly modulus n start := by
  refine ⟨fun hperm => ?_,Evenly.turns_perm⟩
  by_contra hodd
  obtain ⟨i,j,hij,hj,hsame⟩ := place_twice hmod hodd
  have hnodup := hperm.nodup_iff.mpr List.nodup_range
  have hinj := List.inj_on_of_nodup_map hnodup (List.mem_range.mpr (hij.trans hj)) (List.mem_range.mpr hj) hsame
  exact absurd hinj (Nat.ne_of_lt hij)

/-- The entries at all places, in order. -/
theorem map_getD_range {α : Type} (xs : List α) (a : α) :
    (List.range xs.length).map (fun i => xs.getD i a) = xs := by
  refine List.ext_getElem (by simp) (fun i _ hi => ?_)
  rw [List.getElem_map,List.getElem_range,List.getD_eq_getElem?_getD,List.getElem?_eq_getElem hi,Option.getD_some]

end Rotation

end Finder
