import Finder.Framework.Call

namespace Finder

/-- A `u64` as a value below its modulus. -/
abbrev U64 := Fin (2^64)

namespace U64

instance neZero : NeZero (2^64) := ⟨by decide⟩

/-- `checked_add(1)`. -/
def checkedSucc (a : U64) : Option U64 := if h : a.val+1 < 2^64 then some ⟨a.val+1,h⟩ else none

/-- `saturating_sub(1)`. -/
def saturatingPred (a : U64) : U64 := ⟨a.val-1,by omega⟩

/-- `a + b` with overflow checks on. -/
def plainAdd {ε : Type} (a b : U64) : Outcome ε U64 :=
  if h : a.val+b.val < 2^64 then .ok ⟨a.val+b.val,h⟩ else .panic

/-- `a - b` with overflow checks on. -/
def plainSub {ε : Type} (a b : U64) : Outcome ε U64 :=
  if b ≤ a then .ok ⟨a.val-b.val,by omega⟩ else .panic

@[simp] theorem saturatingPred_val (a : U64) : (saturatingPred a).val = a.val-1 := rfl

theorem checkedSucc_eq_some {a b : U64} : checkedSucc a = some b ↔ b.val = a.val+1 := by
  unfold checkedSucc
  split_ifs with h
  · simp only [Option.some.injEq,Fin.ext_iff]
    exact eq_comm
  · simp only [false_iff]
    have := b.isLt
    omega

theorem checkedSucc_eq_none {a : U64} : checkedSucc a = none ↔ a.val = 2^64-1 := by
  unfold checkedSucc
  split_ifs with h
  · simp only [false_iff]
    omega
  · simp only [true_iff]
    have := a.isLt
    omega

theorem plainAdd_eq_ok {ε : Type} {a b c : U64} :
    (plainAdd a b : Outcome ε U64) = .ok c ↔ c.val = a.val+b.val := by
  unfold plainAdd
  split_ifs with h
  · simp only [Outcome.ok.injEq,Fin.ext_iff]
    exact eq_comm
  · simp only [false_iff]
    have := c.isLt
    omega

theorem plainAdd_eq_panic {ε : Type} {a b : U64} :
    (plainAdd a b : Outcome ε U64) = .panic ↔ 2^64 ≤ a.val+b.val := by
  unfold plainAdd
  split_ifs with h
  · simp only [false_iff]
    omega
  · simp only [true_iff]
    omega

theorem plainSub_of_le {ε : Type} {a b : U64} (h : b ≤ a) :
    (plainSub a b : Outcome ε U64) = .ok ⟨a.val-b.val,by omega⟩ := if_pos h

end U64

/-- A `u16`; its addition wraps. -/
abbrev U16 := Fin (2^16)

instance U16.neZero : NeZero (2^16) := ⟨by decide⟩

/-- A `u32`; its addition wraps. -/
abbrev U32 := Fin (2^32)

instance U32.neZero : NeZero (2^32) := ⟨by decide⟩

def u32Max : Nat := 2^32-1

/-- The word size of the machine: the firmware targets have 32 bits, a desktop has 64. -/
class Target where
  usizeBits : Nat
  wide : usizeBits = 32 ∨ usizeBits = 64

def usizeMax [Target] : Nat := 2^Target.usizeBits-1

/-- The longest slice: Rust bounds every slice by `isize::MAX` bytes. -/
def isizeMax [Target] : Nat := 2^(Target.usizeBits-1)-1

/-- `checked_add` on an unsigned type with the given greatest value. -/
def checkedAdd (limit a b : Nat) : Option Nat := if a+b ≤ limit then some (a+b) else none

/-- `a + b` with overflow checks on. -/
def plainAdd {ε : Type} (limit a b : Nat) : Outcome ε Nat := if a+b ≤ limit then .ok (a+b) else .panic

/-- `a - b` with overflow checks on. -/
def plainSub {ε : Type} (a b : Nat) : Outcome ε Nat := if b ≤ a then .ok (a-b) else .panic

/-- `a * b` with overflow checks on. -/
def plainMul {ε : Type} (limit a b : Nat) : Outcome ε Nat := if a*b ≤ limit then .ok (a*b) else .panic

/-- `a % b`, which panics where `b` is zero. -/
def plainRem {ε : Type} (a b : Nat) : Outcome ε Nat := if b = 0 then .panic else .ok (a%b)

theorem checkedAdd_eq_some {limit a b c : Nat} :
    checkedAdd limit a b = some c ↔ a+b ≤ limit ∧ c = a+b := by
  unfold checkedAdd
  split_ifs with h <;> simp [h,eq_comm]

theorem plainAdd_eq_ok {ε : Type} {limit a b c : Nat} :
    (plainAdd limit a b : Outcome ε Nat) = .ok c ↔ a+b ≤ limit ∧ c = a+b := by
  unfold plainAdd
  split_ifs with h <;> simp [h,eq_comm]

theorem plainSub_eq_ok {ε : Type} {a b c : Nat} : (plainSub a b : Outcome ε Nat) = .ok c ↔ b ≤ a ∧ c = a-b := by
  unfold plainSub
  split_ifs with h <;> simp [h,eq_comm]

theorem plainMul_eq_ok {ε : Type} {limit a b c : Nat} :
    (plainMul limit a b : Outcome ε Nat) = .ok c ↔ a*b ≤ limit ∧ c = a*b := by
  unfold plainMul
  split_ifs with h <;> simp [h,eq_comm]

theorem plainRem_eq_ok {ε : Type} {a b c : Nat} : (plainRem a b : Outcome ε Nat) = .ok c ↔ b ≠ 0 ∧ c = a%b := by
  unfold plainRem
  split_ifs with h <;> simp [h,eq_comm]

theorem usizeMax_eq [Target] : usizeMax = 2*isizeMax+1 := by
  rcases Target.wide with h | h <;> simp [usizeMax,isizeMax,h]

theorem usizeMax_lt [Target] : usizeMax < 2^64 := by
  rcases Target.wide with h | h <;> simp [usizeMax,h]

theorem u32Max_le_usizeMax [Target] : u32Max ≤ usizeMax := by
  rcases Target.wide with h | h <;> simp [usizeMax,u32Max,h]

end Finder
