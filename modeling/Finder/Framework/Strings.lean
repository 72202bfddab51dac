import Finder.Framework.Heapless
import Finder.Math.Bytes

namespace Finder

/-- The ranges of the bytes of a character behind its first one; none where no character begins with it. -/
def utf8Tail (a : UInt8) : Option (List (UInt8 × UInt8)) :=
  if a < 0x80 then some []
  else if 0xc2 ≤ a ∧ a ≤ 0xdf then some [(0x80,0xbf)]
  else if a = 0xe0 then some [(0xa0,0xbf),(0x80,0xbf)]
  else if a = 0xed then some [(0x80,0x9f),(0x80,0xbf)]
  else if 0xe1 ≤ a ∧ a ≤ 0xef then some [(0x80,0xbf),(0x80,0xbf)]
  else if a = 0xf0 then some [(0x90,0xbf),(0x80,0xbf),(0x80,0xbf)]
  else if 0xf1 ≤ a ∧ a ≤ 0xf3 then some [(0x80,0xbf),(0x80,0xbf),(0x80,0xbf)]
  else if a = 0xf4 then some [(0x80,0x8f),(0x80,0xbf),(0x80,0xbf)]
  else none

/-- The rest of a character, and whole characters behind it. -/
def utf8Rest : List (UInt8 × UInt8) → Bytes → Bool
  | [],[] => true
  | _::_,[] => false
  | [],a::rest => (utf8Tail a).elim false (fun tail => utf8Rest tail rest)
  | (least,greatest)::tail,a::rest => decide (least ≤ a ∧ a ≤ greatest) && utf8Rest tail rest

/-- `core::str::from_utf8` takes the bytes. -/
def isUtf8 (b : Bytes) : Bool := utf8Rest [] b

/-- A `&str`: its bytes in UTF-8. -/
@[ext] structure Str where
  bytes : Bytes
  utf8 : isUtf8 bytes = true
  deriving DecidableEq

def Str.empty : Str := ⟨[],rfl⟩

/-- A string of fixed capacity, in bytes. -/
@[ext] structure HString (capacity : Nat) where
  str : Str
  bounded : str.bytes.length ≤ capacity
  deriving DecidableEq

namespace HString

variable {n : Nat}

def new : HString n := ⟨Str.empty,Nat.zero_le n⟩

/-- `try_from`: none where the string is longer than the capacity. -/
def tryFrom (s : Str) : Option (HString n) := if h : s.bytes.length ≤ n then some ⟨s,h⟩ else none

theorem tryFrom_eq_some {s : Str} {v : HString n} : tryFrom s = some v ↔ v.str = s := by
  unfold tryFrom
  split_ifs with h
  · simp only [Option.some.injEq]
    exact ⟨fun e => e ▸ rfl,fun e => HString.ext e.symm⟩
  · simp only [false_iff]
    exact fun e => h (e ▸ v.bounded)

end HString

/-- The euro sign, a surrogate, and a byte that stands alone. -/
example : isUtf8 [0xe2,0x82,0xac] = true ∧ isUtf8 [0xed,0xa0,0x80] = false ∧ isUtf8 [0x80] = false := by decide

end Finder
