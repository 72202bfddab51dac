import Finder.Math.Bytes
import Mathlib.Order.Defs.LinearOrder
import Mathlib.Order.Basic
import Mathlib.Order.Fin.Basic

namespace Finder

def sha256Size : Nat := 32

/-- 32 bytes, kept as the number they stand for most significant byte first: the derived order
of `[u8; 32]` is the order of that number. -/
structure Id where
  value : Fin (2^256)

namespace Id

instance neZero : NeZero (2^256) := ⟨by decide⟩

theorem ext {a b : Id} (h : a.value = b.value) : a = b := by
  cases a
  cases b
  exact congrArg Id.mk h

instance : LinearOrder Id := LinearOrder.lift' Id.value (fun _ _ => ext)

def toBeBytes (a : Id) : Bytes := beBytes sha256Size a.value.val

/-- `From<u8>`: every byte is the given one. -/
def ofByte (b : UInt8) : Id := ⟨Fin.ofNat (2^256) (b.toNat*((2^256-1)/255))⟩

theorem toBeBytes_injective : Function.Injective toBeBytes := by
  intro a b h
  have hn := congrArg beNat h
  simp only [toBeBytes,sha256Size,beNat_beBytes] at hn
  apply ext
  apply Fin.ext
  have ha := a.value.isLt
  have hb := b.value.isLt
  rwa [Nat.mod_eq_of_lt (by omega),Nat.mod_eq_of_lt (by omega)] at hn

theorem zero_le (a : Id) : ofByte 0 ≤ a := by
  change (ofByte 0).value ≤ a.value
  exact Fin.zero_le _

end Id

structure NodeId where
  id : Id

structure EnvelopeId where
  id : Id

structure ChannelId where
  id : Id

namespace NodeId

theorem ext {a b : NodeId} (h : a.id = b.id) : a = b := by
  cases a
  cases b
  exact congrArg NodeId.mk h

instance : LinearOrder NodeId := LinearOrder.lift' NodeId.id (fun _ _ => ext)

def toBeBytes (n : NodeId) : Bytes := n.id.toBeBytes

end NodeId

namespace EnvelopeId

theorem ext {a b : EnvelopeId} (h : a.id = b.id) : a = b := by
  cases a
  cases b
  exact congrArg EnvelopeId.mk h

instance : LinearOrder EnvelopeId := LinearOrder.lift' EnvelopeId.id (fun _ _ => ext)

/-- `EnvelopeId::new(0)`, the virtual envelope before the first. -/
def zero : EnvelopeId := ⟨Id.ofByte 0⟩

theorem zero_le (e : EnvelopeId) : zero ≤ e := Id.zero_le e.id

end EnvelopeId

namespace ChannelId

theorem ext {a b : ChannelId} (h : a.id = b.id) : a = b := by
  cases a
  cases b
  exact congrArg ChannelId.mk h

instance : LinearOrder ChannelId := LinearOrder.lift' ChannelId.id (fun _ _ => ext)

def toBeBytes (c : ChannelId) : Bytes := c.id.toBeBytes

end ChannelId

structure KeyPair (S P : Type) where
  pub : P
  priv : S

end Finder
