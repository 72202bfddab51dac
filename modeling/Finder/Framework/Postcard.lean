import Finder.Math.Bytes

namespace Finder

/-- The errors of the serializer that the protocol tells apart. -/
inductive PostcardError where
  | serializeBufferFull
  | deserialize (code : Nat)
  deriving DecidableEq, Repr

/-- The serialized form of a type. Reading a value back from its own bytes gives the value;
`written` is what an encoder has put into a slice of the given length when it finds it full. -/
class Postcard (α : Type) where
  toBytes : α → Bytes
  fromBytes : Bytes → Except PostcardError α
  written : α → Nat → Nat
  fromBytes_toBytes : ∀ a, fromBytes (toBytes a) = .ok a

export Postcard (toBytes fromBytes)

attribute [simp] Postcard.fromBytes_toBytes

section

variable {α : Type} [Postcard α]

/-- `to_slice`: the encoding, and the target slice afterwards. -/
def toSlice (a : α) (target : Bytes) : Except PostcardError Bytes × Bytes :=
  if (toBytes a).length ≤ target.length then
    (.ok (toBytes a),overwrite target 0 (toBytes a))
  else
    (.error .serializeBufferFull,
      overwrite target 0 ((toBytes a).take (min (Postcard.written a target.length) target.length)))

theorem toSlice_ok {a : α} {target : Bytes} (h : (toBytes a).length ≤ target.length) :
    toSlice a target = (.ok (toBytes a),overwrite target 0 (toBytes a)) := by
  simp [toSlice,h]

theorem toSlice_target_length (a : α) (target : Bytes) :
    (toSlice a target).2.length = target.length := by
  unfold toSlice
  split_ifs with h
  · exact overwrite_length (by omega)
  · apply overwrite_length
    rw [List.length_take]
    omega

end

end Finder
