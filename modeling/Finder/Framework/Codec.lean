import Finder.Framework.Machine
import Finder.Framework.Postcard
import Finder.Framework.Strings

namespace Finder

/-- A reader of bytes that does not look at what follows those it reads. -/
def Local {α : Type} (read : Bytes → Option (α × Bytes)) : Prop :=
  ∀ b a rest, read b = some (a,rest) → ∀ more, read (b ++ more) = some (a,rest ++ more)

/-- A format in which a value tells where it ends: what follows it does not matter. `written` is what of a value goes
into a slice of the given length, up to the piece that has no room. -/
class Codec (α : Type) where
  encode : α → Bytes
  decode : Bytes → Option (α × Bytes)
  written : α → Nat → Nat
  decode_encode : ∀ a rest, decode (encode a ++ rest) = some (a,rest)
  decode_local : Local decode

export Codec (encode decode)

attribute [simp] Codec.decode_encode

/-- `from_bytes` takes the first value of the bytes and ignores what follows. -/
instance (priority := low) Codec.postcard {α : Type} [Codec α] : Postcard α where
  toBytes := encode
  fromBytes b :=
    match decode b with
    | some (a,_) => .ok a
    | none => .error (.deserialize 0)
  written := Codec.written
  fromBytes_toBytes a := by
    have h := Codec.decode_encode a []
    rw [List.append_nil] at h
    simp [h]

theorem fromBytes_append {α : Type} [Codec α] (a : α) (rest : Bytes) :
    fromBytes (toBytes a ++ rest) = (.ok a : Except PostcardError α) := by
  change (match decode (encode a ++ rest) with
    | some (a,_) => Except.ok a
    | none => Except.error (PostcardError.deserialize 0) : Except PostcardError α) = _
  rw [Codec.decode_encode]

/-- The start of a value does not read as one. -/
theorem fromBytes_take {α : Type} [Codec α] {a x : α} {n : Nat} (hn : n < (toBytes a).length) :
    fromBytes ((toBytes a).take n) ≠ (.ok x : Except PostcardError α) := by
  intro h
  change (match decode ((encode a).take n) with
    | some (a,_) => Except.ok a
    | none => Except.error (PostcardError.deserialize 0) : Except PostcardError α) = _ at h
  cases hread : (decode ((encode a).take n) : Option (α × Bytes)) with
  | none =>
    rw [hread] at h
    cases h
  | some p =>
    obtain ⟨y,rest⟩ := p
    have hmore := Codec.decode_local _ _ _ hread ((encode a).drop n)
    have hwhole := Codec.decode_encode a []
    rw [List.take_append_drop] at hmore
    rw [List.append_nil,hmore] at hwhole
    have hdrop : (encode a).drop n = [] := (List.append_eq_nil_iff.mp (congrArg Prod.snd (Option.some.inj hwhole))).2
    exact absurd hn (not_lt.mpr (List.drop_eq_nil_iff.mp hdrop))

/-- Bytes that go in one piece, and what is behind them. -/
def writtenBehind (piece : Bytes) (n : Nat) (rest : Nat → Nat) : Nat :=
  if piece.length ≤ n then piece.length+rest (n-piece.length) else 0

/-- A value of at most `n` groups of seven bits, the low group first. -/
def varint : Nat → Nat → Bytes
  | 0,_ => []
  | n+1,v => if v < 128 then [UInt8.ofNat v] else UInt8.ofNat (v%128+128)::varint n (v/128)

def unvarint : Nat → Bytes → Option (Nat × Bytes)
  | 0,_ => none
  | _+1,[] => none
  | n+1,b::bs =>
    if b.toNat < 128 then some (b.toNat,bs)
    else (unvarint n bs).map (fun p => (b.toNat-128+128*p.1,p.2))

/-- The reader needs as many steps as there are groups. -/
theorem unvarint_varint {n m v : Nat} (h : v < 128^(n+1)) (hm : (varint (n+1) v).length ≤ m) (rest : Bytes) :
    unvarint m (varint (n+1) v ++ rest) = some (v,rest) := by
  induction n generalizing v m with
  | zero =>
    have hb : (UInt8.ofNat v).toNat = v := by
      rw [UInt8.toNat_ofNat']
      omega
    have hv : v < 128 := by simpa using h
    rw [varint,if_pos hv] at hm ⊢
    cases m with
    | zero => simp at hm
    | succ m => simp [unvarint,hb,hv]
  | succ n ih =>
    rw [varint] at hm ⊢
    split_ifs at hm ⊢ with hv
    · have hb : (UInt8.ofNat v).toNat = v := by
        rw [UInt8.toNat_ofNat']
        omega
      cases m with
      | zero => simp at hm
      | succ m => simp [unvarint,hb,hv]
    · have hb : (UInt8.ofNat (v%128+128)).toNat = v%128+128 := by
        rw [UInt8.toNat_ofNat']
        omega
      have hdiv : v/128 < 128^(n+1) := by
        rw [pow_succ] at h
        omega
      have hlt : ¬v%128+128 < 128 := by omega
      cases m with
      | zero => simp at hm
      | succ m =>
        rw [List.cons_append,unvarint,hb,if_neg hlt,ih hdiv (by simpa using hm)]
        simp only [Option.map_some,Option.some.injEq,Prod.mk.injEq,and_true]
        omega

theorem varint_length {n k v : Nat} (h : v < 128^(k+1)) : (varint n v).length ≤ k+1 := by
  induction n generalizing k v with
  | zero => simp [varint]
  | succ n ih =>
    rw [varint]
    split_ifs with hv
    · simp
    · cases k with
      | zero => omega
      | succ k =>
        have hdiv : v/128 < 128^(k+1) := by
          rw [pow_succ] at h
          omega
        simpa using ih hdiv

theorem varint_length_eq {n k v : Nat} (hlow : 128^k ≤ v ∨ k = 0) (hhigh : v < 128^(k+1)) (hn : k < n) :
    (varint n v).length = k+1 := by
  induction n generalizing k v with
  | zero => omega
  | succ n ih =>
    rw [varint]
    cases k with
    | zero => rw [if_pos (by simpa using hhigh),List.length_singleton]
    | succ k =>
      have hle : 128^(k+1) ≤ v := by simpa using hlow
      have hpos : 0 < 128^k := Nat.pow_pos (by decide)
      rw [pow_succ] at hle hhigh
      have hdiv : 128^k ≤ v/128 := by omega
      rw [if_neg (by omega),List.length_cons,ih (Or.inl hdiv) (by omega) (by omega)]

/-- More steps read the same. -/
theorem unvarint_more {n m v : Nat} {b rest : Bytes} (h : unvarint n b = some (v,rest)) (hm : n ≤ m) (more : Bytes) :
    unvarint m (b ++ more) = some (v,rest ++ more) := by
  induction n generalizing m v b rest with
  | zero => cases h
  | succ n ih =>
    obtain ⟨m,rfl⟩ := Nat.exists_eq_succ_of_ne_zero (Nat.ne_of_gt (Nat.lt_of_lt_of_le n.succ_pos hm))
    cases b with
    | nil => cases h
    | cons a b =>
      rw [unvarint] at h
      rw [List.cons_append,unvarint]
      split_ifs at h ⊢ with ha
      · cases h
        rfl
      · obtain ⟨p,hp,hsame⟩ := Option.map_eq_some_iff.mp h
        rw [ih hp (Nat.le_of_succ_le_succ hm)]
        cases hsame
        rfl

theorem unvarint_local (n : Nat) : Local (unvarint n) := fun _ _ _ h more => unvarint_more h le_rfl more

namespace Local

variable {α β : Type} {read : Bytes → Option (α × Bytes)}

theorem bind {k : α → Bytes → Option (β × Bytes)} (h : Local read) (hnext : ∀ a, Local (k a)) :
    Local (fun b => (read b).bind (fun p => k p.1 p.2)) := by
  intro b c rest hread more
  obtain ⟨⟨a,between⟩,ha,hc⟩ := Option.bind_eq_some_iff.mp hread
  change (read (b ++ more)).bind _ = _
  rw [h b a between ha more]
  exact hnext a between c rest hc more

/-- What is made of the value, if anything, has nothing to do with the bytes. -/
theorem convert (h : Local read) (f : α → Option β) :
    Local (fun b => (read b).bind (fun p => (f p.1).map (fun c => (c,p.2)))) := by
  refine h.bind (k := fun a rest => (f a).map (fun c => (c,rest))) (fun a b c rest hread more => ?_)
  obtain ⟨d,hd,hsame⟩ := Option.map_eq_some_iff.mp hread
  cases hsame
  rw [hd]
  rfl

theorem map (h : Local read) (f : α → β) : Local (fun b => (read b).map (fun p => (f p.1,p.2))) := by
  intro b c rest hread more
  obtain ⟨⟨a,between⟩,ha,hsame⟩ := Option.map_eq_some_iff.mp hread
  cases hsame
  change (read (b ++ more)).map _ = _
  rw [h b a between ha more]
  rfl

end Local

def varintU64 : Nat := 10

theorem varint_u64_length {n v : Nat} (h : v < 2^64) : (varint n v).length ≤ varintU64 :=
  varint_length (k := 9) (lt_of_lt_of_le h (by decide))

theorem unvarint_u64 {v : Nat} (h : v < 2^64) (rest : Bytes) :
    unvarint varintU64 (varint varintU64 v ++ rest) = some (v,rest) :=
  unvarint_varint (n := 9) (lt_of_lt_of_le h (by decide)) (varint_u64_length h) rest

/-- A number that is read, where the type has it. -/
def inRange (n v : Nat) : Option (Fin n) := if h : v < n then some ⟨v,h⟩ else none

@[simp] theorem inRange_val {n : Nat} (a : Fin n) : inRange n a.val = some a := dif_pos a.isLt

instance : Codec U64 where
  encode a := varint varintU64 a.val
  decode b := (unvarint varintU64 b).bind (fun p => (inRange (2^64) p.1).map (fun a => (a,p.2)))
  written a n := writtenBehind (varint varintU64 a.val) n (fun _ => 0)
  decode_encode a rest := by
    simp [unvarint_u64 a.isLt]
  decode_local := (unvarint_local _).convert (inRange (2^64))

def varintU32 : Nat := 5

instance : Codec U32 where
  encode a := varint varintU32 a.val
  decode b := (unvarint varintU32 b).bind (fun p => (inRange (2^32) p.1).map (fun a => (a,p.2)))
  written a n := writtenBehind (varint varintU32 a.val) n (fun _ => 0)
  decode_encode a rest := by
    have hlt : a.val < 128^(4+1) := lt_of_lt_of_le a.isLt (by decide)
    have hread := unvarint_varint (n := 4) (m := varintU32) hlt (varint_length hlt) rest
    have hsame : unvarint varintU32 (varint varintU32 a.val ++ rest) = some (a.val,rest) := hread
    simp [hsame]
  decode_local := (unvarint_local _).convert (inRange (2^32))

instance : Codec UInt8 where
  encode a := [a]
  decode b := b.head?.map (fun a => (a,b.tail))
  written _ n := min n 1
  decode_encode _ _ := rfl
  decode_local b a rest h more := by
    cases b with
    | nil => cases h
    | cons c b =>
      cases h
      rfl

/-- Bytes of a known number. -/
def takeBytes (n : Nat) (b : Bytes) : Option (Bytes × Bytes) :=
  if n ≤ b.length then some (b.take n,b.drop n) else none

theorem takeBytes_append (x rest : Bytes) : takeBytes x.length (x ++ rest) = some (x,rest) := by
  simp [takeBytes]

theorem takeBytes_local (n : Nat) : Local (takeBytes n) := by
  intro b a rest h more
  unfold takeBytes at h ⊢
  split_ifs at h with hn
  cases h
  rw [if_pos (by rw [List.length_append]; omega),List.take_append_of_le_length hn,List.drop_append_of_le_length hn]

/-- A length, in as many groups as it takes. -/
def lengthVarint (n : Nat) : Bytes := varint (n+1) n

def unLength (b : Bytes) : Option (Nat × Bytes) := unvarint b.length b

@[simp] theorem unLength_lengthVarint (n : Nat) (rest : Bytes) :
    unLength (lengthVarint n ++ rest) = some (n,rest) := by
  have hlt : n < 128^(n+1) := (Nat.lt_pow_self (by decide)).trans (Nat.pow_lt_pow_succ (by decide))
  exact unvarint_varint hlt (by rw [lengthVarint,List.length_append]; omega) rest

theorem unLength_local : Local unLength := fun b a rest h more =>
  unvarint_more h (by rw [List.length_append]; omega) more

/-- A byte string behind its length. -/
def lengthPrefixed (b : Bytes) : Bytes := lengthVarint b.length ++ b

def unLengthPrefixed (b : Bytes) : Option (Bytes × Bytes) := (unLength b).bind (fun p => takeBytes p.1 p.2)

@[simp] theorem unLengthPrefixed_lengthPrefixed (b rest : Bytes) :
    unLengthPrefixed (lengthPrefixed b ++ rest) = some (b,rest) := by
  simp [unLengthPrefixed,lengthPrefixed,takeBytes_append]

theorem unLengthPrefixed_local : Local unLengthPrefixed := unLength_local.bind takeBytes_local

theorem lengthPrefixed_length {b : Bytes} (h : b.length < 2^64) :
    (lengthPrefixed b).length ≤ varintU64+b.length := by
  have hlen := varint_u64_length (n := b.length+1) h
  simp only [lengthPrefixed,lengthVarint,List.length_append]
  omega

section Instances

variable {α β : Type} {n : Nat}

/-- A format through another type the values are taken to and back. -/
@[reducible] def Codec.via [Codec β] (f : α → β) (g : β → α) (h : ∀ a, g (f a) = a) : Codec α where
  encode a := encode (f a)
  decode b := (decode b).map (fun p => (g p.1,p.2))
  written a := Codec.written (f a)
  decode_encode a rest := by simp [h]
  decode_local := Codec.decode_local.map g

instance [Codec α] [Codec β] : Codec (α × β) where
  encode p := encode p.1 ++ encode p.2
  decode b := (decode b).bind (fun p => (decode p.2).map (fun q => ((p.1,q.1),q.2)))
  written p n :=
    if (encode p.1).length ≤ n then (encode p.1).length+Codec.written p.2 (n-(encode p.1).length)
    else Codec.written p.1 n
  decode_encode p rest := by simp
  decode_local := Codec.decode_local.bind (k := fun a b => (decode b).map (fun q => ((a,q.1),q.2)))
    (fun a => Codec.decode_local.map (Prod.mk a))

/-- A tag of one byte, and the value behind it. -/
theorem Local.tagged [Codec β] (f : β → α) (b : Bytes) (a : α) (rest : Bytes)
    (h : (decode b).map (fun p => (f p.1,p.2)) = some (a,rest)) (more : Bytes) :
    (decode (b ++ more)).map (fun p => (f p.1,p.2)) = some (a,rest ++ more) :=
  Codec.decode_local.map f b a rest h more

instance : Codec Bytes where
  encode := lengthPrefixed
  decode := unLengthPrefixed
  -- a byte string goes byte by byte
  written b n := writtenBehind (lengthVarint b.length) n (fun room => min room b.length)
  decode_encode := unLengthPrefixed_lengthPrefixed
  decode_local := unLengthPrefixed_local

instance : Codec (HVec UInt8 n) where
  encode v := encode v.toList
  decode b := (decode b).bind (fun p => (HVec.fromSlice p.1).map (fun v => (v,p.2)))
  written v := Codec.written v.toList
  decode_encode v rest := by
    have h : HVec.fromSlice v.toList = some v := HVec.fromSlice_eq_some.mpr rfl
    simp [h]
  decode_local := Codec.decode_local.convert HVec.fromSlice

/-- The bytes as a string, where they are one. -/
def Str.fromUtf8 (b : Bytes) : Option Str := if h : isUtf8 b = true then some ⟨b,h⟩ else none

instance : Codec (HString n) where
  encode v := encode v.str.bytes
  decode b := (decode b).bind (fun p => ((Str.fromUtf8 p.1).bind HString.tryFrom).map (fun v => (v,p.2)))
  -- a string goes in one piece
  written v n := writtenBehind (lengthVarint v.str.bytes.length) n (fun room => writtenBehind v.str.bytes room (fun _ => 0))
  decode_encode v rest := by
    have hstr : Str.fromUtf8 v.str.bytes = some v.str := by simp [Str.fromUtf8,v.str.utf8]
    have h : HString.tryFrom v.str = some v := HString.tryFrom_eq_some.mpr rfl
    simp [hstr,h]
  decode_local := Codec.decode_local.convert (fun b => (Str.fromUtf8 b).bind HString.tryFrom)

end Instances

end Finder
