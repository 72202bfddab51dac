import Finder.Framework.Machine
import Finder.Framework.Postcard
import Finder.Protocol.Identity

namespace Finder

inductive StorageError where
  | dbFull
  | recordTooLarge (size : Nat)
  | unreachable
  | corruptDB
  | outOfBounds
  | unimplemented
  | postcardError (error : PostcardError)
  | slabFull
  | outOfOrder
  deriving DecidableEq

/-- `From<postcard::Error>`: a full buffer means a full slab. -/
def StorageError.ofPostcard : PostcardError → StorageError
  | .serializeBufferFull => .slabFull
  | e => .postcardError e

structure Cursor where
  slab : Nat
  offset : Nat
  readCount : Nat
  deriving DecidableEq

structure Record where
  maxSequence : U64
  messageCount : U64
  sequence : U64
  sender : NodeId
  data : Bytes
  deriving DecidableEq

def u32Size : Nat := 4
def u64Size : Nat := 8

section Bytes

variable [Target]

def readArr (size : Nat) (data : Bytes) (offset : Nat) : Outcome StorageError (Bytes × Nat) := do
  let stop ← Outcome.okOr .corruptDB (checkedAdd usizeMax offset size)
  let slice ← Outcome.okOr .outOfBounds (getRange data offset stop)
  if slice.length ≠ size then .err .unreachable
  else .ok (slice,stop)

def readU32 (data : Bytes) (offset : Nat) : Outcome StorageError (Nat × Nat) := do
  let (arr,stop) ← readArr u32Size data offset
  .ok (beNat arr,stop)

def readU64 (data : Bytes) (offset : Nat) : Outcome StorageError (Nat × Nat) := do
  let (arr,stop) ← readArr u64Size data offset
  .ok (beNat arr,stop)

def writeArr (arr : Bytes) (offset : Nat) : Call Bytes StorageError Nat := fun target =>
  match checkedAdd usizeMax offset arr.length with
  | none => (.err .corruptDB,target)
  | some stop =>
    match getRange target offset stop with
    | none => (.err .outOfBounds,target)
    | some _ => (.ok stop,overwrite target offset arr)

/-- The value is cast to a `u32` by the callers; the encoding keeps its low 32 bits. -/
def writeU32 (value offset : Nat) : Call Bytes StorageError Nat := writeArr (beBytes u32Size value) offset

def writeU64 (value offset : Nat) : Call Bytes StorageError Nat := writeArr (beBytes u64Size value) offset

end Bytes

structure Slab where
  slab : Nat
  offset : Nat
  count : Nat
  slabMaxSequence : Nat
  records : Bytes

namespace Slab

variable [Target] [Postcard Record]

omit [Postcard Record] in
def new (data : Bytes) (index : Nat) : Outcome StorageError Slab := do
  let (count,offset) ← readU32 data 0
  let (slabMaxSequence,offset) ← readU64 data offset
  .ok { slab := index
        offset := offset
        count := count
        slabMaxSequence := slabMaxSequence
        records := data }

def getHead (s : Slab) : Cursor :=
  { slab := s.slab
    offset := s.offset
    readCount := 0 }

def read (s : Slab) (cursor : Cursor) : Outcome StorageError (Option (Record × Cursor)) :=
  if cursor.readCount ≥ s.count then .ok none
  else do
    let (length,offset) ← readU32 s.records cursor.offset
    -- a zero length stands for the end of what is used
    if length = 0 then .ok none
    else
      let endOffset ← Outcome.okOr .corruptDB (checkedAdd usizeMax offset length)
      match getRange s.records offset endOffset with
      | none => .err .corruptDB
      | some slice =>
        match (fromBytes slice : Except PostcardError Record) with
        | .error e => .err (StorageError.ofPostcard e)
        | .ok record => do
          let readCount ← Outcome.okOr .unreachable (checkedAdd u32Max cursor.readCount 1)
          .ok (some (record,{ cursor with offset := endOffset, readCount := readCount }))

end Slab

end Finder
