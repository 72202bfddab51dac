import Finder.Protocol.MemIo

namespace Finder

structure Storage (slabSize : Nat) where
  io : MemIo slabSize

namespace Storage

variable [Target] {slabSize : Nat} [Postcard Record]

/-- The first record of a slab, from the cursor on, that `found` accepts. The slab holds at most
`fuel` records more. -/
def scanSlab (found : Record → Bool) (slab : Slab) : Nat → Cursor → Outcome StorageError (Option Cursor)
  | 0,_ => .ok none
  | fuel+1,cursor => do
    match ← slab.read cursor with
    | none => .ok none
    | some (record,next) => if found record then .ok (some cursor) else scanSlab found slab fuel next

/-- The loop over the slabs; `fuel` is how far the index is below the greatest `usize`. -/
def scanSlabs (found : Record → Bool) (io : MemIo slabSize) : Nat → Nat → Outcome StorageError (Option Cursor)
  | fuel,index =>
    match io.getSlab index with
    | .err .outOfBounds => .ok none
    | .err e => .err e
    | .panic => .panic
    | .ok slab => do
      match ← scanSlab found slab slab.count slab.getHead with
      | some cursor => .ok (some cursor)
      | none =>
        match fuel with
        | 0 => .ok none
        | fuel+1 => scanSlabs found io fuel (index+1)

def scan (found : Record → Bool) (st : Storage slabSize) : Outcome StorageError (Option Cursor) := do
  let index ← st.io.getHead
  scanSlabs found st.io (usizeMax-index) index

def getCursorFromSequence (st : Storage slabSize) (sequence : U64) : Outcome StorageError (Option Cursor) :=
  st.scan (fun record => decide (record.maxSequence ≥ sequence))

def getCursorFromIndex (st : Storage slabSize) (messageIndex : U64) : Outcome StorageError (Option Cursor) :=
  st.scan (fun record => decide (record.messageCount ≥ messageIndex))

def read (st : Storage slabSize) (cursor : Cursor) : Outcome StorageError (Option (Bytes × Cursor)) := do
  let slab ← st.io.getSlab cursor.slab
  match ← slab.read cursor with
  | some (record,next) => .ok (some (record.data,next))
  | none =>
    match checkedAdd usizeMax cursor.slab 1 with
    | none => .ok none
    | some nextIndex =>
      if nextIndex ≥ st.io.slabCount then .ok none
      else do
        let slab ← st.io.getSlab nextIndex
        match ← slab.read slab.getHead with
        | some (record,next) => .ok (some (record.data,next))
        | none => .err .unreachable

def getWriter (st : Storage slabSize) : Outcome StorageError (SlabWriter slabSize) := st.io.newWriter

/-- What the loop `while let Some((data, next)) = storage.read(cursor)?` goes over. -/
def readFrom (st : Storage slabSize) : Nat → Cursor → Outcome StorageError (List Bytes)
  | 0,_ => .panic
  | fuel+1,cursor => do
    match ← st.read cursor with
    | none => .ok []
    | some (data,next) => do
      let rest ← readFrom st fuel next
      .ok (data::rest)

/-- Every record takes a byte of the memory at least, so a loop over them has no more steps. -/
def steps (st : Storage slabSize) : Nat := st.io.data.length+1

/-- The records that can be read, from the first one on. -/
def records (st : Storage slabSize) : Outcome StorageError (List Bytes) := do
  match ← st.getCursorFromSequence 0 with
  | none => .ok []
  | some cursor => st.readFrom st.steps cursor

end Storage

end Finder
