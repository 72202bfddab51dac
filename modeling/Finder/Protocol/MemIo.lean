import Finder.Framework.Call
import Finder.Protocol.Slab

namespace Finder

/-- Slabs of `slabSize` bytes in one piece of memory. -/
structure MemIo (slabSize : Nat) where
  slabCount : Nat
  maxIndex : Nat
  startOffset : Nat
  data : Bytes

namespace MemIo

variable [Target] {slabSize : Nat}

omit [Target] in
def new (data : Bytes) : Outcome StorageError (MemIo slabSize) :=
  if slabSize = 0 then .err .unreachable
  else .ok { slabCount := 0
             maxIndex := data.length/slabSize
             startOffset := 0
             data := data }

omit [Target] in
def freeSlabs (io : MemIo slabSize) : Outcome StorageError Nat :=
  if slabSize = 0 ∨ io.data.length < io.slabCount*slabSize then .panic
  else .ok ((io.data.length-io.slabCount*slabSize)/slabSize)

/-- Plain `usize` arithmetic, and a slice that panics out of bounds. -/
def getSlab (io : MemIo slabSize) (index : Nat) : Outcome StorageError Slab :=
  if index ≥ io.maxIndex then .err .outOfBounds
  else do
    let slabOffset ← plainMul usizeMax index slabSize
    let slabOffset ← plainAdd usizeMax io.startOffset slabOffset
    let slabStart ← plainRem slabOffset io.data.length
    let slabEnd ← plainAdd usizeMax slabStart slabSize
    let slice ← Outcome.orPanic (getRange io.data slabStart slabEnd)
    Slab.new slice index

theorem getSlab_out {io : MemIo slabSize} {i : Nat} (h : i ≥ io.maxIndex) : io.getSlab i = .err .outOfBounds := by
  rw [getSlab,if_pos h]

/-- A whole slab of the memory is opened from the bytes it lies in; nothing overflows on the way. -/
theorem getSlab_in {io : MemIo slabSize} {i : Nat} {slice : Bytes} (hstart : io.startOffset = 0)
    (hindex : i < io.maxIndex) (hpos : 0 < slabSize) (hbound : io.data.length ≤ isizeMax)
    (hin : i*slabSize+slabSize ≤ io.data.length)
    (hslice : getRange io.data (i*slabSize) (i*slabSize+slabSize) = some slice) : io.getSlab i = Slab.new slice i := by
  have husize := usizeMax_eq
  have hmul : (plainMul usizeMax i slabSize : Outcome StorageError Nat) = .ok (i*slabSize) :=
    plainMul_eq_ok.mpr ⟨by omega,rfl⟩
  have hadd : (plainAdd usizeMax 0 (i*slabSize) : Outcome StorageError Nat) = .ok (i*slabSize) :=
    plainAdd_eq_ok.mpr ⟨by omega,by omega⟩
  have hrem : (plainRem (i*slabSize) io.data.length : Outcome StorageError Nat) = .ok (i*slabSize) := by
    rw [plainRem,if_neg (by omega),Nat.mod_eq_of_lt (by omega)]
  have hstop : (plainAdd usizeMax (i*slabSize) slabSize : Outcome StorageError Nat) = .ok (i*slabSize+slabSize) :=
    plainAdd_eq_ok.mpr ⟨by omega,rfl⟩
  rw [getSlab,if_neg (by omega),hmul,hstart]
  simp only [Outcome.ok_bind,hadd,hrem,hstop,hslice,Outcome.orPanic_some]

def getHead (io : MemIo slabSize) : Outcome StorageError Nat := .ok io.startOffset

variable [Postcard Record]

/-- Serialize a record behind room for its length, then write the length. -/
def writeRecord (offset stop : Nat) (record : Record) : Call (MemIo slabSize) StorageError Nat := fun io =>
  let lenOffset := offset
  match checkedAdd usizeMax lenOffset u32Size with
  | none => (.err .outOfBounds,io)
  | some offset =>
    match getRange io.data offset stop with
    | none => (.panic,io)
    | some target =>
      match toSlice record target with
      | (.error e,target) =>
        (.err (StorageError.ofPostcard e),{ io with data := overwrite io.data offset target })
      | (.ok wrote,target) =>
        match writeU32 wrote.length lenOffset (overwrite io.data offset target) with
        | (.err e,data) => (.err e,{ io with data := data })
        | (.panic,data) => (.panic,{ io with data := data })
        | (.ok _,data) =>
          match checkedAdd usizeMax offset wrote.length with
          | none => (.err .outOfBounds,{ io with data := data })
          | some stop => (.ok stop,{ io with data := data })

omit [Postcard Record] in
def commit (recordCount maxSequence offset : Nat) : Call (MemIo slabSize) StorageError Unit := fun io =>
  match writeU32 recordCount offset io.data with
  | (.err e,data) => (.err e,{ io with data := data })
  | (.panic,data) => (.panic,{ io with data := data })
  | (.ok offset,data) =>
    match writeU64 maxSequence offset data with
    | (.err e,data) => (.err e,{ io with data := data })
    | (.panic,data) => (.panic,{ io with data := data })
    | (.ok _,data) =>
      match checkedAdd usizeMax io.slabCount 1 with
      | none => (.err .unreachable,{ io with data := data })
      | some slabCount => (.ok (),{ io with data := data, slabCount := slabCount })

end MemIo

/-- A slab being written; it holds the memory it borrowed. -/
structure SlabWriter (slabSize : Nat) where
  count : Nat
  slabMaxSequence : U64
  slabOffset : Nat
  offset : Nat
  stop : Nat
  io : MemIo slabSize

namespace SlabWriter

variable [Target] {slabSize : Nat}

def initialOffset : Nat := u32Size+u64Size

def new (io : MemIo slabSize) (offset stop : Nat) : Outcome StorageError (SlabWriter slabSize) :=
  -- the subtraction and the assertion of the constructor
  if stop < offset then .panic
  else if ¬initialOffset < stop-offset then .panic
  else .ok { count := 0
             slabMaxSequence := 0
             slabOffset := offset
             offset := offset+initialOffset
             stop := stop
             io := io }

variable [Postcard Record]

def writeRecord (maxSequence messageCount sequence : U64) (sender : NodeId) (data : Bytes) :
    Call (SlabWriter slabSize) StorageError Unit := fun w =>
  let record : Record :=
    { maxSequence := maxSequence
      messageCount := messageCount
      sequence := sequence
      sender := sender
      data := data }
  if w.slabMaxSequence > record.maxSequence then (.err .outOfOrder,w)
  else
    match w.io.writeRecord w.offset w.stop record with
    | (.err e,io) => (.err e,{ w with io := io })
    | (.panic,io) => (.panic,{ w with io := io })
    | (.ok stop,io) =>
      -- the count is the only book keeping that can fail
      match checkedAdd u32Max w.count 1 with
      | none => (.err .unreachable,{ w with io := io })
      | some count =>
        (.ok (),{ count := count
                  slabMaxSequence := record.maxSequence
                  slabOffset := w.slabOffset
                  offset := stop
                  stop := w.stop
                  io := io })

omit [Postcard Record] in
def commit : Call (SlabWriter slabSize) StorageError Unit := fun w =>
  match w.io.commit w.count w.slabMaxSequence.val w.slabOffset with
  | (r,io) => (r,{ w with io := io })

end SlabWriter

/-- Plain `usize` arithmetic, which panics when it overflows. -/
def MemIo.newWriter [Target] {slabSize : Nat} (io : MemIo slabSize) :
    Outcome StorageError (SlabWriter slabSize) := do
  let used ← plainMul usizeMax io.slabCount slabSize
  let start ← plainAdd usizeMax io.startOffset used
  let stop ← plainAdd usizeMax start slabSize
  SlabWriter.new io start stop

end Finder
