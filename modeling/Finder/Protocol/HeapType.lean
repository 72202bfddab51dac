import Finder.Framework.Call
import Finder.Framework.CriticalSection

namespace Finder

inductive GuardCellError where
  | alreadyUsed
  | unreachable
  deriving DecidableEq

structure GuardCell (T : Type) where
  taken : Bool
  data : T

/-- The cell, and whether a `borrow_mut` of it is alive. -/
structure StaticAllocation (T : Type) where
  borrowed : Bool
  cell : GuardCell T

namespace StaticAllocation

variable {T : Type}

def wrap (inner : T) : StaticAllocation T := ⟨false,⟨false,inner⟩⟩

/-- What `critical_section::with` is given by `take_mut`. The reference to the data is `()`. -/
def takeMut : Call (StaticAllocation T) GuardCellError Unit :=
  Call.borrow (fun static => if static.borrowed then .panic else .ok static.cell)
    (fun cell static => { static with cell := cell }) (do
      Call.read (fun cell => if cell.taken then .err .alreadyUsed else .ok ())
      Call.modify (fun cell => { cell with taken := true }))

/-- The places of the closure: before `borrow_mut`, the check, `taken = true`, and the end of the borrow. -/
inductive Place where
  | borrow
  | check
  | take
  | release (result : Outcome GuardCellError Unit)

/-- The same closure, one access to the cell at a time. -/
def takeMutSteps : Body (StaticAllocation T) Place (Outcome GuardCellError Unit) where
  start := .borrow
  step
    | .borrow,static =>
      if static.borrowed then (.inr .panic,static) else (.inl .check,{ static with borrowed := true })
    | .check,static =>
      if static.cell.taken then (.inl (.release (.err .alreadyUsed)),static) else (.inl .take,static)
    | .take,static => (.inl (.release (.ok ())),{ static with cell := { static.cell with taken := true } })
    | .release result,static => (.inr result,{ static with borrowed := false })

end StaticAllocation

end Finder
