import Mathlib.Algebra.GroupWithZero.Nat
import Mathlib.Tactic.Common

namespace Finder

/-- What a call can do: return a value, return an error, or panic. -/
inductive Outcome (ε α : Type) where
  | ok (value : α)
  | err (error : ε)
  | panic
  deriving DecidableEq, Repr

namespace Outcome

variable {ε δ α β : Type}

def bind (x : Outcome ε α) (f : α → Outcome ε β) : Outcome ε β :=
  match x with
  | .ok a => f a
  | .err e => .err e
  | .panic => .panic

instance : Monad (Outcome ε) where
  pure := .ok
  bind := bind

/-- The `?` operator with a `From` conversion on the error. -/
def mapErr (f : ε → δ) : Outcome ε α → Outcome δ α
  | .ok a => .ok a
  | .err e => .err (f e)
  | .panic => .panic

/-- `ok_or`. -/
def okOr (e : ε) : Option α → Outcome ε α
  | some a => .ok a
  | none => .err e

/-- The value, if there is one. -/
def value : Outcome ε α → Option α
  | .ok a => some a
  | _ => none

def isPanic : Outcome ε α → Bool
  | .panic => true
  | _ => false

/-- Indexing that panics where the option is empty. -/
def orPanic : Option α → Outcome ε α
  | some a => .ok a
  | none => .panic

@[simp] theorem pure_eq (a : α) : (pure a : Outcome ε α) = .ok a := rfl
@[simp] theorem ok_bind (a : α) (f : α → Outcome ε β) : (Outcome.ok a >>= f) = f a := rfl
@[simp] theorem err_bind (e : ε) (f : α → Outcome ε β) : (Outcome.err e >>= f) = .err e := rfl
@[simp] theorem panic_bind (f : α → Outcome ε β) : (Outcome.panic >>= f) = .panic := rfl

@[simp] theorem mapErr_ok (f : ε → δ) (a : α) : mapErr f (.ok a) = .ok a := rfl
@[simp] theorem mapErr_err (f : ε → δ) (e : ε) : mapErr f (.err e : Outcome ε α) = .err (f e) := rfl
@[simp] theorem mapErr_panic (f : ε → δ) : mapErr f (.panic : Outcome ε α) = .panic := rfl
@[simp] theorem okOr_some (e : ε) (a : α) : okOr e (some a) = .ok a := rfl
@[simp] theorem okOr_none (e : ε) : (okOr e none : Outcome ε α) = .err e := rfl
@[simp] theorem orPanic_some (a : α) : (orPanic (some a) : Outcome ε α) = .ok a := rfl
@[simp] theorem orPanic_none : (orPanic none : Outcome ε α) = .panic := rfl

@[simp] theorem value_eq_some {x : Outcome ε α} {a : α} : x.value = some a ↔ x = .ok a := by
  cases x <;> simp [value]

@[simp] theorem isPanic_iff {x : Outcome ε α} : x.isPanic = true ↔ x = .panic := by
  cases x <;> simp [isPanic]

theorem bind_eq_ok {x : Outcome ε α} {f : α → Outcome ε β} {b : β} :
    (x >>= f) = .ok b ↔ ∃ a, x = .ok a ∧ f a = .ok b := by
  cases x <;> simp

/-- Only what the value is counts for the rest. -/
theorem bind_congr_ok {x : Outcome ε α} {f g : α → Outcome ε β} (h : ∀ a, x = .ok a → f a = g a) :
    (x >>= f) = (x >>= g) := by
  cases x with
  | ok a => exact h a rfl
  | err e => rfl
  | panic => rfl

theorem bind_ne_panic {x : Outcome ε α} {f : α → Outcome ε β} (hx : x ≠ .panic)
    (hf : ∀ a, x = .ok a → f a ≠ .panic) : (x >>= f) ≠ .panic := by
  cases x with
  | ok a => exact hf a rfl
  | err e => exact fun h => (by cases h)
  | panic => exact absurd rfl hx

theorem okOr_ne_panic (e : ε) (o : Option α) : okOr e o ≠ .panic := by
  cases o <;> exact fun h => (by cases h)

theorem mapErr_eq_ok {f : ε → δ} {x : Outcome ε α} {a : α} : mapErr f x = .ok a ↔ x = .ok a := by
  cases x <;> simp

theorem okOr_eq_ok {e : ε} {o : Option α} {a : α} : okOr e o = .ok a ↔ o = some a := by
  cases o <;> simp

theorem orPanic_eq_ok {o : Option α} {a : α} : (orPanic o : Outcome ε α) = .ok a ↔ o = some a := by
  cases o <;> simp

end Outcome

/-- A call on a mutable receiver. The receiver it leaves is kept on every outcome,
so what a failed call has already changed stays visible. -/
def Call (σ ε α : Type) : Type := σ → Outcome ε α × σ

namespace Call

variable {σ τ ε δ α β : Type}

instance : Monad (Call σ ε) where
  pure a := fun s => (.ok a,s)
  bind x f := fun s =>
    match x s with
    | (.ok a,t) => f a t
    | (.err e,t) => (.err e,t)
    | (.panic,t) => (.panic,t)

/-- A step that reads the receiver and leaves it alone. -/
def read (f : σ → Outcome ε α) : Call σ ε α := fun s => (f s,s)

def lift (x : Outcome ε α) : Call σ ε α := fun s => (x,s)

def modify (f : σ → σ) : Call σ ε Unit := fun s => (.ok (),f s)

def mapErr (f : ε → δ) (x : Call σ ε α) : Call σ δ α := fun s =>
  ((x s).1.mapErr f,(x s).2)

/-- A call on a field of the receiver. -/
def field (get : σ → τ) (set : τ → σ → σ) (x : Call τ ε α) : Call σ ε α := fun s =>
  ((x (get s)).1,set (x (get s)).2 s)

/-- A call on a value borrowed from the receiver; it is given back on every outcome. -/
def borrow (acquire : σ → Outcome ε τ) (release : τ → σ → σ) (x : Call τ ε α) : Call σ ε α := fun s =>
  match acquire s with
  | .ok t => ((x t).1,release (x t).2 s)
  | .err e => (.err e,s)
  | .panic => (.panic,s)

@[simp] theorem pure_apply (a : α) (s : σ) : (pure a : Call σ ε α) s = (.ok a,s) := rfl
@[simp] theorem read_apply (f : σ → Outcome ε α) (s : σ) : read f s = (f s,s) := rfl
@[simp] theorem lift_apply (x : Outcome ε α) (s : σ) : lift x s = (x,s) := rfl
@[simp] theorem modify_apply (f : σ → σ) (s : σ) : (modify f : Call σ ε Unit) s = (.ok (),f s) := rfl
@[simp] theorem mapErr_apply (f : ε → δ) (x : Call σ ε α) (s : σ) :
    mapErr f x s = ((x s).1.mapErr f,(x s).2) := rfl
@[simp] theorem field_apply (get : σ → τ) (set : τ → σ → σ) (x : Call τ ε α) (s : σ) :
    field get set x s = ((x (get s)).1,set (x (get s)).2 s) := rfl

theorem bind_ok {x : Call σ ε α} {f : α → Call σ ε β} {s t : σ} {a : α} (h : x s = (.ok a,t)) :
    (x >>= f) s = f a t := by
  change (match x s with | (.ok a,t) => f a t | (.err e,t) => (.err e,t) | (.panic,t) => (.panic,t)) = _
  rw [h]

/-- Only what a first step comes to counts for the rest. -/
theorem bind_congr {x y : Call σ ε α} {f : α → Call σ ε β} {s t : σ} (h : x s = y t) :
    (x >>= f) s = (y >>= f) t := by
  change (match x s with | (.ok a,t) => f a t | (.err e,t) => (.err e,t) | (.panic,t) => (.panic,t)) = _
  rw [h]
  rfl

/-- What is left of a run after a first step that succeeds. -/
theorem after_ok {x : Call σ ε α} {f : α → Call σ ε β} {s t : σ} {a : α} {r : Outcome ε β × σ}
    (h : (x >>= f) s = r) (hx : x s = (.ok a,t)) : f a t = r :=
  (bind_ok hx).symm.trans h

theorem bind_err {x : Call σ ε α} {f : α → Call σ ε β} {s t : σ} {e : ε} (h : x s = (.err e,t)) :
    (x >>= f) s = (.err e,t) := by
  change (match x s with | (.ok a,t) => f a t | (.err e,t) => (.err e,t) | (.panic,t) => (.panic,t)) = _
  rw [h]

theorem bind_panic {x : Call σ ε α} {f : α → Call σ ε β} {s t : σ} (h : x s = (.panic,t)) :
    (x >>= f) s = (.panic,t) := by
  change (match x s with | (.ok a,t) => f a t | (.err e,t) => (.err e,t) | (.panic,t) => (.panic,t)) = _
  rw [h]

/-- A sequence returns a value exactly when its first call does and the rest does from there. -/
theorem bind_eq_ok {x : Call σ ε α} {f : α → Call σ ε β} {s u : σ} {b : β} :
    (x >>= f) s = (.ok b,u) ↔ ∃ a t, x s = (.ok a,t) ∧ f a t = (.ok b,u) := by
  rcases h : x s with ⟨_ | _ | _,t⟩
  · simp [bind_ok h]
  · simp [bind_err h]
  · simp [bind_panic h]

/-- A sequence goes on with the value of its first call, or ends where that one does. -/
theorem bind_cases {x : Call σ ε α} {f : α → Call σ ε β} {s : σ} {r : Outcome ε β × σ} (h : (x >>= f) s = r) :
    ∃ result t, x s = (result,t) ∧ ((∃ a, result = .ok a ∧ f a t = r) ∨
      ((∀ a, result ≠ .ok a) ∧ (∀ b, r.1 ≠ .ok b) ∧ r.2 = t)) := by
  subst h
  rcases hx : x s with ⟨result,t⟩
  refine ⟨result,t,rfl,?_⟩
  cases result with
  | ok a => exact Or.inl ⟨a,rfl,(bind_ok hx).symm⟩
  | err e =>
    rw [bind_err hx]
    exact Or.inr ⟨fun a ha => (by cases ha),fun b hb => (by cases hb),rfl⟩
  | panic =>
    rw [bind_panic hx]
    exact Or.inr ⟨fun a ha => (by cases ha),fun b hb => (by cases hb),rfl⟩

/-- A sequence that starts with a result goes on with its value, or ends there and changes nothing. -/
theorem lift_bind_cases {x : Outcome ε α} {f : α → Call σ ε β} {s : σ} {r : Outcome ε β × σ}
    (h : (lift x >>= f) s = r) :
    (∃ a, x = .ok a ∧ f a s = r) ∨ ((∀ b, r.1 ≠ .ok b) ∧ r.2 = s) := by
  obtain ⟨result,t,hlift,hcases⟩ := bind_cases h
  cases hlift
  exact hcases.imp_right And.right

theorem read_eq_ok {f : σ → Outcome ε α} {s t : σ} {a : α} : read f s = (.ok a,t) ↔ f s = .ok a ∧ s = t := by
  simp

theorem lift_eq_ok {x : Outcome ε α} {s t : σ} {a : α} : lift x s = (.ok a,t) ↔ x = .ok a ∧ s = t := by
  simp

theorem mapErr_eq_ok {f : ε → δ} {x : Call σ ε α} {s t : σ} {a : α} :
    mapErr f x s = (.ok a,t) ↔ x s = (.ok a,t) := by
  rcases h : x s with ⟨_ | _ | _,u⟩ <;> simp [h]

theorem field_eq_ok {get : σ → τ} {set : τ → σ → σ} {x : Call τ ε α} {s t : σ} {a : α} :
    field get set x s = (.ok a,t) ↔ ∃ u, x (get s) = (.ok a,u) ∧ t = set u s := by
  rcases h : x (get s) with ⟨_ | _ | _,u⟩ <;> simp [h, eq_comm]

theorem borrow_ok {acquire : σ → Outcome ε τ} {release : τ → σ → σ} {x : Call τ ε α} {s : σ} {t : τ}
    (h : acquire s = .ok t) : borrow acquire release x s = ((x t).1,release (x t).2 s) := by
  simp [borrow,h]

theorem borrow_eq_ok {acquire : σ → Outcome ε τ} {release : τ → σ → σ} {x : Call τ ε α} {s u : σ} {a : α} :
    borrow acquire release x s = (.ok a,u) ↔
      ∃ t t', acquire s = .ok t ∧ x t = (.ok a,t') ∧ u = release t' s := by
  cases h : acquire s with
  | ok t =>
    rcases hx : x t with ⟨_ | _ | _,t'⟩ <;> simp [borrow,h,hx,eq_comm]
  | err e => simp [borrow,h]
  | panic => simp [borrow,h]

/-- The call leaves every receiver with the property in one with the property, whatever its outcome. -/
def Keeps (I : σ → Prop) (x : Call σ ε α) : Prop := ∀ s, I s → I (x s).2

section Keeps

variable {I : σ → Prop} {J : τ → Prop}

theorem keeps_pure (a : α) : Keeps I (pure a : Call σ ε α) := fun _ hs => hs

theorem keeps_read (f : σ → Outcome ε α) : Keeps I (read f) := fun _ hs => hs

theorem keeps_lift (x : Outcome ε α) : Keeps I (lift x) := fun _ hs => hs

theorem Keeps.mapErr {x : Call σ ε α} (h : Keeps I x) (f : ε → δ) : Keeps I (mapErr f x) := h

theorem Keeps.bind {x : Call σ ε α} {f : α → Call σ ε β} (hx : Keeps I x) (hf : ∀ a, Keeps I (f a)) :
    Keeps I (x >>= f) := by
  intro s hs
  have ht := hx s hs
  rcases h : x s with ⟨_ | _ | _,t⟩
  · rw [bind_ok h]
    rw [h] at ht
    exact hf _ t ht
  · rw [bind_err h]
    rwa [h] at ht
  · rw [bind_panic h]
    rwa [h] at ht

theorem keeps_lift_bind {x : Outcome ε α} {f : α → Call σ ε β} (hf : ∀ a, x = .ok a → Keeps I (f a)) :
    Keeps I (lift x >>= f) := by
  cases x with
  | ok a => exact hf a rfl
  | err e => exact fun _ hs => hs
  | panic => exact fun _ hs => hs

theorem Keeps.field {get : σ → τ} {set : τ → σ → σ} {x : Call τ ε α} (h : Keeps J x)
    (hget : ∀ s, I s → J (get s)) (hset : ∀ s t, I s → J t → I (set t s)) :
    Keeps I (field get set x) := fun s hs => hset s _ hs (h _ (hget s hs))

theorem Keeps.borrow {acquire : σ → Outcome ε τ} {release : τ → σ → σ} {x : Call τ ε α}
    (h : Keeps J x) (hacquire : ∀ s t, I s → acquire s = .ok t → J t)
    (hrelease : ∀ s t, I s → J t → I (release t s)) : Keeps I (borrow acquire release x) := by
  intro s hs
  cases ht : acquire s with
  | ok t =>
    rw [borrow_ok ht]
    exact hrelease s _ hs (h t (hacquire s t hs ht))
  | err e => simpa [Call.borrow,ht] using hs
  | panic => simpa [Call.borrow,ht] using hs

end Keeps

/-- The call goes the same way on a receiver that a change of what it does not look at has been made to. -/
def Commutes (g : σ → σ) (x : Call σ ε α) : Prop := ∀ s, x (g s) = ((x s).1,g (x s).2)

section Commutes

variable {g : σ → σ}

theorem commutes_pure (a : α) : Commutes g (pure a : Call σ ε α) := fun _ => rfl

theorem commutes_read {f : σ → Outcome ε α} (h : ∀ s, f (g s) = f s) : Commutes g (read f) := by
  intro s
  rw [read_apply,read_apply,h]

theorem Commutes.bind {x : Call σ ε α} {f : α → Call σ ε β} (hx : Commutes g x) (hf : ∀ a, Commutes g (f a)) :
    Commutes g (x >>= f) := by
  intro s
  have hs := hx s
  rcases h : x s with ⟨_ | _ | _,t⟩
  all_goals rw [h] at hs
  · rw [bind_ok hs,bind_ok h]
    exact hf _ t
  · rw [bind_err hs,bind_err h]
  · rw [bind_panic hs,bind_panic h]

theorem commutes_field {get : σ → τ} {set : τ → σ → σ} {x : Call τ ε α} (hget : ∀ s, get (g s) = get s)
    (hset : ∀ t s, set t (g s) = g (set t s)) : Commutes g (field get set x) := by
  intro s
  rw [field_apply,field_apply,hget,hset]

end Commutes

/-- The call returns a value or an error from every receiver. -/
def Returns (x : Call σ ε α) : Prop := ∀ s, (x s).1 ≠ .panic

end Call

end Finder
