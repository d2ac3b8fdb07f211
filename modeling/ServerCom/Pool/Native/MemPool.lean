import Mathlib.Data.UInt

/-!
# The memory pool

`MemPool` keeps all the objects it made and those that are free in two vectors, whose ends
are the ends of the lists here. `malloc` gives the address of its next call. A failed
assertion ends the program.
-/

namespace ServerCom.Pool

variable {α : Type*}

/-- `MemPool<T>`, for objects at these addresses. -/
structure MemPool (α : Type*) where
  /-- `m_vec_all_obj`. -/
  vecAllObj : List α
  /-- `m_vec_free_obj`. -/
  vecFreeObj : List α
  deriving DecidableEq, Repr

/-- A pool, and what was asked of it. -/
structure PoolWorld (α : Type*) where
  /-- The pool. -/
  pool : MemPool α
  /-- How often it called `malloc`. -/
  mallocs : Nat
  /-- The objects that `Allocate` handed out and `Free` did not take back, in this order. -/
  handedOut : List α
  /-- An assertion has failed. -/
  aborted : Bool
  deriving DecidableEq, Repr

/-- What becomes of a call of `Free`. -/
inductive FreeResult where
  /-- The assertion "object to free is not exist!!" fails. -/
  | notExist
  /-- The assertion "object has deleted already!!" fails. -/
  | deletedAlready
  /-- It returns. -/
  | returned
  deriving DecidableEq, Repr

namespace PoolWorld

/-- A constructed pool. -/
def start : PoolWorld α := ⟨⟨[], []⟩, 0, [], false⟩

variable (malloc : Nat → α)

/-- `SetBufferSize`. -/
def setBufferSize (w : PoolWorld α) (objNum : UInt32) : PoolWorld α × Bool :=
  if w.pool.vecAllObj ≠ [] then (w, false)
  else
    let objs := (List.range objNum.toNat).map fun i => malloc (w.mallocs + i)
    ({ w with pool := ⟨objs, objs⟩, mallocs := w.mallocs + objNum.toNat }, true)

/-- The body of the growth loop in `Allocate`. -/
def grow (w : PoolWorld α) : PoolWorld α :=
  let p := malloc w.mallocs
  { w with
    pool := ⟨w.pool.vecAllObj ++ [p], w.pool.vecFreeObj ++ [p]⟩
    mallocs := w.mallocs + 1 }

/-- `Allocate`; there is no object when the end of an empty vector is read. -/
def allocate (w : PoolWorld α) : PoolWorld α × Option α :=
  let w := if w.pool.vecFreeObj.isEmpty then (grow malloc)^[1000] w else w
  match w.pool.vecFreeObj.getLast? with
  | none => (w, none)
  | some p =>
    ({ w with
      pool := { w.pool with vecFreeObj := w.pool.vecFreeObj.dropLast }
      handedOut := w.handedOut ++ [p] }, some p)

/-- `Free`, with `CHECK_FREE_ERROR`. -/
def free [DecidableEq α] (w : PoolWorld α) (p : α) : PoolWorld α × FreeResult :=
  if p ∉ w.pool.vecAllObj then ({ w with aborted := true }, .notExist)
  else if p ∈ w.pool.vecFreeObj then ({ w with aborted := true }, .deletedAlready)
  else
    ({ w with
      pool := { w.pool with vecFreeObj := w.pool.vecFreeObj ++ [p] }
      handedOut := w.handedOut.erase p }, .returned)

/-- `GetAllocateNum`. -/
def getAllocateNum (w : PoolWorld α) : UInt32 :=
  if w.pool.vecAllObj.length < w.pool.vecFreeObj.length then -1
  else .ofNat (w.pool.vecAllObj.length - w.pool.vecFreeObj.length)

end PoolWorld

/-- A call of the pool. -/
inductive PoolCall (α : Type*) where
  /-- `SetBufferSize`. -/
  | setBufferSize (objNum : UInt32)
  /-- `Allocate`. -/
  | allocate
  /-- `Free`. -/
  | free (p : α)
  deriving DecidableEq, Repr

/-- The world behind a call; nothing is called behind a failed assertion. -/
def PoolWorld.step [DecidableEq α] (malloc : Nat → α) (w : PoolWorld α) (c : PoolCall α) :
    PoolWorld α :=
  if w.aborted then w
  else match c with
    | .setBufferSize objNum => (w.setBufferSize malloc objNum).1
    | .allocate => (w.allocate malloc).1
    | .free p => (w.free p).1

end ServerCom.Pool
