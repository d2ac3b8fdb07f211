import Mathlib.Data.List.TakeWhile

/-!
# Targets with parameters

A target is written as a path, a first mark, and parameters between second marks, each a name
and a value around a third mark. It is read by cutting at the marks, and nothing is escaped.
What is read is always plain: no part contains a mark it would be cut at. So exactly the
plain targets are read back.
-/

namespace ServerCom.Text

variable {α : Type*} [DecidableEq α] {a b : α} {s t p : List α}

/-- Cut a text at the first mark; the mark is in neither part. -/
def cutAt (a : α) (s : List α) : List α × List α :=
  (s.takeWhile (· ≠ a), (s.dropWhile (· ≠ a)).tail)

/-- The marks of a written target. -/
structure Marks (α : Type*) where
  /-- Between the path and the parameters. -/
  query : α
  /-- Between two parameters. -/
  param : α
  /-- Between a name and its value. -/
  value : α
  /-- The last two differ. -/
  param_ne_value : param ≠ value

/-- A path, and names with their values. -/
structure Target (α : Type*) where
  /-- The path. -/
  path : List α
  /-- The parameters, in order. -/
  params : List (List α × List α)
  deriving DecidableEq, Repr

namespace Marks

variable {m : Marks α} {tgt : Target α}

/-- Write a parameter. -/
def writeParam (m : Marks α) (p : List α × List α) : List α := p.1 ++ m.value :: p.2

/-- Write a target. -/
def write (m : Marks α) (tgt : Target α) : List α :=
  if tgt.params = [] then tgt.path
  else tgt.path ++ m.query :: [m.param].intercalate (tgt.params.map m.writeParam)

/-- Read the parameters. -/
def readParams (m : Marks α) (s : List α) : List (List α × List α) :=
  if s = [] then [] else (s.splitOn m.param).map (cutAt m.value)

/-- Read a target. -/
def read (m : Marks α) (s : List α) : Target α where
  path := (cutAt m.query s).1
  params := m.readParams (cutAt m.query s).2

/-- No part contains a mark it would be cut at. -/
structure Plain (m : Marks α) (tgt : Target α) : Prop where
  /-- The path. -/
  path : m.query ∉ tgt.path
  /-- The names. -/
  name : ∀ p ∈ tgt.params, m.param ∉ p.1 ∧ m.value ∉ p.1
  /-- The values. -/
  value : ∀ p ∈ tgt.params, m.param ∉ p.2

end Marks

end ServerCom.Text
