import Mathlib.Algebra.Group.Nat.Defs
import ServerCom.Core.Data.SortedMap
import ServerCom.Core.Text.Plain
import ServerCom.Core.Word.Order

/-!
# The history file

The tool keeps the last serial of every function in a text file: a header line and
one record `id idx` a line. It is read with `getline` and `sscanf` and written from a
`std::map` in the order of the ids.
-/

namespace ServerCom.RedeemCode

open Text

/-- `FunId2Idx`. -/
abbrev FunId2Idx := SortedMap UInt32 UInt32

/-- `isspace`. -/
def isSpace (c : UInt8) : Bool := c == 32 || (9 ≤ c && c ≤ 13)

/-- The value of a scanned number: a 64-bit `unsigned long` that saturates, negated
behind a minus sign. -/
def strtoul (negative : Bool) (digits : List UInt8) : UInt64 :=
  if 2 ^ 64 ≤ digitsValue digits then UInt64.ofNat (2 ^ 64 - 1)
  else if negative then 0 - UInt64.ofNat (digitsValue digits)
  else UInt64.ofNat (digitsValue digits)

/-- An optional sign; is it a minus, and what follows it. -/
def scanSign : List UInt8 → Bool × List UInt8
  | 45 :: s => (true, s)
  | 43 :: s => (false, s)
  | s => (false, s)

/-- The conversion `%u`: the number stored and the rest of the input, if it succeeds. -/
def scanUnsigned (s : List UInt8) : Option (UInt32 × List UInt8) :=
  let (negative, s) := scanSign (s.dropWhile isSpace)
  let digits := s.takeWhile isDigit
  if digits = [] then none
  else some ((strtoul negative digits).toUInt32, s.dropWhile isDigit)

/-- `sscanf(line.c_str(), "%u %u", &id, &idx)` with `id` and `idx` preset to zero. -/
def scanRecord (line : List UInt8) : UInt32 × UInt32 :=
  match scanUnsigned (line.takeWhile (· ≠ 0)) with
  | none => (0, 0)
  | some (id, s) =>
    match scanUnsigned (s.dropWhile isSpace) with
    | none => (id, 0)
    | some (idx, _) => (id, idx)

/-- What `run` has read of the history. -/
structure HistoryRead where
  /-- `id2idx`. -/
  id2idx : FunId2Idx
  /-- `last_idx`. -/
  lastIdx : UInt32

/-- The start values, with `last_idx = -1`. -/
def HistoryRead.start : HistoryRead := ⟨∅, 0 - 1⟩

/-- One pass of the reading loop; `none` for a repeated id. -/
def HistoryRead.readLine (funId : UInt32) (h : HistoryRead) (line : List UInt8) :
    Option HistoryRead :=
  let (id, idx) := scanRecord line
  if 0 = id then some h
  else if (h.id2idx.find? id).isSome then none
  else some ⟨h.id2idx.insert id idx, if id = funId then idx else h.lastIdx⟩

/-- The reading loop. -/
def readHistory (funId : UInt32) (history : List UInt8) : Option HistoryRead :=
  (lines history).foldlM (HistoryRead.readLine funId) .start

/-- The header line. -/
def historyHeader : List UInt8 := "fun_id uni_code_idx".toList.map Char.toUInt8

/-- The line of a record. -/
def recordLine (e : UInt32 × UInt32) : List UInt8 :=
  decimal e.1.toNat ++ 32 :: decimal e.2.toNat

/-- The lines the history is rewritten with. -/
def historyLines (id2idx : FunId2Idx) : List (List UInt8) :=
  historyHeader :: id2idx.entries.map recordLine

end ServerCom.RedeemCode
