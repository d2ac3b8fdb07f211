import ServerCom.Core.Word.Int32

/-!
# Dynamic strings of hiredis

The strings of `sds.c` that buffer what is read and what is to be written. Memory does not run
out, and a length fits its field.
-/

namespace ServerCom.Redis

/-- `sdshdr`. -/
structure Sds where
  /-- `buf`, up to `len`. -/
  buf : List UInt8
  /-- `free`. -/
  free : Nat
  deriving DecidableEq, Repr

namespace Sds

/-- `SDS_MAX_PREALLOC`. -/
def maxPrealloc : Nat := 1024 * 1024

/-- `sdsempty`. -/
def empty : Sds := ⟨[], 0⟩

/-- `sdslen`. -/
def len (s : Sds) : Nat := s.buf.length

/-- `sdsMakeRoomFor`. -/
def makeRoomFor (s : Sds) (addlen : Nat) : Sds :=
  if addlen ≤ s.free then s
  else
    let newlen := s.len + addlen
    let newlen := if newlen < maxPrealloc then newlen * 2 else newlen + maxPrealloc
    { s with free := newlen - s.len }

/-- `sdscatlen`. -/
def catlen (s : Sds) (t : List UInt8) : Sds :=
  let s := s.makeRoomFor t.length
  ⟨s.buf ++ t, s.free - t.length⟩

/-- An index counted from the end when it is negative. -/
def fromEnd (len : Nat) (i : Int) : Int := if i < 0 then max (int32 (len + i)) 0 else i

/-- `newlen` of `sdsrange`, before the end of the string is looked at. -/
def spanLen (start stop : Int) : Nat := if start > stop then 0 else (stop - start + 1).toNat

/-- `sdsrange`, with the indices of the first and the last byte that stay. -/
def range (s : Sds) (start stop : Int) : Sds :=
  if s.len = 0 then s
  else
    let start := fromEnd s.len start
    let stop := fromEnd s.len stop
    let newlen :=
      if spanLen start stop = 0 then 0
      else if start ≥ int32 s.len then 0
      else if stop ≥ int32 s.len then spanLen start (int32 (s.len - 1))
      else spanLen start stop
    -- where nothing is left, nothing is moved either
    ⟨(s.buf.drop start.toNat).take newlen, s.free + (s.len - newlen)⟩

@[simp] theorem buf_makeRoomFor (s : Sds) (addlen : Nat) :
    (s.makeRoomFor addlen).buf = s.buf := by
  unfold makeRoomFor
  split_ifs <;> rfl

/-- There is room for what is appended. -/
theorem le_free_makeRoomFor (s : Sds) (addlen : Nat) : addlen ≤ (s.makeRoomFor addlen).free := by
  unfold makeRoomFor
  split_ifs with h
  · exact h
  · dsimp only
    split_ifs <;> omega

@[simp] theorem buf_catlen (s : Sds) (t : List UInt8) : (s.catlen t).buf = s.buf ++ t := by
  rw [catlen, buf_makeRoomFor]

/-- What is left of a string behind its first bytes. -/
theorem buf_range_drop {s : Sds} {n : Nat} (hlen : s.len < 2 ^ 31) (hn : n ≤ s.len) :
    (s.range n (-1)).buf = s.buf.drop n := by
  have hint : int32 s.len = s.len := int32_natCast hlen
  unfold range
  split_ifs with h0
  · have hnil : s.buf = [] := List.eq_nil_of_length_eq_zero h0
    rw [hnil, List.drop_nil]
  · have hstart : fromEnd s.len n = n := if_neg (by omega)
    have hstop : fromEnd s.len (-1) = (s.len : Int) - 1 := by
      have hself : int32 ((s.len : Int) + -1) = (s.len : Int) - 1 := by
        rw [int32_eq_self (by unfold InInt32; omega)]
        rfl
      rw [fromEnd, if_pos (by decide), hself, max_eq_left (by omega)]
    have hspan : spanLen n ((s.len : Int) - 1) = s.len - n := by
      unfold spanLen
      split_ifs <;> omega
    dsimp only
    rw [hstart, hstop, hspan, hint, Int.toNat_natCast]
    have hl : (s.buf.drop n).length = s.len - n := List.length_drop
    by_cases hend : n = s.len
    · rw [if_pos (by omega), List.take_zero, List.drop_eq_nil_of_le (Nat.le_of_eq hend.symm)]
    · rw [if_neg (by omega), if_neg (by omega), if_neg (by omega), ← hl, List.take_length]

end Sds

end ServerCom.Redis
