import Mathlib.Data.List.Basic

/-!
# Strings in a buffer

A `char *` stands for the bytes up to the first NUL. Where the buffer holds none, the
string goes on behind it and has no value here. Bytes that are copied into a buffer leave
the ones behind them as they were, so the string that is read back need not be the one
that was copied.
-/

namespace ServerCom.Text

/-- A C string as a value. -/
@[ext]
structure CStr where
  /-- Its bytes, without the NUL behind them. -/
  bytes : List UInt8
  /-- There is no other NUL. -/
  nul_notMem : 0 ∉ bytes
  deriving DecidableEq, Repr

variable {mem str body old : List UInt8}

/-- The string at the start of a buffer. -/
def cString : List UInt8 → Option (List UInt8)
  | [] => none
  | c :: cs => if c = 0 then some [] else (cString cs).map (c :: ·)

/-- Copy bytes to the start of a buffer. -/
def overwrite (old bs : List UInt8) : List UInt8 := bs ++ old.drop bs.length

/-- A buffer keeps its size. -/
theorem length_overwrite (h : body.length ≤ old.length) :
    (overwrite old body).length = old.length := by
  rw [overwrite, List.length_append, List.length_drop]
  omega

/-- What is read up to the first NUL has none. -/
theorem zero_notMem_takeWhile (mem : List UInt8) : 0 ∉ mem.takeWhile (· ≠ 0) := by
  intro h
  have hne : (0 : UInt8) ≠ 0 := by simpa using List.all_eq_true.mp List.all_takeWhile _ h
  exact hne rfl

/-- A string is ended by the first NUL. -/
theorem cString_eq_some : cString mem = some str ↔ 0 ∉ str ∧ ∃ rest, mem = str ++ 0 :: rest := by
  induction mem generalizing str with
  | nil =>
    refine iff_of_false (fun h => by cases h) ?_
    rintro ⟨-, rest, h⟩
    exact absurd h.symm (by simp)
  | cons c mem ih =>
    by_cases hc : c = 0
    · rw [cString, if_pos hc]
      constructor
      · rintro h
        cases h
        exact ⟨List.not_mem_nil, mem, by rw [hc, List.nil_append]⟩
      · rintro ⟨hnul, rest, h⟩
        cases str with
        | nil => rfl
        | cons d str =>
          rw [List.cons_append] at h
          have hd : c = d := (List.cons.inj h).1
          exact absurd (List.mem_cons.mpr (Or.inl (hc.symm.trans hd))) hnul
    · rw [cString, if_neg hc, Option.map_eq_some_iff]
      constructor
      · rintro ⟨s, hs, rfl⟩
        obtain ⟨hnul, rest, rfl⟩ := ih.mp hs
        exact ⟨List.not_mem_cons_of_ne_of_not_mem (Ne.symm hc) hnul, rest, rfl⟩
      · rintro ⟨hnul, rest, h⟩
        cases str with
        | nil => exact absurd (List.cons.inj h).1 hc
        | cons d str =>
          rw [List.cons_append] at h
          obtain ⟨rfl, hrest⟩ := List.cons.inj h
          exact ⟨str, ih.mpr ⟨fun hm => hnul (List.mem_cons_of_mem _ hm), rest, hrest⟩, rfl⟩

/-- What a buffer can take of a text is read back as the text exactly when the text has no
NUL and the buffer holds one right behind it. -/
theorem cString_overwrite_iff (old body : List UInt8) :
    cString (overwrite old (body.take old.length)) = some body ↔
      0 ∉ body ∧ old[body.length]? = some 0 := by
  rw [cString_eq_some]
  apply and_congr_right
  intro hnul
  constructor
  · rintro ⟨rest, h⟩
    have hlen := congrArg List.length h
    rw [length_overwrite (by rw [List.length_take]; omega), List.length_append,
      List.length_cons] at hlen
    rw [List.take_of_length_le (by omega), overwrite] at h
    rw [← List.head?_drop, List.append_cancel_left h, List.head?_cons]
  · intro h
    obtain ⟨hlt, hget⟩ := List.getElem?_eq_some_iff.mp h
    refine ⟨old.drop (body.length + 1), ?_⟩
    rw [List.take_of_length_le (Nat.le_of_lt hlt), overwrite, List.drop_eq_getElem_cons hlt, hget]

end ServerCom.Text
