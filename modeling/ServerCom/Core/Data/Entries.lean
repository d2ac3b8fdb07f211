import Mathlib.Data.List.Basic
import Mathlib.Logic.Function.Basic

/-!
# Numbered entries

A list for each number below a bound, all in one list. Where one entry changes, the whole
changes by what that entry gains and loses, up to the order.
-/

namespace ServerCom.Entries

variable {α : Type*} {n i : Nat}

/-- All entries below a bound. -/
def all (f : Nat → List α) (n : Nat) : List α := (List.range n).flatMap f

/-- The next bound takes in one list more. -/
theorem all_succ (f : Nat → List α) (n : Nat) : all f (n + 1) = all f n ++ f n := by
  simp [all, List.range_succ]

/-- An entry is in one of the lists. -/
theorem mem_all {f : Nat → List α} {x : α} : x ∈ all f n ↔ ∃ i < n, x ∈ f i := by
  simp [all]

/-- The entries below a bound are all that counts. -/
theorem all_congr {f g : Nat → List α} (h : ∀ i < n, f i = g i) : all f n = all g n :=
  List.flatMap_congr fun i hi => h i (List.mem_range.mp hi)

/-- Empty lists have no entries together. -/
theorem all_eq_nil {f : Nat → List α} (h : ∀ i < n, f i = []) : all f n = [] := by
  rw [all_congr h]
  simp [all]

/-- One entry changes. -/
theorem perm_all_update (f : Nat → List α) (hi : i < n) (l : List α) :
    (f i ++ all (Function.update f i l) n).Perm (l ++ all f n) := by
  induction n with
  | zero => exact absurd hi (Nat.not_lt_zero i)
  | succ n ih =>
    rw [all_succ, all_succ]
    rcases Nat.lt_succ_iff_lt_or_eq.mp hi with hlt | rfl
    · rw [Function.update_of_ne (Nat.ne_of_gt hlt), ← List.append_assoc, ← List.append_assoc]
      exact (ih hlt).append_right (f n)
    · have hbelow : all (Function.update f i l) i = all f i :=
        all_congr fun j hj => Function.update_of_ne (Nat.ne_of_lt hj) ..
      rw [Function.update_self, hbelow, ← List.append_assoc l]
      exact List.perm_append_comm.trans (List.perm_append_comm.append_right (f i))

end ServerCom.Entries
