import Mathlib.Data.List.Count
import ServerCom.Connector.Native.Lifetime

/-!
# Histories

What `on_disconnected` means to its user: each call answers a connection request that was
made after the call before. Such a history has at most one call for each request.
-/

namespace ServerCom.Connector

/-- Every disconnect answers a request made after the disconnect before. -/
def Answered : List Notice → Prop
  | [] => True
  | .requested :: h => Answered h
  | .disconnected :: h => h.head? = some .requested ∧ Answered h

/-- Disconnects are reported once per connection. -/
structure Reported (h : List Notice) : Prop where
  /-- None comes without a request since the one before. -/
  answered : Answered h
  /-- There are no more of them than requests. -/
  atMostOnce : h.count .disconnected ≤ h.count .requested

/-- A request that is not answered yet leaves room for one disconnect. -/
theorem Answered.count_lt {h : List Notice} (ha : Answered h) :
    h.count .disconnected + (if h.head? = some .requested then 1 else 0) ≤
      h.count .requested := by
  induction h with
  | nil => exact Nat.le_refl 0
  | cons n h ih =>
    cases n with
    | requested =>
      have hle := ih ha
      rw [List.head?_cons, if_pos rfl, List.count_cons_self,
        List.count_cons_of_ne Notice.noConfusion]
      omega
    | disconnected =>
      obtain ⟨hhead, hrest⟩ := ha
      have hle := ih hrest
      rw [if_pos hhead] at hle
      rw [List.head?_cons, if_neg (by simp), List.count_cons_self,
        List.count_cons_of_ne Notice.noConfusion]
      exact hle

/-- Where every notice answers a request, none is surplus. -/
theorem Answered.reported {h : List Notice} (ha : Answered h) : Reported h :=
  ⟨ha, Nat.le_of_add_right_le ha.count_lt⟩

end ServerCom.Connector
