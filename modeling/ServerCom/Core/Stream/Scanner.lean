import Mathlib.Data.List.Basic

/-!
# Scanners of a stream

A scanner takes items off the front of what has arrived of a stream, and keeps a state between
them. What it makes of a front stays the same when more arrives behind it. So the outputs
depend on the stream alone, and not on the pieces it arrives in or on when it is looked at.
-/

namespace ServerCom

/-- What a scanner finds at the front of a stream. -/
inductive Scanned (α σ ω ε : Type*) where
  /-- An item, which may complete an output. -/
  | item (s : σ) (out : Option ω) (rest : List α)
  /-- Less than an item. What is known of it goes into the state. -/
  | wait (s : σ) (rest : List α)
  /-- Something that it refuses. -/
  | fail (e : ε)

/-- A scanner, whose judgements last. -/
structure Scanner (α σ ω ε : Type*) where
  /-- One item. -/
  scan : σ → List α → Scanned α σ ω ε
  /-- An item is not empty. -/
  item_length : ∀ {s u s' out r}, scan s u = .item s' out r → r.length < u.length
  /-- An item ends where it ends. -/
  item_append : ∀ {s u s' out r}, scan s u = .item s' out r →
    ∀ v, scan s (u ++ v) = .item s' out (r ++ v)
  /-- What is refused is not made good. -/
  fail_append : ∀ {s u e}, scan s u = .fail e → ∀ v, scan s (u ++ v) = .fail e
  /-- Waiting loses nothing. -/
  wait_append : ∀ {s u s' r}, scan s u = .wait s' r →
    ∀ v, scan s' (r ++ v) = scan s (u ++ v)

namespace Scanner

variable {α σ ω ε : Type*}

/-- Where a scanner stops. -/
inductive Stop (α σ ε : Type*) where
  /-- Before an item that is not complete. -/
  | wait (s : σ) (rest : List α)
  /-- At something that it refuses. -/
  | fail (e : ε)

/-- The outputs of all items that have arrived, and where the scanner stops behind them. -/
def drain (S : Scanner α σ ω ε) (s : σ) (u : List α) : List ω × Stop α σ ε :=
  match _h : S.scan s u with
  | .item s' out r => (out.toList ++ (drain S s' r).1, (drain S s' r).2)
  | .wait s' r => ([], .wait s' r)
  | .fail e => ([], .fail e)
termination_by u.length
decreasing_by all_goals exact S.item_length _h

variable {S : Scanner α σ ω ε} {s s' s₀ : σ} {u r B : List α} {out : Option ω} {e : ε}

/-- An item is taken off, and its output comes first. -/
theorem drain_item (h : S.scan s u = .item s' out r) :
    S.drain s u = (out.toList ++ (S.drain s' r).1, (S.drain s' r).2) := by
  rw [drain]
  split
  · next heq =>
    rw [h] at heq
    cases heq
    rfl
  · next heq => rw [h] at heq; cases heq
  · next heq => rw [h] at heq; cases heq

/-- Less than an item gives nothing. -/
theorem drain_wait (h : S.scan s u = .wait s' r) : S.drain s u = ([], .wait s' r) := by
  rw [drain]
  split
  · next heq => rw [h] at heq; cases heq
  · next heq =>
    rw [h] at heq
    cases heq
    rfl
  · next heq => rw [h] at heq; cases heq

/-- What is refused gives nothing. -/
theorem drain_fail (h : S.scan s u = .fail e) : S.drain s u = ([], .fail e) := by
  rw [drain]
  split
  · next heq => rw [h] at heq; cases heq
  · next heq => rw [h] at heq; cases heq
  · next heq =>
    rw [h] at heq
    cases heq
    rfl

/-- A stream starts with an item, or the scanner waits, or it fails. -/
@[elab_as_elim]
theorem drain_induct (S : Scanner α σ ω ε) {motive : σ → List α → Prop}
    (item : ∀ s u s' out r, S.scan s u = .item s' out r → motive s' r → motive s u)
    (wait : ∀ s u s' r, S.scan s u = .wait s' r → motive s u)
    (fail : ∀ s u e, S.scan s u = .fail e → motive s u) (s : σ) (u : List α) : motive s u := by
  induction hk : u.length using Nat.strongRecOn generalizing s u with
  | ind k ih =>
    subst hk
    cases h : S.scan s u with
    | item s' out r => exact item s u s' out r h (ih _ (S.item_length h) s' r rfl)
    | wait s' r => exact wait s u s' r h
    | fail e => exact fail s u e h

/-- Where the first `n` items begin, up to the place where the scanner stops. -/
def itemStarts (S : Scanner α σ ω ε) : Nat → σ → List α → List (σ × List α)
  | 0, _, _ => []
  | n + 1, s, u => (s, u) ::
    match S.scan s u with
    | .item s' _ r => S.itemStarts n s' r
    | .wait .. => []
    | .fail _ => []

/-- Behind an item the others begin where they begin in the rest. -/
theorem itemStarts_item (h : S.scan s u = .item s' out r) (n : Nat) :
    S.itemStarts (n + 1) s u = (s, u) :: S.itemStarts n s' r := by
  rw [itemStarts, h]

/-- The first item begins where the stream does. -/
theorem mem_itemStarts (S : Scanner α σ ω ε) (n : Nat) (s : σ) (u : List α) :
    (s, u) ∈ S.itemStarts (n + 1) s u := List.mem_cons_self ..

/-- Behind a failure nothing is scanned. -/
theorem drain_append_of_fail (h : (S.drain s u).2 = .fail e) (v : List α) :
    S.drain s (u ++ v) = S.drain s u := by
  induction s, u using S.drain_induct with
  | item s u s' out r hscan ih =>
    rw [drain_item hscan] at h
    rw [drain_item hscan, drain_item (S.item_append hscan v), ih h]
  | wait s u s' r hscan => rw [drain_wait hscan] at h; cases h
  | fail s u e hscan => rw [drain_fail hscan, drain_fail (S.fail_append hscan v)]

/-- Where the scanner waits, it goes on as if the stream had not been cut. -/
theorem drain_append_of_wait (h : (S.drain s u).2 = .wait s' r) (v : List α) :
    S.drain s (u ++ v) = ((S.drain s u).1 ++ (S.drain s' (r ++ v)).1, (S.drain s' (r ++ v)).2) := by
  induction s, u using S.drain_induct with
  | item s u s₁ out r₁ hscan ih =>
    rw [drain_item hscan] at h
    rw [drain_item hscan, drain_item (S.item_append hscan v), ih h, List.append_assoc]
  | wait s u s₁ r₁ hscan =>
    rw [drain_wait hscan] at h ⊢
    cases h
    rw [drain, drain, S.wait_append hscan v, List.nil_append]
  | fail s u e hscan => rw [drain_fail hscan] at h; cases h

/-- The outputs of a front come first. -/
theorem drain_prefix (S : Scanner α σ ω ε) (s : σ) (u v : List α) :
    (S.drain s u).1 <+: (S.drain s (u ++ v)).1 := by
  cases h : (S.drain s u).2 with
  | wait s' r =>
    rw [drain_append_of_wait h]
    exact List.prefix_append ..
  | fail e =>
    have hsame : (S.drain s (u ++ v)).1 = (S.drain s u).1 := by rw [drain_append_of_fail h]
    exact ⟨[], by rw [List.append_nil, hsame]⟩

/-- A scanner that waits has nothing more to give. -/
theorem drain_of_wait (h : (S.drain s u).2 = .wait s' r) : S.drain s' r = ([], .wait s' r) := by
  induction s, u using S.drain_induct with
  | item s u s₁ out r₁ hscan ih =>
    rw [drain_item hscan] at h
    exact ih h
  | wait s u s₁ r₁ hscan =>
    rw [drain_wait hscan] at h
    cases h
    have hagain := S.wait_append hscan []
    rw [List.append_nil, List.append_nil, hscan] at hagain
    exact drain_wait hagain
  | fail s u e hscan => rw [drain_fail hscan] at h; cases h

/-- After the outputs `E` of a stream, a scanner has come to this state and this unread part:
it has the same outputs still to give as the whole stream. -/
def Reached (S : Scanner α σ ω ε) (s₀ : σ) (B : List α) (E : List ω) (s : σ) (u : List α) : Prop :=
  S.drain s₀ B = (E ++ (S.drain s u).1, (S.drain s u).2)

/-- At first all of the stream is to come. -/
theorem Reached.refl (S : Scanner α σ ω ε) (s₀ : σ) (B : List α) : S.Reached s₀ B [] s₀ B := rfl

/-- What arrives of the stream arrives behind the unread part. -/
theorem Reached.arrive {E : List ω} (h : S.Reached s₀ B E s u) (v : List α) :
    S.Reached s₀ (B ++ v) E s (u ++ v) := by
  have hstop : (S.drain s₀ B).2 = (S.drain s u).2 := by rw [h]
  cases hsu : (S.drain s u).2 with
  | fail e =>
    rw [Reached, drain_append_of_fail (hstop.trans hsu), drain_append_of_fail hsu]
    exact h
  | wait s' r =>
    have hfst : (S.drain s₀ B).1 = E ++ (S.drain s u).1 := by rw [h]
    rw [Reached, drain_append_of_wait (hstop.trans hsu), drain_append_of_wait hsu, hfst,
      List.append_assoc]

end Scanner

end ServerCom
