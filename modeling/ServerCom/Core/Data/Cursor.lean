import Mathlib.Data.List.Nodup
import ServerCom.Core.Data.SortedMap

/-!
# Walking through a map while it shrinks

A cursor stands at a key and moves to the next one that is present. Between two moves
entries may disappear, except the one the cursor stands at. Every entry is then visited
once, unless it disappears before its turn, and the walk ends.
-/

namespace ServerCom

namespace SortedMap

variable {κ ν : Type*} [LinearOrder κ] {m m' m₀ : SortedMap κ ν} {k a : κ} {v : ν}
  {it : Option κ} {visited : List (κ × ν)}

/-- The least key. -/
def first? (m : SortedMap κ ν) : Option κ := m.entries.head?.map Prod.fst

/-- The least key above another. -/
def next? (m : SortedMap κ ν) (k : κ) : Option κ :=
  (m.entries.find? fun e => decide (k < e.1)).map Prod.fst

/-- Only an empty map has no first key. -/
theorem first?_eq_none (h : m.first? = none) : m.entries = [] := by
  rw [first?, Option.map_eq_none_iff] at h
  exact List.head?_eq_none_iff.mp h

/-- The least key is present, and no other is below it. -/
theorem first?_eq_some (h : m.first? = some a) :
    (∃ v, (a, v) ∈ m.entries) ∧ ∀ e ∈ m.entries, a ≤ e.1 := by
  rw [first?, Option.map_eq_some_iff] at h
  obtain ⟨⟨b, v⟩, hhead, rfl⟩ := h
  obtain ⟨l, hl⟩ := List.head?_eq_some_iff.mp hhead
  have hsorted := hl ▸ m.sorted
  refine ⟨⟨v, hl ▸ List.mem_cons_self ..⟩, fun e he => ?_⟩
  rw [hl] at he
  rcases List.mem_cons.mp he with rfl | he
  · exact le_rfl
  · exact ((List.pairwise_cons.mp hsorted).1 e he).le

/-- Where there is no next key, no entry lies behind. -/
theorem next?_eq_none (h : m.next? k = none) {e : κ × ν} (he : e ∈ m.entries) : e.1 ≤ k := by
  rw [next?, Option.map_eq_none_iff, List.find?_eq_none] at h
  exact not_lt.mp fun hlt => h e he (decide_eq_true hlt)

/-- The next key is present, and no other is between the two. -/
theorem next?_eq_some (h : m.next? k = some a) :
    k < a ∧ (∃ v, (a, v) ∈ m.entries) ∧ ∀ e ∈ m.entries, k < e.1 → a ≤ e.1 := by
  rw [next?, Option.map_eq_some_iff] at h
  obtain ⟨⟨b, v⟩, hfind, rfl⟩ := h
  obtain ⟨hlt, before, behind, hsplit, hskip⟩ := List.find?_eq_some_iff_append.mp hfind
  refine ⟨of_decide_eq_true hlt, ⟨v, ?_⟩, fun e he hke => ?_⟩
  · rw [hsplit]
    exact List.mem_append_right _ (List.mem_cons_self ..)
  · have hsorted := m.sorted
    rw [hsplit] at he hsorted
    rcases List.mem_append.mp he with he | he
    · have hnot := hskip e he
      rw [decide_eq_true hke] at hnot
      cases hnot
    · rcases List.mem_cons.mp he with rfl | he
      · exact le_rfl
      · exact ((List.pairwise_cons.mp (List.pairwise_append.mp hsorted).2.1).1 e he).le

/-- The entries ahead of a cursor that another map has lost. -/
def lost (m m' : SortedMap κ ν) (k : κ) : List (κ × ν) :=
  m.entries.filter fun e => decide (k < e.1) && (m'.find? e.1).isNone

/-- What is lost was ahead of the cursor and is gone. -/
theorem mem_lost {e : κ × ν} :
    e ∈ lost m m' k ↔ e ∈ m.entries ∧ k < e.1 ∧ m'.find? e.1 = none := by
  rw [lost, List.mem_filter, Bool.and_eq_true, decide_eq_true_iff, Option.isNone_iff_eq_none]

/-- Between a map and a smaller one, an entry stays or its key disappears. -/
theorem mem_or_find?_eq_none (hsub : ∀ e ∈ m'.entries, e ∈ m.entries) {e : κ × ν}
    (he : e ∈ m.entries) : e ∈ m'.entries ∨ m'.find? e.1 = none := by
  obtain ⟨a, v⟩ := e
  cases hfind : m'.find? a with
  | none => exact .inr rfl
  | some u =>
    have hu := mem_entries_iff.mp (hsub _ (mem_entries_iff.mpr hfind))
    obtain rfl := Option.some.inj (hu.symm.trans (mem_entries_iff.mp he))
    exact .inl (mem_entries_iff.mpr hfind)

/-- A key that is not found has no entry. -/
theorem not_mem_of_find?_eq_none {e : κ × ν} (h : m.find? e.1 = none) : e ∉ m.entries := by
  intro he
  rw [mem_entries_iff.mp he] at h
  cases h

/-- The cursor has passed a key. -/
def Passed (it : Option κ) (a : κ) : Prop := ∀ k, it = some k → a < k

/-- A walk that started on `m₀` has visited what it has passed, except what disappeared
before its turn. -/
structure Covers (m₀ m : SortedMap κ ν) (it : Option κ) (visited early : List (κ × ν)) :
    Prop where
  /-- Entries only disappear. -/
  sub : ∀ e ∈ m.entries, e ∈ m₀.entries
  /-- The cursor stands at an entry. -/
  valid : ∀ k, it = some k → ∃ v, (k, v) ∈ m.entries
  /-- An entry passed was visited or has disappeared before its turn. -/
  passed : ∀ e ∈ m₀.entries, Passed it e.1 → e ∈ visited ∨ e ∈ early
  /-- An entry ahead is there or has disappeared before its turn. -/
  ahead : ∀ e ∈ m₀.entries, ¬ Passed it e.1 → e ∈ m.entries ∨ e ∈ early
  /-- What was visited was an entry and lies behind the cursor. -/
  behind : ∀ e ∈ visited, e ∈ m₀.entries ∧ Passed it e.1
  /-- What disappeared before its turn was an entry, is not there and was not visited. -/
  apart : ∀ e ∈ early, e ∈ m₀.entries ∧ e ∉ m.entries ∧ e ∉ visited
  /-- Nothing was visited twice. -/
  once : visited.Nodup

/-- A walk begins at the first entry. -/
theorem Covers.first (m : SortedMap κ ν) : Covers m m m.first? [] [] where
  sub e he := he
  valid k hk := (first?_eq_some hk).1
  passed e he hpast := by
    cases hfirst : m.first? with
    | none =>
      rw [first?_eq_none hfirst] at he
      exact absurd he List.not_mem_nil
    | some k => exact absurd (hpast k hfirst) (not_lt.mpr ((first?_eq_some hfirst).2 e he))
  ahead e he _ := .inl he
  behind e he := absurd he List.not_mem_nil
  apart e he := absurd he List.not_mem_nil
  once := List.nodup_nil

/-- A cursor at a key has passed the keys below it. -/
theorem passed_some : Passed (some k) a ↔ a < k :=
  ⟨fun h => h k rfl, fun h _ hb => Option.some.inj hb ▸ h⟩

/-- The next key is behind no key up to the one before it. -/
theorem passed_next (h : a ≤ k) : Passed (m.next? k) a :=
  fun _ hb => lt_of_le_of_lt h (next?_eq_some hb).1

/-- In one step a cursor passes no key behind the one it was at. -/
theorem le_of_passed_next {e : κ × ν} (he : e ∈ m.entries) (h : Passed (m.next? k) e.1) :
    e.1 ≤ k := by
  cases hnext : m.next? k with
  | none => exact next?_eq_none hnext he
  | some a =>
    rw [hnext, passed_some] at h
    exact not_lt.mp fun hlt => not_lt.mpr ((next?_eq_some hnext).2.2 e he hlt) h

/-- A walk goes on behind an entry that is still there. -/
theorem Covers.next {early : List (κ × ν)} (h : Covers m₀ m (some k) visited early)
    (hsub : ∀ e ∈ m'.entries, e ∈ m.entries) (hk : (k, v) ∈ m'.entries) :
    Covers m₀ m' (m'.next? k) (visited ++ [(k, v)]) (early ++ lost m m' k) where
  sub e he := h.sub e (hsub e he)
  valid a ha := (next?_eq_some ha).2.1
  passed e he hpast := by
    rcases lt_trichotomy e.1 k with hlt | heq | hgt
    · rcases h.passed e he (passed_some.mpr hlt) with hvisited | hearly
      · exact .inl (List.mem_append_left _ hvisited)
      · exact .inr (List.mem_append_left _ hearly)
    · left
      apply List.mem_append_right
      obtain ⟨b, u⟩ := e
      obtain rfl : b = k := heq
      have hu := (mem_entries_iff.mp he).symm.trans (mem_entries_iff.mp (h.sub _ (hsub _ hk)))
      cases hu
      exact List.mem_singleton.mpr rfl
    · right
      rcases h.ahead e he fun hp => not_lt.mpr hgt.le (passed_some.mp hp) with hmem | hearly
      · rcases mem_or_find?_eq_none hsub hmem with hmem' | hfind
        · exact absurd hgt (not_lt.mpr (le_of_passed_next hmem' hpast))
        · exact List.mem_append_right _ (mem_lost.mpr ⟨hmem, hgt, hfind⟩)
      · exact List.mem_append_left _ hearly
  ahead e he hnot := by
    have hgt : k < e.1 := not_le.mp fun hle => hnot (passed_next hle)
    rcases h.ahead e he fun hp => not_lt.mpr hgt.le (passed_some.mp hp) with hmem | hearly
    · rcases mem_or_find?_eq_none hsub hmem with hmem' | hfind
      · exact .inl hmem'
      · exact .inr (List.mem_append_right _ (mem_lost.mpr ⟨hmem, hgt, hfind⟩))
    · exact .inr (List.mem_append_left _ hearly)
  behind e he := by
    rcases List.mem_append.mp he with he | he
    · obtain ⟨hmem, hpast⟩ := h.behind e he
      exact ⟨hmem, passed_next (passed_some.mp hpast).le⟩
    · rw [List.mem_singleton.mp he]
      exact ⟨h.sub _ (hsub _ hk), passed_next le_rfl⟩
  apart e he := by
    rw [List.mem_append, List.mem_singleton, not_or]
    rcases List.mem_append.mp he with he | he
    · obtain ⟨hmem, hgone, hnot⟩ := h.apart e he
      refine ⟨hmem, fun hmem' => hgone (hsub e hmem'), hnot, ?_⟩
      rintro rfl
      exact hgone (hsub _ hk)
    · obtain ⟨hmem, hgt, hfind⟩ := mem_lost.mp he
      refine ⟨h.sub e hmem, not_mem_of_find?_eq_none hfind, fun hvisited => ?_, ?_⟩
      · exact not_lt.mpr hgt.le (passed_some.mp (h.behind e hvisited).2)
      · rintro rfl
        exact lt_irrefl _ hgt
  once := by
    apply List.nodup_append.mpr
    refine ⟨h.once, List.nodup_singleton _, ?_⟩
    rintro e he d hd rfl
    rw [List.mem_singleton.mp hd] at he
    exact lt_irrefl k (passed_some.mp (h.behind _ he).2)

/-- Behind its last entry a walk has visited exactly what did not disappear before. -/
theorem Covers.visited_iff {early : List (κ × ν)} (h : Covers m₀ m none visited early)
    {e : κ × ν} (he : e ∈ m₀.entries) : e ∈ visited ↔ e ∉ early := by
  constructor
  · exact fun hvisited hearly => (h.apart e hearly).2.2 hvisited
  · intro hnot
    exact (h.passed e he fun _ hk => by cases hk).resolve_right hnot

/-! ## The end of a walk -/

/-- The entries a walk has still before it. -/
def remaining (m : SortedMap κ ν) : Option κ → Nat
  | none => 0
  | some k => (m.entries.filter fun e => decide (k ≤ e.1)).length

/-- At the first key every entry is to come. -/
theorem remaining_first (m : SortedMap κ ν) : m.remaining m.first? = m.entries.length := by
  cases hfirst : m.first? with
  | none =>
    rw [first?_eq_none hfirst]
    rfl
  | some k =>
    rw [remaining, List.filter_eq_self.mpr]
    exact fun e he => decide_eq_true ((first?_eq_some hfirst).2 e he)

/-- At an entry there is something to come. -/
theorem remaining_pos (hk : (k, v) ∈ m.entries) : 0 < m.remaining (some k) :=
  List.length_pos_of_mem (List.mem_filter.mpr ⟨hk, decide_eq_true le_rfl⟩)

/-- Each move leaves fewer entries before the cursor. -/
theorem remaining_next (hsub : ∀ e ∈ m'.entries, e ∈ m.entries) (hk : (k, v) ∈ m'.entries) :
    m'.remaining (m'.next? k) < m.remaining (some k) := by
  have hmem : (k, v) ∈ m.entries.filter fun e => decide (k ≤ e.1) :=
    List.mem_filter.mpr ⟨hsub _ hk, decide_eq_true le_rfl⟩
  cases hnext : m'.next? k with
  | none => exact remaining_pos (hsub _ hk)
  | some a =>
    have hka := (next?_eq_some hnext).1
    have hnodup : ((k, v) :: m'.entries.filter fun e => decide (a ≤ e.1)).Nodup := by
      refine List.nodup_cons.mpr ⟨fun h => ?_, m'.nodup_entries.filter _⟩
      have hle := of_decide_eq_true (List.mem_filter.mp h).2
      exact not_lt.mpr hle hka
    have hsubset : ((k, v) :: m'.entries.filter fun e => decide (a ≤ e.1)) ⊆
        m.entries.filter fun e => decide (k ≤ e.1) := by
      intro e he
      rcases List.mem_cons.mp he with rfl | he
      · exact hmem
      · obtain ⟨he, hle⟩ := List.mem_filter.mp he
        exact List.mem_filter.mpr
          ⟨hsub e he, decide_eq_true (hka.le.trans (of_decide_eq_true hle))⟩
    exact (List.subperm_of_subset hnodup hsubset).length_le

end SortedMap

end ServerCom
