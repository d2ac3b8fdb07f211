import Mathlib.Data.List.GetD
import Mathlib.Data.List.Nodup
import Mathlib.Data.List.Perm.Basic

/-!
# Buckets

A list of lists, in which every entry stands in the slot of its key. All entries together are
searched, extended and changed by what happens in one slot.
-/

namespace ServerCom.Buckets

variable {ε κ : Type*} {key : ε → κ} {place : κ → ℕ} {t : List (List ε)} {l l' : List ε}
  {i j : ℕ} {k : κ} {e : ε}

/-! ## Slots -/

/-- Every entry stands in the slot of its key. -/
def Placed (key : ε → κ) (place : κ → ℕ) (t : List (List ε)) : Prop :=
  ∀ i, ∀ e ∈ t.getD i [], place (key e) = i

/-- A slot is changed, and no other one. -/
theorem getD_modify (f : List ε → List ε) (hi : i < t.length) :
    (t.modify i f).getD j [] = if i = j then f (t.getD j []) else t.getD j [] := by
  rw [List.getD_eq_getElem?_getD, List.getD_eq_getElem?_getD, List.getElem?_modify]
  split_ifs with hij
  · subst hij
    rw [List.getElem?_eq_getElem hi]
    rfl
  · cases t[j]? <;> rfl

/-- Empty slots hold nothing that is out of place. -/
theorem placed_replicate (n : ℕ) : Placed key place (List.replicate n []) := by
  intro i e he
  rw [List.getD_eq_getElem?_getD, List.getElem?_replicate] at he
  split_ifs at he <;> cases he

/-- A slot takes entries of its own. -/
theorem Placed.modify (hp : Placed key place t) (hi : i < t.length) {f : List ε → List ε}
    (hf : ∀ e ∈ f (t.getD i []), place (key e) = i) : Placed key place (t.modify i f) := by
  intro j e he
  rw [getD_modify f hi] at he
  split_ifs at he with hij
  · subst hij
    exact hf e he
  · exact hp j e he

/-- The entries before a slot, in it and behind it. -/
theorem flatten_eq (hi : i < t.length) :
    t.flatten = (t.take i).flatten ++ (t.getD i [] ++ (t.drop (i + 1)).flatten) := by
  conv_lhs => rw [← List.take_append_drop i t, List.flatten_append, List.drop_eq_getElem_cons hi,
    List.flatten_cons]
  rw [List.getD_eq_getElem t [] hi]

/-- The entries of a table of which one slot is changed. -/
theorem flatten_modify (f : List ε → List ε) (hi : i < t.length) :
    (t.modify i f).flatten =
      (t.take i).flatten ++ (f (t.getD i []) ++ (t.drop (i + 1)).flatten) := by
  rw [List.modify_eq_take_cons_drop hi, List.flatten_append, List.flatten_cons,
    List.getD_eq_getElem t [] hi]

/-- What comes into a slot is one more entry. -/
theorem perm_modify_cons (e : ε) (hi : i < t.length) :
    ((t.modify i (e :: ·)).flatten).Perm (e :: t.flatten) := by
  rw [flatten_modify _ hi, flatten_eq hi]
  exact List.perm_middle

/-- The other slots do not have a key. -/
theorem Placed.not_key (hp : Placed key place t) (hi : place k < t.length) :
    (∀ e ∈ (t.take (place k)).flatten, key e ≠ k) ∧
      ∀ e ∈ (t.drop (place k + 1)).flatten, key e ≠ k := by
  have hslot : ∀ j (hj : j < t.length), ∀ e ∈ t[j], place (key e) = j := by
    intro j hj e he
    rw [← List.getD_eq_getElem t [] hj] at he
    exact hp j e he
  constructor
  · rintro e he rfl
    obtain ⟨c, hc, hec⟩ := List.mem_flatten.mp he
    obtain ⟨j, hj, rfl⟩ := List.mem_iff_getElem.mp hc
    rw [List.length_take] at hj
    rw [List.getElem_take] at hec
    have := hslot j (by omega) e hec
    omega
  · rintro e he rfl
    obtain ⟨c, hc, hec⟩ := List.mem_flatten.mp he
    obtain ⟨j, hj, rfl⟩ := List.mem_iff_getElem.mp hc
    rw [List.length_drop] at hj
    rw [List.getElem_drop] at hec
    have := hslot _ (by omega) e hec
    omega

/-- What changes the entries of one key alone can be done in its slot. -/
theorem Placed.flatten_modify (hp : Placed key place t) (hi : place k < t.length)
    {f g : List ε → List ε} (happ : ∀ l l', g (l ++ l') = g l ++ g l')
    (hid : ∀ l, (∀ e ∈ l, key e ≠ k) → g l = l)
    (hf : f (t.getD (place k) []) = g (t.getD (place k) [])) :
    (t.modify (place k) f).flatten = g t.flatten := by
  obtain ⟨hbefore, hbehind⟩ := hp.not_key hi
  rw [Buckets.flatten_modify f hi, flatten_eq hi, happ, happ, hid _ hbefore, hid _ hbehind, hf]

/-- A key is searched in its slot. -/
theorem Placed.find?_eq [DecidableEq κ] (hp : Placed key place t) (hi : place k < t.length) :
    (t.getD (place k) []).find? (fun e => key e = k) = t.flatten.find? (fun e => key e = k) := by
  obtain ⟨hbefore, hbehind⟩ := hp.not_key hi
  have hnone : ∀ l : List ε, (∀ e ∈ l, key e ≠ k) → l.find? (fun e => key e = k) = none :=
    fun l hl => List.find?_eq_none.mpr fun e he => by simpa using hl e he
  rw [flatten_eq hi, List.find?_append, List.find?_append, hnone _ hbefore, hnone _ hbehind,
    Option.none_or, Option.or_none]

/-! ## Entries with different keys -/

section

variable [DecidableEq κ]

/-- With different keys, the entry that is found is the one that is there. -/
theorem find?_eq_some_iff (hn : (l.map key).Nodup) :
    l.find? (fun e => key e = k) = some e ↔ e ∈ l ∧ key e = k := by
  induction l with
  | nil => simp
  | cons d l ih =>
    rw [List.map_cons, List.nodup_cons] at hn
    rw [List.find?_cons]
    by_cases hd : key d = k
    · rw [decide_eq_true hd]
      constructor
      · intro h
        cases h
        exact ⟨List.mem_cons_self .., hd⟩
      · rintro ⟨he, hek⟩
        rcases List.mem_cons.mp he with rfl | he
        · rfl
        · exact absurd (List.mem_map.mpr ⟨e, he, hek.trans hd.symm⟩) hn.1
    · rw [decide_eq_false hd]
      dsimp only
      rw [ih hn.2]
      refine and_congr_left fun hek => ⟨List.mem_cons_of_mem d, fun he => ?_⟩
      rcases List.mem_cons.mp he with rfl | he
      · exact absurd hek hd
      · exact he

/-- The order does not matter to a search. -/
theorem find?_perm (h : l.Perm l') (hn : (l.map key).Nodup) :
    l.find? (fun e => key e = k) = l'.find? (fun e => key e = k) := by
  have hn' : (l'.map key).Nodup := (h.map key).nodup_iff.mp hn
  ext e
  rw [find?_eq_some_iff hn, find?_eq_some_iff hn', h.mem_iff]

/-- Without the key nothing is taken out. -/
theorem filter_eq_self (h : ∀ e ∈ l, key e ≠ k) : l.filter (fun e => key e ≠ k) = l :=
  List.filter_eq_self.mpr fun e he => decide_eq_true (h e he)

/-- The first entry of a key is the only one. -/
theorem eraseP_eq_filter (hn : (l.map key).Nodup) :
    l.eraseP (fun e => key e = k) = l.filter (fun e => key e ≠ k) := by
  induction l with
  | nil => rfl
  | cons e l ih =>
    rw [List.map_cons, List.nodup_cons] at hn
    by_cases he : key e = k
    · have hother : ∀ d ∈ l, key d ≠ k := fun d hd hk =>
        hn.1 (List.mem_map.mpr ⟨d, hd, hk.trans he.symm⟩)
      rw [List.eraseP_cons_of_pos (by simpa using he),
        List.filter_cons_of_neg (by simpa using he), filter_eq_self hother]
    · rw [List.eraseP_cons_of_neg (by simpa using he), List.filter_cons_of_pos (by simpa using he),
        ih hn.2]

/-- An entry and the ones of other keys are all. -/
theorem perm_cons_filter (hn : (l.map key).Nodup) (he : e ∈ l) :
    l.Perm (e :: l.filter (fun d => key d ≠ key e)) := by
  induction l with
  | nil => cases he
  | cons d l ih =>
    rw [List.map_cons, List.nodup_cons] at hn
    rcases List.mem_cons.mp he with rfl | he
    · have hother : ∀ d ∈ l, key d ≠ key e := fun d hd hk =>
        hn.1 (List.mem_map.mpr ⟨d, hd, hk⟩)
      rw [List.filter_cons_of_neg (by simp), filter_eq_self hother]
    · have hd : key d ≠ key e := fun hk => hn.1 (List.mem_map.mpr ⟨e, he, hk.symm⟩)
      rw [List.filter_cons_of_pos (by simpa using hd)]
      exact ((ih hn.2 he).cons d).trans (.swap ..)

end

end ServerCom.Buckets
