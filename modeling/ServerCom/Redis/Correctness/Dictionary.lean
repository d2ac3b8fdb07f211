import ServerCom.Core.Machine.Refinement
import ServerCom.Redis.Interpretation.DictWalk
import ServerCom.Redis.Native.Hiredis

/-!
# The hash table is a dictionary

In every run of its operations the table answers like a list of entries with different keys,
and is never so full that it has more entries than slots. A loop over the table visits every
entry once, also when its body deletes what it is given.
-/

namespace ServerCom.Redis.Dict

open Buckets Machine

variable {κ ν : Type*} [DecidableEq κ] {hash : κ → UInt32} {ht : Dict κ ν}
  {d rest : List (DictEntry κ ν)} {iter : DictIterator κ}

/-- An operation. -/
inductive Op (κ ν : Type*) where
  /-- `dictAdd`. -/
  | add (key : κ) (val : ν)
  /-- `dictReplace`. -/
  | replace (key : κ) (val : ν)
  /-- `dictDelete`. -/
  | delete (key : κ)
  /-- `dictFind`. -/
  | find (key : κ)
  deriving DecidableEq, Repr

/-- What an operation returns. -/
inductive Answer (ν : Type*) where
  /-- An element was added, or deleted. -/
  | done (yes : Bool)
  /-- The value that was found. -/
  | found (val : Option ν)
  deriving DecidableEq, Repr

/-- An operation on a table. -/
def perform (hash : κ → UInt32) (ht : Dict κ ν) : Op κ ν → Option (Answer ν × Dict κ ν)
  | .add key val => (ht.add hash key val).map fun res => (.done res.1, res.2)
  | .replace key val => (ht.replace hash key val).map fun res => (.done res.1, res.2)
  | .delete key => some (.done (ht.delete hash key).1, (ht.delete hash key).2)
  | .find key => some (.found ((ht.find hash key).map Prod.snd), ht)

/-- An operation on a list of entries. -/
def spec (d : List (DictEntry κ ν)) : Op κ ν → Answer ν × List (DictEntry κ ν)
  | .add key val =>
    (.done (key ∉ d.map Prod.fst), if key ∈ d.map Prod.fst then d else (key, val) :: d)
  | .replace key val => (.done (key ∉ d.map Prod.fst), (key, val) :: d.filter (·.1 ≠ key))
  | .delete key => (.done (key ∈ d.map Prod.fst), d.filter (·.1 ≠ key))
  | .find key => (.found (d.lookup key), d)

/-- There are few enough entries. -/
def Fits (d : List (DictEntry κ ν)) (_ : Op κ ν) : Prop := d.length < 2 ^ 30

instance (d : List (DictEntry κ ν)) (op : Op κ ν) : Decidable (Fits d op) :=
  inferInstanceAs (Decidable (_ < _))

/-- A lookup in the map as a search for the entry. -/
theorem lookup_eq (d : List (DictEntry κ ν)) (key : κ) :
    d.lookup key = (d.find? (·.1 = key)).map Prod.snd := by
  induction d with
  | nil => rfl
  | cons e d ih =>
    rw [List.lookup_cons, List.find?_cons]
    by_cases hkey : e.1 = key
    · subst hkey
      simp
    · have hne : (key == e.1) = false := by simpa using fun h => hkey h.symm
      rw [hne, decide_eq_false hkey]
      exact ih

/-- Every operation answers as on the map that the table holds, and its table holds the new map.
-/
theorem Holds.perform (h : Holds hash ht d) {op : Op κ ν} (hfit : Fits d op) :
    ∃ ht', ht.perform hash op = some ((spec d op).1, ht') ∧ Holds hash ht' (spec d op).2 := by
  cases op with
  | add key val =>
    obtain ⟨ht', hadd, hholds⟩ := h.add hfit key val
    exact ⟨ht', by rw [Dict.perform, hadd]; rfl, hholds⟩
  | replace key val =>
    obtain ⟨ht', hreplace, hholds⟩ := h.replace hfit key val
    exact ⟨ht', by rw [Dict.perform, hreplace]; rfl, hholds⟩
  | delete key =>
    obtain ⟨hdone, hholds⟩ := h.delete key
    exact ⟨_, by rw [Dict.perform, hdone]; rfl, hholds⟩
  | find key => exact ⟨ht, by rw [Dict.perform, h.find_eq, spec, lookup_eq], h⟩

/-- Any operations on a new table have the answers of a list of entries with different keys;
none fails. The entries of the table are those of the list, with `used` their number and not
more of them than slots. -/
theorem answers_eq (hash : κ → UInt32) {ops : List (Op κ ν)}
    (h : Along (fun d op => (spec d op).2) Fits [] ops) :
    ∃ ht, answers (perform hash) create ops = some ((specAnswers spec [] ops).1, ht) ∧
      ht.table.flatten.Perm (specAnswers spec [] ops).2 ∧
      ((specAnswers spec [] ops).2.map Prod.fst).Nodup ∧
      ht.used = (specAnswers spec [] ops).2.length ∧ ht.used ≤ ht.size := by
  have hstep : ∀ (ht : Dict κ ν) d op, Holds hash ht d → Fits d op →
      ∃ ht', ht.perform hash op = some ((spec d op).1, ht') ∧ Holds hash ht' (spec d op).2 :=
    fun ht d op hholds hfit => hholds.perform hfit
  obtain ⟨ht, hanswers, hholds⟩ := answers_eq_of_refines hstep holds_create h
  exact ⟨ht, hanswers, hholds.entries, hholds.nodup, hholds.used, hholds.load⟩

/-- Five keys in one chain, of which one is replaced and one deleted. -/
def fiveKeys : List (Op ℕ ℕ) :=
  [.add 1 1, .add 2 2, .add 3 3, .add 4 4, .add 5 5, .add 1 6, .replace 2 7, .delete 3, .find 2]

theorem answers_eq_fiveKeys : ∃ ht, answers (perform (fun _ => 0)) create fiveKeys =
    some ((specAnswers spec [] fiveKeys).1, ht) ∧ ht.used = 4 := by
  have h : Along (fun d op => (spec d op).2) Fits [] fiveKeys := by decide +kernel
  obtain ⟨ht, hanswers, -, -, hused, -⟩ := answers_eq (fun _ => 0) h
  exact ⟨ht, hanswers, hused.trans (by decide +kernel)⟩

/-- The callbacks of a subscription come into the table as they come into the dictionary of the
context. -/
theorem Holds.subscribe {α : Type*} {hash : Arg → UInt32} {ht : Dict Arg (RedisCallback α)}
    {d : CallbackDict α} (h : Holds hash ht d) (cb : RedisCallback α) {names : List Arg}
    (hlen : d.length + names.length ≤ 2 ^ 30) :
    ∃ ht', names.foldlM (fun ht sname => (ht.replace hash sname cb).map Prod.snd) ht = some ht' ∧
      Holds hash ht' (names.foldl (fun d => dictReplace d cb) d) := by
  induction names generalizing ht d with
  | nil => exact ⟨ht, rfl, h⟩
  | cons sname names ih =>
    rw [List.length_cons] at hlen
    obtain ⟨ht₁, hreplace, hholds⟩ := h.replace (by omega) sname cb
    have hle : (dictReplace d cb sname).length ≤ d.length + 1 :=
      Nat.succ_le_succ (List.length_filter_le ..)
    obtain ⟨ht', hrest, hholds'⟩ := ih hholds
      (Nat.le_trans (Nat.add_le_add_right hle _) (by omega))
    refine ⟨ht', ?_, hholds'⟩
    rw [List.foldlM_cons, hreplace]
    exact hrest

/-! ## Loops -/

/-- The deletion of an entry that was returned leaves what is still to visit. -/
theorem Holds.at_delete (h : Holds hash ht d) {i : ℕ} {he : DictEntry κ ν}
    {before behind : List (DictEntry κ ν)} (hi : i < ht.size)
    (hchain : ht.chain i = before ++ behind) (hmem : he ∈ before) :
    At (ht.delete hash he.1).2 ⟨i, some he.1, behind.head?.map Prod.fst⟩
      (behind ++ (ht.table.drop (i + 1)).flatten) := by
  have hslot : slot hash ht.sizemask he.1 = i :=
    h.placed i he (by rw [chain] at hchain; rw [hchain]; exact List.mem_append_left _ hmem)
  have hlt : i < ht.table.length := by rw [h.length]; exact hi
  have hany : (ht.chain i).any (·.1 = he.1) = true := by
    rw [hchain]
    exact List.any_eq_true.mpr ⟨he, List.mem_append_left _ hmem, decide_eq_true rfl⟩
  have hdelete : (ht.delete hash he.1).2 = { ht with
      table := ht.table.modify i (·.eraseP (·.1 = he.1)), used := ht.used - 1 } := by
    rw [Dict.delete, if_neg (by omega)]
    dsimp only
    rw [hslot, if_pos hany]
  have hdrop : ht.table.drop (i + 1) = (ht.delete hash he.1).2.table.drop (i + 1) := by
    rw [hdelete]
    exact (List.drop_modify_of_lt _ _ _ _ (Nat.lt_succ_self i)).symm
  have herase : (before ++ behind).eraseP (·.1 = he.1) =
      before.eraseP (·.1 = he.1) ++ behind :=
    List.eraseP_append_left (by simp) behind hmem
  rw [hdrop]
  refine .inside i (by rw [hdelete]; exact hi) he.1 (before.eraseP (·.1 = he.1)) behind ?_
  rw [hdelete, chain]
  dsimp only
  rw [getD_modify _ hlt, if_pos rfl, ← chain, hchain]
  exact herase

/-- A loop visits what is still to visit, and deletes what its body drops of it. -/
theorem Holds.walk (h : Holds hash ht d) (hat : At ht iter rest) (drop : DictEntry κ ν → Bool)
    (hrest : (rest.map Prod.fst).Nodup) :
    ∃ ht' d', walk hash drop (rest.length + 1) ht iter = some (rest, ht') ∧ Holds hash ht' d' ∧
      ∀ e, e ∈ d' ↔ e ∈ d ∧ ¬ (e ∈ rest ∧ drop e = true) := by
  induction rest generalizing ht d iter with
  | nil =>
    refine ⟨ht, d, ?_, h, by simp⟩
    rcases h.next_spec hat with ⟨iter', -, hnext⟩ | ⟨i, he, before, behind, hi, hchain, hmem, hr, -⟩
    · rw [Dict.walk, hnext]
    · cases hr
  | cons he rest ih =>
    rcases h.next_spec hat with ⟨iter', hr, -⟩ |
        ⟨i, he', before, behind, hi, hchain, hmem, hr, hnext⟩
    · cases hr
    obtain ⟨rfl, rfl⟩ := List.cons.inj hr
    have hhe : he ∈ d := by
      refine h.entries.mem_iff.mp ?_
      have hlt : i < ht.table.length := by rw [h.length]; exact hi
      rw [flatten_eq hlt, ← chain, hchain]
      exact List.mem_append_right _ (List.mem_append_left _ (List.mem_append_left _ hmem))
    rw [List.map_cons, List.nodup_cons] at hrest
    rw [Dict.walk, hnext]
    dsimp only
    by_cases hdrop : drop he = true
    · rw [if_pos hdrop]
      obtain ⟨ht', d', hwalk, hholds, hd'⟩ :=
        ih (h.delete he.1).2 (h.at_delete hi hchain hmem) hrest.2
      rw [List.length_cons, hwalk]
      refine ⟨ht', d', rfl, hholds, fun e => ?_⟩
      rw [hd', List.mem_filter, decide_eq_true_eq, List.mem_cons]
      constructor
      · rintro ⟨⟨hold, hne⟩, hkept⟩
        refine ⟨hold, ?_⟩
        rintro ⟨rfl | hin, hgone⟩
        · exact hne rfl
        · exact hkept ⟨hin, hgone⟩
      · rintro ⟨hold, hkept⟩
        refine ⟨⟨hold, fun hkey => hkept ?_⟩, fun hin => hkept (hin.imp_left .inr)⟩
        rw [List.inj_on_of_nodup_map h.nodup hold hhe hkey]
        exact ⟨.inl rfl, hdrop⟩
    · rw [if_neg hdrop]
      obtain ⟨ht', d', hwalk, hholds, hd'⟩ := ih h (.inside i hi he.1 before behind hchain) hrest.2
      rw [List.length_cons, hwalk]
      refine ⟨ht', d', rfl, hholds, fun e => ?_⟩
      rw [hd', List.mem_cons]
      refine and_congr_right fun _ => not_congr (and_congr_left fun hgone => ?_)
      refine ⟨.inr, fun hin => hin.resolve_left ?_⟩
      rintro rfl
      exact hdrop hgone

/-- A loop over a table visits each of its entries once, and what its body deletes on the way
are the only entries that are gone behind it. The release of the table then frees each of the
others once. -/
theorem walk_clear (hash : κ → UInt32) {ops : List (Op κ ν)}
    (h : Along (fun d op => (spec d op).2) Fits [] ops) (drop : DictEntry κ ν → Bool) :
    ∃ ht ht' visited, answers (perform hash) create ops = some ((specAnswers spec [] ops).1, ht) ∧
      walk hash drop (ht.used + 1) ht getIterator = some (visited, ht') ∧
      visited.Perm (specAnswers spec [] ops).2 ∧
      ht'.clear.1.Perm ((specAnswers spec [] ops).2.filter (!drop ·)) ∧ ht'.clear.2 = create := by
  have hstep : ∀ (ht : Dict κ ν) d op, Holds hash ht d → Fits d op →
      ∃ ht', ht.perform hash op = some ((spec d op).1, ht') ∧ Holds hash ht' (spec d op).2 :=
    fun ht d op hholds hfit => hholds.perform hfit
  obtain ⟨ht, hanswers, hholds⟩ := answers_eq_of_refines hstep holds_create h
  obtain ⟨ht', d', hwalk, hholds', hd'⟩ := hholds.walk (at_getIterator ht) drop hholds.nodup_table
  have hlength : ht.used = ht.table.flatten.length := by
    rw [hholds.used, hholds.entries.length_eq]
  refine ⟨ht, ht', ht.table.flatten, hanswers, by rw [hlength]; exact hwalk, hholds.entries,
    ?_, rfl⟩
  have hfreed : ht'.clear.1 = ht'.table.flatten := by
    rw [clear, hholds'.used, ← hholds'.entries.length_eq, clearTable_eq]
  rw [hfreed]
  refine hholds'.entries.trans ?_
  rw [List.perm_ext_iff_of_nodup hholds'.nodup.of_map (hholds.nodup.of_map.filter _)]
  intro e
  rw [hd', List.mem_filter, hholds.entries.mem_iff, Bool.not_eq_true']
  refine and_congr_right fun he => ?_
  rw [not_and, Bool.not_eq_true]
  exact ⟨fun hgone => hgone he, fun hgone _ => hgone⟩

theorem walk_clear_fiveKeys : ∃ ht ht' visited,
    answers (perform (fun _ => 0)) create fiveKeys =
      some ((specAnswers spec [] fiveKeys).1, ht) ∧
    walk (fun _ => 0) (fun e => e.1 = 4) (ht.used + 1) ht getIterator = some (visited, ht') ∧
    visited.Perm [(2, 7), (5, 5), (4, 4), (1, 1)] ∧ ht'.clear.1.Perm [(2, 7), (5, 5), (1, 1)] := by
  have h : Along (fun d op => (spec d op).2) Fits [] fiveKeys := by decide +kernel
  obtain ⟨ht, ht', visited, hanswers, hwalk, hvisited, hfreed, -⟩ :=
    walk_clear (fun _ => 0) h (fun e => e.1 = 4)
  exact ⟨ht, ht', visited, hanswers, hwalk, hvisited, hfreed⟩

end ServerCom.Redis.Dict
