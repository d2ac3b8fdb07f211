import ServerCom.Redis.Interpretation.Simulation

/-!
# Sound links

What every run keeps of the links, however the object is used: the calls in progress have
contexts of their own, each but the innermost waits for the user's code, and as long as the
object lives, a context that can still call it back is its own or is being freed.
-/

namespace ServerCom.Redis

open Relation

/-- The calls in progress and the contexts they work on. -/
structure Stacked (contexts : ContextPtr → Option Link) (obtained : Nat) (calls : List Doing) :
    Prop where
  /-- No context exists before it is obtained. -/
  fresh : ∀ c, obtained ≤ c → contexts c = none
  /-- Two calls work on two contexts. -/
  nodup : (calls.map Doing.context).Nodup
  /-- The calls below the innermost wait for the user's code. -/
  below : ∀ d ∈ calls.tail, d.running = true
  /-- A call works on a context that is not freed. -/
  live : ∀ d ∈ calls, ∃ l, contexts d.context = some l ∧ l.inCallback = d.running
  /-- A context without a call is not in a callback. -/
  idle : ∀ c l, contexts c = some l → c ∉ calls.map Doing.context → l.inCallback = false

namespace Stacked

variable {contexts : ContextPtr → Option Link} {obtained : Nat} {calls rest : List Doing}
  {c : ContextPtr} {l l' : Link} {freeing freeing' : Option Bool} {running running' : Bool}

/-- A context that exists was obtained. -/
theorem lt_obtained (h : Stacked contexts obtained calls) (hc : contexts c = some l) :
    c < obtained := by
  by_contra hlt
  rw [h.fresh c (Nat.not_lt.mp hlt)] at hc
  cases hc

/-- A new context has no call. -/
theorem obtain (h : Stacked contexts obtained calls) (hl : l.inCallback = false) :
    Stacked (Function.update contexts obtained (some l)) (obtained + 1) calls := by
  have hold : ∀ c l', contexts c = some l' → c ≠ obtained :=
    fun c l' hc => Nat.ne_of_lt (h.lt_obtained hc)
  refine ⟨fun c hc => ?_, h.nodup, h.below, fun d hd => ?_, fun c l' hc hd => ?_⟩
  · rw [Function.update_of_ne (Nat.ne_of_gt hc)]
    exact h.fresh c (Nat.le_of_succ_le hc)
  · obtain ⟨l', hl', hin⟩ := h.live d hd
    exact ⟨l', by rw [Function.update_of_ne (hold _ _ hl'), hl'], hin⟩
  · by_cases hcn : c = obtained
    · subst hcn
      rw [Function.update_self] at hc
      exact Option.some.inj hc ▸ hl
    · rw [Function.update_of_ne hcn] at hc
      exact h.idle c l' hc hd

/-- A context without a call changes, and stays out of callbacks. -/
theorem set (h : Stacked contexts obtained []) (hc : contexts c = some l)
    (hl : l'.inCallback = l.inCallback) :
    Stacked (Function.update contexts c (some l')) obtained [] := by
  refine ⟨fun d hd => ?_, h.nodup, h.below, by simp, fun d k hd hnot => ?_⟩
  · rw [Function.update_of_ne (Nat.ne_of_gt (Nat.lt_of_lt_of_le (h.lt_obtained hc) hd))]
    exact h.fresh d hd
  · by_cases hdc : d = c
    · subst hdc
      rw [Function.update_self] at hd
      rw [← Option.some.inj hd, hl]
      exact h.idle d l hc hnot
    · rw [Function.update_of_ne hdc] at hd
      exact h.idle d k hd hnot

/-- A call is made on a context that is not in a callback. -/
theorem push (h : Stacked contexts obtained calls) (hrun : ∀ d ∈ calls.head?, d.running = true)
    (hc : contexts c = some l) (hl : l.inCallback = false) :
    Stacked contexts obtained (⟨c, freeing, false⟩ :: calls) := by
  have hall : ∀ d ∈ calls, d.running = true := by
    cases calls with
    | nil => simp
    | cons e rest =>
      intro d hd
      rcases List.mem_cons.mp hd with rfl | hd
      · exact hrun d (by simp)
      · exact h.below d (by simpa using hd)
  refine ⟨h.fresh, ?_, fun d hd => hall d (by simpa using hd), fun d hd => ?_,
    fun d k hd hnot => ?_⟩
  · rw [List.map_cons, List.nodup_cons]
    refine ⟨fun hmem => ?_, h.nodup⟩
    -- a context with a call below is in a callback
    obtain ⟨d, hd, hdc⟩ := List.mem_map.mp hmem
    obtain ⟨k, hk, hin⟩ := h.live d hd
    have hlk : l = k := Option.some.inj (hc.symm.trans ((show d.context = c from hdc) ▸ hk))
    rw [hall d hd, ← hlk, hl] at hin
    cases hin
  · rcases List.mem_cons.mp hd with rfl | hd
    · exact ⟨l, hc, hl⟩
    · exact h.live d hd
  · rw [List.map_cons, List.mem_cons, not_or] at hnot
    exact h.idle d k hd hnot.2

/-- The innermost call goes on. -/
theorem top (h : Stacked contexts obtained (⟨c, freeing, running⟩ :: rest))
    (hl : l.inCallback = running') : Stacked (Function.update contexts c (some l)) obtained
      (⟨c, freeing', running'⟩ :: rest) := by
  obtain ⟨k, hk, -⟩ := h.live _ (List.mem_cons_self ..)
  have hnodup := h.nodup
  rw [List.map_cons, List.nodup_cons] at hnodup
  have hother : ∀ d ∈ rest, d.context ≠ c := fun d hd hdc =>
    hnodup.1 (List.mem_map.mpr ⟨d, hd, hdc⟩)
  refine ⟨fun d hd => ?_, h.nodup, h.below, fun d hd => ?_, fun d k' hd hnot => ?_⟩
  · rw [Function.update_of_ne (Nat.ne_of_gt (Nat.lt_of_lt_of_le (h.lt_obtained hk) hd))]
    exact h.fresh d hd
  · rcases List.mem_cons.mp hd with rfl | hd
    · exact ⟨l, Function.update_self .., hl⟩
    · rw [Function.update_of_ne (hother d hd)]
      exact h.live d (List.mem_cons_of_mem _ hd)
  · rw [List.map_cons, List.mem_cons, not_or] at hnot
    rw [Function.update_of_ne hnot.1] at hd
    exact h.idle d k' hd (by simpa using hnot)

/-- The innermost call turns into another. -/
theorem turn (h : Stacked contexts obtained (⟨c, freeing, running⟩ :: rest)) :
    Stacked contexts obtained (⟨c, freeing', running⟩ :: rest) := by
  obtain ⟨l, hl, hin⟩ := h.live _ (List.mem_cons_self ..)
  have htop : Stacked (Function.update contexts c (some l)) obtained
      (⟨c, freeing', running⟩ :: rest) := h.top hin
  rwa [← show contexts c = some l from hl, Function.update_eq_self] at htop

/-- The innermost call ends. -/
theorem pop (h : Stacked contexts obtained (⟨c, freeing, false⟩ :: rest)) :
    Stacked contexts obtained rest := by
  have hnodup := h.nodup
  rw [List.map_cons, List.nodup_cons] at hnodup
  refine ⟨h.fresh, hnodup.2, fun d hd => h.below d (List.mem_of_mem_tail hd),
    fun d hd => h.live d (List.mem_cons_of_mem _ hd), fun d k hd hnot => ?_⟩
  by_cases hdc : d = c
  · subst hdc
    obtain ⟨l, hl, hin⟩ := h.live _ (List.mem_cons_self ..)
    rw [Option.some.inj (hd.symm.trans hl), hin]
  · exact h.idle d k hd (by simp [hdc, hnot])

/-- The innermost call frees its context. -/
theorem free (h : Stacked contexts obtained (⟨c, freeing, false⟩ :: rest)) :
    Stacked (Function.update contexts c none) obtained rest := by
  have hnodup := h.nodup
  rw [List.map_cons, List.nodup_cons] at hnodup
  have hother : ∀ d ∈ rest, d.context ≠ c := fun d hd hdc =>
    hnodup.1 (List.mem_map.mpr ⟨d, hd, hdc⟩)
  refine ⟨fun d hd => ?_, hnodup.2, fun d hd => h.below d (List.mem_of_mem_tail hd),
    fun d hd => ?_, fun d k hd hnot => ?_⟩
  · by_cases hdc : d = c
    · rw [hdc, Function.update_self]
    · rw [Function.update_of_ne hdc]
      exact h.fresh d hd
  · rw [Function.update_of_ne (hother d hd)]
    exact h.live d (List.mem_cons_of_mem _ hd)
  · by_cases hdc : d = c
    · rw [hdc, Function.update_self] at hd
      cases hd
    · rw [Function.update_of_ne hdc] at hd
      exact h.idle d k hd (by simp [hdc, hnot])

end Stacked

namespace Links

/-- A context is not freed. -/
def Unfreed (a : Links) (c : ContextPtr) : Prop := ∃ l, a.contexts c = some l

/-- A context is not freed, with this flag. -/
def Holds (a : Links) (flag : Link → Bool) (c : ContextPtr) : Prop :=
  ∃ l, a.contexts c = some l ∧ flag l = true

/-- A context points to the object. -/
abbrev Attached (a : Links) (c : ContextPtr) : Prop := a.Holds Link.attached c

/-- A context is connected. -/
abbrev Connected (a : Links) (c : ContextPtr) : Prop := a.Holds Link.connected c

/-- A call works on a context. -/
def Calling (a : Links) (c : ContextPtr) (freeing : Option Bool) : Prop :=
  ∃ r, ⟨c, freeing, r⟩ ∈ a.calls

/-- The innermost call works on a context. -/
def Innermost (a : Links) (c : ContextPtr) (freeing : Option Bool) : Prop :=
  ∃ r, a.calls.head? = some ⟨c, freeing, r⟩

/-- How the object and its contexts point to each other. -/
structure Linked (a : Links) : Prop where
  /-- But for the destructor, calls work on contexts in the event loop. -/
  attached : ∀ c f, a.Calling c f → f ≠ some true → a.Attached c
  /-- A context that is read is connected. -/
  connected : ∀ c, a.Calling c none → a.Connected c
  /-- The object does not point to a freed context. -/
  pointer : a.life ≠ .dead → ∀ c, a.pointer = some c → a.Unfreed c
  /-- In `S_INIT` its context is not in the event loop. -/
  unset : a.life = .alive → a.state = .init → ∀ c, a.pointer = some c → ¬ a.Attached c
  /-- In another state it is. -/
  set : a.life = .alive → a.state ≠ .init → ∃ c, a.pointer = some c ∧ a.Attached c
  /-- A context that points to the object is its own, or was refused and is being freed. -/
  reach : a.life = .alive → ∀ c, a.Attached c →
    a.pointer = some c ∨ ¬ a.Connected c ∧ a.Calling c (some false)
  /-- The object does not point to a refused context. -/
  loose : a.life = .alive → ∀ c, a.Calling c (some false) → ¬ a.Connected c → a.pointer ≠ some c
  /-- The destructor is the innermost call. -/
  dtor : ∀ c, a.Calling c (some true) → a.life = .dying ∧ a.Innermost c (some true)
  /-- The object is in its destructor while the destructor frees the context. -/
  dying : a.life = .dying → ∃ c, a.Innermost c (some true)

/-- The invariant of the links. -/
structure Sound (a : Links) : Prop where
  /-- The calls in progress are in order. -/
  stacked : Stacked a.contexts a.obtained a.calls
  /-- The pointers are in order. -/
  linked : a.Linked

variable {a b : Links} {c d : ContextPtr} {l l' : Link} {f f' : Option Bool} {r r' : Bool}
  {rest : List Doing}

/-! ## The predicates behind a change -/

/-- A context with a flag is not freed. -/
theorem Holds.unfreed {flag : Link → Bool} (h : a.Holds flag c) : a.Unfreed c :=
  ⟨h.choose, h.choose_spec.1⟩

/-- The flags of a context are those of its link. -/
theorem holds_iff {flag : Link → Bool} (hc : a.contexts c = some l) :
    a.Holds flag c ↔ flag l = true := by
  simp [Holds, hc]

/-- The flags of the context that changed. -/
theorem holds_update_self {flag : Link → Bool}
    (hb : b.contexts = Function.update a.contexts c (some l)) : b.Holds flag c ↔ flag l = true :=
  holds_iff (by rw [hb, Function.update_self])

/-- The flags of the others are as before. -/
theorem holds_update_of_ne {flag : Link → Bool} {x : Option Link} (hd : d ≠ c)
    (hb : b.contexts = Function.update a.contexts c x) : b.Holds flag d ↔ a.Holds flag d := by
  rw [Holds, Holds, hb, Function.update_of_ne hd]

/-- A context that changed is not freed. -/
theorem unfreed_update_self (hb : b.contexts = Function.update a.contexts c (some l)) :
    b.Unfreed c := ⟨l, by rw [hb, Function.update_self]⟩

/-- The others are freed as before. -/
theorem unfreed_update_of_ne {x : Option Link} (hd : d ≠ c)
    (hb : b.contexts = Function.update a.contexts c x) : b.Unfreed d ↔ a.Unfreed d := by
  rw [Unfreed, Unfreed, hb, Function.update_of_ne hd]

/-- A call is the innermost or one below it. -/
theorem calling_iff (htop : a.calls = ⟨c, f, r⟩ :: rest) :
    a.Calling d f' ↔ d = c ∧ f' = f ∨ ∃ r', ⟨d, f', r'⟩ ∈ rest := by
  simp only [Calling, htop, List.mem_cons, Doing.mk.injEq]
  constructor
  · rintro ⟨r', ⟨rfl, rfl, rfl⟩ | hmem⟩
    · exact .inl ⟨rfl, rfl⟩
    · exact .inr ⟨r', hmem⟩
  · rintro (⟨rfl, rfl⟩ | ⟨r', hmem⟩)
    · exact ⟨r, .inl ⟨rfl, rfl, rfl⟩⟩
    · exact ⟨r', .inr hmem⟩

/-- The innermost call is one. -/
theorem innermost_iff (htop : a.calls = ⟨c, f, r⟩ :: rest) : a.Innermost d f' ↔ d = c ∧ f' = f := by
  simp only [Innermost, htop, List.head?_cons, Option.some.injEq, Doing.mk.injEq]
  exact ⟨fun ⟨_, hd, hf, _⟩ => ⟨hd.symm, hf.symm⟩, fun ⟨hd, hf⟩ => ⟨r, hd.symm, hf.symm, rfl⟩⟩

/-- Without calls nothing is called. -/
theorem not_calling (hidle : a.calls = []) : ¬ a.Calling c f := by simp [Calling, hidle]

/-- Without calls there is no innermost. -/
theorem not_innermost (hidle : a.calls = []) : ¬ a.Innermost c f := by simp [Innermost, hidle]

/-- A change that keeps the pointers keeps their order. -/
theorem Linked.congr (h : a.Linked) (hp : b.pointer = a.pointer) (hs : b.state = a.state)
    (hlife : b.life = a.life) (hunfreed : ∀ c, b.Unfreed c ↔ a.Unfreed c)
    (hattached : ∀ c, b.Attached c ↔ a.Attached c)
    (hconnected : ∀ c, b.Connected c ↔ a.Connected c)
    (hcalling : ∀ c f, b.Calling c f ↔ a.Calling c f)
    (hinnermost : ∀ c f, b.Innermost c f ↔ a.Innermost c f) : b.Linked := by
  constructor
  · simpa only [hcalling, hattached] using h.attached
  · simpa only [hcalling, hconnected] using h.connected
  · simpa only [hp, hlife, hunfreed] using h.pointer
  · simpa only [hp, hs, hlife, hattached] using h.unset
  · simpa only [hp, hs, hlife, hattached] using h.set
  · simpa only [hp, hlife, hattached, hconnected, hcalling] using h.reach
  · simpa only [hp, hlife, hconnected, hcalling] using h.loose
  · simpa only [hlife, hcalling, hinnermost] using h.dtor
  · simpa only [hlife, hinnermost] using h.dying

/-! ## Moves of hiredis -/

/-- The user's code that starts or returns frees nothing. -/
theorem unfreed_turn (hc : a.contexts c = some l) :
    (a.turn c f rest l r).Unfreed d ↔ a.Unfreed d := by
  by_cases hd : d = c
  · subst hd
    exact iff_of_true ⟨_, Function.update_self ..⟩ ⟨l, hc⟩
  · exact unfreed_update_of_ne hd rfl

theorem holds_turn (hc : a.contexts c = some l) {flag : Link → Bool}
    (hflag : flag { l with inCallback := r } = flag l) :
    (a.turn c f rest l r).Holds flag d ↔ a.Holds flag d := by
  by_cases hd : d = c
  · subst hd
    rw [holds_update_self (a := a) (b := a.turn d f rest l r) rfl, hflag, holds_iff hc]
  · exact holds_update_of_ne hd rfl

theorem calling_turn (htop : a.calls = ⟨c, f, r'⟩ :: rest) :
    (a.turn c f rest l r).Calling d f' ↔ a.Calling d f' := by
  rw [calling_iff htop, calling_iff rfl]

theorem innermost_turn (htop : a.calls = ⟨c, f, r'⟩ :: rest) :
    (a.turn c f rest l r).Innermost d f' ↔ a.Innermost d f' := by
  rw [innermost_iff htop, innermost_iff rfl]

/-- The user's code in the innermost call starts or returns. -/
theorem Linked.turn (h : a.Linked) (htop : a.calls = ⟨c, f, r'⟩ :: rest)
    (hc : a.contexts c = some l) : (a.turn c f rest l r).Linked :=
  h.congr rfl rfl rfl (fun _ => unfreed_turn hc) (fun _ => holds_turn hc rfl)
    (fun _ => holds_turn hc rfl) (fun _ _ => calling_turn htop) (fun _ _ => innermost_turn htop)

/-- A reading is over. -/
theorem Linked.leave (h : a.Linked) (htop : a.calls = ⟨c, none, false⟩ :: rest) :
    Linked { a with calls := rest } := by
  have hdtor : ∀ d, ¬ a.Innermost d (some true) := fun d hd => by
    rw [innermost_iff htop] at hd
    simp at hd
  have hcalling : ∀ d f, Calling { a with calls := rest } d f → a.Calling d f := fun d f hd =>
    (calling_iff htop).mpr (.inr hd)
  refine ⟨fun d f hd => h.attached d f (hcalling d f hd),
    fun d hd => h.connected d (hcalling d _ hd), h.pointer, h.unset, h.set,
    fun hlife d hd => ?_, fun hlife d hd => h.loose hlife d (hcalling d _ hd),
    fun d hd => absurd (h.dtor d (hcalling d _ hd)).2 (hdtor d),
    fun hlife => absurd (h.dying hlife).choose_spec (hdtor _)⟩
  refine (h.reach hlife d hd).imp_right fun hrefused => ⟨hrefused.1, ?_⟩
  exact ((calling_iff htop).mp hrefused.2).resolve_left (by simp)

/-- A reading ends the connection. -/
theorem Linked.fail (h : a.Linked) (htop : a.calls = ⟨c, none, false⟩ :: rest) :
    Linked { a with calls := ⟨c, some false, false⟩ :: rest } := by
  have hdtor : ∀ d, ¬ a.Innermost d (some true) := fun d hd => by
    rw [innermost_iff htop] at hd
    simp at hd
  have hread : a.Calling c none := (calling_iff htop).mpr (.inl ⟨rfl, rfl⟩)
  have hcalling : ∀ d f, Calling { a with calls := ⟨c, some false, false⟩ :: rest } d f →
      d = c ∧ f = some false ∨ a.Calling d f := fun d f hd =>
    ((calling_iff rfl).mp hd).imp_right fun hrest => (calling_iff htop).mpr (.inr hrest)
  refine ⟨fun d f hd hf => ?_, fun d hd => ?_, h.pointer, h.unset, h.set, fun hlife d hd => ?_,
    fun hlife d hd hrefused => ?_, fun d hd => ?_,
    fun hlife => absurd (h.dying hlife).choose_spec (hdtor _)⟩
  · rcases hcalling d f hd with ⟨rfl, -⟩ | hold
    · exact h.attached d none hread (by simp)
    · exact h.attached d f hold hf
  · exact h.connected d ((hcalling d none hd).resolve_left (by simp))
  · refine (h.reach hlife d hd).imp_right fun hrefused => ⟨hrefused.1, ?_⟩
    exact (calling_iff rfl).mpr (.inr (((calling_iff htop).mp hrefused.2).resolve_left (by simp)))
  · rcases hcalling d _ hd with ⟨rfl, -⟩ | hold
    · exact absurd (h.connected d hread) hrefused
    · exact h.loose hlife d hold hrefused
  · exact absurd (h.dtor d ((hcalling d _ hd).resolve_left (by simp))).2 (hdtor d)

/-- A connected context is read or lost. -/
theorem Linked.enter (h : a.Linked) (hidle : a.calls = []) (hf : f ≠ some true)
    (hc : a.contexts c = some ⟨true, true, r⟩) :
    Linked { a with calls := [⟨c, f, false⟩] } := by
  have hcalling : ∀ d f', Calling { a with calls := [⟨c, f, false⟩] } d f' → d = c ∧ f' = f :=
    fun d f' hd => ((calling_iff rfl).mp hd).resolve_right (by simp)
  refine ⟨fun d f' hd _ => ?_, fun d hd => ?_, h.pointer, h.unset, h.set, fun hlife d hd => ?_,
    fun hlife d hd hrefused => ?_, fun d hd => ?_,
    fun hlife => absurd (h.dying hlife).choose_spec (not_innermost hidle)⟩
  · obtain rfl := (hcalling d f' hd).1
    exact ⟨_, hc, rfl⟩
  · obtain rfl := (hcalling d _ hd).1
    exact ⟨_, hc, rfl⟩
  · exact .inl ((h.reach hlife d hd).resolve_right fun hd => not_calling hidle hd.2)
  · exact absurd ⟨_, hc, rfl⟩ ((hcalling d _ hd).1 ▸ hrefused)
  · exact absurd (hcalling d _ hd).2.symm hf

/-- With no call in progress, an attached context is the object's own. -/
theorem Linked.own (h : a.Linked) (hidle : a.calls = []) (hlife : a.life = .alive)
    (hc : a.Attached c) : a.pointer = some c :=
  (h.reach hlife c hc).resolve_right fun hd => not_calling hidle hd.2

/-- Between two calls, an object that is not dead is alive. -/
theorem Linked.alive (h : a.Linked) (hidle : a.calls = []) (hlife : a.life ≠ .dead) :
    a.life = .alive := by
  cases hl : a.life with
  | alive => rfl
  | dying => exact absurd (h.dying hl).choose_spec (not_innermost hidle)
  | dead => exact absurd hl hlife

/-- Once the object is destroyed, only the calls in progress matter. -/
theorem linked_of_dead (hlife : a.life = .dead)
    (hattached : ∀ c f, a.Calling c f → f ≠ some true → a.Attached c)
    (hconnected : ∀ c, a.Calling c none → a.Connected c) (hdtor : ∀ c, ¬ a.Calling c (some true)) :
    a.Linked := by
  refine ⟨hattached, hconnected, ?_, ?_, ?_, ?_, ?_, fun c hc => absurd hc (hdtor c), ?_⟩ <;>
    simp [hlife]

/-- A connection is there. -/
theorem Linked.connect_ok (h : a.Linked) (hidle : a.calls = [])
    (hc : a.contexts c = some ⟨true, false, r⟩) :
    Linked ((a.set c ⟨true, true, r⟩).onConnect true) := by
  have hidle' : (a.set c ⟨true, true, r⟩).calls = [] := hidle
  by_cases hdead : (a.set c ⟨true, true, r⟩).life = .dead
  · rw [onConnect_of_dead hdead]
    exact linked_of_dead hdead (fun d f hd => absurd hd (not_calling hidle'))
      (fun d hd => absurd hd (not_calling hidle')) (fun d hd => not_calling hidle' hd)
  · rw [onConnect_true hdead]
    have hlife := h.alive hidle hdead
    have hown : a.pointer = some c := h.own hidle hlife ⟨_, hc, rfl⟩
    refine ⟨fun d f hd => absurd hd (not_calling hidle'),
      fun d hd => absurd hd (not_calling hidle'),
      fun _ d hd => ?_, by simp, fun _ _ => ⟨c, hown, ?_⟩, fun _ d hd => .inl ?_,
      fun _ d hd => absurd hd (not_calling hidle'), fun d hd => absurd hd (not_calling hidle'),
      fun hdying => absurd (hlife.symm.trans hdying) (by simp)⟩
    · rw [← Option.some.inj (hown.symm.trans hd)]
      exact unfreed_update_self rfl
    · exact (holds_update_self (a := a) rfl).mpr rfl
    · by_cases hdc : d = c
      · exact hdc ▸ hown
      · exact h.own hidle hlife ((holds_update_of_ne hdc rfl).mp hd)

/-- A connection is refused. -/
theorem Linked.connect_refused (h : a.Linked) (hidle : a.calls = [])
    (hc : a.contexts c = some ⟨true, false, r⟩) :
    Linked { a.onConnect false with calls := [⟨c, some false, false⟩] } := by
  have hattached : a.Attached c := ⟨_, hc, rfl⟩
  have hrefused : ¬ a.Connected c := by simp [holds_iff hc]
  have hcalling : ∀ (b : Links) d f, Calling { b with calls := [⟨c, some false, false⟩] } d f →
      d = c ∧ f = some false := fun b d f hd => ((calling_iff rfl).mp hd).resolve_right (by simp)
  by_cases hdead : a.life = .dead
  · rw [onConnect_of_dead hdead]
    refine linked_of_dead hdead (fun d f hd _ => ?_) (fun d hd => ?_) (fun d hd => ?_)
    · exact (hcalling _ d f hd).1 ▸ hattached
    · exact absurd (hcalling _ d _ hd).2 (by simp)
    · exact absurd (hcalling _ d _ hd).2 (by simp)
  · rw [onConnect_false hdead]
    have hlife := h.alive hidle hdead
    have hown : a.pointer = some c := h.own hidle hlife hattached
    refine ⟨fun d f hd _ => (hcalling _ d f hd).1 ▸ hattached,
      fun d hd => absurd (hcalling _ d _ hd).2 (by simp), by simp, by simp, by simp,
      fun _ d hd => .inr ?_, by simp, fun d hd => absurd (hcalling _ d _ hd).2 (by simp),
      fun hdying => absurd (hlife.symm.trans hdying) (by simp)⟩
    have hdown : a.pointer = some d := h.own hidle hlife hd
    obtain rfl := Option.some.inj (hown.symm.trans hdown)
    exact ⟨hrefused, (calling_iff rfl).mpr (.inl ⟨rfl, rfl⟩)⟩

/-- The end of a free frees the context. -/
theorem finish_contexts (a : Links) (c : ContextPtr) (l : Link) (dtor : Bool)
    (rest : List Doing) :
    (a.finish c l dtor rest).contexts = Function.update a.contexts c none := by
  rw [finish, onDisconnect]
  split_ifs <;> rfl

/-- The end of the destructor's free is the object's death. -/
theorem finish_life (a : Links) (c : ContextPtr) (l : Link) (dtor : Bool) (rest : List Doing) :
    (a.finish c l dtor rest).life = if dtor then .dead else a.life := by
  rw [finish, onDisconnect]
  split_ifs <;> rfl

/-- A connected context calls `DisconnectCallback` when it is freed. -/
theorem finish_connected (hlife : a.life ≠ .dead) (hl : (l.attached && l.connected) = true) :
    a.finish c l false rest = { a with
      contexts := Function.update a.contexts c none, calls := rest, state := .init,
      pointer := none } := by
  rw [finish, if_pos hl, onDisconnect, if_neg hlife]
  rfl

/-- Another one calls nothing. -/
theorem finish_loose (hl : ¬ (l.attached && l.connected) = true) :
    a.finish c l false rest = { a with
      contexts := Function.update a.contexts c none, calls := rest } := by
  rw [finish, if_neg hl]
  rfl

/-- A connected context that points to the living object is its own. -/
theorem Linked.own_of_connected (h : a.Linked) (hlife : a.life = .alive) (hc : a.Attached c)
    (hcon : a.Connected c) : a.pointer = some c :=
  (h.reach hlife c hc).resolve_right fun hd => hd.1 hcon

/-- The calls below the innermost work on other contexts. -/
theorem Sound.below_ne (h : a.Sound) (htop : a.calls = ⟨c, f, r⟩ :: rest)
    (hd : ⟨d, f', r'⟩ ∈ rest) : d ≠ c := by
  have hnodup := h.stacked.nodup
  rw [htop, List.map_cons, List.nodup_cons] at hnodup
  exact fun hdc => hnodup.1 (List.mem_map.mpr ⟨_, hd, hdc⟩)

/-- The end of a free is the end of all calls on its context. -/
theorem Sound.calling_finish (h : a.Sound) {dtor : Bool}
    (htop : a.calls = ⟨c, some dtor, false⟩ :: rest) (l : Link) :
    (a.finish c l dtor rest).Calling d f ↔ d ≠ c ∧ a.Calling d f := by
  rw [calling_iff htop]
  constructor
  · rintro ⟨r, hr⟩
    exact ⟨h.below_ne htop hr, .inr ⟨r, hr⟩⟩
  · rintro ⟨hne, hd⟩
    exact hd.resolve_left fun hd => hne hd.1

theorem holds_finish {flag : Link → Bool} {dtor : Bool} :
    (a.finish c l dtor rest).Holds flag d ↔ d ≠ c ∧ a.Holds flag d := by
  have hcontexts := finish_contexts a c l dtor rest
  by_cases hd : d = c
  · subst hd
    simp [Holds, hcontexts]
  · rw [holds_update_of_ne hd hcontexts]
    exact (and_iff_right hd).symm

theorem unfreed_finish {dtor : Bool} :
    (a.finish c l dtor rest).Unfreed d ↔ d ≠ c ∧ a.Unfreed d := by
  have hcontexts := finish_contexts a c l dtor rest
  by_cases hd : d = c
  · subst hd
    simp [Unfreed, hcontexts]
  · rw [unfreed_update_of_ne hd hcontexts]
    exact (and_iff_right hd).symm

/-- An object that is alive behind the end of a call was alive before. -/
theorem Linked.alive_of_finish (h : a.Linked) {dtor : Bool}
    (htop : a.calls = ⟨c, some dtor, false⟩ :: rest)
    (hlife : (a.finish c l dtor rest).life ≠ .dead) : dtor = false ∧ a.life = .alive := by
  rw [finish_life] at hlife
  cases dtor with
  | true => exact absurd rfl hlife
  | false =>
    refine ⟨rfl, ?_⟩
    cases halive : a.life with
    | alive => rfl
    | dying => simpa using (innermost_iff htop).mp (h.dying halive).choose_spec
    | dead => exact absurd halive hlife

/-- The end of the object's own connection. -/
theorem Linked.finish_own (h : a.Linked) (htop : a.calls = ⟨c, some false, false⟩ :: rest)
    (hc : a.contexts c = some l) (hlife : a.life = .alive) :
    (a.pointer = some c ∧ (a.finish c l false rest).pointer = none ∧
      (a.finish c l false rest).state = .init) ∨
    (a.pointer ≠ some c ∧ (a.finish c l false rest).pointer = a.pointer ∧
      (a.finish c l false rest).state = a.state) := by
  have hfree : a.Calling c (some false) := (calling_iff htop).mpr (.inl ⟨rfl, rfl⟩)
  have hattached := h.attached c _ hfree (by simp)
  by_cases hl : (l.attached && l.connected) = true
  · have hcon : a.Connected c := (holds_iff hc).mpr (Bool.and_eq_true_iff.mp hl).2
    rw [finish_connected (by simp [hlife]) hl]
    exact .inl ⟨h.own_of_connected hlife hattached hcon, rfl, rfl⟩
  · have hcon : ¬ a.Connected c := by
      intro hcon
      rw [(holds_iff hc).mp hattached, (holds_iff hc).mp hcon] at hl
      exact hl rfl
    rw [finish_loose hl]
    exact .inr ⟨h.loose hlife c hfree hcon, rfl, rfl⟩

/-- A context is freed. -/
theorem Sound.linked_finish (h : a.Sound) {dtor : Bool}
    (htop : a.calls = ⟨c, some dtor, false⟩ :: rest) (hc : a.contexts c = some l) :
    (a.finish c l dtor rest).Linked := by
  have hcalling : ∀ d f, (a.finish c l dtor rest).Calling d f → d ≠ c ∧ a.Calling d f :=
    fun d f => (h.calling_finish htop l).mp
  have hattached : ∀ d f, (a.finish c l dtor rest).Calling d f → f ≠ some true →
      (a.finish c l dtor rest).Attached d := fun d f hd hf =>
    holds_finish.mpr ⟨(hcalling d f hd).1, h.linked.attached d f (hcalling d f hd).2 hf⟩
  have hconnected : ∀ d, (a.finish c l dtor rest).Calling d none →
      (a.finish c l dtor rest).Connected d := fun d hd =>
    holds_finish.mpr ⟨(hcalling d _ hd).1, h.linked.connected d (hcalling d _ hd).2⟩
  have hnotdtor : ∀ d, ¬ (a.finish c l dtor rest).Calling d (some true) := fun d hd =>
    (hcalling d _ hd).1 ((innermost_iff htop).mp (h.linked.dtor d (hcalling d _ hd).2).2).1
  by_cases hdead : (a.finish c l dtor rest).life = .dead
  · exact linked_of_dead hdead hattached hconnected hnotdtor
  obtain ⟨rfl, halive⟩ := h.linked.alive_of_finish htop hdead
  have hdying : (a.finish c l false rest).life ≠ .dying := by
    rw [finish_life]
    simp [halive]
  -- what reaches the object behind the end reached it before
  have hreach : ∀ d, (a.finish c l false rest).Attached d → d ≠ c ∧ (a.pointer = some d ∨
      ¬ (a.finish c l false rest).Connected d ∧
        (a.finish c l false rest).Calling d (some false)) := by
    intro d hd
    obtain ⟨hne, hold⟩ := holds_finish.mp hd
    refine ⟨hne, (h.linked.reach halive d hold).imp_right fun hrefused => ⟨fun hcon => ?_, ?_⟩⟩
    · exact hrefused.1 (holds_finish.mp hcon).2
    · exact (h.calling_finish htop l).mpr ⟨hne, hrefused.2⟩
  rcases h.linked.finish_own htop hc halive with
    ⟨hown, hpointer, hstate⟩ | ⟨hother, hpointer, hstate⟩
  · refine ⟨hattached, hconnected, by simp [hpointer], by simp [hpointer], by simp [hstate],
      fun _ d hd => .inr ?_, by simp [hpointer], fun d hd => absurd hd (hnotdtor d),
      fun hlife => absurd hlife hdying⟩
    obtain ⟨hne, hptr⟩ := hreach d hd
    exact hptr.resolve_left fun hptr => hne (Option.some.inj (hptr.symm.trans hown))
  · have hne : ∀ d, a.pointer = some d → d ≠ c := fun d hd hdc => hother (hdc ▸ hd)
    refine ⟨hattached, hconnected, fun _ d hd => ?_, fun _ hs d hd hda => ?_, fun _ hs => ?_,
      fun _ d hd => hpointer ▸ (hreach d hd).2, fun _ d hd hcon => ?_,
      fun d hd => absurd hd (hnotdtor d), fun hlife => absurd hlife hdying⟩
    · rw [hpointer] at hd
      exact (unfreed_update_of_ne (hne d hd) (finish_contexts ..)).mpr
        (h.linked.pointer (by simp [halive]) d hd)
    · rw [hpointer] at hd
      exact h.linked.unset halive (hstate ▸ hs) d hd (holds_finish.mp hda).2
    · obtain ⟨d, hd, hda⟩ := h.linked.set halive (hstate ▸ hs)
      exact ⟨d, hpointer ▸ hd, holds_finish.mpr ⟨hne d hd, hda⟩⟩
    · rw [hpointer]
      obtain ⟨hne, hcall⟩ := hcalling d _ hd
      exact h.linked.loose halive d hcall fun hcon' => hcon (holds_finish.mpr ⟨hne, hcon'⟩)

theorem finish_obtained (a : Links) (c : ContextPtr) (l : Link) (dtor : Bool)
    (rest : List Doing) : (a.finish c l dtor rest).obtained = a.obtained := by
  rw [finish, onDisconnect]
  split_ifs <;> rfl

theorem onConnect_contexts (a : Links) (ok : Bool) : (a.onConnect ok).contexts = a.contexts := by
  rw [onConnect]
  split_ifs <;> rfl

theorem onConnect_obtained (a : Links) (ok : Bool) : (a.onConnect ok).obtained = a.obtained := by
  rw [onConnect]
  split_ifs <;> rfl

theorem onConnect_calls (a : Links) (ok : Bool) : (a.onConnect ok).calls = a.calls := by
  rw [onConnect]
  split_ifs <;> rfl

/-- A call is made while none is in progress. -/
theorem Sound.stacked_enter (h : a.Sound) (hidle : a.calls = []) (hc : a.contexts c = some l) :
    Stacked a.contexts a.obtained [⟨c, f, false⟩] :=
  (hidle ▸ h.stacked).push (by simp) hc (h.stacked.idle c l hc (by simp [hidle]))

/-- A move of hiredis keeps the links sound. -/
theorem Sound.work (h : a.Sound) (hab : a.Work b) : b.Sound := by
  cases hab with
  | @connected c r hidle hc =>
    refine ⟨?_, h.linked.connect_ok hidle hc⟩
    rw [onConnect_contexts, onConnect_obtained, onConnect_calls]
    change Stacked (Function.update a.contexts c (some ⟨true, true, r⟩)) a.obtained a.calls
    rw [hidle]
    exact (hidle ▸ h.stacked).set hc rfl
  | refused hidle hc =>
    refine ⟨?_, h.linked.connect_refused hidle hc⟩
    rw [onConnect_contexts, onConnect_obtained]
    exact h.stacked_enter hidle hc
  | enter f hf hidle hc => exact ⟨h.stacked_enter hidle hc, h.linked.enter hidle hf hc⟩
  | fail htop => exact ⟨(htop ▸ h.stacked).turn, h.linked.fail htop⟩
  | leave htop => exact ⟨(htop ▸ h.stacked).pop, h.linked.leave htop⟩
  | run htop hc => exact ⟨(htop ▸ h.stacked).top rfl, h.linked.turn htop hc⟩
  | ret htop hc => exact ⟨(htop ▸ h.stacked).top rfl, h.linked.turn htop hc⟩
  | finish htop hc =>
    refine ⟨?_, h.linked_finish htop hc⟩
    rw [finish_contexts, finish_obtained]
    exact (htop ▸ h.stacked).free

/-- So do any number of them. -/
theorem Sound.works (h : a.Sound) (hab : a.Works b) : b.Sound := by
  induction hab with
  | refl => exact h
  | tail _ hwork ih => exact ih.work hwork

/-! ## Moves of the object -/

/-- The destructor keeps the links sound. -/
theorem Sound.destroy (h : a.Sound) (hlife : a.life = .alive)
    (hrun : ∀ d ∈ a.calls.head?, d.running = true) (hab : a.Destroy b) : b.Sound := by
  have hnotdtor : ∀ c, ¬ a.Calling c (some true) := fun c hc =>
    absurd (hlife.symm.trans (h.linked.dtor c hc).1) (by simp)
  cases hab with
  | leave => exact ⟨h.stacked, linked_of_dead rfl h.linked.attached h.linked.connected hnotdtor⟩
  | @free c l hptr hc hin =>
    have hcalling : ∀ d f,
        Calling { a with life := .dying, calls := ⟨c, some true, false⟩ :: a.calls }
        d f → d = c ∧ f = some true ∨ a.Calling d f := fun d f hd => (calling_iff rfl).mp hd
    refine ⟨h.stacked.push hrun hc hin, fun d f hd hf => ?_, fun d hd => ?_,
      fun _ => h.linked.pointer (by simp [hlife]), by simp, by simp, by simp, by simp,
      fun d hd => ⟨rfl, ?_⟩, fun _ => ⟨c, false, rfl⟩⟩
    · exact h.linked.attached d f ((hcalling d f hd).resolve_left fun hd' => hf hd'.2) hf
    · exact h.linked.connected d ((hcalling d _ hd).resolve_left (by simp))
    · have hdc := (hcalling d _ hd).resolve_right (hnotdtor d)
      exact ⟨false, by rw [hdc.1]; rfl⟩

/-- A context that is there is not the next one. -/
theorem Sound.fresh (h : a.Sound) {c : ContextPtr} (hc : a.Unfreed c) : c ≠ a.obtained := by
  obtain ⟨l, hl⟩ := hc
  exact Nat.ne_of_lt (h.stacked.lt_obtained hl)

/-- In `S_INIT`, a context that points to the object was refused and is being freed. -/
theorem Linked.refused (h : a.Linked) (hinit : a.state = .init) (hlife : a.life = .alive)
    (hc : a.Attached c) : ¬ a.Connected c ∧ a.Calling c (some false) :=
  (h.reach hlife c hc).resolve_left fun hptr => h.unset hlife hinit c hptr hc

/-- The object obtains a context, and leaves `S_INIT` if it is attached. -/
theorem Sound.obtain (h : a.Sound) (hinit : a.state = .init) (hin : l.inCallback = false)
    {s : State} (hs : l.attached = true ↔ s ≠ .init) :
    Sound { a.set a.obtained l with
      pointer := some a.obtained, obtained := a.obtained + 1, state := s } := by
  have hself : ∀ flag : Link → Bool, Holds { a.set a.obtained l with
      pointer := some a.obtained, obtained := a.obtained + 1, state := s } flag a.obtained ↔
        flag l = true := fun flag => holds_update_self (a := a) rfl
  have hother : ∀ (flag : Link → Bool) c, c ≠ a.obtained → (Holds { a.set a.obtained l with
      pointer := some a.obtained, obtained := a.obtained + 1, state := s } flag c ↔
        a.Holds flag c) := fun flag c hc => holds_update_of_ne hc rfl
  refine ⟨h.stacked.obtain hin, fun c f hc hf => ?_, fun c hc => ?_, fun _ c hc => ?_,
    fun _ hs' c hc => ?_, fun _ hs' => ⟨a.obtained, rfl, (hself _).mpr (hs.mpr hs')⟩,
    fun hlife c hc => ?_, fun _ c hc _ hptr => ?_, h.linked.dtor, h.linked.dying⟩
  · have hold := h.linked.attached c f hc hf
    exact (hother _ c (h.fresh hold.unfreed)).mpr hold
  · have hold := h.linked.connected c hc
    exact (hother _ c (h.fresh hold.unfreed)).mpr hold
  · obtain rfl := Option.some.inj hc
    exact ⟨l, Function.update_self ..⟩
  · obtain rfl := Option.some.inj hc
    exact fun hl => hs.mp ((hself _).mp hl) hs'
  · by_cases hcn : c = a.obtained
    · exact .inl (hcn ▸ rfl)
    · have hrefused := h.linked.refused hinit hlife ((hother _ c hcn).mp hc)
      exact .inr ⟨fun hcon => hrefused.1 ((hother _ c hcn).mp hcon), hrefused.2⟩
  · have hold := h.linked.attached c _ hc (by simp)
    exact h.fresh hold.unfreed (Option.some.inj hptr).symm

/-- `Connect` keeps the links sound. -/
theorem Sound.connect (h : a.Sound) (hinit : a.state = .init) (ans : ConnectAnswer) :
    (a.connect ans).Sound := by
  cases ans with
  | noLoop => exact h
  | null =>
    exact ⟨h.stacked, h.linked.attached, h.linked.connected, by simp [Links.connect],
      by simp [Links.connect], fun _ hs => absurd hinit hs,
      fun halive c hc => .inr (h.linked.refused hinit halive hc), by simp [Links.connect],
      h.linked.dtor, h.linked.dying⟩
  | err => exact h.obtain hinit rfl (by simp [Links.set, hinit])
  | good => exact h.obtain hinit rfl (by simp)

/-- Every move keeps the links sound. -/
theorem Sound.follows (h : a.Sound) {m : RedisMove} (hab : a.Follows m b) : b.Sound := by
  cases m with
  | init ip port ans =>
    rcases hab with rfl | ⟨-, hinit, rfl⟩
    · exact h
    · exact h.connect hinit ans
  | tick ans =>
    rcases hab with rfl | ⟨-, hinit, rfl⟩
    · exact h
    · exact h.connect hinit ans
  | destroy =>
    rcases hab with rfl | ⟨hlife, hrun, hdestroy⟩
    · exact h
    · exact h.destroy hlife hrun hdestroy
  | readable | writable | createOpt | asyncCmd | asyncCmdArgv | ret | go => exact h.works hab

end Links

namespace World

/-- A new object has neither context nor call. -/
theorem sound_create : create.links.Sound where
  stacked := by
    refine ⟨fun _ _ => rfl, List.nodup_nil, ?_, ?_, ?_⟩ <;> simp [create, links]
  linked := by
    constructor <;> simp [create, links, Links.Calling, Links.Holds, Links.Innermost]

/-- Every step keeps the invariant. -/
theorem sound_step {w : World} (h : w.links.Sound) (m : RedisMove) : (w.step m).links.Sound := by
  by_cases hrun : w.halted = none
  · exact h.follows (follows_step hrun m)
  · rw [step, if_neg hrun]
    exact h

end World

end ServerCom.Redis
