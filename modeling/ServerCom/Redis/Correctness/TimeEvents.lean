import ServerCom.Core.Data.Buckets
import ServerCom.Core.Machine.Guarded
import ServerCom.Redis.Native.TimeEvents

/-!
# Time events

A pass over the time events fires only events that are due and that were there when it began,
whatever their functions do to the list, as long as no event goes on that was deleted. It leaves
none of these that was due when it last came to the head of the list. A poll is as long as the
nearest event is away, in an `int`; but when the event is late, it can be up to a second long.
-/

namespace ServerCom.Redis

open Machine

/-- When an event fires, in milliseconds. -/
def AeTimeEvent.when {τ : Type*} (te : AeTimeEvent τ) : Int := te.when_sec * 1000 + te.when_ms

/-- The milliseconds are less than a second. -/
def AeTimeEvent.Normal {τ : Type*} (te : AeTimeEvent τ) : Prop :=
  0 ≤ te.when_ms ∧ te.when_ms < 1000

namespace AeEventLoop

variable {π δ τ : Type*} {l : AeEventLoop π δ τ} {te : AeTimeEvent τ} {now : ℕ}
  {milliseconds : Int}

/-- A time that is some milliseconds away is exactly so far away. -/
theorem addMillisecondsToNow_spec (h : 0 ≤ milliseconds) (id now : ℕ) (proc : τ) :
    let time := addMillisecondsToNow now milliseconds
    (⟨id, time.1, time.2, proc⟩ : AeTimeEvent τ).when = now + milliseconds ∧
      (⟨id, time.1, time.2, proc⟩ : AeTimeEvent τ).Normal := by
  unfold addMillisecondsToNow AeTimeEvent.when AeTimeEvent.Normal
  dsimp only
  rw [Int.tdiv_eq_ediv_of_nonneg h, Int.tmod_eq_emod_of_nonneg h]
  split_ifs <;> dsimp only <;> omega

/-- A time event is due when its time is not behind the present. -/
theorem due_iff (h : te.Normal) : due now te = true ↔ te.when ≤ now := by
  unfold due AeTimeEvent.when
  obtain ⟨hlo, hhi⟩ := h
  rw [decide_eq_true_eq]
  omega

/-- The timeout is the time to the event, in an `int`; when the event is late, it is what is
missing from its delay to a whole number of seconds. -/
theorem timeout_eq (h : te.Normal) : timeout now te =
    if now ≤ te.when then int32 (te.when - now) else (te.when - now) % 1000 := by
  obtain ⟨hlo, hhi⟩ := h
  have hdiv : ∀ n : Int, 0 ≤ n → (n * 1000).tdiv 1000 = n := by
    intro n hn
    rw [Int.tdiv_eq_ediv_of_nonneg (by omega)]
    omega
  -- less than a second is no turn of an `int`
  have hsecond : int32 ((te.when - now) % 1000) = (te.when - now) % 1000 :=
    int32_eq_self ⟨by omega, by omega⟩
  rw [← hsecond, ← apply_ite int32, timeout]
  unfold AeTimeEvent.when
  by_cases hms : te.when_ms < (now % 1000 : ℕ)
  · rw [if_pos hms]
    dsimp only
    rw [if_neg (by omega : ¬ (te.when_ms + 1000 - (now % 1000 : ℕ)) * 1000 < 0), hdiv _ (by omega)]
    apply congrArg int32
    split_ifs <;> omega
  · rw [if_neg hms]
    dsimp only
    rw [if_neg (by omega : ¬ (te.when_ms - (now % 1000 : ℕ)) * 1000 < 0), hdiv _ (by omega)]
    apply congrArg int32
    split_ifs <;> omega

/-- A deletion leaves the next identifier as it is. -/
theorem timeEventNextId_deleteTimeEvent (l : AeEventLoop π δ τ) (id : ℕ) :
    (l.deleteTimeEvent id).2.timeEventNextId = l.timeEventNextId := by
  rw [deleteTimeEvent]
  split_ifs <;> rfl

/-- Of two events the comparison finds the one that fires first. -/
theorem before_iff {te' : AeTimeEvent τ} (h : te.Normal) (h' : te'.Normal) :
    (te.when_sec < te'.when_sec ∨ te.when_sec = te'.when_sec ∧ te.when_ms < te'.when_ms) ↔
      te.when < te'.when := by
  obtain ⟨hlo, hhi⟩ := h
  obtain ⟨hlo', hhi'⟩ := h'
  unfold AeTimeEvent.when
  omega

/-- The loop ends with an event that no other comes before. -/
theorem nearestLoop_spec (nearest : AeTimeEvent τ) {tes : List (AeTimeEvent τ)}
    (hn : nearest.Normal) (h : ∀ te ∈ tes, te.Normal) :
    ∃ te ∈ nearest :: tes, nearestLoop (some nearest) tes = some te ∧
      ∀ te' ∈ nearest :: tes, te.when ≤ te'.when := by
  induction tes generalizing nearest with
  | nil =>
    refine ⟨nearest, List.mem_cons_self .., rfl, fun te' hmem => ?_⟩
    obtain rfl := List.mem_singleton.mp hmem
    exact Int.le_refl _
  | cons next tes ih =>
    obtain ⟨hnext, htes⟩ := List.forall_mem_cons.mp h
    rw [nearestLoop, if_congr (before_iff hnext hn) rfl rfl]
    by_cases hlt : next.when < nearest.when
    · rw [if_pos hlt]
      obtain ⟨te, hmem, hloop, hmin⟩ := ih next hnext htes
      refine ⟨te, List.mem_cons_of_mem _ hmem, hloop, fun te' hmem' => ?_⟩
      rcases List.mem_cons.mp hmem' with rfl | hmem'
      · exact Int.le_trans (hmin next (List.mem_cons_self ..)) (Int.le_of_lt hlt)
      · exact hmin te' hmem'
    · rw [if_neg hlt]
      obtain ⟨te, hmem, hloop, hmin⟩ := ih nearest hn htes
      refine ⟨te, ?_, hloop, fun te' hmem' => ?_⟩
      · rcases List.mem_cons.mp hmem with rfl | hmem
        · exact List.mem_cons_self ..
        · exact List.mem_cons_of_mem _ (List.mem_cons_of_mem _ hmem)
      · rcases List.mem_cons.mp hmem' with rfl | hmem'
        · exact hmin te' (List.mem_cons_self ..)
        · rcases List.mem_cons.mp hmem' with rfl | hmem'
          · exact Int.le_trans (hmin nearest (List.mem_cons_self ..)) (Int.not_lt.mp hlt)
          · exact hmin te' (List.mem_cons_of_mem _ hmem')

/-- The nearest event is one that no other one fires before. -/
theorem searchNearestTimer_spec (h : ∀ te ∈ l.timeEventHead, te.Normal) :
    l.timeEventHead = [] ∧ l.searchNearestTimer = none ∨
      ∃ te ∈ l.timeEventHead, l.searchNearestTimer = some te ∧
        ∀ te' ∈ l.timeEventHead, te.when ≤ te'.when := by
  rw [searchNearestTimer]
  cases htes : l.timeEventHead with
  | nil => exact .inl ⟨rfl, rfl⟩
  | cons te tes =>
    rw [htes] at h
    obtain ⟨hte, htes'⟩ := List.forall_mem_cons.mp h
    exact .inr (nearestLoop_spec te hte htes')

end AeEventLoop

namespace TimeSystem

open AeEventLoop

variable {π δ τ : Type*} {s : TimeSystem π δ τ} {now : ℕ}

/-- The time to an event is not negative, the clock is not set back between two calls, and an
event that goes on was not deleted. -/
def TimeFits (s : TimeSystem π δ τ) : TimeMove τ → Prop
  | .create _ milliseconds _ => 0 ≤ milliseconds
  | .go now => s.sweep ≤ now
  | .ret retval _ => match s.turn with
    | .running id _ =>
      retval = -1 ∨ 0 ≤ retval ∧ (s.loop.timeEventHead.any (·.id = id)) = true
    | _ => True
  | .delete _ | .process _ => True

instance (s : TimeSystem π δ τ) (move : TimeMove τ) : Decidable (s.TimeFits move) :=
  match move with
  | .create _ milliseconds _ => inferInstanceAs (Decidable (0 ≤ milliseconds))
  | .go now => inferInstanceAs (Decidable (s.sweep ≤ now))
  | .ret retval _ =>
    match h : s.turn with
    | .running id _ => decidable_of_iff
        (retval = -1 ∨ 0 ≤ retval ∧ (s.loop.timeEventHead.any (·.id = id)) = true)
        (by rw [TimeFits, h])
    | .idle | .scan _ _ | .undefined => .isTrue (by rw [TimeFits, h]; trivial)
  | .delete _ | .process _ => .isTrue trivial

/-- What the pass has seen of the list, up to an event. -/
def Scanned (s : TimeSystem π δ τ) (te : Option ℕ) : Prop :=
  ∃ before behind, s.loop.timeEventHead = before ++ behind ∧
    te = behind.head?.map AeTimeEvent.id ∧ ∀ b ∈ before, b.id < s.begun → s.sweep < b.when

/-- Where the pass can be. -/
inductive Standing (s : TimeSystem π δ τ) : TimeTurn → Prop where
  /-- Outside of it. -/
  | idle : Standing s .idle
  /-- At an event. -/
  | scan {te : Option ℕ} (hbegun : s.begun ≤ s.loop.timeEventNextId) (hscanned : s.Scanned te) :
    Standing s (.scan te ((s.begun : Int) - 1))
  /-- In a call. -/
  | running {id : ℕ} (hbegun : s.begun ≤ s.loop.timeEventNextId) (hid : id < s.begun) :
    Standing s (.running id ((s.begun : Int) - 1))

/-- The time events are in order. -/
structure InOrder (s : TimeSystem π δ τ) : Prop where
  /-- The last one comes first. -/
  sorted : (s.loop.timeEventHead.map AeTimeEvent.id).Pairwise (· > ·)
  /-- No id was given that is still to be given. -/
  fresh : ∀ te ∈ s.loop.timeEventHead, te.id < s.loop.timeEventNextId
  /-- Their milliseconds are less than a second. -/
  normal : ∀ te ∈ s.loop.timeEventHead, te.Normal
  /-- Where the pass is. -/
  standing : s.Standing s.turn

/-- Without time events all are in order. -/
theorem inOrder_start (setsize now : ℕ) : (start setsize now : TimeSystem π δ τ).InOrder where
  sorted := .nil
  fresh _ h := absurd h List.not_mem_nil
  normal _ h := absurd h List.not_mem_nil
  standing := .idle

/-- No two time events have the same identifier. -/
theorem InOrder.nodup (h : s.InOrder) : (s.loop.timeEventHead.map AeTimeEvent.id).Nodup :=
  h.sorted.imp fun hgt => Nat.ne_of_gt hgt

/-- The pass comes to the head of a list. -/
theorem standing_head {begun : ℕ} (hbegun : begun ≤ s.loop.timeEventNextId)
    (hs : s.begun = begun) : s.Standing (s.head ((begun : Int) - 1)) := by
  subst hs
  exact .scan hbegun ⟨[], s.loop.timeEventHead, rfl, rfl, fun b hb => absurd hb List.not_mem_nil⟩

/-- A new event in the future comes first in the list, with the largest identifier. -/
theorem InOrder.create (h : s.InOrder) {milliseconds : Int} (hms : 0 ≤ milliseconds) (now : ℕ)
    (proc : τ) (huser : s.userTurn = true) :
    ({ s with loop := (s.loop.createTimeEvent now milliseconds proc).2 } :
      TimeSystem π δ τ).InOrder where
  sorted := by
    refine List.pairwise_cons.mpr ⟨fun id hid => ?_, h.sorted⟩
    obtain ⟨te, hte, rfl⟩ := List.mem_map.mp hid
    exact h.fresh te hte
  fresh te hte := by
    rcases List.mem_cons.mp hte with rfl | hte
    · exact Nat.lt_succ_self _
    · exact Nat.lt_succ_of_lt (h.fresh te hte)
  normal te hte := by
    rcases List.mem_cons.mp hte with rfl | hte
    · exact (addMillisecondsToNow_spec hms _ now proc).2
    · exact h.normal te hte
  standing := by
    have hstanding := h.standing
    cases hturn : s.turn with
    | idle => exact .idle
    | running id maxId =>
      rw [hturn] at hstanding
      cases hstanding with
      | running hbegun hid => exact .running (Nat.le_succ_of_le hbegun) hid
    | _ =>
      rw [userTurn, hturn] at huser
      cases huser

/-- A list from which events are deleted stays in order. -/
theorem InOrder.delete (h : s.InOrder) (id : ℕ) {turn : TimeTurn} {sweep : ℕ}
    (hturn : ({ s with loop := (s.loop.deleteTimeEvent id).2, sweep := sweep } :
      TimeSystem π δ τ).Standing turn) :
    ({ s with loop := (s.loop.deleteTimeEvent id).2, sweep := sweep, turn := turn } :
      TimeSystem π δ τ).InOrder := by
  have hsub : (s.loop.deleteTimeEvent id).2.timeEventHead.Sublist s.loop.timeEventHead := by
    rw [deleteTimeEvent]
    split_ifs
    · exact List.eraseP_sublist
    · exact List.Sublist.refl _
  refine ⟨h.sorted.sublist (hsub.map _), fun te hte => ?_,
    fun te hte => h.normal te (hsub.subset hte), ?_⟩
  · dsimp only
    rw [timeEventNextId_deleteTimeEvent]
    exact h.fresh te (hsub.subset hte)
  · cases hturn with
    | idle => exact .idle
    | scan hbegun hscanned => exact .scan hbegun hscanned
    | running hbegun hid => exact .running hbegun hid

/-- A list of which the times change stays in order. -/
theorem InOrder.retime (h : s.InOrder) {l : AeEventLoop π δ τ} {f : AeTimeEvent τ → AeTimeEvent τ}
    (hl : l.timeEventHead = s.loop.timeEventHead.map f)
    (hnext : l.timeEventNextId = s.loop.timeEventNextId) (hid : ∀ te, (f te).id = te.id)
    (hnormal : ∀ te : AeTimeEvent τ, te.Normal → (f te).Normal) {turn : TimeTurn} (begun sweep : ℕ)
    (hturn : ({ s with loop := l, begun := begun, sweep := sweep } :
      TimeSystem π δ τ).Standing turn) :
    ({ s with loop := l, begun := begun, sweep := sweep, turn := turn } :
      TimeSystem π δ τ).InOrder where
  sorted := by
    dsimp only
    rw [hl, List.map_map]
    have hsame : (AeTimeEvent.id ∘ f : AeTimeEvent τ → ℕ) = AeTimeEvent.id := funext hid
    rw [hsame]
    exact h.sorted
  fresh te hte := by
    dsimp only at hte ⊢
    rw [hl] at hte
    obtain ⟨te₀, hte₀, rfl⟩ := List.mem_map.mp hte
    rw [hid, hnext]
    exact h.fresh te₀ hte₀
  normal te hte := by
    dsimp only at hte
    rw [hl] at hte
    obtain ⟨te₀, hte₀, rfl⟩ := List.mem_map.mp hte
    exact hnormal te₀ (h.normal te₀ hte₀)
  standing := by
    cases hturn with
    | idle => exact .idle
    | scan hbegun hscanned => exact .scan hbegun hscanned
    | running hbegun hid => exact .running hbegun hid

/-- What a visit may fire. -/
def FiresDue (s s' : TimeSystem π δ τ) : Prop :=
  s'.fired = s.fired ∨ ∃ te ∈ s.loop.timeEventHead, ∃ now : ℕ,
    s'.fired = s.fired ++ [(te.id, now)] ∧ te.when ≤ now ∧ te.id < s.begun

/-- A visit goes on behind an event that is not fired. -/
theorem InOrder.visit (h : s.InOrder) {id : ℕ} (hbegun : s.begun ≤ s.loop.timeEventNextId)
    (hscanned : s.Scanned (some id)) (now : ℕ) :
    FiresDue s (s.visit id ((s.begun : Int) - 1) now) ∧
      (s.sweep ≤ now → (s.visit id ((s.begun : Int) - 1) now).InOrder) := by
  obtain ⟨before, behind, hlist, hhead, hbefore⟩ := hscanned
  cases behind with
  | nil => cases hhead
  | cons te behind =>
    obtain rfl : id = te.id := Option.some.inj hhead
    have hmem : te ∈ s.loop.timeEventHead := by
      rw [hlist]
      exact List.mem_append_right _ (List.mem_cons_self ..)
    have hfind : s.loop.timeEventHead.find? (·.id = te.id) = some te :=
      (Buckets.find?_eq_some_iff h.nodup).mpr ⟨hmem, rfl⟩
    have hnext : s.nextOf te.id = behind.head?.map AeTimeEvent.id := by
      have hnodup := h.nodup
      rw [hlist, List.map_append, List.map_cons] at hnodup
      have hother : ∀ b ∈ before, decide (b.id ≠ te.id) = true := by
        intro b hb
        exact decide_eq_true fun hid => (List.nodup_append.mp hnodup).2.2 _
          (List.mem_map_of_mem hb) _ (List.mem_cons_self ..) hid
      rw [nextOf, hlist, List.dropWhile_append_of_pos hother, List.dropWhile_cons_of_neg (by simp)]
      rfl
    have hgo : (te.id < s.begun → s.sweep < te.when) →
        ({ s with turn := .scan (s.nextOf te.id) ((s.begun : Int) - 1) } :
          TimeSystem π δ τ).InOrder := by
      intro hte
      refine ⟨h.sorted, h.fresh, h.normal, .scan hbegun ⟨before ++ [te], behind, ?_, hnext, ?_⟩⟩
      · dsimp only
        rw [hlist, List.append_assoc]
        rfl
      · intro b hb
        rcases List.mem_append.mp hb with hb | hb
        · exact hbefore b hb
        · rw [List.mem_singleton.mp hb]
          exact hte
    have hdue : due now te = true ↔ te.when ≤ now := due_iff (h.normal te hmem)
    rw [TimeSystem.visit, hfind]
    dsimp only
    split_ifs with hnew hfire
    · exact ⟨.inl rfl, fun _ => hgo fun hold => absurd hnew (by omega)⟩
    · have hold : te.id < s.begun := by omega
      exact ⟨.inr ⟨te, hmem, now, rfl, hdue.mp hfire, hold⟩,
        fun _ => ⟨h.sorted, h.fresh, h.normal, .running hbegun hold⟩⟩
    · refine ⟨.inl rfl, fun hnow => hgo fun _ => ?_⟩
      have := mt hdue.mpr hfire
      omega

/-- A function that returns leaves its event with a new time or takes it away. -/
theorem InOrder.returned (h : s.InOrder) {id : ℕ} (hbegun : s.begun ≤ s.loop.timeEventNextId)
    {retval : Int} (now : ℕ)
    (hretval : retval = -1 ∨ 0 ≤ retval ∧ (s.loop.timeEventHead.any (·.id = id)) = true) :
    (s.returned id ((s.begun : Int) - 1) retval now).InOrder := by
  rw [TimeSystem.returned]
  by_cases hmore : retval = -1
  · rw [if_neg (not_not.mpr hmore)]
    refine h.delete id (standing_head ?_ rfl)
    dsimp only
    rw [timeEventNextId_deleteTimeEvent]
    exact hbegun
  · obtain ⟨hpos, hthere⟩ := hretval.resolve_left hmore
    rw [if_pos hmore, if_pos hthere]
    let time := addMillisecondsToNow now retval
    let f := fun te : AeTimeEvent τ =>
      if te.id = id then { te with when_sec := time.1, when_ms := time.2 } else te
    have hl : (s.loop.rescheduleTimeEvent id now retval).timeEventHead =
        s.loop.timeEventHead.map f := rfl
    have hid : ∀ te, (f te).id = te.id := by
      intro te
      dsimp only [f]
      split_ifs <;> rfl
    have hnormal : ∀ te : AeTimeEvent τ, te.Normal → (f te).Normal := by
      intro te hte
      dsimp only [f]
      split_ifs
      · exact (addMillisecondsToNow_spec hpos te.id now te.proc).2
      · exact hte
    exact h.retime hl rfl hid hnormal s.begun now (standing_head hbegun rfl)

/-- A pass that begins leaves the events as they are, but for a clock set back. -/
theorem InOrder.process (h : s.InOrder) (now : ℕ) : (s.step (.process now)).InOrder := by
  cases hturn : s.turn with
  | idle =>
    rw [step, hturn]
    dsimp only
    let f := fun te : AeTimeEvent τ =>
      if (now / 1000 : ℕ) < s.loop.lastTime then { te with when_sec := 0 } else te
    have hl : (s.loop.startTimeEvents now).timeEventHead = s.loop.timeEventHead.map f := by
      rw [startTimeEvents]
      dsimp only [f]
      split_ifs
      · rfl
      · exact (List.map_id _).symm
    have hid : ∀ te, (f te).id = te.id := by
      intro te
      dsimp only [f]
      split_ifs <;> rfl
    have hnormal : ∀ te : AeTimeEvent τ, te.Normal → (f te).Normal := by
      intro te hte
      dsimp only [f]
      split_ifs
      · exact hte
      · exact hte
    exact h.retime hl rfl hid hnormal s.loop.timeEventNextId now
      (standing_head (Nat.le_refl _) rfl)
  | _ =>
    rw [step, hturn]
    exact h

/-- Every step calls events that are due, and with a fitting move keeps them in order. -/
theorem InOrder.step (h : s.InOrder) (move : TimeMove τ) :
    FiresDue s (s.step move) ∧ (s.TimeFits move → (s.step move).InOrder) := by
  have hstay : FiresDue s s ∧ (s.TimeFits move → s.InOrder) := ⟨.inl rfl, fun _ => h⟩
  have hstanding := h.standing
  cases move with
  | create now milliseconds proc =>
    rw [TimeSystem.step]
    split_ifs with huser
    · exact ⟨.inl rfl, fun hfit => h.create hfit now proc huser⟩
    · exact hstay
  | delete id =>
    rw [TimeSystem.step]
    split_ifs with huser
    · refine ⟨.inl rfl, fun _ => h.delete id ?_⟩
      cases hturn : s.turn with
      | idle => exact .idle
      | running id' maxId =>
        rw [hturn] at hstanding
        cases hstanding with
        | running hbegun hid =>
          refine .running ?_ hid
          dsimp only
          rw [timeEventNextId_deleteTimeEvent]
          exact hbegun
      | _ =>
        rw [userTurn, hturn] at huser
        cases huser
    · exact hstay
  | process now =>
    refine ⟨.inl ?_, fun _ => h.process now⟩
    cases hturn : s.turn <;> rw [TimeSystem.step, hturn]
  | go now =>
    cases hturn : s.turn with
    | scan te maxId =>
      rw [hturn] at hstanding
      cases hstanding with
      | scan hbegun hscanned =>
        rw [TimeSystem.step, hturn]
        cases te with
        | none => exact ⟨.inl rfl, fun _ => ⟨h.sorted, h.fresh, h.normal, .idle⟩⟩
        | some id => exact h.visit hbegun hscanned now
    | _ =>
      rw [TimeSystem.step, hturn]
      exact hstay
  | ret retval now =>
    cases hturn : s.turn with
    | running id maxId =>
      rw [hturn] at hstanding
      cases hstanding with
      | running hbegun hid =>
        rw [TimeSystem.step, hturn]
        refine ⟨.inl ?_, fun hfit => h.returned hbegun now ?_⟩
        · dsimp only
          rw [TimeSystem.returned]
          split_ifs <;> rfl
        · rw [TimeFits, hturn] at hfit
          exact hfit
    | _ =>
      rw [TimeSystem.step, hturn]
      exact hstay

/-- An event that deletes itself and goes on is used behind its deletion. -/
example : (([.create 0 0 (), .process 0, .go 0, .delete 0, .ret 5 0] : List (TimeMove Unit)).foldl
    step (start 8 0 : TimeSystem ℕ ℕ Unit)).turn = .undefined := by decide +kernel

/-- In every such run the nearest event is one that no other one fires before. The loop polls
until its time has come, as far as an `int` holds the time to it. When the event is late, it
polls for what is missing from the delay to a whole number of seconds, and does not return at
once. -/
theorem poll_until_nearest (setsize now : ℕ) {moves : List (TimeMove τ)}
    (h : Along step TimeFits (start setsize now : TimeSystem π δ τ) moves) :
    ∀ s ∈ moves.scanl step (start setsize now : TimeSystem π δ τ), ∀ now' : ℕ,
      s.loop.timeEventHead = [] ∧ s.loop.searchNearestTimer = none ∨
      ∃ te ∈ s.loop.timeEventHead, s.loop.searchNearestTimer = some te ∧
        (∀ te' ∈ s.loop.timeEventHead, te.when ≤ te'.when) ∧
        timeout now' te =
          if now' ≤ te.when then int32 (te.when - now') else (te.when - now') % 1000 := by
  intro s hs now'
  have hstep : ∀ (s : TimeSystem π δ τ) move, s.InOrder → s.TimeFits move → (s.step move).InOrder :=
    fun s move hs hfit => (hs.step move).2 hfit
  have hin := Along.forall_scanl hstep (inOrder_start setsize now) h s hs
  refine (searchNearestTimer_spec hin.normal).imp_right ?_
  rintro ⟨te, hte, hsearch, hmin⟩
  exact ⟨te, hte, hsearch, hmin, timeout_eq (hin.normal te hte)⟩

/-- A poll for six milliseconds, and one for half a second when the event is late. -/
theorem poll_until_nearest_late : ∃ te : AeTimeEvent Unit, te.id = 0 ∧
    ([.create 0 10 (), .create 0 5000 ()].foldl step
      (start 8 0 : TimeSystem ℕ ℕ Unit)).loop.searchNearestTimer = some te ∧
    timeout 4 te = 6 ∧ timeout 1510 te = 500 := by
  have h : Along step TimeFits (start 8 0 : TimeSystem ℕ ℕ Unit)
      [.create 0 10 (), .create 0 5000 ()] := by decide +kernel
  have hsearch : ([.create 0 10 (), .create 0 5000 ()].foldl step
      (start 8 0 : TimeSystem ℕ ℕ Unit)).loop.searchNearestTimer = some ⟨0, 0, 10, ()⟩ := by
    decide +kernel
  have htimeout : ∀ now, timeout now (⟨0, 0, 10, ()⟩ : AeTimeEvent Unit) =
      if (now : Int) ≤ 10 then int32 (10 - (now : Int)) else (10 - now) % 1000 := by
    intro now
    rcases poll_until_nearest 8 0 h _ (foldl_mem_scanl ..) now with ⟨-, hnone⟩ |
      ⟨te, -, hte, -, htimeout⟩
    · rw [hsearch] at hnone
      cases hnone
    · obtain rfl := Option.some.inj (hsearch.symm.trans hte)
      exact htimeout
  exact ⟨_, rfl, hsearch, (htimeout 4).trans (by decide +kernel),
    (htimeout 1510).trans (by decide +kernel)⟩

/-- From 2^31 milliseconds on the time to the event turns over, and the poll waits for ever. -/
example : timeout 0 (⟨0, 3000000, 0, ()⟩ : AeTimeEvent Unit) = -1294967296 := by
  decide +kernel

end TimeSystem

end ServerCom.Redis
