import ServerCom.Core.Machine.Guarded
import ServerCom.Redis.Interpretation.Sound

/-!
# No callback of a destroyed object

The destructor leaves the data pointer of its context as it is. What keeps hiredis away from
the destroyed object is that the context is freed inside the destructor, and it is only
outside of its callbacks and without pending replies.
-/

namespace ServerCom.Redis

open Machine

namespace Links

/-- A context that points to the object cannot call it back any more. -/
def Spent (a : Links) (c : ContextPtr) : Prop := ¬ a.Connected c ∧ a.Calling c (some false)

/-- The destroyed object was not called back, and cannot be. -/
structure Quiet (a : Links) : Prop where
  /-- It was not called back. -/
  stray : a.stray = false
  /-- Behind the destructor, no context can call back. -/
  dead : a.life = .dead → ∀ c, a.Attached c → a.Spent c
  /-- In the destructor, only the context it frees can. -/
  dying : a.life = .dying → ∀ c, a.Attached c → a.Spent c ∨ a.Innermost c (some true)

variable {a b : Links} {c d : ContextPtr} {l : Link} {f : Option Bool} {r r' : Bool}
  {rest : List Doing}

/-- While the object lives there is nothing to keep away from it. -/
theorem quiet_of_alive (hstray : a.stray = false) (hlife : a.life = .alive) : a.Quiet :=
  ⟨hstray, by simp [hlife], by simp [hlife]⟩

/-- With a context that can call back, or a reading in progress, the object is alive. -/
theorem Quiet.alive_of_idle (h : a.Quiet) (hs : a.Sound) (hidle : a.calls = [])
    (hc : a.Attached c) : a.life = .alive :=
  hs.linked.alive hidle fun hdead => not_calling hidle (h.dead hdead c hc).2

/-- While a context is read the object is alive. -/
theorem Quiet.alive_of_reading (h : a.Quiet) (hs : a.Sound)
    (htop : a.calls = ⟨c, none, false⟩ :: rest) : a.life = .alive := by
  have hread : a.Calling c none := (calling_iff htop).mpr (.inl ⟨rfl, rfl⟩)
  cases hlife : a.life with
  | alive => rfl
  | dying => simpa using (innermost_iff htop).mp (hs.linked.dying hlife).choose_spec
  | dead =>
    have hattached := hs.linked.attached c none hread (by simp)
    exact absurd (hs.linked.connected c hread) (h.dead hlife c hattached).1

/-- The user's code that starts or returns in a call reaches no dead object. -/
theorem Quiet.turn (h : a.Quiet) (htop : a.calls = ⟨c, f, r'⟩ :: rest)
    (hc : a.contexts c = some l) : (a.turn c f rest l r).Quiet := by
  have hattached : ∀ d, (a.turn c f rest l r).Attached d ↔ a.Attached d :=
    fun _ => holds_turn hc rfl
  have hspent : ∀ d, (a.turn c f rest l r).Spent d ↔ a.Spent d := fun _ =>
    and_congr (not_congr (holds_turn hc rfl)) (calling_turn htop)
  refine ⟨h.stray, fun hdead d hd => ?_, fun hdying d hd => ?_⟩
  · exact (hspent d).mpr (h.dead hdead d ((hattached d).mp hd))
  · exact (h.dying hdying d ((hattached d).mp hd)).imp (hspent d).mpr (innermost_turn htop).mpr

/-- The last call of a freed context meets the dead object only if it was connected. -/
theorem finish_stray {dtor : Bool}
    (h : a.life = .dead → ¬ (l.attached && l.connected) = true) :
    (a.finish c l dtor rest).stray = a.stray := by
  rw [finish]
  by_cases hl : (l.attached && l.connected) = true
  · rw [if_pos hl, onDisconnect, if_neg fun hdead => h hdead hl]
  · rw [if_neg hl]

/-- A context that cannot call back stays so while another one is freed. -/
theorem Sound.spent_finish (h : a.Sound) {dtor : Bool}
    (htop : a.calls = ⟨c, some dtor, false⟩ :: rest) (hne : d ≠ c) (hd : a.Spent d) :
    (a.finish c l dtor rest).Spent d :=
  ⟨fun hcon => hd.1 (holds_finish.mp hcon).2, (h.calling_finish htop l).mpr ⟨hne, hd.2⟩⟩

/-- The end of a context calls back a living object only, or one in its destructor. -/
theorem Quiet.finish (h : a.Quiet) (hs : a.Sound) {dtor : Bool}
    (htop : a.calls = ⟨c, some dtor, false⟩ :: rest) (hc : a.contexts c = some l) :
    (a.finish c l dtor rest).Quiet := by
  have hcall : a.Calling c (some dtor) := (calling_iff htop).mpr (.inl ⟨rfl, rfl⟩)
  have hstray : (a.finish c l dtor rest).stray = false := by
    rw [finish_stray fun hdead hl => ?_]
    · exact h.stray
    · obtain ⟨hla, hlc⟩ := Bool.and_eq_true_iff.mp hl
      exact (h.dead hdead c ((holds_iff hc).mpr hla)).1 ((holds_iff hc).mpr hlc)
  have hlife := finish_life a c l dtor rest
  cases dtor with
  | true =>
    have hdying := (hs.linked.dtor c hcall).1
    rw [if_pos rfl] at hlife
    refine ⟨hstray, fun _ d hd => ?_, by simp [hlife]⟩
    obtain ⟨hne, hold⟩ := holds_finish.mp hd
    refine hs.spent_finish htop hne ((h.dying hdying d hold).resolve_right fun hinner => hne ?_)
    exact ((innermost_iff htop).mp hinner).1
  | false =>
    have hnotdying : a.life ≠ .dying := fun hdying => by
      simpa using (innermost_iff htop).mp (hs.linked.dying hdying).choose_spec
    rw [if_neg Bool.false_ne_true] at hlife
    refine ⟨hstray, fun hdead d hd => ?_, by simp [hlife, hnotdying]⟩
    obtain ⟨hne, hold⟩ := holds_finish.mp hd
    exact hs.spent_finish htop hne (h.dead (hlife ▸ hdead) d hold)

/-- A move of hiredis does not call the destroyed object back. -/
theorem Quiet.work (h : a.Quiet) (hs : a.Sound) (hab : a.Work b) : b.Quiet := by
  cases hab with
  | @connected c r hidle hc =>
    have hlife := h.alive_of_idle hs hidle ⟨_, hc, rfl⟩
    have hset : (a.set c ⟨true, true, r⟩).life = .alive := hlife
    rw [onConnect_true (by simp [hset])]
    exact quiet_of_alive h.stray hset
  | refused hidle hc =>
    have hlife := h.alive_of_idle hs hidle ⟨_, hc, rfl⟩
    rw [onConnect_false (by simp [hlife])]
    exact quiet_of_alive h.stray hlife
  | enter f hf hidle hc => exact quiet_of_alive h.stray (h.alive_of_idle hs hidle ⟨_, hc, rfl⟩)
  | fail htop => exact quiet_of_alive h.stray (h.alive_of_reading hs htop)
  | leave htop => exact quiet_of_alive h.stray (h.alive_of_reading hs htop)
  | run htop hc => exact h.turn htop hc
  | ret htop hc => exact h.turn htop hc
  | finish htop hc => exact h.finish hs htop hc

/-- So do any number of them. -/
theorem Quiet.works (h : a.Quiet) (hs : a.Sound) (hab : a.Works b) : b.Quiet := by
  induction hab with
  | refl => exact h
  | tail hbefore hwork ih => exact ih.work (hs.works hbefore) hwork

/-- Only a good context can call back, and it calls back a living object. -/
theorem Quiet.connect (h : a.Quiet) {ans : ConnectAnswer} (hdead : a.life ≠ .dead)
    (hgood : ans = .good → a.life = .alive) : (a.connect ans).Quiet := by
  cases ans with
  | noLoop => exact h
  | null => exact ⟨h.stray, h.dead, h.dying⟩
  | err =>
    refine ⟨h.stray, fun hlife => absurd hlife hdead, fun hdying d hd => ?_⟩
    have hne : d ≠ a.obtained := by
      rintro rfl
      simpa using (holds_update_self (a := a) rfl).mp hd
    refine (h.dying hdying d ((holds_update_of_ne hne rfl).mp hd)).imp_left fun hspent => ?_
    exact ⟨fun hcon => hspent.1 ((holds_update_of_ne hne rfl).mp hcon), hspent.2⟩
  | good => exact quiet_of_alive h.stray (hgood rfl)

/-- A destructor that does not defer, or leaves a context outside of the event loop. -/
theorem Quiet.leave (h : a.Quiet) (hs : a.Sound) (hlife : a.life = .alive)
    (hbare : ∀ c, a.pointer = some c → ¬ a.Attached c) : Quiet { a with life := .dead } := by
  refine ⟨h.stray, fun _ c hc => ?_, by simp⟩
  exact (hs.linked.reach hlife c hc).resolve_left fun hptr => hbare c hptr hc

/-- The destructor frees the context from inside, where only this call can still call back. -/
theorem Quiet.free (h : a.Quiet) (hs : a.Sound) (hlife : a.life = .alive)
    (hptr : a.pointer = some c) :
    Quiet { a with life := .dying, calls := ⟨c, some true, false⟩ :: a.calls } := by
  refine ⟨h.stray, by simp, fun _ d hd => ?_⟩
  refine (hs.linked.reach hlife d hd).symm.imp (fun hspent => ⟨hspent.1, ?_⟩) fun hown => ?_
  · exact (calling_iff rfl).mpr (.inr hspent.2)
  · exact (innermost_iff rfl).mpr ⟨Option.some.inj (hown.symm.trans hptr), rfl⟩

end Links

namespace World

variable {w : World}

/-- What `m_pAeContext` points to. -/
def current (w : World) : Option (AsyncContext OptPtr) := w.conn.aeContext.bind w.contexts

/-- The user's code can call the object. -/
def Calls (w : World) : Prop := w.halted = none ∧ w.userTurn = true ∧ w.life ≠ .dead

instance (w : World) : Decidable w.Calls := inferInstanceAs (Decidable (_ ∧ _ ∧ _))

/-- The destructor runs while the object has no context in the event loop, or outside of the
callbacks of its context and without pending replies, and `Init` gets no context in it. -/
def Clean (w : World) : RedisMove → Prop
  | .destroy => w.Calls → w.life = .alive →
    ∀ ac ∈ w.current, ac.attached = true → ac.inCallback = false ∧ ac.replies = []
  | .init _ _ .good => w.Calls → w.life = .dying → w.conn.port = 0 → w.conn.state ≠ .init
  | _ => True

instance (w : World) : DecidablePred w.Clean
  | .destroy => inferInstanceAs (Decidable (w.Calls → w.life = .alive → ∀ ac ∈ w.current, _))
  | .init _ _ .good => inferInstanceAs (Decidable
    (w.Calls → w.life = .dying → w.conn.port = 0 → w.conn.state ≠ .init))
  | .init _ _ .noLoop | .init _ _ .null | .init _ _ .err | .tick _ | .readable .. | .writable ..
  | .createOpt | .asyncCmd .. | .asyncCmdArgv .. | .ret | .go => .isTrue trivial

/-- A new object is alive. -/
theorem quiet_create : create.links.Quiet := Links.quiet_of_alive rfl rfl

/-- A clean destruction leaves no context that can call back. -/
theorem quiet_destroy (h : w.links.Quiet) (hs : w.links.Sound) (hrun : w.halted = none)
    (hm : w.Clean .destroy) : (w.step .destroy).links.Quiet := by
  rw [step, if_pos hrun, act]
  split_ifs with hturn
  · have hlife : w.links.life = .alive := hturn.2
    rcases destroy_cases w with ⟨hnull, hleave⟩ | ⟨c, hptr, ⟨-, hhalt⟩ | ⟨ac, hc, hcase⟩⟩
    · rw [hleave]
      refine h.leave hs hlife fun c hptr => ?_
      exact absurd (hnull.symm.trans hptr) (by simp)
    · rw [hhalt, links_halt (by decide)]
      exact h
    · rcases hcase with ⟨-, -, hfree⟩ | ⟨hbusy, hleave⟩
      · rw [hfree]
        exact h.free hs hlife hptr
      · rw [hleave]
        -- what is left to hiredis was never in the event loop
        refine h.leave hs hlife fun d hd hattached => ?_
        obtain rfl := Option.some.inj (hptr.symm.trans hd)
        obtain ⟨l, hl, hla⟩ := hattached
        have hac : ac.link = l := Option.some.inj ((contexts_links hc).symm.trans hl)
        have hcurrent : ac ∈ w.current := by simp [current, hptr, hc]
        have hcalls : w.Calls := ⟨hrun, hturn.1, by simp [hturn.2]⟩
        exact hbusy (hm hcalls hturn.2 ac hcurrent (by rw [← hla, ← hac]; rfl))
  · exact h

/-- Every clean move leaves the destroyed object in quiet. -/
theorem quiet_step (h : w.links.Quiet) (hs : w.links.Sound) {m : RedisMove} (hm : w.Clean m) :
    (w.step m).links.Quiet := by
  by_cases hrun : w.halted = none
  · have hfollows := follows_step hrun m
    cases m with
    | init ip port ans =>
      rw [links_step_init hrun]
      split_ifs with hcase
      · obtain ⟨⟨hturn, hnotdead⟩, hport, hinit⟩ := hcase
        refine h.connect hnotdead fun hgood => ?_
        subst hgood
        cases hl : w.life with
        | alive => exact hl
        | dying => exact absurd hinit (hm ⟨hrun, hturn, hnotdead⟩ hl hport)
        | dead => exact absurd hl hnotdead
      · exact h
    | tick ans =>
      rcases hfollows with hsame | ⟨hlife, -, hconnect⟩
      · exact hsame ▸ h
      · exact hconnect ▸ h.connect (by simp [hlife]) fun _ => hlife
    | destroy => exact quiet_destroy h hs hrun hm
    | readable | writable | createOpt | asyncCmd | asyncCmdArgv | ret | go =>
      exact h.works hs hfollows
  · rw [step, if_neg hrun]
    exact h

/-- In a run whose destructors are clean, the destroyed object is never called back. -/
theorem quiet_of_along (ms : List RedisMove) (h : Along step Clean create ms) :
    ∀ t ∈ ms.scanl step create, t.halted ≠ some .destroyed := by
  have hstep : ∀ (s : World) (m : RedisMove), s.links.Sound ∧ s.links.Quiet → s.Clean m →
      (s.step m).links.Sound ∧ (s.step m).links.Quiet :=
    fun s m hs hm => ⟨sound_step hs.1 m, quiet_step hs.2 hs.1 hm⟩
  intro t ht hhalt
  have hquiet := (Along.forall_scanl hstep ⟨sound_create, quiet_create⟩ h t ht).2.stray
  simp [links, hhalt] at hquiet

/-- A command and its reply, and the destruction behind it. -/
def answeredThenDestroyed : List RedisMove :=
  [.init [49] 1 .good, .createOpt, .asyncCmd (some 0) [[71]], .writable 0 .ok true,
    .readable 0 .ok (.replies [.other] (.stop true)), .go, .ret, .go, .destroy, .go]

theorem quiet_of_along_answered :
    Along step Clean create answeredThenDestroyed ∧
      ∀ t ∈ answeredThenDestroyed.scanl step create, t.halted ≠ some .destroyed := by
  have hrun : Along step Clean create answeredThenDestroyed := by decide
  exact ⟨hrun, quiet_of_along _ hrun⟩

/-- A command that is still unanswered when the object is destroyed: the context outlives it,
and reports its connection to the destroyed object. -/
theorem unanswered_calls_back :
    ([RedisMove.init [49] 1 .good, .createOpt, .asyncCmd (some 0) [[71]], .destroy,
      .writable 0 .ok true].foldl step create).halted = some .destroyed := by
  decide

end World

end ServerCom.Redis
