import ServerCom.Core.Machine.Guarded
import ServerCom.Redis.Interpretation.Sound

/-!
# State and context agree

In every run of a living object the state is `S_INIT` exactly while there is no context, and
no context is dropped, as long as `redisAsyncConnect` gives no context with `err` set. Such a
context stays behind in `S_INIT`, where the timer overwrites it.
-/

namespace ServerCom.Redis

open Machine

namespace Links

/-- State and pointer agree, and a context is the object's own or is being freed. -/
structure Agreed (a : Links) : Prop where
  /-- `S_INIT` is the state without a context. -/
  init : a.life = .alive → (a.state = .init ↔ a.pointer = none)
  /-- No context is dropped. -/
  kept : a.life = .alive → ∀ c, a.Unfreed c → a.pointer = some c ∨ a.Calling c (some false)

variable {a b : Links} {c : ContextPtr} {l : Link} {rest : List Doing}

/-- Nothing is asked of an object that is being destroyed. -/
theorem agreed_of_not_alive (hlife : a.life ≠ .alive) : a.Agreed :=
  ⟨fun h => absurd h hlife, fun h => absurd h hlife⟩

/-- The destructor ends the object's life at once. -/
theorem Destroy.not_alive (h : a.Destroy b) : b.life ≠ .alive := by
  cases h <;> simp

/-- A move of hiredis keeps the agreement. -/
theorem Agreed.work (h : a.Agreed) (hs : a.Sound) (hab : a.Work b) : b.Agreed := by
  have hown : ∀ c, a.calls = [] → a.life = .alive → a.Unfreed c → a.pointer = some c :=
    fun c hidle hlife hc => (h.kept hlife c hc).resolve_right (not_calling hidle)
  cases hab with
  | @connected c r hidle hc =>
    by_cases hdead : (a.set c ⟨true, true, r⟩).life = .dead
    · rw [onConnect_of_dead hdead]
      exact agreed_of_not_alive (by simp [hdead])
    · rw [onConnect_true hdead]
      have hlife : a.life = .alive := hs.linked.alive hidle hdead
      have hptr : a.pointer = some c := hown c hidle hlife ⟨_, hc⟩
      refine ⟨fun _ => by simp [Links.set, hptr], fun _ d hd => .inl ?_⟩
      by_cases hdc : d = c
      · exact hdc ▸ hptr
      · exact hown d hidle hlife ((unfreed_update_of_ne hdc rfl).mp hd)
  | @refused c r hidle hc =>
    by_cases hdead : a.life = .dead
    · rw [onConnect_of_dead hdead]
      exact agreed_of_not_alive (by simp [hdead])
    · rw [onConnect_false hdead]
      have hlife : a.life = .alive := hs.linked.alive hidle hdead
      have hptr : a.pointer = some c := hown c hidle hlife ⟨_, hc⟩
      refine ⟨fun _ => by simp, fun _ d hd => .inr ?_⟩
      obtain rfl := Option.some.inj (hptr.symm.trans (hown d hidle hlife hd))
      exact (calling_iff rfl).mpr (.inl ⟨rfl, rfl⟩)
  | enter f hf hidle hc => exact ⟨h.init, fun hlife d hd => .inl (hown d hidle hlife hd)⟩
  | fail htop =>
    refine ⟨h.init, fun hlife d hd => (h.kept hlife d hd).imp_right fun hcall => ?_⟩
    exact (calling_iff rfl).mpr (.inr (((calling_iff htop).mp hcall).resolve_left (by simp)))
  | leave htop =>
    refine ⟨h.init, fun hlife d hd => (h.kept hlife d hd).imp_right fun hcall => ?_⟩
    exact ((calling_iff htop).mp hcall).resolve_left (by simp)
  | run htop hc | ret htop hc =>
    refine ⟨h.init, fun hlife d hd => ?_⟩
    rw [calling_turn htop]
    exact h.kept hlife d ((unfreed_turn hc).mp hd)
  | @finish c dtor rest l htop hc =>
    by_cases hlife : (a.finish c l dtor rest).life = .alive
    · have hnotdead : (a.finish c l dtor rest).life ≠ .dead := by simp [hlife]
      obtain ⟨rfl, halive⟩ := hs.linked.alive_of_finish htop hnotdead
      have hkept : ∀ d, (a.finish c l false rest).Unfreed d →
          d ≠ c ∧ (a.pointer = some d ∨ (a.finish c l false rest).Calling d (some false)) := by
        intro d hd
        obtain ⟨hne, hold⟩ := unfreed_finish.mp hd
        refine ⟨hne, (h.kept halive d hold).imp_right fun hcall => ?_⟩
        exact (hs.calling_finish htop l).mpr ⟨hne, hcall⟩
      rcases hs.linked.finish_own htop hc halive with ⟨hown, hptr, hstate⟩ | ⟨-, hptr, hstate⟩
      · refine ⟨fun _ => by simp [hptr, hstate], fun _ d hd => .inr ?_⟩
        obtain ⟨hne, hd⟩ := hkept d hd
        exact hd.resolve_left fun hd => hne (Option.some.inj (hd.symm.trans hown))
      · refine ⟨fun _ => ?_, fun _ d hd => hptr ▸ (hkept d hd).2⟩
        rw [hptr, hstate]
        exact h.init halive
    · exact agreed_of_not_alive hlife

/-- So do any number of them. -/
theorem Agreed.works (h : a.Agreed) (hs : a.Sound) (hab : a.Works b) : b.Agreed := by
  induction hab with
  | refl => exact h
  | tail hbefore hwork ih => exact ih.work (hs.works hbefore) hwork

/-- `Connect` keeps the agreement exactly without a context that has `err` set. -/
theorem Agreed.connect_iff (h : a.Agreed) (hlife : a.life = .alive) (hinit : a.state = .init)
    (ans : ConnectAnswer) : (a.connect ans).Agreed ↔ ans ≠ .err := by
  have hnull : a.pointer = none := (h.init hlife).mp hinit
  have hkept : ∀ d, a.Unfreed d → a.Calling d (some false) := fun d hd =>
    (h.kept hlife d hd).resolve_left (by simp [hnull])
  cases ans with
  | noLoop => exact iff_of_true h (by simp)
  | null =>
    exact iff_of_true ⟨fun _ => iff_of_true hinit rfl, fun _ d hd => .inr (hkept d hd)⟩ (by simp)
  | err =>
    refine iff_of_false (fun hagreed => ?_) (by simp)
    have hptr := (hagreed.init hlife).mp hinit
    cases hptr
  | good =>
    refine iff_of_true ⟨fun _ => by simp [Links.connect], fun _ d hd => ?_⟩ (by simp)
    by_cases hdn : d = a.obtained
    · exact .inl (hdn ▸ rfl)
    · exact .inr (hkept d ((unfreed_update_of_ne hdn rfl).mp hd))

/-- `Connect` keeps the agreement exactly when it is given no context with `err` set. -/
theorem Agreed.ite_connect (h : a.Agreed) {p : Prop} [Decidable p] (hp : p → a.state = .init)
    (ans : ConnectAnswer) :
    (if p then a.connect ans else a).Agreed ↔ (a.life = .alive → p → ans ≠ .err) := by
  by_cases hlife : a.life = .alive
  · split_ifs with hcase
    · rw [h.connect_iff hlife (hp hcase)]
      simp [hlife, hcase]
    · simp [h, hcase]
  · refine iff_of_true (agreed_of_not_alive ?_) fun halive => absurd halive hlife
    split_ifs
    · cases ans <;> exact hlife
    · exact hlife

end Links

namespace World

variable {w : World} {c : ContextPtr}

/-- While the object lives, state and context agree, and no context is dropped. -/
structure Agreed (w : World) : Prop where
  /-- `S_INIT` is the state without a context. -/
  init : w.life = .alive → (w.conn.state = .init ↔ w.conn.aeContext = none)
  /-- In `S_CONNECTIING` and `S_PROC` there is a context in the event loop that is not freed. -/
  attached : w.life = .alive → w.conn.state = .connectiing ∨ w.conn.state = .proc →
    ∃ c ac, w.conn.aeContext = some c ∧ w.contexts c = some ac ∧ ac.attached = true
  /-- Every context obtained is freed, is the object's own, or is being freed. -/
  kept : w.life = .alive → ∀ c < w.obtained, w.contexts c = none ∨ w.conn.aeContext = some c ∨
    ∃ f ∈ w.stack, f.context = c ∧ f.call = .free false

/-- `redisAsyncConnect` is called in this move, and gives a context with `err` set. -/
def ObtainsErr (w : World) : RedisMove → Prop
  | .init _ _ .err => w.userTurn = true ∧ w.conn.port = 0 ∧ w.conn.state = .init
  | .tick .err => w.stack = [] ∧ w.conn.state = .init
  | _ => False

/-- A living object gets no context with `err` set. -/
def Guard (w : World) (m : RedisMove) : Prop :=
  w.halted = none → w.life = .alive → ¬ w.ObtainsErr m

theorem calling_links {b : Bool} :
    w.links.Calling c (some b) ↔ ∃ f ∈ w.stack, f.context = c ∧ f.call = .free b := by
  simp only [Links.Calling, links, List.mem_map]
  constructor
  · rintro ⟨r, f, hf, hdoing⟩
    obtain ⟨rfl, hfree, -⟩ := Doing.mk.inj hdoing
    refine ⟨f, hf, rfl, ?_⟩
    cases hcall : f.call with
    | process => simp [hcall, Call.freeing] at hfree
    | free dtor => simpa [hcall, Call.freeing] using hfree
  · rintro ⟨f, hf, rfl, hcall⟩
    exact ⟨f.running.isSome, f, hf, by simp [Frame.doing, hcall, Call.freeing]⟩

theorem unfreed_links : w.links.Unfreed c ↔ w.contexts c ≠ none := by
  cases hc : w.contexts c <;> simp [Links.Unfreed, links, hc]

theorem attached_links :
    w.links.Attached c ↔ ∃ ac, w.contexts c = some ac ∧ ac.attached = true := by
  cases hc : w.contexts c <;> simp [Links.Holds, links, hc, AsyncContext.link]

/-- The world agrees with its contexts exactly when its links do. -/
theorem agreed_iff (h : w.links.Sound) : w.Agreed ↔ w.links.Agreed := by
  constructor
  · intro hw
    refine ⟨hw.init, fun hlife c hc => ?_⟩
    obtain ⟨l, hl⟩ := hc
    have hfreed := unfreed_links.mp ⟨l, hl⟩
    exact ((hw.kept hlife c (h.stacked.lt_obtained hl)).resolve_left hfreed).imp_right
      calling_links.mpr
  · intro ha
    refine ⟨ha.init, fun hlife hstate => ?_, fun hlife c _ => ?_⟩
    · have hset : w.conn.state ≠ .init := by rcases hstate with hs | hs <;> simp [hs]
      obtain ⟨c, hptr, hc⟩ := h.linked.set hlife hset
      obtain ⟨ac, hac, hattached⟩ := attached_links.mp hc
      exact ⟨c, ac, hptr, hac, hattached⟩
    · by_cases hc : w.contexts c = none
      · exact .inl hc
      · exact .inr ((ha.kept hlife c (unfreed_links.mpr hc)).imp_right calling_links.mp)

/-- A new object is in `S_INIT` and has no context. -/
theorem agreed_create : create.Agreed := by
  refine ⟨fun _ => by simp [create], fun _ h => ?_, fun _ c hc => ?_⟩
  · simp [create] at h
  · exact absurd hc (Nat.not_lt_zero c)

/-- One move keeps the agreement exactly when it is guarded. -/
theorem agreed_step (hs : w.links.Sound) (h : w.Agreed) (m : RedisMove) :
    (w.step m).Agreed ↔ w.Guard m := by
  rw [agreed_iff (sound_step hs m)]
  have ha := (agreed_iff hs).mp h
  by_cases hrun : w.halted = none
  · have hfollows := follows_step hrun m
    cases m with
    | init ip port ans =>
      rw [links_step_init hrun, ha.ite_connect fun hcase => hcase.2.2]
      cases ans with
      | err =>
        constructor
        · rintro h - halive ⟨hturn, hport, hinit⟩
          exact h halive ⟨⟨hturn, by simp [halive]⟩, hport, hinit⟩ rfl
        · rintro h halive ⟨⟨hturn, -⟩, hport, hinit⟩ -
          exact h hrun halive ⟨hturn, hport, hinit⟩
      | noLoop | null | good => exact iff_of_true (by simp) fun _ _ h => h
    | tick ans =>
      rw [links_step_tick hrun, ha.ite_connect fun hcase => hcase.2]
      cases ans with
      | err =>
        constructor
        · rintro h - halive ⟨hidle, hinit⟩
          exact h halive ⟨⟨hidle, halive⟩, hinit⟩ rfl
        · rintro h halive ⟨⟨hidle, -⟩, hinit⟩ -
          exact h hrun halive ⟨hidle, hinit⟩
      | noLoop | null | good => exact iff_of_true (by simp) fun _ _ h => h
    | destroy =>
      refine iff_of_true ?_ fun _ _ h => h
      rcases hfollows with hsame | ⟨-, -, hdestroy⟩
      · exact hsame ▸ ha
      · exact Links.agreed_of_not_alive hdestroy.not_alive
    | readable | writable | createOpt | asyncCmd | asyncCmdArgv | ret | go =>
      exact iff_of_true (ha.works hs hfollows) fun _ _ h => h
  · rw [step, if_neg hrun]
    exact iff_of_true ha fun hnone => absurd hnone hrun

/-- State and context agree in every state of a run exactly when the living object gets no
context with `err` set. -/
theorem agreed_iff_along (ms : List RedisMove) :
    (∀ t ∈ ms.scanl step create, t.Agreed) ↔ Along step Guard create ms := by
  have hbase : ∀ (s : World) (m : RedisMove), s.links.Sound → (s.step m).links.Sound :=
    fun s m hs => sound_step hs m
  have hstep : ∀ (s : World) (m : RedisMove), s.links.Sound → s.Agreed →
      ((s.step m).Agreed ↔ s.Guard m) := fun s m hs h => agreed_step hs h m
  exact forall_scanl_iff_along_of hbase hstep sound_create agreed_create ms

/-- Two ticks of the timer with an error each: the first context stays behind in `S_INIT`, and
the second takes its place. -/
theorem failing_ticks_drop :
    ([RedisMove.tick .err].foldl step create).conn = ⟨0, [], some 0, .init, none⟩ ∧
      ([RedisMove.tick .err, .tick .err].foldl step create).conn.aeContext = some 1 ∧
      ¬ ([RedisMove.tick .err, .tick .err].foldl step create).Agreed := by
  refine ⟨by decide, by decide, fun h => ?_⟩
  have hinit := (h.init rfl).mp rfl
  cases hinit

end World

end ServerCom.Redis
