import ServerCom.Redis.Interpretation.Ledger
import ServerCom.Redis.Interpretation.Sound

/-!
# Balanced worlds

The ledger of a world, and what keeps it balanced: the contexts queue plain commands only,
each with an object. A plain context has neither subscriptions nor a monitor, so that each
reply takes one object out of the queue.
-/

namespace ServerCom.Redis

/-- The object of a callback. -/
def RedisCallback.opt : RedisCallback OptPtr → Option OptPtr
  | .null => none
  | .call privdata => privdata

/-- The objects that wait for their reply. -/
def AsyncContext.pending (ac : AsyncContext OptPtr) : List OptPtr :=
  ac.replies.filterMap RedisCallback.opt

/-- A context with plain commands only, and without any outside of the event loop. -/
structure AsyncContext.Plain (ac : AsyncContext OptPtr) : Prop where
  /-- No subscription. -/
  subscribed : ac.subscribed = false
  /-- No monitor. -/
  monitoring : ac.monitoring = false
  /-- Nothing invalid. -/
  invalid : ac.invalid = []
  /-- No channel. -/
  channels : ac.channels = []
  /-- No pattern. -/
  patterns : ac.patterns = []
  /-- Each callback has an object. -/
  replies : ∀ cb ∈ ac.replies, ∃ o, cb = .call (some o)
  /-- Commands are in the event loop. -/
  bare : ac.attached = false → ac.replies = []

/-- Its other flags do not matter. -/
theorem AsyncContext.Plain.flags {ac : AsyncContext OptPtr} (hac : ac.Plain)
    {err connected disconnecting inCallback : Bool} :
    AsyncContext.Plain { ac with
      err, connected, disconnecting, inCallback } :=
  ⟨hac.subscribed, hac.monitoring, hac.invalid, hac.channels, hac.patterns, hac.replies, hac.bare⟩

/-- A command with one reply: none of `SUBSCRIBE`, `UNSUBSCRIBE` and `MONITOR`. -/
def plainCommand : List Arg → Bool
  | [] => false
  | cmd :: names => (names.isEmpty || !isCommand (commandName cmd) "subscribe") &&
      !isCommand (commandName cmd) "unsubscribe" && !isCommand (commandName cmd) "monitor"

/-- A plain command puts its callback into the queue. -/
theorem AsyncContext.Plain.command {ac : AsyncContext OptPtr} (hac : ac.Plain)
    (hdis : ac.disconnecting = false) {args : List Arg} (hargs : plainCommand args = true)
    (privdata : Option OptPtr) : ac.command privdata args =
      .ok { ac with replies := ac.replies ++ [.call privdata] } := by
  cases args with
  | nil => cases hargs
  | cons cmd names =>
    simp only [plainCommand, Bool.and_eq_true, Bool.or_eq_true, List.isEmpty_iff,
      Bool.not_eq_true'] at hargs
    obtain ⟨⟨hsub, hunsub⟩, hmonitor⟩ := hargs
    have hsub : ¬ (names ≠ [] ∧ isCommand (commandName cmd) "subscribe" = true) := by
      rintro ⟨hnames, hname⟩
      rw [hname] at hsub
      exact hsub.elim hnames (by simp)
    simp only [AsyncContext.command, hdis, hunsub, hmonitor, hac.subscribed, if_neg hsub,
      Bool.false_eq_true, if_false]

namespace World

/-- The ledger of a world. -/
def ledger (w : World) : Ledger where
  fresh := w.conn.newOpt
  running := w.stack.filterMap Frame.running
  pending c := ((w.contexts c).map AsyncContext.pending).getD []
  obtained := w.obtained
  created := w.created
  deleted := w.deleted
  called := w.called

/-- A balanced world with plain contexts. -/
structure Bookkept (w : World) : Prop where
  /-- Each object is in one place. -/
  balanced : w.ledger.Balanced
  /-- The contexts are plain. -/
  plain : ∀ c ac, w.contexts c = some ac → ac.Plain
  /-- No object and no context is misused. -/
  halted : ∀ r ∈ w.halted, r = .assertion ∨ r = .destroyed
  /-- No object is left with a destroyed connection. -/
  spent : w.life ≠ .alive → w.conn.newOpt = none
  /-- The destructor runs no callback. -/
  dtor : w.life = .dying → ∃ c ac rest, w.stack = ⟨c, .free true, none⟩ :: rest ∧
    w.contexts c = some ac ∧ ac.replies = []

variable {w w' : World} {c : ContextPtr} {ac ac' : AsyncContext OptPtr} {o : OptPtr}
  {rest : List Frame} {call call' : Call}

/-- The pending data behind a change of one context. -/
theorem map_pending_update (f : ContextPtr → Option (AsyncContext OptPtr)) (c : ContextPtr)
    (x : Option (AsyncContext OptPtr)) :
    (fun d => ((Function.update f c x d).map AsyncContext.pending).getD []) =
      Function.update (fun d => ((f d).map AsyncContext.pending).getD []) c
        ((x.map AsyncContext.pending).getD []) :=
  Function.comp_update (fun x => (Option.map AsyncContext.pending x).getD []) f c x

/-- The data that a context has pending, in its ledger. -/
theorem pending_ledger (hc : w.contexts c = some ac) : w.ledger.pending c = ac.pending := by
  simp [ledger, hc]

/-- A changed context changes its own pending data only. -/
theorem ledger_setContext (w : World) (c : ContextPtr) (ac : AsyncContext OptPtr) :
    (w.setContext c ac).ledger =
      { w.ledger with pending := Function.update w.ledger.pending c ac.pending } := by
  simp only [setContext, ledger, map_pending_update, Option.map_some, Option.getD_some]

/-- A change that leaves the pending data leaves the ledger. -/
theorem ledger_setContext_of_pending (hc : w.contexts c = some ac)
    (hp : ac'.pending = ac.pending) : (w.setContext c ac').ledger = w.ledger := by
  rw [ledger_setContext, hp, ← pending_ledger hc, Function.update_eq_self]

/-- A plain context among plain ones. -/
theorem plain_update (h : w.Bookkept) (hac : ac.Plain) :
    ∀ d k, Function.update w.contexts c (some ac) d = some k → k.Plain := by
  intro d k hd
  by_cases hdc : d = c
  · subst hdc
    rw [Function.update_self] at hd
    exact Option.some.inj hd ▸ hac
  · rw [Function.update_of_ne hdc] at hd
    exact h.plain d k hd

/-- A context that exists was obtained. -/
theorem lt_obtained_of_context (hs : w.links.Sound) (hc : w.contexts c = some ac) :
    c < w.ledger.obtained :=
  hs.stacked.lt_obtained (contexts_links hc)

/-- The object is in its destructor only while this is the innermost call. -/
theorem Bookkept.not_dying (h : w.Bookkept)
    (htop : ∀ c rest, w.stack ≠ ⟨c, .free true, none⟩ :: rest) : w.life ≠ .dying := by
  intro hdying
  obtain ⟨c, ac, rest, hstack, -⟩ := h.dtor hdying
  exact htop c rest hstack

/-- A context changes, with the calls in progress and the calls made. -/
theorem ledger_frame (w : World) (c : ContextPtr) (ac : AsyncContext OptPtr) (stack : List Frame)
    (called : List OptPtr) :
    ({ w.setContext c ac with stack := stack, called := called } : World).ledger =
      { w.ledger with
        pending := Function.update w.ledger.pending c ac.pending
        running := stack.filterMap Frame.running
        called := called } := by
  have hset := ledger_setContext w c ac
  exact congrArg (fun a : Ledger => { a with
    running := stack.filterMap Frame.running, called := called }) hset

/-- The data that callbacks run with, from the innermost call outwards. -/
theorem running_ledger {r : Option OptPtr} (hstack : w.stack = ⟨c, call, r⟩ :: rest) :
    w.ledger.running = r.toList ++ rest.filterMap Frame.running := by
  cases r <;> simp [ledger, hstack]

/-- Data that is still there can be deleted. -/
theorem deleteOpt_of_not_mem (ho : o ∉ w.deleted) :
    w.deleteOpt o = { w with deleted := w.deleted ++ [o] } := if_neg ho

/-- The run ends with an assertion. -/
theorem Bookkept.assertion (h : w.Bookkept) : (w.halt .assertion).Bookkept := by
  refine ⟨h.balanced, h.plain, fun r hr => ?_, h.spent, h.dtor⟩
  cases hw : w.halted with
  | none =>
    have hr : some Halt.assertion = some r := by simpa [halt, hw] using hr
    exact .inl (Option.some.inj hr).symm
  | some r' =>
    have hr : some r' = some r := by simpa [halt, hw] using hr
    exact h.halted r (hw.trans hr)

/-- The callback at the head of the queue is called. -/
theorem Bookkept.runCallback (h : w.Bookkept) (hs : w.links.Sound) (hlife : w.life ≠ .dying)
    (hstack : w.stack = ⟨c, call, none⟩ :: rest) (hc : w.contexts c = some ac)
    {cb : RedisCallback OptPtr} {replies : List (RedisCallback OptPtr)}
    (hreplies : ac.replies = cb :: replies) :
    (w.runCallback c { ac with replies := replies } call' rest cb).Bookkept := by
  have hac := h.plain c ac hc
  obtain ⟨o, rfl⟩ := hac.replies cb (hreplies ▸ List.mem_cons_self ..)
  have hpending : w.ledger.pending c =
      o :: ({ ac with replies := replies } : AsyncContext OptPtr).pending := by
    rw [pending_ledger hc, AsyncContext.pending, hreplies]
    rfl
  have hlt := lt_obtained_of_context hs hc
  have hnew : o ∉ w.deleted :=
    h.balanced.not_deleted (Ledger.mem_held_pending hlt (hpending ▸ List.mem_cons_self ..))
  have hplain : ({ ac with replies := replies, inCallback := true } : AsyncContext OptPtr).Plain :=
    ⟨hac.subscribed, hac.monitoring, hac.invalid, hac.channels, hac.patterns,
      fun cb hcb => hac.replies cb (hreplies ▸ List.mem_cons_of_mem _ hcb), fun hbare => by
        simp [hac.bare hbare] at hreplies⟩
  rw [World.runCallback, if_neg hnew]
  refine ⟨?_, plain_update h hplain, h.halted, h.spent, fun hdying => absurd hdying hlife⟩
  rw [ledger_frame]
  have henter := h.balanced.enter hlt hpending
  rw [running_ledger hstack] at henter
  exact henter

/-- A call in progress has its context. -/
theorem context_of_stack (hs : w.links.Sound) {r : Option OptPtr}
    (hstack : w.stack = ⟨c, call, r⟩ :: rest) : ∃ ac, w.contexts c = some ac := by
  have hmem : (⟨c, call.freeing, r.isSome⟩ : Doing) ∈ w.links.calls := by
    rw [links_calls hstack]
    exact List.mem_cons_self ..
  obtain ⟨l, hl, -⟩ := hs.stacked.live _ hmem
  cases hc : w.contexts c with
  | none => simp [links, hc] at hl
  | some ac => exact ⟨ac, rfl⟩

/-- A callback returns. -/
theorem Bookkept.ret (h : w.Bookkept) (hs : w.links.Sound) (hlife : w.life ≠ .dying)
    (hstack : w.stack = ⟨c, call, some o⟩ :: rest) :
    (w.ret ⟨c, call, some o⟩ rest o).Bookkept := by
  obtain ⟨ac, hc⟩ := context_of_stack hs hstack
  have hac := h.plain c ac hc
  have hrunning := running_ledger hstack
  have hnew : o ∉ w.deleted := h.balanced.not_deleted (Ledger.mem_held_running (by simp [hrunning]))
  have hledger : ({ w.setContext c { ac with inCallback := false } with
      stack := ⟨c, call, none⟩ :: rest, deleted := w.deleted ++ [o] } : World).ledger =
        { w.ledger with
          running := rest.filterMap Frame.running, deleted := w.ledger.deleted ++ [o] } := by
    have hp : AsyncContext.pending { ac with inCallback := false } = ac.pending := rfl
    rw [← ledger_setContext_of_pending hc hp]
    rfl
  simp only [World.ret, hc]
  rw [deleteOpt_of_not_mem]
  · refine ⟨?_, plain_update h hac.flags, h.halted, h.spent, fun hdying => absurd hdying hlife⟩
    exact hledger ▸ h.balanced.leave hrunning
  · exact hnew

/-- `__redisAsyncDisconnect` frees nothing yet. -/
theorem Bookkept.asyncDisconnect (h : w.Bookkept) (hlife : w.life ≠ .dying)
    (hc : w.contexts c = some ac) (hac : ac'.Plain) (hp : ac'.pending = ac.pending)
    (hrunning : w.stack.filterMap Frame.running = rest.filterMap Frame.running) :
    (w.asyncDisconnect c ac' false rest).Bookkept := by
  have hframe : ∀ k : AsyncContext OptPtr, k.Plain → k.pending = ac.pending →
      Bookkept { w.setContext c k with stack := ⟨c, .free false, none⟩ :: rest } := by
    intro k hk hkp
    refine ⟨?_, plain_update h hk, h.halted, h.spent, fun hdying => absurd hdying hlife⟩
    have hledger : ({ w.setContext c k with stack := ⟨c, .free false, none⟩ :: rest } :
        World).ledger = w.ledger := by
      rw [← ledger_setContext_of_pending hc hkp]
      exact congrArg (fun l => { (w.setContext c k).ledger with running := l }) hrunning.symm
    exact hledger ▸ h.balanced
  rw [World.asyncDisconnect]
  split_ifs
  · exact hframe _ hac.flags hp
  · exact hframe _ hac hp
  · exact h.assertion

/-- `DisconnectCallback` and `ConnectCallback` leave the objects where they are. -/
theorem Bookkept.connChanged (h : w.Bookkept) (hl : w'.ledger = w.ledger)
    (hcontexts : w'.contexts = w.contexts) (hstack : w'.stack = w.stack) (hlife : w'.life = w.life)
    (hhalted : ∀ r ∈ w'.halted, r ∈ w.halted ∨ r = .destroyed) : w'.Bookkept := by
  refine ⟨hl ▸ h.balanced, hcontexts ▸ h.plain, fun r hr => ?_, fun hspent => ?_, ?_⟩
  · exact (hhalted r hr).elim (h.halted r) .inr
  · have hfresh : w'.conn.newOpt = w.conn.newOpt := congrArg Ledger.fresh hl
    exact hfresh.trans (h.spent (hlife ▸ hspent))
  · rw [hlife, hstack, hcontexts]
    exact h.dtor

/-- A world halts once: at the dead object if it did not before. -/
theorem destroyed_halt {r : Halt} (hr : r ∈ (w.halt .destroyed).halted) :
    r ∈ w.halted ∨ r = .destroyed := by
  cases hw : w.halted with
  | none =>
    have hr : some Halt.destroyed = some r := by simpa [halt, hw] using hr
    exact .inr (Option.some.inj hr).symm
  | some r' =>
    have hr : some r' = some r := by simpa [halt, hw] using hr
    exact .inl hr

theorem Bookkept.disconnectCallback (h : w.Bookkept) : w.disconnectCallback.Bookkept := by
  rw [World.disconnectCallback]
  split_ifs
  · exact h.connChanged rfl rfl rfl rfl fun r hr => destroyed_halt hr
  · exact h.connChanged rfl rfl rfl rfl fun r hr => .inl hr

theorem Bookkept.connectCallback (h : w.Bookkept) (ok : Bool) :
    (w.connectCallback ok).Bookkept := by
  rw [World.connectCallback]
  split_ifs
  · exact h.connChanged rfl rfl rfl rfl fun r hr => destroyed_halt hr
  · exact h.connChanged rfl rfl rfl rfl fun r hr => .inl hr
  · exact h.connChanged rfl rfl rfl rfl fun r hr => .inl hr

/-- A context that is freed has no callback left. -/
theorem Bookkept.forget (h : w.Bookkept) {dtor : Bool}
    (hstack : w.stack = ⟨c, .free dtor, none⟩ :: rest) (hc : w.contexts c = some ac)
    (hreplies : ac.replies = []) (hdtor : dtor = true → w.life = .dying) :
    Bookkept { w with
      contexts := Function.update w.contexts c none, stack := rest
      life := if dtor then .dead else w.life } := by
  have hpending : w.ledger.pending c = [] := by
    rw [pending_ledger hc, AsyncContext.pending, hreplies]
    rfl
  have hledger : ({ w with
      contexts := Function.update w.contexts c none, stack := rest
      life := if dtor then .dead else w.life } : World).ledger = w.ledger := by
    have hupdate : Function.update w.ledger.pending c [] = w.ledger.pending := by
      rw [← hpending, Function.update_eq_self]
    rw [← show { w.ledger with
      pending := Function.update w.ledger.pending c [], running := w.ledger.running } = w.ledger by
        rw [hupdate], running_ledger hstack]
    simp only [ledger, map_pending_update]
    rfl
  refine ⟨hledger ▸ h.balanced, fun d k hd => ?_, h.halted, fun hspent => ?_, fun hdying => ?_⟩
  · have hd : Function.update w.contexts c none d = some k := hd
    by_cases hdc : d = c
    · rw [hdc, Function.update_self] at hd
      cases hd
    · rw [Function.update_of_ne hdc] at hd
      exact h.plain d k hd
  · cases dtor with
    | true => exact h.spent (by simp [hdtor rfl])
    | false => exact h.spent hspent
  · cases dtor with
    | true => cases hdying
    | false =>
      -- the destructor is the innermost call
      obtain ⟨d, k, rest', htop, -⟩ := h.dtor hdying
      rw [hstack] at htop
      cases htop

theorem disconnectCallback_stack (w : World) : w.disconnectCallback.stack = w.stack := by
  rw [disconnectCallback]
  split_ifs <;> rfl

theorem disconnectCallback_contexts (w : World) : w.disconnectCallback.contexts = w.contexts := by
  rw [disconnectCallback]
  split_ifs <;> rfl

theorem disconnectCallback_life (w : World) : w.disconnectCallback.life = w.life := by
  rw [disconnectCallback]
  split_ifs <;> rfl

/-- A context is freed when no data is pending in it. -/
theorem Bookkept.finishFree (h : w.Bookkept) (hs : w.links.Sound) {dtor : Bool}
    (hstack : w.stack = ⟨c, .free dtor, none⟩ :: rest) (hc : w.contexts c = some ac)
    (hreplies : ac.replies = []) : (w.finishFree c ac dtor rest).Bookkept := by
  have hdtor : dtor = true → w.life = .dying := by
    rintro rfl
    exact (hs.linked.dtor c ⟨false, by rw [links_calls hstack]; exact List.mem_cons_self ..⟩).1
  rw [World.finishFree]
  by_cases hcall : (ac.attached && ac.connected) = true
  · rw [if_pos hcall]
    refine h.disconnectCallback.forget ?_ ?_ hreplies ?_
    · rw [disconnectCallback_stack, hstack]
    · rw [disconnectCallback_contexts, hc]
    · rw [disconnectCallback_life]
      exact hdtor
  · rw [if_neg hcall]
    exact h.forget hstack hc hreplies hdtor

/-- A reading goes on. -/
theorem Bookkept.process (h : w.Bookkept) (hs : w.links.Sound) {cb : RedisCallback OptPtr}
    {rs : List Reply} {stop : ReadEnd} (hstack : w.stack = ⟨c, .process cb rs stop, none⟩ :: rest)
    (hc : w.contexts c = some ac) : (w.process c ac cb rs stop rest).Bookkept := by
  have hac := h.plain c ac hc
  have hrunning : w.stack.filterMap Frame.running = rest.filterMap Frame.running := by
    simp [hstack]
  have hlife : w.life ≠ .dying := h.not_dying (by simp [hstack])
  have hpop : ({ w with stack := rest } : World).Bookkept := by
    have hledger : ({ w with stack := rest } : World).ledger = w.ledger :=
      congrArg (fun l => { w.ledger with running := l }) hrunning.symm
    exact ⟨hledger ▸ h.balanced, h.plain, h.halted, h.spent, fun hdying => absurd hdying hlife⟩
  cases rs with
  | nil =>
    cases stop with
    | failed => exact h.asyncDisconnect hlife hc hac.flags rfl hrunning
    | stop flushed =>
      simp only [World.process]
      split_ifs with hend hmonitor
      · exact h.asyncDisconnect hlife hc hac rfl hrunning
      · rw [hac.monitoring] at hmonitor
        cases hmonitor
      · exact hpop
  | cons r rs =>
    cases hreplies : ac.replies with
    | cons cb replies =>
      simp only [World.process, hreplies]
      exact h.runCallback hs hlife hstack hc hreplies
    | nil =>
      simp only [World.process, hreplies]
      split_ifs with herror hsubscribed hmonitor
      · rw [← hreplies]
        exact h.asyncDisconnect hlife hc hac.flags rfl hrunning
      · rw [hac.subscribed] at hsubscribed
        cases hsubscribed
      · rw [hac.monitoring] at hmonitor
        cases hmonitor
      · exact h.assertion

/-- A plain context without replies has no callback pending. -/
theorem nextPending_plain (hac : ac.Plain) (hreplies : ac.replies = []) :
    ac.nextPending = none := by
  simp [AsyncContext.nextPending, hreplies, hac.invalid, hac.channels, hac.patterns]

/-- A call that goes on keeps the account of the data. -/
theorem Bookkept.go (h : w.Bookkept) (hs : w.links.Sound)
    (hstack : w.stack = ⟨c, call, none⟩ :: rest) : (w.go ⟨c, call, none⟩ rest).Bookkept := by
  obtain ⟨ac, hc⟩ := context_of_stack hs hstack
  cases call with
  | process cb rs stop =>
    simp only [World.go, hc]
    exact h.process hs hstack hc
  | free dtor =>
    cases hreplies : ac.replies with
    | nil =>
      simp only [World.go, hc, nextPending_plain (h.plain c ac hc) hreplies]
      exact h.finishFree hs hstack hc hreplies
    | cons cb replies =>
      have hnext : ac.nextPending = some (cb, { ac with replies := replies }) := by
        simp [AsyncContext.nextPending, hreplies]
      have hlife : w.life ≠ .dying := by
        intro hdying
        obtain ⟨d, k, rest', htop, hk, hnone⟩ := h.dtor hdying
        rw [hstack] at htop
        obtain rfl : c = d := congrArg Frame.context (List.cons.inj htop).1
        obtain rfl := Option.some.inj (hc.symm.trans hk)
        rw [hnone] at hreplies
        cases hreplies
      simp only [World.go, hc, hnext]
      exact h.runCallback hs hlife hstack hc hreplies

/-! ## Events -/

/-- A change of a context that leaves its pending data keeps the account. -/
theorem Bookkept.setContext (h : w.Bookkept) (hlife : w.life ≠ .dying)
    (hc : w.contexts c = some ac) (hac : ac'.Plain) (hp : ac'.pending = ac.pending) :
    (w.setContext c ac').Bookkept :=
  ⟨ledger_setContext_of_pending hc hp ▸ h.balanced, plain_update h hac, h.halted, h.spent,
    fun hdying => absurd hdying hlife⟩

theorem Bookkept.handleRead (h : w.Bookkept) (hidle : w.stack = []) (hc : w.contexts c = some ac)
    (read : ReadResult) : (w.handleRead c ac read).Bookkept := by
  have hlife : w.life ≠ .dying := h.not_dying (by simp [hidle])
  cases read with
  | failed => exact h.asyncDisconnect hlife hc (h.plain c ac hc).flags rfl (by rw [hidle])
  | replies rs stop =>
    have hledger : ({ w with stack := [⟨c, .process .null rs stop, none⟩] } : World).ledger =
        w.ledger := by
      simp [ledger, hidle]
    exact ⟨hledger ▸ h.balanced, h.plain, h.halted, h.spent, fun hdying => absurd hdying hlife⟩

theorem Bookkept.handleWrite (h : w.Bookkept) (hidle : w.stack = []) (hc : w.contexts c = some ac)
    (ok : Bool) : (w.handleWrite c ac ok).Bookkept := by
  cases ok with
  | true => exact h
  | false => exact h.handleRead hidle hc .failed

/-- An event of the socket keeps it, if what follows the connection check does. -/
theorem Bookkept.handleEvent (h : w.Bookkept) (hidle : w.stack = [])
    (hc : w.contexts c = some ac) (sock : SocketCheck) {k : World → AsyncContext OptPtr → World}
    (hk : ∀ (w : World) (ac : AsyncContext OptPtr), w.Bookkept → w.stack = [] →
      w.contexts c = some ac → (k w ac).Bookkept) : (w.handleEvent c ac sock k).Bookkept := by
  have hac := h.plain c ac hc
  rw [World.handleEvent]
  by_cases hconnected : ac.connected = true
  · rw [if_pos hconnected]
    exact hk w ac h hidle hc
  · rw [if_neg hconnected]
    cases sock with
    | inProgress => exact h
    | failed =>
      have hconnect := h.connectCallback false
      have hstack : (w.connectCallback false).stack = [] := by rw [connectCallback_stack, hidle]
      have hc' : (w.connectCallback false).contexts c = some ac := by
        rw [connectCallback_contexts, hc]
      have hlife := hconnect.not_dying (by simp [hstack])
      have herr : ({ ac with err := true } : AsyncContext OptPtr).Plain := hac.flags
      exact hconnect.asyncDisconnect hlife hc' herr rfl (by rw [hstack])
    | ok =>
      have hconn : ({ ac with connected := true } : AsyncContext OptPtr).Plain := hac.flags
      have hset := h.setContext (h.not_dying (by simp [hidle])) hc hconn rfl
      refine hk _ _ (hset.connectCallback true) ?_ ?_
      · rw [handleConnect, connectCallback_stack]
        exact hidle
      · rw [handleConnect, connectCallback_contexts]
        exact Function.update_self ..

/-- The same for an event of any context, there or not. -/
theorem Bookkept.event (h : w.Bookkept) (c : ContextPtr) (sock : SocketCheck)
    {k : World → AsyncContext OptPtr → World}
    (hk : ∀ (w : World) (ac : AsyncContext OptPtr), w.Bookkept → w.stack = [] →
      w.contexts c = some ac → (k w ac).Bookkept) : (w.event c sock k).Bookkept := by
  cases hc : w.contexts c with
  | none =>
    simp only [World.event, hc]
    exact h
  | some ac =>
    simp only [World.event, hc]
    split_ifs with hev
    · exact h.handleEvent hev.1 hc sock hk
    · exact h

/-! ## The object -/

/-- A change of the object alone. -/
theorem Bookkept.conn (h : w.Bookkept) {conn : RedisConn} {status : Bool}
    (hnew : conn.newOpt = w.conn.newOpt) :
    Bookkept { w with conn := conn, status := status } := by
  have hledger : ({ w with conn := conn, status := status } : World).ledger = w.ledger :=
    congrArg (fun o => { w.ledger with fresh := o }) hnew
  exact ⟨hledger ▸ h.balanced, h.plain, h.halted, fun hspent => hnew.trans (h.spent hspent), h.dtor⟩

/-- A new context is plain. -/
theorem plain_init (host : Arg) (port : Int) (err attached : Bool) :
    AsyncContext.Plain { AsyncContext.init host port err with attached := attached } :=
  ⟨rfl, rfl, rfl, rfl, rfl, by simp [AsyncContext.init], fun _ => rfl⟩

/-- A new context has no data pending. -/
theorem Bookkept.newContext (h : w.Bookkept) (hs : w.links.Sound) (hlife : w.life = .alive)
    (hac : ac.Plain) (hnone : ac.replies = []) : (w.newContext ac).Bookkept := by
  have hfresh : w.contexts w.obtained = none := by
    simpa [links] using hs.stacked.fresh w.obtained (Nat.le_refl _)
  have hpending : w.ledger.pending w.obtained = [] := by simp [ledger, hfresh]
  have hledger :
      (w.newContext ac).ledger = { w.ledger with obtained := w.ledger.obtained + 1 } := by
    have hupdate : Function.update w.ledger.pending w.obtained [] = w.ledger.pending := by
      rw [← hpending, Function.update_eq_self]
    have hk : ((some ac).map AsyncContext.pending).getD [] = [] := by
      simp [AsyncContext.pending, hnone]
    simp only [World.newContext, ledger, map_pending_update, hk]
    exact congrArg (fun p => { w.ledger with pending := p, obtained := w.obtained + 1 }) hupdate
  refine ⟨hledger ▸ h.balanced.obtain hpending, plain_update h hac, h.halted, ?_, ?_⟩
  · exact fun hspent => absurd hlife hspent
  · exact fun hdying => absurd (hlife.symm.trans hdying) (by simp)

theorem Bookkept.connect (h : w.Bookkept) (hs : w.links.Sound) (hlife : w.life = .alive)
    (ans : ConnectAnswer) : (w.connect ans).Bookkept := by
  by_cases hinit : w.conn.state = .init
  · cases ans with
    | noLoop => exact connect_noLoop (w := w) ▸ h.conn rfl
    | null => exact connect_null hinit ▸ h.conn rfl
    | err =>
      have hnew := h.newContext hs hlife (plain_init w.conn.host w.conn.port true false) rfl
      exact connect_err hinit ▸ hnew.conn rfl
    | good =>
      have hnew := h.newContext hs hlife (plain_init w.conn.host w.conn.port false true) rfl
      exact connect_good hinit ▸ hnew.conn rfl
  · exact connect_of_ne hinit ans ▸ h.conn rfl

theorem Bookkept.init (h : w.Bookkept) (hs : w.links.Sound) (hlife : w.life = .alive) (ip : Arg)
    (port : Int) (ans : ConnectAnswer) : (w.init ip port ans).Bookkept := by
  rw [World.init]
  split_ifs
  · exact h.conn rfl
  · have hconn : Bookkept { w with conn := { w.conn with port := port, host := ip } } := h.conn rfl
    exact hconn.connect hs hlife ans

/-- New data is accounted for as fresh. -/
theorem Bookkept.createOpt (h : w.Bookkept) (hlife : w.life = .alive) : w.createOpt.Bookkept := by
  have hmake := h.balanced.make
  cases hnew : w.conn.newOpt with
  | none =>
    have hfresh : w.ledger.fresh = none := hnew
    rw [hfresh, Option.toList_none, List.append_nil] at hmake
    simp only [World.createOpt, hnew]
    refine ⟨hmake, h.plain, h.halted, fun hspent => absurd hlife hspent, h.dtor⟩
  | some o =>
    have hfresh : w.ledger.fresh = some o := hnew
    have hnot : o ∉ w.deleted := h.balanced.not_deleted (Ledger.mem_held_fresh hfresh)
    rw [hfresh, Option.toList_some] at hmake
    simp only [World.createOpt, hnew, deleteOpt_of_not_mem hnot]
    refine ⟨hmake, h.plain, h.halted, fun hspent => absurd hlife hspent, h.dtor⟩

/-- What a command that reaches hiredis needs: an object, a context in the event loop that is
not going down, and one reply. -/
def Accepts (ac : AsyncContext OptPtr) (cbData : Option OptPtr) (args : List Arg) : Prop :=
  cbData ≠ none ∧ ac.attached = true ∧ ac.disconnecting = false ∧ plainCommand args = true

instance (ac : AsyncContext OptPtr) (cbData : Option OptPtr) (args : List Arg) :
    Decidable (Accepts ac cbData args) :=
  inferInstanceAs (Decidable (_ ∧ _ ∧ _ ∧ _))

/-- A command takes the new object with it. -/
theorem Bookkept.submit (h : w.Bookkept) (hs : w.links.Sound) (hlife : w.life = .alive)
    (hc : w.contexts c = some ac) (ho : w.conn.newOpt = some o) (hattached : ac.attached = true)
    (status : Bool) :
    Bookkept { w.setContext c { ac with replies := ac.replies ++ [.call (some o)] } with
      conn := { w.conn with newOpt := none }, status := status } := by
  have hac := h.plain c ac hc
  have hplain : AsyncContext.Plain { ac with replies := ac.replies ++ [.call (some o)] } := by
    refine ⟨hac.subscribed, hac.monitoring, hac.invalid, hac.channels, hac.patterns,
      fun cb hcb => ?_, fun hbare => absurd (hattached.symm.trans hbare) (by simp)⟩
    rcases List.mem_append.mp hcb with hcb | hcb
    · exact hac.replies cb hcb
    · exact ⟨o, List.mem_singleton.mp hcb⟩
  have hpending : AsyncContext.pending { ac with replies := ac.replies ++ [.call (some o)] } =
      w.ledger.pending c ++ [o] := by
    rw [pending_ledger hc]
    simp [AsyncContext.pending, RedisCallback.opt]
  have hledger : ({ w.setContext c { ac with replies := ac.replies ++ [.call (some o)] } with
      conn := { w.conn with newOpt := none }, status := status } : World).ledger =
        { w.ledger with
          fresh := none
          pending := Function.update w.ledger.pending c (w.ledger.pending c ++ [o]) } := by
    rw [← hpending]
    exact congrArg (fun a : Ledger => { a with fresh := none }) (ledger_setContext w c _)
  refine ⟨hledger ▸ h.balanced.submit ho (lt_obtained_of_context hs hc), plain_update h hplain,
    h.halted, fun hspent => absurd hlife hspent, ?_⟩
  exact fun hdying => absurd (hlife.symm.trans hdying) (by simp)

/-- The object does not point to a freed context. -/
theorem context_of_pointer (hs : w.links.Sound) (hlife : w.life ≠ .dead)
    (hptr : w.conn.aeContext = some c) : ∃ ac, w.contexts c = some ac := by
  obtain ⟨l, hl⟩ := hs.linked.pointer hlife c hptr
  cases hc : w.contexts c with
  | none => simp [links, hc] at hl
  | some ac => exact ⟨ac, rfl⟩

/-- A command that reaches hiredis. -/
theorem Bookkept.command (h : w.Bookkept) (hs : w.links.Sound) (hlife : w.life = .alive)
    (hptr : w.conn.aeContext = some c) {args : List Arg}
    (hg : ∀ ac, w.contexts c = some ac → Accepts ac w.conn.newOpt args) :
    let w' := w.redisAsyncCommand c w.conn.newOpt args
    Bookkept { w' with conn := { w'.conn with newOpt := none } } := by
  obtain ⟨ac, hc⟩ := context_of_pointer hs (by simp [hlife]) hptr
  obtain ⟨hnew, hattached, hopen, hplain⟩ := hg ac hc
  obtain ⟨o, ho⟩ := Option.ne_none_iff_exists'.mp hnew
  have hcommand := (h.plain c ac hc).command hopen hplain (some o)
  simp only [redisAsyncCommand, hc, ho, hcommand]
  exact h.submit hs hlife hc ho hattached true

/-- A command moves the fresh data to the end of its context's queue. -/
theorem Bookkept.redisAsyncCmd (h : w.Bookkept) (hs : w.links.Sound) (hlife : w.life = .alive)
    {cbData : Option OptPtr} {args : List Arg}
    (hg : cbData = w.conn.newOpt → ∀ c ac, w.conn.aeContext = some c → w.contexts c = some ac →
      Accepts ac cbData args) : (w.redisAsyncCmd cbData args).Bookkept := by
  cases hptr : w.conn.aeContext with
  | none =>
    simp only [World.redisAsyncCmd, hptr]
    exact h.conn rfl
  | some c =>
    simp only [World.redisAsyncCmd, hptr]
    split_ifs with hcb
    · exact h.conn rfl
    · obtain rfl := not_not.mp hcb
      exact h.command hs hlife hptr (hg rfl c · hptr)

/-- The call and the reset of `m_new_opt` come in either order. -/
theorem redisAsyncCommand_newOpt (w : World) (c : ContextPtr) (cbData : Option OptPtr)
    (args : List Arg) :
    { w with conn := { w.conn with newOpt := none } }.redisAsyncCommand c cbData args =
      let w' := w.redisAsyncCommand c cbData args
      { w' with conn := { w'.conn with newOpt := none } } := by
  cases hc : w.contexts c with
  | none =>
    simp only [redisAsyncCommand, hc]
    rfl
  | some ac =>
    cases hcommand : ac.command cbData args <;> simp only [redisAsyncCommand, hc, hcommand] <;> rfl

/-- Both ways to send a command are one on its arguments. -/
theorem redisAsyncCmdArgv_eq (w : World) (cbData : Option OptPtr) (args : List Arg) :
    w.redisAsyncCmdArgv cbData args = w.redisAsyncCmd cbData args := by
  cases hptr : w.conn.aeContext with
  | none => simp only [redisAsyncCmdArgv, World.redisAsyncCmd, hptr]
  | some c =>
    simp only [redisAsyncCmdArgv, World.redisAsyncCmd, hptr]
    split_ifs
    · rfl
    · rw [← hptr]
      exact redisAsyncCommand_newOpt w c cbData args

/-- A destructor that leaves no object behind. -/
theorem Bookkept.destroy (h : w.Bookkept) (hs : w.links.Sound) (hlife : w.life = .alive)
    (hnew : w.conn.newOpt = none) : w.destroy.Bookkept := by
  cases hptr : w.conn.aeContext with
  | none =>
    simp only [World.destroy, hptr]
    exact ⟨h.balanced, h.plain, h.halted, fun _ => hnew, fun hdying => absurd hdying (by simp)⟩
  | some c =>
    obtain ⟨ac, hc⟩ := context_of_pointer hs (by simp [hlife]) hptr
    have hplain : AsyncContext.Plain { ac with disconnecting := true } := (h.plain c ac hc).flags
    have hledger : (w.setContext c { ac with disconnecting := true }).ledger = w.ledger :=
      ledger_setContext_of_pending hc rfl
    simp only [World.destroy, hptr, hc]
    by_cases hquiet : (!ac.inCallback && ac.replies.isEmpty) = true
    · have hreplies : ac.replies = [] := by simpa using (Bool.and_eq_true_iff.mp hquiet).2
      have hframe : Bookkept { w.setContext c { ac with disconnecting := true } with
          life := .dying, stack := ⟨c, .free true, none⟩ :: w.stack } := by
        refine ⟨?_, plain_update h hplain, h.halted, fun _ => hnew, fun _ => ?_⟩
        · exact hledger ▸ h.balanced
        · exact ⟨c, _, w.stack, rfl, Function.update_self .., hreplies⟩
      rw [if_pos hquiet, World.asyncDisconnect]
      split_ifs
      · exact hframe
      · exact hframe
    · rw [if_neg hquiet]
      refine ⟨?_, plain_update h hplain, h.halted, fun _ => hnew, fun hdying => ?_⟩
      · exact hledger ▸ h.balanced
      · cases hdying

end World

end ServerCom.Redis
