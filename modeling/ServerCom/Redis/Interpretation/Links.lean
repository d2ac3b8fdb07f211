import ServerCom.Redis.Native.RedisConn

/-!
# Pointers between the object and its contexts

What is left of a world without commands and replies: the pointer to the context and the
state of the object, which contexts exist and can call back into it, and the calls in
progress. Every move of hiredis on the world is a sequence of moves on these links.
-/

namespace ServerCom.Redis

/-- A context, as far as it can reach the object. -/
structure Link where
  /-- `redisAeAttach` was done, and it points to the object. -/
  attached : Bool
  /-- `REDIS_CONNECTED`. -/
  connected : Bool
  /-- `REDIS_IN_CALLBACK`. -/
  inCallback : Bool
  deriving DecidableEq, Repr

/-- A call in progress: reading, or freeing for the destructor or not. -/
structure Doing where
  /-- Its context. -/
  context : ContextPtr
  /-- `none` for a reading. -/
  freeing : Option Bool
  /-- The user's code runs in it. -/
  running : Bool
  deriving DecidableEq, Repr

/-- The object and its contexts. -/
structure Links where
  /-- `m_pAeContext`. -/
  pointer : Option ContextPtr
  /-- `m_state`. -/
  state : State
  /-- The life of the object. -/
  life : Life
  /-- The contexts that are not freed. -/
  contexts : ContextPtr → Option Link
  /-- How many contexts were obtained. -/
  obtained : Nat
  /-- The calls in progress. -/
  calls : List Doing
  /-- The destroyed object was called back. -/
  stray : Bool

/-- The link of a context. -/
def AsyncContext.link (ac : AsyncContext OptPtr) : Link :=
  ⟨ac.attached, ac.connected, ac.inCallback⟩

/-- What a call does with its context. -/
def Call.freeing : Call → Option Bool
  | .process .. => none
  | .free dtor => some dtor

/-- The outline of a call in progress. -/
def Frame.doing (f : Frame) : Doing := ⟨f.context, f.call.freeing, f.running.isSome⟩

/-- The links of a world. -/
def World.links (w : World) : Links where
  pointer := w.conn.aeContext
  state := w.conn.state
  life := w.life
  contexts c := (w.contexts c).map AsyncContext.link
  obtained := w.obtained
  calls := w.stack.map Frame.doing
  stray := w.halted = some .destroyed

namespace Links

/-- A context changes. -/
def set (a : Links) (c : ContextPtr) (l : Link) : Links :=
  { a with contexts := Function.update a.contexts c (some l) }

/-- The user's code in the innermost call starts or returns. -/
def turn (a : Links) (c : ContextPtr) (freeing : Option Bool) (rest : List Doing) (l : Link)
    (running : Bool) : Links :=
  { a.set c { l with inCallback := running } with calls := ⟨c, freeing, running⟩ :: rest }

/-- `Connect` in `S_INIT`. -/
def connect (a : Links) : ConnectAnswer → Links
  | .noLoop => a
  | .null => { a with pointer := none }
  | .err => { a.set a.obtained ⟨false, false, false⟩ with
      pointer := some a.obtained, obtained := a.obtained + 1 }
  | .good => { a.set a.obtained ⟨true, false, false⟩ with
      pointer := some a.obtained, obtained := a.obtained + 1, state := .connectiing }

/-- `ConnectCallback`. -/
def onConnect (a : Links) (ok : Bool) : Links :=
  if a.life = .dead then { a with stray := true }
  else if ok then { a with state := .proc }
  else { a with state := .init, pointer := none }

/-- A dead object that is called back goes astray. -/
theorem onConnect_of_dead {a : Links} (hdead : a.life = .dead) (ok : Bool) :
    a.onConnect ok = { a with stray := true } := if_pos hdead

/-- Connected, the object is in `S_PROC`. -/
theorem onConnect_true {a : Links} (hlife : a.life ≠ .dead) :
    a.onConnect true = { a with state := .proc } := by
  rw [onConnect, if_neg hlife, if_pos rfl]

/-- Refused, the object is in `S_INIT` again and forgets the context. -/
theorem onConnect_false {a : Links} (hlife : a.life ≠ .dead) :
    a.onConnect false = { a with state := .init, pointer := none } := by
  rw [onConnect, if_neg hlife, if_neg Bool.false_ne_true]

/-- `DisconnectCallback`. -/
def onDisconnect (a : Links) : Links :=
  if a.life = .dead then { a with stray := true } else { a with state := .init, pointer := none }

/-- The end of `__redisAsyncFree`. -/
def finish (a : Links) (c : ContextPtr) (l : Link) (dtor : Bool) (rest : List Doing) : Links :=
  let a := if l.attached && l.connected then a.onDisconnect else a
  { a with
    contexts := Function.update a.contexts c none
    calls := rest
    life := if dtor then .dead else a.life }

/-- The destructor, up to the return of `redisAsyncDisconnect` or to its first callback. -/
inductive Destroy (a : Links) : Links → Prop where
  /-- There is nothing to free, or `redisAsyncDisconnect` defers it. -/
  | leave : Destroy a { a with life := .dead }
  /-- The context is freed at once. -/
  | free {c : ContextPtr} {l : Link} (pointer : a.pointer = some c)
      (context : a.contexts c = some l)
      (outside : l.inCallback = false) :
      Destroy a { a with life := .dying, calls := ⟨c, some true, false⟩ :: a.calls }

/-- A move of hiredis. -/
inductive Work (a : Links) : Links → Prop where
  /-- A connection is there. -/
  | connected {c : ContextPtr} {b : Bool} (idle : a.calls = [])
      (context : a.contexts c = some ⟨true, false, b⟩) :
      Work a ((a.set c ⟨true, true, b⟩).onConnect true)
  /-- A connection is refused. -/
  | refused {c : ContextPtr} {b : Bool} (idle : a.calls = [])
      (context : a.contexts c = some ⟨true, false, b⟩) :
      Work a { a.onConnect false with calls := [⟨c, some false, false⟩] }
  /-- A connected context is read or lost. -/
  | enter {c : ContextPtr} {b : Bool} (freeing : Option Bool) (plain : freeing ≠ some true)
      (idle : a.calls = []) (context : a.contexts c = some ⟨true, true, b⟩) :
      Work a { a with calls := [⟨c, freeing, false⟩] }
  /-- A reading ends the connection. -/
  | fail {c : ContextPtr} {rest : List Doing} (top : a.calls = ⟨c, none, false⟩ :: rest) :
      Work a { a with calls := ⟨c, some false, false⟩ :: rest }
  /-- A reading is over. -/
  | leave {c : ContextPtr} {rest : List Doing} (top : a.calls = ⟨c, none, false⟩ :: rest) :
      Work a { a with calls := rest }
  /-- A callback is run. -/
  | run {c : ContextPtr} {freeing : Option Bool} {rest : List Doing} {l : Link}
      (top : a.calls = ⟨c, freeing, false⟩ :: rest) (context : a.contexts c = some l) :
      Work a (a.turn c freeing rest l true)
  /-- A callback returns. -/
  | ret {c : ContextPtr} {freeing : Option Bool} {rest : List Doing} {l : Link}
      (top : a.calls = ⟨c, freeing, true⟩ :: rest) (context : a.contexts c = some l) :
      Work a (a.turn c freeing rest l false)
  /-- A context is freed. -/
  | finish {c : ContextPtr} {dtor : Bool} {rest : List Doing} {l : Link}
      (top : a.calls = ⟨c, some dtor, false⟩ :: rest) (context : a.contexts c = some l) :
      Work a (a.finish c l dtor rest)

end Links

open Relation

/-! ## The operations on the links -/

namespace AsyncContext

variable {ac ac' : AsyncContext OptPtr} {cb cb' : RedisCallback OptPtr}

/-- A command leaves the link of its context. -/
theorem link_command {privdata : Option OptPtr} {args : List Arg}
    (h : ac.command privdata args = .ok ac') : ac'.link = ac.link := by
  cases args with
  | nil =>
    simp only [command] at h
    split_ifs at h
  | cons cmd names =>
    simp only [command] at h
    split_ifs at h <;> cases h <;> rfl

/-- A callback that is taken off the queue leaves the link. -/
theorem link_nextPending (h : ac.nextPending = some (cb, ac')) : ac'.link = ac.link := by
  cases hreplies : ac.replies with
  | cons =>
    simp only [nextPending, hreplies, Option.some.injEq, Prod.mk.injEq] at h
    obtain ⟨-, rfl⟩ := h
    rfl
  | nil =>
    cases hinvalid : ac.invalid with
    | cons =>
      simp only [nextPending, hreplies, hinvalid, Option.some.injEq, Prod.mk.injEq] at h
      obtain ⟨-, rfl⟩ := h
      rfl
    | nil =>
      cases hchannels : ac.channels with
      | cons =>
        simp only [nextPending, hreplies, hinvalid, hchannels, Option.some.injEq,
          Prod.mk.injEq] at h
        obtain ⟨-, rfl⟩ := h
        rfl
      | nil =>
        cases hpatterns : ac.patterns with
        | cons =>
          simp only [nextPending, hreplies, hinvalid, hchannels, hpatterns, Option.some.injEq,
            Prod.mk.injEq] at h
          obtain ⟨-, rfl⟩ := h
          rfl
        | nil => simp [nextPending, hreplies, hinvalid, hchannels, hpatterns] at h

/-- So does one taken off behind an unsubscribed channel. -/
theorem link_shiftInvalid (h : ac.shiftInvalid cb = (cb', ac')) : ac'.link = ac.link := by
  cases hinvalid : ac.invalid with
  | nil =>
    simp only [shiftInvalid, hinvalid, Prod.mk.injEq] at h
    rw [h.2]
  | cons =>
    simp only [shiftInvalid, hinvalid, Prod.mk.injEq] at h
    rw [← h.2]
    rfl

/-- So does the search for a channel's callback. -/
theorem link_getSubscribeCallback {r : Reply}
    (h : ac.getSubscribeCallback cb r = some (cb', ac')) : ac'.link = ac.link := by
  cases r with
  | error => exact link_shiftInvalid (Option.some.inj h)
  | other => exact link_shiftInvalid (Option.some.inj h)
  | array msg =>
    cases msg with
    | none => cases h
    | some m =>
      cases hfound : (if m.pvariant then ac.patterns else ac.channels).lookup m.sname with
      | none =>
        simp only [getSubscribeCallback, hfound, Option.some.injEq, Prod.mk.injEq] at h
        rw [h.2]
      | some cb =>
        simp only [getSubscribeCallback, hfound] at h
        split_ifs at h <;> cases h <;> rfl

end AsyncContext

namespace World

variable {w : World} {c : ContextPtr} {ac ac' : AsyncContext OptPtr} {rest : List Frame}

/-- A halt is seen in the links only at the dead object. -/
theorem links_halt {h : Halt} (hh : h ≠ .destroyed) : (w.halt h).links = w.links := by
  rw [halt, links, links, Links.mk.injEq]
  cases hw : w.halted <;> simp [hh]

/-- A call of the dead object goes astray. -/
theorem links_halt_destroyed (hrun : w.halted = none) :
    (w.halt .destroyed).links = { w.links with stray := true } := by
  rw [halt, links, links, Links.mk.injEq]
  simp [hrun]

/-- The links behind a change of one context. -/
theorem map_link_update (f : ContextPtr → Option (AsyncContext OptPtr)) (c : ContextPtr)
    (x : Option (AsyncContext OptPtr)) :
    (fun d => (Function.update f c x d).map AsyncContext.link) =
      Function.update (fun d => (f d).map AsyncContext.link) c (x.map AsyncContext.link) :=
  Function.comp_update (Option.map AsyncContext.link) f c x

/-- A changed context changes its own link only. -/
theorem links_setContext : (w.setContext c ac).links = w.links.set c ac.link := by
  simp only [setContext, links, Links.set, map_link_update, Option.map_some]
  rfl

/-- The link of a context that is there. -/
theorem contexts_links (hc : w.contexts c = some ac) : w.links.contexts c = some ac.link := by
  simp [links, hc]

/-- A change that leaves the link leaves the links. -/
theorem links_setContext_of_link (hc : w.contexts c = some ac) (hl : ac'.link = ac.link) :
    (w.setContext c ac').links = w.links := by
  rw [links_setContext, hl, Links.set, ← contexts_links hc, Function.update_eq_self]

theorem links_deleteOpt (o : OptPtr) : (w.deleteOpt o).links = w.links := by
  rw [deleteOpt]
  split_ifs
  · exact links_halt (by decide)
  · rfl

/-! ### The object -/

/-- Without an event loop `Connect` does nothing. -/
theorem connect_noLoop : w.connect .noLoop = { w with status := false } := by
  simp [connect]

/-- Outside of `S_INIT` `Connect` does nothing. -/
theorem connect_of_ne (hstate : w.conn.state ≠ .init) (ans : ConnectAnswer) :
    w.connect ans = { w with status := false } := by
  simp [connect, hstate]

/-- Without memory there is no context. -/
theorem connect_null (hinit : w.conn.state = .init) :
    w.connect .null =
      { w with conn := { w.conn with aeContext := none }, status := false } := by
  simp [connect, hinit]

/-- A context with `err` set is kept, outside of the event loop. -/
theorem connect_err (hinit : w.conn.state = .init) :
    w.connect .err =
      { w.newContext (.init w.conn.host w.conn.port true) with status := false } := by
  simp [connect, hinit]

/-- A context without error is attached, and the object leaves `S_INIT`. -/
theorem connect_good (hinit : w.conn.state = .init) :
    w.connect .good =
      let w' :=
        w.newContext { AsyncContext.init w.conn.host w.conn.port false with attached := true }
      { w' with conn := { w'.conn with state := .connectiing }, status := true } := by
  simp [connect, hinit]

/-- `Connect` on the links. -/
theorem links_connect (ans : ConnectAnswer) :
    (w.connect ans).links = if w.conn.state = .init then w.links.connect ans else w.links := by
  by_cases hinit : w.conn.state = .init
  · rw [if_pos hinit]
    cases ans with
    | noLoop => rw [connect_noLoop]; rfl
    | null => rw [connect_null hinit]; rfl
    | err =>
      rw [connect_err hinit]
      simp only [newContext, links, Links.connect, Links.set, map_link_update]
      rfl
    | good =>
      rw [connect_good hinit]
      simp only [newContext, links, Links.connect, Links.set, map_link_update]
      rfl
  · rw [if_neg hinit, connect_of_ne hinit]
    rfl

/-- `Init` connects only from port `0`, that is once. -/
theorem links_init (ip : Arg) (port : Int) (ans : ConnectAnswer) :
    (w.init ip port ans).links =
      if w.conn.port = 0 ∧ w.conn.state = .init then w.links.connect ans else w.links := by
  rw [init]
  by_cases hport : w.conn.port = 0
  · rw [if_neg (not_not.mpr hport), links_connect]
    simp only [hport, true_and]
    rfl
  · rw [if_pos hport, if_neg (fun h => hport h.1)]
    rfl

/-- The timer connects in `S_INIT`. -/
theorem links_tryReconnectTimer (ans : ConnectAnswer) :
    (w.tryReconnectTimer ans).links =
      if w.conn.state = .init then w.links.connect ans else w.links := by
  rw [tryReconnectTimer]
  by_cases hinit : w.conn.state = .init
  · rw [if_neg (not_not.mpr hinit), links_connect]
  · rw [if_pos hinit, if_neg hinit]

/-- `ConnectCallback` on the links. -/
theorem links_connectCallback (hrun : w.halted = none) (ok : Bool) :
    (w.connectCallback ok).links = w.links.onConnect ok := by
  rw [connectCallback, Links.onConnect]
  by_cases hdead : w.life = .dead
  · rw [if_pos hdead, if_pos (show w.links.life = .dead from hdead), links_halt_destroyed hrun]
  · rw [if_neg hdead, if_neg (show ¬ w.links.life = .dead from hdead)]
    cases ok <;> rfl

/-- `DisconnectCallback` on the links. -/
theorem links_disconnectCallback (hrun : w.halted = none) :
    w.disconnectCallback.links = w.links.onDisconnect := by
  rw [disconnectCallback, Links.onDisconnect]
  by_cases hdead : w.life = .dead
  · rw [if_pos hdead, if_pos (show w.links.life = .dead from hdead), links_halt_destroyed hrun]
  · rw [if_neg hdead, if_neg (show ¬ w.links.life = .dead from hdead)]
    rfl

theorem links_createOpt : w.createOpt.links = w.links := by
  cases hnew : w.conn.newOpt with
  | none => simp only [createOpt, hnew]; rfl
  | some o =>
    simp only [createOpt, hnew]
    exact links_deleteOpt o

theorem links_redisAsyncCommand (cbData : Option OptPtr) (args : List Arg) :
    (w.redisAsyncCommand c cbData args).links = w.links := by
  cases hc : w.contexts c with
  | none =>
    simp only [redisAsyncCommand, hc]
    exact links_halt (by decide)
  | some ac =>
    cases hcmd : ac.command cbData args with
    | ok ac' =>
      simp only [redisAsyncCommand, hc, hcmd]
      exact links_setContext_of_link hc (AsyncContext.link_command hcmd)
    | err => simp only [redisAsyncCommand, hc, hcmd]; rfl
    | assertion =>
      simp only [redisAsyncCommand, hc, hcmd]
      exact links_halt (by decide)

theorem links_redisAsyncCmd (cbData : Option OptPtr) (args : List Arg) :
    (w.redisAsyncCmd cbData args).links = w.links := by
  cases hc : w.conn.aeContext with
  | none => simp only [redisAsyncCmd, hc]; rfl
  | some c =>
    simp only [redisAsyncCmd, hc]
    split_ifs
    · rfl
    · exact links_redisAsyncCommand cbData args

theorem links_redisAsyncCmdArgv (cbData : Option OptPtr) (args : List Arg) :
    (w.redisAsyncCmdArgv cbData args).links = w.links := by
  cases hc : w.conn.aeContext with
  | none => simp only [redisAsyncCmdArgv, hc]; rfl
  | some c =>
    simp only [redisAsyncCmdArgv, hc]
    split_ifs
    · simp only [links, hc]
    · rw [links_redisAsyncCommand]
      simp only [links, hc]

end World

end ServerCom.Redis
