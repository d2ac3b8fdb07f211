import Mathlib.Logic.Relation
import ServerCom.Redis.Interpretation.Links

/-!
# Moves as moves on the links

A move of the user's code leaves the links alone, connects, or destroys the object; every
other move is a sequence of moves of hiredis on the links. Nothing is assumed of the world
but that the run has not ended.
-/

namespace ServerCom.Redis

open Relation

namespace Links

/-- A sequence of moves of hiredis. -/
abbrev Works : Links → Links → Prop := ReflTransGen Work

/-- What leaves the links as they were takes no move. -/
theorem works_of_eq {a b : Links} (h : b = a) : Works a b := h ▸ .refl

end Links

open Links

namespace World

variable {w : World} {c : ContextPtr} {ac ac' : AsyncContext OptPtr} {rest : List Frame}
  {call : Call} {r : Option OptPtr}

/-- The innermost call, seen in the links. -/
theorem links_calls (hs : w.stack = ⟨c, call, r⟩ :: rest) :
    w.links.calls = ⟨c, call.freeing, r.isSome⟩ :: rest.map Frame.doing := by
  rw [links, hs]
  rfl

/-- Without calls there are none in the links. -/
theorem links_idle (hs : w.stack = []) : w.links.calls = [] := by
  rw [links, hs]
  rfl

/-- A context changes, and a frame takes the place of the calls in progress. -/
theorem links_frame (w : World) (c : ContextPtr) (ac : AsyncContext OptPtr) (f : Frame)
    (rest : List Frame) (called : List OptPtr) :
    ({ w.setContext c ac with stack := f :: rest, called := called } : World).links =
      { w.links.set c ac.link with calls := f.doing :: rest.map Frame.doing } := by
  rw [← links_setContext]
  rfl

/-- A link that is as it was can be set. -/
theorem set_link (hc : w.contexts c = some ac) (hl : ac'.link = ac.link) :
    w.links.set c ac'.link = w.links := by
  rw [← links_setContext, links_setContext_of_link hc hl]

/-- The innermost call runs a callback, or goes on to the next. -/
theorem works_runCallback (hs : w.stack = ⟨c, call, none⟩ :: rest) (hc : w.contexts c = some ac)
    (hl : ac'.link = ac.link) {call' : Call} (hcall : call'.freeing = call.freeing)
    (cb : RedisCallback OptPtr) : Works w.links (w.runCallback c ac' call' rest cb).links := by
  have htop := links_calls hs
  cases cb with
  | null =>
    refine works_of_eq ?_
    rw [runCallback, links_frame, set_link hc hl, Frame.doing, hcall]
    exact congrArg (fun calls => { w.links with calls := calls }) htop.symm
  | call privdata =>
    cases privdata with
    | none => exact works_of_eq (links_halt (by decide))
    | some o =>
      rw [runCallback]
      split_ifs
      · exact works_of_eq (links_halt (by decide))
      · have hlink : ({ ac' with inCallback := true } : AsyncContext OptPtr).link =
            { ac.link with inCallback := true } := by
          rw [← hl]
          rfl
        refine .single ?_
        rw [links_frame, hlink, Frame.doing, hcall]
        exact .run htop (contexts_links hc)

/-- The return of the user's code is work of hiredis. -/
theorem works_ret {o : OptPtr} (hs : w.stack = ⟨c, call, some o⟩ :: rest) :
    Works w.links (w.ret ⟨c, call, some o⟩ rest o).links := by
  cases hc : w.contexts c with
  | none =>
    simp only [ret, hc]
    exact works_of_eq (links_halt (by decide))
  | some ac =>
    refine .single ?_
    simp only [ret, hc, links_deleteOpt, links_frame]
    exact .ret (links_calls hs) (contexts_links hc)

/-- `__redisAsyncDisconnect` behind an error or without pending replies frees the context. -/
theorem links_asyncDisconnect (hc : w.contexts c = some ac) (hl : ac'.link = ac.link)
    (hend : ac'.err = true ∨ ac'.replies = []) (dtor : Bool) :
    (w.asyncDisconnect c ac' dtor rest).links =
      { w.links with calls := ⟨c, some dtor, false⟩ :: rest.map Frame.doing } := by
  rw [asyncDisconnect]
  split_ifs with herr hreplies
  · have hl' : ({ ac' with disconnecting := true } : AsyncContext OptPtr).link = ac.link := hl
    rw [links_frame, set_link hc hl']
    rfl
  · rw [links_frame, set_link hc hl]
    rfl
  · exact absurd hend (not_or.mpr ⟨herr, hreplies⟩)

/-- A reading that ends the connection. -/
theorem works_fail {rs : List Reply} {stop : ReadEnd} {cb : RedisCallback OptPtr}
    (hs : w.stack = ⟨c, .process cb rs stop, none⟩ :: rest) (hc : w.contexts c = some ac)
    (hl : ac'.link = ac.link) : Works w.links (w.asyncDisconnect c ac' false rest).links := by
  by_cases hend : ac'.err = true ∨ ac'.replies = []
  · rw [links_asyncDisconnect hc hl hend]
    exact .single (.fail (links_calls hs))
  · obtain ⟨herr, hreplies⟩ := not_or.mp hend
    rw [asyncDisconnect, if_neg herr, if_neg hreplies]
    exact works_of_eq (links_halt (by decide))

/-- A reading that ends, seen in the links. -/
theorem links_leave (hc : w.contexts c = some ac) (hl : ac'.link = ac.link) :
    ({ w.setContext c ac' with stack := rest } : World).links =
      { w.links with calls := rest.map Frame.doing } := by
  rw [← links_setContext_of_link hc hl]
  rfl

/-- Processing replies is work of hiredis. -/
theorem works_process {rs : List Reply} {stop : ReadEnd} {cb : RedisCallback OptPtr}
    (hs : w.stack = ⟨c, .process cb rs stop, none⟩ :: rest) (hc : w.contexts c = some ac) :
    Works w.links (w.process c ac cb rs stop rest).links := by
  cases rs with
  | nil =>
    cases stop with
    | failed => exact works_fail hs hc rfl
    | stop flushed =>
      simp only [process]
      split_ifs
      · exact works_fail hs hc rfl
      · rw [links_leave hc (by rfl)]
        exact .single (.leave (links_calls hs))
      · exact .single (.leave (links_calls hs))
  | cons r rs =>
    cases hreplies : ac.replies with
    | cons cb' replies =>
      simp only [process, hreplies]
      exact works_runCallback hs hc (by rfl) (by rfl) cb'
    | nil =>
      simp only [process, hreplies]
      split_ifs
      · exact works_fail hs hc rfl
      · cases hsub : ac.getSubscribeCallback cb r with
        | none => exact works_of_eq (links_halt (by decide))
        | some found =>
          exact works_runCallback hs hc (AsyncContext.link_getSubscribeCallback hsub) (by rfl) _
      · exact works_runCallback hs hc (by rfl) (by rfl) cb
      · exact works_of_eq (links_halt (by decide))

/-- The end of a free, seen in the links. -/
theorem links_finishFree (hrun : w.halted = none) (dtor : Bool) :
    (w.finishFree c ac dtor rest).links =
      w.links.finish c ac.link dtor (rest.map Frame.doing) := by
  have hend : ∀ w : World, ({ w with
      contexts := Function.update w.contexts c none, stack := rest,
      life := if dtor then .dead else w.life } : World).links = { w.links with
      contexts := Function.update w.links.contexts c none, calls := rest.map Frame.doing,
      life := if dtor then .dead else w.links.life } := by
    intro w
    simp only [links, map_link_update]
    rfl
  rw [finishFree, Links.finish]
  by_cases hcall : (ac.attached && ac.connected) = true
  · rw [if_pos hcall, if_pos (show (ac.link.attached && ac.link.connected) = true from hcall),
      ← links_disconnectCallback hrun]
    exact hend _
  · rw [if_neg hcall, if_neg (show ¬ (ac.link.attached && ac.link.connected) = true from hcall)]
    exact hend _

/-- A call that goes on is work of hiredis. -/
theorem works_go (hrun : w.halted = none) (hs : w.stack = ⟨c, call, none⟩ :: rest) :
    Works w.links (w.go ⟨c, call, none⟩ rest).links := by
  cases hc : w.contexts c with
  | none =>
    simp only [go, hc]
    exact works_of_eq (links_halt (by decide))
  | some ac =>
    cases call with
    | process cb rs stop =>
      simp only [go, hc]
      exact works_process hs hc
    | free dtor =>
      cases hnext : ac.nextPending with
      | none =>
        simp only [go, hc, hnext, links_finishFree hrun]
        exact .single (.finish (links_calls hs) (contexts_links hc))
      | some next =>
        simp only [go, hc, hnext]
        exact works_runCallback hs hc (AsyncContext.link_nextPending hnext) (by rfl) _

/-! ## The events -/

theorem works_handleRead (hs : w.stack = []) (hc : w.contexts c = some ac) {b : Bool}
    (hl : ac.link = ⟨true, true, b⟩) (read : ReadResult) :
    Works w.links (w.handleRead c ac read).links := by
  have hctx := hl ▸ contexts_links hc
  cases read with
  | failed =>
    rw [handleRead, links_asyncDisconnect hc (by rfl) (.inl rfl)]
    exact .single (.enter (some false) (by simp) (links_idle hs) hctx)
  | replies rs stop => exact .single (.enter none (by simp) (links_idle hs) hctx)

theorem works_handleWrite (hs : w.stack = []) (hc : w.contexts c = some ac) {b : Bool}
    (hl : ac.link = ⟨true, true, b⟩) (ok : Bool) :
    Works w.links (w.handleWrite c ac ok).links := by
  cases ok with
  | true => exact .refl
  | false => exact works_handleRead hs hc hl .failed

theorem connectCallback_stack (w : World) (ok : Bool) : (w.connectCallback ok).stack = w.stack := by
  rw [connectCallback]
  split_ifs <;> rfl

theorem connectCallback_contexts (w : World) (ok : Bool) :
    (w.connectCallback ok).contexts = w.contexts := by
  rw [connectCallback]
  split_ifs <;> rfl

theorem works_refused (hrun : w.halted = none) (hs : w.stack = []) (hc : w.contexts c = some ac)
    {b : Bool} (hl : ac.link = ⟨true, false, b⟩) :
    Works w.links (w.handleConnect c ac .failed).links := by
  have hctx := hl ▸ contexts_links hc
  have hc' : (w.connectCallback false).contexts c = some ac := by
    rw [connectCallback_contexts, hc]
  rw [handleConnect, links_asyncDisconnect hc' (by rfl) (.inl rfl), links_connectCallback hrun]
  exact .single (.refused (links_idle hs) hctx)

theorem works_connected (hrun : w.halted = none) (hs : w.stack = [])
    (hc : w.contexts c = some ac) {b : Bool} (hl : ac.link = ⟨true, false, b⟩) :
    Works w.links (w.handleConnect c ac .ok).links := by
  have hctx := hl ▸ contexts_links hc
  have hlink : ({ ac with connected := true } : AsyncContext OptPtr).link = ⟨true, true, b⟩ :=
    congrArg (fun l : Link => { l with connected := true }) hl
  have hrun' : (w.setContext c { ac with connected := true }).halted = none := hrun
  rw [handleConnect, links_connectCallback hrun', links_setContext, hlink]
  exact .single (.connected (links_idle hs) hctx)

/-- The connection is looked at before the rest of an event. -/
theorem works_handleEvent (hrun : w.halted = none) (hs : w.stack = [])
    (hc : w.contexts c = some ac) (hattached : ac.attached = true) (sock : SocketCheck)
    {k : World → AsyncContext OptPtr → World}
    (hk : ∀ (w : World) (ac : AsyncContext OptPtr) (b : Bool), w.stack = [] →
      w.contexts c = some ac → ac.link = ⟨true, true, b⟩ → Works w.links (k w ac).links) :
    Works w.links (w.handleEvent c ac sock k).links := by
  have hl : ac.link = ⟨true, ac.connected, ac.inCallback⟩ := by rw [AsyncContext.link, hattached]
  rw [handleEvent]
  by_cases hconnected : ac.connected = true
  · rw [if_pos hconnected]
    exact hk w ac _ hs hc (hconnected ▸ hl)
  · rw [if_neg hconnected]
    rw [Bool.not_eq_true] at hconnected
    rw [hconnected] at hl
    cases sock with
    | inProgress => exact .refl
    | failed => exact works_refused hrun hs hc hl
    | ok =>
      refine (works_connected hrun hs hc hl).trans (hk _ _ ac.inCallback ?_ ?_ ?_)
      · rw [handleConnect, connectCallback_stack]
        exact hs
      · rw [handleConnect, connectCallback_contexts]
        exact Function.update_self ..
      · exact congrArg (fun l : Link => { l with connected := true }) hl

/-- An event of any context is work of hiredis, there or not. -/
theorem works_event (hrun : w.halted = none) (c : ContextPtr) (sock : SocketCheck)
    {k : World → AsyncContext OptPtr → World}
    (hk : ∀ (w : World) (ac : AsyncContext OptPtr) (b : Bool), w.stack = [] →
      w.contexts c = some ac → ac.link = ⟨true, true, b⟩ → Works w.links (k w ac).links) :
    Works w.links (w.event c sock k).links := by
  cases hc : w.contexts c with
  | none =>
    simp only [event, hc]
    exact .refl
  | some ac =>
    simp only [event, hc]
    split_ifs with h
    · exact works_handleEvent hrun h.1 hc h.2 sock hk
    · exact .refl

/-! ## The moves -/

/-- The destructor has nothing to free, frees the context at once, or leaves it to hiredis. -/
theorem destroy_cases (w : World) : (w.conn.aeContext = none ∧
      w.destroy.links = { w.links with life := .dead }) ∨
    ∃ c, w.conn.aeContext = some c ∧ ((w.contexts c = none ∧ w.destroy = w.halt .dangling) ∨
      ∃ ac, w.contexts c = some ac ∧ (
        (ac.inCallback = false ∧ ac.replies = [] ∧ w.destroy.links = { w.links with
          life := .dying, calls := ⟨c, some true, false⟩ :: w.links.calls }) ∨
        (¬ (ac.inCallback = false ∧ ac.replies = []) ∧
          w.destroy.links = { w.links with life := .dead }))) := by
  cases hptr : w.conn.aeContext with
  | none =>
    simp only [destroy, hptr]
    exact .inl ⟨trivial, rfl⟩
  | some c =>
    refine .inr ⟨c, rfl, ?_⟩
    cases hc : w.contexts c with
    | none =>
      simp only [destroy, hptr, hc]
      exact .inl ⟨trivial, trivial⟩
    | some ac =>
      refine .inr ⟨ac, rfl, ?_⟩
      have hl : ({ ac with disconnecting := true } : AsyncContext OptPtr).link = ac.link := rfl
      by_cases hquiet : ac.inCallback = false ∧ ac.replies = []
      · obtain ⟨hin, hreplies⟩ := hquiet
        have hc' : ({ w with life := .dying } : World).contexts c = some ac := hc
        have hend : ({ ac with disconnecting := true } : AsyncContext OptPtr).err = true ∨
            ({ ac with disconnecting := true } : AsyncContext OptPtr).replies = [] := .inr hreplies
        refine .inl ⟨hin, hreplies, ?_⟩
        have hq : (!ac.inCallback && ac.replies.isEmpty) = true := by simp [hin, hreplies]
        simp only [destroy, hptr, hc, if_pos hq]
        exact links_asyncDisconnect hc' hl hend true
      · refine .inr ⟨hquiet, ?_⟩
        have hq : ¬ (!ac.inCallback && ac.replies.isEmpty) = true := by simpa using hquiet
        simp only [destroy, hptr, hc, if_neg hq]
        rw [← links_setContext_of_link hc hl]
        rfl

end World

/-- What a move does to the links. -/
def Links.Follows (a : Links) (m : RedisMove) (b : Links) : Prop :=
  match m with
  | .init _ _ ans => b = a ∨ a.life ≠ .dead ∧ a.state = .init ∧ b = a.connect ans
  | .tick ans => b = a ∨ a.life = .alive ∧ a.state = .init ∧ b = a.connect ans
  | .destroy => b = a ∨ a.life = .alive ∧ (∀ d ∈ a.calls.head?, d.running = true) ∧ a.Destroy b
  | _ => a.Works b

namespace World

variable {w : World}

/-- The user's code runs in the innermost call. -/
theorem running_of_userTurn (h : w.userTurn = true) :
    ∀ d ∈ w.links.calls.head?, d.running = true := by
  intro d hd
  cases hs : w.stack with
  | nil => simp [links, hs] at hd
  | cons f rest =>
    have hf : f.doing = d := by simpa [links, hs] using hd
    have hrunning : f.running.isSome = true := by simpa [userTurn, hs] using h
    rw [← hf]
    exact hrunning

/-- `Init` as a step on the links. -/
theorem links_step_init (hrun : w.halted = none) (ip : Arg) (port : Int) (ans : ConnectAnswer) :
    (w.step (.init ip port ans)).links =
      if (w.userTurn = true ∧ w.life ≠ .dead) ∧ w.conn.port = 0 ∧ w.conn.state = .init then
        w.links.connect ans
      else w.links := by
  rw [step, if_pos hrun, act]
  by_cases hturn : w.userTurn = true ∧ w.life ≠ .dead
  · rw [if_pos hturn, links_init]
    simp only [hturn, true_and, ne_eq, not_false_eq_true]
  · rw [if_neg hturn, if_neg fun h => hturn h.1]

/-- The timer as a step on the links. -/
theorem links_step_tick (hrun : w.halted = none) (ans : ConnectAnswer) :
    (w.step (.tick ans)).links =
      if (w.stack = [] ∧ w.life = .alive) ∧ w.conn.state = .init then w.links.connect ans
      else w.links := by
  rw [step, if_pos hrun, act]
  by_cases hidle : w.stack = [] ∧ w.life = .alive
  · rw [if_pos hidle, links_tryReconnectTimer]
    simp only [hidle, true_and, and_self]
  · rw [if_neg hidle, if_neg fun h => hidle h.1]

/-- A `CmdCallBack` returns, or there is none. -/
theorem act_ret_cases (w : World) : w.act .ret = w ∨ ∃ c call o rest,
    w.stack = ⟨c, call, some o⟩ :: rest ∧ w.act .ret = w.ret ⟨c, call, some o⟩ rest o := by
  cases hs : w.stack with
  | nil =>
    simp only [act, hs]
    exact .inl trivial
  | cons f rest =>
    obtain ⟨c, call, running⟩ := f
    cases running with
    | none =>
      simp only [act, hs]
      exact .inl trivial
    | some o => exact .inr ⟨c, call, o, rest, rfl, by simp only [act, hs]⟩

/-- hiredis goes on, or it is not its turn. -/
theorem act_go_cases (w : World) : w.act .go = w ∨ ∃ c call rest,
    w.stack = ⟨c, call, none⟩ :: rest ∧ w.act .go = w.go ⟨c, call, none⟩ rest := by
  cases hs : w.stack with
  | nil =>
    simp only [act, hs]
    exact .inl trivial
  | cons f rest =>
    obtain ⟨c, call, running⟩ := f
    cases running with
    | none => exact .inr ⟨c, call, rest, rfl, by simp only [act, hs]⟩
    | some o =>
      simp only [act, hs]
      exact .inl trivial

/-- Every step of the world is one of the links. -/
theorem follows_step (hrun : w.halted = none) (m : RedisMove) :
    w.links.Follows m (w.step m).links := by
  cases m with
  | init ip port ans =>
    rw [links_step_init hrun]
    split_ifs with h
    · exact .inr ⟨h.1.2, h.2.2, rfl⟩
    · exact .inl rfl
  | tick ans =>
    rw [links_step_tick hrun]
    split_ifs with h
    · exact .inr ⟨h.1.2, h.2, rfl⟩
    · exact .inl rfl
  | readable c sock read =>
    rw [step, if_pos hrun]
    exact works_event hrun c sock fun w ac b hs hc hl => works_handleRead hs hc hl read
  | writable c sock ok =>
    rw [step, if_pos hrun]
    exact works_event hrun c sock fun w ac b hs hc hl => works_handleWrite hs hc hl ok
  | createOpt =>
    refine works_of_eq ?_
    rw [step, if_pos hrun, act]
    split_ifs
    · exact links_createOpt
    · rfl
  | asyncCmd cbData args =>
    refine works_of_eq ?_
    rw [step, if_pos hrun, act]
    split_ifs
    · exact links_redisAsyncCmd cbData args
    · rfl
  | asyncCmdArgv cbData args =>
    refine works_of_eq ?_
    rw [step, if_pos hrun, act]
    split_ifs
    · exact links_redisAsyncCmdArgv cbData args
    · rfl
  | destroy =>
    rw [step, if_pos hrun, act]
    split_ifs with h
    · rcases destroy_cases w with ⟨-, hleave⟩ | ⟨c, hptr, ⟨-, hhalt⟩ | ⟨ac, hc, hcase⟩⟩
      · exact .inr ⟨h.2, running_of_userTurn h.1, hleave ▸ .leave⟩
      · exact .inl (hhalt ▸ links_halt (by decide))
      · refine .inr ⟨h.2, running_of_userTurn h.1, ?_⟩
        rcases hcase with ⟨hin, -, hfree⟩ | ⟨-, hleave⟩
        · exact hfree ▸ .free hptr (contexts_links hc) hin
        · exact hleave ▸ .leave
    · exact .inl rfl
  | ret =>
    rw [step, if_pos hrun]
    rcases act_ret_cases w with hsame | ⟨c, call, o, rest, hs, hret⟩
    · rw [hsame]
      exact .refl
    · rw [hret]
      exact works_ret hs
  | go =>
    rw [step, if_pos hrun]
    rcases act_go_cases w with hsame | ⟨c, call, rest, hs, hgo⟩
    · rw [hsame]
      exact .refl
    · rw [hgo]
      exact works_go hrun hs

end World

end ServerCom.Redis
