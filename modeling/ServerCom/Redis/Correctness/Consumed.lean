import ServerCom.Redis.Correctness.Destruction
import ServerCom.Redis.Interpretation.Bookkept

/-!
# Every callback object is consumed once

With one reply for each command, an object for each callback, and a clean destruction that
leaves no object in `m_new_opt`, each object made by `CreateOpt` is deleted once, and all are
once the connection is destroyed. The other uses lose an object or delete it twice.
-/

namespace ServerCom.Redis

open Machine Entries

namespace World

variable {w : World} {c : ContextPtr} {ac : AsyncContext OptPtr} {o : OptPtr}

/-- The objects that are not deleted: the one in `m_new_opt`, those whose callback runs, and
those in the queues of the contexts. -/
def held (w : World) : List OptPtr :=
  w.conn.newOpt.toList ++ (w.stack.filterMap Frame.running ++
    (List.range w.obtained).flatMap fun c => ((w.contexts c).map AsyncContext.pending).getD [])

/-- Each object is deleted once or held once, is called at most once and not behind its
deletion, and is deleted once the connection is destroyed. -/
structure ConsumedOnce (w : World) : Prop where
  /-- No null, deleted or dangling pointer was followed. -/
  halted : w.halted = none ∨ w.halted = some .assertion
  /-- Each object is deleted once or held once. -/
  once : (w.deleted ++ w.held).Perm (List.range w.created)
  /-- Each object is called at most once. -/
  called : w.called.Nodup
  /-- Behind the destructor and the calls in progress, all are deleted. -/
  done : w.life = .dead → w.stack = [] → w.deleted.Perm (List.range w.created)

/-- A command that reaches hiredis has an object, a context in the event loop that is not going
down, and one reply, and the destructor finds no object in `m_new_opt`. -/
def Careful (w : World) : RedisMove → Prop
  | .asyncCmd cbData args | .asyncCmdArgv cbData args =>
    w.Calls → cbData = w.conn.newOpt → ∀ ac ∈ w.current, Accepts ac cbData args
  | .destroy => w.Calls → w.life = .alive → w.conn.newOpt = none
  | _ => True

instance (w : World) : DecidablePred w.Careful
  | .asyncCmd cbData _ | .asyncCmdArgv cbData _ =>
    inferInstanceAs (Decidable (w.Calls → cbData = w.conn.newOpt → ∀ ac ∈ w.current, _))
  | .destroy => inferInstanceAs (Decidable (w.Calls → w.life = .alive → w.conn.newOpt = none))
  | .init .. | .tick _ | .readable .. | .writable .. | .createOpt | .ret | .go => .isTrue trivial

/-- A new object has no data to account for. -/
theorem bookkept_create : create.Bookkept := by
  refine ⟨⟨?_, List.nodup_nil, by simp [create, ledger]⟩, by simp [create], by simp [create],
    by simp [create], by simp [create]⟩
  simp [create, ledger, Ledger.held, all]

/-- The user's code does not run in a destructor. -/
theorem Bookkept.alive_of_turn (h : w.Bookkept) (hturn : w.userTurn = true)
    (hlife : w.life ≠ .dead) :
    w.life = .alive := by
  cases hl : w.life with
  | alive => rfl
  | dying =>
    refine absurd hl (h.not_dying fun c rest hstack => ?_)
    simp [userTurn, hstack] at hturn
  | dead => exact absurd hl hlife

/-- Every careful move keeps the account of the data. -/
theorem Bookkept.step (h : w.Bookkept) (hs : w.links.Sound) {m : RedisMove} (hm : w.Careful m) :
    (w.step m).Bookkept := by
  rw [World.step]
  split_ifs with hrun
  · cases m with
    | init ip port ans =>
      rw [act]
      split_ifs with hturn
      · exact h.init hs (h.alive_of_turn hturn.1 hturn.2) ip port ans
      · exact h
    | tick ans =>
      rw [act]
      split_ifs with hidle
      · rw [tryReconnectTimer]
        split_ifs
        · exact h
        · exact h.connect hs hidle.2 ans
      · exact h
    | readable c sock read =>
      exact h.event c sock fun w ac h hidle hc => h.handleRead hidle hc read
    | writable c sock ok =>
      exact h.event c sock fun w ac h hidle hc => h.handleWrite hidle hc ok
    | createOpt =>
      rw [act]
      split_ifs with hturn
      · exact h.createOpt (h.alive_of_turn hturn.1 hturn.2)
      · exact h
    | asyncCmd cbData args =>
      rw [act]
      split_ifs with hturn
      · refine h.redisAsyncCmd hs (h.alive_of_turn hturn.1 hturn.2) fun hnew c ac hptr hc => ?_
        exact hm ⟨hrun, hturn⟩ hnew ac (by simp [current, hptr, hc])
      · exact h
    | asyncCmdArgv cbData args =>
      rw [act, redisAsyncCmdArgv_eq]
      split_ifs with hturn
      · refine h.redisAsyncCmd hs (h.alive_of_turn hturn.1 hturn.2) fun hnew c ac hptr hc => ?_
        exact hm ⟨hrun, hturn⟩ hnew ac (by simp [current, hptr, hc])
      · exact h
    | destroy =>
      rw [act]
      split_ifs with hturn
      · have hcalls : w.Calls := ⟨hrun, hturn.1, by simp [hturn.2]⟩
        exact h.destroy hs hturn.2 (hm hcalls hturn.2)
      · exact h
    | ret =>
      rcases act_ret_cases w with hsame | ⟨c, call, o, rest, hstack, hret⟩
      · rw [hsame]
        exact h
      · rw [hret]
        exact h.ret hs (h.not_dying (by simp [hstack])) hstack
    | go =>
      rcases act_go_cases w with hsame | ⟨c, call, rest, hstack, hgo⟩
      · rw [hsame]
        exact h
      · rw [hgo]
        exact h.go hs hstack
  · exact h

/-- A balanced world in which nobody can call back consumes its objects once. -/
theorem Bookkept.consumedOnce (h : w.Bookkept) (hq : w.links.Quiet) : w.ConsumedOnce := by
  refine ⟨?_, h.balanced.perm, h.balanced.nodup, fun hdead hidle => ?_⟩
  · cases hw : w.halted with
    | none => exact .inl rfl
    | some r =>
      have hstray := hq.stray
      rcases h.halted r hw with rfl | rfl
      · exact .inr rfl
      · simp [links, hw] at hstray
  · have hnew : w.conn.newOpt = none := h.spent (by simp [hdead])
    -- a context that holds a callback could call the destroyed object back
    have hpending : ∀ c, w.ledger.pending c = [] := by
      intro c
      cases hc : w.contexts c with
      | none => simp [ledger, hc]
      | some ac =>
        rw [pending_ledger hc]
        by_cases hattached : ac.attached = true
        · have hlink : w.links.Attached c := ⟨ac.link, contexts_links hc, hattached⟩
          exact absurd (hq.dead hdead c hlink).2 (Links.not_calling (links_idle hidle))
        · rw [Bool.not_eq_true] at hattached
          simp [AsyncContext.pending, (h.plain c ac hc).bare hattached]
    have hheld : w.ledger.held = [] := by
      rw [Ledger.held, all_eq_nil fun c _ => hpending c]
      simp [ledger, hnew, hidle]
    have hperm := h.balanced.perm
    rwa [hheld, List.append_nil] at hperm

/-- In a run of clean destructors and careful commands, each object is consumed once. -/
theorem consumedOnce_of_along (ms : List RedisMove)
    (h : Along step (fun w m => w.Clean m ∧ w.Careful m) create ms) :
    ∀ t ∈ ms.scanl step create, t.ConsumedOnce := by
  have hstep : ∀ (s : World) (m : RedisMove),
      s.links.Sound ∧ s.links.Quiet ∧ s.Bookkept → s.Clean m ∧ s.Careful m →
        (s.step m).links.Sound ∧ (s.step m).links.Quiet ∧ (s.step m).Bookkept :=
    fun s m hs hm => ⟨sound_step hs.1 m, quiet_step hs.2.1 hs.1 hm.1, hs.2.2.step hs.1 hm.2⟩
  intro t ht
  obtain ⟨-, hquiet, hkept⟩ :=
    Along.forall_scanl hstep ⟨sound_create, quiet_create, bookkept_create⟩ h t ht
  exact hkept.consumedOnce hquiet

theorem consumedOnce_of_along_answered :
    Along step (fun w m => w.Clean m ∧ w.Careful m) create answeredThenDestroyed ∧
      ∀ t ∈ answeredThenDestroyed.scanl step create, t.ConsumedOnce := by
  have hrun : Along step (fun w m => w.Clean m ∧ w.Careful m) create answeredThenDestroyed := by
    decide
  exact ⟨hrun, consumedOnce_of_along _ hrun⟩

/-- A connected object. -/
def connecting : List RedisMove := [.init [49] 1 .good, .writable 0 .ok true]

/-- `UNSUBSCRIBE`. -/
def unsubscribe : List Arg := [[117, 110, 115, 117, 98, 115, 99, 114, 105, 98, 101]]

/-- `SUBSCRIBE` of one channel. -/
def subscribe : List Arg := [[115, 117, 98, 115, 99, 114, 105, 98, 101], [97]]

/-- Careless uses: an object left in `m_new_opt` and one given to a refused command are lost, a
null `cb_data` is followed, and the second message of a subscription deletes a deleted object. -/
theorem careless_uses :
    ¬ ([RedisMove.createOpt, .destroy].foldl step create).ConsumedOnce ∧
    ¬ ((connecting ++
      [RedisMove.createOpt, .asyncCmd (some 0) unsubscribe]).foldl step create).ConsumedOnce ∧
    ((connecting ++ [RedisMove.asyncCmd none [[71]],
      .readable 0 .ok (.replies [.other] (.stop true)),
      .go]).foldl step create).halted = some .nullOpt ∧
    ((connecting ++ [RedisMove.createOpt, .asyncCmd (some 0) subscribe,
      .readable 0 .ok
        (.replies (.replicate 2 (.array (some ⟨false, false, [97], 1⟩))) (.stop true)),
      .go, .ret, .go]).foldl step create).halted = some .deletedOpt := by
  refine ⟨fun h => ?_, fun h => ?_, by decide, by decide⟩
  · exact absurd (h.done rfl rfl).length_eq (by decide)
  · exact absurd h.once.length_eq (by decide)

end World

end ServerCom.Redis
