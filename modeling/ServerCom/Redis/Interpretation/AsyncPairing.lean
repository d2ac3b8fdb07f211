import ServerCom.Redis.Interpretation.ReaderSession
import ServerCom.Redis.Interpretation.Resp
import ServerCom.Redis.Native.AsyncSocket

/-!
# Commands and their replies

On a context without subscriptions the callbacks stand in a queue. Those that were run with a
reply come first, with the first replies of what was read; then those that were run without
one, when the context is freed; and the others wait.
-/

namespace ServerCom.Redis.AsyncSocket

open Machine Reader

variable {α : Type*} {l l' : AsyncSocket α} {given : List (Option α × RedisReply)}
  {nulls pend : List (Option α)}

/-- The context is being freed, or has lost its meaning. -/
def ending (l : AsyncSocket α) : Bool :=
  match l.turn with
  | .free | .freeCallback | .freed | .undefined => true
  | _ => false

/-- `__redisAsyncDisconnect` begins the end, and does not finish it. -/
theorem ending_asyncDisconnect (l : AsyncSocket α) :
    l.asyncDisconnect.ending = true ∧ l.asyncDisconnect.turn ≠ .freed := by
  unfold asyncDisconnect
  cases l.err with
  | none =>
    dsimp only
    split_ifs
    · exact ⟨rfl, fun hfreed => by cases hfreed⟩
    · exact ⟨rfl, fun hfreed => by cases hfreed⟩
  | some err => exact ⟨rfl, fun hfreed => by cases hfreed⟩

/-- A command that is no command of pub/sub, nor `MONITOR`. -/
def Ordinary (args : List Arg) : Prop :=
  ∀ cmd, args.head? = some cmd → isCommand (commandName cmd) "subscribe" = false ∧
    isCommand (commandName cmd) "unsubscribe" = false ∧
    isCommand (commandName cmd) "monitor" = false

/-- There are no subscriptions. -/
structure Plain (ac : AsyncContext α) : Prop where
  /-- `REDIS_SUBSCRIBED`. -/
  subscribed : ac.subscribed = false
  /-- `REDIS_MONITORING`. -/
  monitoring : ac.monitoring = false
  /-- `sub.invalid`. -/
  invalid : ac.invalid = []
  /-- `sub.channels`. -/
  channels : ac.channels = []
  /-- `sub.patterns`. -/
  patterns : ac.patterns = []

/-- An ordinary command queues its callback, if it is accepted. -/
theorem command_ordinary {ac : AsyncContext α} (hac : Plain ac) {args : List Arg}
    (hargs : Ordinary args) (privdata : Option α) :
    ac.command privdata args = .err ∨ ac.command privdata args = .assertion ∨
      ac.command privdata args = .ok { ac with replies := ac.replies ++ [.call privdata] } := by
  unfold AsyncContext.command
  cases hdisc : ac.disconnecting with
  | true => exact .inl (if_pos rfl)
  | false =>
    rw [if_neg Bool.false_ne_true]
    cases args with
    | nil => exact .inr (.inl rfl)
    | cons cmd names =>
      obtain ⟨hsub, hunsub, hmonitor⟩ := hargs cmd rfl
      dsimp only
      rw [hsub, hunsub, hmonitor, hac.subscribed, if_neg (fun h => Bool.false_ne_true h.2),
        if_neg Bool.false_ne_true, if_neg Bool.false_ne_true, if_neg Bool.false_ne_true]
      exact .inr (.inr rfl)

/-! ## The invariant -/

/-- The callbacks that were run with the replies `given`, those that were run without one, and
those that wait. -/
structure Paired (l : AsyncSocket α) (given : List (Option α × RedisReply))
    (nulls pend : List (Option α)) : Prop where
  /-- The callbacks that were run. -/
  delivered : l.delivered = given.map (fun p => (p.1, some p.2)) ++ nulls.map (·, none)
  /-- The callbacks that wait. -/
  replies : l.ac.replies = pend.map .call
  /-- The commands in order. -/
  sent : l.sent.map Prod.fst = given.map Prod.fst ++ nulls ++ pend
  /-- There are no subscriptions. -/
  plain : Plain l.ac
  /-- No callback waits in the end. -/
  freed : l.turn = .freed → pend = []
  /-- Before the end every reply was given; in it they are the first ones. -/
  reading : l.ending = true ∧ given.map Prod.snd <+: (scanner.drain .start l.received).1 ∨
    l.ending = false ∧ nulls = [] ∧
      (⟨l.reader, l.received, given.map Prod.snd, false⟩ : Session).Standing
  /-- While the context waits for an event, every reply that has arrived was given. -/
  idle : l.turn = .idle → (scanner.drain .start l.received).1 = given.map Prod.snd

/-- What was given to callbacks are the first replies in what was received. -/
theorem Paired.replies_prefix (h : Paired l given nulls pend) :
    given.map Prod.snd <+: (scanner.drain .start l.received).1 := by
  rcases h.reading with ⟨-, hfront⟩ | ⟨-, -, hs⟩
  · exact hfront
  · exact hs.replies_prefix

/-- Before the end, the reader stands behind the replies that were given. -/
theorem Paired.standing (h : Paired l given nulls pend) (hlive : l.ending = false) :
    nulls = [] ∧ (⟨l.reader, l.received, given.map Prod.snd, false⟩ : Session).Standing := by
  rcases h.reading with ⟨hend, -⟩ | ⟨-, hstanding⟩
  · rw [hlive] at hend
    cases hend
  · exact hstanding

/-- The record stays as it is when the end begins. -/
theorem Paired.toEnding (h : Paired l given nulls pend) (hdelivered : l'.delivered = l.delivered)
    (hsent : l'.sent = l.sent) (hreplies : l'.ac.replies = l.ac.replies) (hplain : Plain l'.ac)
    (hreceived : l'.received = l.received) (hend : l'.ending = true ∧ l'.turn ≠ .freed) :
    Paired l' given nulls pend where
  delivered := by rw [hdelivered, h.delivered]
  replies := by rw [hreplies, h.replies]
  sent := by rw [hsent, h.sent]
  plain := hplain
  freed hfreed := absurd hfreed hend.2
  reading := .inl ⟨hend.1, by rw [hreceived]; exact h.replies_prefix⟩
  idle hidle := by
    rw [ending, hidle] at hend
    cases hend.1

/-- What a disconnection leaves as it is. -/
theorem asyncDisconnect_fields (l : AsyncSocket α) :
    l.asyncDisconnect.delivered = l.delivered ∧ l.asyncDisconnect.sent = l.sent ∧
      l.asyncDisconnect.ac.replies = l.ac.replies ∧ (Plain l.ac → Plain l.asyncDisconnect.ac) ∧
      l.asyncDisconnect.received = l.received := by
  unfold asyncDisconnect
  cases l.err with
  | none =>
    dsimp only
    split_ifs <;> exact ⟨rfl, rfl, rfl, id, rfl⟩
  | some err => exact ⟨rfl, rfl, rfl, fun h => ⟨h.1, h.2, h.3, h.4, h.5⟩, rfl⟩

/-- The end begins with callbacks and replies as they are. -/
theorem Paired.asyncDisconnect (h : Paired l given nulls pend)
    (hdelivered : l'.delivered = l.delivered) (hsent : l'.sent = l.sent)
    (hreplies : l'.ac.replies = l.ac.replies) (hplain : Plain l'.ac)
    (hreceived : l'.received = l.received) : Paired l'.asyncDisconnect given nulls pend := by
  obtain ⟨hd, hs, hr, hp, hrec⟩ := asyncDisconnect_fields l'
  exact h.toEnding (hd.trans hdelivered) (hs.trans hsent) (hr.trans hreplies) (hp hplain)
    (hrec.trans hreceived) (ending_asyncDisconnect l')

/-! ## Moves -/

/-- A new context has no callback and no reply. -/
theorem paired_start (host : Arg) (port : Int) :
    Paired (start host port : AsyncSocket α) [] [] [] where
  delivered := rfl
  replies := rfl
  sent := rfl
  plain := ⟨rfl, rfl, rfl, rfl, rfl⟩
  freed h := by cases h
  reading := .inr ⟨rfl, rfl, Session.standing_start⟩
  idle _ := by
    rw [start, Scanner.drain_wait rfl]
    rfl

/-- A command that is sent queues its callback behind the others. -/
theorem paired_commandArgv (h : Paired l given nulls pend) {privdata : Option α} {args : List Arg}
    (hargs : Ordinary args) (hturn : l.turn ≠ .freed) :
    ∃ pend', Paired (l.commandArgv privdata args) given nulls pend' := by
  have hundef : Paired ({ l with turn := .undefined } : AsyncSocket α) given nulls pend :=
    h.toEnding rfl rfl rfl h.plain rfl ⟨rfl, fun hfreed => by cases hfreed⟩
  unfold commandArgv
  rw [redisFormatCommandArgv]
  split_ifs
  · dsimp only
    rw [commandText_eq, arguments_respArray]
    rcases command_ordinary h.plain hargs privdata with herr | hassert | hok
    · rw [herr]
      exact ⟨pend, h⟩
    · rw [hassert]
      exact ⟨pend, hundef⟩
    · rw [hok]
      refine ⟨pend ++ [privdata], h.delivered, ?_, ?_, ⟨h.plain.1, h.plain.2, h.plain.3,
        h.plain.4, h.plain.5⟩, fun hfreed => absurd hfreed hturn, h.reading, h.idle⟩
      · dsimp only
        rw [h.replies, List.map_append]
        rfl
      · dsimp only
        rw [List.map_append, h.sent, ← List.append_assoc]
        rfl
  · exact ⟨pend, hundef⟩

/-- `redisAsyncDisconnect` takes no callback away. -/
theorem paired_disconnect (h : Paired l given nulls pend) :
    Paired l.disconnect given nulls pend := by
  have hplain : Plain { l.ac with disconnecting := true } :=
    ⟨h.plain.1, h.plain.2, h.plain.3, h.plain.4, h.plain.5⟩
  unfold disconnect
  dsimp only
  split_ifs
  · exact h.asyncDisconnect rfl rfl rfl hplain rfl
  · exact ⟨h.delivered, h.replies, h.sent, hplain, h.freed, h.reading, h.idle⟩

/-- A callback that returns leaves pairs as they are. -/
theorem paired_ret (h : Paired l given nulls pend) {turn : Turn α}
    (hturn : turn ≠ .freed ∧ turn ≠ .idle) (hending : (l.ret turn).ending = l.ending) :
    Paired (l.ret turn) given nulls pend where
  delivered := h.delivered
  replies := h.replies
  sent := h.sent
  plain := ⟨h.plain.1, h.plain.2, h.plain.3, h.plain.4, h.plain.5⟩
  freed hfreed := absurd hfreed hturn.1
  reading := by
    rw [hending]
    exact h.reading
  idle hidle := absurd hidle hturn.2

/-- A context that is freed gives the callbacks that are left no reply, in their order. -/
theorem paired_freeNext (h : Paired l given nulls pend) :
    ∃ nulls' pend', Paired l.freeNext given nulls' pend' := by
  have hfront := h.replies_prefix
  cases pend with
  | nil =>
    have hnone : l.ac.nextPending = none := by
      rw [AsyncContext.nextPending, h.replies, h.plain.invalid, h.plain.channels,
        h.plain.patterns]
      rfl
    rw [freeNext, hnone]
    exact ⟨nulls, [], h.delivered, h.replies, h.sent, h.plain, fun _ => rfl, .inl ⟨rfl, hfront⟩,
      fun hidle => by cases hidle⟩
  | cons p pend =>
    have hsome : l.ac.nextPending = some (.call p, { l.ac with replies := pend.map .call }) := by
      rw [AsyncContext.nextPending, h.replies]
      rfl
    rw [freeNext, hsome]
    refine ⟨nulls ++ [p], pend, ?_, rfl, ?_, ⟨h.plain.1, h.plain.2, h.plain.3, h.plain.4,
      h.plain.5⟩, (fun hfreed => by cases hfreed), .inl ⟨rfl, hfront⟩, fun hidle => by cases hidle⟩
    · dsimp only
      rw [h.delivered, List.map_append, List.append_assoc]
      rfl
    · have hsent := h.sent
      simp only [List.append_assoc, List.cons_append, List.nil_append] at hsent ⊢
      exact hsent

/-- A reply goes to the first callback that waits. -/
theorem paired_processReply (h : Paired l given nulls pend) (hlive : l.ending = false)
    {reader : Reader} {reply : RedisReply}
    (hs : (⟨reader, l.received, given.map Prod.snd ++ [reply], false⟩ : Session).Standing)
    (cb : RedisCallback α) :
    ∃ given' nulls' pend',
      Paired ({ l with reader := reader }.processReply cb reply) given' nulls' pend' := by
  obtain ⟨hnulls, -⟩ := h.standing hlive
  subst hnulls
  unfold processReply
  rw [h.replies]
  cases pend with
  | cons p pend =>
    refine ⟨given ++ [(p, reply)], [], pend, ?_, rfl, ?_, ⟨h.plain.1, h.plain.2, h.plain.3,
      h.plain.4, h.plain.5⟩, (fun hfreed => by cases hfreed), .inr ⟨rfl, rfl, ?_⟩,
      fun hidle => by cases hidle⟩
    · dsimp only [runCallback]
      rw [h.delivered, List.map_append, List.map_nil, List.append_nil, List.append_nil]
      rfl
    · have hsent := h.sent
      simp only [List.append_nil, List.map_append, List.append_assoc] at hsent ⊢
      exact hsent
    · rw [List.map_append]
      exact hs
  | nil =>
    -- a reply to no command ends the connection, or an assertion fails
    have hundef : Paired ({ l with reader := reader, turn := .undefined } : AsyncSocket α) given []
        [] := h.toEnding rfl rfl rfl h.plain rfl ⟨rfl, fun hfreed => by cases hfreed⟩
    have hspontaneous : Paired (({ l with reader := reader } : AsyncSocket α).spontaneous cb reply)
        given [] [] := by
      rw [spontaneous]
      dsimp only
      rw [h.plain.subscribed, h.plain.monitoring]
      exact hundef
    refine ⟨given, [], [], ?_⟩
    rw [List.map_nil]
    dsimp only
    cases reply with
    | text type str =>
      cases type with
      | error => exact h.asyncDisconnect rfl rfl rfl h.plain rfl
      | _ => exact hspontaneous
    | _ => exact hspontaneous

/-- The next reply goes to the callback at the front of the queue. -/
theorem paired_processNext (h : Paired l given nulls pend) (hlive : l.ending = false)
    (cb : RedisCallback α) :
    ∃ given' nulls' pend', Paired (l.processNext cb) given' nulls' pend' := by
  obtain ⟨hnulls, hstanding⟩ := h.standing hlive
  obtain ⟨hnext, hall⟩ := Session.standing_getReply hstanding
  have hundef : Paired ({ l with turn := .undefined } : AsyncSocket α) given nulls pend :=
    h.toEnding rfl rfl rfl h.plain rfl ⟨rfl, fun hfreed => by cases hfreed⟩
  rw [Session.step, if_neg Bool.false_ne_true] at hnext hall
  unfold processNext
  cases hreply : l.reader.getReply with
  | none => exact ⟨given, nulls, pend, hundef⟩
  | some answer =>
    dsimp only at hnext hall
    rw [hreply] at hnext hall
    obtain ⟨(_ | reply) | _, reader⟩ := answer
    · dsimp only at hnext ⊢
      refine ⟨given, nulls, pend, ?_⟩
      rw [h.plain.monitoring, if_neg Bool.false_ne_true]
      split_ifs
      · exact h.asyncDisconnect rfl rfl rfl h.plain rfl
      · exact ⟨h.delivered, h.replies, h.sent, h.plain, (fun hfreed => by cases hfreed),
          .inr ⟨rfl, hnulls, hnext⟩, fun _ => (hall rfl).1⟩
    · exact paired_processReply h hlive hnext cb
    · exact ⟨given, nulls, pend, h.asyncDisconnect rfl rfl rfl h.plain rfl⟩

/-- What is read is fed to the reader, before it is asked for replies. -/
theorem paired_bufferRead (h : Paired l given nulls pend) (hlive : l.ending = false)
    {answer : ReadAnswer}
    (hfit : ∀ bytes, answer = .data bytes → l.reader.buf.len + bytes.length < 2 ^ 31) :
    Paired { (l.bufferRead answer).2 with reading := true, turn := .process .null } given nulls
      pend := by
  obtain ⟨hnulls, hstanding⟩ := h.standing hlive
  have hsame : ∀ err, Paired
      ({ l with err := err, reading := true, turn := .process .null } : AsyncSocket α) given nulls
      pend := fun err => ⟨h.delivered, h.replies, h.sent, h.plain, (fun hfreed => by cases hfreed),
    .inr ⟨rfl, hnulls, hstanding⟩, fun hidle => by cases hidle⟩
  unfold bufferRead
  split_ifs
  · exact hsame _
  · cases answer with
    | again => exact hsame _
    | failed str => exact hsame _
    | data bytes =>
      dsimp only
      split_ifs with hnil hok
      · exact hsame _
      · have hfed := Session.standing_feed hstanding (hfit bytes rfl)
        rw [Session.step, if_neg Bool.false_ne_true] at hfed
        exact ⟨h.delivered, h.replies, h.sent, h.plain, (fun hfreed => by cases hfreed),
          .inr ⟨rfl, hnulls, hfed⟩, fun hidle => by cases hidle⟩
      · have hkeep : (l.reader.feed bytes).2 = l.reader := by
          cases herr : l.reader.err with
          | some err => rw [Reader.feed, if_pos (by rw [herr]; rfl)]
          | none =>
            rw [Reader.feed, if_neg (by rw [herr]; exact Bool.false_ne_true), if_neg hnil] at hok
            exact absurd rfl hok
        rw [hkeep]
        exact hsame _

/-- The end of connecting touches no pair. -/
theorem paired_handleConnect (h : Paired l given nulls pend) (sock : SocketError) :
    Paired (l.handleConnect sock).2 given nulls pend ∧
      ((l.handleConnect sock).1 = true → (l.handleConnect sock).2.turn = l.turn ∧
        (l.handleConnect sock).2.reader = l.reader) := by
  unfold handleConnect
  split_ifs
  · exact ⟨h, fun _ => ⟨rfl, rfl⟩⟩
  · cases sock with
    | none =>
      exact ⟨⟨h.delivered, h.replies, h.sent, ⟨h.plain.1, h.plain.2, h.plain.3, h.plain.4,
        h.plain.5⟩, h.freed, h.reading, h.idle⟩, fun _ => ⟨rfl, rfl⟩⟩
    | inProgress str =>
      exact ⟨⟨h.delivered, h.replies, h.sent, h.plain, h.freed, h.reading, h.idle⟩,
        fun hf => absurd hf Bool.false_ne_true⟩
    | failed str =>
      dsimp only
      exact ⟨h.asyncDisconnect rfl rfl rfl h.plain rfl, fun hf => absurd hf Bool.false_ne_true⟩

end ServerCom.Redis.AsyncSocket
