import ServerCom.Redis.Correctness.Flushing
import ServerCom.Redis.Interpretation.RespReading

/-!
# The callbacks of a context

On a context without subscriptions the callbacks of commands are run in the order of the
commands, each once: the k-th with the k-th reply of the server, or without one when the
context ends first. The server reads the commands in the order in which they were sent.
-/

namespace ServerCom.Redis.AsyncSocket

open Machine Reader

variable {α : Type*} {l : AsyncSocket α} {given : List (Option α × RedisReply)}
  {nulls pend : List (Option α)}

/-- A command is an ordinary one, and what is read fits into the buffer of the reader. -/
def InputFits (l : AsyncSocket α) : SocketMove α → Prop
  | .command _ args => Ordinary args
  | .readable _ (.data bytes) => l.reader.buf.len + bytes.length < 2 ^ 31
  | _ => True

instance (args : List Arg) : Decidable (Ordinary args) :=
  decidable_of_iff (∀ cmd ∈ args.head?, isCommand (commandName cmd) "subscribe" = false ∧
    isCommand (commandName cmd) "unsubscribe" = false ∧
    isCommand (commandName cmd) "monitor" = false) Iff.rfl

instance InputFits.decidable (l : AsyncSocket α) :
    (move : SocketMove α) → Decidable (l.InputFits move)
  | .command _ args => inferInstanceAs (Decidable (Ordinary args))
  | .readable _ (.data bytes) =>
    inferInstanceAs (Decidable (l.reader.buf.len + bytes.length < 2 ^ 31))
  | .readable _ .again | .readable _ (.failed _) => .isTrue trivial
  | .disconnect | .writable _ _ | .ret | .go => .isTrue trivial

/-- The callbacks of a context are in order. -/
def Pairing (l : AsyncSocket α) : Prop :=
  ∃ given nulls pend, Paired l given nulls pend

/-- What is read is given to the callbacks in their order. -/
theorem pairing_handleRead (h : Paired l given nulls pend) (hturn : l.turn = .idle)
    {sock : SocketError} {answer : ReadAnswer} (hfit : l.InputFits (.readable sock answer)) :
    (l.handleRead sock answer).Pairing := by
  obtain ⟨hconnect, hkeep⟩ := paired_handleConnect h sock
  unfold handleRead
  generalize l.handleConnect sock = res at hconnect hkeep
  obtain ⟨connected, l₁⟩ := res
  cases connected with
  | false => exact ⟨given, nulls, pend, hconnect⟩
  | true =>
    obtain ⟨hsame, hreader⟩ := hkeep rfl
    have hlive : l₁.ending = false := by
      rw [ending, hsame, hturn]
    have hbytes : ∀ bytes, answer = .data bytes → l₁.reader.buf.len + bytes.length < 2 ^ 31 := by
      rintro bytes rfl
      rw [hreader]
      exact hfit
    have hread := paired_bufferRead hconnect hlive hbytes
    dsimp only
    generalize l₁.bufferRead answer = res at hread
    obtain ⟨ok, l₂⟩ := res
    cases ok with
    | false => exact ⟨given, nulls, pend, hread.asyncDisconnect rfl rfl rfl hread.plain rfl⟩
    | true => exact ⟨given, nulls, pend, hread⟩

/-- Writing touches neither replies nor callbacks. -/
theorem paired_bufferWrite (h : Paired l given nulls pend) (answer : WriteAnswer) :
    Paired (l.bufferWrite answer).2.2 given nulls pend := by
  unfold bufferWrite
  split_ifs
  · exact h
  · exact h
  · cases answer with
    | again => exact h
    | _ => exact ⟨h.delivered, h.replies, h.sent, h.plain, h.freed, h.reading, h.idle⟩

/-- Nor does a writable socket, but for a failure that ends the context. -/
theorem pairing_handleWrite (h : Paired l given nulls pend) (sock : SocketError)
    (answer : WriteAnswer) : (l.handleWrite sock answer).Pairing := by
  obtain ⟨hconnect, -⟩ := paired_handleConnect h sock
  unfold handleWrite
  generalize l.handleConnect sock = res at hconnect
  obtain ⟨connected, l₁⟩ := res
  cases connected with
  | false => exact ⟨given, nulls, pend, hconnect⟩
  | true =>
    have hwrite := paired_bufferWrite hconnect answer
    dsimp only
    generalize l₁.bufferWrite answer = res at hwrite
    obtain ⟨ok, done, l₂⟩ := res
    cases ok with
    | false => exact ⟨given, nulls, pend, hwrite.asyncDisconnect rfl rfl rfl hwrite.plain rfl⟩
    | true =>
      exact ⟨given, nulls, pend, hwrite.delivered, hwrite.replies, hwrite.sent, hwrite.plain,
        hwrite.freed, hwrite.reading, hwrite.idle⟩

/-- Every move keeps callbacks and replies paired. -/
theorem pairing_step (h : l.Pairing) {move : SocketMove α} (hfit : l.InputFits move) :
    (l.step move).Pairing := by
  obtain ⟨given, nulls, pend, h⟩ := h
  have hstay : l.Pairing := ⟨given, nulls, pend, h⟩
  cases move with
  | command privdata args =>
    rw [step]
    split_ifs with huser
    · have hturn : l.turn ≠ .freed := by
        intro hf
        rw [userTurn, hf] at huser
        cases huser
      obtain ⟨pend', h'⟩ := paired_commandArgv h hfit hturn
      exact ⟨given, nulls, pend', h'⟩
    · exact hstay
  | disconnect =>
    rw [step]
    split_ifs
    · exact ⟨given, nulls, pend, paired_disconnect h⟩
    · exact hstay
  | readable sock answer =>
    cases hturn : l.turn with
    | idle =>
      rw [step, hturn]
      dsimp only
      split_ifs
      · exact pairing_handleRead h hturn hfit
      · exact hstay
    | _ =>
      rw [step, hturn]
      exact hstay
  | writable sock answer =>
    cases hturn : l.turn with
    | idle =>
      rw [step, hturn]
      dsimp only
      split_ifs
      · exact pairing_handleWrite h sock answer
      · exact hstay
    | _ =>
      rw [step, hturn]
      exact hstay
  | ret =>
    cases hturn : l.turn with
    | callback cb =>
      rw [step, hturn]
      refine ⟨given, nulls, pend, paired_ret h ⟨?_, ?_⟩ ?_⟩
      · exact fun hf => by cases hf
      · exact fun hi => by cases hi
      · rw [ending, ending, hturn]
        rfl
    | freeCallback =>
      rw [step, hturn]
      refine ⟨given, nulls, pend, paired_ret h ⟨?_, ?_⟩ ?_⟩
      · exact fun hf => by cases hf
      · exact fun hi => by cases hi
      · rw [ending, ending, hturn]
        rfl
    | _ =>
      rw [step, hturn]
      exact hstay
  | go =>
    cases hturn : l.turn with
    | process cb =>
      rw [step, hturn]
      exact paired_processNext h (by rw [ending, hturn]) cb
    | free =>
      rw [step, hturn]
      exact ⟨given, paired_freeNext h⟩
    | _ =>
      rw [step, hturn]
      exact hstay

/-- In every run callbacks and replies are paired. -/
theorem pairing_run (host : Arg) (port : Int) {moves : List (SocketMove α)}
    (h : Along step InputFits (start host port) moves) :
    ∀ l ∈ moves.scanl step (start host port), l.Pairing := by
  have hstep : ∀ (l : AsyncSocket α) move, l.Pairing → l.InputFits move → (l.step move).Pairing :=
    fun l move hl hfit => pairing_step hl hfit
  exact Along.forall_scanl hstep ⟨[], [], [], paired_start host port⟩ h

/-- In every state of every run, the callbacks that were run and behind them those that wait
are the ones of the accepted commands, in their order: none is lost and none is run twice. A
callback without a reply has none with a reply behind it, and when the context is freed
every callback was run. -/
theorem callbacks_in_order (host : Arg) (port : Int) {moves : List (SocketMove α)}
    (h : Along step InputFits (start host port) moves) :
    ∀ l ∈ moves.scanl step (start host port),
      l.delivered.map (fun d => .call d.1) ++ l.ac.replies =
        l.sent.map (fun cmd => RedisCallback.call cmd.1) ∧
      l.delivered.Pairwise (fun d d' => d.2 = none → d'.2 = none) ∧
      (l.turn = .freed → l.delivered.map Prod.fst = l.sent.map Prod.fst) := by
  intro l hl
  obtain ⟨given, nulls, pend, hp⟩ := pairing_run host port h l hl
  have hfst : l.delivered.map Prod.fst = given.map Prod.fst ++ nulls := by
    rw [hp.delivered, List.map_append, List.map_map, List.map_map]
    exact congrArg _ (List.map_id _)
  have hall : l.delivered.map Prod.fst ++ pend = l.sent.map Prod.fst := by rw [hfst, hp.sent]
  refine ⟨?_, ?_, fun hfreed => ?_⟩
  · have hcalls := congrArg (List.map RedisCallback.call) hall
    rw [List.map_append, List.map_map, List.map_map, ← hp.replies] at hcalls
    exact hcalls
  · rw [hp.delivered, List.pairwise_append]
    refine ⟨?_, ?_, ?_⟩
    · refine List.pairwise_of_forall_mem_list fun d hd d' hd' hnone => ?_
      obtain ⟨p, -, rfl⟩ := List.mem_map.mp hd
      cases hnone
    · refine List.pairwise_of_forall_mem_list fun d hd d' hd' hnone => ?_
      obtain ⟨p, -, rfl⟩ := List.mem_map.mp hd'
      rfl
    · intro d hd d' hd' hnone
      obtain ⟨p, -, rfl⟩ := List.mem_map.mp hd
      cases hnone
  · rw [hp.freed hfreed, List.append_nil] at hall
    exact hall

/-- Two commands, of which one is answered before the connection ends. -/
def getThenQuit : List (SocketMove ℕ) :=
  [.command (some 5) [[71]], .command (some 6) [[71]], .writable .none (.wrote 1),
    .readable .none (.data [58, 55, 13, 10]), .go, .ret, .go, .readable .none (.data []), .go,
    .ret, .go]

theorem callbacks_in_order_quit :
    (getThenQuit.foldl step (start [] 0)).delivered.map Prod.fst = [some 5, some 6] := by
  have h : Along step InputFits (start [] 0) getThenQuit := by decide +kernel
  exact ((callbacks_in_order [] 0 h _ (foldl_mem_scanl ..)).2.2 (by decide +kernel)).trans
    (by decide +kernel)

/-- In every state of every run, when what the server has sent is the beginning of the texts of
some values, the callbacks that were run got the first of these values, in order, and behind
them nothing. When all texts have arrived and the context waits for an event, each value that
is not nested too deeply was given to a callback. -/
theorem callbacks_get_replies (host : Arg) (port : Int) {moves : List (SocketMove α)}
    (h : Along step InputFits (start host port) moves) :
    ∀ l ∈ moves.scanl step (start host port), ∀ (xs : List Resp) (more : List UInt8),
      (∀ x ∈ xs, x.Legal) → l.received ++ more = Resp.encodeAll xs →
      ∃ n ≤ xs.length, ∃ m, l.delivered.map Prod.snd =
          (xs.take n).map (fun x => some x.toReply) ++ List.replicate m none ∧
        (l.turn = .idle → more = [] →
          m = 0 ∧ xs.take n = xs.takeWhile (·.levels ≤ 8)) := by
  intro l hl xs more hxs hreceived
  obtain ⟨given, nulls, pend, hp⟩ := pairing_run host port h l hl
  have hdrain := congrArg Prod.fst (drain_values hxs)
  dsimp only at hdrain
  have hfront : given.map Prod.snd <+: (xs.takeWhile (·.levels ≤ 8)).map Resp.toReply := by
    rw [← hdrain, ← hreceived]
    exact hp.replies_prefix.trans (scanner.drain_prefix ..)
  have hlen : given.length ≤ (xs.takeWhile (·.levels ≤ 8)).length := by
    have hle := hfront.length_le
    rw [List.length_map, List.length_map] at hle
    exact hle
  have hwhile : (xs.takeWhile (·.levels ≤ 8)) <+: xs := List.takeWhile_prefix _
  have htake : xs.take given.length = (xs.takeWhile (·.levels ≤ 8)).take given.length := by
    obtain ⟨rest, hrest⟩ := hwhile
    conv_lhs => rw [← hrest]
    exact List.take_append_of_le_length hlen
  have hgiven : given.map Prod.snd = (xs.take given.length).map Resp.toReply := by
    have heq := List.prefix_iff_eq_take.mp hfront
    rw [List.length_map, ← List.map_take, ← htake] at heq
    exact heq
  refine ⟨given.length, hlen.trans hwhile.length_le, nulls.length, ?_, fun hidle hmore => ?_⟩
  · have hsome := congrArg (List.map some) hgiven
    rw [List.map_map, List.map_map] at hsome
    rw [hp.delivered, List.map_append, List.map_map, List.map_map]
    exact congrArg₂ _ hsome (List.map_const' ..)
  · obtain ⟨hnulls, -⟩ := hp.standing (by rw [ending, hidle])
    have hall := hp.idle hidle
    rw [hmore, List.append_nil] at hreceived
    rw [hreceived, hdrain] at hall
    have hlength := congrArg List.length hall
    rw [List.length_map, List.length_map] at hlength
    refine ⟨by rw [hnulls]; rfl, ?_⟩
    rw [htake, ← hlength, List.take_length]

theorem callbacks_get_replies_quit : ∃ n ≤ 1, ∃ m,
    (getThenQuit.foldl step (start [] 0)).delivered.map Prod.snd =
      ([Resp.integer 7].take n).map (fun x => some x.toReply) ++ List.replicate m none := by
  have h : Along step InputFits (start [] 0) getThenQuit := by decide +kernel
  have hlegal : ∀ x ∈ [Resp.integer 7], x.Legal := by
    simpa using Resp.Legal.integer (by decide) (by decide)
  obtain ⟨n, hn, m, hdelivered, -⟩ :=
    callbacks_get_replies [] 0 h _ (foldl_mem_scanl ..) [.integer 7] [] hlegal (by decide +kernel)
  exact ⟨n, hn, m, hdelivered⟩

/-- Whoever reads what a context has written reads the commands in the order in which they were
accepted, one array for each, however the bytes are cut in writing and in reading. When all of
them have come, nothing else is read. -/
theorem commands_at_peer (host : Arg) (port : Int) {moves : List (SocketMove α)}
    (h : Along step OutputFits (start host port) moves) {calls : List ReaderCall}
    (hcalls : Along Session.step Session.Fits Session.start calls) :
    ∀ l ∈ moves.scanl step (start host port), ∀ more : List UInt8,
      (Session.run calls).received ++ more = l.written →
      (Session.run calls).replies <+: l.sent.map (fun cmd =>
        .array cmd.2.length (cmd.2.map fun arg => some (.text .string arg))) ∧
      ((Session.run calls).Exhausted → more = [] → l.obuf.buf = [] →
        (Session.run calls).replies = l.sent.map (fun cmd =>
          .array cmd.2.length (cmd.2.map fun arg => some (.text .string arg))) ∧
        ((Session.run calls).step .getReply).reader.err = none) := by
  intro l hl more hreceived
  have hstep : ∀ (l : AsyncSocket α) move, l.Flushing → l.OutputFits move →
      (l.step move).Flushing := fun l move hl hfit => flushing_step hl hfit
  have hflush := Along.forall_scanl hstep (flushing_start host port) h l hl
  have htexts : (l.sent.map Prod.snd).map redisFormatCommandArgv =
      (l.sent.map fun cmd => commandText cmd.2).map some := by
    rw [List.map_map, List.map_map]
    exact List.map_congr_left hflush.formatted
  have hdrain := drain_commands htexts
  rw [List.map_map] at hdrain
  have hstream : (Session.run calls).received ++ (more ++ l.obuf.buf) =
      (l.sent.map fun cmd => commandText cmd.2).flatten := by
    rw [← List.append_assoc, hreceived]
    exact hflush.texts
  obtain ⟨hfront, hend⟩ := (Session.standing_run hcalls).of_stream hstream hdrain
  refine ⟨hfront, fun he hmore hobuf => ?_⟩
  obtain ⟨hall, hstatus⟩ := hend he (by rw [hmore, hobuf]; rfl)
  cases hstatus with
  | wait hundef herr => exact ⟨hall, herr⟩

theorem commands_at_peer_get :
    (Session.run [.feed (commandText [[71]]), .getReply]).replies =
      [.array 1 [some (.text .string [71])]] := by
  have h : Along step OutputFits (start [] 0) sendGet := by decide +kernel
  have hcalls : Along Session.step Session.Fits Session.start
      [.feed (commandText [[71]]), .getReply] := by decide +kernel
  have hsent : (sendGet.foldl step (start [] 0)).sent = [(some 5, [[71]])] := by decide +kernel
  have hread := ((commands_at_peer [] 0 h hcalls _ (foldl_mem_scanl ..) [] (by decide +kernel)).2
    (by decide +kernel) rfl (by decide +kernel)).1
  rw [hsent] at hread
  exact hread

end ServerCom.Redis.AsyncSocket
