import ServerCom.Core.Machine.Guarded
import ServerCom.Redis.Interpretation.AsyncPairing

/-!
# The output of a context

A context writes the texts of its commands in order, each byte once, whatever the socket
takes at a time and whatever else happens. While something is left to write, the loop waits
for the socket.
-/

namespace ServerCom.Redis.AsyncSocket

open Machine Text

variable {α : Type*} {l l' : AsyncSocket α}

/-- The texts of the commands that were sent. -/
def texts (sent : List (Option α × List Arg)) : List UInt8 :=
  (sent.map fun cmd => commandText cmd.2).flatten

/-- Nothing happens to the output. -/
structure SameOutput (l l' : AsyncSocket α) : Prop where
  /-- `obuf`. -/
  obuf : l'.obuf = l.obuf
  /-- What was written. -/
  written : l'.written = l.written
  /-- What was sent. -/
  sent : l'.sent = l.sent
  /-- The loop waits until the socket can be written. -/
  writing : l'.writing = l.writing

theorem SameOutput.refl (l : AsyncSocket α) : SameOutput l l := ⟨rfl, rfl, rfl, rfl⟩

/-- Nothing happens in two steps if it does in neither. -/
theorem SameOutput.trans {l₁ l₂ l₃ : AsyncSocket α} (h : SameOutput l₁ l₂) (h' : SameOutput l₂ l₃) :
    SameOutput l₁ l₃ :=
  ⟨h'.obuf.trans h.obuf, h'.written.trans h.written, h'.sent.trans h.sent,
    h'.writing.trans h.writing⟩

/-- `__redisAsyncDisconnect` leaves the output as it is. -/
theorem sameOutput_asyncDisconnect (l : AsyncSocket α) : SameOutput l l.asyncDisconnect := by
  unfold asyncDisconnect
  cases l.err with
  | none =>
    dsimp only
    split_ifs <;> exact ⟨rfl, rfl, rfl, rfl⟩
  | some err => exact ⟨rfl, rfl, rfl, rfl⟩

theorem SameOutput.asyncDisconnect (h : SameOutput l l') : SameOutput l l'.asyncDisconnect :=
  h.trans (sameOutput_asyncDisconnect l')

/-- `redisAsyncDisconnect` leaves the output as it is: it is still flushed. -/
theorem sameOutput_disconnect (l : AsyncSocket α) : SameOutput l l.disconnect := by
  unfold disconnect
  dsimp only
  split_ifs
  · exact SameOutput.asyncDisconnect ⟨rfl, rfl, rfl, rfl⟩
  · exact ⟨rfl, rfl, rfl, rfl⟩

theorem sameOutput_runCallback (l : AsyncSocket α) (ac : AsyncContext α) (cb : RedisCallback α)
    (reply : RedisReply) : SameOutput l (l.runCallback ac cb reply) := by
  cases cb <;> exact ⟨rfl, rfl, rfl, rfl⟩

theorem sameOutput_processReply (l : AsyncSocket α) (cb : RedisCallback α) (reply : RedisReply) :
    SameOutput l (l.processReply cb reply) := by
  have hspontaneous : SameOutput l (l.spontaneous cb reply) := by
    rw [spontaneous]
    split_ifs
    · cases getSubscribeCallback l.ac cb reply with
      | none => exact ⟨rfl, rfl, rfl, rfl⟩
      | some found => exact sameOutput_runCallback ..
    · exact sameOutput_runCallback ..
    · exact ⟨rfl, rfl, rfl, rfl⟩
  unfold processReply
  cases l.ac.replies with
  | cons cb replies => exact sameOutput_runCallback ..
  | nil =>
    cases reply with
    | text type str =>
      cases type with
      | error => exact SameOutput.asyncDisconnect ⟨rfl, rfl, rfl, rfl⟩
      | _ => exact hspontaneous
    | _ => exact hspontaneous

theorem SameOutput.processReply (h : SameOutput l l') (cb : RedisCallback α) (reply : RedisReply) :
    SameOutput l (l'.processReply cb reply) :=
  h.trans (sameOutput_processReply l' cb reply)

/-- Looking for the next reply leaves the output as it is. -/
theorem sameOutput_processNext (l : AsyncSocket α) (cb : RedisCallback α) :
    SameOutput l (l.processNext cb) := by
  unfold processNext
  cases l.reader.getReply with
  | none => exact ⟨rfl, rfl, rfl, rfl⟩
  | some answer =>
    obtain ⟨(_ | reply) | _, reader⟩ := answer
    · dsimp only
      split_ifs
      · exact SameOutput.asyncDisconnect ⟨rfl, rfl, rfl, rfl⟩
      · exact ⟨rfl, rfl, rfl, rfl⟩
      · exact ⟨rfl, rfl, rfl, rfl⟩
    · dsimp only
      refine SameOutput.processReply ?_ cb reply
      exact ⟨rfl, rfl, rfl, rfl⟩
    · exact SameOutput.asyncDisconnect ⟨rfl, rfl, rfl, rfl⟩

theorem sameOutput_bufferRead (l : AsyncSocket α) (answer : ReadAnswer) :
    SameOutput l (l.bufferRead answer).2 := by
  unfold bufferRead
  split_ifs
  · exact .refl l
  · cases answer with
    | again => exact .refl l
    | failed str => exact ⟨rfl, rfl, rfl, rfl⟩
    | data bytes =>
      dsimp only
      split_ifs <;> exact ⟨rfl, rfl, rfl, rfl⟩

/-- The end of connecting leaves the output as it is. -/
theorem sameOutput_handleConnect (l : AsyncSocket α) (sock : SocketError) :
    SameOutput l (l.handleConnect sock).2 := by
  unfold handleConnect
  split_ifs
  · exact .refl l
  · cases sock with
    | none => exact ⟨rfl, rfl, rfl, rfl⟩
    | inProgress str => exact ⟨rfl, rfl, rfl, rfl⟩
    | failed str =>
      dsimp only
      exact SameOutput.asyncDisconnect ⟨rfl, rfl, rfl, rfl⟩

/-- A readable socket changes nothing of the output. -/
theorem sameOutput_handleRead (l : AsyncSocket α) (sock : SocketError) (answer : ReadAnswer) :
    SameOutput l (l.handleRead sock answer) := by
  have hconnect := sameOutput_handleConnect l sock
  unfold handleRead
  generalize l.handleConnect sock = res at hconnect
  obtain ⟨connected, l₁⟩ := res
  cases connected with
  | false => exact hconnect
  | true =>
    have hread := sameOutput_bufferRead l₁ answer
    dsimp only
    generalize l₁.bufferRead answer = res at hread
    obtain ⟨ok, l₂⟩ := res
    cases ok with
    | false => exact (hconnect.trans hread).asyncDisconnect
    | true => exact (hconnect.trans hread).trans ⟨rfl, rfl, rfl, rfl⟩

/-! ## The invariant -/

/-- The output is in order. -/
structure Flushing (l : AsyncSocket α) : Prop where
  /-- What was written and what is left are the texts of the commands. -/
  texts : l.written ++ l.obuf.buf = texts l.sent
  /-- What is left is counted by an `int`. -/
  len : l.obuf.len < 2 ^ 31
  /-- The loop waits while something is left. -/
  writing : l.obuf.buf ≠ [] → l.writing = true ∨ l.ending = true
  /-- Every command has a text. -/
  formatted : ∀ cmd ∈ l.sent, redisFormatCommandArgv cmd.2 = some (commandText cmd.2)

/-- A text fits into the output, and no more is written than there is. -/
def OutputFits (l : AsyncSocket α) : SocketMove α → Prop
  | .command _ args => l.obuf.len + totlen args < 2 ^ 31
  | .writable _ (.wrote n) => n ≤ l.obuf.len
  | _ => True

instance OutputFits.decidable (l : AsyncSocket α) :
    (move : SocketMove α) → Decidable (l.OutputFits move)
  | .command _ args => inferInstanceAs (Decidable (l.obuf.len + totlen args < 2 ^ 31))
  | .writable _ (.wrote n) => inferInstanceAs (Decidable (n ≤ l.obuf.len))
  | .writable _ .again | .writable _ (.failed _) => .isTrue trivial
  | .disconnect | .readable _ _ | .ret | .go => .isTrue trivial

/-- Where nothing happens to the output it stays in order. -/
theorem Flushing.of_same (h : l.Flushing) (hsame : SameOutput l l')
    (hending : l.ending = true → l'.ending = true) : l'.Flushing where
  texts := by rw [hsame.written, hsame.obuf, hsame.sent, h.texts]
  len := by rw [hsame.obuf]; exact h.len
  writing hne := by
    rw [hsame.obuf] at hne
    rw [hsame.writing]
    exact (h.writing hne).imp_right hending
  formatted := by rw [hsame.sent]; exact h.formatted

/-- A new context has sent and written nothing. -/
theorem flushing_start (host : Arg) (port : Int) :
    (start host port : AsyncSocket α).Flushing :=
  ⟨rfl, Nat.two_pow_pos 31, fun h => absurd rfl h, fun _ h => absurd h List.not_mem_nil⟩

/-- An accepted command stands behind the output. -/
theorem flushing_commandArgv (h : l.Flushing) {privdata : Option α} {args : List Arg}
    (hfit : l.obuf.len + totlen args < 2 ^ 31) : (l.commandArgv privdata args).Flushing := by
  have hundef : ({ l with turn := .undefined } : AsyncSocket α).Flushing :=
    h.of_same ⟨rfl, rfl, rfl, rfl⟩ fun _ => rfl
  unfold commandArgv
  rw [redisFormatCommandArgv]
  split_ifs with htotal
  · dsimp only
    cases l.ac.command privdata (arguments (commandText args)) with
    | assertion => exact hundef
    | err => exact h
    | ok ac =>
      have hlen : (commandText args).length = totlen args := by
        rw [commandText_eq, length_respArray]
      refine ⟨?_, ?_, fun _ => .inl rfl, fun cmd hcmd => ?_⟩
      · dsimp only
        rw [Sds.buf_catlen, ← List.append_assoc, h.texts, AsyncSocket.texts, AsyncSocket.texts,
          List.map_append, List.flatten_append]
        simp
      · dsimp only
        rw [Sds.len, Sds.buf_catlen, List.length_append, hlen]
        exact hfit
      · rcases List.mem_append.mp hcmd with hmem | hmem
        · exact h.formatted cmd hmem
        · rw [List.mem_singleton.mp hmem, redisFormatCommandArgv, if_pos htotal]
  · exact hundef

/-- The first bytes of the output move to the socket. -/
theorem flushing_bufferWrite (h : l.Flushing) {answer : WriteAnswer}
    (hfit : ∀ n, answer = .wrote n → n ≤ l.obuf.len) :
    (l.bufferWrite answer).2.2.written ++ (l.bufferWrite answer).2.2.obuf.buf = texts l.sent ∧
      (l.bufferWrite answer).2.2.obuf.len < 2 ^ 31 ∧ (l.bufferWrite answer).2.2.sent = l.sent ∧
      (l.bufferWrite answer).2.2.turn = l.turn ∧
      ((l.bufferWrite answer).1 = true → ((l.bufferWrite answer).2.1 = true ↔
        (l.bufferWrite answer).2.2.obuf.buf = [])) := by
  unfold bufferWrite
  split_ifs with herr hzero
  · exact ⟨h.texts, h.len, rfl, rfl, fun h => h.elim⟩
  · exact ⟨h.texts, h.len, rfl, rfl, fun _ => iff_of_true rfl (List.eq_nil_of_length_eq_zero hzero)⟩
  · cases answer with
    | again =>
      refine ⟨h.texts, h.len, rfl, rfl, fun _ => iff_of_false Bool.false_ne_true fun hnil => ?_⟩
      exact hzero (by rw [Sds.len, hnil]; rfl)
    | failed str => exact ⟨h.texts, h.len, rfl, rfl, fun h => absurd h Bool.false_ne_true⟩
    | wrote n =>
      have hle := hfit n rfl
      have hdrop : (if n = 0 then l.obuf else if n = l.obuf.len then .empty
          else l.obuf.range n (-1)).buf = l.obuf.buf.drop n := by
        split_ifs with hn hall
        · rw [hn, List.drop_zero]
        · rw [hall, Sds.len, List.drop_length]
          rfl
        · exact Sds.buf_range_drop h.len hle
      dsimp only
      refine ⟨?_, ?_, rfl, rfl, fun _ => ?_⟩
      · rw [hdrop, List.append_assoc, List.take_append_drop, h.texts]
      · rw [Sds.len, hdrop, List.length_drop]
        have := h.len
        rw [Sds.len] at this
        omega
      · rw [decide_eq_true_eq, Sds.len, List.length_eq_zero_iff]

/-- The output is in order behind `redisAsyncDisconnect`. -/
theorem flushing_disconnect (h : l.Flushing) : l.disconnect.Flushing := by
  refine h.of_same (sameOutput_disconnect l) fun hend => ?_
  unfold disconnect
  dsimp only
  split_ifs
  · exact (ending_asyncDisconnect _).1
  · exact hend

/-- What is written goes from the front of the buffer to the socket. -/
theorem flushing_handleWrite (h : l.Flushing) {sock : SocketError} {answer : WriteAnswer}
    (hturn : l.turn = .idle) (hfit : l.OutputFits (.writable sock answer)) :
    (l.handleWrite sock answer).Flushing := by
  have hlive : ¬ l.ending = true := by
    rw [ending, hturn]
    exact Bool.false_ne_true
  have hconnect := sameOutput_handleConnect l sock
  unfold handleWrite
  generalize l.handleConnect sock = res at hconnect
  obtain ⟨connected, l₁⟩ := res
  have h₁ : l₁.Flushing := h.of_same hconnect fun hend => absurd hend hlive
  cases connected with
  | false => exact h₁
  | true =>
    have hn : ∀ n, answer = .wrote n → n ≤ l₁.obuf.len := by
      rintro n rfl
      rw [hconnect.obuf]
      exact hfit
    obtain ⟨htexts, hlen, hsent, -, hdone⟩ := flushing_bufferWrite h₁ hn
    dsimp only
    generalize l₁.bufferWrite answer = res at htexts hlen hsent hdone
    obtain ⟨ok, done, l₂⟩ := res
    cases ok with
    | false =>
      have hsame := sameOutput_asyncDisconnect l₂
      refine ⟨?_, ?_, fun _ => .inr (ending_asyncDisconnect l₂).1, ?_⟩
      · rw [hsame.written, hsame.obuf, hsame.sent, hsent]
        exact htexts
      · rw [hsame.obuf]
        exact hlen
      · rw [hsame.sent, hsent]
        exact h₁.formatted
    | true =>
      refine ⟨by rw [← hsent] at htexts; exact htexts, hlen, fun hne => .inl ?_,
        fun cmd hcmd => h₁.formatted cmd (by rw [← hsent]; exact hcmd)⟩
      have hnot : done = false := by
        cases hd : done with
        | false => rfl
        | true => exact absurd ((hdone rfl).mp hd) hne
      dsimp only
      rw [hnot]
      rfl

/-- Every move keeps the output in order. -/
theorem flushing_step (h : l.Flushing) {move : SocketMove α} (hfit : l.OutputFits move) :
    (l.step move).Flushing := by
  cases move with
  | command privdata args =>
    rw [step]
    split_ifs
    · exact flushing_commandArgv h hfit
    · exact h
  | disconnect =>
    rw [step]
    split_ifs
    · exact flushing_disconnect h
    · exact h
  | readable sock answer =>
    cases hturn : l.turn with
    | idle =>
      have hlive : ¬ l.ending = true := by
        rw [ending, hturn]
        exact Bool.false_ne_true
      rw [step, hturn]
      dsimp only
      split_ifs
      · exact h.of_same (sameOutput_handleRead ..) fun hend => absurd hend hlive
      · exact h
    | _ =>
      rw [step, hturn]
      exact h
  | writable sock answer =>
    cases hturn : l.turn with
    | idle =>
      rw [step, hturn]
      dsimp only
      split_ifs
      · exact flushing_handleWrite h hturn hfit
      · exact h
    | _ =>
      rw [step, hturn]
      exact h
  | ret =>
    cases hturn : l.turn with
    | callback cb =>
      have hlive : ¬ l.ending = true := by
        rw [ending, hturn]
        exact Bool.false_ne_true
      rw [step, hturn]
      exact h.of_same ⟨rfl, rfl, rfl, rfl⟩ fun hend => absurd hend hlive
    | freeCallback =>
      rw [step, hturn]
      exact h.of_same ⟨rfl, rfl, rfl, rfl⟩ fun _ => rfl
    | _ =>
      rw [step, hturn]
      exact h
  | go =>
    cases hturn : l.turn with
    | process cb =>
      have hlive : ¬ l.ending = true := by
        rw [ending, hturn]
        exact Bool.false_ne_true
      rw [step, hturn]
      exact h.of_same (sameOutput_processNext l cb) fun hend => absurd hend hlive
    | free =>
      rw [step, hturn]
      dsimp only
      unfold freeNext
      cases l.ac.nextPending with
      | none => exact ⟨h.texts, h.len, fun _ => .inr rfl, h.formatted⟩
      | some found =>
        have hend : l.ending = true := by rw [ending, hturn]
        obtain ⟨_ | privdata, ac⟩ := found
        · exact ⟨h.texts, h.len, fun _ => .inr hend, h.formatted⟩
        · exact ⟨h.texts, h.len, fun _ => .inr rfl, h.formatted⟩
    | _ =>
      rw [step, hturn]
      exact h

/-- In every state of every run, what a context has written is the beginning of the texts of
its commands, in the order in which they were accepted, and `obuf` is the rest; and while the
rest is not empty, the loop waits until the socket can be written. -/
theorem written_in_order (host : Arg) (port : Int) {moves : List (SocketMove α)}
    (h : Along step OutputFits (start host port) moves) :
    ∀ l ∈ moves.scanl step (start host port),
      l.written ++ l.obuf.buf = texts l.sent ∧
      (l.obuf.buf ≠ [] → l.writing = true ∨ l.ending = true) := by
  intro l hl
  have hstep : ∀ (l : AsyncSocket α) move, l.Flushing → l.OutputFits move →
      (l.step move).Flushing := fun l move hl hfit => flushing_step hl hfit
  have hinv := Along.forall_scanl hstep (flushing_start host port) h l hl
  exact ⟨hinv.texts, hinv.writing⟩

/-- A command of which the socket takes one byte first. -/
def sendGet : List (SocketMove ℕ) :=
  [.command (some 5) [[71]], .writable .none (.wrote 1), .writable .none (.wrote 10)]

theorem written_in_order_get :
    (sendGet.foldl step (start [] 0)).written ++ (sendGet.foldl step (start [] 0)).obuf.buf =
      texts (sendGet.foldl step (start [] 0)).sent := by
  have h : Along step OutputFits (start [] 0) sendGet := by decide +kernel
  exact (written_in_order [] 0 h _ (foldl_mem_scanl ..)).1

end ServerCom.Redis.AsyncSocket
