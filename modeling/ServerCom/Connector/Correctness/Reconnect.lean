import ServerCom.Connector.Correctness.Splitting
import ServerCom.Connector.Interpretation.Held
import ServerCom.Connector.Native.Session

/-!
# The parser of a reconnected object

No operation touches the parsing state, so a connection starts with what the one
before has left. Its input is received as by a fresh object exactly when nothing
is held then.
-/

namespace ServerCom.Connector

variable {rd : BuffereventRead} {r₁ r₂ : Reader}

/-- Objects that hold the same bytes receive the same. -/
theorem receive_alike (rd : BuffereventRead) (h : r₁.held = r₂.held) (buffered : List UInt8)
    (chunks : List (List UInt8)) :
    RunsAlike (receive rd r₁ buffered chunks) (receive rd r₂ buffered chunks) := by
  induction chunks generalizing r₁ r₂ buffered with
  | nil => exact ⟨rfl, .returned h⟩
  | cons chunk chunks ih =>
    have hcall := connReadCallback_alike rd h (buffered ++ chunk)
    rw [receive, receive]
    generalize connReadCallback rd r₁ _ = p₁ at hcall ⊢
    generalize connReadCallback rd r₂ _ = p₂ at hcall ⊢
    obtain ⟨msgs₁, e₁⟩ := p₁
    obtain ⟨msgs₂, e₂⟩ := p₂
    obtain ⟨hms, hend⟩ := hcall
    cases hend with
    | @returned _ _ left h' =>
      obtain ⟨hrest, hlast⟩ := ih h' left
      refine ⟨?_, hlast⟩
      rw [List.map_append, List.map_append, hrest]
      exact congrArg (· ++ _) hms
    | disConnect h' => exact ⟨hms, .disConnect h'⟩
    | overrun => exact ⟨hms, .overrun⟩

/-- Readers that hold the same bytes wait alike. -/
theorem isWaitCompleteMsg_eq (h : r₁.held = r₂.held) :
    r₁.isWaitCompleteMsg = r₂.isWaitCompleteMsg := by
  rw [Reader.isWaitCompleteMsg, Reader.msgWriteLen_eq_of_held h]
  rfl

/-- Readers that hold the same bytes wait alike before and behind every callback. -/
theorem waits_eq (h : r₁.held = r₂.held) (buffered : List UInt8) (chunks : List (List UInt8)) :
    waits rd r₁ buffered chunks = waits rd r₂ buffered chunks := by
  induction chunks generalizing r₁ r₂ buffered with
  | nil => rw [waits, waits, isWaitCompleteMsg_eq h]
  | cons chunk chunks ih =>
    have hcall := connReadCallback_alike rd h (buffered ++ chunk)
    rw [waits, waits, isWaitCompleteMsg_eq h]
    generalize connReadCallback rd r₁ _ = p₁ at hcall ⊢
    generalize connReadCallback rd r₂ _ = p₂ at hcall ⊢
    obtain ⟨msgs₁, e₁⟩ := p₁
    obtain ⟨msgs₂, e₂⟩ := p₂
    cases hcall.2 with
    | @returned _ _ left h' => exact congrArg _ (ih h' left)
    | disConnect h' => exact congrArg (fun b => _ :: [b]) (isWaitCompleteMsg_eq h')
    | overrun => rfl

/-- The user cannot tell objects apart that hold the same bytes. -/
theorem session_eq (h : r₁.held = r₂.held) (chunks : List (List UInt8)) :
    session rd r₁ chunks = session rd r₂ chunks := by
  obtain ⟨hms, hend⟩ := receive_alike rd h [] chunks
  have hverdict : (receive rd r₁ [] chunks).2.verdict = (receive rd r₂ [] chunks).2.verdict := by
    generalize (receive rd r₁ [] chunks).2 = e₁ at hend ⊢
    generalize (receive rd r₂ [] chunks).2 = e₂ at hend ⊢
    cases hend <;> rfl
  rw [session, session, observe, observe, hms, hverdict, waits_eq h]

/-- The first of the answers is the one before the first callback. -/
theorem head?_waits (r : Reader) (buffered : List UInt8) (chunks : List (List UInt8)) :
    (waits rd r buffered chunks).head? = some r.isWaitCompleteMsg := by
  cases chunks <;> rw [waits] <;> rfl

/-- An object is received by like a fresh one exactly when it holds nothing. -/
theorem session_eq_fresh_iff {r : Reader} (msg : MsgPack) (chunks : List (List UInt8)) :
    session rd r chunks = session rd (.fresh msg) chunks ↔ r.isWaitCompleteMsg = false := by
  constructor
  · intro h
    have hw : waits rd r [] chunks = waits rd (.fresh msg) [] chunks := congrArg Prod.snd h
    have hhead := congrArg List.head? hw
    rw [head?_waits, head?_waits] at hhead
    exact Option.some.inj hhead
  · intro h
    exact session_eq ((Reader.held_eq_nil_iff.mpr h).trans (Reader.held_fresh msg).symm) chunks

namespace Connection

variable {c : Connection}

/-- No operation touches the parsing state. -/
theorem reader_step (c : Connection) (op : Operation) : (c.step op).reader = c.reader := by
  cases op with
  | connectInitIp ip port o =>
    rw [step, connectInitIp.eq_def]
    split_ifs
    · rfl
    · cases ip with
      | none => rfl
      | some ip => exact reader_connectByAddr ..
  | connectInit svrAddr o =>
    rw [step, connectInit]
    split_ifs
    · rfl
    · exact reader_connectByAddr ..
  | baseAcceptInit fd sa newOk =>
    rw [step, baseAcceptInit]
    cases newOk <;> split_ifs <;> rfl
  | tryReconnect o =>
    rw [step, tryReconnect]
    split_ifs
    · rfl
    · exact reader_connectByAddr ..
  | disConnect => exact c.reader_free
  | event bev events =>
    rw [step]
    split_ifs
    · rw [connEventCallback]
      split_ifs
      · rfl
      · exact c.reader_free
    · rfl

/-- Operations between connections leave the reader as it is. -/
theorem reader_foldl_step (c : Connection) (ops : List Operation) :
    (ops.foldl step c).reader = c.reader := by
  induction ops generalizing c with
  | nil => rfl
  | cons op ops ih => rw [List.foldl_cons, ih, reader_step]

end Connection

/-- Whatever a first connection has left in the object, and whatever operations lie
between, the next connection is received like the first one of a fresh object exactly
when nothing is held. -/
theorem reconnect_like_fresh_iff (rd : BuffereventRead) (c : Connection)
    (between : List Operation) (msg : MsgPack) (chunks : List (List UInt8)) :
    session rd (between.foldl Connection.step c).reader chunks =
        session rd (.fresh msg) chunks ↔
      c.reader.isWaitCompleteMsg = false := by
  rw [Connection.reader_foldl_step]
  exact session_eq_fresh_iff msg chunks

/-- Two bytes of a header that the first connection has received become the head of
the second connection's first message. -/
theorem reconnect_keeps_partial_header :
    ∃ c, (([Operation.connectInit ⟨afInet, 80, 1⟩ ⟨5, true, true⟩, .event 0 0x80].foldl
          Connection.step (.construct default)).receive .full [[0, 0]]).2 = some c ∧
      ((c.step .disConnect).tryReconnect ⟨6, true, true⟩).2 = true ∧
      observe (receive .full
        ([.disConnect, .tryReconnect ⟨6, true, true⟩].foldl Connection.step c).reader []
        [[0, 0, 0, 1, 7, 9]]) = ([⟨0, []⟩], .kept) ∧
      observe (receive .full (.fresh default) [] [[0, 0, 0, 1, 7, 9]]) = ([⟨1, [7]⟩], .kept) := by
  obtain ⟨r, hend, hr⟩ := (connReadCallback_realises (r := .fresh default) (B := [0, 0])
    BuffereventRead.full_exact (.nil rfl) (Nat.zero_le _) (by decide)).returned
    (congrArg Prod.snd (Framing.parse_short (by decide)))
  refine ⟨{ ([Operation.connectInit ⟨afInet, 80, 1⟩ ⟨5, true, true⟩, .event 0 0x80].foldl
    Connection.step (.construct default)) with reader := r }, ?_, rfl, ?_, ?_⟩
  · have hreader := Connection.reader_foldl_step (.construct default)
      [.connectInit ⟨afInet, 80, 1⟩ ⟨5, true, true⟩, .event 0 0x80]
    have hcall := (congrArg (connReadCallback .full · [0, 0]) hreader).trans hend
    exact congrArg Prod.snd (Connection.receive_singleton_returned hcall)
  · rw [Connection.reader_foldl_step,
      (receive_explained BuffereventRead.full_exact hr (Framing.parse_short (by decide))
      [[0, 0, 0, 1, 7, 9]] (by simp) (by simp)).seen]
    decide +kernel
  · have hcut : Cut [0, 0, 0, 1, 7, 9] [[0, 0, 0, 1, 7, 9]] := ⟨rfl, by simp, by simp⟩
    rw [(hcut.explains BuffereventRead.full_exact default).seen]
    decide +kernel

end ServerCom.Connector
