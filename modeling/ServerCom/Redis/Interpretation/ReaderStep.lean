import ServerCom.Redis.Interpretation.ReplyScanner

/-!
# The calls of the reader

An item of the reader is an item of the scanner, its loop goes through the items up to the
next reply, and a call gives the first reply that is still to come. The number of items the
loop is allowed is never used up.
-/

namespace ServerCom.Redis.Reader

/-- The reply the reader has begun. -/
def pending (r : Reader) : Pending := ⟨r.rstack, r.reply⟩

/-- No error is set, and the position lies in the buffer. -/
structure Live (r : Reader) : Prop where
  /-- `err` is zero. -/
  err : r.err = none
  /-- The position is not behind the end. -/
  pos_le : r.pos ≤ r.buf.len

/-- How an item of the reader follows an item of the scanner. -/
inductive Follows (r : Reader) :
    ItemResult → Scanned UInt8 Pending RedisReply Refusal → Prop where
  /-- The reply goes on. -/
  | item {r' : Reader} (live : r'.Live) (buf : r'.buf = r.buf) (hstack : r'.rstack ≠ []) :
    Follows r (.ok r') (.item r'.pending none r'.unread)
  /-- A reply is complete. -/
  | reply {r' : Reader} {reply : RedisReply} (live : r'.Live) (buf : r'.buf = r.buf)
    (hstack : r'.rstack = []) (hreply : r'.reply = some reply) :
    Follows r (.ok r') (.item .start (some reply) r'.unread)
  /-- More has to arrive. -/
  | wait {r' : Reader} (live : r'.Live) (buf : r'.buf = r.buf) (hstack : r'.rstack ≠ []) :
    Follows r (.err r') (.wait r'.pending r'.unread)
  /-- An error is set. -/
  | error {q : Reader} (type : RedisErr) (str : List UInt8) :
    Follows r (.err (q.setError type str)) (.fail (.error type str))
  /-- There is no next state. -/
  | undefined : Follows r .undefined (.fail .undefined)

variable {r : Reader}

/-- What is left to read, from the position. -/
theorem length_unread (r : Reader) : r.unread.length = r.buf.len - r.pos := List.length_drop

/-- Reading on moves the position. -/
theorem drop_unread (r : Reader) (n : Nat) :
    r.unread.drop n = { r with pos := r.pos + n }.unread := by
  rw [unread, unread, List.drop_drop]

/-- A complete object is performed as a token. -/
theorem follows_complete (hl : r.Live) {n : Nat} (hn : r.pos + n ≤ r.buf.len) (o : RedisReply) :
    Follows r (r.complete (r.pos + n) o)
      (settle (r.unread.drop n) (r.pending.perform (.obj o))) := by
  unfold complete Pending.perform
  dsimp only [pending]
  cases hplace : place r.rstack r.reply o with
  | none => exact .undefined
  | some reply =>
    cases hmove : moveToNextTask r.rstack with
    | none => exact .undefined
    | some rstack =>
      let r' : Reader := { r with pos := r.pos + n, rstack := rstack, reply := some reply }
      have hrest : r.unread.drop n = r'.unread := r.drop_unread n
      have hlive : r'.Live := ⟨hl.err, hn⟩
      dsimp only [settle]
      rw [hrest]
      split_ifs with hnil
      · exact .reply hlive rfl hnil rfl
      · exact .item hlive rfl hnil

/-- A line is read as the scanner reads it. -/
theorem follows_line (hl : r.Live) (hlen : r.unread.length < 2 ^ 31) {type : ReplyType}
    (hs : r.rstack ≠ []) (htype : type ≠ .string ∧ type ≠ .array ∧ type ≠ .nil) :
    Follows r (r.processLineItem type) (scanTyped r.pending type r.unread) := by
  have htoken : token type r.unread = (findNewline r.unread).map fun n =>
      (.obj (lineObject type r.unread n), r.unread.drop (n + 2)) := by
    rw [token]
    cases findNewline r.unread with
    | none => rfl
    | some n =>
      cases type
      case string => exact absurd rfl htype.1
      case array => exact absurd rfl htype.2.1
      all_goals rfl
  rw [processLineItem, scanTyped, if_neg htype.2.2, if_neg (fun h => htype.2.1 h.1),
    seekNewline_eq hlen, htoken]
  cases hn : findNewline r.unread with
  | none => exact .wait hl rfl hs
  | some n =>
    have hle := findNewline_le hn
    rw [length_unread] at hle
    have hend : r.pos + (n + 2) ≤ r.buf.len := by
      have := hl.pos_le
      omega
    dsimp only
    rw [Nat.add_assoc]
    exact follows_complete hl hend _

/-- A bulk is read as the scanner reads it. -/
theorem follows_bulk (hl : r.Live) (hlen : r.unread.length < 2 ^ 31) (hs : r.rstack ≠ []) :
    Follows r r.processBulkItem (scanTyped r.pending .string r.unread) := by
  rw [processBulkItem, scanTyped, if_neg (show ReplyType.string ≠ .nil by decide),
    if_neg (fun h => by cases h.1), seekNewline_eq hlen, token]
  have hpos := hl.pos_le
  cases hn : findNewline r.unread with
  | none => exact .wait hl rfl hs
  | some n =>
    have hle := findNewline_le hn
    have hu := r.length_unread
    dsimp only
    by_cases hneg : readLongLong r.unread < 0
    · rw [if_pos hneg, if_pos hneg]
      exact follows_complete hl (by omega) _
    · rw [if_neg hneg, if_neg hneg]
      by_cases hfit : n + 2 + (readLongLong r.unread).toNat + 2 ≤ r.unread.length
      · rw [if_pos hfit, if_pos (by omega)]
        exact follows_complete hl (by omega) _
      · rw [if_neg hfit, if_neg (by omega)]
        exact .wait hl rfl hs

/-- The head of a multi-bulk is read as the scanner reads it. -/
theorem follows_multiBulk (hl : r.Live) (hlen : r.unread.length < 2 ^ 31) {cur : ReadTask}
    {below : List ReadTask} (hs : r.rstack = cur :: below) :
    Follows r (r.processMultiBulkItem cur below) (scanTyped r.pending .array r.unread) := by
  rw [processMultiBulkItem, scanTyped, if_neg (show ReplyType.array ≠ .nil by decide)]
  have hpos := hl.pos_le
  by_cases hdepth : r.rstack.length = 9
  · rw [if_pos hdepth, if_pos ⟨rfl, hdepth⟩]
    exact .error .protocol _
  · rw [if_neg hdepth, if_neg (fun h => hdepth h.2), seekNewline_eq hlen, token]
    cases hn : findNewline r.unread with
    | none => exact .wait hl rfl (hs ▸ List.cons_ne_nil _ _)
    | some n =>
      have hle := findNewline_le hn
      have hu := r.length_unread
      have hend : r.pos + (n + 2) ≤ r.buf.len := by omega
      dsimp only
      rw [Nat.add_assoc, arrayToken]
      by_cases hnil : readLongLong r.unread = -1
      · rw [if_pos hnil, if_pos hnil]
        exact follows_complete hl hend _
      · rw [if_neg hnil, if_neg hnil]
        by_cases hmore : 0 < readLongLong r.unread
        · rw [if_pos hmore, if_pos hmore]
          unfold Pending.perform
          dsimp only [pending]
          rw [hs]
          dsimp only
          cases hplace : place (cur :: below) r.reply
              (createArrayObject (int32 (readLongLong r.unread))) with
          | none => exact .undefined
          | some reply =>
            dsimp only [Option.map_some, settle]
            rw [if_neg (List.cons_ne_nil _ _), r.drop_unread]
            let r' := { r with
              pos := r.pos + (n + 2)
              rstack := newTask 0 ::
                { cur with elements := int32 (readLongLong r.unread) } :: below
              reply := some reply }
            have hlive : r'.Live := ⟨hl.err, hend⟩
            exact .item hlive rfl (List.cons_ne_nil _ _)
        · rw [if_neg hmore, if_neg hmore]
          exact follows_complete hl hend _

/-- Behind its type byte every item is read as the scanner reads it. -/
theorem follows_typed (hl : r.Live) (hlen : r.unread.length < 2 ^ 31) {cur : ReadTask}
    {below : List ReadTask} (hs : r.rstack = cur :: below) (type : ReplyType) :
    Follows r (r.processTyped type cur below) (scanTyped r.pending type r.unread) := by
  have hne : r.rstack ≠ [] := hs ▸ List.cons_ne_nil _ _
  cases type with
  | string => exact follows_bulk hl hlen hne
  | array => exact follows_multiBulk hl hlen hs
  | nil => exact .undefined
  | integer => exact follows_line hl hlen hne (by decide)
  | status => exact follows_line hl hlen hne (by decide)
  | error => exact follows_line hl hlen hne (by decide)

/-- An item that follows behind the byte of its type follows from this byte on. -/
theorem Follows.of_skip {q : Reader} {res : ItemResult}
    {scanned : Scanned UInt8 Pending RedisReply Refusal} (h : Follows q res scanned)
    (hbuf : q.buf = r.buf) : Follows r res scanned := by
  cases h with
  | item live buf hstack => exact .item live (buf.trans hbuf) hstack
  | reply live buf hstack hreply => exact .reply live (buf.trans hbuf) hstack hreply
  | wait live buf hstack => exact .wait live (buf.trans hbuf) hstack
  | error type str => exact .error type str
  | undefined => exact .undefined

/-- An item of the reader is an item of the scanner. -/
theorem follows_item (hl : r.Live) (hlen : r.unread.length < 2 ^ 31) :
    Follows r r.processItem (scanner.scan r.pending r.unread) := by
  change Follows r r.processItem (scanItem r.pending r.unread)
  unfold processItem scanItem
  dsimp only [pending]
  cases hs : r.rstack with
  | nil => exact .undefined
  | cons cur below =>
    dsimp only
    cases htype : cur.type with
    | some type =>
      dsimp only
      have h := follows_typed hl hlen hs type
      rw [pending, hs] at h
      exact h
    | none =>
      dsimp only
      cases hu : r.unread with
      | nil =>
        have h : Follows r (.err r) (.wait r.pending r.unread) :=
          .wait hl rfl (hs ▸ List.cons_ne_nil _ _)
        rw [pending, hs, hu] at h
        exact h
      | cons b u =>
        dsimp only
        cases hb : typeOfByte b with
        | none => exact .error .protocol _
        | some type =>
          dsimp only
          have hlong := r.length_unread
          rw [hu, List.length_cons] at hlong
          have hq : { r with pos := r.pos + 1, rstack := { cur with type := some type } :: below
              }.unread = u := by
            have hdrop := r.drop_unread 1
            rw [hu] at hdrop
            exact hdrop.symm
          have h := follows_typed (r := { r with
            pos := r.pos + 1, rstack := { cur with type := some type } :: below })
            ⟨hl.err, (by dsimp only; omega)⟩
            (by rw [hq]; rw [hu, List.length_cons] at hlen; omega) rfl type
          rw [hq] at h
          dsimp only [pending] at h
          exact h.of_skip rfl

/-! ## The loop -/

/-- What a reader may still give: its pending reply, or one that it has not begun. -/
def resume (r : Reader) : Pending := if r.rstack = [] then .start else r.pending

/-- In the middle of a reply the reader goes on where it was. -/
theorem resume_of_ne (h : r.rstack ≠ []) : r.resume = r.pending := if_neg h

/-- How the loop of a call ends. -/
inductive Polled (r : Reader) : ItemResult → Prop where
  /-- With a reply. -/
  | reply {r' : Reader} {reply : RedisReply} (live : r'.Live) (buf : r'.buf = r.buf)
    (hstack : r'.rstack = []) (hreply : r'.reply = some reply)
    (hdrain : scanner.drain r.pending r.unread =
      (reply :: (scanner.drain .start r'.unread).1, (scanner.drain .start r'.unread).2)) :
    Polled r (.ok r')
  /-- With nothing but what has arrived of the next reply. -/
  | wait {r' : Reader} (live : r'.Live) (buf : r'.buf = r.buf) (hstack : r'.rstack ≠ [])
    (hdrain : scanner.drain r.pending r.unread = ([], .wait r'.pending r'.unread)) :
    Polled r (.err r')
  /-- With an error. -/
  | error {q : Reader} {type : RedisErr} {str : List UInt8}
    (hdrain : scanner.drain r.pending r.unread = ([], .fail (.error type str))) :
    Polled r (.err (q.setError type str))
  /-- Without a meaning. -/
  | undefined (hdrain : scanner.drain r.pending r.unread = ([], .fail .undefined)) :
    Polled r .undefined

/-- The loop takes items up to the end of a reply, and it is never cut short. -/
theorem polled_processItems {fuel : Nat} (hl : r.Live) (hlen : r.unread.length < 2 ^ 31)
    (hs : r.rstack ≠ []) (hfuel : r.unread.length < fuel) : Polled r (processItems fuel r) := by
  induction fuel generalizing r with
  | zero => omega
  | succ fuel ih =>
    have hitem := follows_item hl hlen
    rw [processItems, if_neg hs]
    generalize hres : r.processItem = res at hitem
    generalize hscan : scanner.scan r.pending r.unread = scanned at hitem
    cases hitem with
    | @item r' live buf hstack =>
      have hshort := scanner.item_length hscan
      have hmax : r'.unread.length < 2 ^ 31 := by omega
      have hrun := Scanner.drain_item hscan
      rw [Option.toList_none, List.nil_append] at hrun
      dsimp only
      generalize hloop : processItems fuel r' = final
      have hp := ih live hmax hstack (by omega)
      rw [hloop] at hp
      cases hp with
      | reply live' buf' hstack' hreply hdrain =>
        exact .reply live' (buf'.trans buf) hstack' hreply (by rw [hrun, hdrain])
      | wait live' buf' hstack' hdrain =>
        exact .wait live' (buf'.trans buf) hstack' (by rw [hrun, hdrain])
      | error hdrain => exact .error (by rw [hrun, hdrain])
      | undefined hdrain => exact .undefined (by rw [hrun, hdrain])
    | @reply r' reply live buf hstack hreply =>
      dsimp only
      have hdone : processItems fuel r' = .ok r' := by
        cases fuel with
        | zero => rfl
        | succ fuel => rw [processItems, if_pos hstack]
      rw [hdone]
      exact .reply live buf hstack hreply (Scanner.drain_item hscan)
    | wait live buf hstack => exact .wait live buf hstack (Scanner.drain_wait hscan)
    | error type str => exact .error (Scanner.drain_fail hscan)
    | undefined => exact .undefined (Scanner.drain_fail hscan)

end ServerCom.Redis.Reader
