import ServerCom.Core.Machine.Guarded
import ServerCom.Redis.Interpretation.ReaderStep

/-!
# Sessions of a reader

A reader is fed and asked for replies in any order. At every time the replies it has given are
the first ones of the bytes it was fed, and the others are still to come; so a reader that has
nothing to give has given all of them.
-/

namespace ServerCom.Redis.Reader

open Machine

/-- A reader that can go on: between two calls. -/
structure Ready (r : Reader) : Prop extends r.Live where
  /-- A reply that is complete has been given. -/
  reply_none : r.rstack = [] → r.reply = none
  /-- What it has begun needs more bytes. -/
  waits : scanner.scan r.resume [] = .wait r.resume []

/-- A live reader has no error. -/
theorem Live.isSome_err {r : Reader} (hl : r.Live) : ¬ r.err.isSome = true := by
  rw [hl.err]
  exact Bool.false_ne_true

/-- A new reader is ready. -/
theorem ready_create : create.Ready := ⟨⟨rfl, Nat.le_refl 0⟩, fun _ => rfl, rfl⟩

/-- What a call for a reply comes to. -/
inductive Answered (r : Reader) : Option (Answer × Reader) → Prop where
  /-- The first reply that is still to come. -/
  | reply {r' : Reader} {reply : RedisReply} (ready : r'.Ready) (hlen : r'.buf.len ≤ r.buf.len)
    (hdrain : scanner.drain r.resume r.unread =
      (reply :: (scanner.drain r'.resume r'.unread).1,
        (scanner.drain r'.resume r'.unread).2)) :
    Answered r (some (.ok (some reply), r'))
  /-- There is none. -/
  | nothing {r' : Reader} (ready : r'.Ready) (hlen : r'.buf.len ≤ r.buf.len)
    (hdrain : scanner.drain r.resume r.unread = ([], .wait r'.resume r'.unread)) :
    Answered r (some (.ok none, r'))
  /-- An error. -/
  | error {q : Reader} {type : RedisErr} {str : List UInt8}
    (hdrain : scanner.drain r.resume r.unread = ([], .fail (.error type str))) :
    Answered r (some (.err, q.setError type str))
  /-- It has no meaning. -/
  | undefined (hdrain : scanner.drain r.resume r.unread = ([], .fail .undefined)) :
    Answered r none

variable {r : Reader}

/-- The bytes that are cut off the buffer are read. -/
theorem cut_spec (hl : r.Live) (hlen : r.buf.len < 2 ^ 31) :
    ∃ buf pos, (if 1024 ≤ r.pos then { r with buf := r.buf.range r.pos (-1), pos := 0 } else r) =
      { r with buf := buf, pos := pos } ∧ buf.buf.drop pos = r.unread ∧ pos ≤ buf.len ∧
      buf.len ≤ r.buf.len := by
  split_ifs with h
  · refine ⟨_, _, rfl, ?_, Nat.zero_le _, ?_⟩
    · rw [Sds.buf_range_drop hlen hl.pos_le, List.drop_zero]
      rfl
    · rw [Sds.len, Sds.buf_range_drop hlen hl.pos_le, List.length_drop]
      exact Nat.sub_le ..
  · exact ⟨_, _, rfl, rfl, hl.pos_le, Nat.le_refl _⟩

/-- A reader with a whole reply gives it out and starts anew. -/
theorem emit_reply {reply : RedisReply} (hl : r.Live) (hlen : r.buf.len < 2 ^ 31)
    (hs : r.rstack = []) (hreply : r.reply = some reply) :
    ∃ r', r.emit = (.ok (some reply), r') ∧ r'.Ready ∧ r'.buf.len ≤ r.buf.len ∧
      r'.resume = .start ∧ r'.unread = r.unread := by
  obtain ⟨buf, pos, hcut, hunread, hpos, hle⟩ := cut_spec hl hlen
  unfold emit
  rw [hcut]
  dsimp only
  rw [if_pos hs, hreply]
  refine ⟨_, rfl, ⟨⟨hl.err, hpos⟩, fun _ => rfl, ?_⟩, hle, if_pos hs, hunread⟩
  rw [resume, if_pos hs]
  rfl

/-- A reader in the middle of a reply gives nothing out and keeps what it has. -/
theorem emit_nothing (hl : r.Live) (hlen : r.buf.len < 2 ^ 31) (hs : r.rstack ≠ [])
    (hwait : scanner.scan r.pending [] = .wait r.pending []) :
    ∃ r', r.emit = (.ok none, r') ∧ r'.Ready ∧ r'.buf.len ≤ r.buf.len ∧
      r'.resume = r.pending ∧ r'.unread = r.unread := by
  obtain ⟨buf, pos, hcut, hunread, hpos, hle⟩ := cut_spec hl hlen
  unfold emit
  rw [hcut]
  dsimp only
  rw [if_neg hs]
  refine ⟨_, rfl, ⟨⟨hl.err, hpos⟩, fun h => absurd h hs, ?_⟩, hle, if_neg hs, hunread⟩
  rw [resume, if_neg hs]
  exact hwait

/-- A state in which a scanner stops needs more bytes. -/
theorem waits_of_drain {p p' : Pending} {u rest : List UInt8}
    (h : scanner.drain p u = ([], .wait p' rest)) : scanner.scan p' [] = .wait p' [] := by
  induction p, u using scanner.drain_induct with
  | item p u q out v hscan ih =>
    rw [Scanner.drain_item hscan] at h
    obtain ⟨hnil, hstop⟩ := Prod.mk.inj h
    exact ih (Prod.ext (List.append_eq_nil_iff.mp hnil).2 hstop)
  | wait p u q v hscan =>
    rw [Scanner.drain_wait hscan] at h
    cases h
    exact (scanItem_wait hscan).1
  | fail p u e hscan => rw [Scanner.drain_fail hscan] at h; cases h

/-- A call for a reply gives the first one that is still to come. -/
theorem answered_getReply (hr : r.Ready) (hlen : r.buf.len < 2 ^ 31) : Answered r r.getReply := by
  rw [getReply, if_neg hr.isSome_err]
  have hunread := r.length_unread
  by_cases hzero : r.buf.len = 0
  · rw [if_pos hzero]
    have hnil : r.unread = [] := List.eq_nil_of_length_eq_zero (by omega)
    refine .nothing hr (Nat.le_refl _) ?_
    rw [hnil]
    exact Scanner.drain_wait hr.waits
  · rw [if_neg hzero]
    let q : Reader := if r.rstack = [] then { r with rstack := [newTask (-1)] } else r
    have hq : q.Live ∧ q.rstack ≠ [] ∧ q.pending = r.resume ∧ q.buf = r.buf ∧ q.pos = r.pos := by
      dsimp only [q]
      split_ifs with hs
      · refine ⟨⟨hr.err, hr.pos_le⟩, List.cons_ne_nil _ _, ?_, rfl, rfl⟩
        rw [resume, if_pos hs, pending, Pending.start, hr.reply_none hs]
      · exact ⟨hr.toLive, hs, (resume_of_ne hs).symm, rfl, rfl⟩
    obtain ⟨hlive, hs, hpend, hbuf, hpos⟩ := hq
    have hsame : q.unread = r.unread := by rw [unread, unread, hbuf, hpos]
    have hfuel : q.unread.length < q.buf.len - q.pos + 1 := by
      rw [hsame, hbuf, hpos]
      omega
    have hpolled := polled_processItems hlive (by rw [hsame]; omega) hs hfuel
    change Answered r (answer (processItems (q.buf.len - q.pos + 1) q))
    generalize processItems (q.buf.len - q.pos + 1) q = res at hpolled
    cases hpolled with
    | reply live buf hstack hreply hdrain =>
      obtain ⟨r', hemit, hready, hle, hresume, hrest⟩ :=
        emit_reply live (by rw [buf, hbuf]; exact hlen) hstack hreply
      rw [answer, hemit]
      refine .reply hready (by rw [buf, hbuf] at hle; exact hle) ?_
      rw [← hpend, ← hsame, hdrain, hresume, hrest]
    | wait live buf hstack hdrain =>
      obtain ⟨r', hemit, hready, hle, hresume, hrest⟩ :=
        emit_nothing live (by rw [buf, hbuf]; exact hlen) hstack (waits_of_drain hdrain)
      rw [answer, if_neg live.isSome_err, hemit]
      refine .nothing hready (by rw [buf, hbuf] at hle; exact hle) ?_
      rw [← hpend, ← hsame, hdrain, hresume, hrest]
    | @error p type str hdrain =>
      have hset : (p.setError type str).err.isSome = true := rfl
      rw [answer, if_pos hset]
      exact .error (by rw [← hpend, ← hsame, hdrain])
    | undefined hdrain => exact .undefined (by rw [← hpend, ← hsame, hdrain])

/-- Bytes that are fed to a reader arrive behind what is unread. -/
theorem feed_ready (hr : r.Ready) (bytes : List UInt8) :
    ∃ r', r.feed bytes = (true, r') ∧ r'.Ready ∧ r'.resume = r.resume ∧
      r'.unread = r.unread ++ bytes ∧ r'.buf.len ≤ r.buf.len + bytes.length := by
  unfold feed
  rw [if_neg hr.isSome_err]
  by_cases hnil : bytes = []
  · subst hnil
    rw [if_pos rfl]
    exact ⟨r, rfl, hr, rfl, (List.append_nil _).symm, Nat.le_refl _⟩
  · rw [if_neg hnil]
    have hpos := hr.pos_le
    dsimp only
    split_ifs with hlarge
    · refine ⟨_, rfl, ⟨⟨hr.err, Nat.zero_le _⟩, hr.reply_none, hr.waits⟩, rfl, ?_, ?_⟩
      · have hempty : r.unread = [] :=
          List.eq_nil_of_length_eq_zero (by rw [length_unread]; omega)
        rw [hempty, unread, Sds.buf_catlen, List.drop_zero]
        rfl
      · rw [Sds.len, Sds.buf_catlen, List.length_append]
        exact Nat.add_le_add_right (Nat.zero_le _) _
    · refine ⟨_, rfl, ⟨⟨hr.err, ?_⟩, hr.reply_none, hr.waits⟩, rfl, ?_, ?_⟩
      · rw [Sds.len, Sds.buf_catlen, List.length_append]
        exact Nat.le_trans hpos (Nat.le_add_right ..)
      · rw [unread, Sds.buf_catlen, List.drop_append_of_le_length hpos]
        rfl
      · rw [Sds.len, Sds.buf_catlen, List.length_append]
        exact Nat.le_refl _

/-! ## Runs -/

end Reader

/-- A call of a reader. -/
inductive ReaderCall where
  /-- `redisReaderFeed`. -/
  | feed (buf : List UInt8)
  /-- `redisReaderGetReply`. -/
  | getReply
  deriving DecidableEq, Repr

/-- A reader, what it was fed, and what it has given. -/
structure Session where
  /-- The reader. -/
  reader : Reader
  /-- The bytes it was fed. -/
  received : List UInt8
  /-- The replies it has given. -/
  replies : List RedisReply
  /-- A call had no meaning. -/
  undefined : Bool

namespace Session

open Machine Reader

/-- A new reader. -/
def start : Session := ⟨.create, [], [], false⟩

/-- The session behind a call; behind a call without a meaning there is none. -/
def step (s : Session) : ReaderCall → Session
  | .feed buf =>
    if s.undefined then s
    else { s with reader := (s.reader.feed buf).2, received := s.received ++ buf }
  | .getReply =>
    if s.undefined then s
    else match s.reader.getReply with
      | none => { s with undefined := true }
      | some (.ok (some reply), r) => { s with reader := r, replies := s.replies ++ [reply] }
      | some (_, r) => { s with reader := r }

/-- The session behind some calls of a new reader. -/
def run (calls : List ReaderCall) : Session := calls.foldl step start

/-- The reader has nothing more to give. -/
def Exhausted (s : Session) : Prop := (s.step .getReply).replies = s.replies

/-- The buffer stays shorter than an `int` counts. -/
def Fits (s : Session) : ReaderCall → Prop
  | .feed buf => s.reader.buf.len + buf.length < 2 ^ 31
  | .getReply => True

instance (s : Session) (call : ReaderCall) : Decidable (s.Fits call) :=
  match call with
  | .feed buf => inferInstanceAs (Decidable (s.reader.buf.len + buf.length < 2 ^ 31))
  | .getReply => .isTrue trivial

/-- A call for a reply gives at most one more. -/
theorem replies_step_getReply (s : Session) :
    ∃ out : Option RedisReply, (s.step .getReply).replies = s.replies ++ out.toList := by
  rw [step]
  split_ifs
  · exact ⟨none, (List.append_nil _).symm⟩
  · cases s.reader.getReply with
    | none => exact ⟨none, (List.append_nil _).symm⟩
    | some answer =>
      obtain ⟨(_ | reply) | _, reader⟩ := answer
      · exact ⟨none, (List.append_nil _).symm⟩
      · exact ⟨some reply, rfl⟩
      · exact ⟨none, (List.append_nil _).symm⟩

/-- A session is exhausted exactly when another `redisGetReply` gives nothing. -/
theorem exhausted_iff (s : Session) :
    s.Exhausted ↔ (s.step .getReply).replies.length = s.replies.length := by
  obtain ⟨out, hout⟩ := replies_step_getReply s
  rw [Exhausted, hout]
  cases out <;> simp

instance (s : Session) : Decidable s.Exhausted := decidable_of_iff _ (exhausted_iff s).symm

/-- How a session stands to the bytes it has received. -/
inductive Standing : Session → Prop where
  /-- The other replies are still to come. -/
  | ready {s : Session} (ready : s.reader.Ready) (hlen : s.reader.buf.len < 2 ^ 31)
    (hundef : s.undefined = false)
    (reached : scanner.Reached .start s.received s.replies s.reader.resume s.reader.unread) :
    Standing s
  /-- All replies up to an error are given. -/
  | error {s : Session} (type : RedisErr) (str : List UInt8)
    (herr : s.reader.err = some (type, str.take 127)) (hundef : s.undefined = false)
    (hlen : s.reader.buf.len = 0)
    (hdrain : scanner.drain .start s.received = (s.replies, .fail (.error type str))) : Standing s
  /-- All replies up to the end of its meaning are given. -/
  | undefined {s : Session} (hundef : s.undefined = true)
    (hdrain : scanner.drain .start s.received = (s.replies, .fail .undefined)) : Standing s

/-- A new session stands at the start of what was received. -/
theorem standing_start : Standing start :=
  .ready ready_create (by decide) rfl (.refl ..)

variable {s : Session}

/-- New bytes are appended to what was received. -/
theorem standing_feed (hs : s.Standing) {buf : List UInt8} (hfit : s.Fits (.feed buf)) :
    (s.step (.feed buf)).Standing := by
  cases hs with
  | ready ready hlen hundef reached =>
    obtain ⟨r', hfeed, hready, hresume, hunread, hle⟩ := feed_ready ready buf
    rw [step, hundef, if_neg (by decide), hfeed]
    refine .ready hready (Nat.lt_of_le_of_lt hle hfit) rfl ?_
    dsimp only
    rw [hresume, hunread]
    exact reached.arrive buf
  | error type str herr hundef hlen hdrain =>
    have hfeed : s.reader.feed buf = (false, s.reader) := by
      rw [Reader.feed, if_pos (by rw [herr]; rfl)]
    rw [step, hundef, if_neg (by decide), hfeed]
    refine .error type str herr rfl hlen ?_
    dsimp only
    rw [Scanner.drain_append_of_fail (by rw [hdrain]), hdrain]
  | undefined hundef hdrain =>
    rw [step, if_pos hundef]
    exact .undefined hundef hdrain

/-- The status of a session where the scanner stops. -/
inductive Ended (s : Session) : Scanner.Stop UInt8 Pending Refusal → Prop where
  /-- It may go on. -/
  | wait {p : Pending} {rest : List UInt8} (hundef : s.undefined = false)
    (herr : s.reader.err = none) : Ended s (.wait p rest)
  /-- The error is set. -/
  | error {type : RedisErr} {str : List UInt8} (hundef : s.undefined = false)
    (herr : s.reader.err = some (type, str.take 127)) : Ended s (.fail (.error type str))
  /-- It has no meaning any more. -/
  | undefined (hundef : s.undefined = true) : Ended s (.fail .undefined)

/-- What a call for a reply does to a session; without a reply, it has given all of them. -/
theorem standing_getReply (hs : s.Standing) : (s.step .getReply).Standing ∧
    ((s.step .getReply).replies = s.replies →
      (scanner.drain .start s.received).1 = s.replies ∧
        (s.step .getReply).Ended (scanner.drain .start s.received).2) := by
  cases hs with
  | ready ready hlen hundef reached =>
    have hanswer := answered_getReply ready hlen
    rw [step, hundef, if_neg (by decide)]
    generalize s.reader.getReply = answer at hanswer
    cases hanswer with
    | @reply r' reply ready' hle hdrain =>
      refine ⟨.ready ready' (Nat.lt_of_le_of_lt hle hlen) rfl ?_, fun h => ?_⟩
      · rw [Scanner.Reached, reached, hdrain, List.append_assoc]
        rfl
      · exact absurd h (by simp)
    | nothing ready' hle hdrain =>
      have hagain := Scanner.drain_of_wait (congrArg Prod.snd hdrain)
      refine ⟨.ready ready' (Nat.lt_of_le_of_lt hle hlen) rfl ?_, fun _ => ?_⟩
      · rw [Scanner.Reached, reached, hdrain, hagain]
      · rw [reached, hdrain, List.append_nil]
        exact ⟨rfl, .wait rfl ready'.err⟩
    | @error q type str hdrain =>
      have hall : scanner.drain .start s.received = (s.replies, .fail (.error type str)) := by
        rw [reached, hdrain, List.append_nil]
      refine ⟨.error type str rfl rfl rfl hall, fun _ => ?_⟩
      rw [hall]
      exact ⟨rfl, .error rfl rfl⟩
    | undefined hdrain =>
      have hall : scanner.drain .start s.received = (s.replies, .fail .undefined) := by
        rw [reached, hdrain, List.append_nil]
      refine ⟨.undefined rfl hall, fun _ => ?_⟩
      rw [hall]
      exact ⟨rfl, .undefined rfl⟩
  | error type str herr hundef hlen hdrain =>
    have hcall : s.reader.getReply = some (.err, s.reader) := by
      rw [Reader.getReply, if_pos (by rw [herr]; rfl)]
    rw [step, hundef, if_neg (by decide), hcall, hdrain]
    exact ⟨.error type str herr rfl hlen hdrain, fun _ => ⟨rfl, .error rfl herr⟩⟩
  | undefined hundef hdrain =>
    rw [step, if_pos hundef, hdrain]
    exact ⟨.undefined hundef hdrain, fun _ => ⟨rfl, .undefined hundef⟩⟩

/-- The status is determined by where the scanner stops. -/
theorem Ended.status_eq {t : Session} {stop : Scanner.Stop UInt8 Pending Refusal}
    (hs : s.Ended stop) (ht : t.Ended stop) :
    s.undefined = t.undefined ∧ (s.undefined = false → s.reader.err = t.reader.err) := by
  cases hs with
  | wait hundef herr =>
    cases ht with
    | wait hundef' herr' => exact ⟨hundef.trans hundef'.symm, fun _ => herr.trans herr'.symm⟩
  | error hundef herr =>
    cases ht with
    | error hundef' herr' => exact ⟨hundef.trans hundef'.symm, fun _ => herr.trans herr'.symm⟩
  | undefined hundef =>
    cases ht with
    | undefined hundef' =>
      exact ⟨hundef.trans hundef'.symm, fun h => Bool.noConfusion (h.symm.trans hundef)⟩

/-- At every time the replies that are not given are still to come. -/
theorem standing_run {calls : List ReaderCall} (h : Along step Fits start calls) :
    (run calls).Standing := by
  have hstep : ∀ s call, Standing s → Fits s call → Standing (step s call) := by
    rintro s (buf | _) hs hfit
    · exact standing_feed hs hfit
    · exact (standing_getReply hs).1
  exact Along.forall_scanl hstep standing_start h _ (foldl_mem_scanl ..)

/-- The replies that were given are the first ones of what was received. -/
theorem Standing.replies_prefix (hs : s.Standing) :
    s.replies <+: (scanner.drain .start s.received).1 := by
  cases hs with
  | ready ready hlen hundef reached => exact ⟨_, by rw [reached]⟩
  | error type str herr hundef hlen hdrain => exact ⟨[], by rw [hdrain, List.append_nil]⟩
  | undefined hundef hdrain => exact ⟨[], by rw [hdrain, List.append_nil]⟩

/-- A session that has received a part of a stream has given the first of its replies, and
with nothing more to give behind the whole stream it has given them all. -/
theorem Standing.of_stream (hs : s.Standing) {B more : List UInt8} {replies : List RedisReply}
    {stop : Scanner.Stop UInt8 Pending Refusal} (hB : s.received ++ more = B)
    (hdrain : scanner.drain .start B = (replies, stop)) :
    s.replies <+: replies ∧
    ((s.step .getReply).replies = s.replies → more = [] →
      s.replies = replies ∧ (s.step .getReply).Ended stop) := by
  subst hB
  have hfst : (scanner.drain .start (s.received ++ more)).1 = replies := congrArg Prod.fst hdrain
  refine ⟨?_, fun he hmore => ?_⟩
  · rw [← hfst]
    exact hs.replies_prefix.trans (scanner.drain_prefix ..)
  · obtain ⟨hall, hend⟩ := (standing_getReply hs).2 he
    rw [hmore, List.append_nil] at hdrain hfst
    rw [hdrain] at hend
    exact ⟨hall.symm.trans hfst, hend⟩

end Session

end ServerCom.Redis
