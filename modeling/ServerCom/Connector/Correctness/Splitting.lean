import ServerCom.Connector.Interpretation.Reentry

/-!
# Framing and the cuts of a stream

A stream reaches a connection cut into chunks, one for each callback. `bodyCut`
finds, from the grammar and the cuts alone, the first place where a boundary
inside a body changes what is received. Every run is then explained by the
grammar of the whole stream up to that place, so two ways of cutting one stream
are received alike exactly when they are cut alike in this sense. What happens
behind a write past `m_msg` is not followed, and such a run is like no other.
-/

namespace ServerCom.Connector

open Framing (Rest)

/-- The verdict the grammar gives on a stream. -/
def restVerdict : Rest UInt8 → Verdict
  | .waiting _ => .kept
  | .illegal _ => .disConnected

/-- Count the frames before a cut that is found behind them. -/
def shiftCut (n : Nat) (cut : Option (Nat × Verdict)) : Option (Nat × Verdict) :=
  cut.map fun c => (n + c.1, c.2)

/-- Continue behind a callback that parsed `q`; behind an illegal header nothing
is received any more. -/
def cutBehind (q : List (List UInt8) × Rest UInt8)
    (next : List UInt8 → Option (Nat × Verdict)) : Option (Nat × Verdict) :=
  match q.2 with
  | .waiting R => shiftCut q.1.length (next R)
  | .illegal _ => none

/-- The first harmful cut inside a body, as the number of frames before it and its
effect, for chunks that arrive while `R` is held. A cut inside a 128-byte body is
harmless when the next chunk stays inside the body, or ends with it and is not
the last. -/
def bodyCut (R : List UInt8) : List (List UInt8) → Option (Nat × Verdict)
  | [] => none
  | [B] =>
    if R.length ≤ headLen then none
    else if wire.bodyLen (R.take headLen) ≠ some 128 then some (0, .disConnected)
    else if sizeofMsgPack < R.length + B.length then some (0, .overrun)
    else if headLen + 128 ≤ R.length + B.length then some (0, .kept)
    else none
  | B :: B' :: chunks =>
    if R.length ≤ headLen then
      cutBehind (wire.parse (R ++ B)) fun R' => bodyCut R' (B' :: chunks)
    else if wire.bodyLen (R.take headLen) ≠ some 128 then some (0, .disConnected)
    else if sizeofMsgPack < R.length + B.length then some (0, .overrun)
    else if headLen + 128 < R.length + B.length then some (0, .disConnected)
    else cutBehind (wire.parse (R ++ B ++ B')) fun R' => bodyCut R' chunks

/-- How far a run gets over a stream with this parse, and how it ends. -/
def cutEnd (cut : Option (Nat × Verdict)) (q : List (List UInt8) × Rest UInt8) : Nat × Verdict :=
  cut.getD (q.1.length, restVerdict q.2)

/-- A cut explains what is seen of a run: the whole stream without a harmful cut,
and with one a different ending. -/
structure Explains (cut : Option (Nat × Verdict)) (q : List (List UInt8) × Rest UInt8)
    (out : List Message × Verdict) : Prop where
  /-- The frames before the ending are delivered. -/
  seen : out = ((q.1.take (cutEnd cut q).1).map frameMessage, (cutEnd cut q).2)
  /-- The ending lies in the stream. -/
  le : (cutEnd cut q).1 ≤ q.1.length
  /-- A harmful cut changes the ending. -/
  proper : ∀ c, cut = some c → c ≠ (q.1.length, restVerdict q.2)

/-- Runs over one stream look the same exactly when their cuts are the same. -/
theorem Explains.eq_iff {cut₁ cut₂ : Option (Nat × Verdict)}
    {q : List (List UInt8) × Rest UInt8} {out₁ out₂ : List Message × Verdict}
    (h₁ : Explains cut₁ q out₁) (h₂ : Explains cut₂ q out₂) : out₁ = out₂ ↔ cut₁ = cut₂ := by
  constructor
  · intro he
    rw [h₁.seen, h₂.seen] at he
    obtain ⟨hm, hv⟩ := Prod.mk.inj he
    have hl := congrArg List.length hm
    have hle₁ := h₁.le
    have hle₂ := h₂.le
    simp only [List.length_map, List.length_take] at hl
    have hend : cutEnd cut₁ q = cutEnd cut₂ q := Prod.ext (by omega) hv
    cases cut₁ with
    | none =>
      cases cut₂ with
      | none => rfl
      | some c => exact absurd hend.symm (h₂.proper c rfl)
    | some c =>
      cases cut₂ with
      | none => exact absurd hend (h₁.proper c rfl)
      | some d => exact congrArg some hend
  · rintro rfl
    rw [h₁.seen, h₂.seen]

variable {rd : BuffereventRead} {r : Reader} {R B : List UInt8} {n : Nat}

/-- Nothing harmful: the run shows the whole parse. -/
theorem Explains.whole {q : List (List UInt8) × Rest UInt8} {out : List Message × Verdict}
    (h : out = (q.1.map frameMessage, restVerdict q.2)) : Explains none q out where
  seen := by rw [h, cutEnd, Option.getD_none, List.take_length]
  le := le_rfl
  proper _ h := nomatch h

/-- A run that stops before the first of the remaining frames, or with another verdict. -/
theorem Explains.stopped {q : List (List UInt8) × Rest UInt8} {v : Verdict}
    (h : q.1 = [] → v ≠ restVerdict q.2) : Explains (some (0, v)) q ([], v) where
  seen := rfl
  le := Nat.zero_le _
  proper c hc := by
    cases hc
    intro he
    obtain ⟨hl, hv⟩ := Prod.mk.inj he
    exact h (List.length_eq_zero_iff.mp hl.symm) hv

/-- Frames delivered by earlier callbacks come first. -/
theorem Explains.shift {cut : Option (Nat × Verdict)} {q : List (List UInt8) × Rest UInt8}
    {out : List Message × Verdict} (h : Explains cut q out) (fs : List (List UInt8)) :
    Explains (shiftCut fs.length cut) (fs ++ q.1, q.2)
      (fs.map frameMessage ++ out.1, out.2) := by
  have hend : cutEnd (shiftCut fs.length cut) (fs ++ q.1, q.2) =
      (fs.length + (cutEnd cut q).1, (cutEnd cut q).2) := by
    cases cut <;> simp [cutEnd, shiftCut]
  refine ⟨?_, ?_, ?_⟩
  · rw [hend, h.seen, List.take_length_add_append, List.map_append]
  · rw [hend, List.length_append]
    exact Nat.add_le_add_left h.le _
  · intro c hc he
    obtain ⟨d, hd, rfl⟩ := Option.map_eq_some_iff.mp hc
    apply h.proper d hd
    rw [List.length_append] at he
    obtain ⟨hl, hv⟩ := Prod.mk.inj he
    exact Prod.ext (Nat.add_left_cancel hl) hv

/-- What is seen of a callback, then of the rest of the connection. -/
def observeBehind (rd : BuffereventRead) (chunks : List (List UInt8)) :
    List MsgPack × ReadEnd → List Message × Verdict
  | (msgs, .returned r left) =>
    (msgs.map MsgPack.message ++ (observe (receive rd r left chunks)).1,
      (observe (receive rd r left chunks)).2)
  | p => observe p

/-- What is seen of a connection is seen of its first callback and then of the others. -/
theorem observe_receive_cons {chunks : List (List UInt8)} :
    observe (receive rd r [] (B :: chunks)) =
      observeBehind rd chunks (connReadCallback rd r B) := by
  rw [receive, List.nil_append]
  rcases connReadCallback rd r B with ⟨msgs, _ | _ | _⟩
  · exact Prod.ext (List.map_append ..) rfl
  · rfl
  · rfl

/-- Behind a callback that realises a parse the rest of the stream is explained
from what is held. -/
theorem Explains.behind {chunks : List (List UInt8)} {X : List UInt8} {p : List MsgPack × ReadEnd}
    {next : List UInt8 → Option (Nat × Verdict)} (h : Realises p (wire.parse X))
    (ih : ∀ r' R', wire.parse X = ((wire.parse X).1, .waiting R') → Holds r' R' →
      Explains (next R') (wire.parse (R' ++ chunks.flatten)) (observe (receive rd r' [] chunks))) :
    Explains (cutBehind (wire.parse X) next) (wire.parse (X ++ chunks.flatten))
      (observeBehind rd chunks p) := by
  rcases hq : wire.parse X with ⟨fs, rest⟩
  rcases p with ⟨msgs, e⟩
  rw [hq] at h ih
  obtain ⟨hms, hend⟩ := h
  cases rest with
  | waiting R' =>
    obtain ⟨r', rfl, hr'⟩ := hend
    have hrest := (ih r' R' rfl hr').shift fs
    rw [Framing.parse_append _ hq]
    rw [← hms] at hrest
    exact hrest
  | illegal R' =>
    obtain ⟨r', rfl⟩ := hend
    rw [Framing.parse_append_illegal _ hq]
    exact Explains.whole (Prod.ext hms rfl)

/-- Without a harmful cut behind it, a callback has none. -/
theorem cutBehind_none (q : List (List UInt8) × Rest UInt8) :
    cutBehind q (fun _ => none) = none := by
  rw [cutBehind]
  split <;> rfl

/-- A stream that continues an unfinished body either stays in it or completes it. -/
theorem parse_inBody {X : List UInt8} (hn : wire.bodyLen (R.take headLen) = some n)
    (hl : headLen < R.length) :
    wire.parse (R ++ X) = ([], .waiting (R ++ X)) ∧ R.length + X.length < headLen + n ∨
      (wire.parse (R ++ X)).1 ≠ [] ∧ headLen + n ≤ R.length + X.length := by
  have htake : (R ++ X).take headLen = R.take headLen := List.take_append_of_le_length hl.le
  have hlen : (R ++ X).length = R.length + X.length := List.length_append
  by_cases h : R.length + X.length < headLen + n
  · exact Or.inl ⟨Framing.parse_unfinished (htake.symm ▸ hn) (by rw [hlen]; exact h), h⟩
  · have hp := Framing.parse_frame (F := wire) (by rw [hlen, wire_headLen]; omega)
      (htake.symm ▸ hn) (by rw [hlen, wire_headLen]; omega)
    exact Or.inr ⟨by rw [hp]; exact List.cons_ne_nil _ _, by omega⟩

/-- A body of another length than 128 is rejected when it is entered again. -/
private theorem explained_reentry (h : Holds r R) (hl : headLen < R.length)
    (hn : wire.bodyLen (R.take headLen) = some n) (hr : R.length < headLen + n) (h128 : n ≠ 128)
    (hB : B ≠ []) (hBs : B.length < 2 ^ 31) (chunks : List (List UInt8)) :
    Explains (some (0, .disConnected)) (wire.parse (R ++ (B :: chunks).flatten))
      (observe (receive rd r [] (B :: chunks))) := by
  have hout : observe (receive rd r [] (B :: chunks)) = ([], .disConnected) := by
    rw [observe_receive_cons, connReadCallback_eq hBs, readLoop_disConnect (inputLen_pos hB)
      (readStep_reentry (h.body hl) hl hn hr h128)]
    rfl
  rw [hout]
  refine Explains.stopped fun hnil => ?_
  rcases parse_inBody (X := (B :: chunks).flatten) hn hl with ⟨hp, -⟩ | ⟨hp, -⟩
  · rw [hp, restVerdict]
    decide
  · exact absurd hnil hp

/-- A body of length 128 that is entered again leaves `m_msg` with a large chunk. -/
private theorem explained_overrun (h : Holds r R) (hl : headLen < R.length)
    (hn : wire.bodyLen (R.take headLen) = some 128) (hB : B ≠ []) (hBs : B.length < 2 ^ 31)
    (hfit : sizeofMsgPack < R.length + B.length) (chunks : List (List UInt8)) :
    Explains (some (0, .overrun)) (wire.parse (R ++ (B :: chunks).flatten))
      (observe (receive rd r [] (B :: chunks))) := by
  have hout : observe (receive rd r [] (B :: chunks)) = ([], .overrun) := by
    rw [observe_receive_cons, connReadCallback_eq hBs,
      readLoop_reentry_overrun (h.body hl) hl hn hB hfit]
    rfl
  rw [hout]
  exact Explains.stopped fun _ => by cases (wire.parse _).2 <;> exact nofun

/-- A body of length 128 that is entered again only stores what arrives. -/
private theorem observe_reentry_stores (hrd : rd.Exact) (h : Holds r R) (hl : headLen < R.length)
    (hn : wire.bodyLen (R.take headLen) = some 128) (hB : B ≠ []) (hBs : B.length < 2 ^ 31)
    (hfit : R.length + B.length ≤ sizeofMsgPack) (chunks : List (List UInt8)) :
    ∃ r', observe (receive rd r [] (B :: chunks)) = observe (receive rd r' [] chunks) ∧
      InBody r'.convertLen (R ++ B) := by
  obtain ⟨r', hloop, hbody⟩ := readLoop_reentry_stores hrd (h.body hl) hl hn hB hfit
  refine ⟨r', ?_, hbody⟩
  rw [observe_receive_cons, connReadCallback_eq hBs, hloop]
  rfl

/-- The last chunk of a connection, when it continues a body. -/
private theorem explained_last (hrd : rd.Exact) (h : Holds r R) (hl : headLen < R.length)
    (hn : wire.bodyLen (R.take headLen) = some 128) (hB : B ≠ []) (hBs : B.length < 2 ^ 31)
    (hfit : R.length + B.length ≤ sizeofMsgPack) :
    Explains (if headLen + 128 ≤ R.length + B.length then some (0, .kept) else none)
      (wire.parse (R ++ [B].flatten)) (observe (receive rd r [] [B])) := by
  obtain ⟨r', hout, -⟩ := observe_reentry_stores hrd h hl hn hB hBs hfit []
  have hkept : observe (receive rd r' [] []) = ([], .kept) := by
    rw [receive]
    rfl
  rw [hout, hkept, List.flatten_singleton]
  rcases parse_inBody (X := B) hn hl with ⟨hp, hlt⟩ | ⟨hp, hle⟩
  · rw [if_neg (by omega), hp]
    exact Explains.whole rfl
  · rw [if_pos hle]
    exact Explains.stopped fun hnil => absurd hnil hp

/-- A chunk that runs past a body of length 128 makes the next callback close the
connection. -/
private theorem explained_past (hrd : rd.Exact) (h : Holds r R) (hl : headLen < R.length)
    (hn : wire.bodyLen (R.take headLen) = some 128) (hB : B ≠ []) (hBs : B.length < 2 ^ 31)
    (hfit : R.length + B.length ≤ sizeofMsgPack) (hpast : headLen + 128 < R.length + B.length)
    {B' : List UInt8} (hB' : B' ≠ []) (hBs' : B'.length < 2 ^ 31) (chunks : List (List UInt8)) :
    Explains (some (0, .disConnected)) (wire.parse (R ++ (B :: B' :: chunks).flatten))
      (observe (receive rd r [] (B :: B' :: chunks))) := by
  obtain ⟨r', hout, hbody⟩ := observe_reentry_stores hrd h hl hn hB hBs hfit (B' :: chunks)
  have htake : (R ++ B).take headLen = R.take headLen := List.take_append_of_le_length hl.le
  have hclose : observe (receive rd r' [] (B' :: chunks)) = ([], .disConnected) := by
    rw [observe_receive_cons, connReadCallback_eq hBs',
      readLoop_behind_body hbody (htake.symm ▸ hn) (by rwa [List.length_append]) hB']
    rfl
  rw [hout, hclose]
  refine Explains.stopped fun hnil => ?_
  rcases parse_inBody (X := (B :: B' :: chunks).flatten) hn hl with ⟨-, hlt⟩ | ⟨hp, -⟩
  · rw [List.flatten_cons, List.length_append] at hlt
    omega
  · exact absurd hnil hp

/-- A chunk that stays inside a body of length 128 leaves it to the next one. -/
private theorem explained_inside (hrd : rd.Exact) (h : Holds r R) (hl : headLen < R.length)
    (hn : wire.bodyLen (R.take headLen) = some 128) (hB : B ≠ []) (hBs : B.length < 2 ^ 31)
    (hin : R.length + B.length ≤ headLen + 128) {B' : List UInt8} (hB' : B' ≠ [])
    (hBs' : B'.length < 2 ^ 31) (chunks : List (List UInt8))
    (ih : ∀ r' R', wire.parse R' = ([], .waiting R') → Holds r' R' →
      Explains (bodyCut R' chunks) (wire.parse (R' ++ chunks.flatten))
        (observe (receive rd r' [] chunks))) :
    Explains (cutBehind (wire.parse (R ++ B ++ B')) fun R' => bodyCut R' chunks)
      (wire.parse (R ++ (B :: B' :: chunks).flatten))
      (observe (receive rd r [] (B :: B' :: chunks))) := by
  have hfit : R.length + B.length ≤ sizeofMsgPack := hin.trans (by decide)
  obtain ⟨r', hout, hbody⟩ := observe_reentry_stores hrd h hl hn hB hBs hfit (B' :: chunks)
  have htake : (R ++ B).take headLen = R.take headLen := List.take_append_of_le_length hl.le
  have hconv := hbody.convertible (htake.symm ▸ hn) (by rwa [List.length_append])
  rw [hout, observe_receive_cons, connReadCallback_eq hBs', List.flatten_cons, List.flatten_cons,
    ← List.append_assoc, ← List.append_assoc]
  exact Explains.behind (hconv.readLoop_realises hrd hB')
    fun r'' R'' hq => ih r'' R'' (Framing.parse_waiting hq)

/-- Every run over a connection is explained by its first harmful cut. -/
theorem receive_explained (hrd : rd.Exact) (h : Holds r R) (hR : wire.parse R = ([], .waiting R))
    (chunks : List (List UInt8)) (hne : ∀ c ∈ chunks, c ≠ [])
    (hsmall : ∀ c ∈ chunks, c.length < 2 ^ 31) :
    Explains (bodyCut R chunks) (wire.parse (R ++ chunks.flatten))
      (observe (receive rd r [] chunks)) := by
  induction hk : chunks.length using Nat.strongRecOn generalizing r R chunks with
  | ind k ih =>
    subst hk
    have hhead : ∀ B chunks', chunks = B :: chunks' → R.length ≤ headLen →
        Explains (cutBehind (wire.parse (R ++ B)) fun R' => bodyCut R' chunks')
          (wire.parse (R ++ (B :: chunks').flatten))
          (observe (receive rd r [] (B :: chunks'))) := by
      rintro B chunks' rfl hle
      rw [observe_receive_cons, List.flatten_cons, ← List.append_assoc]
      exact Explains.behind (connReadCallback_realises hrd h hle (hsmall B (List.mem_cons_self ..)))
        fun r' R' hq hr' => ih _ (Nat.lt_succ_self _) hr' (Framing.parse_waiting hq) chunks'
          (fun c hc => hne c (List.mem_cons_of_mem _ hc))
          (fun c hc => hsmall c (List.mem_cons_of_mem _ hc)) rfl
    match chunks with
    | [] =>
      rw [List.flatten_nil, List.append_nil, hR, bodyCut, receive]
      exact Explains.whole rfl
    | [B] =>
      have hB : B ≠ [] := hne B (List.mem_cons_self ..)
      have hBs : B.length < 2 ^ 31 := hsmall B (List.mem_cons_self ..)
      rw [bodyCut]
      split_ifs with hle h128 hfit hover
      · have hout := hhead B [] rfl hle
        simp only [bodyCut, cutBehind_none] at hout
        exact hout
      all_goals
        obtain ⟨n, hn, hr⟩ := Framing.bodyLen_of_parse_nil hR (not_le.mp hle)
      · exact explained_reentry h (not_le.mp hle) hn hr (fun he => h128 (he ▸ hn)) hB hBs []
      · exact explained_overrun h (not_le.mp hle) (not_not.mp h128) hB hBs hfit []
      all_goals
        have hlast := explained_last hrd h (not_le.mp hle) (not_not.mp h128) hB hBs (not_lt.mp hfit)
      · rwa [if_pos hover] at hlast
      · rwa [if_neg hover] at hlast
    | B :: B' :: chunks =>
      have hB : B ≠ [] := hne B (List.mem_cons_self ..)
      have hBs : B.length < 2 ^ 31 := hsmall B (List.mem_cons_self ..)
      have hB' : B' ≠ [] := hne B' (by simp)
      have hBs' : B'.length < 2 ^ 31 := hsmall B' (by simp)
      rw [bodyCut]
      split_ifs with hle h128 hfit hpast
      · exact hhead B (B' :: chunks) rfl hle
      all_goals
        obtain ⟨n, hn, hr⟩ := Framing.bodyLen_of_parse_nil hR (not_le.mp hle)
      · exact explained_reentry h (not_le.mp hle) hn hr (fun he => h128 (he ▸ hn)) hB hBs _
      · exact explained_overrun h (not_le.mp hle) (not_not.mp h128) hB hBs hfit _
      · exact explained_past hrd h (not_le.mp hle) (not_not.mp h128) hB hBs (not_lt.mp hfit) hpast
          hB' hBs' chunks
      · exact explained_inside hrd h (not_le.mp hle) (not_not.mp h128) hB hBs (not_lt.mp hpast) hB'
          hBs' chunks fun r' R' hq hr' => ih _ (by simp) hr' hq chunks
            (fun c hc => hne c (by simp [hc])) (fun c hc => hsmall c (by simp [hc])) rfl

/-- One way a stream can arrive: successive non-empty chunks whose length an `int` holds. -/
structure Cut (stream : List UInt8) (chunks : List (List UInt8)) : Prop where
  /-- Nothing is lost or reordered. -/
  flatten : chunks.flatten = stream
  /-- A callback is only made for new input. -/
  nonempty : ∀ c ∈ chunks, c ≠ []
  /-- `input_len` is an `int`. -/
  small : ∀ c ∈ chunks, c.length < 2 ^ 31

/-- Two chunks are a way for a stream to arrive. -/
theorem Cut.pair {B B' : List UInt8} (hB : B ≠ []) (hBs : B.length < 2 ^ 31) (hB' : B' ≠ [])
    (hBs' : B'.length < 2 ^ 31) : Cut (B ++ B') [B, B'] where
  flatten := by rw [List.flatten_cons, List.flatten_singleton]
  nonempty := List.forall_mem_cons.mpr ⟨hB, List.forall_mem_singleton.mpr hB'⟩
  small := List.forall_mem_cons.mpr ⟨hBs, List.forall_mem_singleton.mpr hBs'⟩

/-- The run of a fresh object is explained by its first harmful cut. -/
theorem Cut.explains {stream : List UInt8} {chunks : List (List UInt8)} (h : Cut stream chunks)
    (hrd : rd.Exact) (msg : MsgPack) :
    Explains (bodyCut [] chunks) (wire.parse stream)
      (observe (receive rd (.fresh msg) [] chunks)) := by
  rw [← h.flatten]
  exact receive_explained hrd (.nil rfl) (Framing.parse_short (Nat.zero_le _)) chunks h.nonempty
    h.small

/-- Two connections deliver the same messages and end with the same verdict: the connection is
kept, or `DisConnect` is called. -/
structure ReceivedAlike (out₁ out₂ : List Message × Verdict) : Prop where
  /-- The same is seen of them. -/
  seen : out₁ = out₂
  /-- Neither writes past `m_msg`. -/
  inside : out₁.2 ≠ .overrun

/-- Two ways of cutting a stream have the same first harmful cut, or none, and no chunk is too
large for `m_msg`. -/
structure CutAlike (chunks₁ chunks₂ : List (List UInt8)) : Prop where
  /-- The same cut. -/
  same : bodyCut [] chunks₁ = bodyCut [] chunks₂
  /-- Its effect is not a write past `m_msg`. -/
  inside : ∀ c ∈ bodyCut [] chunks₁, c.2 ≠ .overrun

/-- A run leaves `m_msg` exactly when its first harmful cut makes it do so. -/
theorem Explains.inside_iff {cut : Option (Nat × Verdict)} {q : List (List UInt8) × Rest UInt8}
    {out : List Message × Verdict} (h : Explains cut q out) :
    out.2 ≠ .overrun ↔ ∀ c ∈ cut, c.2 ≠ .overrun := by
  rw [h.seen]
  cases cut with
  | none =>
    have hrest : restVerdict q.2 ≠ .overrun := by cases q.2 <;> exact nofun
    exact iff_of_true hrest fun c hc => absurd hc (Option.not_mem_none c)
  | some c => exact ⟨fun hc d hd => Option.mem_some.mp hd ▸ hc, fun hc => hc c rfl⟩

/-- Two ways of cutting one stream are received alike by fresh objects exactly when
they have the same first harmful cut inside a body, or none, and no chunk is written past
`m_msg`. -/
theorem receive_alike_iff_cutAlike (hrd : rd.Exact) {stream : List UInt8}
    {chunks₁ chunks₂ : List (List UInt8)} (h₁ : Cut stream chunks₁) (h₂ : Cut stream chunks₂)
    (msg₁ msg₂ : MsgPack) :
    ReceivedAlike (observe (receive rd (.fresh msg₁) [] chunks₁))
        (observe (receive rd (.fresh msg₂) [] chunks₂)) ↔
      CutAlike chunks₁ chunks₂ := by
  have hseen := (h₁.explains hrd msg₁).eq_iff (h₂.explains hrd msg₂)
  have hinside := (h₁.explains hrd msg₁).inside_iff
  exact ⟨fun h => ⟨hseen.mp h.seen, hinside.mp h.inside⟩,
    fun h => ⟨hseen.mpr h.same, hinside.mpr h.inside⟩⟩

/-- Cuts inside the length field and behind it are harmless. -/
theorem receive_alike_of_header_cuts :
    ReceivedAlike (observe (receive .full (.fresh default) [] [[0, 0, 0, 2, 7, 8]]))
      (observe (receive .full (.fresh default) [] [[0, 0], [0, 2], [7, 8]])) := by
  have hwhole : Cut [0, 0, 0, 2, 7, 8] [[0, 0, 0, 2, 7, 8]] := ⟨rfl, by simp, by simp⟩
  have hcut : Cut [0, 0, 0, 2, 7, 8] [[0, 0], [0, 2], [7, 8]] := ⟨rfl, by simp, by simp⟩
  refine (receive_alike_iff_cutAlike BuffereventRead.full_exact hwhole hcut _ _).mpr ⟨?_, ?_⟩
  · decide +kernel
  · decide +kernel

/-- A two-byte body that is cut in the middle is not received: uncut it is delivered. -/
theorem receive_ne_of_body_cut :
    observe (receive .full (.fresh default) [] [[0, 0, 0, 2, 7, 8]]) = ([⟨2, [7, 8]⟩], .kept) ∧
      observe (receive .full (.fresh default) [] [[0, 0, 0, 2, 7], [8]]) =
        ([], .disConnected) := by
  have hwhole : Cut [0, 0, 0, 2, 7, 8] [[0, 0, 0, 2, 7, 8]] := ⟨rfl, by simp, by simp⟩
  have hcut : Cut [0, 0, 0, 2, 7, 8] [[0, 0, 0, 2, 7], [8]] := ⟨rfl, by simp, by simp⟩
  rw [(hwhole.explains BuffereventRead.full_exact default).seen,
    (hcut.explains BuffereventRead.full_exact default).seen]
  decide +kernel

end ServerCom.Connector
