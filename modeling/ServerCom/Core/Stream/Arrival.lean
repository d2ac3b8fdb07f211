import ServerCom.Core.Stream.Grammar

/-!
# What has arrived of a stream of frames

A sender puts headers in front of bodies. `arrived` counts which frames lie within the
first symbols of such a stream, and `begun` how many symbols follow the last of them.
Parsing these symbols finds the frames that have arrived, except that a frame with an
empty body is missing while it is the last thing that has arrived.
-/

namespace ServerCom.Framing

variable {α : Type*} {F : Framing α}

/-- The header a sender writes for each body length. -/
structure Encoder (F : Framing α) where
  /-- The header. -/
  head : Nat → List α
  /-- All headers are equally long. -/
  length_head : ∀ n, (head n).length = F.headLen

/-- The frame of a body. -/
def Encoder.frame (E : F.Encoder) (body : List α) : List α := E.head body.length ++ body

/-- Frames behind each other. -/
def Encoder.stream (E : F.Encoder) (bodies : List (List α)) : List α :=
  (bodies.map E.frame).flatten

/-- Each header announces its body. -/
def Encoder.Legal (E : F.Encoder) (bodies : List (List α)) : Prop :=
  ∀ body ∈ bodies, F.bodyLen (E.head body.length) = some body.length

/-- The bodies of the frames within the first `n` symbols. -/
def arrived (F : Framing α) : List (List α) → Nat → List (List α)
  | [], _ => []
  | body :: bodies, n =>
    if F.headLen + body.length ≤ n then
      body :: F.arrived bodies (n - (F.headLen + body.length))
    else []

/-- The number of symbols behind the last of these frames. -/
def begun (F : Framing α) : List (List α) → Nat → Nat
  | [], n => n
  | body :: bodies, n =>
    if F.headLen + body.length ≤ n then F.begun bodies (n - (F.headLen + body.length)) else n

/-- The last frame has an empty body, and nothing follows it. -/
def EndsEmpty (F : Framing α) (bodies : List (List α)) (n : Nat) : Prop :=
  F.begun bodies n = 0 ∧ (F.arrived bodies n).getLast? = some []

section recursion

variable {body : List α} {bodies : List (List α)} {n : Nat}

/-- A frame that has arrived as a whole is the first body. -/
theorem arrived_cons (h : F.headLen + body.length ≤ n) :
    F.arrived (body :: bodies) n = body :: F.arrived bodies (n - (F.headLen + body.length)) :=
  if_pos h

/-- Before a frame has arrived as a whole, there is no body. -/
theorem arrived_short (h : n < F.headLen + body.length) : F.arrived (body :: bodies) n = [] :=
  if_neg (Nat.not_le.mpr h)

/-- Behind a whole frame the last one is begun in the rest. -/
theorem begun_cons (h : F.headLen + body.length ≤ n) :
    F.begun (body :: bodies) n = F.begun bodies (n - (F.headLen + body.length)) :=
  if_pos h

/-- Before a frame has arrived as a whole, all of it has begun. -/
theorem begun_short (h : n < F.headLen + body.length) : F.begun (body :: bodies) n = n :=
  if_neg (Nat.not_le.mpr h)

/-- Before the first frame has arrived all symbols belong to it. -/
theorem begun_of_arrived_nil (h : F.arrived bodies n = []) : F.begun bodies n = n := by
  cases bodies with
  | nil => rfl
  | cons body bodies =>
    by_cases hl : F.headLen + body.length ≤ n
    · rw [arrived_cons hl] at h
      cases h
    · exact begun_short (Nat.not_le.mp hl)

/-- No more has begun than has arrived. -/
theorem begun_le (F : Framing α) (bodies : List (List α)) (n : Nat) : F.begun bodies n ≤ n := by
  induction bodies generalizing n with
  | nil => exact Nat.le_refl n
  | cons body bodies ih =>
    by_cases hl : F.headLen + body.length ≤ n
    · rw [begun_cons hl]
      exact Nat.le_trans (ih _) (Nat.sub_le ..)
    · exact Nat.le_of_eq (begun_short (Nat.not_le.mp hl))

/-- Nothing has arrived of an empty stream. -/
theorem arrived_zero (F : Framing α) (bodies : List (List α)) : F.arrived bodies 0 = [] := by
  cases bodies with
  | nil => rfl
  | cons body bodies =>
    have hpos := F.headLen_pos
    exact arrived_short (by omega)

/-- An empty body that has arrived last is the first one, or the last of the others. -/
theorem endsEmpty_cons (h : F.headLen + body.length ≤ n) :
    F.EndsEmpty (body :: bodies) n ↔
      body = [] ∧ n = F.headLen ∨ F.EndsEmpty bodies (n - (F.headLen + body.length)) := by
  unfold EndsEmpty
  rw [begun_cons h, arrived_cons h]
  cases hrest : F.arrived bodies (n - (F.headLen + body.length)) with
  | nil =>
    rw [begun_of_arrived_nil hrest, List.getLast?_singleton, List.getLast?_nil,
      Option.some.injEq]
    constructor
    · rintro ⟨hz, rfl⟩
      rw [List.length_nil] at h hz
      exact Or.inl ⟨rfl, by omega⟩
    · rintro (⟨rfl, hn⟩ | ⟨-, hnone⟩)
      · exact ⟨by rw [hn, List.length_nil]; omega, rfl⟩
      · cases hnone
  | cons b bs =>
    rw [List.getLast?_cons_cons]
    refine ⟨Or.inr, fun h' => h'.resolve_left ?_⟩
    rintro ⟨rfl, hn⟩
    rw [hn, List.length_nil, Nat.add_zero, Nat.sub_self, arrived_zero] at hrest
    cases hrest

/-- A stream that ends inside a frame does not end with an empty message. -/
theorem not_endsEmpty_short (h : n < F.headLen + body.length) :
    ¬ F.EndsEmpty (body :: bodies) n := by
  rintro ⟨-, hlast⟩
  rw [arrived_short h] at hlast
  cases hlast

end recursion

/-! ## Parsing what has arrived -/

section parse

variable {E : F.Encoder} {body B : List α} {bodies : List (List α)} {n : Nat}

/-- A frame is a header and a body. -/
theorem Encoder.length_frame (E : F.Encoder) (body : List α) :
    (E.frame body).length = F.headLen + body.length := by
  rw [Encoder.frame, List.length_append, E.length_head]

/-- The frames come one behind the other. -/
theorem Encoder.stream_cons (E : F.Encoder) (body : List α) (bodies : List (List α)) :
    E.stream (body :: bodies) = E.frame body ++ E.stream bodies := rfl

/-- A frame in front of a stream is parsed unless the stream ends with its header. -/
theorem Encoder.parse_frame (hbody : F.bodyLen (E.head body.length) = some body.length)
    (hmore : body = [] → B ≠ []) :
    F.parse (E.frame body ++ B) = (body :: (F.parse B).1, (F.parse B).2) :=
  (Starts.frame (E.length_head _) hbody hmore (.rest B)).parse

/-- Less than a frame is waiting. -/
theorem Encoder.parse_take_frame (hbody : F.bodyLen (E.head body.length) = some body.length)
    (hn : n < F.headLen + body.length) :
    F.parse ((E.frame body).take n) = ([], .waiting ((E.frame body).take n)) := by
  have hlen : ((E.frame body).take n).length = n := by
    rw [List.length_take, E.length_frame]
    omega
  by_cases hshort : n ≤ F.headLen
  · exact parse_short (by omega)
  · apply parse_unfinished (n := body.length)
    · rw [List.take_take, Nat.min_eq_left (by omega), Encoder.frame, ← E.length_head body.length,
        List.take_left]
      exact hbody
    · omega

/-- What has arrived of a stream starts with its first frame, once that is there. -/
theorem Encoder.take_stream_cons (h : F.headLen + body.length ≤ n) :
    (E.stream (body :: bodies)).take n =
      E.frame body ++ (E.stream bodies).take (n - (F.headLen + body.length)) := by
  rw [E.stream_cons, List.take_append, E.length_frame,
    List.take_of_length_le (by rw [E.length_frame]; exact h)]

/-- Before the first frame is there, what has arrived is the beginning of it. -/
theorem Encoder.take_stream_short (h : n < F.headLen + body.length) :
    (E.stream (body :: bodies)).take n = (E.frame body).take n := by
  rw [E.stream_cons, List.take_append_of_le_length]
  rw [E.length_frame]
  exact Nat.le_of_lt h

/-- The frames that have arrived are parsed, and what has begun is waiting. -/
theorem Encoder.parse_take_stream (hlegal : E.Legal bodies) (hn : n ≤ (E.stream bodies).length)
    (h : ¬ F.EndsEmpty bodies n) :
    ∃ R, F.parse ((E.stream bodies).take n) = (F.arrived bodies n, .waiting R) ∧
      R.length = F.begun bodies n := by
  induction bodies generalizing n with
  | nil =>
    have hz : n = 0 := Nat.le_zero.mp hn
    subst hz
    exact ⟨[], parse_short (Nat.zero_le _), rfl⟩
  | cons body bodies ih =>
    have hbody := hlegal body (List.mem_cons_self ..)
    by_cases hl : F.headLen + body.length ≤ n
    · rw [endsEmpty_cons hl, not_or] at h
      rw [E.stream_cons, List.length_append, E.length_frame] at hn
      obtain ⟨R, hparse, hR⟩ := ih (fun b hb => hlegal b (List.mem_cons_of_mem _ hb))
        (n := n - (F.headLen + body.length)) (by omega) h.2
      rw [take_stream_cons hl, arrived_cons hl, begun_cons hl]
      refine ⟨R, ?_, hR⟩
      rw [Encoder.parse_frame hbody, hparse]
      rintro rfl hnil
      rw [List.length_nil] at hl hn hnil
      have hlen := congrArg List.length hnil
      rw [List.length_take, List.length_nil] at hlen
      exact h.1 ⟨rfl, by omega⟩
    · have hl := Nat.not_le.mp hl
      rw [take_stream_short hl, arrived_short hl, begun_short hl]
      refine ⟨_, Encoder.parse_take_frame hbody hl, ?_⟩
      rw [List.length_take, E.length_frame]
      omega

/-- An empty body that has arrived last is still waiting for a symbol behind it. -/
theorem Encoder.parse_take_stream_empty (hlegal : E.Legal bodies)
    (hn : n ≤ (E.stream bodies).length) (h : F.EndsEmpty bodies n) :
    ∃ R, F.parse ((E.stream bodies).take n) = ((F.arrived bodies n).dropLast, .waiting R) ∧
      R.length = F.headLen := by
  induction bodies generalizing n with
  | nil => cases h.2
  | cons body bodies ih =>
    have hbody := hlegal body (List.mem_cons_self ..)
    have hl : F.headLen + body.length ≤ n := by
      by_contra hl
      exact not_endsEmpty_short (Nat.not_le.mp hl) h
    rw [take_stream_cons hl, arrived_cons hl]
    rcases (endsEmpty_cons hl).mp h with ⟨rfl, hhead⟩ | hrest
    · rw [hhead, List.length_nil, Nat.add_zero, Nat.sub_self, arrived_zero, List.take_zero,
        List.append_nil]
      refine ⟨_, parse_short ?_, ?_⟩
      · rw [E.length_frame]
        exact Nat.le_refl _
      · rw [E.length_frame]
        rfl
    · rw [E.stream_cons, List.length_append, E.length_frame] at hn
      obtain ⟨R, hparse, hR⟩ := ih (fun b hb => hlegal b (List.mem_cons_of_mem _ hb))
        (n := n - (F.headLen + body.length)) (by omega) hrest
      have hne : F.arrived bodies (n - (F.headLen + body.length)) ≠ [] := by
        intro hnil
        have hlast := hrest.2
        rw [hnil] at hlast
        cases hlast
      refine ⟨R, ?_, hR⟩
      rw [Encoder.parse_frame hbody, hparse, List.dropLast_cons_of_ne_nil hne]
      rintro - hnil
      apply hne
      have hlen := congrArg List.length hnil
      rw [List.length_take, List.length_nil] at hlen
      rw [show n - (F.headLen + body.length) = 0 by omega, arrived_zero]

end parse

end ServerCom.Framing
