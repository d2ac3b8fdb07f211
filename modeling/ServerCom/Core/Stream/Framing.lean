import Mathlib.Algebra.BigOperators.Group.List.Basic

/-!
# Length-prefixed framing of a byte stream

A framing is a fixed header width and a partial reading of headers as body
lengths. `parse` is the meaning of a received stream: the complete frames at its
front and what is left behind them. A header is judged only when at least one
further symbol has arrived, so a trailing header with an empty body is still
waiting. The streaming laws say that a stream may be parsed piecewise, carrying
only the unfinished rest.
-/

namespace ServerCom

/-- A header width and the body length each header announces, if it is legal. -/
structure Framing (α : Type*) where
  /-- Symbols in a header. -/
  headLen : Nat
  /-- Headers are not empty. -/
  headLen_pos : 0 < headLen
  /-- Announced body length, or `none` for a header that must be rejected. -/
  bodyLen : List α → Option Nat

namespace Framing

variable {α : Type*}

/-- What follows the last complete frame. -/
inductive Rest (α : Type*) where
  /-- A proper prefix of a frame that may still be completed. -/
  | waiting (R : List α)
  /-- A stream whose next header is illegal. -/
  | illegal (R : List α)
  deriving DecidableEq

/-- The complete frames of a stream, as bodies, and what is left. -/
def parse (F : Framing α) (B : List α) : List (List α) × Rest α :=
  if B.length ≤ F.headLen then ([], .waiting B)
  else match F.bodyLen (B.take F.headLen) with
    | none => ([], .illegal B)
    | some n =>
      if B.length < F.headLen + n then ([], .waiting B)
      else
        ((B.drop F.headLen).take n :: (parse F (B.drop (F.headLen + n))).1,
          (parse F (B.drop (F.headLen + n))).2)
termination_by B.length
decreasing_by all_goals
  have := F.headLen_pos
  simp only [List.length_drop]
  omega

variable {F : Framing α} {B R : List α} {n : Nat}

/-- Without a byte behind the header nothing is read. -/
theorem parse_short (h : B.length ≤ F.headLen) : F.parse B = ([], .waiting B) := by
  rw [parse, if_pos h]

/-- A header that announces no length ends the reading. -/
theorem parse_illegal (h : F.headLen < B.length) (hn : F.bodyLen (B.take F.headLen) = none) :
    F.parse B = ([], .illegal B) := by
  rw [parse, if_neg (by omega), hn]

/-- A body that has not arrived as a whole is waited for. -/
theorem parse_unfinished (hn : F.bodyLen (B.take F.headLen) = some n)
    (hl : B.length < F.headLen + n) : F.parse B = ([], .waiting B) := by
  by_cases h : B.length ≤ F.headLen
  · exact parse_short h
  · rw [parse, if_neg h, hn]
    exact if_pos hl

/-- A body that has arrived is the first one, and the rest is read behind it. -/
theorem parse_frame (h : F.headLen < B.length) (hn : F.bodyLen (B.take F.headLen) = some n)
    (hl : F.headLen + n ≤ B.length) :
    F.parse B = ((B.drop F.headLen).take n :: (F.parse (B.drop (F.headLen + n))).1,
      (F.parse (B.drop (F.headLen + n))).2) := by
  rw [parse, if_neg (by omega), hn]
  exact if_neg (by omega)

/-- Every stream is waiting, is illegal at its head, or starts with a complete frame. -/
@[elab_as_elim]
theorem parse_induct (F : Framing α) {motive : List α → Prop}
    (waiting : ∀ B, F.parse B = ([], .waiting B) → motive B)
    (illegal : ∀ B, F.headLen < B.length → F.bodyLen (B.take F.headLen) = none → motive B)
    (frame : ∀ B n, F.headLen < B.length → F.bodyLen (B.take F.headLen) = some n →
      F.headLen + n ≤ B.length → motive (B.drop (F.headLen + n)) → motive B)
    (B : List α) : motive B := by
  induction hk : B.length using Nat.strongRecOn generalizing B with
  | ind k ih =>
    subst hk
    by_cases hs : B.length ≤ F.headLen
    · exact waiting B (parse_short hs)
    cases hn : F.bodyLen (B.take F.headLen) with
    | none => exact illegal B (by omega) hn
    | some n =>
      by_cases hl : B.length < F.headLen + n
      · exact waiting B (parse_unfinished hn hl)
      · refine frame B n (by omega) hn (by omega) (ih _ ?_ _ rfl)
        have := F.headLen_pos
        rw [List.length_drop]
        omega

/-- The unfinished rest starts no complete frame. -/
theorem parse_waiting {fs : List (List α)} (h : F.parse B = (fs, .waiting R)) :
    F.parse R = ([], .waiting R) := by
  induction B using F.parse_induct generalizing fs with
  | waiting B hB =>
    rw [hB] at h
    cases h
    exact hB
  | illegal B hB hn => rw [parse_illegal hB hn] at h; cases h
  | frame B n hB hn hl ih =>
    rw [parse_frame hB hn hl] at h
    exact ih (Prod.ext rfl (Prod.mk.inj h).2)

/-- A rest longer than a header announces a legal body that is not complete. -/
theorem bodyLen_of_parse_nil (h : F.parse R = ([], .waiting R)) (hR : F.headLen < R.length) :
    ∃ n, F.bodyLen (R.take F.headLen) = some n ∧ R.length < F.headLen + n := by
  cases hn : F.bodyLen (R.take F.headLen) with
  | none => rw [parse_illegal hR hn] at h; cases h
  | some n =>
    refine ⟨n, rfl, ?_⟩
    by_contra hl
    rw [parse_frame hR hn (by omega)] at h
    cases h

/-- A complete frame at the front is read the same whatever arrives behind it. -/
theorem parse_frame_append (C : List α) (h : F.headLen < B.length)
    (hn : F.bodyLen (B.take F.headLen) = some n) (hl : F.headLen + n ≤ B.length) :
    F.parse (B ++ C) = ((B.drop F.headLen).take n ::
      (F.parse (B.drop (F.headLen + n) ++ C)).1, (F.parse (B.drop (F.headLen + n) ++ C)).2) := by
  have htake : (B ++ C).take F.headLen = B.take F.headLen :=
    List.take_append_of_le_length (by omega)
  rw [parse_frame (by simp; omega) (htake ▸ hn) (by simp; omega),
    List.drop_append_of_le_length (by omega), List.drop_append_of_le_length hl,
    List.take_append_of_le_length (by rw [List.length_drop]; omega)]

/-- Piecewise parsing: only the unfinished rest matters for what arrives later. -/
theorem parse_append {fs : List (List α)} (C : List α) (h : F.parse B = (fs, .waiting R)) :
    F.parse (B ++ C) = (fs ++ (F.parse (R ++ C)).1, (F.parse (R ++ C)).2) := by
  induction B using F.parse_induct generalizing fs with
  | waiting B hB =>
    rw [hB] at h
    cases h
    rfl
  | illegal B hB hn => rw [parse_illegal hB hn] at h; cases h
  | frame B n hB hn hl ih =>
    rw [parse_frame hB hn hl] at h
    obtain ⟨rfl, hr⟩ := Prod.mk.inj h
    rw [parse_frame_append C hB hn hl, ih (Prod.ext rfl hr), List.cons_append]

/-- An illegal header stays illegal whatever arrives later. -/
theorem parse_append_illegal {fs : List (List α)} (C : List α)
    (h : F.parse B = (fs, .illegal R)) : F.parse (B ++ C) = (fs, .illegal (R ++ C)) := by
  induction B using F.parse_induct generalizing fs with
  | waiting B hB => rw [hB] at h; cases h
  | illegal B hB hn =>
    have htake : (B ++ C).take F.headLen = B.take F.headLen :=
      List.take_append_of_le_length (by omega)
    rw [parse_illegal hB hn] at h
    cases h
    exact parse_illegal (by simp; omega) (htake ▸ hn)
  | frame B n hB hn hl ih =>
    rw [parse_frame hB hn hl] at h
    obtain ⟨rfl, hr⟩ := Prod.mk.inj h
    rw [parse_frame_append C hB hn hl, ih (Prod.ext rfl hr)]

end Framing

end ServerCom
