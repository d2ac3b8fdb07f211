import Mathlib.Data.List.Infix

/-!
# Texts joined by separators

A separator whose first symbol does not come again in it never overlaps itself. Two ways to
cut one text at such separators are equal, or one of them has a whole separator inside a
part. So the parts of a text are determined exactly when no part contains a separator that
could be taken for one between the parts.
-/

namespace ServerCom.Text

/-- A text between two parts, told by its first symbol. -/
structure Separator (α : Type*) where
  /-- Its first symbol. -/
  head : α
  /-- The other symbols. -/
  tail : List α
  /-- The first symbol does not come again. -/
  head_notMem : head ∉ tail

namespace Separator

variable {α : Type*} {s t : Separator α} {a b c a' b' c' : List α}

/-- All of it. -/
def text (s : Separator α) : List α := s.head :: s.tail

/-- Two parts with the separator between them. -/
def join (s : Separator α) (a b : List α) : List α := a ++ s.text ++ b

/-- Three parts may be joined from either end. -/
theorem join_assoc (s t : Separator α) (a b c : List α) :
    s.join a (t.join b c) = t.join (s.join a b) c := by
  simp only [join, List.append_assoc]

/-- A part contains the separator exactly when it is itself joined from two parts. -/
theorem infix_iff : s.text <:+: a ↔ ∃ x y, a = s.join x y :=
  ⟨fun ⟨x, y, h⟩ => ⟨x, y, h.symm⟩, fun ⟨x, y, h⟩ => ⟨x, y, h.symm⟩⟩

/-- A joined text is longer than its first part. -/
theorem join_left_ne (s : Separator α) (a m : List α) : s.join a m ≠ a := by
  intro h
  have hlen := congrArg List.length h
  simp only [join, text, List.length_append, List.length_cons] at hlen
  omega

/-- Behind a common first part, the other parts are equal or the longer first part goes on
with a whole separator. -/
theorem join_append_eq_join {m : List α} (h : s.join (a ++ m) b' = s.join a b) :
    (m = [] ∧ b' = b) ∨ ∃ n, a ++ m = s.join a n ∧ b = s.join n b' := by
  have hrest : m ++ (s.text ++ b') = s.text ++ b := by
    simpa only [join, List.append_assoc, List.append_cancel_left_eq] using h
  cases m with
  | nil => exact .inl ⟨rfl, List.append_cancel_left hrest⟩
  | cons d m =>
    obtain ⟨rfl, htail⟩ : d = s.head ∧ m ++ (s.text ++ b') = s.tail ++ b :=
      List.cons.inj hrest
    rcases List.append_eq_append_iff.mp htail with ⟨n, hn, hb⟩ | ⟨n, hn, hb⟩
    · -- the other separator would start inside this one
      cases n with
      | nil =>
        refine .inr ⟨[], ?_, hb.symm⟩
        rw [List.append_nil] at hn
        rw [join, text, List.append_nil, hn]
      | cons e n =>
        obtain ⟨rfl, -⟩ : e = s.head ∧ n ++ b = s.tail ++ b' := List.cons.inj hb.symm
        exact absurd (hn ▸ List.mem_append_right m (List.mem_cons_self ..)) s.head_notMem
    · refine .inr ⟨n, ?_, ?_⟩
      · rw [hn, join, text, List.append_assoc, List.cons_append]
      · rw [hb, join, List.append_assoc]

/-- Two ways to cut one text at a separator. -/
theorem join_eq_join (h : s.join a' b' = s.join a b) :
    (a' = a ∧ b' = b) ∨ (∃ n, a' = s.join a n ∧ b = s.join n b') ∨
      ∃ n, a = s.join a' n ∧ b' = s.join n b := by
  have happ : a' ++ (s.text ++ b') = a ++ (s.text ++ b) := by
    simpa only [join, List.append_assoc] using h
  rcases List.append_eq_append_iff.mp happ with ⟨m, rfl, -⟩ | ⟨m, rfl, -⟩
  · rcases join_append_eq_join h.symm with ⟨rfl, rfl⟩ | ⟨n, hn, hb⟩
    · exact .inl ⟨(List.append_nil _).symm, rfl⟩
    · exact .inr (.inr ⟨n, hn, hb⟩)
  · rcases join_append_eq_join h with ⟨rfl, rfl⟩ | ⟨n, hn, hb⟩
    · exact .inl ⟨List.append_nil _, rfl⟩
    · exact .inr (.inl ⟨n, hn, hb⟩)

/-- Two parts are determined exactly when neither contains the separator. -/
theorem join_determined_iff (s : Separator α) (a b : List α) :
    (∀ a' b', s.join a' b' = s.join a b → a' = a ∧ b' = b) ↔
      ¬ s.text <:+: a ∧ ¬ s.text <:+: b := by
  constructor
  · intro h
    refine ⟨fun ha => ?_, fun hb => ?_⟩
    · obtain ⟨x, y, rfl⟩ := infix_iff.mp ha
      exact join_left_ne s x y (h x (s.join y b) (join_assoc ..)).1.symm
    · obtain ⟨x, y, rfl⟩ := infix_iff.mp hb
      exact join_left_ne s a x (h (s.join a x) y (join_assoc ..).symm).1
  · rintro ⟨ha, hb⟩ a' b' h
    rcases join_eq_join h with heq | ⟨n, -, hn⟩ | ⟨n, hn, -⟩
    · exact heq
    · exact absurd (infix_iff.mpr ⟨n, b', hn⟩) hb
    · exact absurd (infix_iff.mpr ⟨a', n, hn⟩) ha

/-- Three parts are determined exactly when the first contains no first separator, the second
none of the two, and the third no second one. -/
theorem join_join_determined_iff (s t : Separator α) (a b c : List α) :
    (∀ a' b' c', s.join a' (t.join b' c') = s.join a (t.join b c) → a' = a ∧ b' = b ∧ c' = c) ↔
      ¬ s.text <:+: a ∧ ¬ s.text <:+: b ∧ ¬ t.text <:+: b ∧ ¬ t.text <:+: c := by
  constructor
  · intro h
    refine ⟨fun ha => ?_, fun hb => ?_, fun hb => ?_, fun hc => ?_⟩
    · obtain ⟨x, y, rfl⟩ := infix_iff.mp ha
      refine join_left_ne s x y (h x (s.join y b) c ?_).1.symm
      rw [← join_assoc s t, join_assoc s s]
    · obtain ⟨x, y, rfl⟩ := infix_iff.mp hb
      refine join_left_ne s a x (h (s.join a x) y c ?_).1
      rw [← join_assoc s t x, join_assoc s s a]
    · obtain ⟨x, y, rfl⟩ := infix_iff.mp hb
      exact join_left_ne t x y (h a x (t.join y c) (by rw [join_assoc t t])).2.1.symm
    · obtain ⟨x, y, rfl⟩ := infix_iff.mp hc
      exact join_left_ne t b x (h a (t.join b x) y (by rw [join_assoc t t])).2.1
  · rintro ⟨ha, hsb, htb, hc⟩ a' b' c' h
    rcases join_eq_join h with ⟨rfl, hrest⟩ | ⟨n, -, hn⟩ | ⟨n, hn, -⟩
    · exact ⟨rfl, (join_determined_iff t b c).mpr ⟨htb, hc⟩ b' c' hrest⟩
    · -- the first separator of the other cut lies behind the first part
      rw [join_assoc] at hn
      rcases join_eq_join hn.symm with ⟨heq, -⟩ | ⟨m, -, hm⟩ | ⟨m, hm, -⟩
      · exact absurd (infix_iff.mpr ⟨n, b', heq.symm⟩) hsb
      · exact absurd (infix_iff.mpr ⟨m, c', hm⟩) hc
      · exact absurd (infix_iff.mpr ⟨s.join n b', m, hm⟩) htb
    · exact absurd (infix_iff.mpr ⟨a', n, hn⟩) ha

end Separator

end ServerCom.Text
