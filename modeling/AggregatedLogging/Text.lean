import Mathlib.Algebra.Ring.Nat
import Mathlib.Data.List.Basic

namespace AggregatedLogging

/-- Text is a list of code points, so that every operation on it is structural
and can be evaluated by the kernel. -/
abbrev Text := List Char

instance : LawfulBEq Text := inferInstance

namespace Text

def join (sep : Text) : List Text → Text
  | [] => []
  | [s] => s
  | s :: rest => s ++ sep ++ join sep rest

def byteSize (s : Text) : Nat := (s.map Char.utf8Size).sum

theorem byteSize_append (s t : Text) : byteSize (s ++ t) = byteSize s + byteSize t := by
  simp [byteSize]

theorem forall_of_all {p : Char → Prop} [DecidablePred p] {s : Text}
    (h : s.all (fun c => decide (p c)) = true) : ∀ c ∈ s, p c := by
  intro c hc
  exact of_decide_eq_true (List.all_eq_true.mp h c hc)

theorem not_mem_split {x y : Char} {a b : Text} (hy : y ≠ x) (ha : y ∉ a) (hb : y ∉ b) :
    y ∉ a ++ x :: b := by
  rw [List.mem_append, List.mem_cons, not_or, not_or]
  exact ⟨ha, hy, hb⟩

theorem split_first {x : Char} {a s u r : Text} (ha : x ∉ a) (h : a ++ x :: s = u ++ x :: r) :
    (u = a ∧ r = s) ∨ ∃ v, u = a ++ x :: v ∧ s = v ++ x :: r := by
  induction a generalizing u with
  | nil =>
    cases u with
    | nil => exact .inl ⟨rfl, (List.cons.inj h).2.symm⟩
    | cons d u =>
      obtain ⟨rfl, hs⟩ := List.cons.inj h
      exact .inr ⟨u, rfl, hs⟩
  | cons c a ih =>
    rw [List.mem_cons, not_or] at ha
    cases u with
    | nil => exact absurd (List.cons.inj h).1.symm ha.1
    | cons d u =>
      obtain ⟨rfl, hs⟩ := List.cons.inj h
      rcases ih ha.2 hs with ⟨rfl, rfl⟩ | ⟨v, rfl, rfl⟩
      · exact .inl ⟨rfl, rfl⟩
      · exact .inr ⟨v, rfl, rfl⟩

theorem split_unique {x : Char} {a s u r : Text} (ha : x ∉ a) (hu : x ∉ u)
    (h : a ++ x :: s = u ++ x :: r) : a = u ∧ s = r := by
  rcases split_first ha h with ⟨rfl, rfl⟩ | ⟨v, rfl, -⟩
  · exact ⟨rfl, rfl⟩
  · exact absurd (List.mem_append_right a List.mem_cons_self) hu

/-- What is free of the separator begins the field or not at all. -/
theorem begins_field {x : Char} {w n r : Text} (hw : x ∉ w) : w <+: n ++ x :: r ↔ w <+: n := by
  constructor
  · intro h
    rcases List.prefix_or_prefix_of_prefix h (List.prefix_append n (x :: r)) with hwn | ⟨t, rfl⟩
    · exact hwn
    · cases t with
      | nil =>
        exact ⟨[], by simp⟩
      | cons d t =>
        obtain ⟨rfl, -⟩ := List.cons_prefix_cons.mp ((List.prefix_append_right_inj n).mp h)
        exact absurd (List.mem_append_right n List.mem_cons_self) hw
  · intro h
    exact h.trans (List.prefix_append n (x :: r))

theorem begins_whole {x : Char} {w n r : Text} (hw : x ∉ w) (hn : x ∉ n) :
    w ++ [x] <+: n ++ x :: r ↔ n = w := by
  constructor
  · rintro ⟨s, hs⟩
    rw [List.append_assoc] at hs
    exact (split_unique hw hn hs).1.symm
  · rintro rfl
    exact ⟨r, List.append_assoc n [x] r⟩

end Text

end AggregatedLogging
