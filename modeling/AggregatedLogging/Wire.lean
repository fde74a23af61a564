import AggregatedLogging.Text

/-! Streams of encoded objects, which a reader takes one after the other. -/
namespace AggregatedLogging.Wire

abbrev Bytes := List UInt8

inductive Read (α : Type) where
  | done
  | item (value : α) (rest : Bytes)
  | truncated
  | malformed

inductive Ending where
  | complete
  | truncated
  | malformed
  deriving DecidableEq, Repr

/-- A reader and a writer: what was read can be written and is then read again. -/
structure Codec (α : Type) where
  read : Bytes → Read α
  write : α → Bytes
  read_nil : read [] = .done
  read_shorter : ∀ {s v rest}, read s = .item v rest → rest.length < s.length
  read_write : ∀ {s v rest}, read s = .item v rest → ∀ more, read (write v ++ more) = .item v more

namespace Codec

variable (c : Codec α)

def readWithin : Nat → Bytes → List α × Ending
  | 0, _ => ([], .malformed)
  | n + 1, s =>
    match c.read s with
    | .done => ([], .complete)
    | .truncated => ([], .truncated)
    | .malformed => ([], .malformed)
    | .item v rest => (v :: (readWithin n rest).1, (readWithin n rest).2)

/-- Every object takes a byte at least. -/
def readAll (s : Bytes) : List α × Ending := c.readWithin (s.length + 1) s

def Readable (v : α) : Prop := ∃ s rest, c.read s = .item v rest

variable {c}

theorem readWithin_eq {n m : Nat} {s : Bytes} (hn : s.length < n) (hm : s.length < m) :
    c.readWithin n s = c.readWithin m s := by
  induction n generalizing m s with
  | zero => omega
  | succ n ih =>
    cases m with
    | zero => omega
    | succ m =>
      rw [readWithin, readWithin]
      cases hread : c.read s with
      | done => rfl
      | truncated => rfl
      | malformed => rfl
      | item v rest =>
        have hshorter := c.read_shorter hread
        simp only
        rw [ih (m := m) (by omega) (by omega)]

theorem readAll_nil : c.readAll [] = ([], .complete) := by
  rw [readAll, readWithin, c.read_nil]

theorem readAll_item {s rest : Bytes} {v : α} (h : c.read s = .item v rest) :
    c.readAll s = (v :: (c.readAll rest).1, (c.readAll rest).2) := by
  have hshorter := c.read_shorter h
  rw [readAll, readWithin, h]
  simp only
  rw [readAll, readWithin_eq (n := s.length) (m := rest.length + 1) hshorter (by omega)]

theorem readable_of_mem {n : Nat} {s : Bytes} {v : α} (h : v ∈ (c.readWithin n s).1) :
    c.Readable v := by
  induction n generalizing s with
  | zero => contradiction
  | succ n ih =>
    rw [readWithin] at h
    cases hread : c.read s with
    | item w rest =>
      rw [hread] at h
      rcases List.mem_cons.mp h with rfl | h
      · exact ⟨s, rest, hread⟩
      · exact ih h
    | _ =>
      rw [hread] at h
      contradiction

theorem readAll_writes {vs : List α} (h : ∀ v ∈ vs, c.Readable v) :
    c.readAll (vs.flatMap c.write) = (vs, .complete) := by
  induction vs with
  | nil => exact readAll_nil
  | cons v vs ih =>
    obtain ⟨s, rest, hread⟩ := h v List.mem_cons_self
    rw [List.flatMap_cons, readAll_item (c.read_write hread _),
      ih fun w hw => h w (List.mem_cons_of_mem v hw)]

end Codec

end AggregatedLogging.Wire
