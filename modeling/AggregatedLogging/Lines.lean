import AggregatedLogging.Text
import Mathlib.Data.List.Basic

/-! Texts as sequences of lines. -/
namespace AggregatedLogging.Text

/-- The lines of a text, each with its line break; the last one may have none.
`line` is the line that is being read. -/
def linesFrom (line : Text) : Text → List Text
  | [] => if line = [] then [] else [line]
  | c :: s => if c = '\n' then (line ++ [c]) :: linesFrom [] s else linesFrom (line ++ [c]) s

def lines (s : Text) : List Text := linesFrom [] s

def isLine (l : Text) : Prop := ∃ body, '\n' ∉ body ∧ l = body ++ ['\n']

theorem linesFrom_append {body : Text} (hbody : '\n' ∉ body) (line s : Text) :
    linesFrom line (body ++ '\n' :: s) = (line ++ body ++ ['\n']) :: linesFrom [] s := by
  induction body generalizing line with
  | nil => simp [linesFrom]
  | cons c body ih =>
    rw [List.mem_cons, not_or] at hbody
    rw [List.cons_append, linesFrom, if_neg (Ne.symm hbody.1), ih hbody.2]
    simp

theorem lines_cons {l : Text} (hl : isLine l) (s : Text) : lines (l ++ s) = l :: lines s := by
  obtain ⟨body, hbody, rfl⟩ := hl
  rw [lines, List.append_assoc]
  exact linesFrom_append hbody [] s

theorem lines_flatten {ls : List Text} (h : ∀ l ∈ ls, isLine l) : lines ls.flatten = ls := by
  induction ls with
  | nil => rfl
  | cons l ls ih =>
    rw [List.flatten_cons, lines_cons (h l List.mem_cons_self),
      ih fun m hm => h m (List.mem_cons_of_mem l hm)]

theorem not_mem_dropLast {l line s : Text} (hline : '\n' ∉ line) (h : l ∈ linesFrom line s) :
    '\n' ∉ l.dropLast := by
  induction s generalizing line with
  | nil =>
    rw [linesFrom] at h
    split at h
    · contradiction
    · rw [List.mem_singleton.mp h]
      exact fun hmem => hline (List.dropLast_subset line hmem)
  | cons c s ih =>
    rw [linesFrom] at h
    split at h
    · rcases List.mem_cons.mp h with rfl | h
      · rw [List.dropLast_concat]
        exact hline
      · exact ih List.not_mem_nil h
    · rename_i hc
      apply ih _ h
      rw [List.mem_append, List.mem_singleton, not_or]
      exact ⟨hline, Ne.symm hc⟩

/-- Texts with a line break behind each are read back exactly when none of them
has one itself. -/
theorem lines_terminated_iff {ts : List Text} :
    lines (ts.map (· ++ ['\n'])).flatten = ts.map (· ++ ['\n']) ↔ ∀ t ∈ ts, '\n' ∉ t := by
  constructor
  · intro h t ht
    have hmem : t ++ ['\n'] ∈ lines (ts.map (· ++ ['\n'])).flatten := by
      rw [h]
      exact List.mem_map_of_mem ht
    have hbreak := not_mem_dropLast List.not_mem_nil hmem
    rw [List.dropLast_concat] at hbreak
    exact hbreak
  · intro h
    apply lines_flatten
    intro l hl
    obtain ⟨t, ht, rfl⟩ := List.mem_map.mp hl
    exact ⟨t, h t ht, rfl⟩

theorem begins_line {w l : Text} (hw : '\n' ∉ w) (hl : isLine l) (s : Text) :
    w <+: l ++ s ↔ w <+: l := by
  obtain ⟨body, -, rfl⟩ := hl
  rw [List.append_assoc]
  exact (begins_field hw).trans (begins_field (r := []) hw).symm

theorem suffix_isLine {l s : Text} (hl : isLine l) (hs : s <:+ l) (hne : s ≠ []) : isLine s := by
  obtain ⟨body, hbody, rfl⟩ := hl
  obtain ⟨u, hu⟩ := hs
  rcases List.append_eq_append_iff.mp hu with ⟨v, rfl, rfl⟩ | ⟨v, rfl, hv⟩
  · rw [List.mem_append, not_or] at hbody
    exact ⟨v, hbody.2, rfl⟩
  · cases v with
    | nil => exact ⟨[], List.not_mem_nil, hv.symm⟩
    | cons c v =>
      have : s = [] := by
        have hlength := congrArg List.length hv
        simp only [List.length_cons, List.length_append, List.length_nil] at hlength
        exact List.length_eq_zero_iff.mp (by omega)
      exact absurd this hne

end AggregatedLogging.Text
