import AggregatedLogging.Regex.Flat
import AggregatedLogging.Lines

/-! Deleting every match of a pattern, and the pattern that deletes what stands
from a given text to the end of the line. -/
namespace AggregatedLogging.Regex

/-- Delete the matches from left to right.  `skip` characters still belong to
the last match; an empty match deletes nothing. -/
def Pattern.deleteFrom (r : Pattern) : (skip : Nat) → (past rest : Text) → Text
  | _, _, [] => []
  | skip + 1, past, c :: rest => r.deleteFrom skip (c :: past) rest
  | 0, past, c :: rest =>
    match (r.matchAt ⟨past, c :: rest⟩).map fun m => m.text.length with
    | none | some 0 => c :: r.deleteFrom 0 (c :: past) rest
    | some (n + 1) => r.deleteFrom n (c :: past) rest

def Pattern.delete (r : Pattern) (s : Text) : Text := r.deleteFrom 0 [] s

theorem Pattern.deleteFrom_skip (r : Pattern) (u past rest : Text) :
    r.deleteFrom u.length past (u ++ rest) = r.deleteFrom 0 (u.reverse ++ past) rest := by
  induction u generalizing past with
  | nil => rfl
  | cons c u ih =>
    rw [List.length_cons, List.cons_append, deleteFrom, ih, List.reverse_cons, List.append_assoc]
    rfl

theorem Pattern.deleteFrom_match {r : Pattern} {c : Char} {u past rest : Text} {m : Match}
    (hm : r.matchAt ⟨past, c :: u ++ rest⟩ = some m) (htext : m.text = c :: u) :
    r.deleteFrom 0 past (c :: u ++ rest) = r.deleteFrom 0 ((c :: u).reverse ++ past) rest := by
  have hskip := r.deleteFrom_skip u (c :: past) rest
  rw [List.cons_append] at hm ⊢
  rw [deleteFrom, hm, Option.map_some, htext, List.length_cons]
  simp only
  rw [hskip, List.reverse_cons, List.append_assoc]
  rfl

theorem Pattern.deleteFrom_none {r : Pattern} {c : Char} {past rest : Text}
    (hm : r.matchAt ⟨past, c :: rest⟩ = none) :
    r.deleteFrom 0 past (c :: rest) = c :: r.deleteFrom 0 (c :: past) rest := by
  rw [deleteFrom, hm, Option.map_none]

def lineParts (w : Text) : List Part :=
  w.map Part.one ++ [Part.anything, ⟨.at .lineEnd, none⟩, .one '\n']

def linePattern (w : Text) : Text := quote w ++ ['.', '*', '$', '\\', 'n']

def lineRegex (w : Text) : Pattern := ⟨flat (lineParts w), 0, [], Dialect.ruby.flags⟩

theorem lineParts_repeatable (w : Text) : ∀ p ∈ lineParts w, p.repeatable = true := by
  intro p hp
  rcases List.mem_append.mp hp with hp | hp
  · obtain ⟨c, -, rfl⟩ := List.mem_map.mp hp
    rfl
  · simp only [List.mem_cons, List.not_mem_nil, or_false] at hp
    rcases hp with rfl | rfl | rfl <;> rfl

theorem scans_linePattern (w : Text) :
    Scans .ruby false (linePattern w) (flatTokens (lineParts w)) [] := by
  have hdot : scanToken .ruby false ['.', '*', '$', '\\', 'n'] =
      some ([.item .dot], ['*', '$', '\\', 'n']) := rfl
  have hstar : scanToken .ruby false ['*', '$', '\\', 'n'] =
      some ([.quant 0 none true], ['$', '\\', 'n']) := rfl
  have hend : scanToken .ruby false ['$', '\\', 'n'] =
      some ([.item (.at .lineEnd)], ['\\', 'n']) := rfl
  have hbreak : scanToken .ruby false ['\\', 'n'] = some ([.item (.lit '\n')], []) := rfl
  have htail : Scans .ruby false ['.', '*', '$', '\\', 'n']
      [.item .dot, .quant 0 none true, .item (.at .lineEnd), .item (.lit '\n')] [] :=
    .step hdot (.step hstar (.step hend (.step hbreak .done)))
  rw [lineParts, flatTokens_lits]
  exact (scans_quote .ruby w _).append htail

theorem compile_linePattern (w : Text) : compile .ruby (linePattern w) = some (lineRegex w) :=
  compile_flat (lineParts_repeatable w) (scans_linePattern w)

/-- The greedy dot stops at the line break and nowhere else. -/
theorem restOfLine_break {fl : Flags} (hdot : fl.dotAll = false) (hmulti : fl.multiline = true)
    {t : Text} (ht : '\n' ∉ t) (past rest : Text) (c : Captures) :
    ((flat [.anything, ⟨.at .lineEnd, none⟩, .one '\n']).run fl
        ⟨⟨past, t ++ '\n' :: rest⟩, c⟩).head? =
      some ⟨⟨'\n' :: (t.reverse ++ past), rest⟩, c⟩ := by
  have hbreak (past rest : Text) :
      (Node.seq (.atom (.at .lineEnd)) (.seq (.atom (.lit '\n')) .empty)).run fl
        ⟨⟨past, '\n' :: rest⟩, c⟩ = [⟨⟨'\n' :: past, rest⟩, c⟩] := by
    simp [Node.run, Atom.run, Anchor.holds, State.eat, sameChar, hmulti]
  have hrun (past rest : Text) :
      (flat [.anything, ⟨.at .lineEnd, none⟩, .one '\n']).run fl ⟨⟨past, rest⟩, c⟩ =
        (eats (fun d => fl.dotAll || decide (d ≠ '\n')) past c rest).flatMap
          ((Node.seq (.atom (.at .lineEnd)) (.seq (.atom (.lit '\n')) .empty)).run fl) := by
    rw [← rep_zero_run (dot_run fl)]
    rfl
  rw [hrun]
  clear hrun
  induction t generalizing past with
  | nil => simp [eats, hdot, hbreak]
  | cons x t ih =>
    rw [List.mem_cons, not_or] at ht
    have hx : (fl.dotAll || decide (x ≠ '\n')) = true := by simp [Ne.symm ht.1]
    rw [List.cons_append, eats, if_pos hx, List.flatMap_append, List.head?_append, ih ht.2,
      List.reverse_cons, List.append_assoc]
    rfl

theorem lineRegex_match {w t : Text} (ht : '\n' ∉ t) (past rest : Text) :
    ∃ m, (lineRegex w).matchAt ⟨past, w ++ (t ++ '\n' :: rest)⟩ = some m ∧
      m.text = w ++ (t ++ ['\n']) := by
  have hrun : ((lineRegex w).node.run Dialect.ruby.flags
      ⟨⟨past, w ++ (t ++ '\n' :: rest)⟩, fun _ => none⟩).head? =
        some ⟨⟨'\n' :: (t.reverse ++ (w.reverse ++ past)), rest⟩, fun _ => none⟩ := by
    rw [lineRegex, lineParts, flat_lits, litsThen_run_append rfl]
    exact restOfLine_break rfl rfl ht _ rest _
  refine ⟨_, by rw [Pattern.matchAt]; exact congrArg (Option.map _) hrun, ?_⟩
  have hlength : (w ++ (t ++ '\n' :: rest)).length - rest.length = (w ++ (t ++ ['\n'])).length := by
    simp only [List.length_append, List.length_cons, List.length_nil]
    omega
  rw [Match.text, State.remaining, hlength]
  have hsplit : w ++ (t ++ '\n' :: rest) = (w ++ (t ++ ['\n'])) ++ rest := by simp
  rw [hsplit]
  exact List.take_left

theorem lineRegex_none {w rest : Text} (h : ¬ w <+: rest) (past : Text) :
    (lineRegex w).matchAt ⟨past, rest⟩ = none := by
  rw [Pattern.matchAt, lineRegex, lineParts, flat_lits, litsThen_run_fails rfl h]
  rfl

theorem deleteFrom_part {w u : Text} {s : Text} (h : ∀ v, v <:+ u → v ≠ [] → ¬ w <+: v ++ s)
    (past : Text) :
    (lineRegex w).deleteFrom 0 past (u ++ s) =
      u ++ (lineRegex w).deleteFrom 0 (u.reverse ++ past) s := by
  induction u generalizing past with
  | nil => rfl
  | cons c u ih =>
    have hnone := lineRegex_none (h (c :: u) (List.suffix_refl _) (List.cons_ne_nil c u)) past
    rw [List.cons_append] at hnone ⊢
    rw [Pattern.deleteFrom_none hnone, ih fun v hv => h v (hv.trans (List.suffix_cons c u)),
      List.reverse_cons, List.append_assoc]
    rfl

/-- Lines in which the text stands at the beginning or nowhere. -/
def LeadsOnly (w : Text) (ls : List Text) : Prop :=
  ∀ l ∈ ls, Text.isLine l ∧ ∀ v, v <:+ l → v ≠ l → ¬ w <+: v

theorem delete_lines {w : Text} (hne : w ≠ []) (hw : '\n' ∉ w) {ls : List Text}
    (hls : LeadsOnly w ls) :
    (lineRegex w).delete ls.flatten = (ls.filter fun l => ¬ w <+: l).flatten := by
  have hfrom (past : Text) : (lineRegex w).deleteFrom 0 past ls.flatten =
      (ls.filter fun l => ¬ w <+: l).flatten := by
    induction ls generalizing past with
    | nil => rfl
    | cons l ls ih =>
      obtain ⟨hline, hinner⟩ := hls l List.mem_cons_self
      have hrest := ih fun m hm => hls m (List.mem_cons_of_mem l hm)
      rw [List.flatten_cons, List.filter_cons]
      by_cases hwl : w <+: l
      · obtain ⟨u, hu⟩ := hwl
        obtain ⟨body, hbody, hbreak⟩ := hline
        have ht : ∃ t, '\n' ∉ t ∧ u = t ++ ['\n'] := by
          have hun : u ≠ [] := by
            rintro rfl
            rw [List.append_nil] at hu
            rw [hu, hbreak] at hw
            exact hw (List.mem_append_right body List.mem_cons_self)
          exact Text.suffix_isLine ⟨body, hbody, hbreak⟩ ⟨w, hu⟩ hun
        obtain ⟨t, ht, rfl⟩ := ht
        obtain ⟨m, hm, htext⟩ := lineRegex_match (w := w) ht past ls.flatten
        have hprefix : w <+: l := ⟨_, hu⟩
        have hsplit : w ++ (t ++ '\n' :: ls.flatten) = l ++ ls.flatten := by simp [← hu]
        rw [hsplit] at hm
        rw [hu] at htext
        cases l with
        | nil => exact absurd (List.append_eq_nil_iff.mp hu).1 hne
        | cons c l =>
          rw [Pattern.deleteFrom_match hm htext, if_neg (by simpa using hprefix)]
          exact hrest _
      · have hnot : ∀ v, v <:+ l → v ≠ [] → ¬ w <+: v ++ ls.flatten := by
          intro v hv hvne hwv
          rw [Text.begins_line hw (Text.suffix_isLine hline hv hvne)] at hwv
          by_cases hvl : v = l
          · exact hwl (hvl ▸ hwv)
          · exact hinner v hv hvl hwv
        rw [deleteFrom_part hnot, if_pos (by simpa using hwl), List.flatten_cons, hrest]
  exact hfrom []

end AggregatedLogging.Regex
