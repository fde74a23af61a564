import AggregatedLogging.Regex.Flat
import AggregatedLogging.Glob.Items
import AggregatedLogging.Fluentd.Container

/-! Projects inside patterns: the name of a project becomes part of a regular
expression and of a file glob as it is. -/
namespace AggregatedLogging.Throttle

open Regex Glob Fluentd

/-- Characters without a meaning in a glob, in a list of paths or in a file
name.  Of them only the dot has one in a regular expression. -/
def isPlainChar (c : Char) : Bool := c.isAlphanum || c = '-' || c = '_' || c = '.'

def isPlain (p : Text) : Bool := p.all isPlainChar

/-- The pattern of the lines of a project.  In a Ruby string `\.` is a dot. -/
def projectPattern (project : Text) : Text :=
  ['.', '*', '_'] ++ project ++ ['_', '.', '*', '.', 'l', 'o', 'g']

def namePart (c : Char) : Part := if c = '.' then ⟨.dot, none⟩ else .one c

def projectParts (project : Text) : List Part :=
  [Part.anything, .one '_'] ++ project.map namePart ++
    [Part.one '_', .anything, ⟨.dot, none⟩, .one 'l', .one 'o', .one 'g']

def projectRegex (project : Text) : Pattern :=
  ⟨flat (projectParts project), 0, [], Dialect.ruby.flags⟩

theorem scanToken_plain {c : Char} (hc : isPlainChar c = true) (s : Text) :
    scanToken .ruby false (c :: s) = some ((namePart c).tokens, s) := by
  simp only [isPlainChar, Bool.or_eq_true, decide_eq_true_eq] at hc
  rcases hc with ((hc | rfl) | rfl) | rfl
  · have hdot : c ≠ '.' := by
      rintro rfl
      contradiction
    have := scanChar_of_alphanum .ruby hc s
    simp [scanToken, this, namePart, hdot, Part.one, Part.tokens]
  · rfl
  · rfl
  · rfl

theorem scans_plain {w : Text} (hw : isPlain w = true) (r : Text) :
    Scans .ruby false (w ++ r) (flatTokens (w.map namePart)) r := by
  induction w with
  | nil => exact .done
  | cons c w ih =>
    rw [isPlain, List.all_cons, Bool.and_eq_true] at hw
    exact .step (scanToken_plain hw.1 (w ++ r)) (ih hw.2)

theorem projectParts_repeatable (project : Text) :
    ∀ p ∈ projectParts project, p.repeatable = true := by
  have hfront : [Part.anything, .one '_'].all Part.repeatable = true := rfl
  have hback : [Part.one '_', .anything, ⟨.dot, none⟩, .one 'l', .one 'o', .one 'g'].all
      Part.repeatable = true := rfl
  intro p hp
  simp only [projectParts, List.mem_append, List.mem_map] at hp
  rcases hp with (hp | ⟨c, -, rfl⟩) | hp
  · exact List.all_eq_true.mp hfront p hp
  · unfold namePart
    split <;> rfl
  · exact List.all_eq_true.mp hback p hp

theorem scans_projectPattern {project : Text} (hp : isPlain project = true) :
    Scans .ruby false (projectPattern project) (flatTokens (projectParts project)) [] := by
  have hfront (r : Text) : Scans .ruby false ('.' :: '*' :: '_' :: r)
      [.item .dot, .quant 0 none true, .item (.lit '_')] r := by
    have hdot : scanToken .ruby false ('.' :: '*' :: '_' :: r) =
        some ([.item .dot], '*' :: '_' :: r) := rfl
    have hstar : scanToken .ruby false ('*' :: '_' :: r) =
        some ([.quant 0 none true], '_' :: r) := rfl
    have hbar : scanToken .ruby false ('_' :: r) = some ([.item (.lit '_')], r) := rfl
    exact .step hdot (.step hstar (.step hbar .done))
  have hback : Scans .ruby false ['_', '.', '*', '.', 'l', 'o', 'g']
      (flatTokens [.one '_', .anything, ⟨.dot, none⟩, .one 'l', .one 'o', .one 'g']) [] := by
    exact (scan_iff (Nat.le_refl _)).mp rfl
  have htokens : flatTokens (projectParts project) =
      [Token.item .dot, .quant 0 none true, .item (.lit '_')] ++ (flatTokens (project.map namePart) ++
        flatTokens [.one '_', .anything, ⟨.dot, none⟩, .one 'l', .one 'o', .one 'g']) := by
    simp only [flatTokens, projectParts, List.flatMap_append, List.append_assoc]
    rfl
  rw [htokens, projectPattern, List.append_assoc]
  exact (hfront _).append ((scans_plain hp _).append hback)

theorem compile_projectPattern {project : Text} (hp : isPlain project = true) :
    compile .ruby (projectPattern project) = some (projectRegex project) :=
  compile_flat (projectParts_repeatable project) (scans_projectPattern hp)

theorem namePart_eq {w : Text} (hw : '.' ∉ w) : w.map namePart = w.map .one := by
  apply List.map_congr_left
  intro c hc
  have hdot : c ≠ '.' := by
    rintro rfl
    exact hw hc
  rw [namePart, if_neg hdot]

/-- The pattern behind the name: an underscore, and somewhere behind it the
suffix with one character before it. -/
theorem projectRegex_found {project : Text} (hp : '.' ∉ project) (s : Text) :
    (projectRegex project).found s = true ↔
      ∃ u v d w, s = u ++ '_' :: (project ++ '_' :: (v ++ d :: 'l' :: 'o' :: 'g' :: w)) ∧
        '\n' ∉ v ∧ d ≠ '\n' := by
  have hparts : projectParts project = .anything :: .one '_' :: (project.map Part.one ++
      [Part.one '_', .anything, ⟨.dot, none⟩, .one 'l', .one 'o', .one 'g']) := by
    rw [projectParts, namePart_eq hp]
    rfl
  have hempty (s : State) : (flat []).run Dialect.ruby.flags s ≠ [] := List.cons_ne_nil _ _
  have hfl : Dialect.ruby.flags.ignoreCase = false := rfl
  have hdot : Dialect.ruby.flags.dotAll = false := rfl
  rw [Pattern.found_behind]
  simp only [projectRegex, hparts, flat_anything_run hdot, flat_one_run hfl, flat_lits_run hfl,
    flat_eat_run (dot_run Dialect.ruby.flags), ne_eq, hempty, not_false_eq_true, and_true]
  constructor
  · rintro ⟨-, -, rfl, u, -, rfl, -, -, rfl, -, rfl, -, rfl, v, -, rfl, hv, d, -, rfl, hd, -, rfl, -,
      rfl, w, rfl⟩
    rename_i u₀
    exact ⟨u₀ ++ u, v, d, w, by simp, hv, by simpa [hdot] using hd⟩
  · rintro ⟨u, v, d, w, rfl, hv, hd⟩
    exact ⟨u, _, rfl, [], _, rfl, List.not_mem_nil, _, rfl, _, rfl, _, rfl, v, _, rfl, hv, d, _, rfl,
      by simpa [hdot] using hd, _, rfl, _, rfl, w, rfl⟩

end AggregatedLogging.Throttle
