import AggregatedLogging.Regex.Fields

/-! Patterns without groups and alternatives: atoms one after the other, each of
them once or repeated. -/
namespace AggregatedLogging.Regex

structure Part where
  atom : Atom
  bounds : Option (Nat × Option Nat × Bool) := none
  deriving DecidableEq, Repr

namespace Part

def tokens (p : Part) : List Token :=
  match p.bounds with
  | none => [.item p.atom]
  | some (lo, hi, greedy) => [.item p.atom, .quant lo hi greedy]

def node (p : Part) : Node :=
  match p.bounds with
  | none => .atom p.atom
  | some (lo, hi, greedy) => .rep lo hi greedy (.atom p.atom)

def repeatable (p : Part) : Bool := p.bounds = none || (Node.atom p.atom).repeatable

def one (c : Char) : Part := ⟨.lit c, none⟩

def anything : Part := ⟨.dot, some (0, none, true)⟩

end Part

def flat (ps : List Part) : Node := (ps.map Part.node).foldr .seq .empty

def flatTokens (ps : List Part) : List Token := ps.flatMap Part.tokens

theorem flat_lits (w : Text) (ps : List Part) : flat (w.map Part.one ++ ps) = litsThen w (flat ps) := by
  simp [flat, litsThen, Part.one, Part.node, List.foldr_map]

theorem flatTokens_lits (w : Text) (ps : List Part) :
    flatTokens (w.map Part.one ++ ps) = (w.map fun c => Token.item (.lit c)) ++ flatTokens ps := by
  induction w with
  | nil => rfl
  | cons c w ih => exact congrArg (List.cons (Token.item (.lit c))) ih

theorem run_part {p : Part} (hp : p.repeatable = true) (b : Builder) (h : b.inner = []) :
    b.run p.tokens = some { b with base := b.base.push p.node } := by
  obtain ⟨groups, names, flags, inner, base⟩ := b
  obtain rfl : inner = [] := h
  obtain ⟨atom, bounds⟩ := p
  cases bounds with
  | none => rfl
  | some q =>
    have hatom : (Node.atom atom).repeatable = true := hp
    simp [Builder.run, Part.tokens, Part.node, Builder.step, Builder.onTop, Branches.push,
      Branches.quantify, hatom]

theorem run_flat {ps : List Part} (hps : ∀ p ∈ ps, p.repeatable = true) (b : Builder)
    (h : b.inner = []) :
    b.run (flatTokens ps) =
      some { b with base := { b.base with items := (ps.map Part.node).reverse ++ b.base.items } } := by
  induction ps generalizing b with
  | nil => rfl
  | cons p ps ih =>
    have hpart := run_part (hps p List.mem_cons_self) b h
    have hrest := ih (fun q hq => hps q (List.mem_cons_of_mem p hq))
      { b with base := b.base.push p.node } h
    refine Builder.run_append.mpr ⟨_, hpart, hrest.trans ?_⟩
    simp [Branches.push]

theorem parse_flat {ps : List Part} (hps : ∀ p ∈ ps, p.repeatable = true) :
    parse (flatTokens ps) = some ⟨flat ps, 0, [], {}⟩ := by
  refine parse_iff.mpr ⟨_, run_flat hps {} rfl, rfl, ?_⟩
  simp only [List.append_nil, Branches.node, Branches.all, altOf, seqOf, List.foldl_reverse]
  rfl

theorem flat_sound (ps : List Part) (groups : Nat) : (flat ps).sound groups = true := by
  induction ps with
  | nil => rfl
  | cons p ps ih =>
    obtain ⟨atom, bounds⟩ := p
    cases bounds with
    | none => exact ih
    | some q => exact ih

theorem compile_flat {d : Dialect} {pattern : Text} {ps : List Part}
    (hps : ∀ p ∈ ps, p.repeatable = true) (hscan : Scans d false pattern (flatTokens ps) []) :
    compile d pattern = some ⟨flat ps, 0, [], d.flags⟩ := by
  have hread : read d false pattern = some ⟨flat ps, 0, [], {}⟩ := by
    rw [read, (scan_iff (Nat.le_refl _)).mpr hscan, Option.bind_some, parse_flat hps]
  have hgroups : d.groupsAllowed 0 = true := by cases d <;> rfl
  have hflags : d.flags.union {} = d.flags := by cases d <;> rfl
  simp only [compile, hread, Option.bind_some, reread, Bool.false_eq_true, ↓reduceIte,
    Pattern.checked, flat_sound, hgroups, and_self, hflags]

theorem flat_eat_run {fl : Flags} {a : Atom} {p : Char → Bool}
    (ha : ∀ s, (Node.atom a).run fl s = s.eat p) (ps : List Part) (past rest : Text)
    (c : Captures) :
    (flat (⟨a, none⟩ :: ps)).run fl ⟨⟨past, rest⟩, c⟩ ≠ [] ↔
      ∃ x r, rest = x :: r ∧ p x = true ∧ (flat ps).run fl ⟨⟨x :: past, r⟩, c⟩ ≠ [] := by
  change List.flatMap ((flat ps).run fl) ((Node.atom a).run fl ⟨⟨past, rest⟩, c⟩) ≠ [] ↔ _
  rw [ha]
  cases rest with
  | nil => simp [State.eat]
  | cons x rest =>
    by_cases hx : p x = true
    · simp [State.eat, hx]
    · simp [State.eat, hx]

theorem flat_one_run {fl : Flags} (hfl : fl.ignoreCase = false) (x : Char) (ps : List Part)
    (past rest : Text) (c : Captures) :
    (flat (.one x :: ps)).run fl ⟨⟨past, rest⟩, c⟩ ≠ [] ↔
      ∃ r, rest = x :: r ∧ (flat ps).run fl ⟨⟨x :: past, r⟩, c⟩ ≠ [] := by
  refine (flat_eat_run (p := sameChar fl x) (fun s => rfl) ps past rest c).trans ?_
  constructor
  · rintro ⟨y, r, rfl, hy, hr⟩
    have hyx : y = x := by simpa [sameChar, hfl] using hy
    subst hyx
    exact ⟨r, rfl, hr⟩
  · rintro ⟨r, rfl, hr⟩
    exact ⟨x, r, rfl, by simp [sameChar], hr⟩

theorem flat_lits_run {fl : Flags} (hfl : fl.ignoreCase = false) (w : Text) (ps : List Part)
    (past rest : Text) (c : Captures) :
    (flat (w.map Part.one ++ ps)).run fl ⟨⟨past, rest⟩, c⟩ ≠ [] ↔
      ∃ r, rest = w ++ r ∧ (flat ps).run fl ⟨⟨w.reverse ++ past, r⟩, c⟩ ≠ [] := by
  rw [flat_lits]
  by_cases h : w <+: rest
  · obtain ⟨r, rfl⟩ := h
    rw [litsThen_run_append hfl]
    simp
  · rw [litsThen_run_fails hfl h]
    constructor
    · intro hnil
      contradiction
    · rintro ⟨r, rfl, -⟩
      exact absurd (List.prefix_append w r) h

theorem flat_anything_run {fl : Flags} (hfl : fl.dotAll = false) (ps : List Part)
    (past rest : Text) (c : Captures) :
    (flat (.anything :: ps)).run fl ⟨⟨past, rest⟩, c⟩ ≠ [] ↔
      ∃ u r, rest = u ++ r ∧ '\n' ∉ u ∧ (flat ps).run fl ⟨⟨u.reverse ++ past, r⟩, c⟩ ≠ [] := by
  change List.flatMap ((flat ps).run fl)
    ((Node.rep 0 none true (.atom .dot)).run fl ⟨⟨past, rest⟩, c⟩) ≠ [] ↔ _
  rw [rep_zero_run (dot_run fl)]
  have hhere (past rest : Text) (h : (flat ps).run fl ⟨⟨past, rest⟩, c⟩ ≠ []) :
      ∃ u r, rest = u ++ r ∧ '\n' ∉ u ∧ (flat ps).run fl ⟨⟨u.reverse ++ past, r⟩, c⟩ ≠ [] :=
    ⟨[], rest, rfl, List.not_mem_nil, h⟩
  induction rest generalizing past with
  | nil =>
    simp only [eats, List.flatMap_cons, List.flatMap_nil, List.append_nil]
    constructor
    · exact hhere past []
    · rintro ⟨u, r, hu, -, hr⟩
      obtain ⟨rfl, rfl⟩ := List.append_eq_nil_iff.mp hu.symm
      exact hr
  | cons x rest ih =>
    rw [eats, List.flatMap_append, List.flatMap_cons, List.flatMap_nil, List.append_nil, ne_eq,
      List.append_eq_nil_iff, not_and_or, ← ne_eq, ← ne_eq]
    constructor
    · rintro (h | h)
      · split at h
        · rename_i hx
          obtain ⟨u, r, rfl, hu, hr⟩ := (ih (x :: past)).mp h
          have hbreak : x ≠ '\n' := by simpa [hfl] using hx
          refine ⟨x :: u, r, rfl, by simp [Ne.symm hbreak, hu], ?_⟩
          rw [List.reverse_cons, List.append_assoc]
          exact hr
        · contradiction
      · exact hhere past (x :: rest) h
    · rintro ⟨u, r, hsplit, hu, hr⟩
      cases u with
      | nil =>
        obtain rfl : r = x :: rest := hsplit.symm
        exact .inr hr
      | cons y u =>
        obtain ⟨rfl, rfl⟩ := List.cons.inj hsplit
        rw [List.mem_cons, not_or] at hu
        rw [List.reverse_cons, List.append_assoc] at hr
        rw [if_pos (by simp [hfl, Ne.symm hu.1])]
        exact .inl ((ih (x :: past)).mpr ⟨u, r, rfl, hu.2, hr⟩)

theorem mem_positions {past rest : Text} {c : Cursor} :
    c ∈ positions past rest ↔ ∃ u r, rest = u ++ r ∧ c = ⟨u.reverse ++ past, r⟩ := by
  induction rest generalizing past with
  | nil =>
    rw [positions, List.mem_singleton]
    constructor
    · intro h
      exact ⟨[], [], rfl, h⟩
    · rintro ⟨u, r, hu, h⟩
      obtain ⟨rfl, rfl⟩ := List.append_eq_nil_iff.mp hu.symm
      exact h
  | cons x rest ih =>
    rw [positions, List.mem_cons, ih]
    constructor
    · rintro (h | ⟨u, r, rfl, rfl⟩)
      · exact ⟨[], x :: rest, rfl, h⟩
      · exact ⟨x :: u, r, rfl, by simp⟩
    · rintro ⟨u, r, hsplit, rfl⟩
      cases u with
      | nil =>
        obtain rfl : r = x :: rest := hsplit.symm
        exact .inl rfl
      | cons y u =>
        obtain ⟨rfl, rfl⟩ := List.cons.inj hsplit
        exact .inr ⟨u, r, rfl, by simp⟩

theorem Pattern.found_behind (r : Pattern) (s : Text) :
    r.found s = true ↔
      ∃ u t, s = u ++ t ∧ r.node.run r.flags ⟨⟨u.reverse, t⟩, fun _ => none⟩ ≠ [] := by
  rw [r.found_iff]
  constructor
  · rintro ⟨c, hc, hsucc⟩
    obtain ⟨u, t, rfl, rfl⟩ := mem_positions.mp hc
    rw [List.append_nil] at hsucc
    exact ⟨u, t, rfl, hsucc⟩
  · rintro ⟨u, t, rfl, hsucc⟩
    refine ⟨⟨u.reverse ++ [], t⟩, mem_positions.mpr ⟨u, t, rfl, rfl⟩, ?_⟩
    rw [List.append_nil]
    exact hsucc

end AggregatedLogging.Regex
