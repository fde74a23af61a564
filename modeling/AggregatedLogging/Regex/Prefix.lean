import AggregatedLogging.Regex.Alternatives
import AggregatedLogging.Regex.Escape

/-! The pattern of the texts with a given prefix. -/
namespace AggregatedLogging.Regex

def prefixPattern (s : Text) : Text := '^' :: (escape s ++ ['.', '*', '$'])

def prefixTokens (s : Text) : List Token :=
  .item (.at .lineStart) :: (s.map (fun c => Token.item (.lit c)) ++
    [Token.item .dot, .quant 0 none true, .item (.at .lineEnd)])

def litsThen (s : Text) (last : Node) : Node := s.foldr (fun c a => .seq (.atom (.lit c)) a) last

def restOfLine : Node :=
  .seq (.rep 0 none true (.atom .dot)) (.seq (.atom (.at .lineEnd)) .empty)

def prefixNode (s : Text) : Node := .seq (.atom (.at .lineStart)) (litsThen s restOfLine)

theorem scans_prefixPattern (s : Text) :
    Scans .python false (prefixPattern s) (prefixTokens s) [] := by
  have hstart : scanToken .python false (prefixPattern s) =
      some ([.item (.at .lineStart)], escape s ++ ['.', '*', '$']) := rfl
  have hdot : scanToken .python false ['.', '*', '$'] = some ([.item .dot], ['*', '$']) := rfl
  have hstar : scanToken .python false ['*', '$'] = some ([.quant 0 none true], ['$']) := rfl
  have hend : scanToken .python false ['$'] = some ([.item (.at .lineEnd)], []) := rfl
  have htail : Scans .python false ['.', '*', '$']
      [.item .dot, .quant 0 none true, .item (.at .lineEnd)] [] :=
    .step hdot (.step hstar (.step hend .done))
  exact .step hstart ((scans_escape .python s _).append htail)

theorem run_lits (s : Text) (b : Builder) (h : b.inner = []) :
    b.run (s.map fun c => .item (.lit c)) =
      some { b with base := { b.base with
        items := (s.map fun c => Node.atom (.lit c)).reverse ++ b.base.items } } := by
  induction s generalizing b with
  | nil => rfl
  | cons c s ih =>
    obtain ⟨groups, names, flags, inner, base⟩ := b
    obtain rfl : inner = [] := h
    have := ih ⟨groups, names, flags, [], base.push (.atom (.lit c))⟩ rfl
    simp only [Branches.push] at this
    simp only [List.map_cons, List.reverse_cons, List.append_assoc, List.singleton_append]
    exact Builder.run_cons.mpr ⟨_, rfl, this⟩

theorem seqOf_lits (s : Text) (items : List Node) :
    seqOf (items ++ (s.map fun c => Node.atom (.lit c)).reverse ++ [Node.atom (.at .lineStart)]) =
      .seq (.atom (.at .lineStart)) (litsThen s (seqOf items)) := by
  simp only [seqOf, List.foldl_append, List.foldl_cons, List.foldl_nil, litsThen]
  rw [List.foldl_reverse, List.foldr_map]

theorem parse_prefixTokens (s : Text) :
    parse (prefixTokens s) = some ⟨prefixNode s, 0, [], {}⟩ := by
  refine parse_iff.mpr ⟨⟨0, [], {}, [], ⟨[],
    [Node.atom (.at .lineEnd), .rep 0 none true (.atom .dot)] ++
      (s.map fun c => Node.atom (.lit c)).reverse ++ [Node.atom (.at .lineStart)]⟩⟩, ?_, rfl, ?_⟩
  · have hlits := run_lits s ⟨0, [], {}, [], ⟨[], [.atom (.at .lineStart)]⟩⟩ rfl
    exact Builder.run_cons.mpr ⟨_, rfl, Builder.run_append.mpr ⟨_, hlits, rfl⟩⟩
  · simp only [Branches.node, Branches.all, altOf, seqOf_lits]
    rfl

theorem litsThen_sound (s : Text) (a : Node) (g : Nat) : (litsThen s a).sound g = a.sound g := by
  induction s with
  | nil => rfl
  | cons c s ih => exact ih

theorem prefixPattern_plain (s : Text) :
    Plain (prefixPattern s) (prefixTokens s) ⟨prefixNode s, 0, [], {}⟩ where
  scans := scans_prefixPattern s
  parses := parse_prefixTokens s
  flags := rfl
  sound := by
    simp only [prefixNode, Node.sound, litsThen_sound, Bool.true_and]
    rfl

theorem compile_prefixPattern (s : Text) :
    compile .python (prefixPattern s) = some ⟨prefixNode s, 0, [], {}⟩ :=
  (prefixPattern_plain s).compiles (Nat.zero_le _)

theorem prefixPattern_groupCount (s : Text) : groupCount (prefixPattern s) = 0 := by
  simp [groupCount, compile_prefixPattern]

theorem prefixPattern_groupNames (s : Text) : groupNames (prefixPattern s) = [] := by
  simp [groupNames, compile_prefixPattern, Pattern.nameList]

theorem prefixPattern_setsFlags (s : Text) : setsFlags (prefixPattern s) = false := by
  simp [setsFlags, compile_prefixPattern]

theorem prefixPattern_usesNumbers (s : Text) : usesNumbers (prefixPattern s) = false := by
  rw [(prefixPattern_plain s).usesNumbers_eq]
  simp [prefixTokens, Token.numbered]

theorem prefixPattern_inert (s : Text) : Inert (prefixPattern s) where
  compiles := by rw [compile_prefixPattern, Option.isSome_some]
  setsFlags := prefixPattern_setsFlags s
  groupCount := prefixPattern_groupCount s
  groupNames := prefixPattern_groupNames s
  usesNumbers := prefixPattern_usesNumbers s

/-- A greedy dot reaches the end of a text without line breaks. -/
theorem iterate_dot_reaches_end (c : Captures) (rest past : Text) (fuel : Nat)
    (hfuel : rest.length < fuel) (hline : '\n' ∉ rest) :
    ∃ t ∈ iterate ((Node.atom .dot).run {}) true fuel 0 none ⟨⟨past, rest⟩, c⟩,
      t.cursor.rest = [] := by
  induction rest generalizing past fuel with
  | nil =>
    cases fuel with
    | zero => contradiction
    | succ fuel => exact ⟨⟨⟨past, []⟩, c⟩, by simp [iterate], rfl⟩
  | cons x rest ih =>
    cases fuel with
    | zero => contradiction
    | succ fuel =>
      simp only [List.length_cons] at hfuel
      simp only [List.mem_cons, not_or] at hline
      obtain ⟨t, ht, hend⟩ := ih (x :: past) fuel (by omega) hline.2
      have hx : x ≠ '\n' := Ne.symm hline.1
      have hstep : (Node.atom .dot).run {} ⟨⟨past, x :: rest⟩, c⟩ = [⟨⟨x :: past, rest⟩, c⟩] := by
        simp [Node.run, Atom.run, State.eat, hx]
      refine ⟨t, ?_, hend⟩
      simp only [iterate, reduceCtorEq, ↓reduceIte, hstep, List.flatMap_cons, List.flatMap_nil,
        List.append_nil, State.remaining, List.length_cons, Nat.lt_succ_self, Option.map_none]
      exact List.mem_append_left _ ht

theorem restOfLine_run (past rest : Text) (c : Captures) (hline : '\n' ∉ rest) :
    restOfLine.run {} ⟨⟨past, rest⟩, c⟩ ≠ [] := by
  obtain ⟨t, ht, hend⟩ := iterate_dot_reaches_end c rest past
    (0 + (⟨⟨past, rest⟩, c⟩ : State).remaining + 1) (by simp [State.remaining]) hline
  refine List.ne_nil_of_mem (a := t) ?_
  simp only [restOfLine, Node.run, List.mem_flatMap]
  exact ⟨t, ht, t, by simp [Atom.run, Anchor.holds, hend], by simp⟩

theorem litsThen_run (s past rest : Text) (c : Captures) (a : Node)
    (h : ∀ past rest', rest' <:+ rest → a.run {} ⟨⟨past, rest'⟩, c⟩ ≠ []) :
    (litsThen s a).run {} ⟨⟨past, rest⟩, c⟩ ≠ [] ↔ s <+: rest := by
  induction s generalizing past rest with
  | nil =>
    simp only [litsThen, List.foldr_nil, List.nil_prefix, iff_true]
    exact h past rest (List.suffix_refl rest)
  | cons x s ih =>
    cases rest with
    | nil => simp [litsThen, Node.run, Atom.run, State.eat]
    | cons y rest =>
      have hrest := ih (y :: past) rest fun past rest' hsuffix =>
        h past rest' (hsuffix.trans (List.suffix_cons y rest))
      rw [List.cons_prefix_cons, ← hrest]
      by_cases hxy : x = y
      · subst hxy
        simp [litsThen, Node.run, Atom.run, State.eat, sameChar]
      · simp [litsThen, Node.run, Atom.run, State.eat, sameChar, Ne.symm hxy, hxy]

theorem prefixNode_fails (s : Text) {c : Cursor} (h : c.past ≠ []) :
    ¬ (⟨prefixNode s, 0, [], {}⟩ : Pattern).succeeds c := by
  simp [Pattern.succeeds, prefixNode, Node.run, Atom.run, Anchor.holds, h]

theorem prefixNode_succeeds (s subject : Text) (hline : '\n' ∉ subject) :
    (⟨prefixNode s, 0, [], {}⟩ : Pattern).succeeds (.start subject) ↔ s <+: subject := by
  have hlits := litsThen_run s [] subject (fun _ => none) restOfLine fun past rest' hsuffix =>
    restOfLine_run past rest' _ fun hmem => hline (hsuffix.subset hmem)
  rw [← hlits]
  simp [Pattern.succeeds, prefixNode, Node.run, Atom.run, Anchor.holds, Cursor.start]

theorem positions_start {past rest : Text} {c : Cursor} (h : c ∈ positions past rest)
    (hpast : c.past = []) : past = [] ∧ c = .start rest := by
  induction rest generalizing past with
  | nil =>
    obtain rfl := List.mem_singleton.mp h
    obtain rfl : past = [] := hpast
    exact ⟨rfl, rfl⟩
  | cons x rest ih =>
    rcases List.mem_cons.mp h with rfl | h
    · obtain rfl : past = [] := hpast
      exact ⟨rfl, rfl⟩
    · exact absurd (ih h).1 (List.cons_ne_nil x past)

theorem start_mem_positions (s : Text) : Cursor.start s ∈ positions [] s := by
  cases s <;> exact List.mem_cons_self

theorem prefixPattern_matches (s subject : Text) (hline : '\n' ∉ subject) :
    matchesText (prefixPattern s) subject = true ↔ s <+: subject := by
  simp only [matchesText, compile_prefixPattern, Option.any_some, Pattern.found_iff]
  constructor
  · rintro ⟨c, hc, hsucc⟩
    have hpast : c.past = [] := by
      by_contra hpast
      exact prefixNode_fails s hpast hsucc
    obtain ⟨-, rfl⟩ := positions_start hc hpast
    exact (prefixNode_succeeds s subject hline).mp hsucc
  · intro h
    exact ⟨.start subject, start_mem_positions subject,
      (prefixNode_succeeds s subject hline).mpr h⟩

end AggregatedLogging.Regex
