import AggregatedLogging.Curator.Convert
import AggregatedLogging.Regex.Consuming

/-! Project names and the beginnings of their indices. -/
namespace AggregatedLogging.Curator

open Regex (prefixPattern)

def indexPrefix (project : Text) : Text :=
  if project = ".kibana".toList then project
  else if ['.'] <+: project ∨ projPrefix <+: project then project ++ ['.']
  else projPrefix ++ project ++ ['.']

theorem formatRegex_eq (project : Text) : formatRegex project = prefixPattern (indexPrefix project) := by
  unfold formatRegex indexPrefix
  split
  · rfl
  · split <;> rfl

theorem formatRegex_matches (project index : Text) (hline : '\n' ∉ index) :
    Regex.matchesText (formatRegex project) index = true ↔ indexPrefix project <+: index := by
  rw [formatRegex_eq, Regex.prefixPattern_matches _ _ hline]

def isNameChar (c : Char) : Bool := ('a' ≤ c && c ≤ 'z') || ('0' ≤ c && c ≤ '9') || c = '-'

def nameEdge : Regex.Node := .atom (.cls false [.range 'a' 'z', .range '0' '9'])

def nameInside : Regex.Node := .atom (.cls false [.one '-', .range 'a' 'z', .range '0' '9'])

def nameTail : Regex.Node :=
  .rep 0 (some 1) true (.capture 1 (.seq (.rep 0 none true nameInside) (.seq nameEdge .empty)))

def nameNode : Regex.Node :=
  .seq (.atom (.at .lineStart)) (.seq nameEdge (.seq nameTail (.seq (.atom (.at .lineEnd)) .empty)))

theorem compile_projectRe : Regex.compile .python projectRe = some ⟨nameNode, 1, [], {}⟩ := by
  decide +kernel

theorem nameEdge_over : nameEdge.over isNameChar := by
  intro c hc
  simp [Regex.classHolds, Regex.ClassItem.holds, isNameChar] at hc ⊢
  tauto

theorem nameInside_over : nameInside.over isNameChar := by
  intro c hc
  simp [Regex.classHolds, Regex.ClassItem.holds, isNameChar] at hc ⊢
  tauto

theorem nameTail_over : nameTail.over isNameChar := ⟨nameInside_over, nameEdge_over, trivial⟩

/-- A valid name has no characters but letters, digits and dashes, up to one
line break that the anchor at the end lets through. -/
theorem chars_of_matchesProjectRe {name : Text} (h : matchesProjectRe name = true) :
    ∃ s, (name = s ∨ name = s ++ ['\n']) ∧ s.all isNameChar = true := by
  simp only [matchesProjectRe, compile_projectRe, Option.any_some, Regex.Pattern.matchStart,
    Regex.Pattern.matchAt, Option.isSome_map, List.isSome_head?] at h
  obtain ⟨t, ht⟩ := List.exists_mem_of_ne_nil _ h
  simp only [nameNode] at ht
  obtain ⟨s₁, h₁, ht⟩ := List.mem_flatMap.mp ht
  obtain ⟨s₂, h₂, ht⟩ := List.mem_flatMap.mp ht
  obtain ⟨s₃, h₃, ht⟩ := List.mem_flatMap.mp ht
  obtain ⟨s₄, h₄, -⟩ := List.mem_flatMap.mp ht
  have hread : Regex.Reads isNameChar ⟨.start name, fun _ => none⟩ s₃ := by
    have hanchor : (Regex.Node.atom (.at .lineStart)).over isNameChar := trivial
    have hstart := Regex.Node.run_reads ⟨rfl, rfl⟩ hanchor h₁
    have hedge := Regex.Node.run_reads ⟨rfl, rfl⟩ nameEdge_over h₂
    have hrest := Regex.Node.run_reads ⟨rfl, rfl⟩ nameTail_over h₃
    exact (hstart.trans hedge).trans hrest
  obtain ⟨u, hu, hall⟩ := hread
  have hend : s₃.cursor.rest = [] ∨ s₃.cursor.rest = ['\n'] := by
    by_contra hrest
    simp [Regex.Node.run, Regex.Atom.run, Regex.Anchor.holds, not_or.mp hrest] at h₄
  refine ⟨u, ?_, hall⟩
  rcases hend with hend | hend
  · exact .inl (by rw [← List.append_nil u, ← hend]; exact hu)
  · exact .inr (by rw [← hend]; exact hu)

theorem no_dot_of_matchesProjectRe {name : Text} (h : matchesProjectRe name = true) : '.' ∉ name := by
  obtain ⟨s, hs, hall⟩ := chars_of_matchesProjectRe h
  have hdot : '.' ∉ s := by
    intro hmem
    have := List.all_eq_true.mp hall '.' hmem
    contradiction
  rcases hs with rfl | rfl
  · exact hdot
  · simpa using hdot

def ValidName (name : Text) : Prop := name ∈ specialProjects ∨ matchesProjectRe name = true

theorem indexPrefix_of_matchesProjectRe {name : Text} (h : matchesProjectRe name = true) :
    indexPrefix name = projPrefix ++ name ++ ['.'] := by
  have hdot := no_dot_of_matchesProjectRe h
  have hprefix : ¬ (['.'] <+: name ∨ projPrefix <+: name) := by
    rintro (hpre | hpre)
    · exact hdot (hpre.subset (by simp))
    · exact hdot (hpre.subset (by decide))
  have hkibana : name ≠ ".kibana".toList := by
    rintro rfl
    exact hdot (by decide)
  rw [indexPrefix, if_neg hkibana, if_neg hprefix]

theorem eq_of_dotted_prefix {m n index : Text} (hm : '.' ∉ m) (hn : '.' ∉ n)
    (h : m ++ ['.'] <+: index) (h' : n ++ ['.'] <+: index) : m = n := by
  induction m generalizing n index with
  | nil =>
    cases n with
    | nil => rfl
    | cons c n =>
      obtain ⟨r, rfl⟩ := h
      rw [List.cons_append, List.nil_append, List.singleton_append, List.cons_prefix_cons] at h'
      simp [h'.1] at hn
  | cons c m ih =>
    cases n with
    | nil =>
      obtain ⟨r, rfl⟩ := h'
      rw [List.cons_append, List.nil_append, List.singleton_append, List.cons_prefix_cons] at h
      simp [h.1] at hm
    | cons d n =>
      obtain ⟨r, rfl⟩ := h
      rw [List.cons_append, List.cons_append, List.cons_append, List.cons_prefix_cons] at h'
      simp only [List.mem_cons, not_or] at hm hn
      rw [h'.1, ih hm.2 hn.2 (List.prefix_append _ r) h'.2]

theorem specialProjects_prefix_unique : ∀ m ∈ specialProjects, ∀ n ∈ specialProjects,
    m.take 2 = n.take 2 → m = n := by decide

theorem specialProjects_indexPrefix : ∀ m ∈ specialProjects,
    m.take 2 <+: indexPrefix m ∧ m.head? = some '.' ∧ (m.take 2).length = 2 := by decide

theorem special_not_project {m : Text} (hm : m ∈ specialProjects) (rest : Text) :
    ¬ m.take 2 <+: projPrefix ++ rest := by
  obtain ⟨m, rfl⟩ := List.head?_eq_some_iff.mp (specialProjects_indexPrefix m hm).2.1
  intro h
  have := (List.cons_prefix_cons.mp h).1
  contradiction

/-- No index belongs to two projects. -/
theorem eq_of_indexPrefix {m n index : Text} (hm : ValidName m) (hn : ValidName n)
    (h : indexPrefix m <+: index) (h' : indexPrefix n <+: index) : m = n := by
  rcases hm with hm | hm
  · obtain ⟨htake, -, hlen⟩ := specialProjects_indexPrefix m hm
    rcases hn with hn | hn
    · obtain ⟨htake', -, hlen'⟩ := specialProjects_indexPrefix n hn
      have hpre := List.prefix_of_prefix_length_le (htake.trans h) (htake'.trans h')
        (Nat.le_of_eq (hlen.trans hlen'.symm))
      exact specialProjects_prefix_unique m hm n hn (hpre.eq_of_length (hlen.trans hlen'.symm))
    · rw [indexPrefix_of_matchesProjectRe hn, List.append_assoc] at h'
      obtain ⟨r, rfl⟩ := h'
      rw [List.append_assoc] at h
      exact absurd (htake.trans h) (special_not_project hm _)
  · rw [indexPrefix_of_matchesProjectRe hm, List.append_assoc] at h
    obtain ⟨r, rfl⟩ := h
    rw [List.append_assoc] at h'
    rcases hn with hn | hn
    · exact absurd ((specialProjects_indexPrefix n hn).1.trans h') (special_not_project hn _)
    · rw [indexPrefix_of_matchesProjectRe hn, List.append_assoc, List.prefix_append_right_inj] at h'
      exact eq_of_dotted_prefix (no_dot_of_matchesProjectRe hm) (no_dot_of_matchesProjectRe hn)
        (List.prefix_append _ r) h'

end AggregatedLogging.Curator
