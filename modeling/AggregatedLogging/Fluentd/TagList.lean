import AggregatedLogging.Fluentd.OperationsTags

/-! The text that `run.sh` makes of `OCP_OPERATIONS_PROJECTS`, and the lists of patterns that
it makes with `sed`. -/
namespace AggregatedLogging.Fluentd

open Glob

/-- A wildcard of the shell stands for no `/`, and at the start for no dot. -/
def expands (pattern name : Text) : Bool :=
  !(pattern.head? = some '*' && name.head? = some '.') &&
    exactly (pattern.map fun c => if c = '*' then .many '/' else .lit c) name

/-- What a word without quotes stands for: the files with a name that it matches, if there
are any. -/
def expansion (files : List Text) (w : Text) : List Text :=
  if files.filter (expands w) = [] then [w] else files.filter (expands w)

/-- `OCP_FLUENTD_TAGS`, in a directory with these files. -/
def fluentdTags (files : List Text) (value : Option Text) : Text :=
  ((operationsProjects value).flatMap (expansion files)).flatMap fun p => ' ' :: projectTag p

def tagsMark : Text := "%OCP_FLUENTD_TAGS%".toList

/-- `s/%OCP_FLUENTD_TAGS%/tags/`, which replaces the first mark of a line. -/
def withTags (tags : Text) : Text → Text
  | [] => []
  | c :: s =>
    if tagsMark <+: c :: s then tags ++ (c :: s).drop tagsMark.length else c :: withTags tags s

/-- The characters that the shell, `sed` or the reader of the lists takes for something
else. -/
def specialChars : Text := "?[]\\/&\"#>\r\x0b\x0c".toList

/-- The words of the variable stand for themselves. -/
structure Literal (files : List Text) (value : Option Text) : Prop where
  unmatched : ∀ p ∈ operationsProjects value, files.filter (expands p) = []
  plain : ∀ p ∈ operationsProjects value, ∀ c ∈ specialChars, c ∉ p

theorem Literal.of_all {files : List Text} {value : Option Text}
    (hunmatched : ∀ p ∈ operationsProjects value, files.filter (expands p) = [])
    (hplain : ∀ p ∈ operationsProjects value, (specialChars.all fun c => decide (c ∉ p)) = true) :
    Literal files value where
  unmatched := hunmatched
  plain p hp := Text.forall_of_all (hplain p hp)

theorem wordsFrom_solid {u : Text} (hu : u.all (fun c => !isBlank c) = true) (word s : Text) :
    wordsFrom word (u ++ s) = wordsFrom (word ++ u) s := by
  induction u generalizing word with
  | nil => rw [List.nil_append, List.append_nil]
  | cons c u ih =>
    rw [List.all_cons, Bool.and_eq_true, Bool.not_eq_true'] at hu
    rw [List.cons_append, wordsFrom, hu.1, if_neg Bool.false_ne_true, ih hu.2, List.append_assoc,
      List.singleton_append]

theorem wordsFrom_blank (word u s : Text) :
    wordsFrom word (u ++ ' ' :: s) = wordsFrom word u ++ words s := by
  induction u generalizing word with
  | nil =>
    rw [List.nil_append, wordsFrom, wordsFrom, if_pos (by decide)]
    split
    · rfl
    · rfl
  | cons c u ih =>
    rw [List.cons_append, wordsFrom, wordsFrom, ih, ih]
    split
    · split
      · rfl
      · rfl
    · rfl

theorem solid_of_mem {word s : Text} (hword : word.all (fun c => !isBlank c) = true) {p : Text}
    (hp : p ∈ wordsFrom word s) : p ≠ [] ∧ p.all (fun c => !isBlank c) = true := by
  induction s generalizing word with
  | nil =>
    rw [wordsFrom] at hp
    split at hp
    · contradiction
    · rename_i hne
      obtain rfl := List.mem_singleton.mp hp
      exact ⟨hne, hword⟩
  | cons c s ih =>
    rw [wordsFrom] at hp
    split at hp
    · split at hp
      · exact ih rfl hp
      · rename_i hne
        rcases List.mem_cons.mp hp with rfl | hp
        · exact ⟨hne, hword⟩
        · exact ih rfl hp
    · rename_i hc
      have hadded : (word ++ [c]).all (fun c => !isBlank c) = true := by
        rw [List.all_append, hword, List.all_cons, Bool.eq_false_iff.mpr hc]
        rfl
      exact ih hadded hp

theorem projectTag_solid {p : Text} (hp : p.all (fun c => !isBlank c) = true) :
    (projectTag p).all (fun c => !isBlank c) = true := by
  have hword := projectWord_all (f := fun c => !isBlank c) (by decide) hp
  rw [projectTag, List.all_append, List.all_append, hword]
  rfl

theorem words_spaced {ws : List Text}
    (h : ∀ w ∈ ws, w ≠ [] ∧ w.all (fun c => !isBlank c) = true) :
    words (ws.flatMap (' ' :: ·)) = ws := by
  induction ws with
  | nil => rfl
  | cons w ws ih =>
    obtain ⟨hne, hsolid⟩ := h w List.mem_cons_self
    have hrest := ih fun v hv => h v (List.mem_cons_of_mem w hv)
    rw [List.flatMap_cons, List.cons_append, words, wordsFrom, if_pos (by decide), if_pos rfl,
      wordsFrom_solid hsolid, List.nil_append]
    cases ws with
    | nil =>
      rw [List.flatMap_nil, wordsFrom, if_neg hne]
    | cons v vs =>
      rw [List.flatMap_cons, List.cons_append, ← List.nil_append (' ' :: _), wordsFrom_blank,
        wordsFrom, if_neg hne, List.singleton_append]
      rw [List.flatMap_cons, List.cons_append, words, wordsFrom, if_pos (by decide),
        if_pos rfl] at hrest
      rw [words, hrest]

theorem words_fluentdTags {files : List Text} {value : Option Text} (h : Literal files value) :
    words (fluentdTags files value) = ocpFluentdTags value := by
  have hself : (operationsProjects value).flatMap (expansion files) = operationsProjects value := by
    have hword : ∀ p ∈ operationsProjects value, expansion files p = [p] :=
      fun p hp => if_pos (h.unmatched p hp)
    rw [List.flatMap_congr hword]
    exact List.flatMap_singleton' _
  have hspaced : fluentdTags files value = (ocpFluentdTags value).flatMap (' ' :: ·) := by
    rw [fluentdTags, hself, ocpFluentdTags, List.flatMap_map]
  rw [hspaced]
  apply words_spaced
  intro w hw
  obtain ⟨p, hp, rfl⟩ := List.mem_map.mp hw
  refine ⟨List.append_ne_nil_of_left_ne_nil (List.cons_ne_nil _ _) _, ?_⟩
  exact projectTag_solid (solid_of_mem rfl hp).2

theorem withTags_mark (tags : Text) {u : Text} (hu : '%' ∉ u) (s : Text) :
    withTags tags (u ++ tagsMark ++ s) = u ++ (tags ++ s) := by
  induction u with
  | nil =>
    change (if tagsMark <+: tagsMark ++ s then _ else _) = _
    rw [if_pos (List.prefix_append tagsMark s)]
    rfl
  | cons c u ih =>
    rw [List.mem_cons, not_or] at hu
    have hnot : ¬ tagsMark <+: c :: (u ++ tagsMark ++ s) := by
      intro hprefix
      exact hu.1 (List.cons_prefix_cons.mp hprefix).1
    rw [List.cons_append, List.cons_append, withTags, if_neg hnot, ih hu.2]
    rfl

theorem words_withTags_last (tags : Text) {u : Text} (hu : '%' ∉ u) :
    words (withTags tags (u ++ ' ' :: tagsMark)) = words u ++ words tags := by
  have hspaced : '%' ∉ u ++ [' '] := by
    rw [List.mem_append, not_or]
    exact ⟨hu, by decide⟩
  have hreplaced := withTags_mark tags hspaced []
  rw [List.append_nil, List.append_nil, List.append_assoc, List.append_assoc,
    List.singleton_append, List.singleton_append] at hreplaced
  rw [hreplaced, words, wordsFrom_blank]
  rfl

theorem words_withTags_first (tags s : Text) :
    words (withTags tags (tagsMark ++ ' ' :: s)) = words tags ++ words s := by
  have hreplaced := withTags_mark tags (u := []) List.not_mem_nil (' ' :: s)
  rw [List.nil_append, List.nil_append] at hreplaced
  rw [hreplaced, words, wordsFrom_blank]
  rfl

end AggregatedLogging.Fluentd
