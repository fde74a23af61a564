import AggregatedLogging.Ruby.Json

/-! The method `split` of Ruby: a text taken apart at white space, or at a
separator. -/
namespace AggregatedLogging.Ruby

/-- White space in front, behind and in runs counts nothing. -/
def words (s : Text) : List Text := (s.splitOnP isSpace).filter fun w => w ≠ []

/-- Empty parts at the end are dropped. -/
def splitAt (sep : Char) (s : Text) : List Text := (s.splitOn sep).rdropWhile List.isEmpty

theorem words_append {c : Char} (hc : isSpace c = true) (s t : Text) :
    words (s ++ c :: t) = words s ++ words t := by
  rw [words, List.splitOnP_append_cons s t hc, List.filter_append]
  rfl

theorem words_cons {c : Char} (hc : isSpace c = true) (s : Text) : words (c :: s) = words s :=
  words_append hc [] s

theorem words_blanks {b : Text} (hb : b.all isSpace = true) (s : Text) :
    words (b ++ s) = words s := by
  induction b with
  | nil => rfl
  | cons c b ih =>
    rw [List.all_cons, Bool.and_eq_true] at hb
    rw [List.cons_append, words_cons hb.1, ih hb.2]

structure IsWord (w : Text) : Prop where
  ne_nil : w ≠ []
  solid : ∀ c ∈ w, isSpace c = false

theorem words_word {w : Text} (hw : IsWord w) : words w = [w] := by
  rw [words, List.splitOnP_eq_singleton hw.solid, List.filter_singleton]
  simp [hw.ne_nil]

theorem words_word_append {w : Text} (hw : IsWord w) {c : Char} (hc : isSpace c = true) (s : Text) :
    words (w ++ c :: s) = w :: words s := by
  rw [words_append hc, words_word hw]
  rfl

/-- Words, each with one blank or more in front of it. -/
def spread (ws : List (Nat × Text)) : Text :=
  ws.flatMap fun p => List.replicate (p.1 + 1) ' ' ++ p.2

theorem words_spread_append {ws : List (Nat × Text)} (h : ∀ p ∈ ws, IsWord p.2) {s : Text}
    (hs : ∀ c ∈ s.head?, isSpace c = true) :
    words (spread ws ++ s) = ws.map Prod.snd ++ words s := by
  induction ws with
  | nil => rfl
  | cons p ws ih =>
    have hrest := ih fun q hq => h q (List.mem_cons_of_mem p hq)
    have hblanks : (List.replicate (p.1 + 1) ' ').all isSpace = true := by
      rw [List.all_replicate]
      simp [isSpace]
    rw [spread, List.flatMap_cons, List.append_assoc, List.append_assoc, words_blanks hblanks,
      ← spread, List.map_cons, List.cons_append, ← hrest]
    have hword := h p List.mem_cons_self
    cases htail : spread ws ++ s with
    | nil => rw [List.append_nil, words_word hword]; rfl
    | cons c t =>
      have hc : isSpace c = true := by
        cases ws with
        | nil => exact hs c (by rw [← List.nil_append s, ← show spread [] = [] from rfl, htail]; rfl)
        | cons q ws =>
          rw [spread, List.flatMap_cons, List.replicate_succ] at htail
          rw [← (List.cons.inj htail).1]
          rfl
      rw [words_word_append hword hc, words_cons hc]

theorem words_spread {ws : List (Nat × Text)} (h : ∀ p ∈ ws, IsWord p.2) :
    words (spread ws) = ws.map Prod.snd := by
  have := words_spread_append h (s := []) (by simp)
  rw [List.append_nil] at this
  rw [this]
  exact List.append_nil _

theorem words_drop_spread {ws : List (Nat × Text)} (h : ∀ p ∈ ws, IsWord p.2) :
    words ((spread ws).drop 1) = ws.map Prod.snd := by
  cases ws with
  | nil => rfl
  | cons p ws =>
    have hblank : spread (p :: ws) = ' ' :: (spread (p :: ws)).drop 1 := by
      rw [spread, List.flatMap_cons, List.replicate_succ]
      rfl
    rw [← words_spread h, hblank, words_cons rfl]
    rfl

theorem infix_append_cons {c : Char} {w : Text} (hw : c ∉ w) (s t : Text) :
    w <:+: s ++ c :: t ↔ w <:+: s ∨ w <:+: t := by
  induction s with
  | nil =>
    have hprefix : w <+: c :: t ↔ w <+: [] := Text.begins_field (n := []) hw
    rw [List.nil_append, List.infix_cons_iff, hprefix, List.prefix_nil, List.infix_nil]
  | cons d s ih =>
    have hprefix : w <+: d :: (s ++ c :: t) ↔ w <+: d :: s := Text.begins_field (n := d :: s) hw
    rw [List.cons_append, List.infix_cons_iff, List.infix_cons_iff, hprefix, ih, or_assoc]

theorem infix_words {w : Text} (hne : w ≠ []) (hw : ∀ c ∈ w, isSpace c = false) (s : Text) :
    w <:+: s ↔ ∃ t ∈ words s, w <:+: t := by
  by_cases hs : ∃ c ∈ s, isSpace c = true
  · obtain ⟨c, hmem, hc⟩ := hs
    obtain ⟨a, b, rfl⟩ := List.append_of_mem hmem
    have hcw : c ∉ w := fun hmem => by simp [hw c hmem] at hc
    rw [infix_append_cons hcw, infix_words hne hw a, infix_words hne hw b, words_append hc]
    simp only [List.mem_append, or_and_right, exists_or]
  · have hsolid : ∀ c ∈ s, isSpace c = false := by
      intro c hc
      by_contra hspace
      exact hs ⟨c, hc, by simpa using hspace⟩
    by_cases hnil : s = []
    · rw [hnil, List.infix_nil]
      simp [hne, words]
    · rw [words_word ⟨hnil, hsolid⟩]
      simp
termination_by s.length
decreasing_by
  all_goals
    simp only [‹s = _›, List.length_append, List.length_cons]
    omega

theorem splitAt_append {sep : Char} {k : Text} (hk : sep ∉ k) (v : Text) :
    splitAt sep (k ++ sep :: v) = (k :: v.splitOn sep).rdropWhile List.isEmpty := by
  rw [splitAt, List.splitOn_append_cons_self_of_not_mem hk]

theorem rdropWhile_cons {p : α → Bool} {l : List α} (h : l.rdropWhile p ≠ []) (a : α) :
    (a :: l).rdropWhile p = a :: l.rdropWhile p := by
  have hrev : (l.reverse.dropWhile p).isEmpty = false := by
    rw [List.isEmpty_eq_false_iff]
    intro hnil
    rw [List.rdropWhile, hnil] at h
    exact h rfl
  rw [List.rdropWhile, List.reverse_cons, List.dropWhile_append, hrev]
  simp [List.rdropWhile]

theorem splitOn_eq_cons (sep : Char) (v : Text) :
    ∃ rest, v.splitOn sep = v.takeWhile (· ≠ sep) :: rest := by
  induction v with
  | nil => exact ⟨[], rfl⟩
  | cons c v ih =>
    obtain ⟨rest, hrest⟩ := ih
    rw [List.splitOn_cons_eq_if_modifyHead, hrest]
    by_cases hc : c = sep
    · exact ⟨v.takeWhile (· ≠ sep) :: rest, by simp [hc]⟩
    · exact ⟨rest, by simp [hc]⟩

theorem splitOn_all_empty {sep : Char} {v : Text} :
    (∀ t ∈ v.splitOn sep, t.isEmpty = true) ↔ ∀ c ∈ v, c = sep := by
  induction v with
  | nil => simp
  | cons c v ih =>
    rw [List.splitOn_cons_eq_if_modifyHead]
    by_cases hc : c = sep
    · simpa [hc] using ih
    · obtain ⟨rest, hrest⟩ := splitOn_eq_cons sep v
      simp [hc, hrest]

theorem splitAt_pair {sep : Char} {k v : Text} (hk : sep ∉ k) (hv : ¬ ∀ c ∈ v, c = sep) :
    ∃ rest, splitAt sep (k ++ sep :: v) = k :: v.takeWhile (· ≠ sep) :: rest := by
  have hne : (v.splitOn sep).rdropWhile List.isEmpty ≠ [] := by
    rwa [ne_eq, List.rdropWhile_eq_nil_iff, splitOn_all_empty]
  obtain ⟨rest, hrest⟩ := splitOn_eq_cons sep v
  rw [splitAt_append hk, rdropWhile_cons hne]
  have hkeep := List.rdropWhile_prefix List.isEmpty (v.splitOn sep)
  cases hkept : (v.splitOn sep).rdropWhile List.isEmpty with
  | nil => contradiction
  | cons t kept =>
    rw [hkept, hrest, List.cons_prefix_cons] at hkeep
    exact ⟨kept, by rw [hkeep.1]⟩

theorem splitAt_lone {sep : Char} {k v : Text} (hk : sep ∉ k) (hv : ∀ c ∈ v, c = sep) :
    (splitAt sep (k ++ sep :: v)).length ≤ 1 := by
  have hempty : (v.splitOn sep).rdropWhile List.isEmpty = [] := by
    rwa [List.rdropWhile_eq_nil_iff, splitOn_all_empty]
  have hrev : ((v.splitOn sep).reverse.dropWhile List.isEmpty) = [] := by
    rw [← List.reverse_eq_nil_iff]
    exact hempty
  rw [splitAt_append hk, List.rdropWhile, List.reverse_cons, List.dropWhile_append, hrev,
    List.length_reverse]
  exact List.length_dropWhile_le _ _

end AggregatedLogging.Ruby
