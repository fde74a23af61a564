import AggregatedLogging.Text

/-! Matching with wildcards, piece by piece. -/
namespace AggregatedLogging.Glob

def isGlobChar (c : Char) : Bool := "*?[\x7b\\".toList.contains c

/-- The pieces of a pattern: a character, any number of characters other than
`stop`, and two conditions on the position: nothing was read yet, and a part
between dots ends here. -/
inductive Item where
  | lit (c : Char)
  | many (stop : Char)
  | start
  | partEnd
  deriving DecidableEq, Repr

def skips (p : Char → Bool) : Text → List Text
  | [] => [[]]
  | c :: s => (c :: s) :: if p c then skips p s else []

/-- The pieces match a text up to an end that satisfies `ends`; `begun` tells
whether characters were read before. -/
def accepts (ends : Text → Bool) : List Item → (begun : Bool) → Text → Bool
  | [], _, s => ends s
  | .lit _ :: _, _, [] => false
  | .lit c :: is, _, d :: s => d = c && accepts ends is true s
  | .many stop :: is, begun, s =>
    (skips (· ≠ stop) s).any fun r => accepts ends is (begun || decide (r ≠ s)) r
  | .start :: is, begun, s => !begun && accepts ends is begun s
  | .partEnd :: is, begun, s => s.head?.all (· = '.') && accepts ends is begun s

def exactly (is : List Item) (s : Text) : Bool := accepts (· = []) is false s

def Item.free : Item → Bool
  | .lit _ | .many _ => true
  | .start | .partEnd => false

theorem mem_skips {p : Char → Bool} {s r : Text} :
    r ∈ skips p s ↔ ∃ u, s = u ++ r ∧ u.all p = true := by
  induction s with
  | nil =>
    rw [skips, List.mem_singleton]
    constructor
    · intro h
      exact ⟨[], by rw [h, List.nil_append], rfl⟩
    · rintro ⟨u, hu, -⟩
      exact (List.append_eq_nil_iff.mp hu.symm).2
  | cons c s ih =>
    rw [skips, List.mem_cons]
    constructor
    · rintro (rfl | hr)
      · exact ⟨[], rfl, rfl⟩
      · split at hr
        · rename_i hc
          obtain ⟨u, rfl, hall⟩ := ih.mp hr
          exact ⟨c :: u, rfl, by rw [List.all_cons, hc, hall, Bool.and_self]⟩
        · contradiction
    · rintro ⟨u, hu, hall⟩
      cases u with
      | nil => exact .inl hu.symm
      | cons d u =>
        obtain ⟨rfl, rfl⟩ := List.cons.inj hu
        rw [List.all_cons, Bool.and_eq_true] at hall
        rw [if_pos hall.1]
        exact .inr (ih.mpr ⟨u, rfl, hall.2⟩)

theorem accepts_lit {ends : Text → Bool} {c : Char} {is : List Item} {begun : Bool} {s : Text} :
    accepts ends (.lit c :: is) begun s = true ↔
      ∃ r, s = c :: r ∧ accepts ends is true r = true := by
  cases s with
  | nil => simp [accepts]
  | cons d s => simp [accepts, and_assoc]

theorem accepts_begun {ends : Text → Bool} {is : List Item} (h : is.all Item.free = true)
    (begun later : Bool) (s : Text) : accepts ends is begun s = accepts ends is later s := by
  induction is generalizing begun later s with
  | nil => rfl
  | cons i is ih =>
    rw [List.all_cons, Bool.and_eq_true] at h
    cases i with
    | lit c => cases s <;> rfl
    | many stop =>
      simp only [accepts]
      congr 1
      funext r
      exact ih h.2 _ _ r
    | start => cases h.1
    | partEnd => cases h.1

theorem accepts_many {ends : Text → Bool} {stop : Char} {is : List Item}
    (h : is.all Item.free = true) {begun b : Bool} {s : Text} :
    accepts ends (.many stop :: is) begun s = true ↔
      ∃ u r, s = u ++ r ∧ stop ∉ u ∧ accepts ends is b r = true := by
  have hall (u : Text) : (u.all fun c => decide (c ≠ stop)) = true ↔ stop ∉ u := by
    simp only [List.all_eq_true, decide_eq_true_eq]
    exact ⟨fun h hmem => h stop hmem rfl, fun h c hc heq => h (heq ▸ hc)⟩
  simp only [accepts, List.any_eq_true, mem_skips, hall]
  constructor
  · rintro ⟨r, ⟨u, hs, hu⟩, hr⟩
    exact ⟨u, r, hs, hu, by rwa [accepts_begun h b _ r]⟩
  · rintro ⟨u, r, hs, hu, hr⟩
    exact ⟨r, ⟨u, hs, hu⟩, by rwa [accepts_begun h _ b r]⟩

/-- Pieces one after the other match texts one after the other. -/
theorem accepts_append {ends : Text → Bool} {is js : List Item} (his : is.all Item.free = true)
    (hjs : js.all Item.free = true) {begun b : Bool} {s : Text} :
    accepts ends (is ++ js) begun s = true ↔
      ∃ u r, s = u ++ r ∧ exactly is u = true ∧ accepts ends js b r = true := by
  unfold exactly
  induction is generalizing begun s with
  | nil =>
    rw [List.nil_append, accepts_begun hjs begun b]
    simp [accepts]
  | cons i is ih =>
    rw [List.all_cons, Bool.and_eq_true] at his
    have hall : (is ++ js).all Item.free = true := by
      rw [List.all_append, his.2, hjs, Bool.and_self]
    cases i with
    | lit c =>
      rw [List.cons_append, accepts_lit]
      constructor
      · rintro ⟨r, rfl, hr⟩
        obtain ⟨u, r, rfl, hu, hr⟩ := (ih his.2).mp hr
        refine ⟨c :: u, r, rfl, accepts_lit.mpr ⟨u, rfl, ?_⟩, hr⟩
        rwa [accepts_begun his.2 true false]
      · rintro ⟨u, r, rfl, hu, hr⟩
        obtain ⟨v, rfl, hv⟩ := accepts_lit.mp hu
        rw [accepts_begun his.2 true false] at hv
        exact ⟨v ++ r, rfl, (ih his.2).mpr ⟨v, r, rfl, hv, hr⟩⟩
    | many stop =>
      rw [List.cons_append, accepts_many (b := false) hall]
      constructor
      · rintro ⟨u, r, rfl, hu, hr⟩
        obtain ⟨v, r, rfl, hv, hr⟩ := (ih his.2).mp hr
        exact ⟨u ++ v, r, (List.append_assoc u v r).symm,
          (accepts_many his.2).mpr ⟨u, v, rfl, hu, hv⟩, hr⟩
      · rintro ⟨u, r, rfl, hu, hr⟩
        obtain ⟨v, w, rfl, hv, hw⟩ := (accepts_many (b := false) his.2).mp hu
        exact ⟨v, w ++ r, List.append_assoc v w r, hv, (ih his.2).mpr ⟨w, r, rfl, hw, hr⟩⟩
    | start => cases his.1
    | partEnd => cases his.1

def lits (s : Text) : List Item := s.map .lit

theorem lits_free (s : Text) : (lits s).all Item.free = true := by
  simp [lits, Item.free]

theorem accepts_lits_append {ends : Text → Bool} {w : Text} {js : List Item} {begun : Bool}
    {s : Text} :
    accepts ends (lits w ++ js) begun s = true ↔
      ∃ r, s = w ++ r ∧ accepts ends js (begun || !w.isEmpty) r = true := by
  induction w generalizing begun s with
  | nil => simp [lits]
  | cons c w ih =>
    change accepts ends (.lit c :: (lits w ++ js)) begun s = true ↔ _
    rw [accepts_lit]
    simp only [ih, Bool.true_or, List.isEmpty_cons, Bool.not_false, Bool.or_true]
    constructor
    · rintro ⟨-, rfl, r, rfl, hr⟩
      exact ⟨r, rfl, hr⟩
    · rintro ⟨r, rfl, hr⟩
      exact ⟨w ++ r, rfl, r, rfl, hr⟩

theorem accepts_lits {ends : Text → Bool} {w : Text} {begun : Bool} {s : Text} :
    accepts ends (lits w) begun s = true ↔ ∃ r, s = w ++ r ∧ ends r = true := by
  rw [← List.append_nil (lits w), accepts_lits_append]
  rfl

theorem exactly_lits {w s : Text} : exactly (lits w) s = true ↔ s = w := by
  simp [exactly, accepts_lits]

theorem exactly_many {stop : Char} {s : Text} : exactly [.many stop] s = true ↔ stop ∉ s := by
  rw [exactly, accepts_many (b := false) rfl]
  constructor
  · rintro ⟨u, r, rfl, hu, hr⟩
    rw [show r = [] by simpa [accepts] using hr, List.append_nil]
    exact hu
  · intro h
    exact ⟨s, [], (List.append_nil s).symm, h, rfl⟩

theorem exactly_append {is js : List Item} (his : is.all Item.free = true)
    (hjs : js.all Item.free = true) {s : Text} :
    exactly (is ++ js) s = true ↔ ∃ u r, s = u ++ r ∧ exactly is u = true ∧ exactly js r = true :=
  accepts_append his hjs

/-- A pattern between two separators sees a text between two separators. -/
theorem accepts_enclosed {ends : Text → Bool} (hends : ends [] = true) {x : Char} {is : List Item}
    (his : is.all Item.free = true) {s : Text} (hline : '\n' ∉ s) :
    accepts ends (.many '\n' :: .lit x :: (is ++ [Item.lit x, .many '\n'])) false s = true ↔
      ∃ u v w, s = u ++ x :: (v ++ x :: w) ∧ exactly is v = true := by
  have hfree : (Item.lit x :: (is ++ [Item.lit x, .many '\n'])).all Item.free = true := by
    rw [List.all_cons, List.all_append, his]
    rfl
  rw [accepts_many (b := false) hfree]
  constructor
  · rintro ⟨u, r, rfl, -, hr⟩
    obtain ⟨q, rfl, hq⟩ := accepts_lit.mp hr
    obtain ⟨v, w, rfl, hv, hw⟩ := (accepts_append (b := false) his rfl).mp hq
    obtain ⟨w, rfl, -⟩ := accepts_lit.mp hw
    exact ⟨u, v, w, rfl, hv⟩
  · rintro ⟨u, v, w, rfl, hv⟩
    simp only [List.mem_append, List.mem_cons, not_or] at hline
    refine ⟨u, x :: (v ++ x :: w), rfl, hline.1, accepts_lit.mpr ⟨v ++ x :: w, rfl, ?_⟩⟩
    refine (accepts_append (b := false) his rfl).mpr ⟨v, x :: w, rfl, hv, ?_⟩
    refine accepts_lit.mpr ⟨w, rfl, (accepts_many (b := false) rfl).mpr ?_⟩
    exact ⟨w, [], (List.append_nil w).symm, hline.2.2.2.2, hends⟩

theorem not_enclosed_one {x : Char} {P : Text → Prop} {a b : Text} (ha : x ∉ a) (hb : x ∉ b) :
    ¬ ∃ u v w, a ++ x :: b = u ++ x :: (v ++ x :: w) ∧ P v := by
  rintro ⟨u, v, w, htext, -⟩
  rcases Text.split_first ha htext with ⟨-, hrest⟩ | ⟨t, -, hrest⟩
  · rw [← hrest] at hb
    exact hb (List.mem_append_right v List.mem_cons_self)
  · rw [hrest] at hb
    exact hb (List.mem_append_right t List.mem_cons_self)

/-- Two separators that occur nowhere else pin the pattern to the text between
them. -/
theorem enclosed_two {x : Char} {P : Text → Prop} {a n b : Text} (ha : x ∉ a) (hn : x ∉ n)
    (hb : x ∉ b) :
    (∃ u v w, a ++ x :: (n ++ x :: b) = u ++ x :: (v ++ x :: w) ∧ P v) ↔ P n := by
  constructor
  · rintro ⟨u, v, w, htext, hv⟩
    rcases Text.split_first ha htext with ⟨-, hrest⟩ | ⟨t, -, hrest⟩
    · rcases Text.split_first hn hrest.symm with ⟨rfl, -⟩ | ⟨t, -, hb'⟩
      · exact hv
      · rw [hb'] at hb
        exact absurd (List.mem_append_right t List.mem_cons_self) hb
    · rcases Text.split_first hn hrest with ⟨-, hb'⟩ | ⟨t', -, hb'⟩
      · rw [← hb'] at hb
        exact absurd (List.mem_append_right v List.mem_cons_self) hb
      · rw [hb'] at hb
        simp at hb
  · intro h
    exact ⟨a, n, b, rfl, h⟩

/-- Between three separators there are two texts, and the one with the middle
separator. -/
theorem enclosed_three {x : Char} {P : Text → Prop} {a n m b : Text} (ha : x ∉ a) (hn : x ∉ n)
    (hm : x ∉ m) (hb : x ∉ b) :
    (∃ u v w, a ++ x :: (n ++ x :: (m ++ x :: b)) = u ++ x :: (v ++ x :: w) ∧ P v) ↔
      P n ∨ P m ∨ P (n ++ x :: m) := by
  constructor
  · rintro ⟨u, v, w, htext, hv⟩
    rcases Text.split_first ha htext with ⟨-, hrest⟩ | ⟨t, -, hrest⟩
    · rcases Text.split_first hn hrest.symm with ⟨rfl, -⟩ | ⟨t, rfl, hback⟩
      · exact .inl hv
      · rcases Text.split_first hm hback with ⟨rfl, -⟩ | ⟨t', -, hb'⟩
        · exact .inr (.inr hv)
        · rw [hb'] at hb
          exact absurd (List.mem_append_right t' List.mem_cons_self) hb
    · exact .inr (.inl ((enclosed_two hn hm hb).mp ⟨t, v, w, hrest, hv⟩))
  · rintro (h | h | h)
    · exact ⟨a, n, m ++ x :: b, rfl, h⟩
    · exact ⟨a ++ x :: n, m, b, by rw [List.append_assoc]; rfl, h⟩
    · exact ⟨a, n ++ x :: m, b, by rw [List.append_assoc]; rfl, h⟩

end AggregatedLogging.Glob
