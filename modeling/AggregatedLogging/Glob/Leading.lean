import AggregatedLogging.Glob.Pattern

/-! A pattern that begins with two stars and a plain character asks for that
character, whatever stands behind them. -/
namespace AggregatedLogging.Glob

/-- The alternatives outside of all braces begin with the pieces `l`. -/
def Leads (l : List Item) (alts : List (List Item)) :
    List (List (List Item) × List (List Item)) → Prop
  | [] => ∀ is ∈ alts, l <+: is
  | (before, _) :: stack => Leads l before stack

theorem Leads.extend {l : List Item} {alts later : List (List Item)}
    {stack : List (List (List Item) × List (List Item))} (h : Leads l alts stack)
    (hlater : ∀ js ∈ later, ∃ is ∈ alts, is <+: js) : Leads l later stack := by
  cases stack with
  | nil =>
    intro js hjs
    obtain ⟨is, his, hjs⟩ := hlater js hjs
    exact (h is his).trans hjs
  | cons frame stack => exact h

def Builder.leads (l : List Item) (b : Builder) : Prop := Leads l b.alts b.stack

theorem Builder.leads_add {l : List Item} {b : Builder} (h : b.leads l) (i : Item) :
    (b.add i).leads l := by
  apply Leads.extend h
  intro js hjs
  obtain ⟨is, his, rfl⟩ := List.mem_map.mp hjs
  exact ⟨is, his, List.prefix_append is [i]⟩

theorem Builder.leads_flush {l : List Item} {b : Builder} (h : b.leads l) : b.flush.leads l := by
  unfold Builder.flush
  split
  · exact leads_add h (.lit '.')
  · exact h

theorem Builder.leads_flushPart {l : List Item} {b : Builder} (h : b.leads l) :
    b.flushPart.leads l := by
  unfold Builder.flushPart
  split
  · exact leads_add h .partEnd
  · exact h

theorem Builder.leads_close {l : List Item} {b : Builder} (h : b.leads l) : b.close.leads l := by
  obtain ⟨alts, dot, stack⟩ := b
  cases stack with
  | nil => exact h
  | cons frame stack =>
    refine Leads.extend (show Leads l frame.1 stack from h) ?_
    intro js hjs
    obtain ⟨is, his, hjs⟩ := List.mem_flatMap.mp hjs
    obtain ⟨ks, -, rfl⟩ := List.mem_map.mp hjs
    exact ⟨is, his, List.prefix_append is ks⟩

theorem Builder.leads_char {l : List Item} {b : Builder} (h : b.leads l) (c : Char) :
    (b.char c).leads l := by
  unfold Builder.char
  split
  · exact h
  · exact h
  · exact leads_add h (.many '.')
  · exact h
  · exact leads_close h
  · rename_i before done rest hstack
    have hbefore : Leads l b.alts b.stack := h
    rw [hstack] at hbefore
    exact hbefore
  · exact leads_add h _

theorem Builder.leads_addDotsDot {l : List Item} {b : Builder} (h : b.leads l) :
    b.addDotsDot.leads l := by
  apply Leads.extend h
  intro js hjs
  obtain ⟨is, his, hjs⟩ := List.mem_flatMap.mp hjs
  refine ⟨is, his, ?_⟩
  rcases List.mem_cons.mp hjs with rfl | hjs
  · exact List.prefix_append is _
  · rw [List.mem_singleton.mp hjs]
    exact List.prefix_append is _

theorem Builder.leads_step {l : List Item} {b : Builder} (h : b.leads l) (t : Token) :
    (b.step t).leads l := by
  cases t with
  | char c => exact leads_char (leads_flush h) c
  | escaped c => exact leads_add h (.lit c)
  | dots => exact leads_add (leads_flushPart h) (.many '\n')
  | dotsDot => exact leads_addDotsDot (leads_flushPart h)

theorem Builder.leads_run {l : List Item} (ts : List Token) {b : Builder} (h : b.leads l) :
    (ts.foldl Builder.step b).leads l := by
  induction ts generalizing b with
  | nil => exact h
  | cons t ts ih => exact ih (leads_step h t)

theorem Builder.close_stack (b : Builder) : b.close.stack = b.stack.tail := by
  obtain ⟨alts, dot, stack⟩ := b
  cases stack <;> rfl

theorem Builder.leads_closeAll {l : List Item} {b : Builder} (h : b.leads l) :
    ∀ is ∈ b.closeAll.alts, l <+: is := by
  have hclosed (stack : List (List (List Item) × List (List Item))) (b : Builder)
      (hlength : b.stack.length = stack.length) (h : b.leads l) :
      ∀ is ∈ (stack.foldl (fun b _ => b.close) b).alts, l <+: is := by
    induction stack generalizing b with
    | nil =>
      have hnil : b.stack = [] := List.length_eq_zero_iff.mp hlength
      unfold Builder.leads at h
      rw [hnil] at h
      exact h
    | cons frame stack ih =>
      apply ih
      · rw [b.close_stack, List.length_tail, hlength]
        rfl
      · exact leads_close h
  exact hclosed b.stack b rfl h

theorem parse_leads {c : Char} (hc : ∀ s, tokens ('*' :: '*' :: c :: s) = .dots :: .char c :: tokens s)
    (hchar : ∀ b : Builder, b.char c = b.add (.lit c)) (s : Text) :
    ∀ is ∈ parse ('*' :: '*' :: c :: s), [.many '\n', .lit c] <+: is := by
  apply Builder.leads_closeAll
  rw [hc, List.foldl_cons, List.foldl_cons]
  apply Builder.leads_run
  simp only [Builder.step, hchar]
  intro is his
  rw [List.mem_singleton.mp his]
  exact List.prefix_refl _

theorem mem_of_leads {ends : Text → Bool} {c : Char} {is : List Item} {s : Text}
    (hlead : [.many '\n', .lit c] <+: is) (h : accepts ends is false s = true) : c ∈ s := by
  obtain ⟨rest, rfl⟩ := hlead
  simp only [List.cons_append, List.nil_append, accepts, List.any_eq_true, mem_skips] at h
  obtain ⟨r, ⟨u, rfl, -⟩, hr⟩ := h
  obtain ⟨q, rfl, -⟩ := accepts_lit.mp hr
  simp

theorem not_matchesTag_of_leads {c : Char}
    (hc : ∀ s, tokens ('*' :: '*' :: c :: s) = .dots :: .char c :: tokens s)
    (hchar : ∀ b : Builder, b.char c = b.add (.lit c)) (s : Text) {tag : Text} (htag : c ∉ tag) :
    matchesTag ('*' :: '*' :: c :: s) tag = false := by
  rw [matchesTag, List.any_eq_false]
  intro is his h
  exact htag (mem_of_leads (parse_leads hc hchar s is his) h)

end AggregatedLogging.Glob
