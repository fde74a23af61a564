import AggregatedLogging.Regex.Matching

/-! What a match consumes: when all atoms of a tree eat characters of one kind,
so does the whole tree, and so do the texts its groups capture. -/
namespace AggregatedLogging.Regex

/-- The text between two states, read forwards, has only characters in `p`. -/
def Reads (p : Char → Bool) (s t : State) : Prop :=
  ∃ u : Text, s.cursor.rest = u ++ t.cursor.rest ∧ u.all p = true

namespace Reads

variable {p : Char → Bool}

theorem of_rest_eq {s t : State} (h : t.cursor.rest = s.cursor.rest) : Reads p s t :=
  ⟨[], by rw [h, List.nil_append], rfl⟩

theorem refl (s : State) : Reads p s s := of_rest_eq rfl

theorem trans {s t r : State} (h : Reads p s t) (h' : Reads p t r) : Reads p s r := by
  obtain ⟨u, hu, hp⟩ := h
  obtain ⟨v, hv, hp'⟩ := h'
  exact ⟨u ++ v, by rw [hu, hv, List.append_assoc], by rw [List.all_append, hp, hp', Bool.and_self]⟩

end Reads

/-- Every atom of the tree eats characters in `p` only; texts captured before
are not read again. -/
def Node.over (p : Char → Bool) : Node → Prop
  | .empty => True
  | .atom (.lit a) => p a = true
  | .atom .dot => ∀ c, c ≠ '\n' → p c = true
  | .atom (.cls negated items) => ∀ c, classHolds {} negated items c = true → p c = true
  | .atom (.at _) => True
  | .seq a b | .alt a b | .cond _ a b => a.over p ∧ b.over p
  | .capture _ a | .rep _ _ _ a => a.over p
  | .ref _ => False
  | .ahead _ _ | .behind _ _ => True

theorem State.eat_reads {p q : Char → Bool} (h : ∀ c, q c = true → p c = true) {s t : State}
    (ht : t ∈ s.eat q) : Reads p s t := by
  unfold State.eat at ht
  cases hrest : s.cursor.rest with
  | nil => simp [hrest] at ht
  | cons c rest =>
    simp only [hrest] at ht
    split at ht
    · rename_i hc
      obtain rfl := List.mem_singleton.mp ht
      exact ⟨[c], hrest, by simp [h c hc]⟩
    · contradiction

theorem iterate_induction {R : State → State → Prop} (hrefl : ∀ s, R s s)
    (htrans : ∀ s t r, R s t → R t r → R s r) {body : State → List State}
    (h : ∀ s t, t ∈ body s → R s t) (greedy : Bool) (fuel lo : Nat) (hi : Option Nat)
    (s t : State) (ht : t ∈ iterate body greedy fuel lo hi s) : R s t := by
  induction fuel generalizing lo hi s with
  | zero =>
    cases lo with
    | zero =>
      obtain rfl := List.mem_singleton.mp ht
      exact hrefl t
    | succ lo => contradiction
  | succ fuel ih =>
    cases lo with
    | succ lo =>
      obtain ⟨r, hr, ht⟩ := List.mem_flatMap.mp ht
      exact htrans s r t (h s r hr) (ih lo _ r ht)
    | zero =>
      simp only [iterate] at ht
      split at ht
      · obtain rfl := List.mem_singleton.mp ht
        exact hrefl t
      · have hmore (hm : t ∈ (body s).flatMap fun r =>
            if r.remaining < s.remaining then
              iterate body greedy fuel 0 (hi.map (· - 1)) r else [r]) : R s t := by
          obtain ⟨r, hr, hm⟩ := List.mem_flatMap.mp hm
          split at hm
          · exact htrans s r t (h s r hr) (ih 0 _ r hm)
          · obtain rfl := List.mem_singleton.mp hm
            exact h s t hr
        split at ht
        · rcases List.mem_append.mp ht with ht | ht
          · exact hmore ht
          · obtain rfl := List.mem_singleton.mp ht
            exact hrefl t
        · rcases List.mem_cons.mp ht with rfl | ht
          · exact hrefl t
          · exact hmore ht

/-- A look-around ends where it starts, with its own captures or those of its
first success. -/
theorem mem_lookOutcome {negated : Bool} {outcomes : List State} {s t : State}
    (ht : t ∈ lookOutcome negated outcomes s) :
    t = s ∨ ∃ r ∈ outcomes, t = ⟨s.cursor, r.captures⟩ := by
  unfold lookOutcome at ht
  split at ht
  · contradiction
  · exact .inr ⟨_, List.mem_cons_self, List.mem_singleton.mp ht⟩
  · exact .inl (List.mem_singleton.mp ht)
  · contradiction

theorem lookOutcome_reads {p : Char → Bool} {negated : Bool} {outcomes : List State} {s t : State}
    (ht : t ∈ lookOutcome negated outcomes s) : Reads p s t := by
  apply Reads.of_rest_eq
  rcases mem_lookOutcome ht with rfl | ⟨r, -, rfl⟩
  · rfl
  · rfl

def Flags.literal (fl : Flags) : Prop := fl.ignoreCase = false ∧ fl.dotAll = false

theorem Node.run_reads {fl : Flags} (hfl : fl.literal) {p : Char → Bool} {a : Node} (h : a.over p)
    {s t : State} (ht : t ∈ a.run fl s) : Reads p s t := by
  induction a generalizing s t with
  | empty =>
    obtain rfl := List.mem_singleton.mp ht
    exact Reads.refl t
  | atom a =>
    cases a with
    | lit c =>
      refine State.eat_reads (fun d hd => ?_) ht
      have : d = c := by simpa [sameChar, hfl.1] using hd
      rw [this]
      exact h
    | dot =>
      refine State.eat_reads (fun d hd => h d ?_) ht
      simpa [hfl.2] using hd
    | cls negated items =>
      refine State.eat_reads (fun d hd => h d ?_) ht
      simpa [classHolds, hfl.1] using hd
    | «at» a =>
      simp only [Node.run, Atom.run] at ht
      split at ht
      · obtain rfl := List.mem_singleton.mp ht
        exact Reads.refl t
      · contradiction
  | seq a b iha ihb =>
    obtain ⟨r, hr, ht⟩ := List.mem_flatMap.mp ht
    exact (iha h.1 hr).trans (ihb h.2 ht)
  | alt a b iha ihb =>
    rcases List.mem_append.mp ht with ht | ht
    · exact iha h.1 ht
    · exact ihb h.2 ht
  | capture i a ih =>
    obtain ⟨r, hr, rfl⟩ := List.mem_map.mp ht
    exact (ih h hr).trans (Reads.of_rest_eq rfl)
  | ref i => contradiction
  | rep lo hi greedy a ih =>
    exact iterate_induction Reads.refl (fun s t r => Reads.trans) (fun s t ht => ih h ht) greedy _ lo
      hi s t ht
  | ahead negated a ih => exact lookOutcome_reads ht
  | behind negated a ih =>
    simp only [Node.run] at ht
    split at ht
    · exact lookOutcome_reads ht
    · exact lookOutcome_reads ht
  | cond i a b iha ihb =>
    simp only [Node.run] at ht
    split at ht
    · exact iha h.1 ht
    · exact ihb h.2 ht

def Node.capturesOver (p : Char → Bool) (i : Nat) : Node → Prop
  | .empty | .atom _ | .ref _ => True
  | .seq a b | .alt a b | .cond _ a b => a.capturesOver p i ∧ b.capturesOver p i
  | .capture j a => (j = i → a.over p) ∧ a.capturesOver p i
  | .rep _ _ _ a | .ahead _ a | .behind _ a => a.capturesOver p i

def State.capturedOver (p : Char → Bool) (i : Nat) (s : State) : Prop :=
  ∀ u, s.captures i = some u → u.all p = true

theorem Reads.consumed {p : Char → Bool} {s t : State} (h : Reads p s t) :
    (s.consumed t).all p = true := by
  obtain ⟨u, hu, hp⟩ := h
  have hlen : s.remaining - t.remaining = u.length := by
    rw [State.remaining, State.remaining, hu, List.length_append]
    omega
  rw [State.consumed, hlen, hu, List.take_left]
  exact hp

theorem State.eat_captures {q : Char → Bool} {s t : State} (ht : t ∈ s.eat q) :
    t.captures = s.captures := by
  unfold State.eat at ht
  cases hrest : s.cursor.rest with
  | nil => simp [hrest] at ht
  | cons c rest =>
    simp only [hrest] at ht
    split at ht
    · rw [List.mem_singleton.mp ht]
    · contradiction

theorem Atom.run_captures {fl : Flags} {a : Atom} {s t : State} (ht : t ∈ a.run fl s) :
    t.captures = s.captures := by
  cases a with
  | lit c => exact State.eat_captures ht
  | dot => exact State.eat_captures ht
  | cls negated items => exact State.eat_captures ht
  | «at» a =>
    simp only [Atom.run] at ht
    split at ht
    · rw [List.mem_singleton.mp ht]
    · contradiction

theorem lookOutcome_captured {p : Char → Bool} {i : Nat} {negated : Bool} {outcomes : List State}
    {s t : State} (hs : s.capturedOver p i) (h : ∀ r ∈ outcomes, r.capturedOver p i)
    (ht : t ∈ lookOutcome negated outcomes s) : t.capturedOver p i := by
  rcases mem_lookOutcome ht with rfl | ⟨r, hr, rfl⟩
  · exact hs
  · exact h r hr

theorem Node.run_captured {fl : Flags} (hfl : fl.literal) {p : Char → Bool} {i : Nat} {a : Node}
    (h : a.capturesOver p i) {s t : State} (hs : s.capturedOver p i) (ht : t ∈ a.run fl s) :
    t.capturedOver p i := by
  induction a generalizing s t with
  | empty =>
    rw [List.mem_singleton.mp ht]
    exact hs
  | atom a =>
    rw [State.capturedOver, Atom.run_captures ht]
    exact hs
  | seq a b iha ihb =>
    obtain ⟨r, hr, ht⟩ := List.mem_flatMap.mp ht
    exact ihb h.2 (iha h.1 hs hr) ht
  | alt a b iha ihb =>
    rcases List.mem_append.mp ht with ht | ht
    · exact iha h.1 hs ht
    · exact ihb h.2 hs ht
  | capture j a ih =>
    obtain ⟨r, hr, rfl⟩ := List.mem_map.mp ht
    intro u hu
    simp only [State.capture] at hu
    split at hu
    · rename_i hij
      cases hu
      exact (Node.run_reads hfl (h.1 hij.symm) hr).consumed
    · exact ih h.2 hs hr u hu
  | ref j =>
    simp only [Node.run] at ht
    split at ht
    · contradiction
    · unfold State.eatText at ht
      split at ht
      · rw [List.mem_singleton.mp ht]
        exact hs
      · contradiction
  | rep lo hi greedy a ih =>
    have hstep (s t : State) (ht : t ∈ a.run fl s) : s.capturedOver p i → t.capturedOver p i :=
      fun hs => ih h hs ht
    exact iterate_induction (R := fun s t => s.capturedOver p i → t.capturedOver p i)
      (fun s hs => hs) (fun s t r hst htr hs => htr (hst hs)) hstep greedy _ lo hi s t ht hs
  | ahead negated a ih => exact lookOutcome_captured hs (fun r hr => ih h hs hr) ht
  | behind negated a ih =>
    simp only [Node.run] at ht
    split at ht
    · have hback : State.capturedOver p i ⟨s.cursor.back a.width.1, s.captures⟩ := hs
      exact lookOutcome_captured hs (fun r hr => ih h hback hr) ht
    · exact lookOutcome_captured hs (fun r hr => absurd hr List.not_mem_nil) ht
  | cond j a b iha ihb =>
    simp only [Node.run] at ht
    split at ht
    · exact iha h.1 hs ht
    · exact ihb h.2 hs ht

theorem Pattern.search_captured {r : Pattern} (hfl : r.flags.literal) {p : Char → Bool} {i : Nat}
    (h : r.node.capturesOver p i) {s : Text} {m : Match} (hm : r.search s = some m) (hi : i ≠ 0) :
    ((m.group i).getD []).all p = true := by
  obtain ⟨c, -, hc⟩ := List.exists_of_findSome?_eq_some hm
  rw [Pattern.matchAt, Option.map_eq_some_iff] at hc
  obtain ⟨t, ht, rfl⟩ := hc
  have hmem : t ∈ r.node.run r.flags ⟨c, fun _ => none⟩ := List.mem_of_mem_head? ht
  have hcaptured := Node.run_captured hfl h (fun u hu => by contradiction) hmem
  rw [Match.group, if_neg hi]
  cases hu : t.captures i with
  | none => rfl
  | some u => exact hcaptured u hu

end AggregatedLogging.Regex
