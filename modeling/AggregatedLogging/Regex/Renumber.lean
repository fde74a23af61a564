import AggregatedLogging.Regex.Matching

/-! A pattern that is read behind others has its groups numbered from a later
number on.  Its matches are the same, with the captures moved along. -/
namespace AggregatedLogging.Regex

def Node.shift (k : Nat) : Node → Node
  | .seq a b => .seq (a.shift k) (b.shift k)
  | .alt a b => .alt (a.shift k) (b.shift k)
  | .capture i a => .capture (i + k) (a.shift k)
  | .ref i => .ref (i + k)
  | .rep lo hi greedy a => .rep lo hi greedy (a.shift k)
  | .ahead n a => .ahead n (a.shift k)
  | .behind n a => .behind n (a.shift k)
  | .cond i a b => .cond (i + k) (a.shift k) (b.shift k)
  | a => a

def shiftCaptures (k : Nat) (c : Captures) : Captures := fun j => if j < k then none else c (j - k)

def State.shift (k : Nat) (s : State) : State := ⟨s.cursor, shiftCaptures k s.captures⟩

@[simp] theorem State.shift_cursor (k : Nat) (s : State) : (s.shift k).cursor = s.cursor := rfl

@[simp] theorem State.shift_remaining (k : Nat) (s : State) :
    (s.shift k).remaining = s.remaining := rfl

@[simp] theorem shiftCaptures_add (k i : Nat) (c : Captures) : shiftCaptures k c (i + k) = c i := by
  unfold shiftCaptures
  rw [if_neg (by omega), Nat.add_sub_cancel]

@[simp] theorem shiftCaptures_empty (k : Nat) :
    shiftCaptures k (fun _ => none) = fun _ => none := by
  funext j
  simp [shiftCaptures]

theorem State.eat_shift (p : Char → Bool) (k : Nat) (s : State) :
    (s.shift k).eat p = (s.eat p).map (State.shift k) := by
  unfold State.eat
  simp only [State.shift_cursor]
  cases s.cursor.rest with
  | nil => rfl
  | cons c rest =>
    simp only
    split <;> rfl

theorem State.eatText_shift (fl : Flags) (t : Text) (k : Nat) (s : State) :
    (s.shift k).eatText fl t = (s.eatText fl t).map (State.shift k) := by
  unfold State.eatText
  simp only [State.shift_cursor, State.shift_remaining, apply_ite (List.map (State.shift k))]
  rfl

theorem State.capture_shift (k i : Nat) (entry s : State) :
    State.capture (i + k) (entry.shift k) (s.shift k) = (State.capture i entry s).shift k := by
  unfold State.capture State.shift State.consumed
  congr 1
  funext j
  unfold shiftCaptures
  by_cases h : j < k
  · simp only [h, ↓reduceIte]
    rw [if_neg (by omega)]
  · simp only [h, ↓reduceIte]
    by_cases hj : j = i + k
    · rw [if_pos hj, if_pos (by omega)]
      rfl
    · rw [if_neg hj, if_neg (by omega)]

theorem Atom.run_shift (fl : Flags) (k : Nat) (a : Atom) (s : State) :
    a.run fl (s.shift k) = (a.run fl s).map (State.shift k) := by
  cases a with
  | lit c => exact State.eat_shift _ k s
  | dot => exact State.eat_shift _ k s
  | cls n items => exact State.eat_shift _ k s
  | «at» a =>
    simp only [Atom.run, State.shift_cursor, apply_ite (List.map (State.shift k))]
    rfl

theorem iterate_shift {f g : State → List State} {k : Nat}
    (h : ∀ s, g (s.shift k) = (f s).map (State.shift k)) (greedy : Bool) (fuel lo : Nat)
    (hi : Option Nat) (s : State) :
    iterate g greedy fuel lo hi (s.shift k) = (iterate f greedy fuel lo hi s).map (State.shift k) := by
  induction fuel generalizing lo hi s with
  | zero => cases lo <;> rfl
  | succ fuel ih =>
    cases lo with
    | succ lo =>
      simp only [iterate, h, List.flatMap_map, List.map_flatMap, ih]
    | zero =>
      simp only [iterate]
      split
      · rfl
      · have hmore : ((g (s.shift k)).flatMap fun t =>
            if t.remaining < (s.shift k).remaining then
              iterate g greedy fuel 0 (hi.map (· - 1)) t else [t]) =
            ((f s).flatMap fun t =>
              if t.remaining < s.remaining then
                iterate f greedy fuel 0 (hi.map (· - 1)) t else [t]).map (State.shift k) := by
          simp only [h, List.flatMap_map, List.map_flatMap, State.shift_remaining]
          congr 1
          funext t
          by_cases ht : t.remaining < s.remaining
          · simp only [ht, ↓reduceIte, ih]
          · simp only [ht, ↓reduceIte, List.map_cons, List.map_nil]
        rw [hmore]
        split <;> simp

theorem lookOutcome_shift (k : Nat) (negated : Bool) (outcomes : List State) (s : State) :
    lookOutcome negated (outcomes.map (State.shift k)) (s.shift k) =
      (lookOutcome negated outcomes s).map (State.shift k) := by
  cases negated <;> cases outcomes <;> rfl

@[simp] theorem Node.shift_width (k : Nat) (a : Node) : (a.shift k).width = a.width := by
  induction a with
  | seq a b iha ihb => simp only [Node.shift, Node.width, iha, ihb]
  | alt a b iha ihb => simp only [Node.shift, Node.width, iha, ihb]
  | capture i a ih => simp only [Node.shift, Node.width, ih]
  | rep lo hi greedy a ih => simp only [Node.shift, Node.width, ih]
  | _ => rfl

/-- Renumbering changes nothing but the numbers under which texts are captured. -/
theorem Node.run_shift (fl : Flags) (k : Nat) (a : Node) (s : State) :
    (a.shift k).run fl (s.shift k) = (a.run fl s).map (State.shift k) := by
  induction a generalizing s with
  | empty => rfl
  | atom a => exact Atom.run_shift fl k a s
  | seq a b iha ihb =>
    simp only [Node.shift, Node.run, iha, List.flatMap_map, List.map_flatMap, ihb]
  | alt a b iha ihb => simp only [Node.shift, Node.run, iha, ihb, List.map_append]
  | capture i a ih =>
    simp only [Node.shift, Node.run, ih, List.map_map]
    congr 1
    funext t
    exact State.capture_shift k i s t
  | ref i =>
    simp only [Node.shift, Node.run]
    rw [show (s.shift k).captures (i + k) = s.captures i from shiftCaptures_add k i s.captures]
    cases s.captures i with
    | none => rfl
    | some t => exact State.eatText_shift fl t k s
  | rep lo hi greedy a ih =>
    simp only [Node.shift, Node.run]
    exact iterate_shift ih greedy _ lo hi s
  | ahead n a ih =>
    simp only [Node.shift, Node.run, ih]
    exact lookOutcome_shift k n _ s
  | behind n a ih =>
    simp only [Node.shift, Node.run, Node.shift_width, State.shift_cursor]
    split
    · have := ih ⟨s.cursor.back a.width.1, s.captures⟩
      simp only [State.shift] at this ⊢
      rw [this]
      exact lookOutcome_shift k n _ s
    · exact lookOutcome_shift k n [] s
  | cond i a b iha ihb =>
    simp only [Node.shift, Node.run]
    rw [show (s.shift k).captures (i + k) = s.captures i from shiftCaptures_add k i s.captures]
    split
    · exact iha s
    · exact ihb s

theorem Node.sound_shift (k : Nat) {groups : Nat} {a : Node} (h : a.sound groups = true) :
    (a.shift k).sound (groups + k) = true := by
  induction a with
  | seq a b iha ihb | alt a b iha ihb =>
    simp only [Node.sound, Bool.and_eq_true] at h
    simp only [Node.shift, Node.sound, iha h.1, ihb h.2, Bool.and_self]
  | capture i a ih | rep lo hi greedy a ih | ahead n a ih => exact ih h
  | behind n a ih =>
    simp only [Node.sound, Bool.and_eq_true] at h
    simp only [Node.shift, Node.sound, Node.shift_width, h.1, ih h.2, Bool.and_self]
  | cond i a b iha ihb =>
    simp only [Node.sound, Bool.and_eq_true, decide_eq_true_eq] at h
    simp only [Node.shift, Node.sound, iha h.1.2, ihb h.2, Bool.and_true, decide_eq_true_eq]
    omega
  | _ => rfl

theorem Node.sound_mono {m n : Nat} (hmn : m ≤ n) {a : Node} (h : a.sound m = true) :
    a.sound n = true := by
  induction a with
  | seq a b iha ihb | alt a b iha ihb =>
    simp only [Node.sound, Bool.and_eq_true] at h ⊢
    exact ⟨iha h.1, ihb h.2⟩
  | capture i a ih | rep lo hi greedy a ih | ahead n a ih => exact ih h
  | behind n a ih =>
    simp only [Node.sound, Bool.and_eq_true] at h ⊢
    exact ⟨h.1, ih h.2⟩
  | cond i a b iha ihb =>
    simp only [Node.sound, Bool.and_eq_true, decide_eq_true_eq] at h ⊢
    exact ⟨⟨Nat.le_trans h.1.1 hmn, iha h.1.2⟩, ihb h.2⟩
  | _ => rfl

end AggregatedLogging.Regex
