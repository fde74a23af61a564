import AggregatedLogging.Regex.Lazy

/-! Outcomes of a pattern one by one: which texts a tree can take, and what each of its
outcomes took.  Where all outcomes agree, the first of them needs no search order. -/
namespace AggregatedLogging.Regex

/-- Wherever the text stands, one of the outcomes is behind it. -/
def Node.Takes (fl : Flags) (a : Node) (u : Text) : Prop :=
  ∀ past rest c, ∃ c', ⟨⟨u.reverse ++ past, rest⟩, c'⟩ ∈ a.run fl ⟨⟨past, u ++ rest⟩, c⟩

section Takes

variable {fl : Flags} {a b : Node} {u v : Text}

theorem takes_empty : Node.empty.Takes fl [] := fun _ _ c => ⟨c, List.mem_cons_self⟩

theorem takes_char {at' : Atom} {p : Char → Bool} (ha : ∀ s, (Node.atom at').run fl s = s.eat p)
    {x : Char} (hx : p x = true) : (Node.atom at').Takes fl [x] := by
  intro past rest c
  refine ⟨c, ?_⟩
  have heat : State.eat p ⟨⟨past, x :: rest⟩, c⟩ = [⟨⟨x :: past, rest⟩, c⟩] := by
    simp only [State.eat, hx, if_true]
  rw [ha, List.singleton_append, heat]
  exact List.mem_cons_self

theorem cls_run (hfl : fl.ignoreCase = false) {items : List ClassItem} {p : Char → Bool}
    (hp : ∀ c, items.any (·.holds c) = p c) (s : State) :
    (Node.atom (.cls false items)).run fl s = s.eat p := by
  simp only [Node.run, Atom.run]
  congr 1
  funext c
  simp [classHolds, hfl, ← hp]

theorem takes_seq (ha : a.Takes fl u) (hb : b.Takes fl v) : (Node.seq a b).Takes fl (u ++ v) := by
  intro past rest c
  obtain ⟨c', hc'⟩ := ha past (v ++ rest) c
  obtain ⟨d, hd⟩ := hb (u.reverse ++ past) rest c'
  refine ⟨d, ?_⟩
  rw [List.reverse_append, List.append_assoc, List.append_assoc]
  exact List.mem_flatMap.mpr ⟨_, hc', hd⟩

theorem takes_capture (i : Nat) (ha : a.Takes fl u) : (Node.capture i a).Takes fl u := by
  intro past rest c
  obtain ⟨c', hc'⟩ := ha past rest c
  refine ⟨c'.set i u, List.mem_map.mpr ⟨_, hc', ?_⟩⟩
  exact capture_append i past (u.reverse ++ past) u rest c c'

theorem takes_iterate {greedy : Bool} {us : List Text}
    (hus : ∀ u ∈ us, u ≠ [] ∧ a.Takes fl u) :
    ∀ (fuel lo : Nat) (hi : Option Nat), us.length ≤ fuel → lo ≤ us.length →
      (∀ h, hi = some h → us.length ≤ h) → ∀ past rest c, ∃ c',
        ⟨⟨us.flatten.reverse ++ past, rest⟩, c'⟩ ∈
          iterate (a.run fl) greedy fuel lo hi ⟨⟨past, us.flatten ++ rest⟩, c⟩ := by
  induction us with
  | nil =>
    intro fuel lo hi _ hlo _ past rest c
    refine ⟨c, ?_⟩
    obtain rfl : lo = 0 := Nat.le_zero.mp hlo
    cases fuel with
    | zero => exact List.mem_cons_self
    | succ fuel =>
      rw [iterate]
      split
      · exact List.mem_cons_self
      · cases greedy with
        | true => exact List.mem_append_right _ List.mem_cons_self
        | false => exact List.mem_cons_self
  | cons u us ih =>
    intro fuel lo hi hfuel hlo hhi past rest c
    obtain ⟨hne, htakes⟩ := hus u List.mem_cons_self
    have hothers : ∀ u ∈ us, u ≠ [] ∧ a.Takes fl u := fun u hu => hus u (List.mem_cons_of_mem _ hu)
    obtain ⟨c₁, hfirst⟩ := htakes past (us.flatten ++ rest) c
    rw [List.flatten_cons, List.reverse_append, List.append_assoc, List.append_assoc]
    rw [List.length_cons] at hfuel hlo hhi
    cases fuel with
    | zero => omega
    | succ fuel =>
      have hbound : ∀ h, hi.map (· - 1) = some h → us.length ≤ h := by
        intro h hh
        obtain ⟨k, hk, rfl⟩ := Option.map_eq_some_iff.mp hh
        have hle := hhi k hk
        omega
      cases lo with
      | succ lo =>
        obtain ⟨c', hlater⟩ := ih hothers fuel lo (hi.map (· - 1)) (by omega) (by omega) hbound
          (u.reverse ++ past) rest c₁
        exact ⟨c', List.mem_flatMap.mpr ⟨_, hfirst, hlater⟩⟩
      | zero =>
        obtain ⟨c', hlater⟩ := ih hothers fuel 0 (hi.map (· - 1)) (by omega) (by omega) hbound
          (u.reverse ++ past) rest c₁
        refine ⟨c', ?_⟩
        have hsome : hi ≠ some 0 := by
          intro hzero
          have hle := hhi 0 hzero
          omega
        have hless : (us.flatten ++ rest).length < (u ++ (us.flatten ++ rest)).length := by
          have hpos := List.length_pos_iff.mpr hne
          simp only [List.length_append]
          omega
        rw [iterate, if_neg hsome]
        have hmore : (⟨⟨us.flatten.reverse ++ (u.reverse ++ past), rest⟩, c'⟩ : State) ∈
            (a.run fl ⟨⟨past, u ++ (us.flatten ++ rest)⟩, c⟩).flatMap fun t =>
              if t.remaining < State.remaining ⟨⟨past, u ++ (us.flatten ++ rest)⟩, c⟩ then
                iterate (a.run fl) greedy fuel 0 (hi.map (· - 1)) t
              else [t] := by
          refine List.mem_flatMap.mpr ⟨_, hfirst, ?_⟩
          rw [if_pos]
          · exact hlater
          · exact hless
        cases greedy with
        | true => exact List.mem_append_left _ hmore
        | false => exact List.mem_cons_of_mem _ hmore

theorem length_le_flatten {us : List Text} (hus : ∀ u ∈ us, u ≠ []) :
    us.length ≤ us.flatten.length := by
  induction us with
  | nil => exact Nat.le_refl 0
  | cons u us ih =>
    have hpos := List.length_pos_iff.mpr (hus u List.mem_cons_self)
    have hrest := ih fun u hu => hus u (List.mem_cons_of_mem _ hu)
    rw [List.length_cons, List.flatten_cons, List.length_append]
    omega

theorem takes_rep {greedy : Bool} {lo : Nat} {hi : Option Nat} {us : List Text}
    (hus : ∀ u ∈ us, u ≠ [] ∧ a.Takes fl u) (hlo : lo ≤ us.length)
    (hhi : ∀ h, hi = some h → us.length ≤ h) : (Node.rep lo hi greedy a).Takes fl us.flatten := by
  intro past rest c
  apply takes_iterate hus _ _ _ ?_ hlo hhi
  have hlength := length_le_flatten fun u hu => (hus u hu).1
  rw [State.remaining, List.length_append]
  omega

theorem takes_rep_zero (hi : Option Nat) (greedy : Bool) (a : Node) :
    (Node.rep 0 hi greedy a).Takes fl [] := by
  apply @takes_rep fl a greedy 0 hi []
  · intro u hu
    contradiction
  · exact Nat.zero_le _
  · intro h _
    exact Nat.zero_le h

theorem takes_all {at' : Atom} {p : Char → Bool} (ha : ∀ s, (Node.atom at').run fl s = s.eat p)
    {m : Text} (hm : m.all p = true) : (Node.rep 0 none true (.atom at')).Takes fl m := by
  have hsingle : (m.map fun c => [c]).flatten = m := List.flatMap_singleton' m
  rw [← hsingle]
  apply takes_rep
  · intro u hu
    obtain ⟨c, hc, rfl⟩ := List.mem_map.mp hu
    exact ⟨List.cons_ne_nil c [], takes_char ha (List.all_eq_true.mp hm c hc)⟩
  · exact Nat.zero_le _
  · intro h hnone
    contradiction

end Takes

section Took

variable {fl : Flags} {a b : Node} {past rest : Text} {c : Captures} {t : State}

theorem mem_litsThen (hfl : fl.ignoreCase = false) {w : Text} :
    t ∈ (litsThen w a).run fl ⟨⟨past, rest⟩, c⟩ ↔
      ∃ v, rest = w ++ v ∧ t ∈ a.run fl ⟨⟨w.reverse ++ past, v⟩, c⟩ := by
  by_cases hw : w <+: rest
  · obtain ⟨v, rfl⟩ := hw
    rw [litsThen_run_append hfl]
    constructor
    · intro h
      exact ⟨v, rfl, h⟩
    · rintro ⟨v', hv, h⟩
      rw [List.append_cancel_left hv]
      exact h
  · rw [litsThen_run_fails hfl hw]
    constructor
    · intro h
      contradiction
    · rintro ⟨v, rfl, -⟩
      exact absurd (List.prefix_append w v) hw

theorem mem_eats {p : Char → Bool} :
    t ∈ eats p past c rest ↔
      ∃ u v, rest = u ++ v ∧ u.all p = true ∧ t = ⟨⟨u.reverse ++ past, v⟩, c⟩ := by
  induction rest generalizing past with
  | nil =>
    rw [eats, List.mem_singleton]
    constructor
    · rintro rfl
      exact ⟨[], [], rfl, rfl, rfl⟩
    · rintro ⟨u, v, huv, -, rfl⟩
      obtain ⟨rfl, rfl⟩ := List.append_eq_nil_iff.mp huv.symm
      rfl
  | cons x rest ih =>
    rw [eats, List.mem_append, List.mem_singleton]
    constructor
    · rintro (h | rfl)
      · split at h
        · rename_i hx
          obtain ⟨u, v, rfl, hu, rfl⟩ := ih.mp h
          refine ⟨x :: u, v, rfl, ?_, ?_⟩
          · rw [List.all_cons, hx, hu]
            rfl
          · rw [List.reverse_cons, List.append_assoc]
            rfl
        · contradiction
      · exact ⟨[], x :: rest, rfl, rfl, rfl⟩
    · rintro ⟨u, v, huv, hu, rfl⟩
      cases u with
      | nil =>
        rw [List.nil_append] at huv
        exact .inr (by rw [← huv]; rfl)
      | cons y u =>
        obtain ⟨rfl, rfl⟩ := List.cons.inj huv
        rw [List.all_cons, Bool.and_eq_true] at hu
        rw [if_pos hu.1]
        refine .inl (ih.mpr ⟨u, v, rfl, hu.2, ?_⟩)
        rw [List.reverse_cons, List.append_assoc]
        rfl

theorem mem_rep_one {at' : Atom} {p : Char → Bool}
    (ha : ∀ s, (Node.atom at').run fl s = s.eat p) :
    t ∈ (Node.rep 1 none true (.atom at')).run fl ⟨⟨past, rest⟩, c⟩ ↔
      ∃ u v, rest = u ++ v ∧ u ≠ [] ∧ u.all p = true ∧ t = ⟨⟨u.reverse ++ past, v⟩, c⟩ := by
  cases rest with
  | nil =>
    rw [Node.run, funext ha]
    constructor
    · intro h
      contradiction
    · rintro ⟨u, v, huv, hne, -⟩
      exact absurd (List.append_eq_nil_iff.mp huv.symm).1 hne
  | cons x rest =>
    by_cases hx : p x = true
    · rw [rep_one_run ha hx, mem_eats]
      constructor
      · rintro ⟨u, v, rfl, hu, rfl⟩
        refine ⟨x :: u, v, rfl, List.cons_ne_nil x u, ?_, ?_⟩
        · rw [List.all_cons, hx, hu]
          rfl
        · rw [List.reverse_cons, List.append_assoc]
          rfl
      · rintro ⟨u, v, huv, hne, hu, rfl⟩
        cases u with
        | nil => contradiction
        | cons y u =>
          obtain ⟨rfl, rfl⟩ := List.cons.inj huv
          rw [List.all_cons, Bool.and_eq_true] at hu
          refine ⟨u, v, rfl, hu.2, ?_⟩
          rw [List.reverse_cons, List.append_assoc]
          rfl
    · have hnone : (Node.rep 1 none true (.atom at')).run fl ⟨⟨past, x :: rest⟩, c⟩ = [] := by
        rw [Node.run, funext ha]
        simp [iterate, State.eat, hx]
      rw [hnone]
      constructor
      · intro h
        contradiction
      · rintro ⟨u, v, huv, hne, hu, -⟩
        cases u with
        | nil => contradiction
        | cons y u =>
          obtain ⟨rfl, -⟩ := List.cons.inj huv
          rw [List.all_cons, Bool.and_eq_true] at hu
          exact absurd hu.1 hx

def capturedRun (i : Nat) (at' : Atom) (b : Node) : Node :=
  .seq (.capture i (.seq (.rep 1 none true (.atom at')) .empty)) b

theorem mem_capturedRun {at' : Atom} {p : Char → Bool}
    (ha : ∀ s, (Node.atom at').run fl s = s.eat p) {i : Nat} :
    t ∈ (capturedRun i at' b).run fl ⟨⟨past, rest⟩, c⟩ ↔
      ∃ u v, rest = u ++ v ∧ u ≠ [] ∧ u.all p = true ∧
        t ∈ b.run fl ⟨⟨u.reverse ++ past, v⟩, c.set i u⟩ := by
  have hempty : Node.run fl .empty = fun s => [s] := rfl
  rw [capturedRun, Node.run, Node.run, Node.run, hempty, List.flatMap_singleton', List.mem_flatMap]
  constructor
  · rintro ⟨r, hr, ht⟩
    obtain ⟨s, hs, rfl⟩ := List.mem_map.mp hr
    obtain ⟨u, v, rfl, hne, hu, rfl⟩ := (mem_rep_one ha).mp hs
    rw [capture_append] at ht
    exact ⟨u, v, rfl, hne, hu, ht⟩
  · rintro ⟨u, v, rfl, hne, hu, ht⟩
    refine ⟨_, List.mem_map.mpr ⟨_, (mem_rep_one ha).mpr ⟨u, v, rfl, hne, hu, rfl⟩, rfl⟩, ?_⟩
    rw [capture_append]
    exact ht

theorem mem_captured (hfl : fl.literal) {p : Char → Bool} (ha : a.over p) {i : Nat}
    (ht : t ∈ (Node.seq (.capture i a) b).run fl ⟨⟨past, rest⟩, c⟩) :
    ∃ u v past' c', rest = u ++ v ∧ u.all p = true ∧
      t ∈ b.run fl ⟨⟨past', v⟩, Captures.set c' i u⟩ := by
  obtain ⟨r, hr, ht⟩ := List.mem_flatMap.mp ht
  obtain ⟨⟨⟨past', v⟩, c'⟩, hs, rfl⟩ := List.mem_map.mp hr
  obtain ⟨u, huv, hu⟩ := Node.run_reads hfl ha hs
  change rest = u ++ v at huv
  subst huv
  rw [capture_append] at ht
  exact ⟨u, v, past', c', rfl, hu, ht⟩

theorem exists_mem_seq {u v : Text} (ha : a.Takes fl u) (past : Text) (c : Captures)
    (hb : ∀ c', ∃ t, t ∈ b.run fl ⟨⟨u.reverse ++ past, v⟩, c'⟩) :
    ∃ t, t ∈ (Node.seq a b).run fl ⟨⟨past, u ++ v⟩, c⟩ := by
  obtain ⟨c', hc'⟩ := ha past v c
  obtain ⟨t, ht⟩ := hb c'
  exact ⟨t, List.mem_flatMap.mpr ⟨_, hc', ht⟩⟩

end Took

end AggregatedLogging.Regex
