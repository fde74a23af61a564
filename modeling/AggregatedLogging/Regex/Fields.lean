import AggregatedLogging.Regex.Prefix

/-! Patterns over fields with a separator between them: which states a greedy
run of characters leaves behind, and what follows it. -/
namespace AggregatedLogging.Regex

def eats (p : Char → Bool) (past : Text) (c : Captures) : Text → List State
  | [] => [⟨⟨past, []⟩, c⟩]
  | x :: rest => (if p x then eats p (x :: past) c rest else []) ++ [⟨⟨past, x :: rest⟩, c⟩]

theorem iterate_eat {p : Char → Bool} {fuel : Nat} {past rest : Text} {c : Captures}
    (h : rest.length < fuel) :
    iterate (State.eat p) true fuel 0 none ⟨⟨past, rest⟩, c⟩ = eats p past c rest := by
  induction rest generalizing past fuel with
  | nil =>
    cases fuel with
    | zero => contradiction
    | succ fuel => simp [iterate, eats, State.eat]
  | cons x rest ih =>
    cases fuel with
    | zero => contradiction
    | succ fuel =>
      rw [List.length_cons] at h
      have hrest : iterate (State.eat p) true fuel 0 none ⟨⟨x :: past, rest⟩, c⟩ =
          eats p (x :: past) c rest := ih (by omega)
      simp only [iterate, reduceCtorEq, ↓reduceIte, State.eat, eats, Option.map_none]
      split
      · simp [State.remaining, hrest]
      · rfl

theorem rep_one_run {fl : Flags} {a : Atom} {p : Char → Bool}
    (ha : ∀ s, (Node.atom a).run fl s = s.eat p) {x : Char} (hx : p x = true) (past rest : Text)
    (c : Captures) :
    (Node.rep 1 none true (.atom a)).run fl ⟨⟨past, x :: rest⟩, c⟩ =
      eats p (x :: past) c rest := by
  have hbody : (Node.atom a).run fl = State.eat p := funext ha
  rw [Node.run, hbody]
  simp only [iterate, State.eat, hx, ↓reduceIte, List.flatMap_cons, List.flatMap_nil,
    List.append_nil, Option.map_none]
  apply iterate_eat
  simp only [State.remaining, List.length_cons]
  omega

theorem rep_zero_run {fl : Flags} {a : Atom} {p : Char → Bool}
    (ha : ∀ s, (Node.atom a).run fl s = s.eat p) (past rest : Text) (c : Captures) :
    (Node.rep 0 none true (.atom a)).run fl ⟨⟨past, rest⟩, c⟩ = eats p past c rest := by
  have hbody : (Node.atom a).run fl = State.eat p := funext ha
  rw [Node.run, hbody]
  apply iterate_eat
  simp only [State.remaining]
  omega

theorem other_run {fl : Flags} (hfl : fl.ignoreCase = false) (x : Char) (s : State) :
    (Node.atom (.cls true [.one x])).run fl s = s.eat (fun d => decide (d ≠ x)) := by
  simp only [Node.run, Atom.run]
  congr 1
  funext d
  simp [classHolds, hfl, ClassItem.holds]

theorem dot_run (fl : Flags) (s : State) :
    (Node.atom .dot).run fl s = s.eat (fun d => fl.dotAll || decide (d ≠ '\n')) := rfl

theorem lit_run {fl : Flags} (hfl : fl.ignoreCase = false) (x y : Char) (past rest : Text)
    (c : Captures) (a : Node) :
    (Node.seq (.atom (.lit x)) a).run fl ⟨⟨past, y :: rest⟩, c⟩ =
      if y = x then a.run fl ⟨⟨y :: past, rest⟩, c⟩ else [] := by
  simp only [Node.run, Atom.run, State.eat, sameChar, hfl, Bool.false_and, Bool.or_false,
    decide_eq_true_eq]
  split
  · rw [List.flatMap_cons, List.flatMap_nil, List.append_nil]
  · rfl

theorem litsThen_run_append {fl : Flags} (hfl : fl.ignoreCase = false) (w past rest : Text)
    (c : Captures) (a : Node) :
    (litsThen w a).run fl ⟨⟨past, w ++ rest⟩, c⟩ = a.run fl ⟨⟨w.reverse ++ past, rest⟩, c⟩ := by
  induction w generalizing past with
  | nil => rfl
  | cons x w ih =>
    have := lit_run hfl x x past (w ++ rest) c (litsThen w a)
    rw [if_pos rfl, ih] at this
    rw [List.reverse_cons, List.append_assoc]
    exact this

theorem litsThen_run_fails {fl : Flags} (hfl : fl.ignoreCase = false) {w past rest : Text}
    (h : ¬ w <+: rest) (c : Captures) (a : Node) :
    (litsThen w a).run fl ⟨⟨past, rest⟩, c⟩ = [] := by
  induction w generalizing past rest with
  | nil => exact absurd (List.nil_prefix) h
  | cons x w ih =>
    cases rest with
    | nil => rfl
    | cons y rest =>
      refine (lit_run hfl x y past rest c (litsThen w a)).trans ?_
      split
      · rename_i hxy
        apply ih
        intro hw
        exact h (List.cons_prefix_cons.mpr ⟨hxy.symm, hw⟩)
      · rfl

theorem litsThen_run_iff {fl : Flags} (hfl : fl.ignoreCase = false) (w past rest : Text)
    (c : Captures) : (litsThen w .empty).run fl ⟨⟨past, rest⟩, c⟩ ≠ [] ↔ w <+: rest := by
  by_cases h : w <+: rest
  · obtain ⟨r, rfl⟩ := h
    rw [litsThen_run_append hfl]
    simp [Node.run]
  · simp [litsThen_run_fails hfl h, h]

def field (x : Char) (a : Node) : Node :=
  .seq (.rep 1 none true (.atom (.cls true [.one x]))) (.seq (.atom (.lit x)) a)

/-- Inside a field there is no separator, so only the whole field is left. -/
theorem eats_field {fl : Flags} (hfl : fl.ignoreCase = false) {x : Char} {u : Text} (hu : x ∉ u)
    (past rest : Text) (c : Captures) (a : Node) :
    (eats (fun d => decide (d ≠ x)) past c (u ++ x :: rest)).flatMap
        ((Node.seq (.atom (.lit x)) a).run fl) =
      a.run fl ⟨⟨x :: (u.reverse ++ past), rest⟩, c⟩ := by
  induction u generalizing past with
  | nil => simp [eats, lit_run hfl]
  | cons y u ih =>
    rw [List.mem_cons, not_or] at hu
    have hy : y ≠ x := Ne.symm hu.1
    simp only [List.cons_append, eats, hy, ne_eq, not_false_eq_true, decide_true, ↓reduceIte,
      List.flatMap_append, List.flatMap_cons, List.flatMap_nil, List.append_nil, lit_run hfl]
    rw [ih hu.2, List.reverse_cons, List.append_assoc]
    rfl

theorem field_run {fl : Flags} (hfl : fl.ignoreCase = false) {x : Char} {u : Text} (hu : x ∉ u)
    (hne : u ≠ []) (past rest : Text) (c : Captures) (a : Node) :
    (field x a).run fl ⟨⟨past, u ++ x :: rest⟩, c⟩ =
      a.run fl ⟨⟨x :: (u.reverse ++ past), rest⟩, c⟩ := by
  cases u with
  | nil => contradiction
  | cons y u =>
    rw [List.mem_cons, not_or] at hu
    have hy : decide (y ≠ x) = true := decide_eq_true (Ne.symm hu.1)
    have hrep := rep_one_run (other_run hfl x) hy past (u ++ x :: rest) c
    change List.flatMap _ (Node.run fl (.rep 1 none true _) ⟨⟨past, y :: (u ++ x :: rest)⟩, c⟩) = _
    rw [hrep, eats_field hfl hu.2, List.reverse_cons, List.append_assoc]
    rfl

theorem field_run_nil {fl : Flags} (hfl : fl.ignoreCase = false) (x : Char) (past rest : Text)
    (c : Captures) (a : Node) : (field x a).run fl ⟨⟨past, x :: rest⟩, c⟩ = [] := by
  have hbody : (Node.atom (.cls true [.one x])).run fl = State.eat fun d => decide (d ≠ x) :=
    funext (other_run hfl x)
  rw [field, Node.run, Node.run, hbody]
  simp [iterate, State.eat]

def lastField (i : Nat) (x : Char) : Node :=
  .seq (.capture i (.seq (.rep 1 none true (.atom .dot)) .empty)) (.seq (.atom (.lit x)) .empty)

theorem eats_suffix {p : Char → Bool} {past rest : Text} {c : Captures} {t : State}
    (ht : t ∈ eats p past c rest) : t.cursor.rest <:+ rest := by
  induction rest generalizing past with
  | nil =>
    obtain rfl := List.mem_singleton.mp ht
    exact List.suffix_refl []
  | cons x rest ih =>
    rcases List.mem_append.mp ht with ht | ht
    · split at ht
      · exact (ih ht).trans (List.suffix_cons x rest)
      · contradiction
    · obtain rfl := List.mem_singleton.mp ht
      exact List.suffix_refl (x :: rest)

/-- The first outcome comes from the last place where what follows succeeds. -/
theorem head_eats {p : Char → Bool} {f : State → List State} {x : Char} {v : Text}
    (hlater : ∀ t : State, t.cursor.rest <:+ v → f t = []) {u : Text} (hu : u.all p = true)
    {past : Text} {c : Captures} (hf : f ⟨⟨u.reverse ++ past, x :: v⟩, c⟩ ≠ []) :
    ((eats p past c (u ++ x :: v)).flatMap f).head? =
      (f ⟨⟨u.reverse ++ past, x :: v⟩, c⟩).head? := by
  induction u generalizing past with
  | nil =>
    have hnone : (if p x then eats p (x :: past) c v else []).flatMap f = [] := by
      rw [List.flatMap_eq_nil_iff]
      intro t ht
      apply hlater
      split at ht
      · exact eats_suffix ht
      · contradiction
    rw [List.nil_append, eats, List.flatMap_append, hnone]
    simp
  | cons y u ih =>
    rw [List.all_cons, Bool.and_eq_true] at hu
    rw [List.reverse_cons, List.append_assoc, List.singleton_append] at hf ⊢
    have hhead := ih hu.2 hf
    rw [List.cons_append, eats, if_pos hu.1, List.flatMap_append, List.head?_append, hhead]
    cases hsome : f ⟨⟨u.reverse ++ (y :: past), x :: v⟩, c⟩ with
    | nil => exact absurd hsome hf
    | cons t ts => rfl

theorem lastField_run {fl : Flags} (hfl : fl.ignoreCase = false) {i : Nat} {x : Char} {u v : Text}
    (hne : u ≠ []) (hu : '\n' ∉ u) (hv : x ∉ v) (past : Text) (c : Captures) :
    ∃ t, ((lastField i x).run fl ⟨⟨past, u ++ x :: v⟩, c⟩).head? = some t ∧
      t.captures i = some u := by
  have hdot (s : Text) (hs : '\n' ∉ s) :
      s.all (fun d => fl.dotAll || decide (d ≠ '\n')) = true := by
    rw [List.all_eq_true]
    intro d hd
    have : d ≠ '\n' := by
      rintro rfl
      exact hs hd
    simp [this]
  cases u with
  | nil => contradiction
  | cons y u =>
    have hall := hdot (y :: u) hu
    rw [List.all_cons, Bool.and_eq_true] at hall
    have hrep := rep_one_run (dot_run fl) hall.1 past (u ++ x :: v) c
    have hrun : (lastField i x).run fl ⟨⟨past, (y :: u) ++ x :: v⟩, c⟩ =
        (eats (fun d => fl.dotAll || decide (d ≠ '\n')) (y :: past) c (u ++ x :: v)).flatMap
          fun s => (Node.seq (.atom (.lit x)) .empty).run fl
            (State.capture i ⟨⟨past, (y :: u) ++ x :: v⟩, c⟩ s) := by
      have hempty : Node.run fl .empty = fun s => [s] := rfl
      rw [lastField, Node.run, Node.run, Node.run, hempty, List.flatMap_singleton', List.cons_append,
        hrep, List.flatMap_map]
    have hlater (t : State) (ht : t.cursor.rest <:+ v) :
        (Node.seq (.atom (.lit x)) .empty).run fl
          (State.capture i ⟨⟨past, (y :: u) ++ x :: v⟩, c⟩ t) = [] := by
      obtain ⟨⟨before, after⟩, captures⟩ := t
      cases after with
      | nil => rfl
      | cons d after =>
        have hd : d ≠ x := by
          rintro rfl
          exact hv (ht.subset List.mem_cons_self)
        rw [State.capture, lit_run hfl, if_neg hd]
    have hthis : (Node.seq (.atom (.lit x)) .empty).run fl
        (State.capture i ⟨⟨past, (y :: u) ++ x :: v⟩, c⟩
          ⟨⟨u.reverse ++ (y :: past), x :: v⟩, c⟩) =
        [⟨⟨x :: (u.reverse ++ (y :: past)), v⟩,
          fun j => if j = i then some (y :: u) else c j⟩] := by
      have hcaptured : State.consumed ⟨⟨past, (y :: u) ++ x :: v⟩, c⟩
          ⟨⟨u.reverse ++ (y :: past), x :: v⟩, c⟩ = y :: u := by
        have hlen : ((y :: u) ++ x :: v).length - (x :: v).length = (y :: u).length := by
          rw [List.length_append]
          omega
        rw [State.consumed, State.remaining, State.remaining, hlen]
        exact List.take_left
      rw [State.capture, lit_run hfl, if_pos rfl, hcaptured]
      rfl
    refine ⟨⟨⟨x :: (u.reverse ++ (y :: past)), v⟩,
      fun j => if j = i then some (y :: u) else c j⟩, ?_, if_pos rfl⟩
    rw [hrun, head_eats hlater hall.2 (by rw [hthis]; exact List.cons_ne_nil _ _), hthis]
    rfl

def somewhere (w : Text) : Node := .seq (.rep 0 none true (.atom .dot)) (litsThen w .empty)

theorem somewhere_run {fl : Flags} (hfl : fl.ignoreCase = false) (w : Text) {past rest : Text}
    (hline : '\n' ∉ rest) (c : Captures) :
    (somewhere w).run fl ⟨⟨past, rest⟩, c⟩ ≠ [] ↔ w <:+: rest := by
  have hhere (past rest : Text) := litsThen_run_iff hfl w past rest c
  rw [somewhere, Node.run, rep_zero_run (dot_run fl)]
  induction rest generalizing past with
  | nil =>
    rw [eats, List.flatMap_cons, List.flatMap_nil, List.append_nil, hhere]
    simp
  | cons x rest ih =>
    rw [List.mem_cons, not_or] at hline
    have hx : (fl.dotAll || decide (x ≠ '\n')) = true := by simp [Ne.symm hline.1]
    have hboth {a b : List State} : a ++ b ≠ [] ↔ a ≠ [] ∨ b ≠ [] := by
      rw [ne_eq, List.append_eq_nil_iff, not_and_or]
    rw [eats, if_pos hx, List.flatMap_append, List.flatMap_cons, List.flatMap_nil, List.append_nil,
      hboth, List.infix_cons_iff, or_comm]
    exact or_congr (hhere past (x :: rest)) (ih hline.2)

theorem matchAt_inside {r : Pattern} {a : Node} (hnode : r.node = .seq (.atom (.at .lineStart)) a)
    {c : Cursor} (hpast : c.past ≠ []) (hhead : c.past.head? ≠ some '\n') : r.matchAt c = none := by
  simp [Pattern.matchAt, hnode, Node.run, Atom.run, Anchor.holds, hpast, hhead]

theorem findSome_inside {r : Pattern} {a : Node}
    (hnode : r.node = .seq (.atom (.at .lineStart)) a) {past rest : Text} (hpast : past ≠ [])
    (hhead : past.head? ≠ some '\n') (hline : '\n' ∉ rest) :
    (positions past rest).findSome? r.matchAt = none := by
  induction rest generalizing past with
  | nil =>
    rw [positions, List.findSome?_cons, matchAt_inside hnode hpast hhead]
    rfl
  | cons x rest ih =>
    rw [List.mem_cons, not_or] at hline
    rw [positions, List.findSome?_cons, matchAt_inside hnode hpast hhead]
    apply ih (List.cons_ne_nil x past) _ hline.2
    rw [List.head?_cons, ne_eq, Option.some.injEq]
    exact Ne.symm hline.1

/-- In a text of one line an anchored pattern is tried at the beginning only. -/
theorem search_anchored {r : Pattern} {a : Node}
    (hnode : r.node = .seq (.atom (.at .lineStart)) a) {s : Text} (hline : '\n' ∉ s) :
    r.search s = (a.run r.flags (.start s)).head?.map (Match.mk (.start s)) := by
  have hstart : r.matchAt (.start s) =
      (a.run r.flags (.start s)).head?.map (Match.mk (.start s)) := by
    rw [Pattern.matchAt, hnode]
    simp [Node.run, Atom.run, Anchor.holds, Cursor.start, State.start]
  cases s with
  | nil => rw [← hstart, Pattern.search, positions, List.findSome?_singleton]; rfl
  | cons x s =>
    rw [List.mem_cons, not_or] at hline
    have hhead : ([x] : Text).head? ≠ some '\n' := by
      rw [List.head?_cons, ne_eq, Option.some.injEq]
      exact Ne.symm hline.1
    rw [Pattern.search, positions, List.findSome?_cons,
      findSome_inside hnode (List.cons_ne_nil x []) hhead hline.2, ← hstart]
    rw [Cursor.start]
    cases r.matchAt ⟨[], x :: s⟩ <;> rfl

end AggregatedLogging.Regex
