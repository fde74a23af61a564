import AggregatedLogging.Regex.Fields
import AggregatedLogging.Regex.Consuming

/-! Lazy runs of characters, fields that end where a given text stands for the
first time, and searches from position to position. -/
namespace AggregatedLogging.Regex

/-- The two parts of a text, the first one in `p`, from the shortest one on. -/
def splits (p : Char → Bool) : Text → List (Text × Text)
  | [] => [([], [])]
  | x :: s => ([], x :: s) :: if p x then (splits p s).map fun q => (x :: q.1, q.2) else []

theorem append_of_mem_splits {p : Char → Bool} {s : Text} {q : Text × Text}
    (h : q ∈ splits p s) : s = q.1 ++ q.2 := by
  induction s generalizing q with
  | nil =>
    rw [List.mem_singleton.mp h]
    rfl
  | cons x s ih =>
    rcases List.mem_cons.mp h with rfl | h
    · rfl
    · split at h
      · obtain ⟨r, hr, rfl⟩ := List.mem_map.mp h
        exact congrArg (List.cons x) (ih hr)
      · contradiction

theorem mem_splits_of_append {p : Char → Bool} {u : Text} (hu : u.all p = true) (v : Text) :
    (u, v) ∈ splits p (u ++ v) := by
  induction u with
  | nil => cases v <;> exact List.mem_cons_self
  | cons x u ih =>
    rw [List.all_cons, Bool.and_eq_true] at hu
    rw [List.cons_append, splits, if_pos hu.1]
    exact List.mem_cons_of_mem _ (List.mem_map.mpr ⟨(u, v), ih hu.2, rfl⟩)

theorem iterate_lazy {p : Char → Bool} {fuel : Nat} {past rest : Text} {c : Captures}
    (h : rest.length < fuel) :
    iterate (State.eat p) false fuel 0 none ⟨⟨past, rest⟩, c⟩ =
      (splits p rest).map fun q => ⟨⟨q.1.reverse ++ past, q.2⟩, c⟩ := by
  induction rest generalizing past fuel with
  | nil =>
    cases fuel with
    | zero => contradiction
    | succ fuel => simp [iterate, splits, State.eat]
  | cons x rest ih =>
    cases fuel with
    | zero => contradiction
    | succ fuel =>
      rw [List.length_cons] at h
      have hrest : iterate (State.eat p) false fuel 0 none ⟨⟨x :: past, rest⟩, c⟩ =
          (splits p rest).map fun q => ⟨⟨q.1.reverse ++ x :: past, q.2⟩, c⟩ := ih (by omega)
      simp only [iterate, reduceCtorEq, ↓reduceIte, State.eat, splits, Option.map_none,
        Bool.false_eq_true, List.map_cons, List.reverse_nil, List.nil_append, List.cons.injEq,
        true_and]
      split
      · simp [State.remaining, hrest, Function.comp_def]
      · rfl

theorem rep_lazy_run {fl : Flags} {a : Atom} {p : Char → Bool}
    (ha : ∀ s, (Node.atom a).run fl s = s.eat p) (past rest : Text) (c : Captures) :
    (Node.rep 0 none false (.atom a)).run fl ⟨⟨past, rest⟩, c⟩ =
      (splits p rest).map fun q => ⟨⟨q.1.reverse ++ past, q.2⟩, c⟩ := by
  have hbody : (Node.atom a).run fl = State.eat p := funext ha
  rw [Node.run, hbody]
  apply iterate_lazy
  simp only [State.remaining]
  omega

def lazyField (i : Nat) (w : Text) (a : Node) : Node :=
  .seq (.capture i (.seq (.rep 0 none false (.atom .dot)) .empty)) (litsThen w a)

def isInline (c : Char) : Bool := c ≠ '\n'

theorem all_isInline {s : Text} : s.all isInline = true ↔ '\n' ∉ s := by
  rw [List.all_eq_true]
  constructor
  · intro h hmem
    exact absurd (h '\n' hmem) (by decide)
  · intro h c hc
    rw [isInline, decide_eq_true_eq]
    rintro rfl
    exact h hc

def Captures.set (c : Captures) (i : Nat) (s : Text) : Captures :=
  fun j => if j = i then some s else c j

theorem consumed_append (past past' u v : Text) (c c' : Captures) :
    State.consumed ⟨⟨past, u ++ v⟩, c⟩ ⟨⟨past', v⟩, c'⟩ = u := by
  have hlength : (u ++ v).length - v.length = u.length := by
    rw [List.length_append]
    omega
  rw [State.consumed, State.remaining, State.remaining, hlength]
  exact List.take_left

theorem capture_append (i : Nat) (past past' u v : Text) (c c' : Captures) :
    State.capture i ⟨⟨past, u ++ v⟩, c⟩ ⟨⟨past', v⟩, c'⟩ = ⟨⟨past', v⟩, c'.set i u⟩ := by
  rw [State.capture, consumed_append]
  rfl

theorem lazyField_run {fl : Flags} (hdot : fl.dotAll = false) (i : Nat) (w : Text) (a : Node)
    (past rest : Text) (c : Captures) :
    (lazyField i w a).run fl ⟨⟨past, rest⟩, c⟩ =
      (splits isInline rest).flatMap fun q =>
        (litsThen w a).run fl ⟨⟨q.1.reverse ++ past, q.2⟩, c.set i q.1⟩ := by
  have hbody (s : State) : (Node.atom .dot).run fl s = s.eat isInline := by
    rw [dot_run, hdot]
    rfl
  have hempty : Node.run fl .empty = fun s => [s] := rfl
  rw [lazyField, Node.run, Node.run, Node.run, hempty, List.flatMap_singleton',
    rep_lazy_run hbody, List.map_map, List.flatMap_map]
  apply List.flatMap_congr
  intro q hq
  have hsplit := append_of_mem_splits hq
  rw [Function.comp_apply, hsplit, capture_append]

theorem findSome?_splits {p : Char → Bool} {f : Text × Text → Option α} {s : Text} {a : α} :
    (splits p s).findSome? f = some a ↔
      ∃ u v, s = u ++ v ∧ u.all p = true ∧ f (u, v) = some a ∧
        ∀ u' v', u = u' ++ v' → v' ≠ [] → f (u', v' ++ v) = none := by
  induction s generalizing f with
  | nil =>
    rw [splits, List.findSome?_singleton]
    constructor
    · intro h
      refine ⟨[], [], rfl, rfl, h, ?_⟩
      intro u' v' hu hv
      exact absurd (List.append_eq_nil_iff.mp hu.symm).2 hv
    · rintro ⟨u, v, hs, -, h, -⟩
      obtain ⟨rfl, rfl⟩ := List.append_eq_nil_iff.mp hs.symm
      exact h
  | cons x s ih =>
    rw [splits, List.findSome?_cons]
    cases hf : f ([], x :: s) with
    | some b =>
      constructor
      · intro h
        refine ⟨[], x :: s, rfl, rfl, hf.trans h, ?_⟩
        intro u' v' hu hv
        exact absurd (List.append_eq_nil_iff.mp hu.symm).2 hv
      · rintro ⟨u, v, hs, -, h, hbefore⟩
        cases u with
        | nil =>
          rw [List.nil_append] at hs
          rw [← hs, hf] at h
          exact h
        | cons y u =>
          have := hbefore [] (y :: u) rfl (List.cons_ne_nil y u)
          rw [← hs, hf] at this
          contradiction
    | none =>
      constructor
      · intro h
        by_cases hx : p x = true
        · simp only [hx, ↓reduceIte, List.findSome?_map] at h
          obtain ⟨u, v, rfl, hu, huv, hbefore⟩ := ih.mp h
          refine ⟨x :: u, v, rfl, by rw [List.all_cons, hx, hu]; rfl, huv, ?_⟩
          intro u' v' hsplit hv
          cases u' with
          | nil =>
            obtain rfl : x :: u = v' := hsplit
            exact hf
          | cons y u' =>
            obtain ⟨rfl, hrest⟩ := List.cons.inj hsplit
            exact hbefore u' v' hrest hv
        · simp [hx] at h
      · rintro ⟨u, v, hs, hu, huv, hbefore⟩
        cases u with
        | nil =>
          rw [List.nil_append] at hs
          rw [← hs, hf] at huv
          contradiction
        | cons y u =>
          obtain ⟨rfl, rfl⟩ := List.cons.inj hs
          rw [List.all_cons, Bool.and_eq_true] at hu
          rw [if_pos hu.1, List.findSome?_map]
          apply ih.mpr
          refine ⟨u, v, rfl, hu.2, huv, ?_⟩
          intro u' v' hsplit hv
          exact hbefore (x :: u') v' (congrArg (List.cons x) hsplit) hv

theorem lazyField_head {fl : Flags} (hdot : fl.dotAll = false) (i : Nat) (w : Text) (a : Node)
    (past rest : Text) (c : Captures) :
    ((lazyField i w a).run fl ⟨⟨past, rest⟩, c⟩).head? =
      (splits isInline rest).findSome? fun q =>
        ((litsThen w a).run fl ⟨⟨q.1.reverse ++ past, q.2⟩, c.set i q.1⟩).head? := by
  rw [lazyField_run hdot, List.head?_flatMap]

theorem litsThen_head_eq_some {fl : Flags} (hfl : fl.ignoreCase = false) {w rest past : Text}
    {c : Captures} {a : Node} {t : State} :
    ((litsThen w a).run fl ⟨⟨past, rest⟩, c⟩).head? = some t ↔
      ∃ v, rest = w ++ v ∧ (a.run fl ⟨⟨w.reverse ++ past, v⟩, c⟩).head? = some t := by
  by_cases hw : w <+: rest
  · obtain ⟨v, rfl⟩ := hw
    rw [litsThen_run_append hfl]
    constructor
    · intro h
      exact ⟨v, rfl, h⟩
    · rintro ⟨v', hv, h⟩
      rw [List.append_cancel_left hv]
      exact h
  · rw [litsThen_run_fails hfl hw]
    constructor
    · intro h
      contradiction
    · rintro ⟨v, rfl, -⟩
      exact absurd (List.prefix_append w v) hw

/-- A lazy field ends at the first place where the text `w` follows and then `a` succeeds. -/
theorem lazyField_head_eq_some {fl : Flags} (hfl : fl.literal) {i : Nat} {w rest past : Text}
    {c : Captures} {a : Node} {t : State} :
    ((lazyField i w a).run fl ⟨⟨past, rest⟩, c⟩).head? = some t ↔
      ∃ u v, rest = u ++ (w ++ v) ∧ '\n' ∉ u ∧
        (a.run fl ⟨⟨w.reverse ++ (u.reverse ++ past), v⟩, c.set i u⟩).head? = some t ∧
        ∀ u' v' r, u = u' ++ v' → v' ≠ [] → v' ++ (w ++ v) = w ++ r →
          (a.run fl ⟨⟨w.reverse ++ (u'.reverse ++ past), r⟩, c.set i u'⟩).head? = none := by
  rw [lazyField_head hfl.2, findSome?_splits]
  constructor
  · rintro ⟨u, rest', rfl, hu, h, hbefore⟩
    obtain ⟨v, rfl, ht⟩ := (litsThen_head_eq_some hfl.1).mp h
    refine ⟨u, v, rfl, all_isInline.mp hu, ht, ?_⟩
    intro u' v' r hsplit hv hr
    have hnone := hbefore u' v' hsplit hv
    rw [hr, litsThen_run_append hfl.1] at hnone
    exact hnone
  · rintro ⟨u, v, rfl, hu, ht, hbefore⟩
    refine ⟨u, w ++ v, rfl, all_isInline.mpr hu, (litsThen_head_eq_some hfl.1).mpr ⟨v, rfl, ht⟩, ?_⟩
    intro u' v' hsplit hv
    by_contra hsome
    obtain ⟨t', ht'⟩ := Option.ne_none_iff_exists'.mp hsome
    obtain ⟨r, hr, hrun⟩ := (litsThen_head_eq_some hfl.1).mp ht'
    rw [hbefore u' v' r hsplit hv hr] at hrun
    contradiction

theorem lazyField_sep_head {fl : Flags} (hfl : fl.literal) {i : Nat} {x : Char}
    {past rest : Text} {c : Captures} {t : State} :
    ((lazyField i [x] .empty).run fl ⟨⟨past, rest⟩, c⟩).head? = some t ↔
      ∃ u v, rest = u ++ x :: v ∧ '\n' ∉ u ∧ x ∉ u ∧
        t = ⟨⟨x :: (u.reverse ++ past), v⟩, c.set i u⟩ := by
  rw [lazyField_head_eq_some hfl]
  constructor
  · rintro ⟨u, v, rfl, hu, ht, hbefore⟩
    refine ⟨u, v, rfl, hu, ?_, (Option.some.inj ht).symm⟩
    intro hx
    obtain ⟨u', v', rfl⟩ := List.append_of_mem hx
    have := hbefore u' (x :: v') (v' ++ x :: v) rfl (List.cons_ne_nil x v') rfl
    contradiction
  · rintro ⟨u, v, rfl, hu, hx, rfl⟩
    refine ⟨u, v, rfl, hu, rfl, ?_⟩
    rintro u' v' r rfl hv hr
    cases v' with
    | nil => contradiction
    | cons y v' =>
      obtain ⟨rfl, -⟩ := List.cons.inj hr
      exact absurd (List.mem_append_right u' List.mem_cons_self) hx

theorem head_eats_takeWhile (p : Char → Bool) (past : Text) (c : Captures) (rest : Text) :
    (eats p past c rest).head? =
      some ⟨⟨(rest.takeWhile p).reverse ++ past, rest.dropWhile p⟩, c⟩ := by
  induction rest generalizing past with
  | nil => rfl
  | cons x rest ih =>
    rw [eats, List.takeWhile_cons, List.dropWhile_cons]
    by_cases hx : p x = true
    · rw [if_pos hx, if_pos hx, if_pos hx, List.head?_append, ih, List.reverse_cons,
        List.append_assoc]
      rfl
    · rw [if_neg hx, if_neg hx, if_neg hx]
      rfl

theorem captured_run_head {fl : Flags} {a : Atom} {p : Char → Bool}
    (ha : ∀ s, (Node.atom a).run fl s = s.eat p) (i : Nat) (past rest : Text) (c : Captures) :
    ((Node.seq (.capture i (.seq (.rep 1 none true (.atom a)) .empty)) .empty).run fl
        ⟨⟨past, rest⟩, c⟩).head? =
      if rest.takeWhile p = [] then none
      else some ⟨⟨(rest.takeWhile p).reverse ++ past, rest.dropWhile p⟩,
        c.set i (rest.takeWhile p)⟩ := by
  have hempty : Node.run fl .empty = fun s => [s] := rfl
  rw [Node.run, Node.run, Node.run, hempty, List.flatMap_singleton', List.flatMap_singleton']
  cases rest with
  | nil =>
    rw [Node.run, funext ha]
    rfl
  | cons x rest =>
    by_cases hx : p x = true
    · have hne : (x :: rest).takeWhile p ≠ [] := by
        rw [List.takeWhile_cons, if_pos hx]
        exact List.cons_ne_nil _ _
      have hsplit := List.takeWhile_append_dropWhile (p := p) (l := x :: rest)
      have hcaptured := capture_append i past (((x :: rest).takeWhile p).reverse ++ past)
        ((x :: rest).takeWhile p) ((x :: rest).dropWhile p) c c
      rw [hsplit, List.takeWhile_cons, if_pos hx, List.dropWhile_cons, if_pos hx,
        List.reverse_cons, List.append_assoc, List.singleton_append] at hcaptured
      rw [rep_one_run ha hx, if_neg hne, List.head?_map, head_eats_takeWhile, Option.map_some,
        hcaptured, List.takeWhile_cons, if_pos hx, List.dropWhile_cons, if_pos hx,
        List.reverse_cons, List.append_assoc, List.singleton_append]
    · have hnone : (Node.rep 1 none true (.atom a)).run fl ⟨⟨past, x :: rest⟩, c⟩ = [] := by
        rw [Node.run, funext ha]
        simp [iterate, State.eat, hx]
      rw [hnone, List.takeWhile_cons, if_neg hx]
      rfl

theorem positions_eq (past s : Text) :
    positions past s =
      (splits (fun _ => true) s).map fun q => ⟨q.1.reverse ++ past, q.2⟩ := by
  induction s generalizing past with
  | nil => rfl
  | cons x s ih =>
    rw [positions, ih, splits, if_pos rfl, List.map_cons, List.map_map]
    simp [Function.comp_def]

/-- The leftmost match stands behind positions at which there is none. -/
theorem Pattern.search_eq_some {r : Pattern} {s : Text} {m : Match} :
    r.search s = some m ↔
      ∃ u v, s = u ++ v ∧ r.matchAt ⟨u.reverse, v⟩ = some m ∧
        ∀ u' v', u = u' ++ v' → v' ≠ [] → r.matchAt ⟨u'.reverse, v' ++ v⟩ = none := by
  rw [search, positions_eq, List.findSome?_map, findSome?_splits]
  simp only [Function.comp_apply, List.append_nil]
  have hall (u : Text) : u.all (fun _ => true) = true := by simp
  constructor
  · rintro ⟨u, v, hs, -, hm, hbefore⟩
    exact ⟨u, v, hs, hm, hbefore⟩
  · rintro ⟨u, v, hs, hm, hbefore⟩
    exact ⟨u, v, hs, hall u, hm, hbefore⟩

theorem Pattern.search_start {r : Pattern} {s : Text} {m : Match}
    (h : r.matchAt (.start s) = some m) : r.search s = some m := by
  apply search_eq_some.mpr
  refine ⟨[], s, rfl, h, ?_⟩
  intro u' v' hu hv
  exact absurd (List.append_eq_nil_iff.mp hu.symm).2 hv

theorem Pattern.found_lits {r : Pattern} {w : Text} (hnode : r.node = litsThen w .empty)
    (hfl : r.flags.ignoreCase = false) (s : Text) : r.found s = true ↔ w <:+: s := by
  have hhere (c : Cursor) : (r.matchAt c).isSome = true ↔ w <+: c.rest := by
    rw [matchAt, hnode, Option.isSome_map, List.isSome_head?]
    exact litsThen_run_iff hfl w c.past c.rest fun _ => none
  have hfrom (past : Text) :
      ((positions past s).findSome? r.matchAt).isSome = true ↔ w <:+: s := by
    induction s generalizing past with
    | nil =>
      rw [positions, List.findSome?_singleton, hhere, List.infix_nil, List.prefix_nil]
    | cons x s ih =>
      rw [positions, List.findSome?_cons, List.infix_cons_iff, ← hhere ⟨past, x :: s⟩,
        ← ih (x :: past)]
      cases r.matchAt ⟨past, x :: s⟩ <;> simp
  exact hfrom []

end AggregatedLogging.Regex
