import AggregatedLogging.Regex.Renumber
import AggregatedLogging.Regex.Scanning

/-! Joining patterns with bars.  Behind other alternatives the builder works as
it does on its own, with the groups renumbered and the earlier names in scope.
What a pattern reads of that surrounding state is exactly what can change its
meaning: inline flags, group names and references by number. -/
namespace AggregatedLogging.Regex

def Branches.shift (k : Nat) (before : List Node) (b : Branches) : Branches :=
  ⟨b.done.map (Node.shift k) ++ before, b.items.map (Node.shift k)⟩

def Opened.shift (k : Nat) : Opened → Opened
  | .capture i => .capture (i + k)
  | .cond i => .cond (i + k)
  | o => o

def Frame.shift (k : Nat) (f : Frame) : Frame := ⟨f.opened.shift k, f.content.shift k []⟩

def shiftNames (k : Nat) (names : List (Text × Nat)) : List (Text × Nat) :=
  names.map fun p => (p.1, p.2 + k)

/-- The builder behind a pattern `r` whose alternatives are `before`. -/
def Builder.behind (r : Pattern) (before : List Node) (b : Builder) : Builder where
  groups := b.groups + r.groups
  names := shiftNames r.groups b.names ++ r.names
  flags := r.flags.union b.flags
  inner := b.inner.map (Frame.shift r.groups)
  base := b.base.shift r.groups before

theorem seqOf_shift (k : Nat) (items : List Node) :
    seqOf (items.map (Node.shift k)) = (seqOf items).shift k := by
  have hfold (start : Node) : (items.map (Node.shift k)).foldl (fun a b => .seq b a) (start.shift k) =
      (items.foldl (fun a b => .seq b a) start).shift k := by
    induction items generalizing start with
    | nil => rfl
    | cons a items ih => exact ih (.seq a start)
  exact hfold .empty

theorem altOf_shift (k : Nat) (bs : List Node) :
    altOf (bs.map (Node.shift k)) = (altOf bs).shift k := by
  induction bs with
  | nil => rfl
  | cons a bs ih =>
    cases bs with
    | nil => rfl
    | cons b bs =>
      simp only [List.map_cons, altOf, Node.shift] at ih ⊢
      rw [ih]

theorem Branches.shift_all (k : Nat) (before : List Node) (b : Branches) :
    (b.shift k before).all = b.all.map (Node.shift k) ++ before := by
  simp [Branches.all, Branches.shift, seqOf_shift]

theorem Branches.shift_node (k : Nat) (b : Branches) : (b.shift k []).node = b.node.shift k := by
  rw [Branches.node, Branches.shift_all, List.append_nil, altOf_shift, Branches.node]

theorem Frame.shift_node (k : Nat) (f : Frame) : (f.shift k).node = f.node.shift k := by
  obtain ⟨o, c⟩ := f
  cases o with
  | cond i =>
    obtain ⟨done, items⟩ := c
    cases done with
    | nil => simp [Frame.node, Frame.shift, Opened.shift, Branches.shift, seqOf_shift, Node.shift]
    | cons a done =>
      simp [Frame.node, Frame.shift, Opened.shift, Branches.shift, seqOf_shift, Node.shift]
  | _ => simp [Frame.node, Frame.shift, Opened.shift, Branches.shift_node, Node.shift]

theorem Node.shift_repeatable (k : Nat) (n : Node) : (n.shift k).repeatable = n.repeatable := by
  cases n <;> rfl

theorem Branches.bar_shift (k : Nat) (before : List Node) (b : Branches) :
    (b.shift k before).bar = b.bar.shift k before := by
  simp [Branches.bar, Branches.shift, seqOf_shift]

theorem Branches.quantify_shift (k : Nat) (before : List Node) (lo : Nat) (hi : Option Nat)
    (greedy : Bool) (b : Branches) :
    (b.shift k before).quantify lo hi greedy =
      (b.quantify lo hi greedy).map (Branches.shift k before) := by
  obtain ⟨done, items⟩ := b
  cases items with
  | nil => rfl
  | cons n rest =>
    simp only [Branches.quantify, Branches.shift, List.map_cons, Node.shift_repeatable]
    cases n.repeatable <;> rfl

/-- An operation on the innermost group commutes with moving the builder behind
another pattern when it commutes with renumbering the branches. -/
theorem Builder.onTop_behind (r : Pattern) (before : List Node) (b : Builder)
    {f g : Branches → Option Branches}
    (h : ∀ before c, g (c.shift r.groups before) = (f c).map (Branches.shift r.groups before)) :
    (b.behind r before).onTop g = (b.onTop f).map (Builder.behind r before) := by
  obtain ⟨groups, names, flags, inner, base⟩ := b
  cases inner with
  | nil =>
    simp only [Builder.onTop, Builder.behind, List.map_nil, h, Option.map_map]
    rfl
  | cons e es =>
    simp only [Builder.onTop, Builder.behind, List.map_cons, Frame.shift, h, Option.map_map]
    rfl

theorem Builder.push_behind (r : Pattern) (before : List Node) (b : Builder) (n : Node) :
    (b.behind r before).onTop (fun c => some (c.push (n.shift r.groups))) =
      (b.onTop fun c => some (c.push n)).map (Builder.behind r before) :=
  Builder.onTop_behind r before b fun _ _ => rfl

theorem shiftNames_lookup (k : Nat) (names : List (Text × Nat)) (n : Text) :
    (shiftNames k names).lookup n = (names.lookup n).map (· + k) := by
  induction names with
  | nil => rfl
  | cons p names ih =>
    obtain ⟨m, i⟩ := p
    simp only [shiftNames, List.map_cons, List.lookup_cons] at ih ⊢
    cases n == m
    · exact ih
    · rfl

def Token.capturing : Token → Bool
  | .opening (.capture _) => true
  | _ => false

def Token.defines : Token → Option Text
  | .opening (.capture n) => n
  | _ => none

theorem Builder.barAllowed_behind (r : Pattern) (before : List Node) (b : Builder) :
    (b.behind r before).barAllowed = b.barAllowed := by
  obtain ⟨groups, names, flags, inner, base⟩ := b
  rcases inner with _ | ⟨⟨o, c⟩, es⟩
  · rfl
  · cases o with
    | cond i => simp [Builder.barAllowed, Builder.behind, Frame.shift, Opened.shift, Branches.shift]
    | _ => rfl

theorem Opened.shift_zero (o : Opened) : o.shift 0 = o := by
  cases o <;> rfl

theorem Node.shift_zero (n : Node) : n.shift 0 = n := by
  induction n <;> simp_all [Node.shift]

theorem Builder.isOpen_behind_zero (r : Pattern) (before : List Node) (b : Builder) (i : Nat)
    (h : r.groups = 0) : (b.behind r before).isOpen i = b.isOpen i := by
  simp [Builder.isOpen, Builder.behind, h, Frame.shift, Opened.shift_zero, Function.comp_def]

theorem Flags.union_assoc (a b c : Flags) : (a.union b).union c = a.union (b.union c) := by
  simp [Flags.union, Bool.or_assoc]

theorem Builder.lookup_behind (r : Pattern) (before : List Node) (b : Builder) (n : Text) :
    (b.behind r before).names.lookup n =
      ((b.names.lookup n).map (· + r.groups)).or (r.names.lookup n) := by
  simp only [Builder.behind, List.lookup_append, shiftNames_lookup]

theorem Builder.lookup_behind_some {r : Pattern} (before : List Node) {b : Builder} {n : Text}
    {i : Nat} (h : b.names.lookup n = some i) :
    (b.behind r before).names.lookup n = some (i + r.groups) := by
  rw [Builder.lookup_behind, h]
  rfl

section Step

variable {r : Pattern} (before : List Node) {b b' : Builder}

theorem Builder.push_behind_some {n : Node} (h : (b.onTop fun c => some (c.push n)) = some b') :
    ((b.behind r before).onTop fun c => some (c.push (n.shift r.groups))) =
      some (b'.behind r before) := by
  rw [Builder.push_behind, h, Option.map_some]

theorem Builder.step_ref_behind {i : Nat} (hzero : r.groups = 0) (h : b.step (.ref i) = some b') :
    (b.behind r before).step (.ref i) = some (b'.behind r before) := by
  have hgroups : (b.behind r before).groups = b.groups := by
    change b.groups + r.groups = b.groups
    rw [hzero, Nat.add_zero]
  simp only [Builder.step] at h ⊢
  rw [Builder.isOpen_behind_zero r before b i hzero, hgroups]
  split at h
  · rename_i hok
    have hpush := Builder.push_behind_some (r := r) before h
    rw [hzero, Node.shift_zero] at hpush
    rw [if_pos hok, hpush]
  · contradiction

theorem Builder.step_refName_behind {n : Text} (h : b.step (.refName n) = some b') :
    (b.behind r before).step (.refName n) = some (b'.behind r before) := by
  obtain ⟨i, hi, hpush⟩ := Option.bind_eq_some_iff.mp h
  rw [Builder.step, Builder.lookup_behind_some before hi, Option.bind_some]
  exact Builder.push_behind_some before hpush

theorem Builder.step_quant_behind {lo : Nat} {hi : Option Nat} {greedy : Bool}
    (h : b.step (.quant lo hi greedy) = some b') :
    (b.behind r before).step (.quant lo hi greedy) = some (b'.behind r before) := by
  simp only [Builder.step] at h ⊢
  have hquantify := Builder.onTop_behind r before b fun before c =>
    Branches.quantify_shift r.groups before lo hi greedy c
  rw [hquantify, h, Option.map_some]

theorem Builder.step_bar_behind (h : b.step .bar = some b') :
    (b.behind r before).step .bar = some (b'.behind r before) := by
  simp only [Builder.step, Builder.barAllowed_behind] at h ⊢
  split at h
  · rename_i hallowed
    have hbar := Builder.onTop_behind r before b (f := fun c => some c.bar)
      (g := fun c => some c.bar) fun before c => by
        rw [Branches.bar_shift]
        rfl
    rw [if_pos hallowed, hbar, h, Option.map_some]
  · contradiction

theorem Builder.openCapture_behind {name : Option Text}
    (hfresh : ∀ n, name = some n → r.names.lookup n = none) (h : b.openCapture name = some b') :
    (b.behind r before).openCapture name = some (b'.behind r before) := by
  cases name with
  | none =>
    simp only [Builder.openCapture, Option.some.injEq] at h ⊢
    subst h
    simp [Builder.open, Builder.behind, Frame.shift, Opened.shift, Branches.shift]
    omega
  | some n =>
    simp only [Builder.openCapture] at h ⊢
    split at h
    · contradiction
    · rename_i hnone
      simp only [Option.some.injEq] at h
      subst h
      have hlookup : (b.behind r before).names.lookup n = none := by
        rw [Builder.lookup_behind, hfresh n rfl, Option.not_isSome_iff_eq_none.mp hnone]
        rfl
      rw [hlookup, if_neg (by simp)]
      simp [Builder.open, Builder.behind, Frame.shift, Opened.shift, Branches.shift, shiftNames]
      omega

theorem Builder.step_condNumber_behind {i : Nat} (hzero : r.groups = 0)
    (h : b.step (.opening (.condNumber i)) = some b') :
    (b.behind r before).step (.opening (.condNumber i)) = some (b'.behind r before) := by
  simp only [Builder.step, Option.some.injEq] at h
  subst h
  simp [Builder.step, Builder.open, Builder.behind, hzero, Frame.shift, Opened.shift,
    Branches.shift]

theorem Builder.step_condName_behind {n : Text} (h : b.step (.opening (.condName n)) = some b') :
    (b.behind r before).step (.opening (.condName n)) = some (b'.behind r before) := by
  obtain ⟨i, hi, rfl⟩ := Option.map_eq_some_iff.mp h
  rw [Builder.step, Builder.lookup_behind_some before hi]
  rfl

theorem Builder.step_close_behind (h : b.step .close = some b') :
    (b.behind r before).step .close = some (b'.behind r before) := by
  obtain ⟨groups, names, flags, inner, base⟩ := b
  cases inner with
  | nil => contradiction
  | cons f fs =>
    have hpush := Builder.push_behind_some (r := r) before
      (b := ⟨groups, names, flags, fs, base⟩) (n := f.node) h
    rw [← Frame.shift_node] at hpush
    exact hpush

theorem Builder.step_flags_behind {fl : Flags} (h : b.step (.flags fl) = some b') :
    (b.behind r before).step (.flags fl) = some (b'.behind r before) := by
  simp only [Builder.step, Option.some.injEq] at h
  subst h
  simp [Builder.step, Builder.behind, Flags.union_assoc]

end Step

theorem Builder.step_behind (r : Pattern) (before : List Node) {b b' : Builder} {t : Token}
    (hnum : t.numbered = false ∨ r.groups = 0)
    (hfresh : ∀ n, t.defines = some n → r.names.lookup n = none)
    (h : b.step t = some b') :
    (b.behind r before).step t = some (b'.behind r before) := by
  cases t with
  | item a => exact Builder.push_behind_some before h
  | ref i => exact Builder.step_ref_behind before (by simpa [Token.numbered] using hnum) h
  | refName n => exact Builder.step_refName_behind before h
  | quant lo hi greedy => exact Builder.step_quant_behind before h
  | bar => exact Builder.step_bar_behind before h
  | opening how =>
    cases how with
    | capture name => exact Builder.openCapture_behind before hfresh h
    | condNumber i =>
      exact Builder.step_condNumber_behind before (by simpa [Token.numbered] using hnum) h
    | condName n => exact Builder.step_condName_behind before h
    | _ =>
      -- a group that is opened the same way everywhere
      simp only [Builder.step, Option.some.injEq] at h
      subst h
      rfl
  | close => exact Builder.step_close_behind before h
  | flags fl => exact Builder.step_flags_behind before h

theorem Builder.run_cons {b b' : Builder} {t : Token} {ts : List Token} :
    b.run (t :: ts) = some b' ↔ ∃ c, b.step t = some c ∧ c.run ts = some b' := by
  simp only [Builder.run, List.foldlM_cons, Option.bind_eq_bind, Option.bind_eq_some_iff]

theorem Builder.run_append {b b' : Builder} {ts us : List Token} :
    b.run (ts ++ us) = some b' ↔ ∃ c, b.run ts = some c ∧ c.run us = some b' := by
  simp only [Builder.run, List.foldlM_append, Option.bind_eq_bind, Option.bind_eq_some_iff]

theorem Builder.run_behind (r : Pattern) (before : List Node) {b b' : Builder} {ts : List Token}
    (hnum : (∀ t ∈ ts, t.numbered = false) ∨ r.groups = 0)
    (hfresh : ∀ t ∈ ts, ∀ n, t.defines = some n → r.names.lookup n = none)
    (h : b.run ts = some b') :
    (b.behind r before).run ts = some (b'.behind r before) := by
  induction ts generalizing b with
  | nil =>
    simp only [Builder.run, List.foldlM_nil, Option.pure_def, Option.some.injEq] at h ⊢
    rw [h]
  | cons t ts ih =>
    obtain ⟨c, hc, h⟩ := Builder.run_cons.mp h
    have hstep := Builder.step_behind r before (hnum.imp_left fun h => h t (by simp))
      (hfresh t (by simp)) hc
    have hrest := ih (hnum.imp_left fun h u hu => h u (by simp [hu]))
      (fun u hu => hfresh u (by simp [hu])) h
    exact Builder.run_cons.mpr ⟨_, hstep, hrest⟩

theorem Builder.onTop_groups {b b' : Builder} {g : Branches → Option Branches}
    (h : b.onTop g = some b') : b'.groups = b.groups ∧ b'.names = b.names := by
  obtain ⟨groups, names, flags, inner, base⟩ := b
  cases inner with
  | nil =>
    obtain ⟨c, -, rfl⟩ := Option.map_eq_some_iff.mp h
    exact ⟨rfl, rfl⟩
  | cons f fs =>
    obtain ⟨c, -, rfl⟩ := Option.map_eq_some_iff.mp h
    exact ⟨rfl, rfl⟩

/-- Groups and names are only ever added, each by the token that opens it. -/
theorem Builder.step_groups {b b' : Builder} {t : Token} (h : b.step t = some b') :
    b'.groups = b.groups + t.capturing.toNat ∧
      b'.names = match t.defines with
        | none => b.names
        | some n => (n, b.groups + 1) :: b.names := by
  cases t with
  | item a => exact Builder.onTop_groups (g := fun c => some (c.push (.atom a))) h
  | ref i =>
    simp only [Builder.step] at h
    split at h
    · exact Builder.onTop_groups h
    · contradiction
  | refName n =>
    obtain ⟨i, -, h⟩ := Option.bind_eq_some_iff.mp h
    exact Builder.onTop_groups h
  | quant lo hi greedy => exact Builder.onTop_groups h
  | bar =>
    simp only [Builder.step] at h
    split at h
    · exact Builder.onTop_groups h
    · contradiction
  | opening how =>
    cases how with
    | capture n =>
      cases n with
      | none =>
        simp only [Builder.step, Builder.openCapture, Option.some.injEq] at h
        exact h ▸ ⟨rfl, rfl⟩
      | some n =>
        simp only [Builder.step, Builder.openCapture] at h
        split at h
        · contradiction
        · simp only [Option.some.injEq] at h
          exact h ▸ ⟨rfl, rfl⟩
    | condName n =>
      obtain ⟨i, -, rfl⟩ := Option.map_eq_some_iff.mp h
      exact ⟨rfl, rfl⟩
    | plain | ahead | behind | condNumber =>
      simp only [Builder.step, Option.some.injEq] at h
      exact h ▸ ⟨rfl, rfl⟩
  | close =>
    obtain ⟨groups, names, flags, inner, base⟩ := b
    cases inner with
    | nil => contradiction
    | cons f fs =>
      exact Builder.onTop_groups (b := ⟨groups, names, flags, fs, base⟩)
        (g := fun c => some (c.push f.node)) h
  | flags fl =>
    simp only [Builder.step, Option.some.injEq] at h
    exact h ▸ ⟨rfl, rfl⟩

def Builder.nameList (b : Builder) : List Text := b.names.map Prod.fst

theorem Builder.step_nameList {b b' : Builder} {t : Token} (h : b.step t = some b') :
    b'.nameList = t.defines.toList ++ b.nameList := by
  unfold Builder.nameList
  rw [(Builder.step_groups h).2]
  cases t.defines <;> rfl

theorem Builder.run_groups {b b' : Builder} {ts : List Token} (h : b.run ts = some b') :
    b'.groups = b.groups + ts.countP Token.capturing ∧
      b'.nameList = (ts.filterMap Token.defines).reverse ++ b.nameList := by
  induction ts generalizing b with
  | nil =>
    obtain rfl := Option.some.inj h
    exact ⟨rfl, rfl⟩
  | cons t ts ih =>
    obtain ⟨c, hc, h⟩ := Builder.run_cons.mp h
    obtain ⟨hgroups, hnames⟩ := ih h
    rw [(Builder.step_groups hc).1] at hgroups
    rw [Builder.step_nameList hc] at hnames
    refine ⟨?_, ?_⟩
    · rw [hgroups, List.countP_cons]
      cases t.capturing
      · simp
      · simp
        omega
    · rw [hnames, List.filterMap_cons]
      cases t.defines <;> simp

theorem Builder.step_nodup {b b' : Builder} {t : Token} (h : b.step t = some b')
    (hb : b.nameList.Nodup) : b'.nameList.Nodup := by
  rw [Builder.step_nameList h]
  cases hn : t.defines with
  | none => exact hb
  | some n =>
    refine List.nodup_cons.mpr ⟨fun hmem => ?_, hb⟩
    unfold Token.defines at hn
    split at hn
    · subst hn
      obtain ⟨p, hp, rfl⟩ := List.mem_map.mp hmem
      have htaken : (b.names.lookup p.1).isSome = true := by
        rw [Option.isSome_iff_ne_none, ne_eq, List.lookup_eq_none_iff]
        exact fun hall => by simpa using hall p hp
      simp [Builder.step, Builder.openCapture, htaken] at h
    · contradiction

theorem Builder.run_nodup {b b' : Builder} {ts : List Token} (h : b.run ts = some b')
    (hb : b.nameList.Nodup) : b'.nameList.Nodup := by
  induction ts generalizing b with
  | nil => exact Option.some.inj h ▸ hb
  | cons t ts ih =>
    obtain ⟨c, hc, h⟩ := Builder.run_cons.mp h
    exact ih h (Builder.step_nodup hc hb)

theorem altOf_append_run (fl : Flags) (s : State) (xs ys : List Node) (hx : xs ≠ []) (hy : ys ≠ []) :
    (altOf (xs ++ ys)).run fl s = (altOf ys).run fl s ++ (altOf xs).run fl s := by
  induction xs with
  | nil => contradiction
  | cons a xs ih =>
    rcases xs with _ | ⟨b, xs⟩
    · rcases ys with _ | ⟨c, ys⟩
      · contradiction
      · rfl
    · have := ih (List.cons_ne_nil b xs)
      simp only [List.cons_append, altOf, Node.run] at this ⊢
      rw [this, List.append_assoc]

theorem altOf_append_sound (groups : Nat) (xs ys : List Node) (hx : xs ≠ []) (hy : ys ≠ []) :
    (altOf (xs ++ ys)).sound groups = ((altOf ys).sound groups && (altOf xs).sound groups) := by
  induction xs with
  | nil => contradiction
  | cons a xs ih =>
    rcases xs with _ | ⟨b, xs⟩
    · rcases ys with _ | ⟨c, ys⟩
      · contradiction
      · rfl
    · have := ih (List.cons_ne_nil b xs)
      simp only [List.cons_append, altOf, Node.sound] at this ⊢
      rw [this, Bool.and_assoc]

end AggregatedLogging.Regex
