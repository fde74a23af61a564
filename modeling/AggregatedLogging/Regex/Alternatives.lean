import AggregatedLogging.Regex.Join
import Mathlib.Algebra.Ring.Nat

/-! One pattern made of many, joined with bars: when it compiles, and what it
finds. -/
namespace AggregatedLogging.Regex

def Pattern.succeeds (r : Pattern) (c : Cursor) : Prop := r.node.run r.flags ⟨c, fun _ => none⟩ ≠ []

theorem Pattern.found_iff (r : Pattern) (s : Text) :
    r.found s = true ↔ ∃ c ∈ positions [] s, r.succeeds c := by
  simp only [Pattern.found, Pattern.search, List.findSome?_isSome_iff, Pattern.matchAt,
    Option.isSome_map, List.isSome_head?, Pattern.succeeds, ne_eq]

def Pattern.nameList (r : Pattern) : List Text := r.names.map Prod.fst

theorem parse_iff {ts : List Token} {r : Pattern} :
    parse ts = some r ↔ ∃ b, Builder.run {} ts = some b ∧ b.inner = [] ∧
      r = ⟨b.base.node, b.groups, b.names, b.flags⟩ := by
  unfold parse
  rw [Option.bind_eq_some_iff]
  refine exists_congr fun b => and_congr_right fun _ => ?_
  obtain ⟨groups, names, flags, inner, base⟩ := b
  cases inner with
  | nil => simp [Builder.finish, eq_comm]
  | cons f fs => simp [Builder.finish]

/-- The pattern of two alternatives, the groups of the second renumbered. -/
structure Alternative (r r' R : Pattern) : Prop where
  groups : R.groups = r'.groups + r.groups
  names : R.names = shiftNames r.groups r'.names ++ r.names
  flags : R.flags = r.flags.union r'.flags
  run : ∀ fl s, R.node.run fl s = r.node.run fl s ++ (r'.node.shift r.groups).run fl s
  sound : ∀ g, R.node.sound g = (r.node.sound g && (r'.node.shift r.groups).sound g)

theorem parse_alternative {ts us : List Token} {r r' : Pattern}
    (h : parse ts = some r) (h' : parse us = some r')
    (hnum : (∀ t ∈ us, t.numbered = false) ∨ r.groups = 0)
    (hfresh : ∀ n ∈ r'.nameList, r.names.lookup n = none) :
    ∃ R, parse (ts ++ Token.bar :: us) = some R ∧ Alternative r r' R := by
  obtain ⟨b, hb, hinner, rfl⟩ := parse_iff.mp h
  obtain ⟨b', hb', hinner', rfl⟩ := parse_iff.mp h'
  have hbar : b.step .bar = some (({} : Builder).behind ⟨b.base.node, b.groups, b.names, b.flags⟩
      b.base.all) := by
    obtain ⟨groups, names, flags, inner, base⟩ := b
    obtain rfl : inner = [] := hinner
    simp [Builder.step, Builder.barAllowed, Builder.onTop, Builder.behind, Branches.bar,
      Branches.shift, Branches.all, shiftNames, Flags.union]
  have hdefines (t : Token) (ht : t ∈ us) (n : Text) (hn : t.defines = some n) :
      n ∈ b'.nameList := by
    rw [(Builder.run_groups hb').2]
    exact List.mem_append_left _ (List.mem_reverse.mpr (List.mem_filterMap.mpr ⟨t, ht, hn⟩))
  have hrun := Builder.run_behind ⟨b.base.node, b.groups, b.names, b.flags⟩ b.base.all hnum
    (fun t ht n hn => hfresh n (hdefines t ht n hn)) hb'
  have hall := Builder.run_append.mpr ⟨b, hb, Builder.run_cons.mpr ⟨_, hbar, hrun⟩⟩
  refine ⟨_, parse_iff.mpr ⟨_, hall, ?_, rfl⟩, ?_⟩
  · simp [Builder.behind, hinner']
  · have hne : b.base.all ≠ [] := List.cons_ne_nil _ _
    have hne' : b'.base.all.map (Node.shift b.groups) ≠ [] := List.cons_ne_nil _ _
    constructor
    · rfl
    · rfl
    · rfl
    · intro fl s
      simp only [Builder.behind, Branches.node, Branches.shift_all, altOf_append_run fl s _ _ hne' hne,
        altOf_shift]
    · intro g
      simp only [Builder.behind, Branches.node, Branches.shift_all, altOf_append_sound g _ _ hne' hne,
        altOf_shift]

/-- A pattern that can stand between bars: it sets no inline flags. -/
structure Plain (p : Text) (ts : List Token) (r : Pattern) : Prop where
  scans : Scans .python false p ts []
  parses : parse ts = some r
  flags : r.flags = {}
  sound : r.node.sound r.groups = true

theorem Flags.empty_union (fl : Flags) : Flags.union {} fl = fl := by
  simp [Flags.union]

theorem compile_plain_iff {p : Text} {r : Pattern} :
    compile .python p = some r ∧ r.flags = {} ↔ ∃ ts, Plain p ts r ∧ r.groups ≤ 99 := by
  constructor
  · rintro ⟨h, hflags⟩
    obtain ⟨r₁, h₁, h⟩ := Option.bind_eq_some_iff.mp h
    obtain ⟨r₀, h₀, h₁⟩ := Option.bind_eq_some_iff.mp h₁
    obtain ⟨ts, hts, hparse⟩ := Option.bind_eq_some_iff.mp h₀
    have hchecked : r₁ = r ∧ r₁.node.sound r₁.groups = true ∧ r₁.groups ≤ 99 := by
      unfold Pattern.checked at h
      split at h
      · rename_i hok
        exact ⟨by simpa [Dialect.flags, Flags.empty_union] using h, hok.1, of_decide_eq_true hok.2⟩
      · contradiction
    obtain ⟨rfl, hsound, hgroups⟩ := hchecked
    unfold reread at h₁
    split at h₁
    · rename_i hverbose
      obtain ⟨q, -, rfl⟩ := Option.map_eq_some_iff.mp h₁
      simp [Flags.union, hverbose] at hflags
    · obtain rfl := Option.some.inj h₁
      have hscans := (scan_iff (Nat.le_refl p.length)).mp hts
      exact ⟨ts, ⟨hscans, hparse, hflags, hsound⟩, hgroups⟩
  · rintro ⟨ts, h, hgroups⟩
    have hread : read .python false p = some r := by
      rw [read, (scan_iff (Nat.le_refl p.length)).mpr h.scans, Option.bind_some, h.parses]
    have hreread : reread .python p r = some r := by
      rw [reread, h.flags, if_neg (by decide)]
    have hchecked : r.checked .python = some r := by
      rw [Pattern.checked, if_pos ⟨h.sound, decide_eq_true hgroups⟩, Dialect.flags,
        Flags.empty_union]
    exact ⟨by rw [compile, hread, Option.bind_some, hreread, Option.bind_some, hchecked], h.flags⟩

def groupCount (p : Text) : Nat := ((compile .python p).map Pattern.groups).getD 0

def groupNames (p : Text) : List Text := ((compile .python p).map Pattern.nameList).getD []

def usesNumbers (p : Text) : Bool :=
  (scan .python false p.length p).any fun ts => ts.any Token.numbered

def setsFlags (p : Text) : Bool := (compile .python p).any fun r => decide (r.flags ≠ {})

def matchesText (p s : Text) : Bool := (compile .python p).any fun r => r.found s

theorem Plain.groupCount_eq {p : Text} {ts : List Token} {r : Pattern} (h : Plain p ts r)
    (hr : compile .python p = some r) : groupCount p = ts.countP Token.capturing := by
  obtain ⟨b, hb, -, rfl⟩ := parse_iff.mp h.parses
  simp only [groupCount, hr, Option.map_some, Option.getD_some, (Builder.run_groups hb).1,
    Nat.zero_add]

theorem Plain.groupNames_eq {p : Text} {ts : List Token} {r : Pattern} (h : Plain p ts r)
    (hr : compile .python p = some r) : groupNames p = (ts.filterMap Token.defines).reverse := by
  obtain ⟨b, hb, -, rfl⟩ := parse_iff.mp h.parses
  have hnames := (Builder.run_groups hb).2
  simp only [Builder.nameList, List.map_nil, List.append_nil] at hnames
  simp only [groupNames, hr, Option.map_some, Option.getD_some, Pattern.nameList, hnames]

theorem Plain.usesNumbers_eq {p : Text} {ts : List Token} {r : Pattern} (h : Plain p ts r) :
    usesNumbers p = ts.any Token.numbered := by
  rw [usesNumbers, (scan_iff (Nat.le_refl p.length)).mpr h.scans, Option.any_some]

/-- Patterns whose meaning between bars depends on nothing but their names. -/
structure Joinable (ps : List Text) : Prop where
  compiles : ∀ p ∈ ps, (compile .python p).isSome = true
  flags : ∀ p ∈ ps, setsFlags p = false
  numbers : ps.Pairwise fun p q => groupCount p = 0 ∨ usesNumbers q = false

theorem Joinable.plain {ps : List Text} (h : Joinable ps) {p : Text} (hp : p ∈ ps) :
    ∃ ts r, compile .python p = some r ∧ Plain p ts r := by
  obtain ⟨r, hr⟩ := Option.isSome_iff_exists.mp (h.compiles p hp)
  have hflags : r.flags = {} := by
    have := h.flags p hp
    simpa [setsFlags, hr] using this
  obtain ⟨ts, hplain, -⟩ := compile_plain_iff.mp ⟨hr, hflags⟩
  exact ⟨ts, r, hr, hplain⟩

theorem Joinable.tail {p : Text} {ps : List Text} (h : Joinable (p :: ps)) : Joinable ps :=
  ⟨fun q hq => h.compiles q (List.mem_cons_of_mem p hq),
    fun q hq => h.flags q (List.mem_cons_of_mem p hq), (List.pairwise_cons.mp h.numbers).2⟩

structure Scanned (ps : List Text) (ts : List Token) : Prop where
  scans : Scans .python false (Text.join ['|'] ps) ts []
  groups : ts.countP Token.capturing = (ps.map groupCount).sum
  names : (ts.filterMap Token.defines).Perm (ps.flatMap groupNames)
  numbered : ∀ t ∈ ts, t.numbered = true → ∃ p ∈ ps, usesNumbers p = true

theorem Scanned.one {p : Text} {ts : List Token} {r : Pattern} (h : Plain p ts r)
    (hr : compile .python p = some r) : Scanned [p] ts where
  scans := h.scans
  groups := by simp [h.groupCount_eq hr]
  names := by simp [h.groupNames_eq hr, (List.reverse_perm _).symm]
  numbered t ht hnum := ⟨p, by simp, by rw [h.usesNumbers_eq]; exact List.any_eq_true.mpr ⟨t, ht, hnum⟩⟩

theorem Scanned.cons {p : Text} {ts us : List Token} {ps : List Text} (hne : ps ≠ [])
    (h : Scanned [p] ts) (h' : Scanned ps us) : Scanned (p :: ps) (ts ++ Token.bar :: us) where
  scans := by
    obtain ⟨q, qs, rfl⟩ := List.exists_cons_of_ne_nil hne
    simpa [Text.join] using h.scans.alternative h'.scans
  groups := by
    have hp := h.groups
    simp only [List.map_cons, List.map_nil, List.sum_cons, List.sum_nil, Nat.add_zero] at hp
    rw [List.countP_append, List.countP_cons, hp, h'.groups, List.map_cons, List.sum_cons]
    rfl
  names := by
    have hp := h.names
    simp only [List.flatMap_cons, List.flatMap_nil, List.append_nil] at hp
    rw [List.filterMap_append, List.filterMap_cons, List.flatMap_cons]
    exact hp.append h'.names
  numbered t ht hnum := by
    rcases List.mem_append.mp ht with ht | ht
    · obtain ⟨q, hq, hnum⟩ := h.numbered t ht hnum
      exact ⟨q, by simp_all, hnum⟩
    · rcases List.mem_cons.mp ht with rfl | ht
      · contradiction
      · obtain ⟨q, hq, hnum⟩ := h'.numbered t ht hnum
        exact ⟨q, List.mem_cons_of_mem p hq, hnum⟩

theorem Pattern.lookup_eq_none {r : Pattern} {n : Text} (h : n ∉ r.nameList) :
    r.names.lookup n = none := by
  rw [List.lookup_eq_none_iff]
  intro p hp
  have : n ≠ p.1 := fun heq => h (heq ▸ List.mem_map_of_mem hp)
  simpa using this

theorem Node.shift_succeeds (fl : Flags) (k : Nat) (a : Node) (c : Cursor) :
    (a.shift k).run fl ⟨c, fun _ => none⟩ = [] ↔ a.run fl ⟨c, fun _ => none⟩ = [] := by
  have := Node.run_shift fl k a ⟨c, fun _ => none⟩
  simp only [State.shift, shiftCaptures_empty] at this
  rw [this, List.map_eq_nil_iff]

theorem Plain.alternative {p q : Text} {ts us : List Token} {r r' R : Pattern}
    (h : Plain p ts r) (h' : Plain q us r') (hR : parse (ts ++ Token.bar :: us) = some R)
    (halt : Alternative r r' R) :
    Plain (p ++ '|' :: q) (ts ++ Token.bar :: us) R ∧
      ∀ c, R.succeeds c ↔ r.succeeds c ∨ r'.succeeds c := by
  have hflags : R.flags = {} := by rw [halt.flags, h.flags, h'.flags, Flags.empty_union]
  refine ⟨⟨h.scans.alternative h'.scans, hR, hflags, ?_⟩, fun c => ?_⟩
  · have hleft := Node.sound_mono (Nat.le_add_left r.groups r'.groups) h.sound
    have hright := Node.sound_shift r.groups h'.sound
    rw [halt.sound, halt.groups, hleft, hright, Bool.and_self]
  · simp only [Pattern.succeeds, hflags, h.flags, h'.flags, halt.run, ne_eq,
      List.append_eq_nil_iff, Node.shift_succeeds]
    tauto

/-- Patterns joined with bars, by induction on their list.  The patterns behind
the first one are joined already; none of them refers to a group by number
unless the first one has no groups. -/
theorem Joinable.joined {ps : List Text} (h : Joinable ps) (hne : ps ≠ []) :
    ∃ ts, Scanned ps ts ∧ ((ps.flatMap groupNames).Nodup →
      ∃ R, Plain (Text.join ['|'] ps) ts R ∧
        ∀ c, R.succeeds c ↔ ∃ p ∈ ps, ∃ r, compile .python p = some r ∧ r.succeeds c) := by
  induction ps with
  | nil => contradiction
  | cons p ps ih =>
    obtain ⟨ts, r, hr, hplain⟩ := h.plain List.mem_cons_self
    have hone := Scanned.one hplain hr
    by_cases hps : ps = []
    · subst hps
      exact ⟨ts, hone, fun _ => ⟨r, hplain, fun c => by simp [hr]⟩⟩
    · obtain ⟨us, hscanned, hrest⟩ := ih h.tail hps
      refine ⟨ts ++ Token.bar :: us, hone.cons hps hscanned, fun hnodup => ?_⟩
      rw [List.flatMap_cons, List.nodup_append] at hnodup
      obtain ⟨-, hnodup, hdisjoint⟩ := hnodup
      obtain ⟨r', hplain', hsucceeds⟩ := hrest hnodup
      have hnum : (∀ t ∈ us, t.numbered = false) ∨ r.groups = 0 := by
        by_cases hzero : r.groups = 0
        · exact .inr hzero
        · refine .inl fun t ht => Bool.eq_false_iff.mpr fun hnum => ?_
          obtain ⟨q, hq, huses⟩ := hscanned.numbered t ht hnum
          have := (List.pairwise_cons.mp h.numbers).1 q hq
          simp [groupCount, hr, hzero, huses] at this
      have hfresh : ∀ n ∈ r'.nameList, r.names.lookup n = none := by
        intro n hn
        refine Pattern.lookup_eq_none fun hmem => ?_
        have hp : n ∈ groupNames p := by simpa [groupNames, hr] using hmem
        obtain ⟨b, hb, -, rfl⟩ := parse_iff.mp hplain'.parses
        have hdefined : n ∈ us.filterMap Token.defines := by
          have hnames := (Builder.run_groups hb).2
          simp only [Builder.nameList, List.map_nil, List.append_nil] at hnames
          simpa [Pattern.nameList, hnames] using hn
        exact hdisjoint n hp n (hscanned.names.mem_iff.mp hdefined) rfl
      obtain ⟨R, hR, halt⟩ := parse_alternative hplain.parses hplain'.parses hnum hfresh
      obtain ⟨hplainR, hsucceedsR⟩ := hplain.alternative hplain' hR halt
      refine ⟨R, ?_, fun c => ?_⟩
      · obtain ⟨q, qs, rfl⟩ := List.exists_cons_of_ne_nil hps
        simpa [Text.join] using hplainR
      · rw [hsucceedsR, hsucceeds]
        simp [hr]

theorem Plain.compiles {p : Text} {ts : List Token} {r : Pattern} (h : Plain p ts r)
    (hgroups : r.groups ≤ 99) : compile .python p = some r :=
  (compile_plain_iff.mpr ⟨ts, h, hgroups⟩).1

theorem Plain.compiles_iff {p : Text} {ts : List Token} {r : Pattern} (h : Plain p ts r) :
    (compile .python p).isSome = true ↔ r.groups ≤ 99 := by
  refine ⟨fun hsome => ?_, fun hgroups => by rw [h.compiles hgroups, Option.isSome_some]⟩
  have hread : read .python false p = some r := by
    rw [read, (scan_iff (Nat.le_refl p.length)).mpr h.scans, Option.bind_some, h.parses]
  have hreread : reread .python p r = some r := by rw [reread, h.flags, if_neg (by decide)]
  rw [compile, hread, Option.bind_some, hreread, Option.bind_some, Pattern.checked] at hsome
  split at hsome
  · rename_i hok
    exact of_decide_eq_true hok.2
  · contradiction

theorem Plain.groups_eq {p : Text} {ts : List Token} {r : Pattern} (h : Plain p ts r) :
    r.groups = ts.countP Token.capturing := by
  obtain ⟨b, hb, -, rfl⟩ := parse_iff.mp h.parses
  simpa using (Builder.run_groups hb).1

theorem parse_of_compiles {p : Text} {ts : List Token} (hscans : Scans .python false p ts [])
    (h : (compile .python p).isSome = true) : (parse ts).isSome = true := by
  cases hparse : parse ts with
  | some r => rfl
  | none =>
    rw [compile, read, (scan_iff (Nat.le_refl p.length)).mpr hscans, Option.bind_some, hparse] at h
    contradiction

theorem compile_join_iff {ps : List Text} (h : Joinable ps) (hne : ps ≠ []) :
    (compile .python (Text.join ['|'] ps)).isSome = true ↔
      (ps.flatMap groupNames).Nodup ∧ (ps.map groupCount).sum ≤ 99 := by
  obtain ⟨ts, hscanned, hjoined⟩ := h.joined hne
  constructor
  · intro hsome
    have hnodup : (ps.flatMap groupNames).Nodup := by
      obtain ⟨R, hparse⟩ := Option.isSome_iff_exists.mp (parse_of_compiles hscanned.scans hsome)
      obtain ⟨b, hb, -, -⟩ := parse_iff.mp hparse
      have hb' := Builder.run_nodup hb List.nodup_nil
      rw [(Builder.run_groups hb).2] at hb'
      simp only [Builder.nameList, List.map_nil, List.append_nil] at hb'
      exact hscanned.names.nodup_iff.mp ((List.reverse_perm _).nodup_iff.mp hb')
    obtain ⟨R, hplain, -⟩ := hjoined hnodup
    have := hplain.compiles_iff.mp hsome
    rw [hplain.groups_eq, hscanned.groups] at this
    exact ⟨hnodup, this⟩
  · rintro ⟨hnodup, hsum⟩
    obtain ⟨R, hplain, -⟩ := hjoined hnodup
    rw [hplain.compiles_iff, hplain.groups_eq, hscanned.groups]
    exact hsum

theorem matchesText_join {ps : List Text} (h : Joinable ps) (hne : ps ≠ [])
    (hnodup : (ps.flatMap groupNames).Nodup) (hsum : (ps.map groupCount).sum ≤ 99) (s : Text) :
    matchesText (Text.join ['|'] ps) s = ps.any fun p => matchesText p s := by
  obtain ⟨ts, hscanned, hjoined⟩ := h.joined hne
  obtain ⟨R, hplain, hsucceeds⟩ := hjoined hnodup
  have hR : compile .python (Text.join ['|'] ps) = some R :=
    hplain.compiles (by rw [hplain.groups_eq, hscanned.groups]; exact hsum)
  rw [Bool.eq_iff_iff, List.any_eq_true]
  simp only [matchesText, hR, Option.any_some, Pattern.found_iff, hsucceeds, Option.any_eq_true]
  constructor
  · rintro ⟨c, hc, p, hp, r, hr, hsucc⟩
    exact ⟨p, hp, r, hr, c, hc, hsucc⟩
  · rintro ⟨p, hp, r, hr, c, hc, hsucc⟩
    exact ⟨c, hc, p, hp, r, hr, hsucc⟩

/-- A pattern that neither disturbs others nor is disturbed by them. -/
structure Inert (p : Text) : Prop where
  compiles : (compile .python p).isSome = true
  setsFlags : setsFlags p = false
  groupCount : groupCount p = 0
  groupNames : groupNames p = []
  usesNumbers : usesNumbers p = false

/-- The list `ps` has inert patterns added to the list `us`. -/
inductive Diluted : List Text → List Text → Prop where
  | nil : Diluted [] []
  | keep (p : Text) : Diluted us ps → Diluted (p :: us) (p :: ps)
  | inert : Inert p → Diluted us ps → Diluted us (p :: ps)

namespace Diluted

variable {us ps : List Text}

theorem mem_cases (h : Diluted us ps) {q : Text} (hq : q ∈ ps) : q ∈ us ∨ Inert q := by
  induction h with
  | nil => contradiction
  | keep p h ih =>
    rcases List.mem_cons.mp hq with rfl | hq
    · exact .inl List.mem_cons_self
    · exact (ih hq).imp_left (List.mem_cons_of_mem p)
  | inert hp h ih =>
    rcases List.mem_cons.mp hq with rfl | hq
    · exact .inr hp
    · exact ih hq

theorem joinable (h : Diluted us ps) (hus : Joinable us) : Joinable ps := by
  induction h with
  | nil => exact hus
  | @keep us ps p h ih =>
    have hps := ih hus.tail
    have hfirst := (List.pairwise_cons.mp hus.numbers).1
    refine ⟨?_, ?_, List.pairwise_cons.mpr ⟨fun q hq => ?_, hps.numbers⟩⟩
    · exact List.forall_mem_cons.mpr ⟨hus.compiles p List.mem_cons_self, hps.compiles⟩
    · exact List.forall_mem_cons.mpr ⟨hus.flags p List.mem_cons_self, hps.flags⟩
    · rcases h.mem_cases hq with hq | hinert
      · exact hfirst q hq
      · exact .inr hinert.usesNumbers
  | inert hp h ih =>
    have hps := ih hus
    exact ⟨List.forall_mem_cons.mpr ⟨hp.compiles, hps.compiles⟩,
      List.forall_mem_cons.mpr ⟨hp.setsFlags, hps.flags⟩,
      List.pairwise_cons.mpr ⟨fun q _ => .inl hp.groupCount, hps.numbers⟩⟩

theorem groupNames (h : Diluted us ps) : ps.flatMap Regex.groupNames = us.flatMap Regex.groupNames := by
  induction h with
  | nil => rfl
  | keep p h ih => rw [List.flatMap_cons, List.flatMap_cons, ih]
  | inert hp h ih => rw [List.flatMap_cons, hp.groupNames, ih, List.nil_append]

theorem groupCount (h : Diluted us ps) :
    (ps.map Regex.groupCount).sum = (us.map Regex.groupCount).sum := by
  induction h with
  | nil => rfl
  | keep p h ih => rw [List.map_cons, List.map_cons, List.sum_cons, List.sum_cons, ih]
  | inert hp h ih => rw [List.map_cons, List.sum_cons, hp.groupCount, ih, Nat.zero_add]

theorem of_inert (h : ∀ p ∈ ps, Inert p) : Diluted [] ps := by
  induction ps with
  | nil => exact .nil
  | cons p ps ih =>
    exact .inert (h p List.mem_cons_self) (ih fun q hq => h q (List.mem_cons_of_mem p hq))

theorem append {vs qs : List Text} (h : Diluted us ps) (h' : Diluted vs qs) :
    Diluted (us ++ vs) (ps ++ qs) := by
  induction h with
  | nil => exact h'
  | keep p h ih => exact .keep p ih
  | inert hp h ih => exact .inert hp ih

end Diluted

end AggregatedLogging.Regex
