import AggregatedLogging.Calls
import Mathlib.Logic.Function.Iterate

/-! Calls that lay entries over a partial map: what is laid under a key depends on
entries that no call touches.  Laying them again then changes nothing. -/
namespace AggregatedLogging.Overlay

open Calls

inductive Patch (α : Type) where
  | keep
  | put (entry : Option α)
  | default (v : α)

namespace Patch

variable {α : Type}

def apply : Patch α → Option α → Option α
  | keep, e => e
  | put entry, _ => entry
  | default v, e => some (e.getD v)

def andThen : Patch α → Patch α → Patch α
  | p, keep => p
  | _, put entry => put entry
  | keep, default v => default v
  | put entry, default v => put (some (entry.getD v))
  | default w, default _ => default w

theorem apply_andThen (p q : Patch α) (e : Option α) :
    (p.andThen q).apply e = q.apply (p.apply e) := by
  cases p <;> cases q <;> rfl

theorem apply_again (p : Patch α) (e : Option α) : p.apply (p.apply e) = p.apply e := by
  cases p <;> rfl

end Patch

variable {K α ε : Type}

/-- The patches are laid; the call ends as the map before them tells. -/
def laying (patch : (K → Option α) → K → Patch α) (ends : (K → Option α) → Except ε PUnit) :
    Call (K → Option α) ε PUnit :=
  fun m => (ends m, fun k => (patch m k).apply (m k))

def rewriting [DecidableEq K] (k : K) (f : α → α) (missing : ε) : Call (K → Option α) ε PUnit :=
  fun m => (if (m k).isSome then .ok ⟨⟩ else .error missing,
    fun k' => if k' = k then (m k).map f else m k')

section Runs

variable {c : Call (K → Option α) ε PUnit} {d : PUnit → Call (K → Option α) ε PUnit}
  {m : K → Option α}

theorem run_then :
    run (c >>= d) m = if (run c m).1.isOk then run (d ⟨⟩) (run c m).2 else run c m := by
  rcases hrun : run c m with ⟨e | a, t⟩
  · rw [run_bind_error hrun]
    rfl
  · rw [run_bind_ok hrun]
    rfl

end Runs

section Keeps

/-- However the call ends, the entry under `k` is what it was. -/
def Keeps (k : K) (c : Call (K → Option α) ε PUnit) : Prop := ∀ m, (run c m).2 k = m k

variable {k : K} {c d : Call (K → Option α) ε PUnit} {e : PUnit → Call (K → Option α) ε PUnit}

theorem keeps_still (r : Except ε PUnit) :
    Keeps k (fun m => (r, m) : Call (K → Option α) ε PUnit) := fun _ => rfl

theorem Keeps.bind (hc : Keeps k c) (he : Keeps k (e ⟨⟩)) : Keeps k (c >>= e) := by
  intro m
  rw [run_then]
  split
  · rw [he, hc]
  · exact hc m

theorem Keeps.get_bind {f : (K → Option α) → Call (K → Option α) ε PUnit}
    (h : ∀ m, Keeps k (f m)) : Keeps k (get >>= f) := fun m => h m m

theorem Keeps.ite {p : Prop} [Decidable p] (hc : Keeps k c) (hd : Keeps k d) :
    Keeps k (if p then c else d) := by
  split
  · exact hc
  · exact hd

theorem keeps_laying {patch : (K → Option α) → K → Patch α}
    {ends : (K → Option α) → Except ε PUnit} (h : ∀ m, patch m k = .keep) :
    Keeps k (laying patch ends) := by
  intro m
  change (patch m k).apply (m k) = m k
  rw [h m]
  rfl

theorem keeps_rewriting [DecidableEq K] {k' : K} {f : α → α} {missing : ε} (h : k ≠ k') :
    Keeps k (rewriting k' f missing) := fun _ => if_neg h

end Keeps

section Gives

/-- When the call does not raise, the entry under `k` is the one that `φ` reads off the map
before it. -/
def Gives (k : K) (φ : (K → Option α) → Option α) (c : Call (K → Option α) ε PUnit) : Prop :=
  ∀ m, (run c m).1.isOk = true → (run c m).2 k = φ m

def Stays (k : K) (entry : Option α) (c : Call (K → Option α) ε PUnit) : Prop :=
  ∀ m, m k = entry → (run c m).2 k = entry

variable {k : K} {φ : (K → Option α) → Option α} {entry : Option α}
  {c d : Call (K → Option α) ε PUnit} {e : PUnit → Call (K → Option α) ε PUnit}

theorem run_then_ok {m : K → Option α} (h : (run (c >>= e) m).1.isOk = true) :
    (run c m).1.isOk = true ∧ run (c >>= e) m = run (e ⟨⟩) (run c m).2 := by
  rw [run_then] at h ⊢
  split at h
  · rename_i hc
    exact ⟨hc, if_pos hc⟩
  · contradiction

theorem Gives.bind_keeps (hc : Gives k φ c) (he : Keeps k (e ⟨⟩)) : Gives k φ (c >>= e) := by
  intro m h
  obtain ⟨hok, hrun⟩ := run_then_ok h
  rw [hrun, he, hc m hok]

theorem Gives.after (hc : ∀ m, φ (run c m).2 = φ m) (he : Gives k φ (e ⟨⟩)) :
    Gives k φ (c >>= e) := by
  intro m h
  obtain ⟨-, hrun⟩ := run_then_ok h
  rw [hrun] at h ⊢
  rw [he _ h, hc]

theorem Keeps.stays (hc : Keeps k c) : Stays k entry c := fun m hm => (hc m).trans hm

theorem Stays.bind (hc : Stays k entry c) (he : Stays k entry (e ⟨⟩)) :
    Stays k entry (c >>= e) := by
  intro m hm
  rw [run_then]
  split
  · exact he _ (hc m hm)
  · exact hc m hm

theorem Stays.ite {p : Prop} [Decidable p] (hc : Stays k entry c) (hd : Stays k entry d) :
    Stays k entry (if p then c else d) := by
  split
  · exact hc
  · exact hd

end Gives

@[simp] theorem run_rewriting [DecidableEq K] (k : K) (f : α → α) (missing : ε)
    (m : K → Option α) : (run (rewriting k f missing) m).2 k = (m k).map f := if_pos rfl

section Switches

/-- With the switch off the call puts the entry under `k`, and else it leaves what is there. -/
structure Switches (k : K) (off : Bool) (entry : Option α) (c : Call (K → Option α) ε PUnit) :
    Prop where
  keeps : off = false → Keeps k c
  gives : off = true → Gives k (fun _ => entry) c
  stays : Stays k entry c

variable {k : K} {off off' : Bool} {entry : Option α} {c : Call (K → Option α) ε PUnit}
  {e : PUnit → Call (K → Option α) ε PUnit}

theorem Keeps.switches (hc : Keeps k c) : Switches k false entry c where
  keeps _ := hc
  gives h := absurd h Bool.false_ne_true
  stays := hc.stays

theorem Switches.bind (hc : Switches k off entry c) (he : Switches k off' entry (e ⟨⟩)) :
    Switches k (off || off') entry (c >>= e) where
  keeps h := by
    obtain ⟨h, h'⟩ := Bool.or_eq_false_iff.mp h
    exact (hc.keeps h).bind (he.keeps h')
  gives h := by
    cases off' with
    | false => exact (hc.gives (by rwa [Bool.or_false] at h)).bind_keeps (he.keeps rfl)
    | true => exact Gives.after (fun _ => rfl) (he.gives rfl)
  stays := hc.stays.bind he.stays

theorem Switches.bind_keeps (hc : Switches k off entry c) (he : Keeps k (e ⟨⟩)) :
    Switches k off entry (c >>= e) := by
  have h := hc.bind he.switches
  rwa [Bool.or_false] at h

theorem Keeps.bind_switches (hc : Keeps k c) (he : Switches k off entry (e ⟨⟩)) :
    Switches k off entry (c >>= e) :=
  hc.switches.bind he

end Switches

section Entries

def Entries (P : α → Prop) (m : K → Option α) : Prop := ∀ k v, m k = some v → P v

def Preserves (P : α → Prop) (c : Call (K → Option α) ε PUnit) : Prop :=
  ∀ m, Entries P m → Entries P (run c m).2

variable {P : α → Prop} {c d : Call (K → Option α) ε PUnit}
  {e : PUnit → Call (K → Option α) ε PUnit}

theorem preserves_still (r : Except ε PUnit) :
    Preserves P (fun m => (r, m) : Call (K → Option α) ε PUnit) := fun _ h => h

theorem Preserves.bind (hc : Preserves P c) (he : Preserves P (e ⟨⟩)) :
    Preserves P (c >>= e) := by
  intro m hm
  rw [run_then]
  split
  · exact he _ (hc m hm)
  · exact hc m hm

theorem Preserves.get_bind {f : (K → Option α) → Call (K → Option α) ε PUnit}
    (h : ∀ m, Preserves P (f m)) : Preserves P (get >>= f) := fun m => h m m

theorem Preserves.ite {p : Prop} [Decidable p] (hc : Preserves P c) (hd : Preserves P d) :
    Preserves P (if p then c else d) := by
  split
  · exact hc
  · exact hd

/-- Where a patch puts something, that is an entry of the map or has the property itself. -/
theorem preserves_laying {patch : (K → Option α) → K → Patch α}
    {ends : (K → Option α) → Except ε PUnit}
    (h : ∀ m, Entries P m → ∀ k v, patch m k ≠ .keep → (patch m k).apply (m k) = some v → P v) :
    Preserves P (laying patch ends) := by
  intro m hm k v hv
  change (patch m k).apply (m k) = some v at hv
  by_cases hkeep : patch m k = .keep
  · rw [hkeep] at hv
    exact hm k v hv
  · exact h m hm k v hkeep hv

theorem preserves_rewriting [DecidableEq K] {k : K} {f : α → α} {missing : ε}
    (h : ∀ v, P v → P (f v)) : Preserves P (rewriting k f missing) := by
  intro m hm k' v hv
  change (if k' = k then (m k).map f else m k') = some v at hv
  split at hv
  · obtain ⟨w, hw, rfl⟩ := Option.map_eq_some_iff.mp hv
    exact h w (hm k w hw)
  · exact hm k' v hv

end Entries

section Maps

variable (source free : K → Prop)

/-- Two maps with the same sources, and with entries under the same free keys. -/
structure Agree (m m' : K → Option α) : Prop where
  same : ∀ k, source k → m k = m' k
  there : ∀ k, free k → (m k).isSome = (m' k).isSome

/-- A call that patches all entries but the free ones, by the sources. -/
structure LaysBy (c : Call (K → Option α) ε PUnit) (patch : (K → Option α) → K → Patch α) :
    Prop where
  congr : ∀ {m m'}, Agree source free m m' → patch m = patch m'
  ends : ∀ {m m'}, Agree source free m m' → (run c m).1 = (run c m').1
  kept : ∀ m k, source k → patch m k = .keep
  patched : ∀ m k, ¬ free k → (run c m).2 k = (patch m k).apply (m k)
  there : ∀ m k, free k → ((run c m).2 k).isSome = (m k).isSome

def Lays (c : Call (K → Option α) ε PUnit) : Prop := ∃ patch, LaysBy source free c patch

variable {source free} {c d : Call (K → Option α) ε PUnit}
  {e : PUnit → Call (K → Option α) ε PUnit} {patch : (K → Option α) → K → Patch α}

theorem LaysBy.agree (hfree : ∀ k, source k → ¬ free k) (h : LaysBy source free c patch)
    (m : K → Option α) : Agree source free m (run c m).2 where
  same k hk := by
    rw [h.patched m k (hfree k hk), h.kept m k hk]
    rfl
  there k hk := (h.there m k hk).symm

theorem Agree.trans {m m' m'' : K → Option α} (h : Agree source free m m')
    (h' : Agree source free m' m'') : Agree source free m m'' where
  same k hk := (h.same k hk).trans (h'.same k hk)
  there k hk := (h.there k hk).trans (h'.there k hk)

theorem Agree.symm {m m' : K → Option α} (h : Agree source free m m') :
    Agree source free m' m where
  same k hk := (h.same k hk).symm
  there k hk := (h.there k hk).symm

theorem lays_still (r : Except ε PUnit) :
    Lays source free (fun m => (r, m) : Call (K → Option α) ε PUnit) :=
  ⟨fun _ _ => .keep, fun _ => rfl, fun _ => rfl, fun _ _ _ => rfl, fun _ _ _ => rfl,
    fun _ _ _ => rfl⟩

theorem Lays.bind (hfree : ∀ k, source k → ¬ free k) (hc : Lays source free c)
    (he : Lays source free (e ⟨⟩)) : Lays source free (c >>= e) := by
  obtain ⟨p, hc⟩ := hc
  obtain ⟨q, he⟩ := he
  refine ⟨fun m k => if (run c m).1.isOk then (p m k).andThen (q m k) else p m k, ?_⟩
  have hbehind (m : K → Option α) : q (run c m).2 = q m := he.congr (hc.agree hfree m).symm
  constructor
  · intro m m' h
    rw [hc.congr h, he.congr h, hc.ends h]
  · intro m m' h
    rw [run_then, run_then, hc.ends h]
    split
    · exact he.ends ((hc.agree hfree m).symm.trans (h.trans (hc.agree hfree m')))
    · exact hc.ends h
  · intro m k hk
    rw [hc.kept m k hk, he.kept m k hk]
    exact ite_self _
  · intro m k hk
    rw [run_then]
    split
    · rw [he.patched _ k hk, hc.patched m k hk, Patch.apply_andThen, hbehind]
    · exact hc.patched m k hk
  · intro m k hk
    rw [run_then]
    split
    · rw [he.there _ k hk, hc.there m k hk]
    · exact hc.there m k hk

theorem Lays.get_ite {p : (K → Option α) → Bool}
    (hp : ∀ {m m'}, Agree source free m m' → p m = p m') (hc : Lays source free c)
    (hd : Lays source free d) : Lays source free (get >>= fun m => if p m then c else d) := by
  obtain ⟨q, hc⟩ := hc
  obtain ⟨r, hd⟩ := hd
  have hrun (m : K → Option α) : run (get >>= fun m => if p m then c else d) m =
      if p m then run c m else run d m := by
    change run (if p m then c else d) m = _
    split <;> rfl
  refine ⟨fun m => if p m then q m else r m, ?_⟩
  constructor
  · intro m m' h
    rw [hp h, hc.congr h, hd.congr h]
  · intro m m' h
    rw [hrun, hrun, hp h]
    split
    · exact hc.ends h
    · exact hd.ends h
  · intro m k hk
    split
    · exact hc.kept m k hk
    · exact hd.kept m k hk
  · intro m k hk
    rw [hrun]
    split
    · exact hc.patched m k hk
    · exact hd.patched m k hk
  · intro m k hk
    rw [hrun]
    split
    · exact hc.there m k hk
    · exact hd.there m k hk

theorem Lays.ite {p : Prop} [Decidable p] (hc : Lays source free c) (hd : Lays source free d) :
    Lays source free (if p then c else d) := by
  split
  · exact hc
  · exact hd

theorem lays_laying {patch : (K → Option α) → K → Patch α}
    {ends : (K → Option α) → Except ε PUnit}
    (hcongr : ∀ {m m'}, Agree source free m m' → patch m = patch m')
    (hends : ∀ {m m'}, Agree source free m m' → ends m = ends m')
    (hsource : ∀ m k, source k → patch m k = .keep) (hkept : ∀ m k, free k → patch m k = .keep) :
    Lays source free (laying patch ends) := by
  refine ⟨patch, hcongr, hends, hsource, fun _ _ _ => rfl, ?_⟩
  intro m k hk
  rw [keeps_laying fun m => hkept m k hk]

theorem lays_rewriting [DecidableEq K] {k : K} {f : α → α} {missing : ε} (hk : free k) :
    Lays source free (rewriting k f missing) := by
  refine ⟨fun _ _ => .keep, fun _ => rfl, ?_, fun _ _ _ => rfl, ?_, ?_⟩
  · intro m m' h
    change (if (m k).isSome then _ else _) = if (m' k).isSome then _ else _
    rw [h.there k hk]
  · intro m k' hk'
    have hne : k' ≠ k := fun h => hk' (h ▸ hk)
    exact keeps_rewriting hne m
  · intro m k' _
    change (if k' = k then (m k).map f else m k').isSome = _
    split
    · rename_i h
      rw [Option.isSome_map, h]
    · rfl

/-- A second time the call ends as before, and leaves all entries but the free
ones as they are. -/
theorem Lays.again (hfree : ∀ k, source k → ¬ free k) (h : Lays source free c)
    (m : K → Option α) : (run c (run c m).2).1 = (run c m).1 ∧
      ∀ k, ¬ free k → (run c (run c m).2).2 k = (run c m).2 k := by
  obtain ⟨patch, h⟩ := h
  have hagree := h.agree hfree m
  refine ⟨(h.ends hagree).symm, fun k hk => ?_⟩
  rw [h.patched _ k hk, h.patched m k hk, ← h.congr hagree, Patch.apply_again]

/-- A call ends behind another one as it would have in its place. -/
theorem Lays.ends_behind (hfree : ∀ k, source k → ¬ free k) (hc : Lays source free c)
    (hd : Lays source free d) (m : K → Option α) : (run d (run c m).2).1 = (run d m).1 := by
  obtain ⟨p, hc⟩ := hc
  obtain ⟨q, hd⟩ := hd
  exact (hd.ends (hc.agree hfree m)).symm

theorem Lays.keeps_source (hfree : ∀ k, source k → ¬ free k) (h : Lays source free c) {k : K}
    (hk : source k) : Keeps k c := by
  obtain ⟨patch, h⟩ := h
  exact fun m => ((h.agree hfree m).same k hk).symm

theorem Lays.iterate (hfree : ∀ k, source k → ¬ free k) (h : Lays source free c)
    (m : K → Option α) (n : Nat) :
    (run c ((fun m => (run c m).2)^[n] m)).1 = (run c m).1 ∧
      ∀ k, ¬ free k → (fun m => (run c m).2)^[n + 1] m k = (run c m).2 k := by
  induction n with
  | zero => exact ⟨rfl, fun _ _ => rfl⟩
  | succ n ih =>
    have hagain := h.again hfree ((fun m => (run c m).2)^[n] m)
    rw [← Function.iterate_succ_apply' (fun m => (run c m).2)] at hagain
    refine ⟨hagain.1.trans ih.1, fun k hk => ?_⟩
    rw [Function.iterate_succ_apply' (fun m => (run c m).2)]
    exact (hagain.2 k hk).trans (ih.2 k hk)

end Maps

end AggregatedLogging.Overlay
