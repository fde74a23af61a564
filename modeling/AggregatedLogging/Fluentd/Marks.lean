import AggregatedLogging.Fluentd.ConfigDir

/-! The mark `%OCP_FLUENTD_TAGS%`, which the first start replaces and no later one finds. -/
namespace AggregatedLogging.Fluentd.StartUp

open Calls Shell Overlay

theorem withTags_of_not_infix (tags : Text) {line : Text} (h : ¬ tagsMark <:+: line) :
    withTags tags line = line := by
  induction line with
  | nil => rfl
  | cons c s ih =>
    have hprefix : ¬ tagsMark <+: c :: s := fun hp => h hp.isInfix
    have hrest : ¬ tagsMark <:+: s := fun hi => h (List.infix_cons hi)
    rw [withTags, if_neg hprefix, ih hrest]

def Plain (lines : List Text) : Prop := ∀ line ∈ lines, ¬ tagsMark <:+: line

def Unmarked (d : ConfigDir) : Prop := Entries Plain d

theorem substituted_unmarked (tags : Text) {d : ConfigDir} (h : Unmarked d) :
    substituted tags d = d := by
  funext f
  cases hf : d f with
  | none => rw [substituted, hf, Option.map_none]
  | some lines =>
    have hsame : ∀ line ∈ lines, withTags tags line = line :=
      fun line hline => withTags_of_not_infix tags (h f lines hf line hline)
    rw [substituted, hf, Option.map_some, List.map_congr_left hsame, List.map_id']

theorem plain_nil : Plain [] := fun _ h => absurd h List.not_mem_nil

theorem plain_of_percent {lines : List Text} (h : ∀ line ∈ lines, '%' ∉ line) : Plain lines :=
  fun line hline hi => h line hline (hi.subset List.mem_cons_self)

abbrev Clean (c : Command ConfigDir PUnit) : Prop := Preserves Plain c

theorem clean_yields (r : Except Nat PUnit) : Clean (yields r) := preserves_still r

theorem clean_onlyIf {c : Command ConfigDir PUnit} (b : Bool) (hc : Clean c) :
    Clean (onlyIf b c) := hc.ite (clean_yields (.ok ⟨⟩))

theorem clean_ifLabelled {c d : Command ConfigDir PUnit} (hc : Clean c) (hd : Clean d) :
    Clean (ifLabelled c d) := Preserves.get_bind fun _ => hc.ite hd

theorem clean_copying {p : ConfigDir → ConfigFile → Prop} [∀ d f, Decidable (p d f)]
    {source : ConfigDir → ConfigFile → Option (List Text)}
    {ends : ConfigDir → Except Nat PUnit}
    (h : ∀ d, Unmarked d → ∀ f lines, source d f = some lines → Plain lines) :
    Clean (laying (fun d f => if p d f then .put (source d f) else .keep) ends) := by
  apply preserves_laying
  intro d hd f lines hput hlines
  split at hlines
  · exact h d hd f lines hlines
  · rename_i hnot
    exact absurd (if_neg hnot) hput

theorem clean_cp (s t : ConfigFile) : Clean (cp s t) :=
  clean_copying fun _ hd _ => hd s

theorem clean_cpIfThere (s t : ConfigFile) : Clean (cpIfThere s t) :=
  clean_copying fun _ hd _ => hd s

theorem clean_cpTemplates (templates patterns : List Text) :
    Clean (cpTemplates templates patterns) :=
  clean_copying fun _ hd f => hd ⟨.root, f.name⟩

theorem clean_cpUser (patterns : List Text) : Clean (cpUser patterns) :=
  clean_copying fun _ hd f => hd ⟨.user, f.name⟩

theorem clean_rm (place : Place) (patterns : List Text) : Clean (rm place patterns) :=
  clean_copying fun _ _ _ _ hnone => absurd hnone (Option.some_ne_none _).symm

theorem clean_touch (t : ConfigFile) : Clean (touch t) := by
  apply preserves_laying
  intro d hd f lines _ hlines
  split at hlines
  · cases hf : d f with
    | none =>
      rw [hf] at hlines
      cases hlines
      exact plain_nil
    | some before =>
      rw [hf] at hlines
      cases hlines
      exact hd f _ hf
  · exact hd f lines hlines

theorem clean_empty (name : String) : Clean (empty name) := (clean_rm _ _).bind (clean_touch _)

theorem clean_relabel (patterns : List Text) (enabled : String) :
    Clean (relabel patterns enabled) :=
  (clean_rm _ _).bind (clean_ifLabelled (clean_cp _ _) (clean_yields (.ok ⟨⟩)))

theorem clean_layMux (o : Options) : Clean (layMux o) := by
  apply Preserves.ite
  · apply Preserves.bind (clean_cpTemplates _ _)
    apply Preserves.bind (clean_cpUser _)
    exact (clean_rm _ _).bind (clean_empty _)
  · exact (clean_yields _).bind (clean_rm _ _)

theorem clean_layMuxClient (o : Options) : Clean (layMuxClient o) := by
  apply Preserves.ite
  · apply Preserves.bind
    · apply clean_onlyIf
      exact (clean_cp _ _).bind (clean_ifLabelled (clean_yields (.ok ⟨⟩)) (clean_cp _ _))
    · apply Preserves.bind (clean_cp _ _)
      exact (clean_cpIfThere _ _).bind (clean_onlyIf _ (clean_cp _ _))
  · exact clean_rm _ _

theorem clean_layOutputs (o : Options) : Clean (layOutputs o) := by
  apply Preserves.ite
  · exact (clean_relabel _ _).bind (clean_cp _ _)
  · apply Preserves.ite
    · exact (clean_empty _).bind (clean_relabel _ _)
    · exact (clean_cp _ _).bind ((clean_cp _ _).bind (clean_relabel _ _))

theorem clean_layAgent (b : Bool) (name : String) : Clean (layAgent b name) := by
  apply Preserves.ite
  · exact (clean_cp _ _).bind (clean_cpIfThere _ _)
  · exact clean_rm _ _

theorem clean_layEvents (o : Options) : Clean (layEvents o) := by
  have hnoEvents : Plain [noEvents] := plain_of_percent (by decide)
  apply clean_onlyIf
  apply preserves_rewriting
  intro lines hlines line hline
  obtain ⟨old, hold, hnew⟩ := List.mem_flatMap.mp hline
  split at hnew
  · simp only [List.mem_cons, List.not_mem_nil, or_false] at hnew
    rcases hnew with rfl | rfl
    · exact hlines _ hold
    · exact hnoEvents _ List.mem_cons_self
  · obtain rfl := List.mem_singleton.mp hnew
    exact hlines _ hold

theorem clean_layAudit (o : Options) : Clean (layAudit o) := by
  apply Preserves.ite
  · exact (clean_cp _ _).bind (clean_cp _ _)
  · exact (clean_touch _).bind (clean_touch _)

theorem clean_layFilters (o : Options) : Clean (layFilters o) := by
  apply Preserves.bind (clean_onlyIf _ (clean_empty _))
  exact (clean_onlyIf _ (clean_empty _)).bind (clean_onlyIf _ (clean_rm _ _))

theorem clean_layOut (bc : Text → Option Text) (o : Options) : Clean (layOut bc o) := by
  apply Preserves.bind (clean_layMux o)
  apply Preserves.bind (clean_layMuxClient o)
  apply Preserves.bind (clean_yields _)
  apply Preserves.bind (clean_layOutputs o)
  apply Preserves.bind (clean_yields _)
  apply Preserves.bind (clean_layAgent _ _)
  apply Preserves.bind (clean_layAgent _ _)
  apply Preserves.bind (clean_yields _)
  apply Preserves.bind (clean_layEvents o)
  exact (clean_layAudit o).bind (clean_layFilters o)

theorem run_start (bc : Text → Option Text) (o : Options) (d : ConfigDir) :
    run (start bc o) d = run (layOut bc o) (substituted o.tags d) := rfl

theorem run_start_unmarked (bc : Text → Option Text) (o : Options) {d : ConfigDir}
    (h : Unmarked d) : run (start bc o) d = run (layOut bc o) d := by
  rw [run_start, substituted_unmarked o.tags h]

/-- The directory as `sed` leaves it in the first of the starts. -/
def prepared (os : List Options) (d : ConfigDir) : ConfigDir :=
  match os with
  | [] => d
  | o :: _ => substituted o.tags d

end AggregatedLogging.Fluentd.StartUp
