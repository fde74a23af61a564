import AggregatedLogging.Throttle.Runs

/-! What values of the throttle file reach the generated sources. -/
namespace AggregatedLogging.Throttle

open Python (Dict Key Order)

/-- A property of the world behind a computation, which may have stopped. -/
def Leaves (P : World → Prop) (f : α → World) : Except Stopped α → Prop
  | .ok a => P (f a)
  | .error s => P s.world

namespace Leaves

variable {P : World → Prop} {α β : Type} {f : α → World} {g : β → World}

theorem bind {x : Except Stopped α} {k : α → Except Stopped β} (hx : Leaves P f x)
    (hk : ∀ a, P (f a) → Leaves P g (k a)) : Leaves P g (x >>= k) := by
  cases x with
  | error s => exact hx
  | ok a => exact hk a hx

theorem map {x : Except Stopped α} {k : α → β} (hx : Leaves P f x)
    (hk : ∀ a, P (f a) → P (g (k a))) : Leaves P g (x.map k) := by
  cases x with
  | error s => exact hx
  | ok a => exact hk a hx

theorem foldlM {l : List β} {step : α → β → Except Stopped α}
    (hstep : ∀ a, ∀ b ∈ l, P (f a) → Leaves P f (step a b)) {a : α} (ha : P (f a)) :
    Leaves P f (l.foldlM step a) := by
  induction l generalizing a with
  | nil => exact ha
  | cons b l ih =>
    rw [List.foldlM_cons]
    exact (hstep a b List.mem_cons_self ha).bind fun c hc =>
      ih (fun d e he => hstep d e (List.mem_cons_of_mem b he)) hc

end Leaves

def Document.accepted (d : Document) : List Setting := (throttled d.parsed).flatMap Prod.snd

def World.Writes (w : World) (s : Setting) : Prop :=
  ∃ file pieces, w.pieces file = some pieces ∧ Piece.setting s ∈ pieces

def World.Only (known : Setting → Prop) (w : World) : Prop := ∀ s, w.Writes s → known s

section Only

variable {env : Env} {clock : Nat → Day} {known : Setting → Prop}

theorem only_put {w : World} (h : w.Only known) {file : Text} {pieces : List Piece}
    (hpieces : ∀ s, Piece.setting s ∈ pieces → known s) : (w.put file pieces).Only known := by
  rintro s ⟨other, found, hfound, hs⟩
  rw [pieces_put] at hfound
  split at hfound
  · obtain rfl := Option.some.inj hfound
    exact hpieces s hs
  · exact h s ⟨other, found, hfound, hs⟩

theorem only_append {w : World} (h : w.Only known) (file : Text) {p : Piece}
    (hp : ∀ s, p = .setting s → known s) : (w.append file p).Only known := by
  refine only_put h fun s hs => ?_
  rcases List.mem_append.mp hs with hs | hs
  · cases hfile : w.pieces file with
    | none =>
      rw [hfile] at hs
      contradiction
    | some pieces =>
      rw [hfile] at hs
      exact h s ⟨file, pieces, hfile, hs⟩
  · exact hp s (List.mem_singleton.mp hs).symm

theorem only_move {w : World} (h : w.Only known) (sourceFile destFile project : Text) :
    Leaves (World.Only known) id (w.move sourceFile destFile project) := by
  unfold World.move
  cases movePosFileProjectEntry w.positions sourceFile destFile project with
  | none => exact h
  | some positions => exact h

theorem only_seedFile {w : World} (h : w.Only known) (file project : Text) :
    Leaves (World.Only known) id (seedFile env file project w) := by
  have hseeded : (w.put file
      [.header project (seedPath env project) (seedPosFile env project)]).Only known := by
    refine only_put h fun s hs => ?_
    rw [List.mem_singleton] at hs
    contradiction
  unfold seedFile
  by_cases hopens : opensFile project = true
  · rw [if_pos hopens]
    simp only
    split
    · exact Leaves.foldlM (fun w p _ hw => only_move hw _ _ _) hseeded
    · exact only_move hseeded _ _ _
  · rw [if_neg hopens]
    exact h

theorem only_writeToFile {w : World} (h : w.Only known) (project : Text) {s : Setting}
    (hs : known s) : Leaves (World.Only known) id (writeToFile env clock project s w) := by
  have happend (w : World) (h : w.Only known) (file : Text) :
      (w.append file (.setting s)).Only known := by
    refine only_append h file fun t ht => ?_
    rw [← Piece.setting.inj ht]
    exact hs
  unfold writeToFile
  simp only
  split
  · exact happend _ h _
  · split
    · exact h
    · exact (only_seedFile (w := w.tick) h _ project).map fun w hw => happend w hw _

theorem only_closeFile {w : World} (h : w.Only known) (project : Text) :
    (closeFile env clock project w).Only known := by
  unfold closeFile
  simp only
  split
  · exact only_append (w := w.tick) h _ fun s hs => by contradiction
  · exact h

theorem only_throttleProject {l : Progress} (h : l.world.Only known) {p : Text × List Setting}
    (hp : ∀ s ∈ p.2, known s) :
    Leaves (World.Only known) Progress.world (throttleProject env clock l p) := by
  have hwrites : Leaves (World.Only known) id
      (p.2.foldlM (fun w s => writeToFile env clock p.1 s w) l.world) :=
    Leaves.foldlM (fun _ s hs hw => only_writeToFile hw p.1 (hp s hs)) h
  exact hwrites.map fun w hw => only_closeFile hw p.1

theorem only_revertThrottle {w : World} (h : w.Only known) (o : Order) :
    Leaves (World.Only known) id (revertThrottle env o w) :=
  Leaves.foldlM (fun _ _ _ hw => only_move hw _ _ _) h

theorem run_only (o : Order) {d : Document} (hd : ∀ s ∈ d.accepted, known s) {w : World}
    (h : w.Only known) : Leaves (World.Only known) id (run env clock o d w) := by
  have hloop : Leaves (World.Only known) Progress.world
      (d.parsed.entries.foldlM (evaluateProject env clock) ⟨w, [], false⟩) := by
    rw [foldlM_evaluateProject]
    exact Leaves.foldlM (f := Progress.world) (fun l p hp hl => only_throttleProject hl
      fun s hs => hd s (List.mem_flatMap.mpr ⟨p, hp, hs⟩)) h
  refine hloop.bind fun l hl => ?_
  apply Leaves.bind (f := id)
  · unfold Progress.settled
    split
    · exact hl
    · exact only_revertThrottle hl o
  · intro w hw
    exact hw

end Only

theorem mem_accepted {d : Document} {s : Setting} (hs : s ∈ d.accepted) :
    s.key = readLinesLimit ∧ SettingType.number.accepts s.value = true := by
  obtain ⟨p, hp, hs⟩ := List.mem_flatMap.mp hs
  obtain ⟨settings, -, haccepted, -⟩ := mem_throttled.mp hp
  rw [← haccepted] at hs
  obtain ⟨hkey, hvalue, -⟩ := mem_acceptedOf.mp hs
  exact ⟨hkey, hvalue⟩

theorem isLimitLine_iff {d : Document} {s : Setting} (hs : s ∈ d.accepted) :
    IsLimitLine s.text ↔ '\n' ∉ s.value := by
  constructor
  · intro h hbreak
    exact not_limitLine hbreak h
  · intro hline
    obtain ⟨hkey, haccepts⟩ := mem_accepted hs
    exact ⟨s.value, (accepts_line hline).mp haccepts, by rw [Setting.text, hkey]⟩

/-- The settings that a run writes are accepted ones or stood in the files before.
The lines of the accepted ones set the limit to a positive number, and do nothing
else, exactly when no value has a line break; positive numbers are accepted. -/
theorem settings_clean_iff (env : Env) (clock : Nat → Day) (o : Order) (d : Document) (w : World) :
    Leaves (fun w' => ∀ s, w'.Writes s → w.Writes s ∨ s ∈ d.accepted) id (run env clock o d w) ∧
    ((∀ s ∈ d.accepted, IsLimitLine (Piece.setting s).text) ↔ ∀ s ∈ d.accepted, '\n' ∉ s.value) ∧
    ∀ v : Value, (∃ n : Int, 0 < n ∧ v = .int n) ∨ IsPositive v.toS →
      validate (Key.str readLinesLimit) v = true := by
  refine ⟨run_only o (fun s hs => .inr hs) fun s hs => .inl hs, ?_, ?_⟩
  · have htext (s : Setting) : (Piece.setting s).text = s.text := List.append_nil s.text
    simp only [htext]
    exact forall₂_congr fun s hs => isLimitLine_iff hs
  · rintro v (⟨n, hn, rfl⟩ | hv)
    · exact validate_eq_true.mpr ⟨rfl, accepts_int hn⟩
    · have hline : '\n' ∉ v.toS := by
        intro h
        exact absurd (List.all_eq_true.mp hv.2.1 '\n' h) (by decide)
      exact validate_eq_true.mpr ⟨rfl, (accepts_line hline).mpr hv⟩

/-- A value whose first line is a number, with a source of its own behind it. -/
def forgedLimit : Text := "5\n</source>\n<source>\n  @type exec".toList

def forgedDocument : Document :=
  .pairs [(Key.str "web".toList,
    .hash (Dict.ofList [(Key.str readLinesLimit, .other forgedLimit)]))]

theorem settings_forged : ¬ ∀ s ∈ forgedDocument.accepted, IsLimitLine (Piece.setting s).text := by
  intro hall
  have hmem : (⟨readLinesLimit, forgedLimit⟩ : Setting) ∈ forgedDocument.accepted := by
    decide +kernel
  have hline := hall _ hmem
  exact not_limitLine (s := ⟨readLinesLimit, forgedLimit⟩) (by decide)
    (by simpa [Piece.text, Piece.lines] using hline)

end AggregatedLogging.Throttle
