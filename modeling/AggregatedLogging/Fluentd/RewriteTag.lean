import AggregatedLogging.Glob.Pattern
import AggregatedLogging.Regex.Fields

/-! Sections that match records by tag, and the plugin `rewrite_tag_filter`,
which gives a record a new tag by the text of one of its fields. -/
namespace AggregatedLogging.Fluentd

open Glob Regex

/-- The fields of a record as texts; a field that is missing is empty. -/
abbrev Record := Text → Text

structure Rule where
  key : Text
  pattern : Text
  tag : Text
  invert : Bool
  deriving DecidableEq, Repr

def expand (tag : Text) (group : Nat → Text) : Text → Text
  | '$' :: '{' :: 't' :: 'a' :: 'g' :: '}' :: s => tag ++ expand tag group s
  | '$' :: d :: s =>
    if d.isDigit then group (d.toNat - '0'.toNat) ++ expand tag group s
    else '$' :: expand tag group (d :: s)
  | c :: s => c :: expand tag group s
  | [] => []

theorem expand_cons {c : Char} (hc : c ≠ '$') (tag : Text) (group : Nat → Text) (s : Text) :
    expand tag group (c :: s) = c :: expand tag group s := by
  rw [expand.eq_def]
  split
  · rename_i h
    exact absurd (List.cons.inj h).1 hc
  · rename_i h
    exact absurd (List.cons.inj h).1 hc
  · rename_i h
    cases h
    rfl
  · contradiction

theorem expand_one (tag : Text) (group : Nat → Text) (s : Text) :
    expand tag group ('$' :: '1' :: s) = group 1 ++ expand tag group s := rfl

theorem expand_append {w : Text} (hw : '$' ∉ w) (tag : Text) (group : Nat → Text) (s : Text) :
    expand tag group (w ++ s) = w ++ expand tag group s := by
  induction w with
  | nil => rfl
  | cons c w ih =>
    rw [List.mem_cons, not_or] at hw
    rw [List.cons_append, expand_cons (Ne.symm hw.1), ih hw.2]
    rfl

theorem expand_plain {s : Text} (hs : '$' ∉ s) (tag : Text) (group : Nat → Text) :
    expand tag group s = s := by
  have happend := expand_append hs tag group []
  rwa [List.append_nil, expand, List.append_nil] at happend

theorem expand_group {w s : Text} (hw : '$' ∉ w) (hs : '$' ∉ s) (tag : Text)
    (group : Nat → Text) : expand tag group (w ++ '$' :: '1' :: s) = w ++ (group 1 ++ s) := by
  rw [expand_append hw, expand_one, expand_plain hs]

def Rule.search (r : Rule) (value : Text) : Option Match :=
  (compile .ruby r.pattern).bind fun p => p.search value

/-- An empty field matches no rule that is not inverted. -/
def Rule.retag (r : Rule) (tag : Text) (record : Record) : Option Text :=
  if r.invert then
    match r.search (record r.key) with
    | none => some (expand tag (fun _ => []) r.tag)
    | some _ => none
  else if record r.key = [] then none
  else (r.search (record r.key)).map fun m => expand tag (fun i => (m.group i).getD []) r.tag

def rewriteTag (rules : List Rule) (tag : Text) (record : Record) : Option Text :=
  rules.findSome? fun r => r.retag tag record

def firstMatch (sections : List (List Text × β)) (tag : Text) : Option β :=
  (sections.find? fun s => matchesAny s.1 tag).map Prod.snd

theorem rewriteTag_cons (r : Rule) (rules : List Rule) (tag : Text) (record : Record) :
    rewriteTag (r :: rules) tag record = (r.retag tag record).or (rewriteTag rules tag record) := by
  unfold rewriteTag
  rw [List.findSome?_cons]
  cases r.retag tag record <;> rfl

theorem firstMatch_cons (patterns : List Text) (b : β) (sections : List (List Text × β))
    (tag : Text) :
    firstMatch ((patterns, b) :: sections) tag =
      if matchesAny patterns tag then some b else firstMatch sections tag := by
  unfold firstMatch
  rw [List.find?_cons]
  cases matchesAny patterns tag <;> simp

/-- A rule and its inversion with one fixed tag leave no record out, when the
pattern does not match an empty field. -/
theorem rewriteTag_both {key pattern new : Text} (hnew : ∀ tag group, expand tag group new = new)
    (hempty : ((compile .ruby pattern).bind fun p => p.search []) = none) (tag : Text)
    (record : Record) :
    rewriteTag [⟨key, pattern, new, false⟩, ⟨key, pattern, new, true⟩] tag record = some new := by
  rw [rewriteTag_cons, rewriteTag_cons]
  simp only [Rule.retag, Bool.false_eq_true, ↓reduceIte, hnew, Rule.search]
  cases hsearch : (compile .ruby pattern).bind fun p => p.search (record key) with
  | none => split <;> rfl
  | some m =>
    have hne : record key ≠ [] := by
      intro hkey
      rw [hkey, hempty] at hsearch
      contradiction
    rw [if_neg hne]
    rfl

theorem Rule.retag_anchored {r : Rule} {node : Node} {groups : Nat} {names : List (Text × Nat)}
    (hr : compile .ruby r.pattern =
      some ⟨.seq (.atom (.at .lineStart)) node, groups, names, Dialect.ruby.flags⟩)
    (hinvert : r.invert = false) {record : Record} (hne : record r.key ≠ [])
    (hline : '\n' ∉ record r.key) (tag : Text) :
    r.retag tag record =
      (node.run Dialect.ruby.flags (.start (record r.key))).head?.map fun t =>
        expand tag (fun i => ((Match.mk (.start (record r.key)) t).group i).getD []) r.tag := by
  rw [Rule.retag, if_neg (by rw [hinvert]; exact Bool.false_ne_true), if_neg hne, Rule.search, hr,
    Option.bind_some, search_anchored rfl hline, Option.map_map]
  rfl

end AggregatedLogging.Fluentd
