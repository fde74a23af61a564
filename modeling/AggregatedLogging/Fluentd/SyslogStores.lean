import AggregatedLogging.Ruby.Hash
import AggregatedLogging.Lines
import Mathlib.Data.List.Nodup

/-! The generated configuration of the remote syslog outputs, one store for each host. -/
namespace AggregatedLogging.Fluentd

open Ruby

abbrev Environment := List (Text × Text)

def syslogPrefix : Text := "REMOTE_SYSLOG_".toList

def hostGroup : Text := syslogPrefix ++ "HOST".toList

/-- A variable without its suffix, the option it sets, and the default. -/
structure Var where
  name : Text
  option : Text
  default : Option Text

def vars (env : Environment) : List Var :=
  [⟨"HOST".toList, "remote_syslog".toList, none⟩,
    ⟨"PORT".toList, "port".toList, some "514".toList⟩,
    ⟨"HOSTNAME".toList, "hostname".toList, env.lookup "HOSTNAME".toList⟩,
    ⟨"REMOVE_TAG_PREFIX".toList, "remove_tag_prefix".toList, none⟩,
    ⟨"TAG_KEY".toList, "tag_key".toList, none⟩,
    ⟨"FACILITY".toList, "facility".toList, some "local0".toList⟩,
    ⟨"SEVERITY".toList, "severity".toList, some "debug".toList⟩,
    ⟨"USE_RECORD".toList, "use_record".toList, none⟩,
    ⟨"PAYLOAD_KEY".toList, "payload_key".toList, none⟩]

/-- `text.slice!(part)`: the first occurrence is cut out. -/
def sliced (part : Text) : Text → Text
  | [] => []
  | c :: s => if part.isPrefixOf (c :: s) then (c :: s).drop part.length else c :: sliced part s

/-- The options of the host that a variable names, with `nil` for those that are left out. -/
def hostVars (env : Environment) (k : Text) : List (Text × Option Text) :=
  let t := sliced hostGroup k
  (vars env).map fun r => (r.option, (env.lookup (syslogPrefix ++ r.name ++ t)).or r.default)

def hostKeys (env : Environment) : List Text :=
  uniq ((env.map Prod.fst).filter hostGroup.isPrefixOf)

def initEnvironmentVars (env : Environment) : List (List (Text × Option Text)) :=
  (hostKeys env).map (hostVars env)

def optionText : Text × Option Text → Text
  | (option, some value) => option ++ ' ' :: (value ++ ['\n'])
  | (_, none) => []

def storeBegin : Text := "\n<store>\n@type syslog_buffered\n".toList

def storeEnd : Text := "</store>\n".toList

def storeText (r : List (Text × Option Text)) : Text :=
  storeBegin ++ r.flatMap optionText ++ storeEnd

def generatedBy : Text := "## This file was generated by generate-syslog-config.rb".toList

/-- The text of `output-remote-syslog.conf`. -/
def createDefaultFile (env : Environment) : Text :=
  generatedBy ++ (initEnvironmentVars env).flatMap storeText

section Documentation

variable (env : Environment)

def optionNames : List Text :=
  ["PORT".toList, "HOSTNAME".toList, "REMOVE_TAG_PREFIX".toList, "TAG_KEY".toList,
    "FACILITY".toList, "SEVERITY".toList, "USE_RECORD".toList, "PAYLOAD_KEY".toList]

def IsDestination (s : Text) : Prop := (env.lookup (hostGroup ++ s)).isSome = true

def optionOf (s : Text) (r : Var) : Option Text :=
  (env.lookup (syslogPrefix ++ r.name ++ s)).or r.default

def storeLines (s : Text) : List Text :=
  ["<store>".toList, "@type syslog_buffered".toList] ++
    (vars env).filterMap (fun r => (optionOf env s r).map fun value => r.option ++ ' ' :: value) ++
    ["</store>".toList]

/-- Two environments that differ in variables of other destinations only. -/
def DiffersElsewhere (env' : Environment) (s : Text) : Prop :=
  ∀ name, env'.lookup name ≠ env.lookup name →
    ∃ o ∈ "HOST".toList :: optionNames, ∃ s', s' ≠ s ∧ IsDestination env s' ∧
      name = syslogPrefix ++ o ++ s'

/-- The file as it is documented: a store for each host, with the options of its suffix. -/
structure StorePerHost : Prop where
  stores : ∃ suffixes : List Text, suffixes.Nodup ∧ (∀ s, s ∈ suffixes ↔ IsDestination env s) ∧
    Text.lines (createDefaultFile env ++ ['\n']) =
      (generatedBy :: suffixes.flatMap fun s => storeLines env s ++ [[]]).map (· ++ ['\n'])
  options : ∀ o ∈ optionNames, ∀ s,
    (initEnvironmentVars (delete (syslogPrefix ++ o ++ s) env)).length =
      (initEnvironmentVars env).length
  independent : ∀ s, IsDestination env s → ∀ env', DiffersElsewhere env env' s →
    hostVars env' (hostGroup ++ s) = hostVars env (hostGroup ++ s)

/-- No option `HOSTNAME` is set, and no value that is written has a line break. -/
structure Separated : Prop where
  names : ∀ s, env.lookup (syslogPrefix ++ "HOSTNAME".toList ++ s) = none
  values : ∀ s, IsDestination env s → ∀ r ∈ vars env, ∀ value, optionOf env s r = some value →
    '\n' ∉ value

end Documentation

theorem sliced_append (part s : Text) : sliced part (part ++ s) = s := by
  cases h : part ++ s with
  | nil => exact (List.append_eq_nil_iff.mp h).2.symm
  | cons c t =>
    have hpart : part.isPrefixOf (c :: t) = true := by
      rw [← h]
      exact List.isPrefixOf_iff_prefix.mpr (List.prefix_append part s)
    rw [sliced, if_pos hpart, ← h, List.drop_left]

section Text

variable {env : Environment}

theorem hostVars_append (env : Environment) (s : Text) :
    hostVars env (hostGroup ++ s) = (vars env).map fun r => (r.option, optionOf env s r) := by
  rw [hostVars, sliced_append]
  rfl

theorem optionText_flatMap (s : Text) (rs : List Var) :
    (rs.map fun r => (r.option, optionOf env s r)).flatMap optionText =
      ((rs.filterMap fun r => (optionOf env s r).map fun value => r.option ++ ' ' :: value).map
        (· ++ ['\n'])).flatten := by
  induction rs with
  | nil => rfl
  | cons r rs ih =>
    rw [List.map_cons, List.flatMap_cons, List.filterMap_cons, ih]
    cases optionOf env s r with
    | none => rfl
    | some value =>
      simp [optionText]

theorem storeText_eq (s : Text) :
    storeText (hostVars env (hostGroup ++ s)) =
      '\n' :: ((storeLines env s).map (· ++ ['\n'])).flatten := by
  have hbegin : storeBegin =
      '\n' :: (["<store>".toList, "@type syslog_buffered".toList].map (· ++ ['\n'])).flatten := by
    decide
  have hend : storeEnd = (["</store>".toList].map (· ++ ['\n'])).flatten := by
    decide
  rw [storeText, hostVars_append, optionText_flatMap, storeLines, hbegin, hend, List.map_append,
    List.map_append, List.flatten_append, List.flatten_append, List.cons_append, List.cons_append]

theorem stores_eq (suffixes : List Text) :
    (suffixes.flatMap fun s => storeText (hostVars env (hostGroup ++ s))) ++ ['\n'] =
      '\n' :: ((suffixes.flatMap fun s => storeLines env s ++ [[]]).map (· ++ ['\n'])).flatten := by
  induction suffixes with
  | nil => rfl
  | cons s suffixes ih =>
    rw [List.flatMap_cons, List.flatMap_cons, List.append_assoc, ih, storeText_eq]
    simp

theorem lookup_isSome {k : Text} : (env.lookup k).isSome = true ↔ k ∈ env.map Prod.fst := by
  rw [← Option.ne_none_iff_isSome, Ne, List.lookup_eq_none_iff, List.mem_map]
  simp only [not_forall]
  constructor
  · rintro ⟨e, he, hk⟩
    have heq : k = e.1 := by simpa using hk
    exact ⟨e, he, heq.symm⟩
  · rintro ⟨e, he, rfl⟩
    exact ⟨e, he, by simp⟩

theorem mem_hostKeys {k : Text} :
    k ∈ hostKeys env ↔ hostGroup <+: k ∧ (env.lookup k).isSome = true := by
  rw [hostKeys, mem_uniq, List.mem_filter, List.isPrefixOf_iff_prefix, lookup_isSome, and_comm]

theorem exists_suffixes (env : Environment) :
    ∃ suffixes : List Text, hostKeys env = suffixes.map (hostGroup ++ ·) ∧ suffixes.Nodup ∧
      ∀ s, s ∈ suffixes ↔ IsDestination env s := by
  have hkeys : hostKeys env = ((hostKeys env).map (List.drop hostGroup.length)).map
      (hostGroup ++ ·) := by
    rw [List.map_map]
    apply (List.map_id' _).symm.trans
    apply List.map_congr_left
    intro k hk
    obtain ⟨s, rfl⟩ := (mem_hostKeys.mp hk).1
    rw [Function.comp_apply, List.drop_left]
  refine ⟨_, hkeys, ?_, fun s => ?_⟩
  · have hnodup : (hostKeys env).Nodup := uniq_nodup _
    rw [hkeys] at hnodup
    exact List.Nodup.of_map _ hnodup
  · have hmem : hostGroup ++ s ∈ hostKeys env ↔ IsDestination env s := by
      rw [mem_hostKeys]
      exact and_iff_right (List.prefix_append hostGroup s)
    rw [← hmem]
    constructor
    · intro hs
      rw [hkeys]
      exact List.mem_map_of_mem hs
    · intro hs
      have hdrop := List.mem_map_of_mem (f := List.drop hostGroup.length) hs
      rw [List.drop_left] at hdrop
      exact hdrop

/-- The file is the documented one up to the line breaks in its values. -/
theorem createDefaultFile_eq {suffixes : List Text}
    (h : hostKeys env = suffixes.map (hostGroup ++ ·)) :
    createDefaultFile env ++ ['\n'] =
      ((generatedBy :: suffixes.flatMap fun s => storeLines env s ++ [[]]).map
        (· ++ ['\n'])).flatten := by
  rw [createDefaultFile, initEnvironmentVars, h, List.map_map, List.flatMap_map,
    List.append_assoc, List.map_cons, List.flatten_cons, List.append_assoc]
  exact congrArg (generatedBy ++ ·) (stores_eq suffixes)

theorem not_break_storeLines {s : Text}
    (h : ∀ r ∈ vars env, ∀ value, optionOf env s r = some value → '\n' ∉ value) :
    ∀ l ∈ storeLines env s, '\n' ∉ l := by
  have hoption : ∀ r ∈ vars env, '\n' ∉ r.option := by
    simp only [vars, List.forall_mem_cons]
    decide
  intro l hl
  rw [storeLines, List.mem_append, List.mem_append] at hl
  rcases hl with (hl | hl) | hl
  · revert l
    decide
  · obtain ⟨r, hr, hl⟩ := List.mem_filterMap.mp hl
    obtain ⟨value, hvalue, rfl⟩ := Option.map_eq_some_iff.mp hl
    rw [List.mem_append, List.mem_cons, not_or, not_or]
    exact ⟨hoption r hr, by decide, h r hr value hvalue⟩
  · revert l
    decide

theorem hostKeys_delete {x : Text} (hx : hostGroup <+: x → env.lookup x = none) :
    hostKeys (delete x env) = hostKeys env := by
  rw [hostKeys, hostKeys, delete]
  have hmap : (env.filter fun e => e.1 ≠ x).map Prod.fst =
      (env.map Prod.fst).filter fun k => k ≠ x := by
    rw [List.filter_map]
    rfl
  rw [hmap, List.filter_filter]
  apply congrArg uniq
  apply List.filter_congr
  intro k hk
  cases hgroup : hostGroup.isPrefixOf k with
  | false => exact Bool.false_and _
  | true =>
    rw [Bool.true_and, decide_eq_true_iff]
    rintro rfl
    have hsome := lookup_isSome.mpr hk
    rw [hx (List.isPrefixOf_iff_prefix.mp hgroup)] at hsome
    contradiction

theorem hostKeys_delete_lt {x : Text} (hgroup : hostGroup <+: x) (hx : (env.lookup x).isSome = true) :
    (hostKeys (delete x env)).length < (hostKeys env).length := by
  apply uniq_length_lt (k := x)
  · rw [List.mem_filter, List.isPrefixOf_iff_prefix]
    exact ⟨lookup_isSome.mp hx, hgroup⟩
  · intro hmem
    have hkey := lookup_isSome.mpr (List.mem_filter.mp hmem).1
    rw [lookup_delete, if_pos rfl] at hkey
    contradiction
  · intro k hk
    rw [List.mem_filter] at hk ⊢
    exact ⟨(List.filter_sublist.map Prod.fst).subset hk.1, hk.2⟩

end Text

section Names

theorem names_prefix :
    ∀ a ∈ "HOST".toList :: optionNames, ∀ b ∈ "HOST".toList :: optionNames,
      a <+: b → a = b ∨ a = "HOST".toList ∧ b = "HOSTNAME".toList := by
  decide

theorem hostname_append (s : Text) :
    syslogPrefix ++ "HOSTNAME".toList ++ s = hostGroup ++ ("NAME".toList ++ s) := rfl

/-- Two variables of one name are one variable, or the host of one suffix is the option
`HOSTNAME` of the other. -/
theorem names_append {a b s t : Text} (ha : a ∈ "HOST".toList :: optionNames)
    (hb : b ∈ "HOST".toList :: optionNames) (h : a ++ s = b ++ t) :
    s = t ∨ (a = "HOST".toList ∧ b = "HOSTNAME".toList ∧ s = "NAME".toList ++ t) ∨
      (a = "HOSTNAME".toList ∧ b = "HOST".toList ∧ t = "NAME".toList ++ s) := by
  have hname : "HOSTNAME".toList = "HOST".toList ++ "NAME".toList := by decide
  have happend : a <+: b ∨ b <+: a :=
    List.prefix_or_prefix_of_prefix (List.prefix_append a s) (h ▸ List.prefix_append b t)
  rcases happend with hprefix | hprefix
  · rcases names_prefix a ha b hb hprefix with rfl | ⟨rfl, rfl⟩
    · exact .inl (List.append_cancel_left h)
    · rw [hname, List.append_assoc] at h
      exact .inr (.inl ⟨rfl, rfl, List.append_cancel_left h⟩)
  · rcases names_prefix b hb a ha hprefix with rfl | ⟨rfl, rfl⟩
    · exact .inl (List.append_cancel_left h)
    · rw [hname, List.append_assoc] at h
      exact .inr (.inr ⟨rfl, rfl, (List.append_cancel_left h).symm⟩)

theorem option_not_host {o s : Text} (ho : o ∈ optionNames)
    (h : hostGroup <+: syslogPrefix ++ o ++ s) : o = "HOSTNAME".toList := by
  obtain ⟨t, ht⟩ := h
  rw [hostGroup, List.append_assoc, List.append_assoc] at ht
  have hmem := List.mem_cons_of_mem "HOST".toList ho
  have hshort : ∀ a ∈ optionNames, a <+: "HOST".toList → False := by decide
  have happend : "HOST".toList <+: o ∨ o <+: "HOST".toList :=
    List.prefix_or_prefix_of_prefix (List.prefix_append _ t)
      (List.append_cancel_left ht ▸ List.prefix_append o s)
  rcases happend with hprefix | hprefix
  · rcases names_prefix _ List.mem_cons_self o hmem hprefix with rfl | ⟨-, ho⟩
    · exact absurd (List.prefix_refl _) (hshort _ ho)
    · exact ho
  · exact (hshort o ho hprefix).elim

theorem vars_name (env : Environment) : ∀ r ∈ vars env, r.name ∈ "HOST".toList :: optionNames := by
  simp only [vars, List.forall_mem_cons]
  decide

end Names

section Exact

variable {env : Environment}

theorem hostVars_elsewhere (hnames : ∀ s, env.lookup (syslogPrefix ++ "HOSTNAME".toList ++ s) = none)
    {env' : Environment} {s : Text} (hs : IsDestination env s) (h : DiffersElsewhere env env' s) :
    hostVars env' (hostGroup ++ s) = hostVars env (hostGroup ++ s) := by
  have hsame : ∀ r ∈ vars env, env'.lookup (syslogPrefix ++ r.name ++ s) =
      env.lookup (syslogPrefix ++ r.name ++ s) := by
    intro r hr
    by_contra hne
    obtain ⟨o, ho, s', hs', hdestination, hname⟩ := h _ hne
    rw [List.append_assoc, List.append_assoc] at hname
    rcases names_append (vars_name env r hr) ho (List.append_cancel_left hname) with
      heq | ⟨-, -, heq⟩ | ⟨-, -, heq⟩
    · exact hs' heq.symm
    · rw [IsDestination, heq, ← hostname_append, hnames] at hs
      contradiction
    · rw [IsDestination, heq, ← hostname_append, hnames] at hdestination
      contradiction
  have hhostname : env'.lookup "HOSTNAME".toList = env.lookup "HOSTNAME".toList := by
    by_contra hne
    obtain ⟨o, -, s', -, -, hname⟩ := h _ hne
    have hhead : List.head? (syslogPrefix ++ o ++ s') = some 'R' := rfl
    rw [← hname] at hhead
    exact absurd hhead (by decide)
  have hvars : vars env' = vars env := by rw [vars, hhostname, vars]
  rw [hostVars_append, hostVars_append, hvars]
  apply List.map_congr_left
  intro r hr
  rw [optionOf, hsame r hr, optionOf]

/-- The file is as documented exactly when no option `HOSTNAME` is set and no value that is
written has a line break. -/
theorem storePerHost_iff : StorePerHost env ↔ Separated env := by
  obtain ⟨suffixes, hkeys, hnodup, hmem⟩ := exists_suffixes env
  constructor
  · intro h
    constructor
    · intro s
      rw [← Option.not_isSome_iff_eq_none]
      intro hsome
      have hhost : hostGroup <+: syslogPrefix ++ "HOSTNAME".toList ++ s := by
        rw [hostname_append]
        exact List.prefix_append _ _
      have hlt := hostKeys_delete_lt hhost hsome
      have heq := h.options "HOSTNAME".toList (by decide) s
      rw [initEnvironmentVars, initEnvironmentVars, List.length_map, List.length_map] at heq
      omega
    · intro s hs r hr value hvalue hbreak
      obtain ⟨documented, -, hdocumented, hlines⟩ := h.stores
      have hline : r.option ++ ' ' :: value ∈ storeLines env s := by
        rw [storeLines, List.mem_append, List.mem_append]
        refine .inl (.inr (List.mem_filterMap.mpr ⟨r, hr, ?_⟩))
        rw [hvalue, Option.map_some]
      have hwritten : r.option ++ ' ' :: value ++ ['\n'] ∈
          Text.lines (createDefaultFile env ++ ['\n']) := by
        rw [hlines]
        apply List.mem_map_of_mem
        apply List.mem_cons_of_mem
        exact List.mem_flatMap.mpr ⟨s, (hdocumented s).mpr hs, List.mem_append_left _ hline⟩
      have hnot := Text.not_mem_dropLast List.not_mem_nil hwritten
      rw [List.dropLast_concat] at hnot
      exact hnot (List.mem_append_right _ (List.mem_cons_of_mem _ hbreak))
  · intro h
    constructor
    · refine ⟨suffixes, hnodup, hmem, ?_⟩
      rw [createDefaultFile_eq hkeys]
      apply Text.lines_terminated_iff.mpr
      intro l hl
      rcases List.mem_cons.mp hl with rfl | hl
      · decide
      · obtain ⟨s, hs, hl⟩ := List.mem_flatMap.mp hl
        rcases List.mem_append.mp hl with hl | hl
        · exact not_break_storeLines (h.values s ((hmem s).mp hs)) l hl
        · rw [List.mem_singleton.mp hl]
          exact List.not_mem_nil
    · intro o ho s
      rw [initEnvironmentVars, initEnvironmentVars, List.length_map, List.length_map,
        hostKeys_delete]
      intro hhost
      rw [option_not_host ho hhost]
      exact h.names s
    · intro s hs env' hdiffers
      exact hostVars_elsewhere h.names hs hdiffers

/-- A host whose name is given too. -/
theorem not_storePerHost_hostname :
    ¬ StorePerHost [("REMOTE_SYSLOG_HOST".toList, "host1".toList),
      ("REMOTE_SYSLOG_HOSTNAME".toList, "node-1".toList)] := by
  intro h
  have hlength := h.options "HOSTNAME".toList (by decide) []
  exact absurd hlength (by decide)

end Exact

end AggregatedLogging.Fluentd
