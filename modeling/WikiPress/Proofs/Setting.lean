import WikiPress.Config.Layers

/-!
# Settings by name

A configuration is known by its settings: what it says of one group leaves the other alone, and what it says under one
name leaves the others of its group. Decoding looks at nothing else.
-/

namespace WikiPress.Config

inductive Setting where
  | baseUrl
  | trackerUrl
  | imagesDir
  | imageExtension
  | maxImageWidth
  deriving DecidableEq, Repr

namespace Setting

def group : Setting → String
  | .maxImageWidth => "upload"
  | _ => "convert"

def name : Setting → String
  | .baseUrl => "base_url"
  | .trackerUrl => "jira_base_url"
  | .imagesDir => "images_dir"
  | .imageExtension => "default_image_extension"
  | .maxImageWidth => "max_image_width"

/-- The key of a setting, with its group. -/
def key (setting : Setting) : String :=
  setting.group ++ "." ++ setting.name

def steps (setting : Setting) : List KeyStep :=
  [.key setting.group, .key setting.name]

def builtIn : Setting → Scalar
  | .imagesDir => .string "images"
  | .imageExtension => .string "png"
  | .maxImageWidth => .integer 0
  | .baseUrl | .trackerUrl => .string ""

def all : List Setting :=
  [.baseUrl, .trackerUrl, .imagesDir, .imageExtension, .maxImageWidth]

def ofName? (group name : String) : Option Setting :=
  all.find? fun setting => setting.group = group && setting.name = name

end Setting

/-- The settings from the value of each. A complaint is about the first that is none, by its key. -/
def settingsOf (value : Setting → Value) : Except Fault Settings := do
  let text (setting : Setting) : Except Fault String := (textOf (value setting)).mapError (·.under setting.key)
  let baseUrl ← text .baseUrl
  let trackerUrl ← text .trackerUrl
  let imagesDir ← text .imagesDir
  let imageExtension ← text .imageExtension
  let maxImageWidth ← (unsignedOf (value .maxImageWidth)).mapError (·.under Setting.maxImageWidth.key)
  .ok { baseUrl, trackerUrl, imagesDir, imageExtension, maxImageWidth }

namespace Setting

theorem mem_all (setting : Setting) : setting ∈ all := by
  cases setting <;> decide

theorem group_cases (setting : Setting) : setting.group = "convert" ∨ setting.group = "upload" := by
  cases setting <;> decide

theorem name_inj {setting other : Setting} (h : setting.name = other.name) : setting = other := by
  cases setting <;> cases other <;> first | rfl | exact absurd h (by decide)

theorem steps_inj {setting other : Setting} (h : setting.steps = other.steps) : setting = other := by
  simp only [steps, List.cons.injEq, KeyStep.key.injEq, and_true] at h
  exact name_inj h.2

theorem ofName?_eq_some {group name : String} {setting : Setting} (h : ofName? group name = some setting) :
    setting.group = group ∧ setting.name = name := by
  have := List.find?_some h
  simpa using this

theorem ofName?_eq_none {group name : String} (h : ofName? group name = none) {setting : Setting}
    (hg : setting.group = group) : setting.name ≠ name := by
  intro hn
  have := List.find?_eq_none.1 h setting setting.mem_all
  simp [hg, hn] at this

theorem keySteps?_key (setting : Setting) : keySteps? setting.key = some setting.steps := by
  cases setting <;> decide

end Setting

/-! ## Values under keys -/

section
variable (key other : String) (target : Value)

theorem get?_putEntry (v : Value) :
    (putEntry key v target).get? other = if other = key then some v else target.get? other := by
  cases target with
  | table file entries => exact Dictionary.lookup_insert key other v entries
  | scalar file s => exact Dictionary.lookup_insert key other v []
  | array file items => exact Dictionary.lookup_insert key other v []

theorem get?_asTable : target.asTable.get? other = target.get? other := by
  cases target <;> rfl

variable {other}

theorem get?_setKey_of_ne (v : Value) (h : other ≠ foldKey key) :
    (setKey key v target).get? other = target.get? other := by
  cases v <;> rw [setKey, get?_putEntry, if_neg h]

theorem get?_setKey_scalar (file : Option String) (s : Scalar) :
    (setKey key (.scalar file s) target).get? (foldKey key) = some (.scalar file s) := by
  rw [setKey, get?_putEntry, if_pos rfl]

theorem get?_setKey_table (file : Option String) (entries : List (String × Value)) :
    (setKey key (.table file entries) target).get? (foldKey key) =
      some (mergeInto entries ((target.get? (foldKey key)).getD .emptyTable)) := by
  rw [setKey, get?_putEntry, if_pos rfl, get?_asTable]

end

/-! ## Configurations by their settings -/

/-- The configuration has these values of the settings. -/
def Has (root : Value) (value : Setting → Value) : Prop :=
  ∀ setting : Setting, (root.get? setting.group).bind (Value.get? setting.name) = some (value setting)

/-- The same of one group. -/
def GroupHas (group : String) (target : Value) (value : Setting → Value) : Prop :=
  ∀ setting : Setting, setting.group = group → target.get? setting.name = some (value setting)

abbrev Assignments := List (Setting × Value)

def put (value : Setting → Value) (assignment : Setting × Value) : Setting → Value :=
  fun setting => if setting = assignment.1 then assignment.2 else value setting

theorem foldl_put (setting : Setting) : ∀ (list : Assignments) (value : Setting → Value),
    list.foldl put value setting = (list.reverse.lookup setting).getD (value setting)
  | [], _ => rfl
  | assignment :: list, value => by
    obtain ⟨other, v⟩ := assignment
    rw [List.foldl_cons, foldl_put setting list, List.reverse_cons, List.lookup_append, Dictionary.lookup_cons]
    unfold put
    cases list.reverse.lookup setting with
    | some _ => rfl
    | none => by_cases h : setting = other <;> simp [h]

theorem foldl_put_of_not_mem {setting : Setting} {list : Assignments} (value : Setting → Value)
    (h : ∀ p ∈ list, p.1 ≠ setting) : list.foldl put value setting = value setting := by
  induction list generalizing value with
  | nil => rfl
  | cons p list ih =>
    obtain ⟨hp, hlist⟩ := List.forall_mem_cons.1 h
    rw [List.foldl_cons, ih _ hlist, put, if_neg hp.symm]

theorem Has.group {root : Value} {value : Setting → Value} (h : Has root value) {group : String}
    (hg : group = "convert" ∨ group = "upload") :
    ∃ target, root.get? group = some target ∧ GroupHas group target value := by
  have found (setting : Setting) :
      ∃ target, root.get? setting.group = some target ∧ GroupHas setting.group target value := by
    obtain ⟨target, htarget, -⟩ := Option.bind_eq_some_iff.1 (h setting)
    refine ⟨target, htarget, fun other ho => ?_⟩
    have := h other
    rwa [ho, htarget] at this
  rcases hg with rfl | rfl
  · exact found .baseUrl
  · exact found .maxImageWidth

/-- A change of one group leaves the settings of other groups. -/
theorem Has.change {root root' target : Value} {value value' : Setting → Value} {group : String} (h : Has root value)
    (others : ∀ other, other ≠ group → root'.get? other = root.get? other) (hroot : root'.get? group = some target)
    (htarget : GroupHas group target value')
    (hvalue : ∀ setting : Setting, setting.group ≠ group → value' setting = value setting) : Has root' value' := by
  intro setting
  by_cases hg : setting.group = group
  · rw [hg, hroot]
    exact htarget setting hg
  · rw [others _ hg, hvalue setting hg]
    exact h setting

section
variable {group : String} {target : Value} {value : Setting → Value} (name : String)

theorem GroupHas.other (h : GroupHas group target value) (hn : Setting.ofName? group (foldKey name) = none)
    (v : Value) : GroupHas group (setKey name v target) value := by
  intro setting hg
  rw [get?_setKey_of_ne name target v (Setting.ofName?_eq_none hn hg)]
  exact h setting hg

theorem GroupHas.put (h : GroupHas group target value) {setting : Setting}
    (hs : Setting.ofName? group (foldKey name) = some setting) (file : Option String) (s : Scalar) :
    GroupHas group (setKey name (.scalar file s) target) (put value (setting, .scalar file s)) := by
  obtain ⟨-, hname⟩ := Setting.ofName?_eq_some hs
  intro other hg
  unfold Config.put
  by_cases he : other = setting
  · rw [if_pos he, he, hname]
    exact get?_setKey_scalar name target file s
  · rw [if_neg he, get?_setKey_of_ne name target _ fun hn => he (Setting.name_inj (hn.trans hname.symm))]
    exact h other hg

end

/-! ## Decoding -/

theorem defaults_has : Has defaults fun setting => .scalar none setting.builtIn := by
  intro setting
  cases setting <;> rfl

theorem textOf_complains (v : Value) :
    (∃ s, textOf v = .ok s) ∨ ∃ expected, textOf v = .error (complaint v expected) := by
  unfold textOf
  split <;> first | exact Or.inl ⟨_, rfl⟩ | exact Or.inr ⟨_, rfl⟩

theorem unsignedOf_complains (v : Value) :
    (∃ n, unsignedOf v = .ok n) ∨ ∃ expected, unsignedOf v = .error (complaint v expected) := by
  unfold unsignedOf
  split <;> try split
  all_goals first | exact Or.inl ⟨_, rfl⟩ | exact Or.inr ⟨_, rfl⟩

theorem groupOf_of_get? {key : String} {v target : Value} (name : String) (h : target.get? key = some v) :
    groupOf name target = .ok (.named target.entries) := by
  cases target with
  | table file entries => rfl
  | scalar file s => cases h
  | array file items => cases h

/-- A complaint about the value of a setting names the group and the setting in it. -/
theorem under_under (setting : Setting) (v : Value) (expected : String) :
    ((complaint v expected).under setting.name).under setting.group = (complaint v expected).under setting.key := by
  cases setting <;> rfl

theorem member_setting {α : Type} {read : Value → Except Fault α} (setting : Setting) (name : String) (total i : Nat)
    {target v : Value} (h : target.get? setting.name = some v)
    (hread : (∃ a, read v = .ok a) ∨ ∃ expected, read v = .error (complaint v expected)) :
    (member name total i setting.name read (.named target.entries)).mapError (·.under setting.group) =
      (read v).mapError (·.under setting.key) := by
  have hlookup : target.entries.lookup setting.name = some v := h
  simp only [member, hlookup]
  obtain ⟨a, ha⟩ | ⟨expected, he⟩ := hread
  · rw [ha]
    rfl
  · rw [he]
    exact congrArg Except.error (under_under setting v expected)

theorem decode_of_has {root : Value} {value : Setting → Value} (h : Has root value) :
    decode root = settingsOf value := by
  obtain ⟨convert, hconvert, hconverts⟩ := h.group (Or.inl rfl)
  obtain ⟨upload, hupload, huploads⟩ := h.group (Or.inr rfl)
  have htext (setting : Setting) (i : Nat) (hg : setting.group = "convert") :
      (member "ConvertConfig" 4 i setting.name textOf (.named convert.entries)).mapError (·.under "convert") =
        (textOf (value setting)).mapError (·.under setting.key) := by
    rw [← hg]
    exact member_setting setting _ _ i (hconverts setting hg) (textOf_complains _)
  have hwidth := member_setting .maxImageWidth "UploadConfig" 1 0 (huploads .maxImageWidth rfl) (unsignedOf_complains _)
  have hroot {key : String} {v : Value} (hv : root.get? key = some v) : rootMember root key = .ok v := by
    rw [rootMember, hv]
  unfold decode settingsOf
  simp only [hroot hconvert, hroot hupload, bind, Except.bind, groupOf_of_get? _ (hconverts .baseUrl rfl),
    groupOf_of_get? _ (huploads .maxImageWidth rfl)]
  rw [← htext .baseUrl 0 rfl, ← htext .trackerUrl 1 rfl, ← htext .imagesDir 2 rfl, ← htext .imageExtension 3 rfl,
    ← hwidth]
  rfl

end WikiPress.Config
