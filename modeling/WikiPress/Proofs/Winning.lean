import Mathlib.Control.Monad.Basic
import WikiPress.Proofs.Loading
import WikiPress.Proofs.Setting

/-!
# The value that counts

Files and overrides put values to single settings, so of all values that the layers give to a setting one counts: that
of its last override, else that of the last file that has one, else the built-in one (`load_winning`).
-/

namespace WikiPress.Config

/-! ## What layers assign -/

/-- What entries of a group say of its settings, if they give scalars to them. -/
def groupAssignments? (group : String) : List (String × Value) → Option Assignments
  | [] => some []
  | (name, v) :: entries => do
    let rest ← groupAssignments? group entries
    match Setting.ofName? group (foldKey name), v with
    | none, _ => some rest
    | some setting, .scalar file s => some ((setting, .scalar file s) :: rest)
    | some _, _ => none

/-- The entries of a group that an entry at the top stands for, by what follows the group in its key. -/
def groupEntries? : List KeyStep → Value → Option (List (String × Value))
  | [], .table _ entries => some entries
  | [.key name], v => some [(name, v)]
  | _, _ => none

def entryAssignments? (key : String) (v : Value) : Option Assignments :=
  match (keySteps? key).getD [.key key] with
  | .key group :: steps =>
    if foldKey group = "convert" ∨ foldKey group = "upload" then
      groupEntries? steps v >>= groupAssignments? (foldKey group)
    else some []
  | _ => none

/-- What the text of a file says of the settings. Nothing else in it matters. -/
def textAssignments? (file : String × String) : Option Assignments :=
  match fileEntries file.1 file.2 with
  | .ok entries => (entries.mapM fun (key, v) => entryAssignments? key v).map List.flatten
  | .error _ => none

/-- What a layer says of the settings, if it is an override of one, a file that gives scalars to some, or a file that
may be absent and is. -/
def Layer.assignments? (tree : FileTree) : Layer → Option Assignments
  | .file name => textFor? tree name >>= textAssignments?
  | .optional name =>
    match textFor? tree name with
    | some found => textAssignments? found
    | none => some []
  | .override key s => (Setting.all.find? (·.key = key)).map fun setting => [(setting, .scalar none s)]

def Layer.isOverride : Layer → Bool
  | .override _ _ => true
  | _ => false

/-- What layers say of the settings, in order. -/
def assigned (tree : FileTree) (layers : List Layer) : Assignments :=
  layers.flatMap fun layer => (layer.assignments? tree).getD []

/-- The settings that a layer sets. -/
def Layer.settings (tree : FileTree) (layer : Layer) : List Setting :=
  (assigned tree [layer]).map Prod.fst

def lastAssigned (tree : FileTree) (layers : List Layer) (setting : Setting) : Option Value :=
  (assigned tree layers).reverse.lookup setting

/-- The value of a setting that counts: of the last override, else of the last file that has one, else the built-in. -/
def winning (tree : FileTree) (layers : List Layer) (setting : Setting) : Value :=
  ((lastAssigned tree (layers.filter (·.isOverride)) setting).or
    (lastAssigned tree (layers.filter (!·.isOverride)) setting)).getD (.scalar none setting.builtIn)

theorem groupAssignments?_cons {group name : String} {v : Value} {entries : List (String × Value)} {list : Assignments}
    (h : groupAssignments? group ((name, v) :: entries) = some list) :
    ∃ rest, groupAssignments? group entries = some rest ∧
      (Setting.ofName? group (foldKey name) = none ∧ list = rest ∨
        ∃ setting file s, Setting.ofName? group (foldKey name) = some setting ∧ v = .scalar file s ∧
          list = (setting, .scalar file s) :: rest) := by
  rw [groupAssignments?, Option.bind_eq_bind] at h
  obtain ⟨rest, hrest, hlist⟩ := Option.bind_eq_some_iff.1 h
  refine ⟨rest, hrest, ?_⟩
  split at hlist
  · rename_i hn
    exact Or.inl ⟨hn, (Option.some.inj hlist).symm⟩
  · rename_i hs
    exact Or.inr ⟨_, _, _, hs, rfl, (Option.some.inj hlist).symm⟩
  · cases hlist

theorem mergeInto_groupHas {group : String} {entries : List (String × Value)} {list : Assignments} {target : Value}
    {value : Setting → Value} (h : groupAssignments? group entries = some list) (ht : GroupHas group target value) :
    GroupHas group (mergeInto entries target) (list.foldl put value) := by
  induction entries generalizing list target value with
  | nil =>
    obtain rfl := Option.some.inj h
    exact ht
  | cons entry entries ih =>
    obtain ⟨name, v⟩ := entry
    rw [mergeInto]
    obtain ⟨rest, hrest, ⟨hn, rfl⟩ | ⟨setting, file, s, hs, rfl, rfl⟩⟩ := groupAssignments?_cons h
    · exact ih hrest (ht.other name hn v)
    · rw [List.foldl_cons]
      exact ih hrest (ht.put name hs file s)

theorem groupAssignments?_group {group : String} {entries : List (String × Value)} {list : Assignments}
    (h : groupAssignments? group entries = some list) : ∀ p ∈ list, p.1.group = group := by
  induction entries generalizing list with
  | nil =>
    obtain rfl := Option.some.inj h
    exact fun _ hp => nomatch hp
  | cons entry entries ih =>
    obtain ⟨name, v⟩ := entry
    obtain ⟨rest, hrest, ⟨-, hl⟩ | ⟨setting, file, s, hs, -, hl⟩⟩ := groupAssignments?_cons h <;> subst hl
    · exact ih hrest
    · exact List.forall_mem_cons.2 ⟨(Setting.ofName?_eq_some hs).1, ih hrest⟩

/-! ## Files -/

theorem get?_assign_of_ne {group other : String} (h : other ≠ foldKey group) (v : Value) (steps : List KeyStep)
    (root : Value) : (assign v (.key group :: steps) root).get? other = root.get? other := by
  cases steps with
  | nil => exact get?_setKey_of_ne group root v h
  | cons step steps => rw [assign, get?_putEntry, if_neg h]; exact nofun

theorem get?_assign_group {group : String} {steps : List KeyStep} {v root target : Value}
    {entries : List (String × Value)}
    (he : groupEntries? steps v = some entries) (ht : root.get? (foldKey group) = some target) :
    (assign v (.key group :: steps) root).get? (foldKey group) = some (mergeInto entries target) := by
  unfold groupEntries? at he
  split at he
  · obtain rfl := Option.some.inj he
    rw [assign, get?_setKey_table, ht]
    rfl
  · obtain rfl := Option.some.inj he
    rw [assign, get?_putEntry, if_pos rfl, get?_asTable, ht]
    · rfl
    · exact nofun
  · cases he

theorem assign_has {key : String} {v root : Value} {list : Assignments} {value : Setting → Value}
    (h : entryAssignments? key v = some list) (hroot : Has root value) :
    Has (assign v ((keySteps? key).getD [.key key]) root) (list.foldl put value) := by
  unfold entryAssignments? at h
  split at h
  · rename_i group steps hsteps
    rw [hsteps]
    split at h
    · rename_i hg
      obtain ⟨entries, hentries, hlist⟩ := Option.bind_eq_some_iff.1 h
      obtain ⟨target, htarget, hhas⟩ := hroot.group hg
      refine hroot.change (fun other ho => get?_assign_of_ne ho v steps root) (get?_assign_group hentries htarget)
        (mergeInto_groupHas hlist hhas) fun setting hs => ?_
      refine foldl_put_of_not_mem value fun p hp he => hs ?_
      rw [← he]
      exact groupAssignments?_group hlist p hp
    · rename_i hg
      obtain rfl := Option.some.inj h
      intro setting
      rw [get?_assign_of_ne fun he => hg (he ▸ setting.group_cases)]
      exact hroot setting
  · cases h

theorem mergeFile_has {entries : List (String × Value)} {lists : List Assignments} {root : Value}
    {value : Setting → Value} (h : entries.mapM (fun (key, v) => entryAssignments? key v) = some lists)
    (hroot : Has root value) : Has (mergeFile entries root) (lists.flatten.foldl put value) := by
  induction entries generalizing lists root value with
  | nil =>
    obtain rfl := Option.some.inj h
    exact hroot
  | cons entry entries ih =>
    obtain ⟨key, v⟩ := entry
    simp only [List.mapM_cons, Option.bind_eq_bind, Option.bind_eq_some_iff, Option.pure_def, Option.some.injEq] at h
    obtain ⟨list, hlist, rest, hrest, rfl⟩ := h
    rw [List.flatten_cons, List.foldl_append]
    exact ih hrest (assign_has hlist hroot)

/-! ## Layers -/

theorem layText_has {found : String × String} {list : Assignments} {root : Value} {value : Setting → Value}
    (h : textAssignments? found = some list) (hroot : Has root value) :
    ∃ root', layText root found = .ok root' ∧ Has root' (list.foldl put value) := by
  unfold textAssignments? at h
  unfold layText
  split at h
  · rename_i entries hentries
    obtain ⟨lists, hlists, rfl⟩ := Option.map_eq_some_iff.1 h
    rw [hentries]
    exact ⟨_, rfl, mergeFile_has hlists hroot⟩
  · cases h

theorem layOver_has {tree : FileTree} {layer : Layer} {list : Assignments} {root : Value} {value : Setting → Value}
    (h : layer.assignments? tree = some list) (hl : layer.isOverride = false) (hroot : Has root value) :
    ∃ root', layOver tree root layer = .ok root' ∧ Has root' (list.foldl put value) := by
  cases layer with
  | file name =>
    obtain ⟨found, hfound, hlist⟩ := Option.bind_eq_some_iff.1 h
    rw [layOver, layFile, hfound]
    exact layText_has hlist hroot
  | optional name =>
    rw [layOver, layFile]
    simp only [Layer.assignments?] at h
    cases hf : textFor? tree name with
    | some found =>
      rw [hf] at h
      exact layText_has h hroot
    | none =>
      rw [hf] at h
      obtain rfl := Option.some.inj h
      exact ⟨root, rfl, hroot⟩
  | override key s => cases hl

section
variable {tree : FileTree} {layers : List Layer}

theorem assigned_cons (layer : Layer) (layers : List Layer) :
    assigned tree (layer :: layers) = (layer.assignments? tree).getD [] ++ assigned tree layers :=
  List.flatMap_cons

theorem foldlM_layOver_has (h : ∀ layer ∈ layers, (layer.assignments? tree).isSome) {root : Value}
    {value : Setting → Value} (hroot : Has root value) : ∃ root', layers.foldlM (layOver tree) root = .ok root' ∧
      Has root' ((assigned tree (layers.filter (!·.isOverride))).foldl put value) := by
  induction layers generalizing root value with
  | nil => exact ⟨root, rfl, hroot⟩
  | cons layer layers ih =>
    obtain ⟨hlayer, hlayers⟩ := List.forall_mem_cons.1 h
    obtain ⟨list, hlist⟩ := Option.isSome_iff_exists.1 hlayer
    rw [List.foldlM_cons]
    cases hl : layer.isOverride with
    | true =>
      have hkeep : layOver tree root layer = .ok root := by cases layer <;> first | rfl | cases hl
      rw [hkeep, List.filter_cons_of_neg (by simp [hl])]
      exact ih hlayers hroot
    | false =>
      obtain ⟨root', hrun, hroot'⟩ := layOver_has hlist hl hroot
      rw [hrun, List.filter_cons_of_pos (by simp [hl]), assigned_cons, hlist, Option.getD_some, List.foldl_append]
      exact ih hlayers hroot'

end

/-! ## Overrides -/

theorem lookup_insertOverride (steps other : List KeyStep) (s : Scalar) (list : List (List KeyStep × Scalar)) :
    (insertOverride steps s list).lookup other = if other = steps then some s else list.lookup other := by
  induction list with
  | nil => exact Dictionary.lookup_cons other steps s []
  | cons entry list ih =>
    unfold insertOverride
    grind [Dictionary.lookup_cons]

theorem mem_keys_insertOverride (steps other : List KeyStep) (s : Scalar) (list : List (List KeyStep × Scalar)) :
    other ∈ (insertOverride steps s list).map Prod.fst ↔ other = steps ∨ other ∈ list.map Prod.fst := by
  induction list with
  | nil => exact List.mem_cons
  | cons entry list ih =>
    unfold insertOverride
    grind

theorem nodup_insertOverride (steps : List KeyStep) (s : Scalar) {list : List (List KeyStep × Scalar)}
    (h : (list.map Prod.fst).Nodup) : ((insertOverride steps s list).map Prod.fst).Nodup := by
  induction list with
  | nil => exact List.nodup_cons.2 ⟨List.not_mem_nil, List.nodup_nil⟩
  | cons entry list ih =>
    obtain ⟨steps', old⟩ := entry
    rw [List.map_cons] at h
    obtain ⟨hnew, hrest⟩ := List.nodup_cons.1 h
    unfold insertOverride
    by_cases he : steps' = steps
    · rw [if_pos he]
      exact h
    · rw [if_neg he, List.map_cons]
      refine List.nodup_cons.2 ⟨fun hm => ?_, ih hrest⟩
      exact ((mem_keys_insertOverride steps steps' s list).1 hm).elim he hnew

/-- Overrides put among others, one after the other. -/
def insertOverrides (list done : List (List KeyStep × Scalar)) : List (List KeyStep × Scalar) :=
  list.foldl (fun done (steps, s) => insertOverride steps s done) done

theorem nodup_insertOverrides : ∀ (list : List (List KeyStep × Scalar)) {done : List (List KeyStep × Scalar)},
    (done.map Prod.fst).Nodup → ((insertOverrides list done).map Prod.fst).Nodup
  | [], _, h => h
  | (steps, s) :: list, _, h => nodup_insertOverrides list (nodup_insertOverride steps s h)

theorem mem_keys_insertOverrides (steps : List KeyStep) : ∀ list done : List (List KeyStep × Scalar),
    steps ∈ (insertOverrides list done).map Prod.fst ↔ steps ∈ list.map Prod.fst ∨ steps ∈ done.map Prod.fst
  | [], done => by simp [insertOverrides]
  | (steps', s) :: list, done => by
    refine (mem_keys_insertOverrides steps list _).trans ?_
    rw [mem_keys_insertOverride, List.map_cons, List.mem_cons, or_left_comm, or_assoc]

theorem lookup_insertOverrides (steps : List KeyStep) : ∀ list done : List (List KeyStep × Scalar),
    (insertOverrides list done).lookup steps = (list.reverse.lookup steps).or (done.lookup steps)
  | [], _ => rfl
  | (steps', s) :: list, done => by
    refine (lookup_insertOverrides steps list _).trans ?_
    rw [lookup_insertOverride, List.reverse_cons, List.lookup_append, Option.or_assoc, Dictionary.lookup_cons]
    by_cases h : steps = steps' <;> simp [h]

/-- Of each setting, the scalar that a list of overrides gives to it, over another value. -/
def overridden (list : List (List KeyStep × Scalar)) (value : Setting → Value) (setting : Setting) : Value :=
  ((list.lookup setting.steps).map (.scalar none)).getD (value setting)

theorem assign_setting (setting : Setting) (s : Scalar) {root : Value} {value : Setting → Value} (h : Has root value) :
    Has (assign (.scalar none s) setting.steps root) (put value (setting, .scalar none s)) := by
  have hentry : entryAssignments? setting.key (.scalar none s) = some [(setting, .scalar none s)] := by
    cases setting <;> rfl
  have := assign_has hentry h
  rwa [Setting.keySteps?_key] at this

theorem foldl_assign_has {list : List (List KeyStep × Scalar)} (hkeys : (list.map Prod.fst).Nodup)
    (hsteps : ∀ steps ∈ list.map Prod.fst, ∃ setting : Setting, steps = setting.steps) {root : Value}
    {value : Setting → Value} (hroot : Has root value) :
    Has (list.foldl (fun root (steps, s) => assign (.scalar none s) steps root) root) (overridden list value) := by
  induction list generalizing root value with
  | nil => exact hroot
  | cons entry list ih =>
    obtain ⟨steps, s⟩ := entry
    obtain ⟨hnew, hrest⟩ := List.nodup_cons.1 hkeys
    rw [List.map_cons] at hsteps
    obtain ⟨⟨setting, rfl⟩, hrests⟩ := List.forall_mem_cons.1 hsteps
    have hvalue : overridden ((setting.steps, s) :: list) value =
        overridden list (put value (setting, .scalar none s)) := by
      funext other
      unfold overridden put
      rw [Dictionary.lookup_cons]
      by_cases h : other = setting
      · -- No later override has the same path.
        have : list.lookup setting.steps = none :=
          List.lookup_eq_none_iff.2 fun p hp => bne_iff_ne.2 fun he => hnew (he ▸ List.mem_map.2 ⟨p, hp, rfl⟩)
        simp [h, this]
      · rw [if_neg fun he => h (Setting.steps_inj he), if_neg h]
    rw [hvalue]
    exact ih hrest hrests (assign_setting setting s hroot)

/-- The path of a setting with the scalar that an override gives to it. -/
def overridePath (entry : Setting × Scalar) : List KeyStep × Scalar :=
  (entry.1.steps, entry.2)

/-- An override as an assignment. No file is behind it. -/
def overrideValue (entry : Setting × Scalar) : Setting × Value :=
  (entry.1, .scalar none entry.2)

theorem overridden_reverse (list : List (Setting × Scalar)) (value : Setting → Value) :
    overridden (list.map overridePath).reverse value = (list.map overrideValue).foldl put value := by
  funext setting
  have hpath : (list.reverse.map overridePath).lookup setting.steps = (list.reverse.lookup setting).map id :=
    Dictionary.lookup_map (fun _ _ => Setting.steps_inj) id setting list.reverse
  have hvalue : (list.reverse.map overrideValue).lookup setting =
      (list.reverse.lookup setting).map (Value.scalar none) :=
    Dictionary.lookup_map (fun _ _ => id) (Value.scalar none) setting list.reverse
  rw [overridden, foldl_put, ← List.map_reverse, ← List.map_reverse, hpath, hvalue, Option.map_id_fun, id]

theorem applyOverrides_has (list : List (Setting × Scalar)) {root : Value} {value : Setting → Value}
    (hroot : Has root value) :
    Has (applyOverrides (list.map overridePath) root) ((list.map overrideValue).foldl put value) := by
  have hkeys : ((insertOverrides (list.map overridePath) []).map Prod.fst).Nodup :=
    nodup_insertOverrides _ List.nodup_nil
  have hsteps (steps : List KeyStep) (hs : steps ∈ (insertOverrides (list.map overridePath) []).map Prod.fst) :
      ∃ setting : Setting, steps = setting.steps := by
    obtain hs | hs := (mem_keys_insertOverrides steps (list.map overridePath) []).1 hs
    · simp only [List.map_map, List.mem_map] at hs
      obtain ⟨entry, -, rfl⟩ := hs
      exact ⟨entry.1, rfl⟩
    · cases hs
  have hlast : overridden (insertOverrides (list.map overridePath) []) value =
      overridden (list.map overridePath).reverse value := by
    funext setting
    rw [overridden, lookup_insertOverrides, List.lookup_nil, Option.or_none]
    rfl
  have := foldl_assign_has hkeys hsteps hroot
  rwa [hlast, overridden_reverse] at this

theorem overrides_assigned {tree : FileTree} {layers : List Layer}
    (h : ∀ layer ∈ layers, (layer.assignments? tree).isSome) :
    ∃ list : List (Setting × Scalar), overrides layers = .ok (list.map overridePath) ∧
      assigned tree (layers.filter (·.isOverride)) = list.map overrideValue := by
  induction layers with
  | nil => exact ⟨[], rfl, rfl⟩
  | cons layer layers ih =>
    obtain ⟨hlayer, hlayers⟩ := List.forall_mem_cons.1 h
    obtain ⟨list, hrun, hlist⟩ := ih hlayers
    cases layer with
    | file name => exact ⟨list, hrun, hlist⟩
    | optional name => exact ⟨list, hrun, hlist⟩
    | override key s =>
      rw [Layer.assignments?, Option.isSome_map] at hlayer
      obtain ⟨setting, hsetting⟩ := Option.isSome_iff_exists.1 hlayer
      obtain rfl : setting.key = key := by simpa using List.find?_some hsetting
      refine ⟨(setting, s) :: list, ?_, ?_⟩
      · rw [overrides, Setting.keySteps?_key, hrun]
        rfl
      · rw [List.filter_cons_of_pos rfl, assigned_cons, Layer.assignments?, hsetting, hlist]
        rfl

/-! ## Layers of settings -/

section
variable {tree : FileTree} {layers : List Layer}

theorem winning_eq (setting : Setting) : winning tree layers setting =
    (assigned tree (layers.filter (·.isOverride))).foldl put
      ((assigned tree (layers.filter (!·.isOverride))).foldl put fun setting => .scalar none setting.builtIn)
      setting := by
  rw [foldl_put, foldl_put, winning, lastAssigned, lastAssigned, Option.getD_or]

theorem load_settings (h : ∀ layer ∈ layers, (layer.assignments? tree).isSome) :
    (load FileTree.system layers).run tree = (settingsOf (winning tree layers), tree) := by
  obtain ⟨list, hoverrides, hlist⟩ := overrides_assigned h
  obtain ⟨root, hfiles, hroot⟩ := foldlM_layOver_has h defaults_has
  have hall := applyOverrides_has list hroot
  rw [← hlist, ← funext winning_eq] at hall
  rw [run_load, hoverrides]
  simp only [bind, Except.bind, hfiles, decode_of_has hall]

theorem lastAssigned_append (xs ys : List Layer) (setting : Setting) :
    lastAssigned tree (xs ++ ys) setting = (lastAssigned tree ys setting).or (lastAssigned tree xs setting) := by
  rw [lastAssigned, assigned, List.flatMap_append, List.reverse_append, List.lookup_append]
  rfl

theorem lastAssigned_filter_single (p : Layer → Bool) (layer : Layer) (setting : Setting) :
    lastAssigned tree ([layer].filter p) setting = if p layer then lastAssigned tree [layer] setting else none := by
  cases h : p layer <;> simp [h, lastAssigned, assigned]

theorem lastAssigned_absent {name : String} (h : textFor? tree name = none) (p : Layer → Bool) (xs ys : List Layer)
    (setting : Setting) : lastAssigned tree ((xs ++ .optional name :: ys).filter p) setting =
      lastAssigned tree ((xs ++ ys).filter p) setting := by
  have habsent : lastAssigned tree [.optional name] setting = none := by
    simp [lastAssigned, assigned, Layer.assignments?, h]
  rw [List.append_cons, List.filter_append, List.filter_append, List.filter_append, lastAssigned_append,
    lastAssigned_append, lastAssigned_append, lastAssigned_filter_single, habsent, ite_self, Option.none_or]

theorem lastAssigned_eq_none {layer : Layer} {setting : Setting} (h : setting ∉ layer.settings tree) :
    lastAssigned tree [layer] setting = none :=
  List.lookup_eq_none_iff.2 fun p hp =>
    bne_iff_ne.2 fun he => h (List.mem_map.2 ⟨p, List.mem_reverse.1 hp, he.symm⟩)

theorem lastAssigned_swap {a b : Layer} (h : ∀ setting ∈ a.settings tree, setting ∉ b.settings tree) (p : Layer → Bool)
    (xs ys : List Layer) (setting : Setting) : lastAssigned tree ((xs ++ b :: a :: ys).filter p) setting =
      lastAssigned tree ((xs ++ a :: b :: ys).filter p) setting := by
  have hpair (a b : Layer) : xs ++ a :: b :: ys = xs ++ ([a] ++ ([b] ++ ys)) := rfl
  simp only [hpair, List.filter_append, lastAssigned_append, lastAssigned_filter_single]
  by_cases ha : setting ∈ a.settings tree
  · rw [lastAssigned_eq_none (h setting ha), ite_self, Option.or_none, Option.or_none]
  · rw [lastAssigned_eq_none ha, ite_self, Option.or_none, Option.or_none]

theorem load_congr {others : List Layer} (h : ∀ layer ∈ layers, (layer.assignments? tree).isSome)
    (hothers : ∀ layer ∈ others, (layer.assignments? tree).isSome)
    (hoverrides : ∀ setting, lastAssigned tree (others.filter (·.isOverride)) setting =
      lastAssigned tree (layers.filter (·.isOverride)) setting)
    (hfiles : ∀ setting, lastAssigned tree (others.filter (!·.isOverride)) setting =
      lastAssigned tree (layers.filter (!·.isOverride)) setting) :
    (load FileTree.system others).run tree = (load FileTree.system layers).run tree := by
  have hwinning : winning tree others = winning tree layers := by
    funext setting
    rw [winning, winning, hoverrides, hfiles]
  rw [load_settings hothers, load_settings h, hwinning]

end

/-- A configuration depends on the values that count only. Overrides can so stand before files or behind them, absent
files anywhere, and layers next to each other in any order when they set different settings. -/
theorem load_winning (tree : FileTree) (layers : List Layer) (h : ∀ layer ∈ layers, (layer.assignments? tree).isSome) :
    (load FileTree.system layers).run tree = (settingsOf (winning tree layers), tree) ∧
      (∀ moved : List Layer, moved.filter (·.isOverride) = layers.filter (·.isOverride) →
        moved.filter (!·.isOverride) = layers.filter (!·.isOverride) →
        (load FileTree.system moved).run tree = (load FileTree.system layers).run tree) ∧
      (∀ name xs ys, layers = xs ++ ys → textFor? tree name = none →
        (load FileTree.system (xs ++ .optional name :: ys)).run tree = (load FileTree.system layers).run tree) ∧
      ∀ a b xs ys, layers = xs ++ a :: b :: ys → (∀ setting ∈ a.settings tree, setting ∉ b.settings tree) →
        (load FileTree.system (xs ++ b :: a :: ys)).run tree = (load FileTree.system layers).run tree := by
  refine ⟨load_settings h, fun moved ho hf => ?_, fun name xs ys hl hname => ?_, fun a b xs ys hl hab => ?_⟩
  · refine load_congr h (fun layer hlayer => h layer ?_) (fun setting => by rw [ho]) fun setting => by rw [hf]
    cases hover : layer.isOverride with
    | true => exact (List.mem_filter.1 (ho ▸ List.mem_filter.2 ⟨hlayer, hover⟩)).1
    | false => exact (List.mem_filter.1 (hf ▸ List.mem_filter.2 ⟨hlayer, by rw [hover]; rfl⟩)).1
  · subst hl
    refine load_congr h ?_ (lastAssigned_absent hname _ xs ys) (lastAssigned_absent hname _ xs ys)
    simp only [List.forall_mem_append, List.forall_mem_cons] at h ⊢
    exact ⟨h.1, by simp [Layer.assignments?, hname], h.2⟩
  · subst hl
    refine load_congr h ?_ (lastAssigned_swap hab _ xs ys) (lastAssigned_swap hab _ xs ys)
    simp only [List.forall_mem_append, List.forall_mem_cons] at h ⊢
    exact ⟨h.1, h.2.2.1, h.2.1, h.2.2.2⟩

/-- A width that is none does no harm when a later file has one. -/
theorem load_winning_width :
    let tree : FileTree :=
      ⟨[(["site.toml"], .file "[convert]\nbase_url = \"https://wiki\"\n[upload]\nmax_image_width = \"wide\"\n"),
        (["own.toml"], .file "upload.max_image_width = 640\n")]⟩
    let layers : List Layer := [.file "site.toml", .override "convert.images_dir" (.string "img"), .optional "own"]
    let settings : Settings :=
      { baseUrl := "https://wiki", trackerUrl := "", imagesDir := "img", imageExtension := "png", maxImageWidth := 640 }
    (load FileTree.system layers).run tree = (.ok settings, tree) ∧
      (load FileTree.system [.override "convert.images_dir" (.string "img"), .file "site.toml", .optional "own"]).run
        tree = (.ok settings, tree) ∧
      (load FileTree.system (.optional "absent" :: layers)).run tree = (.ok settings, tree) := by
  intro tree layers settings
  have h : ∀ layer ∈ layers, (layer.assignments? tree).isSome := by decide +kernel
  obtain ⟨hload, -, habsent, hswap⟩ := load_winning tree layers h
  have hsettings : settingsOf (winning tree layers) = .ok settings := by decide +kernel
  rw [hsettings] at hload
  refine ⟨hload, ?_, ?_⟩
  · rw [← hload]
    exact hswap (.file "site.toml") (.override "convert.images_dir" (.string "img")) [] [.optional "own"] rfl
      (by decide +kernel)
  · rw [← hload]
    exact habsent "absent" [] layers rfl (by decide +kernel)

end WikiPress.Config
