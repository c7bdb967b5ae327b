import WikiPress.Proofs.RecordValue

/-!
# Records in a text

A reader takes the members of an object as they come and the elements of an array in the order of the fields. In either
form the record depends only on what the text holds for each field, if it holds nothing twice.
-/

namespace WikiPress

/-- In a list of pairs that holds a key at most once, the last pair with the key is the first. -/
theorem Dictionary.lookup_ofPairs {α : Type} {name : String} {pairs : List (String × α)}
    (h : (pairs.map Prod.fst).count name ≤ 1) : (ofPairs pairs).lookup name = pairs.lookup name := by
  -- `ofPairs` starts from nothing, but behind the first pair it goes on from what is there already.
  suffices hall : ∀ entries : Dictionary α,
      (pairs.foldl (fun entries pair => insert pair.1 pair.2 entries) entries).lookup name =
        (pairs.lookup name).or (entries.lookup name) from (hall []).trans Option.or_none
  induction pairs with
  | nil => exact fun entries => rfl
  | cons pair pairs ih =>
    intro entries
    obtain ⟨key, value⟩ := pair
    rw [List.map_cons, List.count_cons] at h
    rw [List.foldl_cons, ih (by omega), lookup_insert, lookup_cons]
    by_cases hk : name = key
    · have hrest : pairs.lookup name = none := by
        rw [List.lookup_eq_none_iff]
        intro other hother
        simp only [hk, beq_self_eq_true, if_true] at h
        have hnot : key ∉ pairs.map Prod.fst := List.count_eq_zero.1 (by omega)
        simp only [bne_iff_ne, hk]
        intro he
        exact hnot (he ▸ List.mem_map_of_mem hother)
      rw [if_pos hk, if_pos hk, hrest]
      rfl
    · rw [if_neg hk, if_neg hk]

theorem mem_iff_lookup {α : Type} {name : String} {a : α} {entries : List (String × α)}
    (hcount : (entries.map Prod.fst).count name ≤ 1) : (name, a) ∈ entries ↔ entries.lookup name = some a := by
  induction entries with
  | nil => exact iff_of_false nofun nofun
  | cons entry entries ih =>
    obtain ⟨key, b⟩ := entry
    rw [List.map_cons] at hcount
    rw [List.mem_cons, Dictionary.lookup_cons]
    by_cases hk : name = key
    · subst hk
      rw [List.count_cons_self] at hcount
      have hzero : (entries.map Prod.fst).count name = 0 := by omega
      have hrest : (name, a) ∉ entries := by
        intro hmem
        exact List.count_eq_zero.1 hzero (List.mem_map_of_mem (f := Prod.fst) hmem)
      rw [if_pos rfl, or_iff_left hrest, Prod.mk.injEq, Option.some.injEq, eq_comm (a := a)]
      exact and_iff_right rfl
    · rw [List.count_cons_of_ne (Ne.symm hk)] at hcount
      rw [if_neg hk, ih hcount, or_iff_right]
      intro he
      exact hk (Prod.mk.inj he).1

namespace Json

/-! ## What a text holds -/

def Elements.items : Elements → List Source
  | .closed _ | .flawed _ _ => []
  | .more _ item rest => item :: rest.items

def Members.entries : Members → List (String × Source)
  | .closed _ | .flawed _ => []
  | .more key value rest =>
    match key.name with
    | .ok name => (name, value) :: rest.entries
    | .error _ => rest.entries

namespace Source

def items : Source → List Source
  | .array _ elements => elements.items
  | _ => []

/-- What a text holds for the fields of a record, in an object or in the array of its fields. -/
def recordFields (names : List String) : Source → List (String × Source)
  | .object _ members => members.entries
  | .array _ elements => names.zip elements.items
  | _ => []

/-- No field of a record stands twice. -/
def FieldsOnce (names : List String) (source : Source) : Prop :=
  ∀ name ∈ names, ((source.recordFields names).map Prod.fst).count name ≤ 1

end Source

theorem keys_zip_sublist {α : Type} (names : List String) (items : List α) :
    ((names.zip items).map Prod.fst).Sublist names := by
  induction names generalizing items with
  | nil => exact .slnil
  | cons name names ih =>
    cases items with
    | nil => exact List.nil_sublist _
    | cons item items => exact (ih items).cons_cons name

theorem fieldsOnce_array {names : List String} (hn : names.Nodup) {start : Nat} {elements : Elements} :
    (Source.array start elements).FieldsOnce names := by
  intro name _
  exact List.nodup_iff_count.1 (hn.sublist (keys_zip_sublist names elements.items)) name

/-- Where no field stands twice, what is there for a field is what is found first. -/
theorem mem_recordFields {names : List String} {source field : Source} (once : source.FieldsOnce names) {name : String}
    (hname : name ∈ names) :
    (name, field) ∈ source.recordFields names ↔ (source.recordFields names).lookup name = some field := by
  exact mem_iff_lookup (once name hname)

/-! ## Pairs with the same keys -/

/-- Pairs with the same key and related values. -/
def Keyed {α β : Type} (r : α → β → Prop) (entry : String × α) (pair : String × β) : Prop :=
  entry.1 = pair.1 ∧ r entry.2 pair.2

section
variable {α β : Type} {r : α → β → Prop} {entries : List (String × α)} {pairs : List (String × β)}

theorem keys_keyed (h : entries.Forall₂ (Keyed r) pairs) : entries.map Prod.fst = pairs.map Prod.fst := by
  induction h with
  | nil => rfl
  | cons hfirst _ ih => rw [List.map_cons, List.map_cons, hfirst.1, ih]

theorem lookup_keyed (h : entries.Forall₂ (Keyed r) pairs) (name : String) :
    Option.Rel r (entries.lookup name) (pairs.lookup name) := by
  induction h with
  | nil => exact .none
  | @cons entry pair _ _ hfirst _ ih =>
    obtain ⟨key, a⟩ := entry
    obtain ⟨key', b⟩ := pair
    obtain ⟨hkey, hr⟩ := hfirst
    rw [Dictionary.lookup_cons, Dictionary.lookup_cons, ← show key = key' from hkey]
    by_cases hk : name = key
    · rw [if_pos hk, if_pos hk]
      exact .some hr
    · rw [if_neg hk, if_neg hk]
      exact ih

theorem zip_keyed {as : List α} {bs : List β} (h : as.Forall₂ r bs) :
    ∀ names : List String, (names.zip as).Forall₂ (Keyed r) (names.zip bs) := by
  induction h with
  | nil => simp
  | cons hfirst _ ih =>
    intro names
    cases names with
    | nil => exact .nil
    | cons name names => exact .cons ⟨rfl, hfirst⟩ (ih names)

end

/-! ## What is read as a value -/

section
variable {α : Type} {reader : Reader α}

theorem items_of_read : ∀ {elements : Elements} {as : List α},
    elements.read reader = .ok as → elements.items.Forall₂ (reader · = .ok ·) as
  | .closed _, as, h => by
    obtain rfl : [] = as := Except.ok.inj h
    exact .nil
  | .flawed _ _, as, h => by
    rw [Elements.read] at h
    cases h
  | .more _ item rest, as, h => by
    obtain ⟨first, others, hfirst, hothers, rfl⟩ := readElements_more.1 h
    exact .cons hfirst (items_of_read hothers)

theorem entries_of_read : ∀ {members : Members} {pairs : List (String × α)},
    members.read reader = .ok pairs → members.entries.Forall₂ (Keyed (reader · = .ok ·)) pairs
  | .closed _, pairs, h => by
    obtain rfl : [] = pairs := Except.ok.inj h
    exact .nil
  | .flawed _, pairs, h => by
    rw [Members.read] at h
    cases h
  | .more key value rest, pairs, h => by
    obtain ⟨name, a, others, hname, ha, hothers, rfl⟩ := readMembers_more.1 h
    rw [Members.entries, hname]
    exact .cons ⟨rfl, ha⟩ (entries_of_read hothers)

variable (hpass : ∀ source a, reader source = .ok a → source.pass = .ok ())
include hpass

theorem pass_of_readElements : ∀ (elements : Elements) (as : List α),
    elements.read reader = .ok as → elements.pass = .ok ()
  | .closed _, _, _ => rfl
  | .flawed _ _, as, h => by
    rw [Elements.read] at h
    cases h
  | .more _ item rest, as, h => by
    obtain ⟨first, others, hfirst, hothers, -⟩ := readElements_more.1 h
    rw [Elements.pass, hpass item first hfirst]
    exact pass_of_readElements rest others hothers

theorem pass_of_readMembers : ∀ (members : Members) (pairs : List (String × α)),
    members.read reader = .ok pairs → members.pass = .ok ()
  | .closed _, _, _ => rfl
  | .flawed _, pairs, h => by
    rw [Members.read] at h
    cases h
  | .more key value rest, pairs, h => by
    obtain ⟨name, a, others, -, ha, hothers, -⟩ := readMembers_more.1 h
    rw [Members.pass, hpass value a ha]
    exact pass_of_readMembers rest others hothers

end

/-- A text that is read as a value, by what stands there. -/
inductive ReadAs : Nat → Source → Value → Prop
  | null {levels stop : Nat} : ReadAs levels (.null stop) .null
  | boolean {levels stop : Nat} {b : Bool} : ReadAs levels (.boolean b stop) (.boolean b)
  | number {levels stop : Nat} {n : Number} : ReadAs levels (.number (.ok n) stop) (.number n)
  | string {levels stop : Nat} {s : String} : ReadAs levels (.string (.ok s) stop) (.string s)
  | array {levels start : Nat} {elements : Elements} {items : List Value}
      (h : elements.read (value levels) = .ok items) : ReadAs (levels + 1) (.array start elements) (.array items)
  | object {levels start : Nat} {members : Members} {pairs : List (String × Value)}
      (h : members.read (value levels) = .ok pairs) :
      ReadAs (levels + 1) (.object start members) (.object (Dictionary.ofPairs pairs))

theorem readAs_of_value : ∀ {levels : Nat} {source : Source} {v : Value},
    value levels source = .ok v → ReadAs levels source v
  | _, .broken _, v, h => by
    rw [value] at h
    cases h
  | _, .null _, v, h => by
    rw [value] at h
    obtain rfl := Except.ok.inj h
    exact .null
  | _, .boolean _ _, v, h => by
    rw [value] at h
    obtain rfl := Except.ok.inj h
    exact .boolean
  | _, .number _ _, v, h => by
    rw [value] at h
    obtain ⟨n, rfl, rfl⟩ := map_eq_ok.1 h
    exact .number
  | _, .string _ _, v, h => by
    rw [value] at h
    obtain ⟨s, rfl, rfl⟩ := map_eq_ok.1 h
    exact .string
  | 0, .array _ _, v, h | 0, .object _ _, v, h => by
    rw [value] at h
    cases h
  | levels + 1, .array _ elements, v, h => by
    rw [value] at h
    obtain ⟨items, hitems, rfl⟩ := map_eq_ok.1 h
    exact .array hitems
  | levels + 1, .object _ members, v, h => by
    rw [value] at h
    obtain ⟨pairs, hpairs, rfl⟩ := map_eq_ok.1 h
    exact .object hpairs

/-- What can be read can be passed over. -/
theorem pass_of_value (levels : Nat) (source : Source) (v : Value) (hv : value levels source = .ok v) :
    source.pass = .ok () := by
  cases readAs_of_value hv with
  | null | boolean | number | string => rfl
  | array h => exact pass_of_readElements (pass_of_value _) _ _ h
  | object h => exact pass_of_readMembers (pass_of_value _) _ _ h

section
variable {levels : Nat} {source : Source} {v : Value} {names : List String} {fields : Fields}

/-- What a text holds for a field is what is read for it, if no field stands twice. -/
theorem lookup_recordFields (hv : value (levels + 1) source = .ok v) (form : v.recordFields? names = some fields)
    (once : source.FieldsOnce names) (name : String) (hname : name ∈ names) :
    Option.Rel (value levels · = .ok ·) ((source.recordFields names).lookup name) (fields.lookup name) := by
  cases readAs_of_value hv with
  | null | boolean | number | string => cases form
  | array h =>
    obtain ⟨-, ⟨⟩⟩ := Option.ite_none_right_eq_some.1 form
    exact lookup_keyed (zip_keyed (items_of_read h) names) name
  | object h =>
    obtain ⟨⟩ := form
    have hentries := entries_of_read h
    have hcount := once name hname
    rw [Source.recordFields, keys_keyed hentries] at hcount
    rw [Dictionary.lookup_ofPairs hcount]
    exact lookup_keyed hentries name

end

/-! ## Fields in any order -/

section
variable {σ : Type}

/-- Reads a field from what stands for it; without that the record stays as it is. -/
def Field.Step (f : Field σ) (levels : Nat) : Option Source → σ → σ → Prop
  | none, s, t => t = s
  | some source, s, t => f.read levels s source = .ok t

/-- Reads fields one after another from what is found for them. -/
def FieldsRead (levels : Nat) (found : String → Option Source) : List (Field σ) → σ → σ → Prop
  | [], s, t => t = s
  | f :: fields, s, t => ∃ m, f.Step levels (found f.name) s m ∧ FieldsRead levels found fields m t

/-- Two fields that may be read in either order. -/
def Field.Commutes (f g : Field σ) : Prop :=
  ∀ levels found found' s t, (∃ m, f.Step levels found s m ∧ g.Step levels found' m t) ↔
    ∃ m, g.Step levels found' s m ∧ f.Step levels found m t

theorem Field.Commutes.symm {f g : Field σ} (h : f.Commutes g) : g.Commutes f :=
  fun levels found found' s t => (h levels found' found s t).symm

/-- Fields that are kept in different places of a record. -/
theorem Field.commutes_of {α β : Type} {name name' : String} {reader : Nat → Reader α} {reader' : Nat → Reader β}
    {set : α → σ → σ} {set' : β → σ → σ} (h : ∀ a b s, set' b (set a s) = set a (set' b s)) :
    (Field.of name reader set).Commutes (Field.of name' reader' set') := by
  intro levels found found' s t
  cases found with
  | none => simp [Field.Step]
  | some source =>
    cases found' with
    | none => simp [Field.Step]
    | some source' =>
      simp only [Field.Step, Field.of, map_eq_ok]
      constructor
      · intro ⟨_, ⟨a, ha, hm⟩, b, hb, ht⟩
        subst hm ht
        exact ⟨set' b s, ⟨b, hb, rfl⟩, a, ha, (h a b s).symm⟩
      · intro ⟨_, ⟨b, hb, hm⟩, a, ha, ht⟩
        subst hm ht
        exact ⟨set a s, ⟨a, ha, rfl⟩, b, hb, h a b s⟩

variable {levels : Nat} {found found' : String → Option Source} {fields fields' : List (Field σ)}

theorem fieldsRead_congr (h : ∀ f ∈ fields, found f.name = found' f.name) {s t : σ} :
    FieldsRead levels found fields s t ↔ FieldsRead levels found' fields s t := by
  induction fields generalizing s with
  | nil => exact Iff.rfl
  | cons f fields ih =>
    obtain ⟨hf, h⟩ := List.forall_mem_cons.1 h
    simp only [FieldsRead, hf, ih h]

theorem fieldsRead_none (h : ∀ f ∈ fields, found f.name = none) {s t : σ} :
    FieldsRead levels found fields s t ↔ t = s := by
  induction fields generalizing s with
  | nil => exact Iff.rfl
  | cons f fields ih =>
    obtain ⟨hf, h⟩ := List.forall_mem_cons.1 h
    simp only [FieldsRead, hf, Field.Step, exists_eq_left, ih h]

theorem fieldsRead_cons_cons {f g : Field σ} {s t : σ} : FieldsRead levels found (f :: g :: fields) s t ↔
    ∃ m, (∃ m', f.Step levels (found f.name) s m' ∧ g.Step levels (found g.name) m' m) ∧
      FieldsRead levels found fields m t := by
  simp only [FieldsRead]
  constructor
  · intro ⟨m', hf, m, hg, h⟩
    exact ⟨m, ⟨m', hf, hg⟩, h⟩
  · intro ⟨m, ⟨m', hf, hg⟩, h⟩
    exact ⟨m', hf, m, hg, h⟩

theorem fieldsRead_perm (h : fields.Perm fields') : ∀ {s t : σ}, fields.Pairwise Field.Commutes →
    (FieldsRead levels found fields s t ↔ FieldsRead levels found fields' s t) := by
  induction h with
  | nil => exact fun _ => Iff.rfl
  | cons f _ ih =>
    intro s t hc
    have hrest := (List.pairwise_cons.1 hc).2
    exact exists_congr fun m => and_congr_right fun _ => ih hrest
  | swap f g fields =>
    intro s t hc
    have hfg := (List.pairwise_cons.1 hc).1 f (List.mem_cons_self ..)
    rw [fieldsRead_cons_cons, fieldsRead_cons_cons]
    exact exists_congr fun m => and_congr_left fun _ => hfg levels _ _ s m
  | trans h _ ih ih' =>
    intro s t hc
    have hc' := (h.pairwise_iff fun hfg => hfg.symm).1 hc
    exact (ih hc).trans (ih' hc')

theorem filter_name_ne {before after : List (Field σ)} {f : Field σ}
    (h : ((before ++ f :: after).map Field.name).Nodup) :
    (before ++ f :: after).filter (fun g => g.name ≠ f.name) = before ++ after := by
  have hfirst := (List.perm_middle.map Field.name).nodup_iff.1 h
  rw [List.map_cons, List.nodup_cons] at hfirst
  rw [List.filter_append, List.filter_cons_of_neg (by simp), ← List.filter_append, List.filter_eq_self]
  intro g hg
  rw [decide_eq_true_iff]
  intro he
  exact hfirst.1 (he ▸ List.mem_map_of_mem hg)

/-- A field may be read before the others. -/
theorem fieldsRead_first {f : Field σ} (hf : f ∈ fields) (hn : (fields.map Field.name).Nodup)
    (hc : fields.Pairwise Field.Commutes) {s t : σ} : FieldsRead levels found fields s t ↔
      ∃ m, f.Step levels (found f.name) s m ∧
        FieldsRead levels found (fields.filter fun g => g.name ≠ f.name) m t := by
  obtain ⟨before, after, rfl⟩ := List.append_of_mem hf
  rw [fieldsRead_perm List.perm_middle hc, filter_name_ne hn]
  rfl

/-! ## Members one by one -/

/-- The fields that were not seen yet are read from entries, none of them twice, and the others do not come again. -/
def EntriesRead (levels : Nat) (fields : List (Field σ)) (seen : List String) (entries : List (String × Source))
    (s t : σ) : Prop :=
  (∀ f ∈ fields, (entries.map Prod.fst).count f.name ≤ if f.name ∈ seen then 0 else 1) ∧
    FieldsRead levels (entries.lookup ·) (fields.filter fun f => f.name ∉ seen) s t

section
variable {seen : List String} {entries : List (String × Source)} {source : Source} {s t : σ}

theorem entriesRead_start : EntriesRead levels fields [] entries s t ↔
    (∀ name ∈ fields.map Field.name, (entries.map Prod.fst).count name ≤ 1) ∧
      FieldsRead levels (entries.lookup ·) fields s t := by
  simp [EntriesRead]

theorem entriesRead_nil : EntriesRead levels fields seen [] s t ↔ t = s := by
  rw [EntriesRead, fieldsRead_none fun f _ => rfl]
  exact and_iff_right fun f _ => Nat.zero_le _

theorem fieldsRead_unknown {name : String} (h : ∀ f ∈ fields, f.name ≠ name) :
    FieldsRead levels (List.lookup · ((name, source) :: entries)) fields s t ↔
      FieldsRead levels (entries.lookup ·) fields s t := by
  apply fieldsRead_congr
  intro f hf
  exact (Dictionary.lookup_cons ..).trans (if_neg (h f hf))

theorem entriesRead_unknown {name : String} (h : ∀ f ∈ fields, f.name ≠ name) :
    EntriesRead levels fields seen ((name, source) :: entries) s t ↔ EntriesRead levels fields seen entries s t := by
  apply and_congr
  · refine forall₂_congr fun f hf => ?_
    rw [List.map_cons, List.count_cons_of_ne (h f hf).symm]
  · exact fieldsRead_unknown fun f hf => h f (List.mem_of_mem_filter hf)

variable {f : Field σ} (hf : f ∈ fields)
include hf

theorem not_entriesRead_again (hseen : f.name ∈ seen) :
    ¬EntriesRead levels fields seen ((f.name, source) :: entries) s t := by
  intro ⟨hcount, _⟩
  have hnone := hcount f hf
  rw [if_pos hseen, List.map_cons, List.count_cons_self] at hnone
  exact Nat.not_succ_le_zero _ hnone

theorem entriesRead_known (hn : (fields.map Field.name).Nodup) (hc : fields.Pairwise Field.Commutes)
    (hseen : f.name ∉ seen) : EntriesRead levels fields seen ((f.name, source) :: entries) s t ↔
      ∃ m, f.read levels s source = .ok m ∧ EntriesRead levels fields (f.name :: seen) entries m t := by
  have hleft : f ∈ fields.filter fun f => f.name ∉ seen := List.mem_filter.2 ⟨hf, decide_eq_true hseen⟩
  have hfilter : (fields.filter fun g => g.name ∉ seen).filter (fun g => g.name ≠ f.name) =
      fields.filter fun g => g.name ∉ f.name :: seen := by
    rw [List.filter_filter]
    apply List.filter_congr
    intro g _
    simp
  have hrest (m : σ) : FieldsRead levels (List.lookup · ((f.name, source) :: entries))
      (fields.filter fun g => g.name ∉ f.name :: seen) m t ↔
        FieldsRead levels (entries.lookup ·) (fields.filter fun g => g.name ∉ f.name :: seen) m t := by
    apply fieldsRead_unknown
    intro g hg he
    exact of_decide_eq_true (List.mem_filter.1 hg).2 (he ▸ List.mem_cons_self ..)
  have hcounts : (∀ g ∈ fields, (((f.name, source) :: entries).map Prod.fst).count g.name ≤
      if g.name ∈ seen then 0 else 1) ↔
        ∀ g ∈ fields, (entries.map Prod.fst).count g.name ≤ if g.name ∈ f.name :: seen then 0 else 1 := by
    refine forall₂_congr fun g hg => ?_
    rw [List.map_cons]
    by_cases hg : g.name = f.name
    · rw [hg, List.count_cons_self, if_neg hseen, if_pos (List.mem_cons_self ..), Nat.add_le_add_iff_right (n := 1)]
    · rw [List.count_cons_of_ne (Ne.symm hg)]
      simp only [List.mem_cons, hg, false_or]
  rw [EntriesRead, fieldsRead_first hleft (hn.sublist (List.filter_sublist.map _)) (hc.filter _), hfilter, hcounts,
    List.lookup_cons_self]
  simp only [hrest, Field.Step, EntriesRead]
  constructor
  · intro ⟨hcounts, m, hm, h⟩
    exact ⟨m, hm, hcounts, h⟩
  · intro ⟨m, hm, hcounts, h⟩
    exact ⟨hcounts, m, hm, h⟩

end

/-! ## Records -/

section
variable (hn : (fields.map Field.name).Nodup) (hopt : ∀ f ∈ fields, f.required = false)
include hn hopt

theorem readRecord_elements {reader : Reader Value} (name : String) (total : Nat) {t : σ} :
    ∀ {elements : Elements} {items : List Value}, elements.read reader = .ok items → ∀ s : σ,
      elements.readRecord name total levels s fields = .ok t ↔
        elements.items.length ≤ fields.length ∧
          FieldsRead levels (((fields.map Field.name).zip elements.items).lookup ·) fields s t := by
  induction fields with
  | nil =>
    intro elements items h s
    cases elements with
    | closed stop =>
      show Except.ok s = Except.ok t ↔ 0 ≤ 0 ∧ t = s
      simp [eq_comm]
    | flawed flaw surplus =>
      rw [Elements.read] at h
      cases h
    | more start item rest =>
      refine iff_of_false ?_ fun h => Nat.not_succ_le_zero _ h.1
      intro h
      rw [Elements.readRecord] at h
      cases h
  | cons f fields ih =>
    intro elements items h s
    rw [List.map_cons, List.nodup_cons] at hn
    cases elements with
    | closed stop =>
      have hfind : (f :: fields).find? (·.required) = none := by
        rw [List.find?_eq_none]
        intro g hg
        simp [hopt g hg]
      rw [Elements.readRecord, hfind, Elements.items, List.zip_nil_right, fieldsRead_none fun g _ => rfl]
      simp [eq_comm]
    | flawed flaw surplus =>
      rw [Elements.read] at h
      cases h
    | more start item rest =>
      obtain ⟨_, others, -, hothers, -⟩ := readElements_more.1 h
      have ih := ih hn.2 (fun g hg => hopt g (List.mem_cons_of_mem _ hg)) hothers
      have hrest (m : σ) :
          FieldsRead levels (List.lookup · ((f.name, item) :: (fields.map Field.name).zip rest.items)) fields m t ↔
            FieldsRead levels (((fields.map Field.name).zip rest.items).lookup ·) fields m t := by
        apply fieldsRead_unknown
        intro g hg he
        exact hn.1 (he ▸ List.mem_map_of_mem hg)
      rw [Elements.readRecord, Elements.items, List.map_cons, List.zip_cons_cons, FieldsRead, List.lookup_cons_self]
      simp only [bind_eq_ok, ih, hrest, Field.Step, List.length_cons, Nat.add_le_add_iff_right]
      constructor
      · intro h
        obtain ⟨m, hm, hlength, h⟩ := h
        exact ⟨hlength, m, hm, h⟩
      · intro h
        obtain ⟨hlength, m, hm, h⟩ := h
        exact ⟨m, hm, hlength, h⟩

variable (hc : fields.Pairwise Field.Commutes)
include hc

theorem readRecord_members {reader : Reader Value} (hpass : ∀ source v, reader source = .ok v → source.pass = .ok ())
    {t : σ} : ∀ {members : Members} {pairs : List (String × Value)}, members.read reader = .ok pairs →
      ∀ (seen : List String) (s : σ), members.readRecord fields levels seen s = .ok t ↔
        EntriesRead levels fields seen members.entries s t
  | .closed stop, _, _, seen, s => by
    have hfind : fields.find? (fun f => f.required && !seen.contains f.name) = none := by
      rw [List.find?_eq_none]
      intro f hf
      simp [hopt f hf]
    rw [Members.readRecord, hfind, Members.entries, entriesRead_nil]
    exact ⟨fun h => (Except.ok.inj h).symm, fun h => congrArg Except.ok h.symm⟩
  | .flawed _, pairs, h, _, _ => by
    rw [Members.read] at h
    cases h
  | .more key value rest, pairs, h, seen, s => by
    obtain ⟨name, v, others, hname, hv, hothers, -⟩ := readMembers_more.1 h
    have ih := readRecord_members hpass (t := t) hothers
    rw [Members.readRecord, Members.entries, hname, bind_eq_ok]
    simp only [Except.ok.injEq, exists_eq_left']
    -- What belongs to no field is passed over. A field is read here, though others may come before it in the record.
    cases hfind : fields.find? (·.name == name) with
    | none =>
      have hunknown : ∀ f ∈ fields, f.name ≠ name := by
        intro f hf
        simpa using List.find?_eq_none.1 hfind f hf
      rw [hpass value v hv]
      exact (ih seen s).trans (entriesRead_unknown hunknown).symm
    | some f =>
      have hf := List.mem_of_find?_eq_some hfind
      obtain rfl : f.name = name := by simpa using List.find?_some hfind
      by_cases hseen : f.name ∈ seen
      · refine iff_of_false ?_ (not_entriesRead_again hf hseen)
        simp [hseen]
      · rw [entriesRead_known hf hn hc hseen]
        simp only [List.contains_iff_mem, hseen, if_false, bind_eq_ok, ih]

/-- **A record in a text.** It is read from what the text holds for each field, and no field may stand twice. -/
theorem record_eq_ok_text {name : String} {empty t : σ} {source : Source} {v : Value}
    (hv : value levels source = .ok v) : record name fields empty levels source = .ok t ↔
      ∃ inner given, levels = inner + 1 ∧ v.recordFields? (fields.map Field.name) = some given ∧
        source.FieldsOnce (fields.map Field.name) ∧
          FieldsRead inner ((source.recordFields (fields.map Field.name)).lookup ·) fields empty t := by
  cases readAs_of_value hv with
  | null | boolean | number | string =>
    refine iff_of_false nofun ?_
    intro h
    obtain ⟨_, _, _, form, _⟩ := h
    cases form
  | @array inner _ elements items h =>
    have hlength := (items_of_read h).length_eq
    rw [record, readRecord_elements hn hopt name fields.length h, hlength, Value.recordFields?, List.length_map]
    constructor
    · intro h
      obtain ⟨hle, hread⟩ := h
      exact ⟨inner, _, rfl, if_pos hle, fieldsOnce_array hn, hread⟩
    · intro h
      obtain ⟨_, _, hlevels, form, _, hread⟩ := h
      obtain rfl := Nat.succ.inj hlevels
      exact ⟨(Option.ite_none_right_eq_some.1 form).1, hread⟩
  | @object inner _ _ _ h =>
    rw [record, readRecord_members hn hopt hc (pass_of_value inner) h, entriesRead_start]
    constructor
    · intro h
      obtain ⟨once, hread⟩ := h
      exact ⟨inner, _, rfl, rfl, once, hread⟩
    · intro h
      obtain ⟨_, _, hlevels, _, once, hread⟩ := h
      obtain rfl := Nat.succ.inj hlevels
      exact ⟨once, hread⟩

end

end

end Json

end WikiPress
