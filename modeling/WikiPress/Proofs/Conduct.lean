import WikiPress.Cli.Run
import WikiPress.Proofs.Loading
import WikiPress.Proofs.Publication

/-!
# What a run does to files

A command reads all that it needs before it writes, and it writes once, at its end. So a run that fails leaves every
file as it was, and one that succeeds changes at most the file that it was told to write (`run_conduct`).
-/

namespace WikiPress.Cli

/-! ## Options -/

theorem add_eq_ok {flags : List Flag} {flag : Flag} {value : Option String} {given after : Given} :
    given.add flags flag value = .ok after ↔ ∃ v, value = some v ∧
      (flag ∈ flags ∧ given.get? flag = none ∧ flag.accepts v = true) ∧
      { given with options := (flag, v) :: given.options } = after := by
  cases value with
  | none => simp [Given.add]
  | some v =>
    simp only [Given.add, Option.some.injEq, exists_eq_left']
    split
    · rename_i h
      simp only [h, true_and, Except.ok.injEq]
    · rename_i h
      simp only [h, false_and, reduceCtorEq]

theorem get?_cons (given : Given) (flag flag' : Flag) (v : String) :
    ({ given with options := (flag', v) :: given.options } : Given).get? flag =
      if flag = flag' then some v else given.get? flag :=
  Dictionary.lookup_cons flag flag' v given.options

theorem options_addInput {s : String} {given after : Given} (h : given.addInput s = .ok after) :
    after.options = given.options := by
  unfold Given.addInput at h
  split at h
  · cases h
    rfl
  · cases h

/-- Reading finds the options among the items, and each is one that the command knows. -/
theorem readGiven_get? {flags : List Flag} (flag : Flag) (value : String) :
    ∀ {items : List Item} {given after : Given}, readGiven flags items given = .ok after →
      (after.get? flag = some value ↔ given.get? flag = some value ∨ .option flag (some value) ∈ items) ∧
        (.option flag (some value) ∈ items → flag ∈ flags)
  | [], given, after, h => by
    obtain rfl : given = after := Except.ok.inj h
    simp
  | .option flag' v :: items, given, after, h => by
    obtain ⟨given', hadd, hrest⟩ := bind_eq_ok.1 h
    obtain ⟨v, rfl, ⟨hmem, hnew, -⟩, rfl⟩ := add_eq_ok.1 hadd
    obtain ⟨hget, hknown⟩ := readGiven_get? flag value hrest
    rw [get?_cons] at hget
    by_cases hf : flag = flag'
    · subst hf
      simp [hget, hnew, hmem, eq_comm]
    · simpa [hget, hf] using hknown
  | .word s :: items, given, after, h => by
    obtain ⟨given', hadd, hrest⟩ := bind_eq_ok.1 h
    have hrec := readGiven_get? flag value hrest
    simpa [Given.get?, options_addInput hadd] using hrec
  | .wordsOnly :: items, given, after, h => by
    have hrest : readGiven flags items given = .ok after := h
    simpa using readGiven_get? flag value hrest
  | .help :: _, _, _, h => nomatch h
  | .version :: _, _, _, h => nomatch h
  | .unknown :: _, _, _, h => nomatch h

theorem output_ofGiven? {verb : Verb} {given : Given} {command : Command}
    (h : Command.ofGiven? verb given = some command) :
    command.output = if .output ∈ verb.flags then given.get? .output else none := by
  obtain ⟨input, -, h⟩ := Option.bind_eq_some_iff.1 h
  cases verb with
  | substituteIds =>
    obtain ⟨mapping, -, h⟩ := Option.bind_eq_some_iff.1 h
    cases h
    rfl
  | _ =>
    cases h
    rfl

theorem output_ofVerb {verb : Verb} {outer : Given} {items : List Item} {invocation : Invocation}
    (h : Invocation.ofVerb verb outer items = .ok invocation) (path : String) :
    invocation.command.output = some path ↔ .option .output (some path) ∈ items := by
  obtain ⟨given, hread, h⟩ := bind_eq_ok.1 h
  obtain ⟨hget, hknown⟩ := readGiven_get? .output path hread
  have hnone : ({} : Given).get? .output = none := rfl
  rw [hnone] at hget
  cases hc : Command.ofGiven? verb given with
  | none =>
    rw [hc] at h
    cases h
  | some command =>
    rw [hc] at h
    cases h
    show command.output = some path ↔ _
    rw [output_ofGiven? hc]
    by_cases hm : Flag.output ∈ verb.flags
    · rw [if_pos hm, hget]
      simp
    · rw [if_neg hm]
      exact iff_of_false nofun fun hi => hm (hknown hi)

theorem output_ofItems (path : String) {items : List Item} {outer : Given} {invocation : Invocation}
    (h : Invocation.ofItems items outer = .ok invocation) :
    invocation.command.output = some path ↔ .option .output (some path) ∈ items := by
  induction items generalizing outer with
  | nil => cases h
  | cons item items ih =>
    cases item with
    | option flag value =>
      obtain ⟨outer', hadd, hrest⟩ := bind_eq_ok.1 h
      obtain ⟨v, rfl, ⟨hmem, -, -⟩, -⟩ := add_eq_ok.1 hadd
      obtain rfl := List.mem_singleton.1 hmem
      rw [ih hrest]
      simp
    | word name =>
      unfold Invocation.ofItems at h
      split at h
      · rw [output_ofVerb h path]
        simp
      · cases h
    | wordsOnly => cases h
    | help => cases h
    | version => cases h
    | unknown => cases h

/-- The output of a command is the one that the arguments name. -/
theorem output_iff {arguments : List String} {invocation : Invocation}
    (h : Invocation.ofArguments arguments = .ok invocation) (path : String) :
    invocation.command.output = some path ↔ .option .output (some path) ∈ items arguments :=
  output_ofItems path h

/-! ## Inputs -/

/-- Looking changes no file. Where it gives an input, the input has a property. -/
def Looks {α : Type} (inputs : ExceptT String (StateM FileTree) α) (Q : α → Prop) : Prop :=
  ∀ tree : FileTree, (inputs.run.run tree).2 = tree ∧ ∀ a, (inputs.run.run tree).1 = .ok a → Q a

namespace Looks

variable {α β : Type} {Q : α → Prop}

theorem pure {a : α} (h : Q a) : Looks (pure a) Q :=
  fun _ => ⟨rfl, fun _ he => Except.ok.inj he ▸ h⟩

theorem throw (complaint : String) : Looks (throw complaint) Q :=
  fun _ => ⟨rfl, fun _ he => nomatch he⟩

theorem bind {inputs : ExceptT String (StateM FileTree) α} {next : α → ExceptT String (StateM FileTree) β}
    {R : β → Prop} (h : Looks inputs Q) (hn : ∀ a, Q a → Looks (next a) R) : Looks (inputs >>= next) R := by
  intro tree
  obtain ⟨htree, hQ⟩ := h tree
  generalize hrun : inputs.run.run tree = end' at htree hQ
  obtain ⟨result, tree'⟩ := end'
  obtain rfl : tree' = tree := htree
  rw [ExceptT.run_bind, run_bind hrun]
  cases result with
  | ok a => exact hn a (hQ a rfl) tree'
  | error complaint => exact ⟨rfl, fun _ he => nomatch he⟩

end Looks

theorem readSource_looks (path : String) : Looks (readSource FileTree.system path) fun _ => True := by
  have asked : Looks (liftM (FileTree.system.read path)) fun _ => True := fun _ => ⟨rfl, fun _ _ => trivial⟩
  apply asked.bind
  intro result _
  split
  · exact .pure trivial
  · exact .throw _

theorem readInput_looks {α : Type} (kind : String) (parse : String → Except String α) (path : String) :
    Looks (readInput FileTree.system kind parse path) fun _ => True := by
  apply (readSource_looks path).bind
  intro text _
  split
  · exact .pure trivial
  · exact .throw _

theorem readDocument_looks (path : String) : Looks (readDocument FileTree.system path) fun _ => True := by
  apply (readInput_looks "document" Json.Value.ofText path).bind
  intro tree _
  split
  · exact .pure trivial
  · exact .throw _

theorem readNamed_looks {α : Type} {read : String → ExceptT String (StateM FileTree) (Dictionary α)}
    (h : ∀ path, Looks (read path) fun _ => True) (name : Option String) :
    Looks (readNamed read name) fun _ => True := by
  cases name with
  | none => exact .pure trivial
  | some path => exact h path

theorem convertInputs_looks (options : Options) (input : String)
    (output title pageMapping attachments : Option String) :
    Looks (convertInputs FileTree.system options input output title pageMapping attachments) (·.output = output) := by
  apply (readDocument_looks input).bind
  intro document _
  apply (readNamed_looks (readInput_looks _ _) pageMapping).bind
  intro pages _
  apply (readNamed_looks (readInput_looks _ _) attachments).bind
  intro fileNames _
  exact .pure rfl

theorem substituteInputs_looks (input mapping : String) :
    Looks (substituteInputs FileTree.system input mapping) fun _ => True := by
  apply (readInput_looks "document" Json.Value.ofText input).bind
  intro tree _
  apply (readInput_looks _ _ mapping).bind
  intro ids _
  exact .pure trivial

/-! ## Commands -/

/-- What a command leaves behind that was given an output, or none. -/
def Conduct (output : Option String) (before : FileTree) (report : Report) (after : FileTree) : Prop :=
  match report.complaint, output with
  | some _, _ => report.stdout = "" ∧ before.SameTexts after
  | none, some path => report.stdout = "" ∧ ∃ text, before.Wrote path text after
  | none, none => before.SameTexts after

section
variable {output : Option String} {before after : FileTree} {report : Report}

theorem Conduct.failed (h : Conduct output before report after) (hs : report.status ≠ 0) :
    before.SameTexts after ∧ report.stdout = "" := by
  unfold Conduct at h
  unfold Report.status at hs
  cases hc : report.complaint with
  | none => simp [hc] at hs
  | some complaint =>
    rw [hc] at h
    exact ⟨h.2, h.1⟩

theorem Conduct.succeeded (h : Conduct output before report after) (hs : report.status = 0) :
    before.SameTexts after ∨ ∃ path text, output = some path ∧ before.Wrote path text after := by
  unfold Conduct at h
  unfold Report.status at hs
  cases hc : report.complaint with
  | some complaint => simp [hc] at hs
  | none =>
    rw [hc] at h
    cases output with
    | none => exact Or.inl h
    | some path =>
      obtain ⟨-, text, hwrote⟩ := h
      exact Or.inr ⟨path, text, rfl, hwrote⟩

theorem Conduct.silent {path : String} (h : Conduct (some path) before report after) : report.stdout = "" := by
  unfold Conduct at h
  cases hc : report.complaint <;> rw [hc] at h <;> exact h.1

end

/-- A command that behaves so wherever it is run. -/
def Behaves (output : Option String) (command : StateM FileTree Report) : Prop :=
  ∀ before : FileTree, Conduct output before (command.run before).1 (command.run before).2

theorem behaves_pure (report : Report) (h : report.stdout = "") (hc : report.complaint.isSome)
    (output : Option String) :
    Behaves output (pure report) := by
  intro before
  show Conduct output before report before
  obtain ⟨complaint, hc⟩ := Option.isSome_iff_exists.1 hc
  unfold Conduct
  rw [hc]
  exact ⟨h, .refl before⟩

theorem withInputs_behaves {α : Type} {inputs : ExceptT String (StateM FileTree) α}
    {command : α → StateM FileTree Report}
    {output : Option String} {Q : α → Prop} (h : Looks inputs Q) (hc : ∀ a, Q a → Behaves output (command a)) :
    Behaves output (withInputs inputs command) := by
  intro before
  obtain ⟨htree, hQ⟩ := h before
  unfold withInputs
  generalize hrun : inputs.run.run before = end' at htree hQ
  obtain ⟨result, tree⟩ := end'
  obtain rfl : tree = before := htree
  rw [run_bind hrun]
  cases result with
  | ok a => exact hc a (hQ a rfl) tree
  | error complaint => exact ⟨rfl, .refl tree⟩

theorem deliver_behaves (output : Option String) (notices : List Notice) (text : String) :
    Behaves output (deliver FileTree.system output { notices } text) := by
  intro before
  cases output with
  | none => exact .refl before
  | some path =>
    unfold deliver
    cases hw : before.write path text with
    | ok after =>
      have hwrite : (FileTree.system.write path text).run before = (.ok (), after) := FileTree.update_ok hw
      simp only [run_bind hwrite]
      exact ⟨rfl, text, FileTree.wrote_of_write hw⟩
    | error fault =>
      have hwrite : (FileTree.system.write path text).run before = (.error fault, before) := FileTree.update_error hw
      simp only [run_bind hwrite]
      exact ⟨rfl, .refl before⟩

theorem convert_behaves {publication : Publication} {output : Option String} (h : publication.output = output) :
    Behaves output (convert FileTree.system publication) := by
  intro before
  unfold convert
  cases output with
  | none =>
    have hrun : (publish FileTree.system publication).run before =
        (.ok ⟨.inMemory publication.text, publication.mentions⟩, before) := by
      simp only [publish, h]
      rfl
    rw [run_bind hrun]
    exact .refl before
  | some path =>
    have hends := publish_ends publication h before
    generalize hrun : (publish FileTree.system publication).run before = end' at hends
    obtain ⟨result, after⟩ := end'
    obtain ⟨hwritten, hok⟩ := hends
    rw [run_bind hrun]
    cases result with
    | error failure => exact ⟨rfl, hwritten.2⟩
    | ok published =>
      obtain rfl := hok published rfl
      exact ⟨rfl, publication.text, hwritten⟩

theorem runCommand_behaves (settings : Settings) (command : Command) :
    Behaves command.output (runCommand FileTree.system settings command) := by
  cases command with
  | convert input output title pageMapping attachments baseUrl trackerUrl imagesDir =>
    exact withInputs_behaves (convertInputs_looks _ input output title pageMapping attachments) fun _ => convert_behaves
  | substituteIds input mapping output =>
    exact withInputs_behaves (substituteInputs_looks input mapping) fun _ _ => deliver_behaves output [] _
  | clampWidths input maxWidth output =>
    exact withInputs_behaves (readInput_looks _ _ input) fun _ _ => deliver_behaves output _ _
  | linkedPages input baseUrl =>
    unfold runCommand
    simp only
    split
    · exact behaves_pure _ rfl rfl _
    · exact withInputs_behaves (readDocument_looks input) fun _ _ before => .refl before

/-! ## The program -/

theorem invoke_behaves (invocation : Invocation) :
    Behaves invocation.command.output (invoke FileTree.system invocation) := by
  intro before
  unfold invoke
  rw [run_bind (Config.run_load before (settingsLayers invocation.config))]
  split
  · exact runCommand_behaves _ invocation.command before
  · exact behaves_pure _ rfl rfl _ before

/-- **A failing run leaves the files alone.** With a status other than 0, every file is as before and nothing is written
to the standard output. With status 0, every file is as before but the one that the output option names; and a command
that was given this option writes nothing to the standard output. -/
theorem run_conduct (selection : String) (arguments : List String) (before : FileTree) :
    let (outcome, after) := (run FileTree.system selection arguments).run before
    (outcome.status ≠ 0 → before.SameTexts after ∧ outcome.stdout = "") ∧
      (outcome.status = 0 → before.SameTexts after ∨
        ∃ path text, .option .output (some path) ∈ items arguments ∧ before.Wrote path text after) ∧
      ∀ invocation path, Invocation.ofArguments arguments = .ok invocation →
        .option .output (some path) ∈ items arguments → outcome.stdout = "" ∧ outcome.explained = false := by
  unfold run
  cases hargs : Invocation.ofArguments arguments with
  | error ending =>
    refine ⟨?_, fun _ => Or.inl (.refl before), fun _ _ he => nomatch he⟩
    intro hstatus
    cases ending with
    | misuse => exact ⟨.refl before, rfl⟩
    | help => exact absurd rfl hstatus
    | version => exact absurd rfl hstatus
  | ok invocation =>
    have hconduct := invoke_behaves invocation before
    generalize hrun : (invoke FileTree.system invocation).run before = end' at hconduct
    obtain ⟨report, after⟩ := end'
    simp only [run_bind hrun]
    refine ⟨hconduct.failed, fun hs => ?_, fun invocation' path he hi => ⟨?_, rfl⟩⟩
    · obtain hsame | ⟨path, text, ho, hwrote⟩ := hconduct.succeeded hs
      · exact Or.inl hsame
      · exact Or.inr ⟨path, text, (output_iff hargs path).1 ho, hwrote⟩
    · rw [(output_iff hargs path).2 hi] at hconduct
      exact hconduct.silent

-- A page that cannot be read is not written over, even by itself.
example :
    let before : FileTree := ⟨[(["page.json"], .file "[")]⟩
    ((run FileTree.system "" ["convert", "page.json", "-o", "page.json"]).run before).2 = before := by
  decide +kernel

end WikiPress.Cli
