import HotFields.Command.Arguments

namespace HotFields

/-- What features are called. -/
def Feature.names : List String := ["argument_uses", "global_operands", "deduplicate"]

/-- The first name that no feature has. -/
def Feature.firstUnknown (names : List String) : Option String :=
  names.find? fun name => name ∉ Feature.names

theorem Feature.name_of_ofName? {name : String} {feature : Feature}
    (h : Feature.ofName? name = some feature) : feature.name = name := by
  have hfound := List.find?_some h
  exact beq_iff_eq.mp hfound

theorem Feature.name_mem_names (feature : Feature) : feature.name ∈ Feature.names := by
  cases feature <;> decide

theorem Feature.notMem_names_of_ofName? {name : String} (h : Feature.ofName? name = none) :
    name ∉ Feature.names := by
  intro known
  simp only [Feature.names, List.mem_cons, List.not_mem_nil, or_false] at known
  rcases known with rfl | rfl | rfl <;> cases h

theorem Feature.firstUnknown_eq_none_iff {names : List String} :
    Feature.firstUnknown names = none ↔ ∀ name ∈ names, name ∈ Feature.names := by
  simp [Feature.firstUnknown]

theorem Feature.name_inj {f g : Feature} : f.name = g.name ↔ f = g := by
  cases f <;> cases g <;> decide

namespace Options

/-- Whether a feature is on. -/
def has (o : Options) : Feature → Bool
  | .argumentUses => o.traverseArgumentUses
  | .globalOperands => o.attributeGlobalOperands
  | .deduplicate => o.deduplicate

theorem ext_has {o u : Options} (entrySymbol : o.entrySymbol = u.entrySymbol) (scope : o.scope = u.scope)
    (features : ∀ feature, o.has feature = u.has feature) : o = u := by
  have hargument := features .argumentUses
  have hglobal := features .globalOperands
  have hdeduplicate := features .deduplicate
  cases o
  cases u
  simp_all [has]

theorem entrySymbol_set (o : Options) (feature : Feature) (enabled : Bool) :
    (o.set feature enabled).entrySymbol = o.entrySymbol := by
  cases feature <;> rfl

theorem scope_set (o : Options) (feature : Feature) (enabled : Bool) : (o.set feature enabled).scope = o.scope := by
  cases feature <;> rfl

theorem has_set (o : Options) (feature other : Feature) (enabled : Bool) :
    (o.set feature enabled).has other = if other = feature then enabled else o.has other := by
  cases feature <;> cases other <;> rfl

/-- Every feature that a list names is switched. -/
def switched (o : Options) (names : List String) (enabled : Bool) : Options where
  entrySymbol := o.entrySymbol
  scope := o.scope
  traverseArgumentUses :=
    if Feature.argumentUses.name ∈ names then enabled else o.traverseArgumentUses
  attributeGlobalOperands :=
    if Feature.globalOperands.name ∈ names then enabled else o.attributeGlobalOperands
  deduplicate := if Feature.deduplicate.name ∈ names then enabled else o.deduplicate

theorem has_switched (o : Options) (names : List String) (enabled : Bool) (feature : Feature) :
    (o.switched names enabled).has feature = if feature.name ∈ names then enabled else o.has feature := by
  cases feature <;> rfl

theorem switched_nil (o : Options) (enabled : Bool) : o.switched [] enabled = o :=
  ext_has rfl rfl fun feature => has_switched o [] enabled feature

/-- Switching a feature on its own is switching one more name of the list. -/
theorem set_switched (o : Options) (feature : Feature) (names : List String) (enabled : Bool) :
    (o.set feature enabled).switched names enabled = o.switched (feature.name :: names) enabled := by
  apply ext_has
  · exact o.entrySymbol_set feature enabled
  · exact o.scope_set feature enabled
  · intro other
    rw [has_switched, has_switched, has_set]
    by_cases hnamed : other.name ∈ names
    · rw [if_pos hnamed, if_pos (List.mem_cons_of_mem _ hnamed)]
    · simp only [hnamed, List.mem_cons, Feature.name_inj, or_false, if_false]

/-- Switches the features with the given names, one after another. -/
def switchEach (o : Options) (names : List String) (enabled : Bool) : Except ConfigFault Options :=
  names.foldlM (fun o name => (Options.setNamed o name enabled).mapError .choice) o

/-- Features are switched up to the first unknown name, which decides alone if there is one. -/
theorem switchEach_eq (o : Options) (names : List String) (enabled : Bool) :
    o.switchEach names enabled =
      match Feature.firstUnknown names with
      | some name => .error (.choice (.unknownFeature name))
      | none => .ok (o.switched names enabled) := by
  induction names generalizing o with
  | nil => rw [switched_nil]; rfl
  | cons name rest ih =>
    rw [switchEach, List.foldlM_cons, setNamed, Feature.firstUnknown, List.find?_cons]
    cases hname : Feature.ofName? name with
    | none =>
      have unknown := Feature.notMem_names_of_ofName? hname
      simp only [unknown, not_false_eq_true, decide_true]
      rfl
    | some feature =>
      have known : name ∈ Feature.names := Feature.name_of_ofName? hname ▸ feature.name_mem_names
      have hnext := ih (o.set feature enabled)
      rw [set_switched, Feature.name_of_ofName? hname] at hnext
      simp only [known, not_true_eq_false, decide_false]
      exact hnext

end Options

namespace Command.Choices

/-- The options that a command line begins with: those in its file, or else the default. -/
def base (c : Choices) (read : FileReader) : Except ConfigFault Options :=
  match c.config with
  | some path => Options.load read path
  | none => .ok {}

/-- The options that decide on precision where no list does. -/
def preset (c : Choices) (base : Options) : Options :=
  match c.profile with
  | some profile => Options.forProfile profile
  | none => base

/-- The options that a command line asks for, option by option. -/
def resolved (c : Choices) (base : Options) : Options where
  entrySymbol := c.entry.getD base.entrySymbol
  scope := if c.allFunctions then .allFunctions else base.scope
  traverseArgumentUses := decide ("argument_uses" ∉ c.disable ∧
    ("argument_uses" ∈ c.enable ∨ (c.preset base).traverseArgumentUses = true))
  attributeGlobalOperands := decide ("global_operands" ∉ c.disable ∧
    ("global_operands" ∈ c.enable ∨ (c.preset base).attributeGlobalOperands = true))
  deduplicate := decide (c.noDedup = false ∧ "deduplicate" ∉ c.disable ∧
    ("deduplicate" ∈ c.enable ∨ base.deduplicate = true))

/-- The options before the lists of features are looked at. -/
def unswitched (c : Choices) (base : Options) : Options where
  entrySymbol := c.entry.getD base.entrySymbol
  scope := if c.allFunctions then .allFunctions else base.scope
  traverseArgumentUses := (c.preset base).traverseArgumentUses
  attributeGlobalOperands := (c.preset base).attributeGlobalOperands
  deduplicate := base.deduplicate

/-- The same options layer by layer: features switched on, features switched off, de-duplication switched off. -/
def layered (c : Choices) (base : Options) : Options :=
  let o := ((c.unswitched base).switched c.enable true).switched c.disable false
  if c.noDedup then { o with deduplicate := false } else o

theorem switch_off_on (off on : Prop) [Decidable off] [Decidable on] (otherwise : Bool) :
    (if off then false else if on then true else otherwise) = decide (¬off ∧ (on ∨ otherwise = true)) := by
  by_cases hoff : off
  · simp [hoff]
  · by_cases hon : on
    · simp [hoff, hon]
    · simp [hoff, hon]

/-- Later layers overwrite earlier ones, so that for each option one layer decides. -/
theorem layered_eq_resolved (c : Choices) (base : Options) : c.layered base = c.resolved base := by
  have hargument := switch_off_on ("argument_uses" ∈ c.disable) ("argument_uses" ∈ c.enable)
    (c.preset base).traverseArgumentUses
  have hglobal := switch_off_on ("global_operands" ∈ c.disable) ("global_operands" ∈ c.enable)
    (c.preset base).attributeGlobalOperands
  have hdeduplicate := switch_off_on ("deduplicate" ∈ c.disable) ("deduplicate" ∈ c.enable) base.deduplicate
  unfold layered resolved
  rw [← hargument, ← hglobal]
  cases c.noDedup with
  | true => rfl
  | false =>
    rw [if_neg Bool.false_ne_true]
    simp only [true_and, ← hdeduplicate]
    rfl

theorem options_eq_bind (c : Choices) (read : FileReader) :
    c.options read = (c.base read).bind fun base =>
      ((c.unswitched base).switchEach c.enable true).bind fun o =>
      (o.switchEach c.disable false).bind fun o =>
        .ok (if c.noDedup then { o with deduplicate := false } else o) := by
  unfold options base unswitched preset
  cases c.config <;> cases c.profile <;> cases c.entry <;> cases c.allFunctions <;> rfl

theorem options_of_error {c : Choices} {read : FileReader} {fault : ConfigFault} (h : c.base read = .error fault) :
    c.options read = .error fault := by
  rw [options_eq_bind, h]
  rfl

theorem options_of_base {c : Choices} {read : FileReader} {base : Options} (h : c.base read = .ok base) :
    c.options read =
      match Feature.firstUnknown (c.enable ++ c.disable) with
      | some name => .error (.choice (.unknownFeature name))
      | none => .ok (c.resolved base) := by
  rw [options_eq_bind, h, Feature.firstUnknown, List.find?_append, ← layered_eq_resolved]
  simp only [Except.bind, Options.switchEach_eq, Feature.firstUnknown]
  cases c.enable.find? fun name => name ∉ Feature.names with
  | some name => rfl
  | none =>
    cases c.disable.find? fun name => name ∉ Feature.names with
    | some name => rfl
    | none => rfl

theorem options_eq_ok_iff {c : Choices} {read : FileReader} {o : Options} :
    c.options read = .ok o ↔ ∃ base, c.base read = .ok base ∧
      (∀ name ∈ c.enable ++ c.disable, name ∈ Feature.names) ∧ c.resolved base = o := by
  cases hbase : c.base read with
  | error fault =>
    rw [options_of_error hbase]
    simp
  | ok base =>
    rw [options_of_base hbase, ← Feature.firstUnknown_eq_none_iff]
    cases Feature.firstUnknown (c.enable ++ c.disable) with
    | some name => simp
    | none => simp

/-- Only which names a list has matters, not where or how often. -/
theorem resolved_congr (c : Choices) (base : Options) {enable disable : List String}
    (henable : ∀ name, name ∈ enable ↔ name ∈ c.enable) (hdisable : ∀ name, name ∈ disable ↔ name ∈ c.disable) :
    resolved { c with enable, disable } base = c.resolved base := by
  refine Options.ext_has rfl rfl fun feature => ?_
  cases feature with
  | argumentUses => exact decide_eq_decide.mpr (by simp only [henable, hdisable]; rfl)
  | globalOperands => exact decide_eq_decide.mpr (by simp only [henable, hdisable]; rfl)
  | deduplicate => exact decide_eq_decide.mpr (by simp only [henable, hdisable])

theorem has_resolved_of_mem_disable {c : Choices} {feature : Feature} (h : feature.name ∈ c.disable) (base : Options) :
    (c.resolved base).has feature = false := by
  cases feature with
  | argumentUses => exact decide_eq_false fun on => on.1 h
  | globalOperands => exact decide_eq_false fun on => on.1 h
  | deduplicate => exact decide_eq_false fun on => on.2.1 h

/-- Options come from the file or the default and are refused for the first unknown feature of both lists together. If
there is none, each of them has the value that the command line as a whole gives it. Lists with the same names then give
the same options, and a feature that is switched off is off, whether it is switched on as well or not. -/
theorem options_resolve (c : Choices) (read : FileReader) :
    (c.options read = match c.base read with
      | .error fault => .error fault
      | .ok base =>
        match Feature.firstUnknown (c.enable ++ c.disable) with
        | some name => .error (.choice (.unknownFeature name))
        | none => .ok (c.resolved base)) ∧
    ∀ o, c.options read = .ok o →
      (∀ enable disable, (∀ name, name ∈ enable ↔ name ∈ c.enable) → (∀ name, name ∈ disable ↔ name ∈ c.disable) →
        options { c with enable, disable } read = .ok o) ∧
      ∀ feature, feature.name ∈ c.disable → o.has feature = false := by
  constructor
  · cases hbase : c.base read with
    | error fault => exact options_of_error hbase
    | ok base => exact options_of_base hbase
  · intro o ho
    obtain ⟨base, hbase, known, rfl⟩ := options_eq_ok_iff.mp ho
    refine ⟨fun enable disable henable hdisable => ?_, fun feature h => has_resolved_of_mem_disable h base⟩
    refine options_eq_ok_iff.mpr ⟨base, hbase, fun name hname => known name ?_, ?_⟩
    · rw [List.mem_append, ← henable, ← hdisable]
      exact List.mem_append.mp hname
    · exact resolved_congr c base henable hdisable

/-- A command line whose lists disagree on the uses of arguments. -/
def conflicting : Choices where
  profile := some .baseline
  entry := some "start"
  enable := ["global_operands", "argument_uses", "global_operands"]
  disable := ["argument_uses"]
  noDedup := true

/-- Named twice and in another order, the features are as before. A file that is missing is reported before a feature that
is unknown. -/
theorem options_resolve_conflicting :
    let read : FileReader := fun _ => .error .missing
    let o : Options := { entrySymbol := "start", traverseArgumentUses := false, deduplicate := false }
    conflicting.options read = .ok o ∧
    options { conflicting with
      enable := ["argument_uses", "global_operands"], disable := ["argument_uses", "argument_uses"] } read = .ok o ∧
    o.has .argumentUses = false ∧
    options { conflicting with enable := ["deduplicate", "loops"], disable := ["calls"] } read =
      .error (.choice (.unknownFeature "loops")) ∧
    options { conflicting with config := some "heatmap.toml", enable := ["loops"] } read =
      .error (.file "heatmap.toml" .missing) := by
  intro read o
  obtain ⟨closed, laws⟩ := options_resolve conflicting read
  have ho : conflicting.options read = .ok o := closed.trans rfl
  obtain ⟨order, off⟩ := laws o ho
  exact ⟨ho, order _ _ (by simp [conflicting]) (by simp [conflicting]), off .argumentUses (by decide),
    (options_resolve _ read).1.trans rfl, (options_resolve _ read).1.trans rfl⟩

end Command.Choices

end HotFields
