import Mathlib.Data.List.Nodup
import Mathlib.Data.List.TakeWhile
import Stencil.Command.Arguments
import Stencil.Proofs.Lookup

/-! What a command line is read as. Behind a verb each of its options sets the value that it is given, whatever the
    value is and however it is written. The order of options does not count; only an option that is given twice and an
    empty path are refused. Every request without an empty path can be written as a command line, from which it is read
    again. -/

namespace Stencil.Command

/-! ### One argument -/

/-- The words for an option: its name behind two dashes, its letter behind one. -/
def OptionSpec.words (o : OptionSpec) : List String :=
  ("--" ++ o.name) :: o.short.toList.map fun c => "-" ++ String.singleton c

/-- What makes the words for an option plain: its name is found under it, and it is none of the flags. -/
structure OptionSpec.Plain (options : List OptionSpec) (o : OptionSpec) : Prop where
  found : options.find? (·.name == o.name) = some o
  name_ne_nil : o.name.toList ≠ []
  closed : '=' ∉ o.name.toList
  no_flag : o.name ≠ "verbose" ∧ o.name ≠ "help" ∧ o.name ≠ "version"
  short : ∀ c ∈ o.short.toList, options.find? (·.short == some c) = some o ∧ c ∉ ['-', 'v', 'h', 'V']

theorem Verb.plain_options {verb : Verb} {o : OptionSpec} (h : o ∈ verb.options) : o.Plain verb.options := by
  have hall : ∀ o ∈ verb.options, verb.options.find? (·.name == o.name) = some o ∧ o.name.toList ≠ [] ∧
      '=' ∉ o.name.toList ∧ (o.name ≠ "verbose" ∧ o.name ≠ "help" ∧ o.name ≠ "version") ∧
      ∀ c ∈ o.short.toList, verb.options.find? (·.short == some c) = some o ∧ c ∉ ['-', 'v', 'h', 'V'] := by
    cases verb <;> simp [Verb.options]
  obtain ⟨found, name_ne_nil, closed, no_flag, short⟩ := hall o h
  exact ⟨found, name_ne_nil, closed, no_flag, short⟩

theorem isOption_of_toList {arg : String} {c : Char} {cs : List Char} (h : arg.toList = '-' :: c :: cs) :
    isOption arg = true := by
  have hstart : arg.startsWith "-" = true := by
    rw [String.startsWith_string_iff, h]
    exact ⟨c :: cs, rfl⟩
  have hne : arg ≠ "-" := by
    rintro rfl
    cases h
  rw [isOption, hstart, decide_eq_true hne, Bool.and_true]

theorem ofArgument_of_long {options : List OptionSpec} {arg : String} {cs : List Char}
    (h : arg.toList = '-' :: '-' :: cs) (hcs : cs ≠ []) : Word.ofArgument options arg = readLong options cs := by
  obtain ⟨c, rest, rfl⟩ := List.exists_cons_of_ne_nil hcs
  rw [Word.ofArgument, if_pos (isOption_of_toList h), h]
  rfl

theorem ofArgument_of_short {options : List OptionSpec} {arg : String} {c : Char} {cs : List Char}
    (h : arg.toList = '-' :: c :: cs) (hc : c ≠ '-') : Word.ofArgument options arg = readShorts options (c :: cs) := by
  rw [Word.ofArgument, if_pos (isOption_of_toList h), h]
  cases cs with
  | nil => simp [hc]
  | cons second rest => simp [hc]

namespace OptionSpec.Plain
variable {options : List OptionSpec} {o : OptionSpec} (h : o.Plain options)
include h

theorem readLong_eq {cs : List Char} {given : Option String}
    (hname : String.ofList (cs.takeWhile (· ≠ '=')) = o.name)
    (hgiven : (cs.dropWhile (· ≠ '=')).tail?.map String.ofList = given) :
    readLong options cs = .option o given := by
  obtain ⟨hverbose, hhelp, hversion⟩ := h.no_flag
  unfold readLong
  rw [hname, hgiven]
  simp only [hverbose, hhelp, hversion, decide_false, Bool.and_false, Bool.false_eq_true, if_false, h.found]

theorem ne_of_mem_name : ∀ c ∈ o.name.toList, decide (c ≠ '=') = true := by
  intro c hc
  refine decide_eq_true ?_
  rintro rfl
  exact h.closed hc

theorem readLong_joined (value : String) :
    readLong options (o.name.toList ++ '=' :: value.toList) = .option o (some value) := by
  apply h.readLong_eq
  · rw [List.takeWhile_append_of_pos h.ne_of_mem_name]
    simp
  · rw [List.dropWhile_append_of_pos h.ne_of_mem_name]
    simp

theorem readLong_alone : readLong options o.name.toList = .option o none := by
  apply h.readLong_eq
  · rw [List.takeWhile_eq_self_iff.mpr h.ne_of_mem_name, String.ofList_toList]
  · rw [List.dropWhile_eq_nil_iff.mpr h.ne_of_mem_name]
    rfl

theorem ne_of_short {c : Char} (hc : c ∈ o.short.toList) : c ≠ '-' ∧ c ≠ 'v' ∧ c ≠ 'h' ∧ c ≠ 'V' := by
  simpa using (h.short c hc).2

theorem readShorts_joined {c : Char} (hc : c ∈ o.short.toList) (value : String) :
    readShorts options (c :: '=' :: value.toList) = .option o (some value) := by
  obtain ⟨-, hverbose, hhelp, hversion⟩ := h.ne_of_short hc
  simp [readShorts, (h.short c hc).1]

theorem readShorts_alone {c : Char} (hc : c ∈ o.short.toList) : readShorts options [c] = .option o none := by
  obtain ⟨-, hverbose, hhelp, hversion⟩ := h.ne_of_short hc
  simp [readShorts, (h.short c hc).1]

/-- A word for an option is read as the option without a value. -/
theorem ofArgument_alone {word : String} (hword : word ∈ o.words) : Word.ofArgument options word = .option o none := by
  rcases List.mem_cons.mp hword with rfl | hshort
  · rw [ofArgument_of_long String.toList_append h.name_ne_nil, h.readLong_alone]
  · obtain ⟨c, hc, rfl⟩ := List.mem_map.mp hshort
    have hargument : ("-" ++ String.singleton c).toList = ['-', c] := by
      rw [String.toList_append, String.toList_singleton]
      rfl
    rw [ofArgument_of_short hargument (h.ne_of_short hc).1, h.readShorts_alone hc]

/-- An option with a value behind an equals sign is read as the option with all that stands behind the sign. -/
theorem ofArgument_joined {word : String} (hword : word ∈ o.words) (value : String) :
    Word.ofArgument options (word ++ "=" ++ value) = .option o (some value) := by
  rcases List.mem_cons.mp hword with rfl | hshort
  · have hargument : ("--" ++ o.name ++ "=" ++ value).toList = '-' :: '-' :: (o.name.toList ++ '=' :: value.toList) := by
      simp [String.toList_append]
    rw [ofArgument_of_long hargument (List.append_ne_nil_of_left_ne_nil h.name_ne_nil _), h.readLong_joined]
  · obtain ⟨c, hc, rfl⟩ := List.mem_map.mp hshort
    have hargument : ("-" ++ String.singleton c ++ "=" ++ value).toList = '-' :: c :: '=' :: value.toList := by
      simp [String.toList_append]
    rw [ofArgument_of_short hargument (h.ne_of_short hc).1, h.readShorts_joined hc]

end OptionSpec.Plain

/-! ### One option -/

/-- The ways to write an option and its value: in one argument, or in two if the value does not look like an option. -/
inductive OptionSpec.Spells (o : OptionSpec) (value : String) : List String → Prop
  | joined {word : String} (hword : word ∈ o.words) : Spells o value [word ++ "=" ++ value]
  | apart {word : String} (hword : word ∈ o.words) (hvalue : isOption value = false) : Spells o value [word, value]

/-- However an option is written, it is set to the value that stands there. -/
theorem read_of_spells {verb : Verb} {o : OptionSpec} (ho : o ∈ verb.options) {value : String} {args : List String}
    (h : o.Spells value args) (values : List (String × String)) (operands rest : List String) :
    read ⟨some verb, values, operands⟩ false (args ++ rest) =
      (setOption ⟨some verb, values, operands⟩ o value).bind fun p => read p false rest := by
  have hoptions : (⟨some verb, values, operands⟩ : Parsed).options = verb.options := rfl
  cases h with
  | joined hword =>
    rw [List.singleton_append, read, if_neg Bool.false_ne_true, hoptions,
      (Verb.plain_options ho).ofArgument_joined hword]
    dsimp only
    cases setOption ⟨some verb, values, operands⟩ o value <;> rfl
  | apart hword hvalue =>
    rw [List.cons_append, List.singleton_append, read, if_neg Bool.false_ne_true, hoptions,
      (Verb.plain_options ho).ofArgument_alone hword]
    simp only [hvalue, Bool.false_eq_true, if_false]
    cases setOption ⟨some verb, values, operands⟩ o value <;> rfl

/-! ### All options -/

/-- No option is given twice, and no path is empty. -/
structure Verb.Takes (verb : Verb) (settings : List (String × String)) : Prop where
  once : (settings.map (·.1)).Nodup
  filled : ∀ o ∈ verb.options, o.isPath → (o.name, "") ∉ settings

theorem Verb.takes_iff {verb : Verb} {settings : List (String × String)} : verb.Takes settings ↔
    (settings.map (·.1)).Nodup ∧ ∀ o ∈ verb.options, o.isPath → (o.name, "") ∉ settings :=
  ⟨fun h => ⟨h.once, h.filled⟩, fun h => ⟨h.1, h.2⟩⟩

theorem Verb.takes_nil (verb : Verb) : verb.Takes [] := ⟨List.nodup_nil, fun _ _ _ => List.not_mem_nil⟩

theorem Verb.Takes.of_append {verb : Verb} {settings more : List (String × String)}
    (h : verb.Takes (settings ++ more)) : verb.Takes settings := by
  refine ⟨?_, fun o ho hpath hmem => h.filled o ho hpath (List.mem_append_left more hmem)⟩
  have hnodup := h.once
  rw [List.map_append] at hnodup
  exact hnodup.of_append_left

theorem Verb.takes_congr {verb : Verb} {settings settings' : List (String × String)}
    (h : settings.Perm settings') : verb.Takes settings ↔ verb.Takes settings' :=
  ⟨fun h' => ⟨(h.map _).nodup_iff.mp h'.once, fun o ho hpath hmem => h'.filled o ho hpath (h.mem_iff.mpr hmem)⟩,
    fun h' => ⟨(h.map _).nodup_iff.mpr h'.once, fun o ho hpath hmem => h'.filled o ho hpath (h.mem_iff.mp hmem)⟩⟩

section Options
variable {verb : Verb} {values settings : List (String × String)} {operands args : List String}

theorem Verb.takes_concat_iff {o : OptionSpec} (ho : o ∈ verb.options) {value : String}
    (hvalues : verb.Takes values) : verb.Takes (values ++ [(o.name, value)]) ↔
      values.lookup o.name = none ∧ (o.isPath = true → value ≠ "") := by
  rw [lookup_eq_none_iff_not_mem]
  constructor
  · intro h
    have hnodup := h.once
    rw [List.map_append, List.nodup_append] at hnodup
    refine ⟨fun hmem => hnodup.2.2 _ hmem o.name (List.mem_singleton_self _) rfl, ?_⟩
    rintro hpath rfl
    exact h.filled o ho hpath (List.mem_append_right _ (List.mem_singleton_self _))
  · rintro ⟨hfresh, hpath⟩
    refine ⟨?_, fun o' ho' hpath' hmem => ?_⟩
    · rw [List.map_append, List.map_singleton, ← List.concat_eq_append]
      exact hvalues.once.concat hfresh
    · rcases List.mem_append.mp hmem with hmem | hmem
      · exact hvalues.filled o' ho' hpath' hmem
      · -- Options of one name are one option.
        obtain ⟨hname, hempty⟩ := Prod.mk.inj (List.mem_singleton.mp hmem)
        have hsame := (Verb.plain_options ho').found
        rw [hname, (Verb.plain_options ho).found, Option.some.injEq] at hsame
        exact hpath (hsame ▸ hpath') hempty.symm

/-- An option is set unless it has been given before or is a path and empty. -/
theorem setOption_eq_some_iff {o : OptionSpec} (ho : o ∈ verb.options) {value : String} {p : Parsed}
    (hvalues : verb.Takes values) : setOption ⟨some verb, values, operands⟩ o value = some p ↔
      verb.Takes (values ++ [(o.name, value)]) ∧ p = ⟨some verb, values ++ [(o.name, value)], operands⟩ := by
  rw [Verb.takes_concat_iff ho hvalues, setOption, Option.ite_none_left_eq_some, Option.some.injEq, eq_comm (b := p)]
  simp only [Parsed.value?, Bool.or_eq_true, not_or, Option.not_isSome_iff_eq_none, Bool.and_eq_true, not_and,
    String.isEmpty_iff, ne_eq]

/-- Options of a verb with their values, each written in one of its ways. -/
inductive Verb.Spells (verb : Verb) : List (String × String) → List String → Prop
  | nil : Spells verb [] []
  | cons {o : OptionSpec} {value : String} {settings : List (String × String)} {first rest : List String}
    (ho : o ∈ verb.options) (hfirst : o.Spells value first) (hrest : Spells verb settings rest) :
    Spells verb ((o.name, value) :: settings) (first ++ rest)

/-- Reading comes past options with what they say, if no option is given twice and no path is empty. -/
theorem read_append_eq_some_iff (h : verb.Spells settings args) (hvalues : verb.Takes values) (rest : List String)
    {progress : Progress} : read ⟨some verb, values, operands⟩ false (args ++ rest) = some progress ↔
      verb.Takes (values ++ settings) ∧ read ⟨some verb, values ++ settings, operands⟩ false rest = some progress := by
  induction h generalizing values with
  | nil =>
    rw [List.append_nil, List.nil_append]
    exact (and_iff_right hvalues).symm
  | @cons o value settings first last ho hfirst _ ih =>
    rw [List.append_assoc, read_of_spells ho hfirst, Option.bind_eq_some_iff, List.append_cons]
    constructor
    · rintro ⟨p, hset, hread⟩
      obtain ⟨htakes, rfl⟩ := (setOption_eq_some_iff ho hvalues).mp hset
      exact (ih htakes).mp hread
    · intro h
      have htakes := h.1.of_append
      exact ⟨_, (setOption_eq_some_iff ho hvalues).mpr ⟨htakes, rfl⟩, (ih htakes).mpr h⟩

theorem read_verb (verb : Verb) (args : List String) :
    read ⟨none, [], []⟩ false (verb.name :: args) = read ⟨some verb, [], []⟩ false args := by
  have hplain : isOption verb.name = false := by cases verb <;> decide +kernel
  have hhelp : verb.name ≠ "help" := by cases verb <;> decide
  have hset : setOperand ⟨none, [], []⟩ verb.name = some ⟨some verb, [], []⟩ := by cases verb <;> rfl
  have hword : Word.ofArgument (Parsed.options ⟨none, [], []⟩) verb.name = .operand := by
    rw [Word.ofArgument, hplain, if_neg Bool.false_ne_true]
  rw [read, if_neg Bool.false_ne_true, hword]
  simp only [hhelp, hset, decide_false, Bool.and_false, Bool.false_eq_true, if_false]

end Options

/-! ### Requests -/

section Requests
variable {verb : Verb} {settings settings' : List (String × String)} {args : List String}

/-- What is asked for behind a verb and options of it is what the rest asks for, once their values are known. -/
theorem ofArguments?_append_eq_some_iff (h : verb.Spells settings args) (rest : List String) {request : Request} :
    Request.ofArguments? (verb.name :: (args ++ rest)) = some request ↔
      verb.Takes settings ∧ ∃ progress, read ⟨some verb, settings, []⟩ false rest = some progress ∧
        progress.request? = some request := by
  have hread (progress : Progress) : read ⟨some verb, [], []⟩ false (args ++ rest) = some progress ↔
      verb.Takes settings ∧ read ⟨some verb, settings, []⟩ false rest = some progress :=
    read_append_eq_some_iff h verb.takes_nil rest
  rw [Request.ofArguments?, read_verb, Option.bind_eq_some_iff]
  simp only [hread, and_assoc, exists_and_left]

/-- What is asked for does not depend on the order of the options. -/
theorem Parsed.request?_of_perm (h : settings.Perm settings') (htakes : verb.Takes settings) (operands : List String) :
    Parsed.request? ⟨some verb, settings, operands⟩ = Parsed.request? ⟨some verb, settings', operands⟩ := by
  have hvalue : Parsed.value? ⟨some verb, settings, operands⟩ = Parsed.value? ⟨some verb, settings', operands⟩ :=
    funext (lookup_eq_of_perm h htakes.once)
  unfold Parsed.request?
  rw [hvalue]

/-- Options make a request in every order in which they stand, and in whatever ways they are written. -/
theorem ofArguments?_of_perm (h : verb.Spells settings args) (hperm : settings.Perm settings') {request : Request}
    (hrequest : Parsed.request? ⟨some verb, settings', []⟩ = some request) :
    Request.ofArguments? (verb.name :: args) = some request ↔ verb.Takes settings' := by
  rw [← List.append_nil args, ofArguments?_append_eq_some_iff h, Verb.takes_congr hperm]
  refine and_iff_left_of_imp fun htakes => ⟨_, rfl, ?_⟩
  rw [Progress.request?, Parsed.request?_of_perm hperm ((Verb.takes_congr hperm).mpr htakes), hrequest]

/-- A wish for help is heard behind all options that can be read, and whatever else stands behind it. -/
theorem ofArguments?_help (h : verb.Spells settings args) (rest : List String) :
    Request.ofArguments? (verb.name :: (args ++ "--help" :: rest)) = some .help ↔ verb.Takes settings := by
  have hword : Word.ofArgument (Parsed.options ⟨some verb, settings, []⟩) "--help" = .help := by
    have hargument : "--help".toList = ['-', '-', 'h', 'e', 'l', 'p'] := rfl
    rw [ofArgument_of_long hargument (List.cons_ne_nil _ _)]
    simp [readLong]
  rw [ofArguments?_append_eq_some_iff h]
  refine and_iff_left ⟨.help, ?_, rfl⟩
  rw [read, if_neg Bool.false_ne_true, hword]

end Requests

/-- The options that a stamping needs, with their values. -/
def StampOptions.settings (o : StampOptions) : List (String × String) :=
  [("template", o.template), ("plan", o.plan), ("output", o.output)] ++
    o.dependency.toList.map (("dependency", ·)) ++ o.bundle.toList.map (("bundle", ·))

/-- The options for the making of a plan, with their values. -/
def PlanOptions.settings (o : PlanOptions) : List (String × String) :=
  o.template.toList.map (("template", ·)) ++
    [("name", o.params.moduleName), ("total-supply", o.params.totalSupply), ("decimals", o.params.decimals),
     ("symbol", o.params.symbol), ("token-name", o.params.name), ("description", o.params.description),
     ("icon-url", o.params.iconUrl), ("mint-price", o.params.mintPrice),
     ("owner-allocation", o.params.ownerAllocation), ("output", o.output)]

theorem StampOptions.request?_settings (o : StampOptions) :
    Parsed.request? ⟨some .stamp, o.settings, []⟩ = some (.stamp o) := by
  obtain ⟨template, plan, output, dependency, bundle⟩ := o
  cases dependency <;> cases bundle <;> rfl

theorem PlanOptions.request?_settings (o : PlanOptions) :
    Parsed.request? ⟨some .plan, o.settings, []⟩ = some (.plan o) := by
  obtain ⟨params, template, output⟩ := o
  cases template <;> rfl

theorem StampOptions.takes_settings_iff (o : StampOptions) : Verb.stamp.Takes o.settings ↔
    o.template ≠ "" ∧ o.plan ≠ "" ∧ o.output ≠ "" ∧ o.dependency ≠ some "" ∧ o.bundle ≠ some "" := by
  obtain ⟨template, plan, output, dependency, bundle⟩ := o
  have honce : (StampOptions.settings ⟨template, plan, output, dependency, bundle⟩ |>.map (·.1)).Nodup := by
    cases dependency <;> cases bundle <;> simp [StampOptions.settings]
  rw [Verb.takes_iff, and_iff_right honce]
  simp [Verb.options, StampOptions.settings, eq_comm (a := "")]

theorem PlanOptions.takes_settings_iff (o : PlanOptions) :
    Verb.plan.Takes o.settings ↔ o.template ≠ some "" ∧ o.output ≠ "" := by
  obtain ⟨params, template, output⟩ := o
  have honce : (PlanOptions.settings ⟨params, template, output⟩ |>.map (·.1)).Nodup := by
    cases template <;> simp [PlanOptions.settings]
  rw [Verb.takes_iff, and_iff_right honce]
  simp [Verb.options, PlanOptions.settings, eq_comm (a := "")]

section Settings
variable {settings : List (String × String)} {args : List String}

/-- Options that say what a stamping needs ask for that stamping, unless a path is empty. -/
theorem ofArguments?_stamp {o : StampOptions} (h : Verb.stamp.Spells settings args)
    (hsettings : settings.Perm o.settings) : Request.ofArguments? ("stamp" :: args) = some (.stamp o) ↔
      o.template ≠ "" ∧ o.plan ≠ "" ∧ o.output ≠ "" ∧ o.dependency ≠ some "" ∧ o.bundle ≠ some "" :=
  (ofArguments?_of_perm h hsettings o.request?_settings).trans o.takes_settings_iff

/-- Options that say what a plan is made of ask for that plan, unless a path is empty. -/
theorem ofArguments?_plan {o : PlanOptions} (h : Verb.plan.Spells settings args)
    (hsettings : settings.Perm o.settings) :
    Request.ofArguments? ("plan" :: args) = some (.plan o) ↔ o.template ≠ some "" ∧ o.output ≠ "" :=
  (ofArguments?_of_perm h hsettings o.request?_settings).trans o.takes_settings_iff

end Settings

/-! ### Command lines -/

/-- An option and its value in one argument. -/
def argument (s : String × String) : String := "--" ++ s.1 ++ "=" ++ s.2

/-- A command line for a request, with every option in it and each value in its option's argument. -/
def Request.arguments : Request → List String
  | .help => ["--help"]
  | .version none => ["--version"]
  | .version (some verb) => [verb.name, "--version"]
  | .inspect path => ["inspect", "--", path]
  | .stamp o => "stamp" :: o.settings.map argument
  | .plan o => "plan" :: o.settings.map argument

def Request.paths : Request → List String
  | .help | .version _ => []
  | .inspect path => [path]
  | .stamp o => [o.template, o.plan, o.output] ++ o.dependency.toList ++ o.bundle.toList
  | .plan o => o.template.toList ++ [o.output]

theorem Verb.spells_map_argument {verb : Verb} {settings : List (String × String)}
    (h : ∀ s ∈ settings, ∃ o ∈ verb.options, o.name = s.1) : verb.Spells settings (settings.map argument) := by
  induction settings with
  | nil => exact .nil
  | cons s settings ih =>
    obtain ⟨hfirst, hrest⟩ := List.forall_mem_cons.mp h
    obtain ⟨o, ho, hname⟩ := hfirst
    obtain ⟨name, value⟩ := s
    subst hname
    exact .cons ho (.joined List.mem_cons_self) (ih hrest)

theorem StampOptions.spells_settings (o : StampOptions) :
    Verb.stamp.Spells o.settings (o.settings.map argument) := by
  refine Verb.spells_map_argument ?_
  obtain ⟨template, plan, output, dependency, bundle⟩ := o
  cases dependency <;> cases bundle <;> simp [StampOptions.settings, Verb.options]

theorem PlanOptions.spells_settings (o : PlanOptions) : Verb.plan.Spells o.settings (o.settings.map argument) := by
  refine Verb.spells_map_argument ?_
  obtain ⟨params, template, output⟩ := o
  cases template <;> simp [PlanOptions.settings, Verb.options]

theorem ofArguments?_inspect (path : String) :
    Request.ofArguments? ["inspect", "--", path] = some (.inspect path) ↔ path ≠ "" := by
  have hdashes : Word.ofArgument (Parsed.options ⟨some .inspect, [], []⟩) "--" = .dashes := by
    rw [Word.ofArgument, if_pos (isOption_of_toList rfl)]
    rfl
  have hread : read ⟨none, [], []⟩ false [Verb.inspect.name, "--", path] =
      (setOperand ⟨some .inspect, [], []⟩ path).map .parsed := by
    rw [read_verb, read, if_neg Bool.false_ne_true, hdashes]
    dsimp only
    rw [read, if_pos rfl]
    cases setOperand ⟨some .inspect, [], []⟩ path <;> simp [read]
  change (read ⟨none, [], []⟩ false [Verb.inspect.name, "--", path]).bind Progress.request? = _ ↔ _
  rw [hread]
  by_cases hpath : path = ""
  · simp [setOperand, hpath]
  · have hset : setOperand ⟨some .inspect, [], []⟩ path = some ⟨some .inspect, [], [path]⟩ := by
      simp [setOperand, Verb.operands, hpath]
    rw [hset]
    exact iff_of_true rfl hpath

/-- Every request without an empty path is what its command line is read as. -/
theorem ofArguments?_arguments (r : Request) : Request.ofArguments? r.arguments = some r ↔ "" ∉ r.paths := by
  cases r with
  | help => decide +kernel
  | version verb =>
    refine iff_of_true ?_ List.not_mem_nil
    cases verb with
    | none => decide +kernel
    | some verb => cases verb <;> decide +kernel
  | inspect path =>
    rw [Request.arguments, ofArguments?_inspect, Request.paths, List.mem_singleton, eq_comm]
  | stamp o =>
    rw [Request.arguments, ofArguments?_stamp o.spells_settings (.refl _)]
    simp [Request.paths, eq_comm (a := "")]
  | plan o =>
    rw [Request.arguments, ofArguments?_plan o.spells_settings (.refl _)]
    simp [Request.paths, eq_comm (a := "")]

end Stencil.Command
