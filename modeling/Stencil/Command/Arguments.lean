import Stencil.Token

/-! The command line: which arguments make a request, and what they ask for. A wish for help or for the version ends
    the reading where it stands. -/

namespace Stencil.Command

/-- What the program can be asked to do. -/
inductive Verb where
  | inspect
  | stamp
  | plan
  deriving DecidableEq, Repr

/-- The word for a verb on the command line. -/
def Verb.name : Verb → String
  | .inspect => "inspect"
  | .stamp => "stamp"
  | .plan => "plan"

def Verb.ofName? (s : String) : Option Verb := [Verb.inspect, .stamp, .plan].find? (·.name == s)

/-- What a stamping needs: files to read, files to write. -/
structure StampOptions where
  template : String
  plan : String
  output : String
  dependency : Option String
  bundle : Option String
  deriving DecidableEq, Repr

/-- What the making of a plan needs: the token's settings, and the template if it is not the known one. -/
structure PlanOptions where
  params : TokenSettings
  template : Option String
  output : String
  deriving DecidableEq, Repr

inductive Request where
  /-- How the program is used. -/
  | help
  /-- The version of the program, or of one of its verbs. -/
  | version (verb : Option Verb)
  | inspect (module : String)
  | stamp (options : StampOptions)
  | plan (options : PlanOptions)
  deriving DecidableEq, Repr

/-- An option that takes a value. -/
structure OptionSpec where
  name : String
  short : Option Char
  /-- A path must not be empty. -/
  isPath : Bool
  deriving DecidableEq, Repr

def Verb.options : Verb → List OptionSpec
  | .inspect => []
  | .stamp =>
    [⟨"template", some 't', true⟩, ⟨"plan", some 'p', true⟩, ⟨"output", some 'o', true⟩,
     ⟨"dependency", none, true⟩, ⟨"bundle", none, true⟩]
  | .plan =>
    [⟨"name", none, false⟩, ⟨"total-supply", none, false⟩, ⟨"decimals", none, false⟩,
     ⟨"symbol", none, false⟩, ⟨"token-name", none, false⟩, ⟨"description", none, false⟩,
     ⟨"icon-url", none, false⟩, ⟨"mint-price", none, false⟩, ⟨"owner-allocation", none, false⟩,
     ⟨"template", none, true⟩, ⟨"output", some 'o', true⟩]

/-- The number of arguments of a verb that are not options. -/
def Verb.operands : Verb → Nat
  | .inspect => 1
  | .stamp | .plan => 0

/-- What has been read of a command line. -/
structure Parsed where
  verb : Option Verb
  values : List (String × String)
  operands : List String

def Parsed.value? (p : Parsed) (name : String) : Option String := p.values.lookup name

/-- How reading goes on: help or the version is asked for, or there is more to know. Nothing else counts once
    one of these two is asked for; an argument that cannot be understood gives no outcome at all. -/
inductive Progress where
  | help
  | version (verb : Option Verb)
  | parsed (p : Parsed)

/-- Sets an option, which may be given once only. -/
def setOption (p : Parsed) (o : OptionSpec) (value : String) : Option Parsed :=
  if (p.value? o.name).isSome || (o.isPath && value.isEmpty) then none
  else some { p with values := p.values ++ [(o.name, value)] }

/-- Takes an argument that is no option: first a verb, then the verb's operands. -/
def setOperand (p : Parsed) (arg : String) : Option Parsed :=
  match p.verb with
  | none => (Verb.ofName? arg).map fun verb => { p with verb := some verb }
  | some verb =>
    if p.operands.length < verb.operands && !arg.isEmpty then some { p with operands := p.operands ++ [arg] }
    else none

/-- Whether an argument is written as an option: a dash with something after it. -/
def isOption (arg : String) : Bool := arg.startsWith "-" && arg ≠ "-"

/-- The options that can be given where a command line has been read so far. -/
def Parsed.options (p : Parsed) : List OptionSpec := (p.verb.map Verb.options).getD []

inductive Word where
  /-- The mark behind which no options come. -/
  | dashes
  /-- Flags, which change nothing that is reported. -/
  | flags
  /-- The wish for help. -/
  | help
  /-- The wish to know the version. -/
  | version
  /-- An option, and its value if that is written in the same argument. -/
  | option (o : OptionSpec) (given : Option String)
  /-- No option. -/
  | operand
  /-- Something that looks like an option and is none. -/
  | unknown

/-- Reads a group of short options without its dash. An option that takes a value takes all that is
    left of its group. -/
def readShorts (options : List OptionSpec) : List Char → Word
  | [] => .flags
  | 'v' :: rest => readShorts options rest
  | 'h' :: _ => .help
  | 'V' :: _ => .version
  | c :: rest =>
    match options.find? (·.short == some c), rest with
    | none, _ => .unknown
    | some o, [] => .option o none
    | some o, '=' :: value | some o, value => .option o (some (String.ofList value))

/-- Reads a long option without its dashes. Its value may stand behind an equals sign. -/
def readLong (options : List OptionSpec) (chars : List Char) : Word :=
  let name := String.ofList (chars.takeWhile (· ≠ '='))
  let given := (chars.dropWhile (· ≠ '=')).tail?.map String.ofList
  if given.isNone && name = "verbose" then .flags
  else if given.isNone && name = "help" then .help
  else if given.isNone && name = "version" then .version
  else match options.find? (·.name == name) with
    | some o => .option o given
    | none => .unknown

/-- What an argument is where some options can be given. -/
def Word.ofArgument (options : List OptionSpec) (arg : String) : Word :=
  if isOption arg then
    match arg.toList with
    | [_, '-'] => .dashes
    | _ :: '-' :: name => readLong options name
    | _ :: shorts => readShorts options shorts
    | [] => .operand
  else .operand

/-- Reads what is behind the word `help`: nothing, or the one word that help is asked for. -/
def readHelp : List String → Option Progress
  | [] => some .help
  | [name] => if name = "help" || (Verb.ofName? name).isSome then some .help else none
  | _ => none

/-- Reads arguments from left to right. With `onlyOperands` a double dash has ended the options; no verb
    is looked for behind it. The value of an option may be the next argument, but for one that looks
    like an option itself. -/
def read (p : Parsed) (onlyOperands : Bool) : List String → Option Progress
  | [] => some (.parsed p)
  | arg :: rest =>
    if onlyOperands then
      if p.verb.isNone then none
      else match setOperand p arg with
        | none => none
        | some p => read p true rest
    else match Word.ofArgument p.options arg with
      | .dashes => read p true rest
      | .flags => read p false rest
      | .help => some .help
      | .version => some (.version p.verb)
      | .unknown => none
      | .operand =>
        if p.verb.isNone && arg = "help" then readHelp rest
        else match setOperand p arg with
        | none => none
        | some p => read p false rest
      | .option o (some value) =>
        match setOption p o value with
        | none => none
        | some p => read p false rest
      | .option o none =>
        match rest with
        | [] => none
        | value :: rest =>
          if isOption value then none
          else match setOption p o value with
            | none => none
            | some p => read p false rest

/-- The settings of a token whose options were not given. -/
def defaults : TokenSettings :=
  { moduleName := "", totalSupply := "100", decimals := "9", symbol := "Symbol", name := "Name",
    description := "Description", iconUrl := "icon_url", mintPrice := "1000", ownerAllocation := "10000" }

/-- The file to which a plan is written if no other is given. -/
def defaultPlanFile : String := "edit_plan.json"

/-- The request of a command line that has been read; none if something is missing. -/
def Parsed.request? (p : Parsed) : Option Request := do
  match ← p.verb with
  | .inspect => return .inspect (← p.operands.head?)
  | .stamp =>
    return .stamp
      { template := ← p.value? "template", plan := ← p.value? "plan", output := ← p.value? "output",
        dependency := p.value? "dependency", bundle := p.value? "bundle" }
  | .plan =>
    let setting (name default : String) : String := (p.value? name).getD default
    return .plan
      { params :=
          { moduleName := ← p.value? "name"
            totalSupply := setting "total-supply" defaults.totalSupply
            decimals := setting "decimals" defaults.decimals
            symbol := setting "symbol" defaults.symbol
            name := setting "token-name" defaults.name
            description := setting "description" defaults.description
            iconUrl := setting "icon-url" defaults.iconUrl
            mintPrice := setting "mint-price" defaults.mintPrice
            ownerAllocation := setting "owner-allocation" defaults.ownerAllocation }
        template := p.value? "template"
        output := setting "output" defaultPlanFile }

def Progress.request? : Progress → Option Request
  | .help => some .help
  | .version verb => some (.version verb)
  | .parsed p => p.request?

/-- The request of a command line; none if it cannot be understood. -/
def Request.ofArguments? (args : List String) : Option Request :=
  (read ⟨none, [], []⟩ false args).bind Progress.request?

end Stencil.Command
