import ZoneRelay.Settings.Tree
import ZoneRelay.Text.Basic
import ZoneRelay.Text.Decimal

/-!
# Command line options

An option is given as `--name value`, `--name=value` or, for the settings file, `-c value`,
`-cvalue` or `-c=value`. Each may be given once.

* `Options`: the options that are given.
* `Options.parse`: reads a command line.
* `Options.tree`: the layer of settings that they give.
-/

namespace ZoneRelay

/-- An option with a value. -/
inductive OptionName
  | config
  | serverId
  | role
  | storePath
  | pollInterval
  | logLevel
  | metricsAddress
  deriving DecidableEq, Repr

/-- Why a command line gives no options. -/
inductive OptionsError
  | unknownArgument
  | invalidValue
  | argumentConflict
  | valueValidation
  | tooManyValues
  /-- Help was asked for. -/
  | displayHelp
  /-- The version was asked for. -/
  | displayVersion
  deriving DecidableEq, Repr

/-- The options that are given. -/
structure Options where
  config : Option String
  serverId : Option String
  role : Option String
  storePath : Option String
  pollInterval : Option UInt64
  logLevel : Option String
  metricsAddress : Option String
  deriving DecidableEq, Repr

namespace Options

/-- No option at all. -/
def empty : Options where
  config := none
  serverId := none
  role := none
  storePath := none
  pollInterval := none
  logLevel := none
  metricsAddress := none

/-- Gives an option that has no value yet a value. -/
def fill (old : Option α) (v : Except OptionsError α) (put : α → Options) :
    Except OptionsError Options :=
  if old.isSome then .error .argumentConflict else v.map put

/-- A path, which has at least one character. -/
def path (v : String) : Except OptionsError String :=
  if v.isEmpty then .error .invalidValue else .ok v

/-- A number of 64 bits. -/
def number (v : String) : Except OptionsError UInt64 :=
  match Text.below? UInt64.size v.toList with
  | some n => .ok (UInt64.ofNat n)
  | none => .error .valueValidation

/-- Gives one option a value. -/
def give (o : Options) (v : String) : OptionName → Except OptionsError Options
  | .config => fill o.config (path v) fun p => { o with config := some p }
  | .serverId => fill o.serverId (.ok v) fun s => { o with serverId := some s }
  | .role => fill o.role (.ok v) fun s => { o with role := some s }
  | .storePath => fill o.storePath (path v) fun p => { o with storePath := some p }
  | .pollInterval => fill o.pollInterval (number v) fun n => { o with pollInterval := some n }
  | .logLevel => fill o.logLevel (.ok v) fun s => { o with logLevel := some s }
  | .metricsAddress => fill o.metricsAddress (.ok v) fun s => { o with metricsAddress := some s }

/-- The option with a long name. -/
def long? (name : List Char) : Option OptionName :=
  if name = "config".toList then some .config
  else if name = "server-id".toList then some .serverId
  else if name = "role".toList then some .role
  else if name = "store-path".toList then some .storePath
  else if name = "poll-interval-ms".toList then some .pollInterval
  else if name = "log-level".toList then some .logLevel
  else if name = "metrics-addr".toList then some .metricsAddress
  else none

/-- The option with a short name. -/
def short? (c : Char) : Option OptionName :=
  if c = 'c' then some .config else none

/-- What is asked for instead of a run by a long name. -/
def longRequest? (name : List Char) : Option OptionsError :=
  if name = "help".toList then some .displayHelp
  else if name = "version".toList then some .displayVersion
  else none

/-- What is asked for instead of a run by a short name. -/
def shortRequest? (c : Char) : Option OptionsError :=
  if c = 'h' then some .displayHelp
  else if c = 'V' then some .displayVersion
  else none

/-- An argument by its form. -/
inductive Argument
  /-- Two dashes: no options follow. -/
  | endOfOptions
  /-- An option, with the value written together with it. -/
  | option (name : OptionName) (attached : Option String)
  | request (r : OptionsError)
  /-- A request with a value, which takes none. -/
  | requestWithValue
  /-- It has the form of an option, but is none. -/
  | unknown
  /-- It can only be a value. -/
  | plain (s : String)
  deriving DecidableEq, Repr

/-- A value that follows an equals sign, if there is one. -/
def attached : List Char → Option String
  | [] => none
  | '=' :: r => some (String.ofList r)
  | s => some (String.ofList s)

/-- The form of an argument. -/
def argument (arg : String) : Argument :=
  match arg.toList with
  | ['-', '-'] => .endOfOptions
  | '-' :: '-' :: r =>
    let name := r.takeWhile (· != '=')
    let value := attached (r.drop name.length)
    match long? name, longRequest? name with
    | some o, _ => .option o value
    | none, some q => if value.isSome then .requestWithValue else .request q
    | none, none => .unknown
  | '-' :: c :: r =>
    match short? c, shortRequest? c with
    | some o, _ => .option o (attached r)
    | none, some q => .request q
    | none, none => .unknown
  | _ => .plain arg

/-- A command line being read: the options given so far, and the last one, which is given as soon as
it is certain that it ends there. -/
structure Reading where
  options : Options
  last : Option (OptionName × Option String)

/-- Gives the last option. -/
def Reading.settle (r : Reading) : Except OptionsError Options :=
  match r.last with
  | none => .ok r.options
  | some (_, none) => .error .invalidValue
  | some (name, some v) => r.options.give v name

/-- Reads arguments. An unknown one is found out before the last option is given. -/
def read (r : Reading) : List String → Except OptionsError Options
  | [] => r.settle
  | arg :: rest =>
    match argument arg with
    | .endOfOptions => if rest.isEmpty then r.settle else .error .unknownArgument
    | .unknown => .error .unknownArgument
    | .requestWithValue => .error .tooManyValues
    | .request q =>
      match r.settle with
      | .ok _ => .error q
      | .error e => .error e
    | .option name (some v) =>
      match r.settle.bind fun o => o.give v name with
      | .ok options => read { options, last := none } rest
      | .error e => .error e
    | .option name none =>
      match r.settle with
      | .ok options => read { options, last := some (name, none) } rest
      | .error e => .error e
    | .plain v =>
      match r.last with
      | some (name, none) => read { r with last := some (name, some v) } rest
      | _ => .error .unknownArgument

/-- The options on a command line, the name of the program not being part of it. -/
def parse (args : List String) : Except OptionsError Options :=
  read { options := empty, last := none } args

/-- A value under a path of names, if it is given. -/
def leaf (path : List String) (v : Option Tree) : List Tree :=
  (v.map (Tree.nest path)).toList

/-- The layer of settings that options give. The case of a role makes no difference. -/
def tree (o : Options) : Tree :=
  let role := o.role.map fun r => Tree.text (String.ofList (r.toList.map Char.toLower))
  Tree.layer <|
    leaf ["log_level"] (o.logLevel.map .text) ++
    leaf ["node", "server_id"] (o.serverId.map .text) ++
    leaf ["node", "role"] role ++
    leaf ["resolver", "store_path"] (o.storePath.map .text) ++
    leaf ["distributor", "poll_interval_ms"] (o.pollInterval.map fun n => .integer n.toNat) ++
    leaf ["metrics", "listen_addr"] (o.metricsAddress.map .text)

end Options

end ZoneRelay
