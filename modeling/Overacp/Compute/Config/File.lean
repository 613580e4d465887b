import Overacp.Compute.Config.Reference
import Overacp.Lib.Json.Integer
import Overacp.Lib.Json.Read
import Overacp.Lib.Transition
import Overacp.Lib.UnixPath
import Overacp.Lib.WriteOnce

/-!
# Configurations over files that change

A resolver is asked for many configurations, and goes from one reference to the next while others do. A file that
is referred to is read once, when the first reference comes to it, and from then on stands as it was read. So all
configurations that are resolved are resolved over one reading of each file, whatever happens to the files.
-/

namespace Overacp

namespace Config

/-! ### Values of files -/

inductive Toml where
  | string (text : String)
  | integer (value : Int)
  | float (number : Option Json.Number)
  | boolean (value : Bool)
  | datetime (text : String)
  | array (elems : List Toml)
  | table (members : List (String × Toml))

mutual

/-- A float that is no number is `null`. -/
def tomlToJson : Toml → Json
  | .string text => .string text
  | .integer value => .number (.ofInt value)
  | .float number => (number.map Json.number).getD .null
  | .boolean value => .bool value
  | .datetime text => .string text
  | .array elems => .array (tomlElemsToJson elems)
  | .table members => .object (tomlMembersToJson members)

def tomlElemsToJson : List Toml → List Json
  | [] => []
  | v :: vs => tomlToJson v :: tomlElemsToJson vs

def tomlMembersToJson : List (String × Toml) → List (String × Json)
  | [] => []
  | (k, v) :: members => (k, tomlToJson v) :: tomlMembersToJson members

end

/-- What other crates do with the texts of files: which numbers `serde_json` takes and how it writes them, what it
says of a text that it cannot read, and the reader of TOML. -/
structure Formats where
  readNumber : Json.Number → Option Json.Number
  numberText : Json.Number → String
  jsonError : String → String
  toml : String → Except String Toml

def lookupDotted (root : Json) (dotted : String) : Option Json :=
  (dotted.toList.splitOn '.').foldlM (fun value part => value.get (String.ofList part)) root

def valueToString (F : Formats) : Json → Option String
  | .string s => some s
  | .number n => some (F.numberText n)
  | .bool b => some (if b then "true" else "false")
  | _ => none

/-- The value of a file from what reading it gave. -/
def decode (F : Formats) (path : String) : Except String String → Except ConfigError Json
  | .error e => .error (.resolution ("file:" ++ path) e)
  | .ok raw =>
      match UnixPath.extension path with
      | some "json" =>
          match Json.read F.readNumber raw.toList with
          | some value => .ok value
          | none => .error (.resolution ("file:" ++ path) (F.jsonError raw))
      | some "toml" =>
          match F.toml raw with
          | .ok value => .ok (tomlToJson value)
          | .error e => .error (.resolution ("file:" ++ path) e)
      | _ => .error (.invalidValue path "file must have .toml or .json extension")

/-! ### The providers -/

abbrev Cache := List (List UnixPath.Component × Json)

/-- `load`, which holds the lock of the cache while it reads. -/
def load (F : Formats) (cache : Cache) (files : String → Except String String) (path : String) :
    Except ConfigError Json × Cache := WriteOnce.load cache (UnixPath.components path) (decode F path (files path))

def fileLookup (F : Formats) (load : String → Except ConfigError Json) : Lookup := fun path key =>
  match key with
  | none => .error (.invalidValue path "file references require a key: $\x7bfile:/path:key\x7d")
  | some key =>
      match load path with
      | .error e => .error e
      | .ok value =>
          match lookupDotted value key with
          | none => .error (.missingKey ("file:" ++ path ++ ":" ++ key))
          | some found =>
              match valueToString F found with
              | none => .error (.invalidValue ("file:" ++ path ++ ":" ++ key) "value is not a scalar")
              | some text => .ok text

def envLookup (env : String → Option String) : Lookup := fun path key =>
  if key.isSome then .error (.invalidValue path "env references take a single segment: $\x7benv:VAR\x7d")
  else
    match env path with
    | some value => .ok value
    | none => .error (.missingKey ("env:" ++ path))

/-- `ConfigResolver::with_defaults`, by what `load` answers. -/
def withDefaults (F : Formats) (env : String → Option String) (load : String → Except ConfigError Json) :
    String → Option Lookup
  | "env" => some (envLookup env)
  | "file" => some (fileLookup F load)
  | _ => none

/-! ### Resolving, one segment at a time -/

/-- Where a call of `resolve` is: between two values, within one, over or dropped. It panics where the parser does. -/
inductive Work where
  | values (done : List (String × String)) (todo : RawConfig)
  | segments (done : List (String × String)) (key out : String) (rest : List Segment) (todo : RawConfig)
  | finished (result : Option (Except ConfigError ResolvedConfig))
  | dropped
  deriving DecidableEq, Repr

structure Job where
  raw : RawConfig
  work : Work
  deriving DecidableEq, Repr

/-- `reads` are the files that were read, with what came of it. -/
structure Resolver where
  cache : Cache
  jobs : List Job
  reads : List (String × Except String String)

namespace Resolver

def start : Resolver := ⟨[], [], []⟩

def become (s : Resolver) (i : Nat) (raw : RawConfig) (work : Work) : Resolver :=
  { s with jobs := s.jobs.set i ⟨raw, work⟩ }

/-- A reference to a file comes to `load`. -/
def consult (F : Formats) (files : String → Except String String) (s : Resolver) (path : String) : Resolver :=
  { s with
    cache := (load F s.cache files path).2
    reads := if s.cache.lookup (UnixPath.components path) = none then s.reads ++ [(path, files path)] else s.reads }

end Resolver

inductive Event where
  | resolve (raw : RawConfig)
  | turn (job : Nat) (files : String → Except String String)
  | drop (job : Nat)

variable (F : Formats) (env : String → Option String)

/-- A reference is looked up while the files are as they are. -/
def refer (files : String → Except String String) (s : Resolver) (scheme path : String) (key : Option String) :
    Except ConfigError String × Resolver :=
  match withDefaults F env (fun path => (load F s.cache files path).1) scheme with
  | none => (.error (.unknownProvider scheme), s)
  | some lookup => (lookup path key, if scheme = "file" ∧ key.isSome then s.consult F files path else s)

/-- A job takes up its next value or its next segment. -/
def turn (files : String → Except String String) (s : Resolver) (i : Nat) (raw : RawConfig) :
    Work → Option Resolver
  | .values done [] => some (s.become i raw (.finished (some (.ok ⟨done, raw⟩))))
  | .values done ((k, v) :: todo) =>
      match parse v with
      | none => some (s.become i raw (.finished none))
      | some (.error e) => some (s.become i raw (.finished (some (.error e))))
      | some (.ok segments) => some (s.become i raw (.segments done k "" segments todo))
  | .segments done k out [] todo => some (s.become i raw (.values (done ++ [(k, out)]) todo))
  | .segments done k out (.literal text :: rest) todo =>
      some (s.become i raw (.segments done k (out ++ text) rest todo))
  | .segments done k out (.ref scheme path key :: rest) todo =>
      match refer F env files s scheme path key with
      | (.error e, t) => some (t.become i raw (.finished (some (.error e))))
      | (.ok v, t) => some (t.become i raw (.segments done k (out ++ v) rest todo))
  | .finished _ => none
  | .dropped => none

def step (s : Resolver) : Event → Option Resolver
  | .resolve raw => some { s with jobs := s.jobs ++ [⟨raw, .values [] raw⟩] }
  | .turn i files => s.jobs[i]?.bind fun job => turn F env files s i job.raw job.work
  | .drop i => s.jobs[i]?.bind fun job =>
      match job.work with
      | .finished _ => none
      | _ => some (s.become i job.raw .dropped)

def system : Transition.System Resolver Event := ⟨.start, step F env⟩

end Config

end Overacp
