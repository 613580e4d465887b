import Mathlib.Data.String.Basic
import Overacp.Compute.Config.Reference
import Overacp.Lib.Holdings
import Overacp.Lib.Json.Decimal
import Overacp.Lib.SortedMap
import Overacp.Lib.Transition
import Overacp.Server.Registry.UuidText

/-!
# The local-process provider

A node is a child process of the controlplane, and its id is the id of the process. Calls run side by side, take
turns at every `await`, and may be dropped at any; a process exits when it likes, and the system gives its id to
another one from the time it was waited for. So an id is a key of the table of nodes only as long as its process
was not waited for, and the table and the processes have to agree whatever the order of the calls.
-/

namespace Overacp

namespace Compute

open Config (ConfigError ResolvedConfig)

abbrev Pid := Nat

inductive NodeStatus where
  | pending
  | running
  | idle
  | exited
  | errored
  deriving DecidableEq, Repr

/-- `providerMetadata` is not read again. -/
structure NodeHandle where
  id : String
  providerMetadata : Json

structure NodeSpec where
  image : String
  cpu : Option Nat
  memoryGb : Option Nat
  diskGb : Option Nat
  env : List (String × String)
  jwt : String
  deriving DecidableEq, Repr

structure NodeDescription where
  handle : NodeHandle
  status : NodeStatus
  image : String
  cpu : Option Nat
  memoryGb : Option Nat
  diskGb : Option Nat
  createdAt : Int

inductive ProviderError where
  | notFound (id : String)
  | config (error : ConfigError)
  | backend (message : String)
  | timeout
  | io (message : String)
  deriving DecidableEq, Repr

/-! ### Nodes and processes -/

/-- The fields of a node that never change, and the address of the two that do. -/
structure LocalNode where
  handle : NodeHandle
  workspace : String
  image : String
  cpu : Option Nat
  memoryGb : Option Nat
  diskGb : Option Nat
  createdAt : Int
  cell : Nat

structure Cell where
  child : Option Pid
  status : NodeStatus
  deriving DecidableEq, Repr

/-- A process that was not waited for. `killed` is a signal that was sent, and `exited` what `wait` waits for. -/
structure Process where
  pid : Pid
  workspace : String
  env : List (String × String)
  killed : Bool
  exited : Bool
  deriving DecidableEq, Repr

structure LocalProvider where
  agentBinary : String
  workspaceRoot : String
  deriving DecidableEq, Repr

def defaultAgentBinary : String := "overacp-agent"

/-- `Path::join` of a name. -/
def join (root name : String) : String :=
  if root = "" then name
  else if root.toList.getLast? = some '/' then root ++ name
  else root ++ "/" ++ name

namespace LocalProvider

def fromConfig (tempDir : String) (config : ResolvedConfig) : LocalProvider where
  agentBinary := (config.resolved.lookup "local.agent_binary").getD defaultAgentBinary
  workspaceRoot := (config.resolved.lookup "local.workspace_root").getD (join tempDir "overacp-local")

/-- The first of the two keys whose value is not a text. -/
def validateConfig (config : List (String × Json)) : Except ConfigError Unit :=
  ["local.agent_binary", "local.workspace_root"].forM fun key =>
    match config.lookup key with
    | none | some (.string _) => .ok ()
    | some _ => .error (.invalidValue key "must be a string")

/-- Checks one after the other: all succeed, or the error is that of one that fails. -/
theorem forM_checks {α ε : Type} (check : α → Except ε Unit) (xs : List α) :
    match xs.forM check with
    | .ok () => ∀ x ∈ xs, check x = .ok ()
    | .error e => ∃ x ∈ xs, check x = .error e := by
  induction xs with
  | nil => exact fun x hx => absurd hx List.not_mem_nil
  | cons x xs ih =>
      rw [List.forM]
      cases hcheck : check x with
      | error e => exact ⟨x, List.mem_cons_self, hcheck⟩
      | ok _ =>
          dsimp only [bind, Except.bind]
          split at ih
          · exact List.forall_mem_cons.mpr ⟨hcheck, ih⟩
          · obtain ⟨other, hother, herror⟩ := ih
            exact ⟨other, List.mem_cons_of_mem x hother, herror⟩

/-- A configuration is valid if both settings, where they are given, are texts, and an error names one that is not. -/
theorem validateConfig_spec (config : List (String × Json)) :
    match validateConfig config with
    | .ok () => ∀ key ∈ ["local.agent_binary", "local.workspace_root"], ∀ v, config.lookup key = some v →
        ∃ text, v = .string text
    | .error e => ∃ key ∈ ["local.agent_binary", "local.workspace_root"], ∃ v, config.lookup key = some v ∧
        (∀ text, v ≠ .string text) ∧ e = .invalidValue key "must be a string" := by
  have hchecks := forM_checks (fun key => match config.lookup key with
    | none | some (.string _) => (.ok () : Except ConfigError Unit)
    | some _ => .error (.invalidValue key "must be a string")) ["local.agent_binary", "local.workspace_root"]
  split at hchecks
  · rename_i hok
    rw [show validateConfig config = .ok () from hok]
    intro key hkey v hv
    have hcheck := hchecks key hkey
    rw [hv] at hcheck
    cases v with
    | string text => exact ⟨text, rfl⟩
    | _ => cases hcheck
  · rename_i herror
    obtain ⟨key, hkey, hcheck⟩ := hchecks
    rw [show validateConfig config = .error _ from herror]
    refine ⟨key, hkey, ?_⟩
    cases hv : config.lookup key with
    | none =>
        rw [hv] at hcheck
        cases hcheck
    | some v =>
        rw [hv] at hcheck
        cases v with
        | string text => cases hcheck
        | _ =>
            cases hcheck
            exact ⟨_, rfl, nofun, rfl⟩

/-- The value of a setting: what the text that is given for it resolves to, or the default. -/
def Setting (providers : String → Option Config.Lookup) (raw : Config.RawConfig) (key fallback value : String) : Prop :=
  match raw.lookup key with
  | none => value = fallback
  | some text => Config.resolveValue providers text = some (.ok value)

/-- A provider has the settings of the configuration that it was made from. -/
theorem fromConfig_set {providers : String → Option Config.Lookup} {raw : Config.RawConfig} {config : ResolvedConfig}
    (h : Config.resolve providers raw = some (.ok config)) (tempDir : String) :
    Setting providers raw "local.agent_binary" defaultAgentBinary (fromConfig tempDir config).agentBinary ∧
      Setting providers raw "local.workspace_root" (join tempDir "overacp-local")
        (fromConfig tempDir config).workspaceRoot := by
  obtain ⟨result, hresolved, hconfig⟩ := Option.map_eq_some_iff.mp h
  cases result with
  | error e => cases hconfig
  | ok resolved =>
      cases hconfig
      have hset (key fallback : String) : Setting providers raw key fallback ((resolved.lookup key).getD fallback) := by
        have hlookup := Config.lookup_resolveAll hresolved key
        unfold Setting
        cases hraw : raw.lookup key with
        | none =>
            rw [hraw] at hlookup
            rw [hlookup]
            rfl
        | some text =>
            rw [hraw] at hlookup
            obtain ⟨value, hvalue, htext⟩ := hlookup
            rw [hvalue]
            exact htext
      exact ⟨hset _ _, hset _ _⟩

def workspaceOf (p : LocalProvider) (uuid : Uuid) : String :=
  join p.workspaceRoot ("node-" ++ String.ofList (Hex.digits 32 uuid.toNat))

end LocalProvider

/-! ### Calls -/

inductive Outcome where
  | created (node : LocalNode)
  | listed (handles : List NodeHandle)
  | described (description : NodeDescription)
  | deleted
  | failed (error : ProviderError)
  | dropped

/-- Where a call is: what it awaits, and what it has in hand. Of one that is over, `took` is the node it had in hand
to the end, and `left` the directory that it made or was to remove and that is there. -/
inductive Phase where
  | creating (spec : NodeSpec) (workspace : String)
  | inserting (node : LocalNode)
  | listing
  | describing (id : String)
  | reading (node : LocalNode)
  | deleting (id : String)
  | removed (node : LocalNode)
  | reaping (node : LocalNode) (child : Pid)
  | reaped (node : LocalNode)
  | clearing (node : LocalNode)
  | finished (outcome : Outcome) (took : Option Nat) (left : Option String)

namespace Phase

/-- The references to a node that keep it alive. -/
def holds : Phase → List Nat
  | .inserting node | .reading node | .removed node | .reaping node _ | .reaped node | .clearing node => [node.cell]
  | _ => []

/-- The child that has left its node and was not waited for. -/
def frame : Phase → List Pid
  | .reaping _ child => [child]
  | _ => []

def Over : Phase → Prop
  | .finished .. => True
  | _ => False

instance : DecidablePred Over := fun phase => by
  cases phase <;> unfold Over <;> infer_instance

end Phase

/-- `nodes` by their ids. `cells` are of all nodes there ever were, and `orphans` the children that were dropped
and are left to the runtime to wait for. -/
structure State where
  nodes : List (String × LocalNode)
  cells : List Cell
  calls : List Phase
  processes : List Process
  orphans : List Pid
  directories : List String

namespace State

def start : State := ⟨[], [], [], [], [], []⟩

def pids (s : State) : List Pid := s.processes.map Process.pid

def cell (s : State) (n : Nat) : Cell := s.cells.getD n ⟨none, .exited⟩

def begin_ (s : State) (phase : Phase) : State := { s with calls := s.calls ++ [phase] }

def become (s : State) (i : Nat) (phase : Phase) : State := { s with calls := s.calls.set i phase }

def setCell (s : State) (n : Nat) (cell : Cell) : State := { s with cells := s.cells.set n cell }

/-- `SIGKILL`; a process that has exited takes no notice. -/
def kill (s : State) (pid : Pid) : State :=
  { s with processes := s.processes.map fun p => if p.pid = pid then { p with killed := true } else p }

/-- `wait` is answered, and the id is free. -/
def waitFor (s : State) (pid : Pid) : State := { s with processes := s.processes.filter fun p => p.pid ≠ pid }

/-- A `Child` with `kill_on_drop` is dropped. -/
def dropChild (s : State) (pid : Pid) : State := { s.kill pid with orphans := s.orphans ++ [pid] }

def held (s : State) (n : Nat) : Bool :=
  (s.nodes.any fun e => e.2.cell = n) || s.calls.any fun call => n ∈ call.holds

/-- A reference to a node is gone; if it was the last one the node is dropped, with its child. -/
def release (s : State) (n : Nat) : State :=
  if s.held n then s
  else
    match (s.cell n).child with
    | none => s
    | some pid => (s.setCell n { s.cell n with child := none }).dropChild pid

/-- `create_dir_all`. -/
def makeDir (s : State) (workspace : String) : State :=
  if workspace ∈ s.directories then s else { s with directories := s.directories ++ [workspace] }

/-- `remove_dir_all`, where it succeeds. -/
def removeDir (s : State) (workspace : String) : State :=
  { s with directories := s.directories.filter fun w => w ≠ workspace }

end State

/-- What `spawn` answers. -/
inductive Spawned where
  | failed (error : String)
  | child (pid : Pid) (now : Int)
  deriving DecidableEq, Repr

/-- `locked` is the turn of a call that awaits a lock, `notMade`, `made` and `cleared` answer a request to the file
system, `waited` the wait for a child. A call that is dropped leaves its request to the file system to go through
or not. -/
inductive Event where
  | createNode (spec : NodeSpec) (uuid : Uuid)
  | listNodes
  | describeNode (id : String)
  | deleteNode (id : String)
  | notMade (call : Nat) (error : String)
  | made (call : Nat) (spawned : Spawned)
  | locked (call : Nat)
  | waited (call : Nat)
  | cleared (call : Nat) (removed : Bool)
  | drop (call : Nat) (through : Bool)
  | exit (pid : Pid)
  | reap (pid : Pid)
  deriving DecidableEq, Repr

/-- The rest of `create_node` up to the lock, once the directory is made. The system gives no id twice. -/
def spawn (p : LocalProvider) (s : State) (i : Nat) (spec : NodeSpec) (workspace : String) :
    Spawned → Option State
  | .failed error =>
      some ((s.makeDir workspace).become i (.finished
        (.failed (.backend ("spawn " ++ p.agentBinary ++ ": " ++ error))) none (some workspace)))
  | .child pid now =>
      if pid ∈ s.pids then none
      else
        let node : LocalNode :=
          { handle := ⟨toString pid, .object [("pid", .number (.ofInt pid)), ("workspace", .string workspace)]⟩
            workspace, image := spec.image, cpu := spec.cpu, memoryGb := spec.memoryGb, diskGb := spec.diskGb
            createdAt := now, cell := s.cells.length }
        let process : Process := ⟨pid, workspace, spec.env ++ [("OVERACP_AGENT_JWT", spec.jwt)], false, false⟩
        let t := (s.makeDir workspace).become i (.inserting node)
        some { t with cells := s.cells ++ [⟨some pid, .running⟩], processes := s.processes ++ [process] }

def describe (s : State) (node : LocalNode) : NodeDescription where
  handle := node.handle
  status := (s.cell node.cell).status
  image := node.image
  cpu := node.cpu
  memoryGb := node.memoryGb
  diskGb := node.diskGb
  createdAt := node.createdAt

/-- An insertion that replaces a node lets go of it. -/
def insertNode (s : State) (i : Nat) (node : LocalNode) : State :=
  let t := { s with
    nodes := SortedMap.insert node.handle.id node s.nodes
    calls := s.calls.set i (.finished (.created node) none none) }
  match SortedMap.lookup node.handle.id s.nodes with
  | none => t
  | some old => t.release old.cell

/-- `take` and `start_kill`. -/
def killNode (s : State) (i : Nat) (node : LocalNode) : State :=
  match (s.cell node.cell).child with
  | none => s.become i (.reaped node)
  | some pid => ((s.setCell node.cell { s.cell node.cell with child := none }).kill pid).become i (.reaping node pid)

def locked (s : State) (i : Nat) : Phase → Option State
  | .inserting node => some (insertNode s i node)
  | .listing => some (s.become i (.finished (.listed (s.nodes.map fun e => e.2.handle)) none none))
  | .describing id =>
      match SortedMap.lookup id s.nodes with
      | none => some (s.become i (.finished (.failed (.notFound id)) none none))
      | some node => some (s.become i (.reading node))
  | .reading node => some ((s.become i (.finished (.described (describe s node)) none none)).release node.cell)
  | .deleting id =>
      match SortedMap.lookup id s.nodes with
      | none => some (s.become i (.finished .deleted none none))
      | some node => some { s with nodes := SortedMap.remove id s.nodes, calls := s.calls.set i (.removed node) }
  | .removed node => some (killNode s i node)
  | .reaped node => some ((s.setCell node.cell { s.cell node.cell with status := .exited }).become i (.clearing node))
  | _ => none

/-- The directory of a node is removed or not, and the call with it is over. -/
def clear (s : State) (i : Nat) (node : LocalNode) (outcome : Outcome) (removed : Bool) : State :=
  if removed then
    ((s.removeDir node.workspace).become i (.finished outcome (some node.cell) none)).release node.cell
  else (s.become i (.finished outcome (some node.cell) (some node.workspace))).release node.cell

/-- The future of a call is dropped where it stands. -/
def drop (s : State) (i : Nat) (through : Bool) : Phase → Option State
  | .creating _ workspace =>
      if through then some ((s.makeDir workspace).become i (.finished .dropped none (some workspace)))
      else some (s.become i (.finished .dropped none none))
  | .listing | .describing _ | .deleting _ => some (s.become i (.finished .dropped none none))
  | .reading node => some ((s.become i (.finished .dropped none none)).release node.cell)
  | .inserting node | .removed node | .reaped node => some (clear s i node .dropped false)
  | .reaping node pid => some (clear (s.dropChild pid) i node .dropped false)
  | .clearing node => some (clear s i node .dropped through)
  | .finished .. => none

def step (p : LocalProvider) (s : State) : Event → Option State
  | .createNode spec uuid => some (s.begin_ (.creating spec (p.workspaceOf uuid)))
  | .listNodes => some (s.begin_ .listing)
  | .describeNode id => some (s.begin_ (.describing id))
  | .deleteNode id => some (s.begin_ (.deleting id))
  | .notMade i error =>
      match s.calls[i]? with
      | some (.creating _ _) => some (s.become i (.finished (.failed (.io error)) none none))
      | _ => none
  | .made i spawned =>
      match s.calls[i]? with
      | some (.creating spec workspace) => spawn p s i spec workspace spawned
      | _ => none
  | .locked i => s.calls[i]?.bind (locked s i)
  | .waited i =>
      match s.calls[i]? with
      | some (.reaping node pid) =>
          if s.processes.any fun p => p.pid = pid ∧ p.exited then some ((s.waitFor pid).become i (.reaped node))
          else none
      | _ => none
  | .cleared i removed =>
      match s.calls[i]? with
      | some (.clearing node) => some (clear s i node .deleted removed)
      | _ => none
  | .drop i through => s.calls[i]?.bind (drop s i through)
  | .exit pid =>
      some { s with processes := s.processes.map fun p => if p.pid = pid then { p with exited := true } else p }
  | .reap pid =>
      if pid ∈ s.orphans ∧ s.processes.any (fun p => p.pid = pid ∧ p.exited) then
        some { s.waitFor pid with orphans := s.orphans.erase pid }
      else none

def system (p : LocalProvider) : Transition.System State Event := ⟨.start, step p⟩

end Compute

end Overacp
