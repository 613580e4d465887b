import Overacp.Lib.Transition
import Overacp.Loop.Llm.Types
import Mathlib.Data.Finset.Basic
import Mathlib.Tactic.Tauto
import Mathlib.Data.List.AList

/-!
# The tool registry

Tools come from three places: functions of the process, MCP servers and the operator's tunnel.
`definitions` puts the operator first, MCP second and the builtins last; a call goes to the operator
first, to a builtin second and to MCP last. This module runs any sequence of registrations and says
for which names the two orders agree.
-/

namespace Overacp

open Llm

/-- The functions `register_builtins` registers. -/
inductive ToolFn where
  | toolRead
  | toolWrite
  | toolExec
  | toolGlob
  | toolGrep
  | toolReadMedia
  deriving DecidableEq, Repr

inductive ToolOutput where
  | text (text : String)
  | blocks (blocks : List ToolContent)
  deriving DecidableEq, Repr

structure McpClient where
  url : String
  sessionId : Option String
  deriving DecidableEq, Repr

/-- A tool as an MCP server lists it. -/
structure McpToolDef where
  name : String
  description : Option String
  inputSchema : Json
  deriving Repr

def mcpToToolDefinition (mcp : McpToolDef) : ToolDefinition where
  toolType := "function"
  function := ⟨mcp.name, mcp.description.getD "MCP tool", mcp.inputSchema⟩

/-- A hash map; the order of its entries is no more than one of the orders an iteration may take. -/
abbrev HashMap (ν : Type) := AList fun _ : String => ν

structure ToolRegistry where
  builtins : HashMap ToolFn
  builtinDefs : List ToolDefinition
  mcpClients : List McpClient
  mcpTools : HashMap (Nat × ToolDefinition)
  acpTools : Finset String
  acpDefs : List ToolDefinition

namespace ToolRegistry

/-! ### Registering -/

def register (registry : ToolRegistry) (name : String) (func : ToolFn) (parameters : Json)
    (description : String) : ToolRegistry :=
  { registry with
    builtins := registry.builtins.insert name func
    builtinDefs := registry.builtinDefs ++ [⟨"function", name, description, parameters⟩] }

/-- One property of an input schema. -/
def property (name type description : String) : String × Json :=
  (name, .object [("description", .string description), ("type", .string type)])

def inputSchema (properties : List (String × Json)) (required : List String) : Json :=
  .object [("properties", .object properties), ("required", .array (required.map .string)),
    ("type", .string "object")]

def registerBuiltins (registry : ToolRegistry) : ToolRegistry :=
  let registry := registry.register "read" .toolRead
    (inputSchema [property "limit" "integer" "Max lines to read",
      property "offset" "integer" "Line offset (0-based)",
      property "path" "string" "Absolute path to read"] ["path"])
    "Read a file with optional line offset and limit."
  let registry := registry.register "write" .toolWrite
    (inputSchema [property "content" "string" "File content",
      property "path" "string" "Absolute path to write"] ["path", "content"])
    "Write content to a file, creating parent directories."
  let registry := registry.register "exec" .toolExec
    (inputSchema [property "command" "string" "Bash command to execute",
      property "timeout" "integer" "Timeout in seconds (default 120)"] ["command"])
    "Execute a bash command with timeout."
  let registry := registry.register "glob" .toolGlob
    (inputSchema [property "path" "string" "Directory to search (default .)",
      property "pattern" "string" "Glob pattern"] ["pattern"])
    "Find files matching a glob pattern."
  let registry := registry.register "grep" .toolGrep
    (inputSchema [property "path" "string" "Directory to search (default .)",
      property "pattern" "string" "Search pattern (regex)"] ["pattern"])
    "Search file contents with grep."
  registry.register "read_media" .toolReadMedia
    (inputSchema [property "media_type" "string"
        "MIME type override (e.g. image/png). Takes priority over extension-based detection.",
      property "path" "string" "Absolute path to a media file"] ["path"])
    "Read an image file and return it as a visual content block the model can see."

def new : ToolRegistry := registerBuiltins ⟨∅, [], [], ∅, ∅, []⟩

/-- The loop of `connect_mcp` over the tools of the client that gets the index. -/
def insertMcpTools (mcpTools : HashMap (Nat × ToolDefinition)) (idx : Nat) (tools : List ToolDefinition) :
    HashMap (Nat × ToolDefinition) :=
  tools.foldl (fun map toolDef => map.insert toolDef.function.name (idx, toolDef)) mcpTools

/-- `connect_mcp` once the server has answered `initialize` and `tools/list`, or failed to. -/
def connectMcp (registry : ToolRegistry) (client : McpClient)
    (tools : Except String (List McpToolDef)) : Except String Unit × ToolRegistry :=
  match tools with
  | .error e => (.error e, registry)
  | .ok tools =>
      (.ok (), { registry with
        mcpTools := insertMcpTools registry.mcpTools registry.mcpClients.length
          (tools.map mcpToToolDefinition)
        mcpClients := registry.mcpClients ++ [client] })

def setAcpTools (registry : ToolRegistry) (tools : List ToolDefinition) : ToolRegistry :=
  { registry with
    acpTools := (tools.map fun toolDef => toolDef.function.name).toFinset
    acpDefs := tools }

def isAcpTool (registry : ToolRegistry) (name : String) : Bool := name ∈ registry.acpTools

/-! ### Advertising -/

/-- Where a tool is executed. -/
inductive Source where
  | acp
  | mcp (idx : Nat)
  | builtin
  deriving DecidableEq, Repr

/-- The name a tagged definition goes by. -/
def taggedName (toolDef : Source × ToolDefinition) : String := toolDef.2.function.name

/-- `if seen.insert(name) { defs.push(def) }`. -/
def pushUnseen (acc : List String × List (Source × ToolDefinition)) (toolDef : Source × ToolDefinition) :
    List String × List (Source × ToolDefinition) :=
  if taggedName toolDef ∈ acc.1 then acc else (taggedName toolDef :: acc.1, acc.2 ++ [toolDef])

/-- The loops of `definitions`, each definition with the source it came from; `values` is the order
in which `mcp_tools` is iterated. -/
def advertised (registry : ToolRegistry) (values : List (Nat × ToolDefinition)) :
    List (Source × ToolDefinition) :=
  let seen := registry.acpDefs.map fun toolDef => toolDef.function.name
  let defs := registry.acpDefs.map fun toolDef => (Source.acp, toolDef)
  let acc := (values.map fun v => (Source.mcp v.1, v.2)).foldl pushUnseen (seen, defs)
  ((registry.builtinDefs.map fun toolDef => (Source.builtin, toolDef)).foldl pushUnseen acc).2

def definitions (registry : ToolRegistry) (values : List (Nat × ToolDefinition)) : List ToolDefinition :=
  (registry.advertised values).map Prod.snd

/-- An order in which `mcp_tools.values()` may come. -/
def IterationOrder (registry : ToolRegistry) (values : List (Nat × ToolDefinition)) : Prop :=
  values.Perm (registry.mcpTools.entries.map Sigma.snd)

/-! ### Executing -/

/-- The branch `execute` takes for a name. -/
def executeSource (registry : ToolRegistry) (name : String) : Option Source :=
  match registry.builtins.lookup name with
  | some _ => some .builtin
  | none => (registry.mcpTools.lookup name).map fun entry => .mcp entry.1

/-- The source the loop executes a call on; `none` where the tool is unknown. -/
def dispatch (registry : ToolRegistry) (name : String) : Option Source :=
  if registry.isAcpTool name then some .acp else registry.executeSource name

/-- All text collapses to one string. -/
def collapseContents (contents : List ToolContent) : ToolOutput :=
  let texts := contents.filterMap fun
    | .text t => some t
    | _ => none
  if texts.length = contents.length then .text (String.intercalate "\n" texts) else .blocks contents

/-- `execute`, given what the functions and the MCP servers answer. The outer `none` is the panic of
an index out of bounds. -/
def execute (registry : ToolRegistry) (callFn : ToolFn → Json → Except String ToolOutput)
    (callTool : McpClient → String → Json → Except String (List ToolContent)) (name : String)
    (arguments : Json) : Option (Except String ToolOutput) :=
  match registry.builtins.lookup name with
  | some func => some (callFn func arguments)
  | none =>
      match registry.mcpTools.lookup name with
      | some (idx, _) =>
          registry.mcpClients[idx]?.map fun client =>
            (callTool client name arguments).map collapseContents
      | none => some (.error s!"unknown tool: {name}")

/-! ### Runs -/

inductive Event where
  | connectMcp (client : McpClient) (tools : Except String (List McpToolDef))
  | setAcpTools (tools : List ToolDefinition)

def system : Transition.System ToolRegistry Event where
  init := new
  step registry
    | .connectMcp client tools => some (registry.connectMcp client tools).2
    | .setAcpTools tools => some (registry.setAcpTools tools)

/-- The sources a name is advertised from are exactly the source its calls are executed on. -/
def Agrees (registry : ToolRegistry) (values : List (Nat × ToolDefinition)) (name : String) : Prop :=
  ∀ source, (∃ toolDef, (source, toolDef) ∈ registry.advertised values ∧ toolDef.function.name = name) ↔
    registry.dispatch name = some source

/-- An MCP server has listed a tool under the name of a builtin that the operator does not shadow. -/
def ShadowsBuiltin (registry : ToolRegistry) (name : String) : Prop :=
  name ∈ registry.mcpTools ∧ name ∈ registry.builtins ∧ registry.isAcpTool name = false

structure Inv (registry : ToolRegistry) : Prop where
  builtins : registry.builtins = new.builtins
  builtinDefs : registry.builtinDefs = new.builtinDefs
  mcp : ∀ name entry, registry.mcpTools.lookup name = some entry →
    entry.2.function.name = name ∧ entry.1 < registry.mcpClients.length
  acp : ∀ name, name ∈ registry.acpTools ↔ ∃ toolDef ∈ registry.acpDefs, toolDef.function.name = name

theorem inv_new : Inv new where
  builtins := rfl
  builtinDefs := rfl
  mcp := by
    intro name entry hlookup
    cases hlookup
  acp := by
    intro name
    simp [new, registerBuiltins, register]

theorem lookup_insertMcpTools {mcpTools : HashMap (Nat × ToolDefinition)} {idx : Nat}
    {tools : List ToolDefinition} {name : String} {entry : Nat × ToolDefinition}
    (hlookup : (insertMcpTools mcpTools idx tools).lookup name = some entry) :
    mcpTools.lookup name = some entry ∨ entry.1 = idx ∧ entry.2.function.name = name := by
  induction tools generalizing mcpTools with
  | nil => exact .inl hlookup
  | cons toolDef tools ih =>
      rcases ih hlookup with hold | hnew
      · by_cases hname : name = toolDef.function.name
        · subst hname
          rw [AList.lookup_insert] at hold
          cases hold
          exact .inr ⟨rfl, rfl⟩
        · rw [AList.lookup_insert_ne hname] at hold
          exact .inl hold
      · exact .inr hnew

theorem inv_connectMcp {registry : ToolRegistry} (h : Inv registry) (client : McpClient)
    (tools : Except String (List McpToolDef)) : Inv (registry.connectMcp client tools).2 := by
  cases tools with
  | error e => exact h
  | ok tools =>
      refine ⟨h.builtins, h.builtinDefs, ?_, h.acp⟩
      intro name entry hlookup
      have hlength : (registry.mcpClients ++ [client]).length = registry.mcpClients.length + 1 := by
        rw [List.length_append, List.length_singleton]
      show entry.2.function.name = name ∧ entry.1 < (registry.mcpClients ++ [client]).length
      rcases lookup_insertMcpTools hlookup with hold | ⟨hidx, hname⟩
      · obtain ⟨hname, hlt⟩ := h.mcp name entry hold
        exact ⟨hname, by omega⟩
      · exact ⟨hname, by omega⟩

theorem inv_setAcpTools {registry : ToolRegistry} (h : Inv registry) (tools : List ToolDefinition) :
    Inv (registry.setAcpTools tools) := by
  refine ⟨h.builtins, h.builtinDefs, h.mcp, ?_⟩
  intro name
  simp only [setAcpTools, List.mem_toFinset, List.mem_map]

theorem inv_step {registry registry' : ToolRegistry} {event : Event}
    (hstep : system.step registry event = some registry') (h : Inv registry) : Inv registry' := by
  cases event with
  | connectMcp client tools =>
      cases hstep
      exact inv_connectMcp h client tools
  | setAcpTools tools =>
      cases hstep
      exact inv_setAcpTools h tools

theorem inv_of_reachable {registry : ToolRegistry} (h : system.Reachable registry) : Inv registry :=
  h.invariant inv_new fun _ _ _ hstep hinv => inv_step hstep hinv

/-! ### What is advertised -/

theorem seen_foldl_pushUnseen (toolDefs : List (Source × ToolDefinition))
    (acc : List String × List (Source × ToolDefinition)) (name : String) :
    name ∈ (toolDefs.foldl pushUnseen acc).1 ↔ name ∈ acc.1 ∨ name ∈ toolDefs.map taggedName := by
  induction toolDefs generalizing acc with
  | nil => simp
  | cons toolDef toolDefs ih =>
      rw [List.foldl_cons, ih, List.map_cons, List.mem_cons]
      unfold pushUnseen
      split
      · rename_i hseen
        constructor
        · rintro (hacc | hrest)
          · exact .inl hacc
          · exact .inr (.inr hrest)
        · rintro (hacc | rfl | hrest)
          · exact .inl hacc
          · exact .inl hseen
          · exact .inr hrest
      · rw [List.mem_cons]
        tauto

theorem mem_foldl_pushUnseen {toolDefs : List (Source × ToolDefinition)}
    (hnodup : (toolDefs.map taggedName).Nodup) (acc : List String × List (Source × ToolDefinition))
    (toolDef : Source × ToolDefinition) :
    toolDef ∈ (toolDefs.foldl pushUnseen acc).2 ↔
      toolDef ∈ acc.2 ∨ toolDef ∈ toolDefs ∧ taggedName toolDef ∉ acc.1 := by
  induction toolDefs generalizing acc with
  | nil => simp
  | cons first toolDefs ih =>
      rw [List.map_cons, List.nodup_cons] at hnodup
      have hfirst : ∀ other ∈ toolDefs, taggedName other ≠ taggedName first := by
        intro other hother heq
        exact hnodup.1 (heq ▸ List.mem_map_of_mem hother)
      rw [List.foldl_cons, ih hnodup.2, List.mem_cons]
      unfold pushUnseen
      split
      · rename_i hseen
        constructor
        · rintro (hacc | ⟨hmem, hunseen⟩)
          · exact .inl hacc
          · exact .inr ⟨.inr hmem, hunseen⟩
        · rintro (hacc | ⟨rfl | hmem, hunseen⟩)
          · exact .inl hacc
          · exact absurd hseen hunseen
          · exact .inr ⟨hmem, hunseen⟩
      · rename_i hunseen
        rw [List.mem_append, List.mem_singleton]
        constructor
        · rintro ((hacc | rfl) | ⟨hmem, hnot⟩)
          · exact .inl hacc
          · exact .inr ⟨.inl rfl, hunseen⟩
          · exact .inr ⟨.inr hmem, fun hin => hnot (List.mem_cons_of_mem _ hin)⟩
        · rintro (hacc | ⟨rfl | hmem, hnot⟩)
          · exact .inl (.inl hacc)
          · exact .inl (.inr rfl)
          · refine .inr ⟨hmem, fun hin => ?_⟩
            rcases List.mem_cons.mp hin with heq | hin
            · exact hfirst toolDef hmem heq
            · exact hnot hin

theorem mem_values {registry : ToolRegistry} (h : Inv registry) {values : List (Nat × ToolDefinition)}
    (hvalues : registry.IterationOrder values) (value : Nat × ToolDefinition) :
    value ∈ values ↔ registry.mcpTools.lookup value.2.function.name = some value := by
  rw [hvalues.mem_iff, List.mem_map]
  constructor
  · intro hmem
    obtain ⟨⟨name, entry⟩, hentry, rfl⟩ := hmem
    have hlookup : registry.mcpTools.lookup name = some entry := AList.mem_lookup_iff.mpr hentry
    rw [(h.mcp name entry hlookup).1, hlookup]
  · intro hlookup
    exact ⟨⟨value.2.function.name, value⟩, AList.mem_lookup_iff.mp hlookup, rfl⟩

/-- The names of the MCP tools are the keys of the map, so none comes twice. -/
theorem nodup_names_values {registry : ToolRegistry} (h : Inv registry)
    {values : List (Nat × ToolDefinition)} (hvalues : registry.IterationOrder values) :
    (values.map fun value => value.2.function.name).Nodup := by
  rw [(hvalues.map _).nodup_iff, List.map_map]
  have hkeys : registry.mcpTools.entries.map ((fun value : Nat × ToolDefinition => value.2.function.name) ∘
      Sigma.snd) = registry.mcpTools.entries.map Sigma.fst := by
    apply List.map_congr_left
    intro entry hentry
    exact (h.mcp entry.1 entry.2 (AList.mem_lookup_iff.mpr hentry)).1
  rw [hkeys]
  exact registry.mcpTools.nodupKeys

theorem nodup_builtin_names : (new.builtinDefs.map fun toolDef => toolDef.function.name).Nodup := by
  decide

theorem mem_builtins_new (name : String) :
    name ∈ new.builtins ↔ ∃ toolDef ∈ new.builtinDefs, toolDef.function.name = name := by
  have hkeys : new.builtins.keys = (new.builtinDefs.map fun toolDef => toolDef.function.name).reverse := by
    decide
  rw [AList.mem_keys, hkeys, List.mem_reverse, List.mem_map]

/-- The operator's definitions are advertised as they are, an MCP tool unless the operator has its
name, a builtin unless one of the two has it. -/
theorem mem_advertised {registry : ToolRegistry} (h : Inv registry) {values : List (Nat × ToolDefinition)}
    (hvalues : registry.IterationOrder values) (source : Source) (toolDef : ToolDefinition) :
    (source, toolDef) ∈ registry.advertised values ↔
      (source = .acp ∧ toolDef ∈ registry.acpDefs) ∨
      (∃ idx, source = .mcp idx ∧ registry.mcpTools.lookup toolDef.function.name = some (idx, toolDef) ∧
        toolDef.function.name ∉ registry.acpTools) ∨
      (source = .builtin ∧ toolDef ∈ registry.builtinDefs ∧ toolDef.function.name ∉ registry.acpTools ∧
        toolDef.function.name ∉ registry.mcpTools) := by
  have hmcp : ((values.map fun v => (Source.mcp v.1, v.2)).map taggedName).Nodup := by
    rw [List.map_map]
    exact nodup_names_values h hvalues
  have hbuiltin : ((registry.builtinDefs.map fun toolDef => (Source.builtin, toolDef)).map taggedName).Nodup := by
    rw [List.map_map, h.builtinDefs]
    exact nodup_builtin_names
  have hacp : ∀ name, name ∈ (registry.acpDefs.map fun toolDef => toolDef.function.name) ↔
      name ∈ registry.acpTools := by
    intro name
    rw [h.acp, List.mem_map]
  have hnames : ∀ name, name ∈ ((values.map fun v => (Source.mcp v.1, v.2)).map taggedName) ↔
      name ∈ registry.mcpTools := by
    intro name
    rw [← AList.lookup_isSome, Option.isSome_iff_exists, List.map_map, List.mem_map]
    constructor
    · rintro ⟨value, hvalue, rfl⟩
      exact ⟨value, (mem_values h hvalues value).mp hvalue⟩
    · rintro ⟨value, hlookup⟩
      have hname := (h.mcp name value hlookup).1
      exact ⟨value, (mem_values h hvalues value).mpr (by rw [hname, hlookup]), hname⟩
  rw [advertised, mem_foldl_pushUnseen hbuiltin, mem_foldl_pushUnseen hmcp, seen_foldl_pushUnseen,
    hnames, hacp]
  simp only [List.mem_map, Prod.mk.injEq, taggedName, Prod.exists, not_or]
  constructor
  · rintro ((⟨other, hother, rfl, rfl⟩ | ⟨⟨idx, other, hvalue, rfl, rfl⟩, hunseen⟩) |
      ⟨⟨other, hother, rfl, rfl⟩, hunseen⟩)
    · exact .inl ⟨rfl, hother⟩
    · exact .inr (.inl ⟨idx, rfl, (mem_values h hvalues _).mp hvalue, hunseen⟩)
    · exact .inr (.inr ⟨rfl, hother, hunseen⟩)
  · rintro (⟨rfl, hmem⟩ | ⟨idx, rfl, hlookup, hunseen⟩ | ⟨rfl, hmem, hunseen⟩)
    · exact .inl (.inl ⟨toolDef, hmem, rfl, rfl⟩)
    · exact .inl (.inr ⟨⟨idx, toolDef, (mem_values h hvalues (idx, toolDef)).mpr hlookup, rfl, rfl⟩, hunseen⟩)
    · exact .inr ⟨⟨toolDef, hmem, rfl, rfl⟩, hunseen⟩

/-! ### Where the two orders agree -/

theorem mem_builtins {registry : ToolRegistry} (h : Inv registry) (name : String) :
    name ∈ registry.builtins ↔ ∃ toolDef ∈ registry.builtinDefs, toolDef.function.name = name := by
  rw [h.builtins, h.builtinDefs]
  exact mem_builtins_new name

theorem dispatch_acp {registry : ToolRegistry} {name : String} (hacp : name ∈ registry.acpTools) :
    registry.dispatch name = some .acp := by
  simp only [dispatch, isAcpTool, hacp, decide_true, ↓reduceIte]

theorem dispatch_builtin {registry : ToolRegistry} {name : String} (hacp : name ∉ registry.acpTools)
    (hbuiltin : name ∈ registry.builtins) : registry.dispatch name = some .builtin := by
  obtain ⟨func, hlookup⟩ := Option.isSome_iff_exists.mp (AList.lookup_isSome.mpr hbuiltin)
  simp only [dispatch, isAcpTool, hacp, decide_false, Bool.false_eq_true, ↓reduceIte, executeSource, hlookup]

theorem dispatch_mcp {registry : ToolRegistry} {name : String} (hacp : name ∉ registry.acpTools)
    (hbuiltin : name ∉ registry.builtins) :
    registry.dispatch name = (registry.mcpTools.lookup name).map fun entry => .mcp entry.1 := by
  have hlookup := AList.lookup_eq_none.mpr hbuiltin
  simp only [dispatch, isAcpTool, hacp, decide_false, Bool.false_eq_true, ↓reduceIte, executeSource, hlookup]

theorem agrees_acp {registry : ToolRegistry} (h : Inv registry) {values : List (Nat × ToolDefinition)}
    (hvalues : registry.IterationOrder values) {name : String} (hacp : name ∈ registry.acpTools) :
    registry.Agrees values name := by
  intro source
  rw [dispatch_acp hacp, Option.some.injEq]
  constructor
  · rintro ⟨toolDef, hadvertised, rfl⟩
    rcases (mem_advertised h hvalues source toolDef).mp hadvertised with
      ⟨hsource, _⟩ | ⟨idx, _, _, hunseen⟩ | ⟨_, _, hunseen, _⟩
    · exact hsource.symm
    · exact absurd hacp hunseen
    · exact absurd hacp hunseen
  · intro hsource
    obtain ⟨toolDef, hmem, hname⟩ := (h.acp name).mp hacp
    exact ⟨toolDef, (mem_advertised h hvalues source toolDef).mpr (.inl ⟨hsource.symm, hmem⟩), hname⟩

theorem agrees_mcp {registry : ToolRegistry} (h : Inv registry) {values : List (Nat × ToolDefinition)}
    (hvalues : registry.IterationOrder values) {name : String} (hacp : name ∉ registry.acpTools)
    (hbuiltin : name ∉ registry.builtins) : registry.Agrees values name := by
  intro source
  rw [dispatch_mcp hacp hbuiltin, Option.map_eq_some_iff]
  constructor
  · rintro ⟨toolDef, hadvertised, rfl⟩
    rcases (mem_advertised h hvalues source toolDef).mp hadvertised with
      ⟨_, hmem⟩ | ⟨idx, rfl, hlookup, _⟩ | ⟨_, hmem, _, _⟩
    · exact absurd ((h.acp _).mpr ⟨toolDef, hmem, rfl⟩) hacp
    · exact ⟨(idx, toolDef), hlookup, rfl⟩
    · exact absurd ((mem_builtins h _).mpr ⟨toolDef, hmem, rfl⟩) hbuiltin
  · rintro ⟨⟨idx, toolDef⟩, hlookup, rfl⟩
    have hname := (h.mcp name _ hlookup).1
    refine ⟨toolDef, (mem_advertised h hvalues _ toolDef).mpr (.inr (.inl ⟨idx, rfl, ?_, ?_⟩)), hname⟩
    · rw [hname, hlookup]
    · rwa [hname]

theorem agrees_builtin_iff {registry : ToolRegistry} (h : Inv registry)
    {values : List (Nat × ToolDefinition)} (hvalues : registry.IterationOrder values) {name : String}
    (hacp : name ∉ registry.acpTools) (hbuiltin : name ∈ registry.builtins) :
    registry.Agrees values name ↔ name ∉ registry.mcpTools := by
  rw [Agrees, dispatch_builtin hacp hbuiltin]
  constructor
  · intro hagrees
    obtain ⟨toolDef, hadvertised, rfl⟩ := (hagrees .builtin).mpr rfl
    rcases (mem_advertised h hvalues _ toolDef).mp hadvertised with ⟨hsource, _⟩ | ⟨idx, hsource, _⟩ | ⟨_, _, _, hmcp⟩
    · cases hsource
    · cases hsource
    · exact hmcp
  · intro hmcp source
    rw [Option.some.injEq]
    constructor
    · rintro ⟨toolDef, hadvertised, rfl⟩
      rcases (mem_advertised h hvalues source toolDef).mp hadvertised with
        ⟨_, hmem⟩ | ⟨idx, _, hlookup, _⟩ | ⟨hsource, _⟩
      · exact absurd ((h.acp _).mpr ⟨toolDef, hmem, rfl⟩) hacp
      · rw [AList.lookup_eq_none.mpr hmcp] at hlookup
        cases hlookup
      · exact hsource.symm
    · intro hsource
      obtain ⟨toolDef, hmem, rfl⟩ := (mem_builtins h name).mp hbuiltin
      exact ⟨toolDef, (mem_advertised h hvalues source toolDef).mpr (.inr (.inr ⟨hsource.symm, hmem, hacp, hmcp⟩)), rfl⟩

/-- In every reachable state and for every name, calls go to the source that was advertised if and
only if no MCP tool has the name of a builtin that the operator leaves alone; and the client a call
would go to exists. -/
theorem agrees_iff_not_shadowsBuiltin {registry : ToolRegistry} (h : system.Reachable registry)
    {values : List (Nat × ToolDefinition)} (hvalues : registry.IterationOrder values) (name : String) :
    (registry.Agrees values name ↔ ¬ registry.ShadowsBuiltin name) ∧
      ∀ idx, registry.dispatch name = some (.mcp idx) → idx < registry.mcpClients.length := by
  have hinv := inv_of_reachable h
  constructor
  · by_cases hacp : name ∈ registry.acpTools
    · have hshadow : ¬ registry.ShadowsBuiltin name := by
        intro hshadow
        have hfalse := hshadow.2.2
        simp only [isAcpTool, hacp, decide_true, Bool.true_eq_false] at hfalse
      exact iff_of_true (agrees_acp hinv hvalues hacp) hshadow
    · by_cases hbuiltin : name ∈ registry.builtins
      · rw [agrees_builtin_iff hinv hvalues hacp hbuiltin, ShadowsBuiltin]
        simp only [isAcpTool, hacp, decide_false, hbuiltin, and_true]
      · exact iff_of_true (agrees_mcp hinv hvalues hacp hbuiltin) fun hshadow => hbuiltin hshadow.2.1
  · intro idx hdispatch
    by_cases hacp : name ∈ registry.acpTools
    · rw [dispatch_acp hacp] at hdispatch
      cases hdispatch
    · by_cases hbuiltin : name ∈ registry.builtins
      · rw [dispatch_builtin hacp hbuiltin] at hdispatch
        cases hdispatch
      · rw [dispatch_mcp hacp hbuiltin, Option.map_eq_some_iff] at hdispatch
        obtain ⟨entry, hlookup, heq⟩ := hdispatch
        cases heq
        exact (hinv.mcp name entry hlookup).2

/-- `execute` does not index out of bounds. -/
theorem execute_isSome {registry : ToolRegistry} (h : system.Reachable registry)
    (callFn : ToolFn → Json → Except String ToolOutput)
    (callTool : McpClient → String → Json → Except String (List ToolContent)) (name : String)
    (arguments : Json) : (registry.execute callFn callTool name arguments).isSome = true := by
  have hinv := inv_of_reachable h
  unfold execute
  cases hbuiltin : registry.builtins.lookup name with
  | some func => rfl
  | none =>
      cases hmcp : registry.mcpTools.lookup name with
      | none => rfl
      | some entry =>
          have hlt := (hinv.mcp name entry hmcp).2
          simp only [List.getElem?_eq_getElem hlt, Option.map_some, Option.isSome_some]

/-- An MCP server that lists a tool of its own and one named like a builtin. -/
private def mcpTwoTools : ToolRegistry :=
  (new.connectMcp ⟨"http://mcp", none⟩ (.ok [⟨"weather", none, .object []⟩, ⟨"read", none, .object []⟩])).2

private theorem reachable_mcpTwoTools : system.Reachable mcpTwoTools := ⟨[.connectMcp _ _], rfl⟩

theorem agrees_weather : mcpTwoTools.Agrees (mcpTwoTools.mcpTools.entries.map Sigma.snd) "weather" :=
  (agrees_iff_not_shadowsBuiltin reachable_mcpTwoTools (.refl _) "weather").1.mpr fun hshadow =>
    absurd hshadow.2.1 (by decide)

/-- The language model is shown the MCP server's `read` and the process runs its own. -/
theorem mcp_read_runs_builtin :
    ¬ ∀ registry, system.Reachable registry → ∀ values, registry.IterationOrder values →
      ∀ name, registry.Agrees values name := by
  intro h
  have hagrees := h mcpTwoTools reachable_mcpTwoTools _ (.refl _) "read" .builtin
  obtain ⟨toolDef, hadvertised, hname⟩ := hagrees.mpr (by decide)
  rcases (mem_advertised (inv_of_reachable reachable_mcpTwoTools) (.refl _) _ toolDef).mp hadvertised with
    ⟨hsource, _⟩ | ⟨idx, hsource, _⟩ | ⟨_, _, _, hmcp⟩
  · cases hsource
  · cases hsource
  · rw [hname] at hmcp
    exact hmcp (by decide)

end ToolRegistry

end Overacp
