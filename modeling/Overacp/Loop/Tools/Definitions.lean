import Overacp.Loop.Tools.Registry

/-!
# What the language model is shown

A provider refuses a request in which two functions have one name. `definitions` keeps a set of the
names it has seen for this, but the operator's definitions go past it: they are put in without a
look, so that a name the operator repeats is shown as often as the operator repeats it.
-/

namespace Overacp

open Llm

namespace ToolRegistry

def toolNames (toolDefs : List ToolDefinition) : List String :=
  toolDefs.map fun toolDef => toolDef.function.name

/-! ### The operator's list -/

/-- One entry of a `tools/list` response; `none` where it is skipped. -/
def parseAcpTool (tool : Json) : Option ToolDefinition := do
  let name ← (← tool.get "name").asStr
  let description := ((tool.get "description").bind Json.asStr).getD "ACP tool"
  let parameters := (tool.get "inputSchema").getD (.object [("type", .string "object")])
  return ⟨"function", name, description, parameters⟩

def parseAcpTools (value : Json) : List ToolDefinition :=
  match (value.get "tools").bind Json.asArray with
  | some tools => tools.filterMap parseAcpTool
  | none => []

/-- The list that the last `set_acp_tools` of a run gives, where the run starts from another. -/
def acpToolsAfter : List ToolDefinition → List Event → List ToolDefinition
  | tools, [] => tools
  | tools, .connectMcp _ _ :: events => acpToolsAfter tools events
  | _, .setAcpTools tools :: events => acpToolsAfter tools events

def lastAcpTools (events : List Event) : List ToolDefinition := acpToolsAfter [] events

/-- Some MCP server that answered has listed a tool of the name. -/
def McpListed (events : List Event) (name : String) : Prop :=
  ∃ client tools, Event.connectMcp client (.ok tools) ∈ events ∧ ∃ tool ∈ tools, tool.name = name

theorem acpDefs_run {registry registry' : ToolRegistry} {events : List Event}
    (hrun : system.run registry events = some registry') :
    registry'.acpDefs = acpToolsAfter registry.acpDefs events := by
  induction events generalizing registry with
  | nil =>
      cases hrun
      rfl
  | cons event events ih =>
      obtain ⟨middle, hstep, hrest⟩ := system.run_cons_eq_some.mp hrun
      rw [ih hrest]
      cases event with
      | connectMcp client tools =>
          cases hstep
          cases tools <;> rfl
      | setAcpTools tools =>
          cases hstep
          rfl

theorem mem_insertMcpTools (mcpTools : HashMap (Nat × ToolDefinition)) (idx : Nat)
    (tools : List ToolDefinition) (name : String) :
    name ∈ insertMcpTools mcpTools idx tools ↔ name ∈ mcpTools ∨ name ∈ toolNames tools := by
  induction tools generalizing mcpTools with
  | nil => simp [insertMcpTools, toolNames]
  | cons toolDef tools ih =>
      have hcons : insertMcpTools mcpTools idx (toolDef :: tools) =
          insertMcpTools (mcpTools.insert toolDef.function.name (idx, toolDef)) idx tools := rfl
      rw [hcons, ih, AList.mem_insert, toolNames, toolNames, List.map_cons, List.mem_cons]
      tauto

theorem mem_mcpTools_step {registry registry' : ToolRegistry} {event : Event}
    (hstep : system.step registry event = some registry') (name : String) :
    name ∈ registry'.mcpTools ↔ name ∈ registry.mcpTools ∨ McpListed [event] name := by
  cases event with
  | connectMcp client tools =>
      cases hstep
      cases tools with
      | error e =>
          refine (or_iff_left ?_).symm
          rintro ⟨client', tools', hmem, -⟩
          cases List.mem_singleton.mp hmem
      | ok tools =>
          rw [connectMcp, mem_insertMcpTools]
          refine or_congr_right ?_
          rw [toolNames, List.map_map, List.mem_map]
          constructor
          · intro hname
            exact ⟨client, tools, List.mem_singleton.mpr rfl, hname⟩
          · rintro ⟨client', tools', hmem, hname⟩
            cases List.mem_singleton.mp hmem
            exact hname
  | setAcpTools tools =>
      cases hstep
      refine (or_iff_left ?_).symm
      rintro ⟨client', tools', hmem, -⟩
      cases List.mem_singleton.mp hmem

theorem mem_mcpTools_run {registry registry' : ToolRegistry} {events : List Event}
    (hrun : system.run registry events = some registry') (name : String) :
    name ∈ registry'.mcpTools ↔ name ∈ registry.mcpTools ∨ McpListed events name := by
  induction events generalizing registry with
  | nil =>
      cases hrun
      simp [McpListed]
  | cons event events ih =>
      obtain ⟨middle, hstep, hrest⟩ := system.run_cons_eq_some.mp hrun
      have hsplit : McpListed (event :: events) name ↔ McpListed [event] name ∨ McpListed events name := by
        simp only [McpListed, List.mem_cons, List.not_mem_nil, or_false, or_and_right, exists_or]
      rw [ih hrest, mem_mcpTools_step hstep, hsplit, or_assoc]

/-! ### The names that are shown -/

/-- The names that have been seen are the names of what has been pushed. -/
def Seen (acc : List String × List (Source × ToolDefinition)) : Prop :=
  ∀ name, name ∈ acc.1 ↔ name ∈ acc.2.map taggedName

theorem seen_pushUnseen {acc : List String × List (Source × ToolDefinition)} (h : Seen acc)
    (toolDef : Source × ToolDefinition) : Seen (pushUnseen acc toolDef) := by
  unfold pushUnseen
  split
  · exact h
  · intro name
    rw [List.mem_cons, List.map_append, List.mem_append, h name, List.map_singleton, List.mem_singleton]
    exact or_comm

/-- What goes through the set repeats no name. -/
theorem nodup_pushUnseen_iff {acc : List String × List (Source × ToolDefinition)} (h : Seen acc)
    (toolDef : Source × ToolDefinition) :
    ((pushUnseen acc toolDef).2.map taggedName).Nodup ↔ (acc.2.map taggedName).Nodup := by
  unfold pushUnseen
  split
  · exact Iff.rfl
  · rename_i hunseen
    rw [List.map_append, List.map_singleton, ← List.concat_eq_append, List.nodup_concat]
    exact and_iff_right fun hmem => hunseen ((h _).mpr hmem)

theorem seen_foldl {acc : List String × List (Source × ToolDefinition)} (h : Seen acc)
    (toolDefs : List (Source × ToolDefinition)) : Seen (toolDefs.foldl pushUnseen acc) := by
  induction toolDefs generalizing acc with
  | nil => exact h
  | cons toolDef toolDefs ih => exact ih (seen_pushUnseen h toolDef)

theorem nodup_foldl_pushUnseen_iff {acc : List String × List (Source × ToolDefinition)} (h : Seen acc)
    (toolDefs : List (Source × ToolDefinition)) :
    ((toolDefs.foldl pushUnseen acc).2.map taggedName).Nodup ↔ (acc.2.map taggedName).Nodup := by
  induction toolDefs generalizing acc with
  | nil => exact Iff.rfl
  | cons toolDef toolDefs ih =>
      exact (ih (seen_pushUnseen h toolDef)).trans (nodup_pushUnseen_iff h toolDef)

theorem seen_acp (toolDefs : List ToolDefinition) :
    Seen (toolNames toolDefs, toolDefs.map fun toolDef => (Source.acp, toolDef)) := by
  intro name
  rw [List.map_map]
  exact Iff.rfl

theorem toolNames_definitions (registry : ToolRegistry) (values : List (Nat × ToolDefinition)) :
    toolNames (registry.definitions values) = (registry.advertised values).map taggedName := by
  rw [toolNames, definitions, List.map_map]
  rfl

theorem nodup_definitions_iff (registry : ToolRegistry) (values : List (Nat × ToolDefinition)) :
    (toolNames (registry.definitions values)).Nodup ↔ (toolNames registry.acpDefs).Nodup := by
  have hseen := seen_acp registry.acpDefs
  have hnames : (registry.acpDefs.map fun toolDef => (Source.acp, toolDef)).map taggedName =
      toolNames registry.acpDefs := by
    rw [List.map_map]
    rfl
  rw [toolNames_definitions, ← hnames]
  exact (nodup_foldl_pushUnseen_iff (seen_foldl hseen _) _).trans (nodup_foldl_pushUnseen_iff hseen _)

theorem mem_toolNames_definitions {registry : ToolRegistry} (h : Inv registry)
    {values : List (Nat × ToolDefinition)} (hvalues : registry.IterationOrder values) (name : String) :
    name ∈ toolNames (registry.definitions values) ↔
      name ∈ toolNames registry.acpDefs ∨ name ∈ registry.mcpTools ∨ name ∈ registry.builtins := by
  have hmem : name ∈ toolNames (registry.definitions values) ↔
      ∃ source toolDef, (source, toolDef) ∈ registry.advertised values ∧ toolDef.function.name = name := by
    rw [toolNames_definitions, List.mem_map, Prod.exists]
    rfl
  have hacp : name ∈ toolNames registry.acpDefs ↔ name ∈ registry.acpTools := by
    rw [h.acp, toolNames, List.mem_map]
  rw [hmem, hacp]
  constructor
  · rintro ⟨source, toolDef, hadvertised, rfl⟩
    rcases (mem_advertised h hvalues source toolDef).mp hadvertised with
      ⟨-, hdef⟩ | ⟨idx, -, hlookup, -⟩ | ⟨-, hdef, -⟩
    · exact .inl ((h.acp _).mpr ⟨toolDef, hdef, rfl⟩)
    · exact .inr (.inl (AList.lookup_isSome.mp (Option.isSome_iff_exists.mpr ⟨_, hlookup⟩)))
    · exact .inr (.inr ((mem_builtins h _).mpr ⟨toolDef, hdef, rfl⟩))
  · intro hname
    by_cases hacp : name ∈ registry.acpTools
    · obtain ⟨toolDef, hadvertised, heq⟩ := (agrees_acp h hvalues hacp .acp).mpr (dispatch_acp hacp)
      exact ⟨.acp, toolDef, hadvertised, heq⟩
    · by_cases hmcp : name ∈ registry.mcpTools
      · obtain ⟨⟨idx, toolDef⟩, hlookup⟩ := Option.isSome_iff_exists.mp (AList.lookup_isSome.mpr hmcp)
        have heq := (h.mcp name _ hlookup).1
        refine ⟨.mcp idx, toolDef, (mem_advertised h hvalues _ _).mpr (.inr (.inl ⟨idx, rfl, ?_, ?_⟩)), heq⟩
        · rw [heq, hlookup]
        · rwa [heq]
      · have hbuiltin : name ∈ registry.builtins := by
          rcases hname with hname | hname | hname
          · exact absurd hname hacp
          · exact absurd hname hmcp
          · exact hname
        obtain ⟨toolDef, hdef, rfl⟩ := (mem_builtins h name).mp hbuiltin
        exact ⟨.builtin, toolDef, (mem_advertised h hvalues _ _).mpr (.inr (.inr ⟨rfl, hdef, hacp, hmcp⟩)), rfl⟩

/-- Each name is shown once, and the names are those of the operator, of the MCP servers and of the
builtins. -/
def ShownOnce (registry : ToolRegistry) (values : List (Nat × ToolDefinition)) (events : List Event) : Prop :=
  (toolNames (registry.definitions values)).Nodup ∧
    ∀ name, name ∈ toolNames (registry.definitions values) ↔
      name ∈ toolNames (lastAcpTools events) ∨ McpListed events name ∨ name ∈ toolNames new.builtinDefs

theorem shownOnce_iff {events : List Event} {registry : ToolRegistry}
    (hrun : system.run system.init events = some registry) {values : List (Nat × ToolDefinition)}
    (hvalues : registry.IterationOrder values) :
    registry.ShownOnce values events ↔ (toolNames (lastAcpTools events)).Nodup := by
  have hinv : Inv registry := inv_of_reachable ⟨events, hrun⟩
  have hacp : registry.acpDefs = lastAcpTools events := acpDefs_run hrun
  have hmcp : ∀ name, name ∈ registry.mcpTools ↔ McpListed events name := by
    intro name
    have hinit : name ∉ system.init.mcpTools := AList.notMem_empty name
    rw [mem_mcpTools_run hrun name]
    exact or_iff_right hinit
  have hbuiltin : ∀ name, name ∈ registry.builtins ↔ name ∈ toolNames new.builtinDefs := by
    intro name
    rw [hinv.builtins, mem_builtins_new, toolNames, List.mem_map]
  rw [ShownOnce, nodup_definitions_iff, hacp]
  refine and_iff_left fun name => ?_
  rw [mem_toolNames_definitions hinv hvalues, hacp, hmcp, hbuiltin]

/-- An operator that answers `tools/list` with one name twice. -/
private def twice : Json :=
  .object [("tools", .array [.object [("name", .string "search")], .object [("name", .string "search")]])]

/-- An MCP server lists a tool named like a builtin, and then the operator one like it too. -/
private def shadowing : List Event :=
  [.connectMcp ⟨"http://mcp", none⟩ (.ok [⟨"weather", none, .object []⟩, ⟨"read", none, .object []⟩]),
    .setAcpTools (parseAcpTools (.object [("tools", .array [.object [("name", .string "read")]])]))]

theorem shownOnce_shadowing :
    ∃ registry values, system.run system.init shadowing = some registry ∧
      registry.ShownOnce values shadowing :=
  ⟨_, _, rfl, (shownOnce_iff rfl (List.Perm.refl _)).mpr (by decide)⟩

theorem repeated_acp_tool_shown_twice :
    ¬ ∀ events registry, system.run system.init events = some registry →
      ∀ values, registry.IterationOrder values → registry.ShownOnce values events := by
  intro h
  have hshown := h [.setAcpTools (parseAcpTools twice)] _ rfl [] (List.Perm.refl _)
  exact absurd hshown.1 (by decide)

end ToolRegistry

end Overacp
