import Overacp.Loop.AgenticLoop

/-!
# The two ways a tool's answer comes back

An answer to `tools/call` is a list of content blocks. From an MCP server it is decoded into blocks
and collapses to one text when all of them are texts; from the operator it is searched for texts, and
what holds none is shown as JSON.
-/

namespace Overacp

open Llm

namespace McpClient

/-! ### Decoding an answer -/

inductive McpContent where
  | text (text : String)
  | image (data mimeType : String)
  | resource (resource : Json)

/-- The variant with a tag, out of its fields. -/
def McpContent.ofTag (tag : String) (field : String → Option Json) : Option McpContent :=
  match tag with
  | "text" => ((field "text").bind Json.asStr).map text
  | "image" => do
      let data ← (field "data").bind Json.asStr
      let mimeType ← (field "mimeType").bind Json.asStr
      return image data mimeType
  | "resource" => (field "resource").map resource
  | _ => none

/-- An object with its tag, or an array of the tag and the fields in their order. -/
def McpContent.ofValue : Json → Option McpContent
  | .array [.string "text", value] => ofTag "text" fun _ => some value
  | .array [.string "image", data, mimeType] =>
      ofTag "image" fun key => if key = "data" then some data else some mimeType
  | .array [.string "resource", value] => ofTag "resource" fun _ => some value
  | value => ((value.get "type").bind Json.asStr).bind fun tag => ofTag tag value.get

def McpContent.asText : McpContent → Option String
  | text t => some t
  | _ => none

structure McpToolResult where
  content : List McpContent
  isError : Bool

/-- The fields of an answer: by key, or by position with the last one left out or not. -/
def McpToolResult.ofFields (content : Option Json) (isError : Option Json) : Option McpToolResult := do
  let content ← content.bind (Json.listOf McpContent.ofValue)
  let isError ← Json.withDefault false Json.asBool isError
  return ⟨content, isError⟩

def McpToolResult.ofValue : Json → Option McpToolResult
  | .array [content] => ofFields (some content) none
  | .array [content, isError] => ofFields (some content) (some isError)
  | .object members => ofFields ((Json.object members).get "content") ((Json.object members).get "isError")
  | _ => none

/-! ### `serde_json::to_string_pretty` -/

def newline (indent : Nat) : List Char := '\n' :: List.replicate (2 * indent) ' '

mutual

def pretty (indent : Nat) : Json → List Char
  | .array (v :: vs) => '[' :: (newline (indent + 1) ++ pretty (indent + 1) v ++ prettyElems indent vs)
  | .object ((k, v) :: ms) =>
      '{' :: (newline (indent + 1) ++ Json.printString k ++ ':' :: ' ' :: pretty (indent + 1) v ++
        prettyMembers indent ms)
  | v => v.print

/-- What follows an element of the list that closes at the indent. -/
def prettyElems (indent : Nat) : List Json → List Char
  | [] => newline indent ++ [']']
  | v :: vs => ',' :: (newline (indent + 1) ++ pretty (indent + 1) v ++ prettyElems indent vs)

def prettyMembers (indent : Nat) : List (String × Json) → List Char
  | [] => newline indent ++ ['}']
  | (k, v) :: ms =>
      ',' :: (newline (indent + 1) ++ Json.printString k ++ ':' :: ' ' :: pretty (indent + 1) v ++
        prettyMembers indent ms)

end

def toStringPretty (value : Json) : String := String.ofList (pretty 0 value)

example : toStringPretty (.object [("a", .array [.null, .object []])]) =
    "\x7b\n  \"a\": [\n    null,\n    \x7b\x7d\n  ]\n\x7d" := by decide +kernel

def McpContent.toToolContent : McpContent → ToolContent
  | text t => .text t
  | image data mimeType => .imageBase64 data mimeType
  | resource value => .text (toStringPretty value)

/-- `call_tool`, given what the server's answer holds or how the request failed. -/
def callTool (send : McpClient → String → Json → Except String Json) (client : McpClient) (name : String)
    (arguments : Json) : Except String (List ToolContent) :=
  match send client name arguments with
  | .error e => .error e
  | .ok result =>
      match McpToolResult.ofValue result with
      | none => .error "parse tools/call"
      | some toolResult =>
          if toolResult.isError then
            .error ("MCP tool error: " ++ String.intercalate "\n" (toolResult.content.filterMap McpContent.asText))
          else .ok (toolResult.content.map McpContent.toToolContent)

/-! ### Answers of text and image blocks -/

/-- The wire form of a text or an image block, whatever else the block carries. -/
inductive BlockOf : Json → ToolContent → Prop
  | text {members : List (String × Json)} {t : String}
      (htype : (Json.object members).get "type" = some (.string "text"))
      (htext : (Json.object members).get "text" = some (.string t)) : BlockOf (.object members) (.text t)
  | image {members : List (String × Json)} {data mimeType : String}
      (htype : (Json.object members).get "type" = some (.string "image"))
      (hdata : (Json.object members).get "data" = some (.string data))
      (hmime : (Json.object members).get "mimeType" = some (.string mimeType)) :
      BlockOf (.object members) (.imageBase64 data mimeType)

/-- A successful answer with the given blocks, of which there is at least one. -/
inductive Answers : Json → List ToolContent → Prop
  | mk {members : List (String × Json)} {blocks : List Json} {contents : List ToolContent}
      (hcontent : (Json.object members).get "content" = some (.array blocks))
      (hblocks : List.Forall₂ BlockOf blocks contents) (hne : contents ≠ [])
      (hsuccess : (Json.object members).get "isError" = none ∨
        (Json.object members).get "isError" = some (.bool false)) : Answers (.object members) contents

def textOf : ToolContent → Option String
  | .text t => some t
  | _ => none

/-- `block` as `extract_acp_tool_result` searches it. -/
def acpText (block : Json) : Option String :=
  if (block.get "type").bind Json.asStr = some "text" then (block.get "text").bind Json.asStr else none

theorem acpText_blockOf {block : Json} {content : ToolContent} (h : BlockOf block content) :
    acpText block = textOf content := by
  cases h with
  | text htype htext =>
      rw [acpText, htype, htext]
      rfl
  | image htype hdata hmime =>
      rw [acpText, htype]
      rfl

theorem ofValue_blockOf {block : Json} {content : ToolContent} (h : BlockOf block content) :
    ∃ mcp, McpContent.ofValue block = some mcp ∧ mcp.toToolContent = content := by
  cases h with
  | text htype htext =>
      refine ⟨.text _, ?_, rfl⟩
      simp only [McpContent.ofValue, htype, Option.bind_some, Json.asStr, McpContent.ofTag, htext, Option.map_some]
  | image htype hdata hmime =>
      refine ⟨.image _ _, ?_, rfl⟩
      simp only [McpContent.ofValue, htype, Option.bind_some, Json.asStr, McpContent.ofTag, hdata, hmime,
        Option.bind_eq_bind]
      rfl

theorem listOf_blocks {blocks : List Json} {contents : List ToolContent}
    (h : List.Forall₂ BlockOf blocks contents) :
    ∃ mcps, Json.listOf McpContent.ofValue (.array blocks) = some mcps ∧
      mcps.map McpContent.toToolContent = contents := by
  induction h with
  | nil => exact ⟨[], rfl, rfl⟩
  | cons hblock _ ih =>
      obtain ⟨mcp, hmcp, heq⟩ := ofValue_blockOf hblock
      obtain ⟨mcps, hmcps, hmap⟩ := ih
      refine ⟨mcp :: mcps, ?_, by rw [List.map_cons, heq, hmap]⟩
      simp only [Json.listOf, List.mapM_cons, hmcp] at hmcps ⊢
      rw [hmcps]
      rfl

/-- From an MCP server all blocks come through. -/
theorem callTool_answers {send : McpClient → String → Json → Except String Json} {client : McpClient}
    {name : String} {arguments value : Json} {contents : List ToolContent} (hanswers : Answers value contents)
    (hsend : send client name arguments = .ok value) : callTool send client name arguments = .ok contents := by
  cases hanswers with
  | @mk members blocks contents hcontent hblocks hne hsuccess =>
      obtain ⟨mcps, hmcps, hmap⟩ := listOf_blocks hblocks
      have hresult : McpToolResult.ofFields (some (.array blocks)) ((Json.object members).get "isError") =
          some ⟨mcps, false⟩ := by
        rcases hsuccess with hnone | hfalse
        · rw [hnone, McpToolResult.ofFields, Option.bind_some, hmcps]
          rfl
        · rw [hfalse, McpToolResult.ofFields, Option.bind_some, hmcps]
          rfl
      rw [callTool, hsend]
      simp only [McpToolResult.ofValue, hcontent, hresult, hmap, Bool.false_eq_true, ↓reduceIte]

theorem filterMap_blocks {blocks : List Json} {contents : List ToolContent}
    (h : List.Forall₂ BlockOf blocks contents) : blocks.filterMap acpText = contents.filterMap textOf := by
  induction h with
  | nil => rfl
  | cons hblock _ ih => rw [List.filterMap_cons, List.filterMap_cons, acpText_blockOf hblock, ih]

/-- From the operator the texts come through, or the answer as JSON. -/
theorem extractAcpToolResult_answers {value : Json} {contents : List ToolContent}
    (hanswers : Answers value contents) :
    AgenticLoop.extractAcpToolResult value =
      .ok (.text (if String.intercalate "\n" (contents.filterMap textOf) ≠ "" then
        String.intercalate "\n" (contents.filterMap textOf) else String.ofList value.print)) := by
  cases hanswers with
  | @mk members blocks contents hcontent hblocks hne hsuccess =>
      have herror : (((Json.object members).get "isError").bind Json.asBool).getD false = false := by
        rcases hsuccess with hnone | hfalse
        · rw [hnone]
          rfl
        · rw [hfalse]
          rfl
      rw [← filterMap_blocks hblocks]
      unfold AgenticLoop.extractAcpToolResult
      rw [herror, hcontent]
      change (if String.intercalate "\n" (blocks.filterMap acpText) ≠ "" then _ else _) = _
      split
      · rfl
      · rfl

/-! ### Where the two agree -/

theorem intercalate_eq_empty_iff {sep : String} (hsep : sep ≠ "") (texts : List String) :
    String.intercalate sep texts = "" ↔ texts = [] ∨ texts = [""] := by
  cases texts with
  | nil => exact iff_of_true String.intercalate_nil (.inl rfl)
  | cons t texts =>
      cases texts with
      | nil => rw [String.intercalate_singleton]; simp
      | cons u texts =>
          rw [String.intercalate_cons_cons]
          refine iff_of_false ?_ (by simp)
          rw [String.append_eq_empty_iff, String.append_eq_empty_iff]
          exact fun hempty => hsep hempty.1.2

/-- Every block is a text, and the answer is not just one empty text. -/
def Textual (contents : List ToolContent) : Prop :=
  (∀ content ∈ contents, (textOf content).isSome = true) ∧ contents ≠ [.text ""]

theorem print_ne_nil (members : List (String × Json)) : (Json.object members).print ≠ [] := by
  cases members with
  | nil => exact List.cons_ne_nil _ _
  | cons member members => exact List.cons_ne_nil _ _

/-- All blocks are there, in their order; texts may have become one, a line feed between them. -/
def Preserves (contents : List ToolContent) : ToolOutput → Prop
  | .text s => ∃ texts, contents = texts.map .text ∧ s = String.intercalate "\n" texts
  | .blocks blocks => blocks = contents

theorem eq_map_text {contents : List ToolContent} (h : ∀ content ∈ contents, (textOf content).isSome = true) :
    contents = (contents.filterMap textOf).map .text := by
  induction contents with
  | nil => rfl
  | cons content contents ih =>
      have hrest := ih fun other hother => h other (List.mem_cons_of_mem _ hother)
      cases content with
      | text t => exact congrArg (List.cons (.text t)) hrest
      | imageBase64 data mimeType =>
          have hsome := h _ List.mem_cons_self
          cases hsome

theorem collapseContents_eq (contents : List ToolContent) :
    ToolRegistry.collapseContents contents =
      if (contents.filterMap textOf).length = contents.length
      then .text (String.intercalate "\n" (contents.filterMap textOf)) else .blocks contents := rfl

theorem preserves_collapseContents (contents : List ToolContent) :
    Preserves contents (ToolRegistry.collapseContents contents) := by
  rw [collapseContents_eq]
  split
  · rename_i hlength
    exact ⟨_, eq_map_text (List.filterMap_length_eq_length.mp hlength), rfl⟩
  · rfl

/-- The texts that are left out as empty. -/
theorem textual_iff {contents : List ToolContent} (hne : contents ≠ []) :
    Textual contents ↔ (contents.filterMap textOf).length = contents.length ∧
      String.intercalate "\n" (contents.filterMap textOf) ≠ "" := by
  have hsep : "\n" ≠ "" := by decide
  rw [Textual, List.filterMap_length_eq_length]
  refine and_congr_right fun hall => ?_
  rw [ne_eq, ne_eq, intercalate_eq_empty_iff hsep]
  have hmap := eq_map_text hall
  refine not_congr ⟨fun heq => ?_, fun htexts => ?_⟩
  · rw [heq]
    exact .inr rfl
  · rcases htexts with hnil | hone
    · rw [hnil] at hmap
      exact absurd hmap hne
    · rw [hone] at hmap
      exact hmap

/-- A registered tool of an MCP server gives its answer. -/
theorem execute_mcp {registry : ToolRegistry} (hreach : ToolRegistry.system.Reachable registry) {name : String}
    (hbuiltin : name ∉ registry.builtins) (hmcp : name ∈ registry.mcpTools)
    (callFn : ToolFn → Json → Except String ToolOutput)
    {send : McpClient → String → Json → Except String Json} {arguments value : Json} {contents : List ToolContent}
    (hsend : ∀ client ∈ registry.mcpClients, send client name arguments = .ok value)
    (hanswers : Answers value contents) :
    registry.execute callFn (callTool send) name arguments =
      some (.ok (ToolRegistry.collapseContents contents)) := by
  obtain ⟨entry, hlookup⟩ := Option.isSome_iff_exists.mp (AList.lookup_isSome.mpr hmcp)
  have hidx := ((ToolRegistry.inv_of_reachable hreach).mcp name entry hlookup).2
  have hcall := callTool_answers hanswers (hsend _ (List.getElem_mem hidx))
  simp only [ToolRegistry.execute, AList.lookup_eq_none.mpr hbuiltin, hlookup, List.getElem?_eq_getElem hidx,
    Option.map_some, hcall]
  rfl

/-- What the language model gets is the same on both ways, and holds all blocks. -/
def SameOutput (registry : ToolRegistry) (callFn : ToolFn → Json → Except String ToolOutput)
    (send : McpClient → String → Json → Except String Json) (name : String) (arguments value : Json)
    (contents : List ToolContent) : Prop :=
  ∃ direct tunnelled, registry.execute callFn (callTool send) name arguments = some (.ok direct) ∧
    AgenticLoop.extractAcpToolResult value = .ok tunnelled ∧
    AgenticLoop.toolOutputToContent direct = AgenticLoop.toolOutputToContent tunnelled ∧
    Preserves contents direct

theorem sameOutput_iff_textual {registry : ToolRegistry} (hreach : ToolRegistry.system.Reachable registry)
    {name : String} (hbuiltin : name ∉ registry.builtins) (hmcp : name ∈ registry.mcpTools)
    (callFn : ToolFn → Json → Except String ToolOutput)
    {send : McpClient → String → Json → Except String Json} {arguments value : Json} {contents : List ToolContent}
    (hsend : ∀ client ∈ registry.mcpClients, send client name arguments = .ok value)
    (hanswers : Answers value contents) :
    SameOutput registry callFn send name arguments value contents ↔ Textual contents := by
  have hdirect := execute_mcp hreach hbuiltin hmcp callFn hsend hanswers
  have htunnelled := extractAcpToolResult_answers hanswers
  have hpreserves := preserves_collapseContents contents
  rw [collapseContents_eq] at hdirect hpreserves
  cases hanswers with
  | @mk members blocks contents hcontent hblocks hne hsuccess =>
      rw [textual_iff hne]
      constructor
      · rintro ⟨direct, tunnelled, hexecute, hextract, hsame, -⟩
        rw [hdirect] at hexecute
        rw [htunnelled] at hextract
        cases hexecute
        cases hextract
        by_cases hlength : (contents.filterMap textOf).length = contents.length
        · refine ⟨hlength, fun hempty => ?_⟩
          -- the tunnel shows the answer as JSON, which is not empty
          rw [if_pos hlength, if_neg (not_not_intro hempty), hempty] at hsame
          have hprint : "" = String.ofList (Json.object members).print := Content.text.inj hsame
          rw [← String.ofList_nil] at hprint
          exact print_ne_nil members (String.ofList_injective hprint).symm
        · rw [if_neg hlength] at hsame
          cases hsame
      · rintro ⟨hlength, hnonempty⟩
        rw [if_pos hlength] at hdirect hpreserves
        rw [if_pos hnonempty] at htunnelled
        exact ⟨_, _, hdirect, htunnelled, rfl, hpreserves⟩

/-- A registry with one MCP tool, `describe`. -/
private def describing : ToolRegistry :=
  (ToolRegistry.new.connectMcp ⟨"http://mcp", none⟩ (.ok [⟨"describe", none, .object []⟩])).2

private theorem reachable_describing : ToolRegistry.system.Reachable describing := ⟨[.connectMcp _ _], rfl⟩

private def textBlock (text : String) : Json := .object [("text", .string text), ("type", .string "text")]

private def imageBlock (data mimeType : String) : Json :=
  .object [("data", .string data), ("mimeType", .string mimeType), ("type", .string "image")]

private def answer (blocks : List Json) : Json := .object [("content", .array blocks)]

private theorem answers_answer {blocks : List Json} {contents : List ToolContent}
    (hblocks : List.Forall₂ BlockOf blocks contents) (hne : contents ≠ []) : Answers (answer blocks) contents :=
  .mk rfl hblocks hne (.inl rfl)

theorem sameOutput_twoTexts :
    SameOutput describing (fun _ _ => .error "") (fun _ _ _ => .ok (answer [textBlock "a", textBlock ""]))
      "describe" .null (answer [textBlock "a", textBlock ""]) [.text "a", .text ""] :=
  (sameOutput_iff_textual reachable_describing (by decide) (by decide) _ (fun _ _ => rfl)
    (answers_answer (.cons (.text rfl rfl) (.cons (.text rfl rfl) .nil)) (List.cons_ne_nil _ _))).mpr
    ⟨by simp [textOf], by decide⟩

/-- An image next to a text comes back from a server and not through the tunnel. -/
theorem image_lost_in_tunnel :
    ¬ ∀ registry name callFn send arguments value contents, ToolRegistry.system.Reachable registry →
      name ∉ registry.builtins → name ∈ registry.mcpTools →
      (∀ client ∈ registry.mcpClients, send client name arguments = .ok value) → Answers value contents →
      SameOutput registry callFn send name arguments value contents := by
  intro h
  have hanswers : Answers (answer [textBlock "a", imageBlock "QQ==" "image/png"])
      [.text "a", .imageBase64 "QQ==" "image/png"] :=
    answers_answer (.cons (.text rfl rfl) (.cons (.image rfl rfl rfl) .nil)) (List.cons_ne_nil _ _)
  obtain ⟨direct, tunnelled, -, hextract, hsame, hpreserves⟩ :=
    h describing "describe" (fun _ _ => .error "")
      (fun _ _ _ => .ok (answer [textBlock "a", imageBlock "QQ==" "image/png"])) .null _ _ reachable_describing
      (by decide) (by decide) (fun _ _ => rfl) hanswers
  rw [extractAcpToolResult_answers hanswers] at hextract
  cases hextract
  cases direct with
  | text s =>
      obtain ⟨texts, htexts, -⟩ := hpreserves
      cases texts with
      | nil => cases htexts
      | cons t texts =>
          cases texts with
          | nil => cases htexts
          | cons u texts => cases htexts
  | blocks blocks => cases hsame

end McpClient

end Overacp
