import Mathlib.Data.List.Forall2
import Overacp.Lib.UnixPath
import Overacp.Loop.Session

/-!
# File URLs in the blocks of a message

What stands for a `file:///` URL after the files were read: the data URL of the bytes, in the same place, or a text
that says why there are none. Whatever the files are, nothing else of a message is touched, and there is nothing left
to do a second time.
-/

namespace Overacp

namespace Resolve

open Llm

/-- The files, by path, and the base64 of the bytes of one. -/
structure Files where
  read : String → Except String (List UInt8)
  encode : List UInt8 → String

def mimeFromExtension (path : String) : Option String :=
  (UnixPath.extension path).bind fun ext =>
    match String.ofList (ext.toList.map Char.toLower) with
    | "png" => some "image/png"
    | "jpg" | "jpeg" => some "image/jpeg"
    | "gif" => some "image/gif"
    | "webp" => some "image/webp"
    | "pdf" => some "application/pdf"
    | _ => none

example : mimeFromExtension "/tmp/photo.v2.JPeG/" = some "image/jpeg" ∧ mimeFromExtension "/tmp/.png" = none ∧
    mimeFromExtension "/tmp/noext" = none := by
  decide +kernel

def dataUrl (mime encoded : String) : String := "data:" ++ mime ++ ";base64," ++ encoded

def resolveFileUrl (files : Files) (pathStr : String) : Except String String :=
  match mimeFromExtension pathStr with
  | none => .error s!"unsupported file extension: {pathStr}"
  | some mime => (files.read pathStr).map fun bytes => dataUrl mime (files.encode bytes)

/-! ### One block -/

/-- A known block of an image whose payload is an object with such a URL. -/
def HasFileUrl (block : TypedBlock) (url : String) : Prop :=
  ∃ members, block = .known (.imageUrl (.object members)) ∧ (Json.object members).get "url" = some (.string url) ∧
    "file:///".toList <+: url.toList

/-- `file://` is stripped. -/
def pathOf (url : String) : String := String.ofList (url.toList.drop 7)

/-- The same object, but for what stands under `url`. -/
structure UrlReplaced (members members' : List (String × Json)) (url : String) : Prop where
  others : List.Forall₂ (fun m m' => m'.1 = m.1 ∧ (m.1 ≠ "url" → m' = m)) members members'
  url : (Json.object members').get "url" = some (.string url)

/-- What may have become of a block. -/
structure BlockResolved (files : Files) (before after : TypedBlock) : Prop where
  unchanged : (∀ url, ¬HasFileUrl before url) → after = before
  resolved : ∀ url, HasFileUrl before url →
    (∃ members members' mime bytes, before = .known (.imageUrl (.object members)) ∧
      after = .known (.imageUrl (.object members')) ∧ files.read (pathOf url) = .ok bytes ∧
      mimeFromExtension (pathOf url) = some mime ∧
      UrlReplaced members members' (dataUrl mime (files.encode bytes))) ∨
    ∃ err, resolveFileUrl files (pathOf url) = .error err ∧
      after = .known (.text s!"[Image not available: {pathOf url}: {err}]")

theorem HasFileUrl.unique {block : TypedBlock} {url url' : String} (h : HasFileUrl block url)
    (h' : HasFileUrl block url') : url = url' := by
  obtain ⟨members, rfl, hget, -⟩ := h
  obtain ⟨members', hblock, hget', -⟩ := h'
  obtain rfl := Json.object.inj (ContentBlock.imageUrl.inj (TypedBlock.known.inj hblock))
  exact Json.string.inj (Option.some.inj (hget.symm.trans hget'))

theorem setUrl_replaced {members : List (String × Json)} {value : Json} (url : String)
    (h : (Json.object members).get "url" = some value) :
    ∃ members', setUrl (.object members) url = .object members' ∧ UrlReplaced members members' url := by
  refine ⟨_, rfl, ?_, ?_⟩
  · clear h
    induction members with
    | nil => exact .nil
    | cons m members ih =>
        refine .cons ?_ ih
        dsimp only
        by_cases hkey : m.1 = "url"
        · rw [if_pos hkey]
          exact ⟨hkey.symm, fun hne => absurd hkey hne⟩
        · rw [if_neg hkey]
          exact ⟨rfl, fun _ => rfl⟩
  · rw [Json.get] at h ⊢
    induction members with
    | nil => cases h
    | cons m members ih =>
        rw [List.map_cons]
        by_cases hkey : m.1 = "url"
        · rw [if_pos hkey, List.find?_cons_of_pos (by simp), Option.map_some]
        · rw [List.find?_cons_of_neg (by simpa using hkey)] at h
          rw [if_neg hkey, List.find?_cons_of_neg (by simpa using hkey)]
          exact ih h

/-- A data URL is no file URL. -/
theorem not_file_dataUrl (mime encoded : String) : ¬"file:///".toList <+: (dataUrl mime encoded).toList := by
  have hdata : "data:".toList <+: (dataUrl mime encoded).toList := by
    rw [dataUrl, String.append_assoc, String.append_assoc, String.toList_append]
    exact List.prefix_append _ _
  intro hfile
  rcases List.prefix_or_prefix_of_prefix hdata hfile with h | h
  · exact absurd h (by decide +kernel)
  · exact absurd h (by decide +kernel)

theorem resolveFileUrl_eq_ok {files : Files} {path url : String} (h : resolveFileUrl files path = .ok url) :
    ∃ mime bytes, files.read path = .ok bytes ∧ mimeFromExtension path = some mime ∧
      url = dataUrl mime (files.encode bytes) := by
  rw [resolveFileUrl] at h
  cases hmime : mimeFromExtension path with
  | none =>
      rw [hmime] at h
      cases h
  | some mime =>
      rw [hmime] at h
      cases hread : files.read path with
      | error err =>
          simp only [hread, Except.map] at h
          cases h
      | ok bytes =>
          simp only [hread, Except.map] at h
          exact ⟨mime, bytes, rfl, rfl, (Except.ok.inj h).symm⟩

section

variable (files : Files)

/-- A block is as it was, or had a file URL and is as the file has it. -/
theorem resolveTypedBlock_cases (block : TypedBlock) :
    (∀ url, ¬HasFileUrl block url) ∧ resolveTypedBlock (resolveFileUrl files) block = block ∨
      ∃ members url, block = .known (.imageUrl (.object members)) ∧
        (Json.object members).get "url" = some (.string url) ∧ HasFileUrl block url ∧
        resolveTypedBlock (resolveFileUrl files) block = match resolveFileUrl files (pathOf url) with
          | .ok dataUrl => .known (.imageUrl (setUrl (.object members) dataUrl))
          | .error err => .known (.text s!"[Image not available: {pathOf url}: {err}]") := by
  have hother : ∀ block : ContentBlock, (∀ payload, block ≠ .imageUrl payload) →
      ∀ url, ¬HasFileUrl (.known block) url := by
    rintro block hne url ⟨members, hblock, -⟩
    exact hne _ (TypedBlock.known.inj hblock)
  cases block with
  | unknown value => exact .inl ⟨fun url ⟨_, hblock, _⟩ => (nomatch hblock), rfl⟩
  | known block =>
      cases block with
      | text text => exact .inl ⟨hother _ nofun, rfl⟩
      | image source => exact .inl ⟨hother _ nofun, rfl⟩
      | inputAudio audio => exact .inl ⟨hother _ nofun, rfl⟩
      | imageUrl payload =>
          rw [resolveTypedBlock, resolveContentBlock]
          cases hurl : (payload.get "url").bind Json.asStr with
          | none =>
              refine .inl ⟨?_, rfl⟩
              rintro url ⟨members, hblock, hget, -⟩
              obtain rfl := ContentBlock.imageUrl.inj (TypedBlock.known.inj hblock)
              rw [hget] at hurl
              cases hurl
          | some url =>
              obtain ⟨value, hget, hvalue⟩ := Option.bind_eq_some_iff.mp hurl
              cases payload with
              | object members =>
                  cases value with
                  | string s =>
                      obtain rfl := Option.some.inj hvalue
                      by_cases hfile : "file:///".toList.isPrefixOf s.toList = true
                      · have hhas : HasFileUrl (.known (.imageUrl (.object members))) s :=
                          ⟨members, rfl, hget, List.isPrefixOf_iff_prefix.mp hfile⟩
                        refine .inr ⟨members, s, rfl, hget, hhas, ?_⟩
                        simp only [if_pos hfile, pathOf]
                        cases resolveFileUrl files (String.ofList (s.toList.drop 7)) with
                        | ok dataUrl => rfl
                        | error err => rfl
                      · refine .inl ⟨?_, by simp only [if_neg hfile]⟩
                        rintro url ⟨members', hblock, hget', hprefix⟩
                        obtain rfl := Json.object.inj (ContentBlock.imageUrl.inj (TypedBlock.known.inj hblock))
                        obtain rfl := Json.string.inj (Option.some.inj (hget.symm.trans hget'))
                        exact hfile (List.isPrefixOf_iff_prefix.mpr hprefix)
                  | _ => cases hvalue
              | _ => cases hget

theorem resolveTypedBlock_resolved (block : TypedBlock) :
    BlockResolved files block (resolveTypedBlock (resolveFileUrl files) block) := by
  rcases resolveTypedBlock_cases files block with ⟨hnone, hsame⟩ | ⟨members, url, rfl, hget, hhas, hresolve⟩
  · exact ⟨fun _ => hsame, fun url hurl => absurd hurl (hnone url)⟩
  · refine ⟨fun hnone => absurd hhas (hnone url), ?_⟩
    intro url' hurl'
    obtain rfl := hhas.unique hurl'
    rw [hresolve]
    cases hfile : resolveFileUrl files (pathOf url) with
    | error err => exact .inr ⟨err, rfl, rfl⟩
    | ok dataUrl =>
        obtain ⟨mime, bytes, hread, hmime, rfl⟩ := resolveFileUrl_eq_ok hfile
        obtain ⟨members', hset, hreplaced⟩ := setUrl_replaced (Resolve.dataUrl mime (files.encode bytes)) hget
        refine .inl ⟨members, members', mime, bytes, rfl, ?_, hread, hmime, hreplaced⟩
        simp only [hset]

theorem resolveTypedBlock_no_file (block : TypedBlock) (url : String) :
    ¬HasFileUrl (resolveTypedBlock (resolveFileUrl files) block) url := by
  have hresolved := resolveTypedBlock_resolved files block
  by_cases hhas : ∃ url', HasFileUrl block url'
  · obtain ⟨url', hurl'⟩ := hhas
    rcases hresolved.resolved url' hurl' with ⟨_, members, mime, bytes, -, hafter, -, -, hreplaced⟩ | ⟨err, -, hafter⟩
    · rw [hafter]
      rintro ⟨members', hblock, hget, hprefix⟩
      obtain rfl := Json.object.inj (ContentBlock.imageUrl.inj (TypedBlock.known.inj hblock))
      obtain rfl := Json.string.inj (Option.some.inj (hreplaced.url.symm.trans hget))
      exact not_file_dataUrl mime (files.encode bytes) hprefix
    · rw [hafter]
      rintro ⟨members, hblock, -⟩
      cases hblock
  · rw [hresolved.unchanged fun url' hurl' => hhas ⟨url', hurl'⟩]
    exact fun hurl => hhas ⟨url, hurl⟩

/-- A second time there is nothing to resolve, whatever has become of the files. -/
theorem resolveTypedBlock_twice (later : Files) (block : TypedBlock) :
    resolveTypedBlock (resolveFileUrl later) (resolveTypedBlock (resolveFileUrl files) block) =
      resolveTypedBlock (resolveFileUrl files) block :=
  (resolveTypedBlock_resolved later _).unchanged (resolveTypedBlock_no_file files block)

/-! ### Every message -/

/-- What may have become of the content of a message. -/
inductive ContentResolved (files : Files) : Content → Content → Prop
  | text (s : String) : ContentResolved files (.text s) (.text s)
  | blocks {before after : List TypedBlock} (h : List.Forall₂ (BlockResolved files) before after) :
      ContentResolved files (.blocks before) (.blocks after)

/-- What may have become of a message. -/
structure MessageResolved (files : Files) (before after : Message) : Prop where
  role : after.role = before.role
  content : Option.Rel (ContentResolved files) before.content after.content
  toolCalls : after.toolCalls = before.toolCalls
  toolCallId : after.toolCallId = before.toolCallId

/-- No block of the message has a file URL. -/
def NoFileUrl (m : Message) : Prop :=
  ∀ blocks, m.content = some (.blocks blocks) → ∀ block ∈ blocks, ∀ url, ¬HasFileUrl block url

theorem resolveContent_resolved (content : Content) :
    ContentResolved files content (resolveContent (resolveFileUrl files) content) := by
  cases content with
  | text s => exact .text s
  | blocks blocks =>
      refine .blocks (List.forall₂_map_right_iff.mpr (List.forall₂_same.mpr ?_))
      exact fun block _ => resolveTypedBlock_resolved files block

theorem resolveContent_twice (later : Files) (content : Content) :
    resolveContent (resolveFileUrl later) (resolveContent (resolveFileUrl files) content) =
      resolveContent (resolveFileUrl files) content := by
  cases content with
  | text s => rfl
  | blocks blocks =>
      simp only [resolveContent, List.map_map, Content.blocks.injEq]
      exact List.map_congr_left fun block _ => resolveTypedBlock_twice files later block

theorem resolveMessage_resolved (m : Message) :
    MessageResolved files m (resolveFileUrlsInMessage (resolveFileUrl files) m) := by
  refine ⟨rfl, ?_, rfl, rfl⟩
  rw [resolveFileUrlsInMessage]
  cases m.content with
  | none => exact .none
  | some content => exact .some (resolveContent_resolved files content)

theorem resolveMessage_no_file (m : Message) : NoFileUrl (resolveFileUrlsInMessage (resolveFileUrl files) m) := by
  intro blocks hblocks block hblock url
  obtain ⟨content, -, hcontent⟩ := Option.map_eq_some_iff.mp hblocks
  cases content with
  | text s => cases hcontent
  | blocks before =>
      obtain rfl := Content.blocks.inj hcontent
      obtain ⟨original, -, rfl⟩ := List.mem_map.mp hblock
      exact resolveTypedBlock_no_file files original url

theorem resolveMessage_twice (later : Files) (m : Message) :
    resolveFileUrlsInMessage (resolveFileUrl later) (resolveFileUrlsInMessage (resolveFileUrl files) m) =
      resolveFileUrlsInMessage (resolveFileUrl files) m := by
  simp only [resolveFileUrlsInMessage, Option.map_map]
  refine congrArg (fun content => Message.mk m.role content m.toolCalls m.toolCallId) ?_
  exact congrArg (fun f => m.content.map f) (funext (resolveContent_twice files later))

theorem resolveFileUrls_spec (messages : List Message) :
    (∀ m ∈ resolveFileUrls (resolveFileUrl files) messages, NoFileUrl m) ∧
      List.Forall₂ (MessageResolved files) messages (resolveFileUrls (resolveFileUrl files) messages) ∧
      ∀ later, resolveFileUrls (resolveFileUrl later) (resolveFileUrls (resolveFileUrl files) messages) =
        resolveFileUrls (resolveFileUrl files) messages := by
  refine ⟨?_, ?_, ?_⟩
  · intro m hm
    obtain ⟨original, -, rfl⟩ := List.mem_map.mp hm
    exact resolveMessage_no_file files original
  · refine List.forall₂_map_right_iff.mpr (List.forall₂_same.mpr ?_)
    exact fun m _ => resolveMessage_resolved files m
  · intro later
    rw [resolveFileUrls, resolveFileUrls, List.map_map]
    exact List.map_congr_left fun m _ => resolveMessage_twice files later m

end

end Resolve

end Overacp
