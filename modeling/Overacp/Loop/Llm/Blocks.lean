import Overacp.Lib.Json.Canonical
import Overacp.Loop.Llm.Types

/-!
# Content blocks, decoded and serialised again

A block of an unknown type is kept as it came. One of a known type is kept as its variant, which has room for
the type and one member, so that whatever else the block carried is gone when it is serialised again.
-/

namespace Overacp

namespace Llm

/-! ### The known types -/

/-- The member that a block of a known type is made of. -/
def ownMember : String → Option String
  | "text" => some "text"
  | "image_url" => some "image_url"
  | "image" => some "source"
  | "input_audio" => some "input_audio"
  | _ => none

/-- A text must be a string; the others may be anything. -/
def Fits (tag : String) (value : Json) : Prop := tag = "text" → ∃ s, value = .string s

/-- Of this type, with this as the member it is made of: as an object, or as an array of the two. -/
inductive Carries (tag key : String) (value : Json) : Json → Prop
  | object {members : List (String × Json)} (htag : (Json.object members).get "type" = some (.string tag))
      (hvalue : (Json.object members).get key = some value) : Carries tag key value (.object members)
  | array : Carries tag key value (.array [.string tag, value])

theorem ownMember_lt {tag key : String} (h : ownMember tag = some key) : key < "type" := by
  unfold ownMember at h
  split at h
  · obtain rfl := Option.some.inj h
    decide
  · obtain rfl := Option.some.inj h
    decide
  · obtain rfl := Option.some.inj h
    decide
  · obtain rfl := Option.some.inj h
    decide
  · cases h

namespace ContentBlock

theorem ofTag_some {tag : String} {field : String → Option Json} {block : ContentBlock}
    (h : ofTag tag field = some block) :
    ∃ key value, ownMember tag = some key ∧ field key = some value ∧ Fits tag value ∧
      block.toValue = .object [(key, value), ("type", .string tag)] := by
  unfold ofTag at h
  split at h
  · obtain ⟨text, htext, rfl⟩ := Option.map_eq_some_iff.mp h
    obtain ⟨value, hvalue, hstr⟩ := Option.bind_eq_some_iff.mp htext
    cases value with
    | string s =>
        obtain rfl := Option.some.inj hstr
        exact ⟨"text", .string s, rfl, hvalue, fun _ => ⟨s, rfl⟩, rfl⟩
    | _ => cases hstr
  · obtain ⟨value, hvalue, rfl⟩ := Option.map_eq_some_iff.mp h
    exact ⟨"image_url", value, rfl, hvalue, fun htag => absurd htag (by decide), rfl⟩
  · obtain ⟨value, hvalue, rfl⟩ := Option.map_eq_some_iff.mp h
    exact ⟨"source", value, rfl, hvalue, fun htag => absurd htag (by decide), rfl⟩
  · obtain ⟨value, hvalue, rfl⟩ := Option.map_eq_some_iff.mp h
    exact ⟨"input_audio", value, rfl, hvalue, fun htag => absurd htag (by decide), rfl⟩
  · cases h

theorem ofTag_isSome {tag key : String} {field : String → Option Json} {value : Json}
    (hown : ownMember tag = some key) (hvalue : field key = some value) (hfits : Fits tag value) :
    ∃ block, ofTag tag field = some block := by
  unfold ownMember at hown
  unfold ofTag
  split at hown
  · obtain rfl := Option.some.inj hown
    obtain ⟨s, rfl⟩ := hfits rfl
    exact ⟨.text s, by rw [hvalue]; rfl⟩
  · obtain rfl := Option.some.inj hown
    exact ⟨.imageUrl value, by rw [hvalue]; rfl⟩
  · obtain rfl := Option.some.inj hown
    exact ⟨.image value, by rw [hvalue]; rfl⟩
  · obtain rfl := Option.some.inj hown
    exact ⟨.inputAudio value, by rw [hvalue]; rfl⟩
  · cases hown

/-- A block that decodes is of a known type, and its variant holds the type and one member of it. -/
theorem ofValue_some {v : Json} {block : ContentBlock} (h : ofValue v = some block) :
    ∃ tag key value, ownMember tag = some key ∧ Fits tag value ∧ Carries tag key value v ∧
      block.toValue = .object [(key, value), ("type", .string tag)] := by
  unfold ofValue at h
  split at h
  · rename_i tag value
    obtain ⟨key, value', hown, hfield, hfits, hblock⟩ := ofTag_some h
    obtain rfl := Option.some.inj hfield
    exact ⟨tag, key, value, hown, hfits, .array, hblock⟩
  · obtain ⟨tag, htag, hof⟩ := Option.bind_eq_some_iff.mp h
    obtain ⟨key, value, hown, hfield, hfits, hblock⟩ := ofTag_some hof
    obtain ⟨type, htype, hstr⟩ := Option.bind_eq_some_iff.mp htag
    obtain ⟨members, rfl, _⟩ := Json.mem_of_get htype
    cases type with
    | string s =>
        obtain rfl := Option.some.inj hstr
        exact ⟨s, key, value, hown, hfits, .object htype hfield, hblock⟩
    | _ => cases hstr

/-- The variant is the same, whichever form the block came in. -/
theorem ofValue_of_carries {tag key : String} {value v : Json} (hown : ownMember tag = some key)
    (hfits : Fits tag value) (h : Carries tag key value v) :
    ∃ block, ofValue v = some block ∧ block.toValue = .object [(key, value), ("type", .string tag)] := by
  have hsome : ∃ block, ofValue v = some block := by
    cases h with
    | object htag hvalue =>
        obtain ⟨block, hblock⟩ := ofTag_isSome hown hvalue hfits
        exact ⟨block, by rw [ofValue, htag]; exact hblock; intro _ _ heq; cases heq⟩
    | array => exact @ofTag_isSome _ _ (fun _ => some value) value hown rfl hfits
  obtain ⟨block, hblock⟩ := hsome
  obtain ⟨tag', key', value', hown', _, hcarries, hvalue⟩ := ofValue_some hblock
  refine ⟨block, hblock, ?_⟩
  cases h with
  | object htag hfield =>
      cases hcarries with
      | object htag' hfield' =>
          rw [htag] at htag'
          cases htag'
          rw [hown] at hown'
          cases hown'
          rw [hfield] at hfield'
          cases hfield'
          exact hvalue
  | array =>
      cases hcarries
      rw [hown] at hown'
      cases hown'
      exact hvalue

end ContentBlock

/-! ### What survives -/

/-- A block of a known type that carries more than its variant has room for, or that is an array. -/
def Lossy (v : Json) : Prop :=
  ∃ tag key value, ownMember tag = some key ∧ Fits tag value ∧ Carries tag key value v ∧
    ∀ members, v = .object members → ∃ m ∈ members, m.1 ≠ "type" ∧ m.1 ≠ key

/-- Two members in the order of their keys, when there are no others. -/
theorem members_eq {members : List (String × Json)} {key key' : String} {value value' : Json}
    (hsorted : members.Pairwise fun m m' => m.1 < m'.1) (hlt : key < key') (hmem : (key, value) ∈ members)
    (hmem' : (key', value') ∈ members) (honly : ∀ m ∈ members, m.1 = key' ∨ m.1 = key) :
    members = [(key, value), (key', value')] := by
  cases members with
  | nil => cases hmem
  | cons first others =>
      obtain ⟨hfirst, hothers⟩ := List.pairwise_cons.mp hsorted
      -- the member with the larger key cannot come first
      have hhead : first = (key, value) := by
        rcases List.mem_cons.mp hmem with heq | hlater
        · exact heq.symm
        · have hless := hfirst _ hlater
          rcases honly first List.mem_cons_self with heq | heq
          · rw [heq] at hless
            exact absurd hlt (lt_asymm hless)
          · rw [heq] at hless
            exact absurd hless (lt_irrefl key)
      rw [hhead] at hmem' hfirst ⊢
      have hrest : ∀ m ∈ others, m.1 = key' := by
        intro m hm
        rcases honly m (List.mem_cons_of_mem _ hm) with heq | heq
        · exact heq
        · have hless := hfirst m hm
          rw [heq] at hless
          exact absurd hless (lt_irrefl key)
      rcases List.mem_cons.mp hmem' with heq | hlater
      · rw [Prod.mk.injEq] at heq
        exact absurd heq.1 (ne_of_gt hlt)
      · cases others with
        | nil => cases hlater
        | cons second more =>
            cases more with
            | nil => rw [List.mem_singleton.mp hlater]
            | cons third more =>
                have hless := (List.pairwise_cons.mp hothers).1 third List.mem_cons_self
                rw [hrest second List.mem_cons_self, hrest third (by simp)] at hless
                exact absurd hless (lt_irrefl key')

/-- A block survives just where its variant has room for it, or there is no variant for it. -/
theorem typedBlock_survives_iff {v : Json} (h : v.Canonical) :
    (TypedBlock.ofValue v).toValue = v ↔ ¬ Lossy v := by
  unfold TypedBlock.ofValue
  cases hblock : ContentBlock.ofValue v with
  | none =>
      refine ⟨fun _ hlossy => ?_, fun _ => rfl⟩
      obtain ⟨tag, key, value, hown, hfits, hcarries, _⟩ := hlossy
      obtain ⟨block, hsome, _⟩ := ContentBlock.ofValue_of_carries hown hfits hcarries
      rw [hblock] at hsome
      cases hsome
  | some block =>
      show block.toValue = v ↔ _
      constructor
      · intro heq hlossy
        obtain ⟨tag, key, value, hown, hfits, hcarries, hextra⟩ := hlossy
        obtain ⟨block', hsome, hvalue⟩ := ContentBlock.ofValue_of_carries hown hfits hcarries
        rw [hblock] at hsome
        obtain rfl := Option.some.inj hsome
        rw [heq] at hvalue
        obtain ⟨m, hm, htype, hkey⟩ := hextra _ hvalue
        rcases List.mem_cons.mp hm with rfl | hm
        · exact hkey rfl
        · rw [List.mem_singleton.mp hm] at htype
          exact htype rfl
      · intro hkept
        obtain ⟨tag, key, value, hown, hfits, hcarries, hvalue⟩ := ContentBlock.ofValue_some hblock
        rw [hvalue]
        cases hcarries with
        | array => exact absurd ⟨tag, key, value, hown, hfits, .array, fun _ heq => by cases heq⟩ hkept
        | @object members htag hfield =>
            have honly : ∀ m ∈ members, m.1 = "type" ∨ m.1 = key := by
              intro m hm
              by_contra hother
              rw [not_or] at hother
              apply hkept
              refine ⟨tag, key, value, hown, hfits, .object htag hfield, ?_⟩
              intro members' heq
              obtain rfl := Json.object.inj heq
              exact ⟨m, hm, hother⟩
            obtain ⟨_, hobject, hmem⟩ := Json.mem_of_get hfield
            obtain ⟨_, hobject', hmem'⟩ := Json.mem_of_get htag
            obtain rfl := Json.object.inj hobject
            obtain rfl := Json.object.inj hobject'
            rw [members_eq h.1 (ownMember_lt hown) hmem hmem' honly]

/-- An array of blocks survives just where each of its blocks does. -/
theorem content_survives_iff {elems : List Json} (h : (Json.array elems).Canonical) :
    ((Content.ofValue (.array elems)).map Content.toValue = some (.array elems) ↔
        ∀ v ∈ elems, ¬ Lossy v) ∧
      ∀ v ∈ elems, (TypedBlock.ofValue v).toValue = v ↔ ¬ Lossy v := by
  have hcanonical := Json.canonicalElems_iff.mp h
  have hblocks : ∀ v ∈ elems, (TypedBlock.ofValue v).toValue = v ↔ ¬ Lossy v :=
    fun v hv => typedBlock_survives_iff (hcanonical v hv)
  refine ⟨?_, hblocks⟩
  have hcontent : (Content.ofValue (.array elems)).map Content.toValue =
      some (.array (elems.map fun v => (TypedBlock.ofValue v).toValue)) := by
    show some (Json.array ((elems.map TypedBlock.ofValue).map TypedBlock.toValue)) = _
    rw [List.map_map]
    rfl
  rw [hcontent, Option.some_inj, Json.array.injEq]
  constructor
  · intro hsame v hv
    apply (hblocks v hv).mp
    exact List.map_inj_left.mp (hsame.trans (List.map_id elems).symm) v hv
  · intro hkept
    have hsame : ∀ v ∈ elems, (TypedBlock.ofValue v).toValue = id v :=
      fun v hv => (hblocks v hv).mpr (hkept v hv)
    exact (List.map_congr_left hsame).trans (List.map_id elems)

/-- A text, and a block of a type that is not known. -/
def futureBlocks : List Json :=
  [.object [("text", .string "hello"), ("type", .string "text")],
    .object [("payload", .array [.null]), ("type", .string "future_type")]]

theorem futureBlocks_survive : (Json.array futureBlocks).Canonical ∧
    ((Content.ofValue (.array futureBlocks)).map Content.toValue = some (.array futureBlocks) ↔
      ∀ v ∈ futureBlocks, ¬ Lossy v) := by
  have hcanonical : (Json.array futureBlocks).Canonical := by
    have hcollapse : (Json.array futureBlocks).collapse = .array futureBlocks := by rfl
    rw [← hcollapse]
    exact Json.canonical_collapse _
  exact ⟨hcanonical, (content_survives_iff hcanonical).1⟩

/-- A text with a hint for the cache of the provider. -/
def cachedText : Json :=
  .object [("cache_control", .object [("type", .string "ephemeral")]), ("text", .string "You are careful."),
    ("type", .string "text")]

/-- The hint is gone when the block is serialised again. -/
theorem cachedText_loses_hint :
    (TypedBlock.ofValue cachedText).toValue =
        .object [("text", .string "You are careful."), ("type", .string "text")] ∧
      (Content.ofValue (.array [cachedText])).map Content.toValue ≠ some (.array [cachedText]) := by
  constructor
  · rfl
  · intro h
    have hmembers := Json.object.inj (List.cons.inj (Json.array.inj (Option.some.inj h))).1
    exact absurd (congrArg List.length hmembers) (by decide)

end Llm

end Overacp
