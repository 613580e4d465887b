import Overacp.Lib.Hex
import Overacp.Lib.Pieces
import Overacp.Server.Registry.Agent

/-!
# Ids as text

The forms an id is read from, and that an id is read back from the hyphenated one.
-/

namespace Overacp

namespace Uuid

/-- The lengths of the groups of the hyphenated form. -/
def groupLengths : List Nat := [8, 4, 4, 4, 12]

def parseSimple (cs : List Char) : Option Uuid := (Hex.value cs).map fun v => BitVec.ofNat 128 v

def parseHyphenated (cs : List Char) : Option Uuid :=
  let groups := cs.splitOn '-'
  if groups.map List.length = groupLengths then parseSimple groups.flatten else none

/-- 32 digits, or the hyphenated form, alone or in braces or after `urn:uuid:`. -/
def parseStr (text : String) : Option Uuid :=
  let cs := text.toList
  if cs.length = 32 then parseSimple cs
  else if cs.length = 36 then parseHyphenated cs
  else if cs.length = 38 ∧ cs.head? = some '\x7b' ∧ cs.getLast? = some '\x7d' then parseHyphenated (cs.drop 1).dropLast
  else if cs.length = 45 ∧ cs.take 9 = "urn:uuid:".toList then parseHyphenated (cs.drop 9)
  else none

/-- The digits of an id, in groups. -/
def groups (id : Uuid) : List (List Char) :=
  let hex := Hex.digits 32 id.toNat
  [(hex.take 8).drop 0, (hex.take 12).drop 8, (hex.take 16).drop 12, (hex.take 20).drop 16, (hex.take 32).drop 20]

theorem toList_render (id : Uuid) : id.render.toList = ['-'].intercalate (groups id) := by
  rw [render, String.toList_intercalate]
  simp only [List.map_cons, List.map_nil, String.toList_ofList]
  rfl

theorem length_groups (id : Uuid) : (groups id).map List.length = groupLengths := by
  simp [groups, groupLengths]

theorem flatten_groups (id : Uuid) : (groups id).flatten = Hex.digits 32 id.toNat := by
  have hlength := Hex.length_digits 32 id.toNat
  have hcut (hex : List Char) {from_ to_ : Nat} (hle : from_ ≤ to_) :
      hex.take from_ ++ (hex.take to_).drop from_ = hex.take to_ := by
    have htake : hex.take from_ = (hex.take to_).take from_ := by
      rw [List.take_take, Nat.min_eq_left hle]
    rw [htake, List.take_append_drop]
  simp only [groups, List.flatten_cons, List.flatten_nil, List.append_nil, List.drop_zero]
  rw [← List.append_assoc, hcut _ (by decide), ← List.append_assoc, hcut _ (by decide), ← List.append_assoc,
    hcut _ (by decide), hcut _ (by decide)]
  exact List.take_of_length_le (Nat.le_of_eq hlength)

/-- The digits hold no hyphen, so the groups are what lies between hyphens. -/
theorem splitOn_render (id : Uuid) : id.render.toList.splitOn '-' = groups id := by
  rw [toList_render, List.splitOn_intercalate]
  · intro group hgroup hmem
    refine Hex.notMem_digits (by decide) 32 id.toNat (?_ : '-' ∈ _)
    rw [← flatten_groups]
    exact List.mem_flatten_of_mem hgroup hmem
  · exact List.cons_ne_nil _ _

theorem length_render (id : Uuid) : id.render.toList.length = 36 := by
  rw [toList_render]
  simp [groups, List.intercalate]

theorem parseStr_render (id : Uuid) : parseStr id.render = some id := by
  have hvalue := Hex.value_digits (n := 32) (v := id.toNat) id.isLt
  simp only [parseStr, length_render, parseHyphenated, splitOn_render, length_groups, parseSimple, flatten_groups,
    hvalue, Option.map_some, BitVec.ofNat_toNat, BitVec.setWidth_eq]
  rfl

theorem render_injective : Function.Injective render := by
  intro id other h
  have hparsed := congrArg parseStr h
  rw [parseStr_render, parseStr_render] at hparsed
  exact Option.some.inj hparsed

/-! ### What an id is written with -/

theorem notMem_of_parseSimple {cs : List Char} {id : Uuid} (h : parseSimple cs = some id) : '%' ∉ cs := by
  obtain ⟨v, hv, -⟩ := Option.map_eq_some_iff.mp h
  intro hmem
  have hdigit := Hex.digitValue_of_valueFrom hv '%' hmem
  have hnone : Hex.digitValue '%' = none := by decide
  rw [hnone] at hdigit
  cases hdigit

theorem notMem_of_parseHyphenated {cs : List Char} {id : Uuid} (h : parseHyphenated cs = some id) : '%' ∉ cs := by
  simp only [parseHyphenated] at h
  split at h
  · intro hmem
    rcases @Pieces.eq_or_mem_of_mem Char _ '-' '%' cs hmem with heq | hgroup
    · exact absurd heq (by decide)
    · exact notMem_of_parseSimple h hgroup
  · cases h

/-- No form of an id has a percent sign. -/
theorem notMem_of_parseStr {text : String} {id : Uuid} (h : parseStr text = some id) : '%' ∉ text.toList := by
  simp only [parseStr] at h
  split at h
  · exact notMem_of_parseSimple h
  · split at h
    · exact notMem_of_parseHyphenated h
    · split at h
      · rename_i hbraced
        intro hmem
        rcases Pieces.mem_between hbraced.2.1 hbraced.2.2 hmem with heq | heq | hinner
        · exact absurd heq (by decide)
        · exact absurd heq (by decide)
        · exact notMem_of_parseHyphenated h hinner
      · split at h
        · rename_i hurn
          intro hmem
          rw [← List.take_append_drop 9 text.toList, hurn.2] at hmem
          rcases List.mem_append.mp hmem with hletters | hrest
          · exact absurd hletters (by decide +kernel)
          · exact notMem_of_parseHyphenated h hrest
        · cases h

end Uuid

end Overacp
