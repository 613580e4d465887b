import Overacp.Lib.RedisStream

/-!
# A Redis stream without consumer groups

The entries of a stream, in the order of their ids, and the commands that append, count, read and delete them.
A key whose stream was deleted does not exist, and the next append makes a new stream.
-/

namespace Redis

/-- A stream key that exists. -/
structure Stream where
  lastId : StreamId
  entries : List Entry
  sorted : (entries.map Entry.id).Pairwise (· < ·)
  bounded : ∀ id ∈ entries.map Entry.id, id ≤ lastId

namespace Stream

theorem sorted_nil : (([] : List Entry).map Entry.id).Pairwise (· < ·) := .nil

theorem bounded_nil : ∀ id ∈ ([] : List Entry).map Entry.id, id ≤ StreamId.mk 0 0 := by
  intro id hid
  cases hid

def empty : Stream := ⟨.mk 0 0, [], sorted_nil, bounded_nil⟩

/-- `XADD key * ..`: the id is later than every other. -/
def xadd (s : Stream) (now : Nat) (fields : List (String × List UInt8)) : Stream where
  lastId := GroupStream.nextId s.lastId now
  entries := s.entries ++ [⟨GroupStream.nextId s.lastId now, fields⟩]
  sorted := by
    rw [List.map_append]
    refine List.pairwise_append.mpr ⟨s.sorted, List.pairwise_singleton _ _, ?_⟩
    intro id hid new hnew
    rw [List.mem_singleton.mp hnew]
    exact lt_of_le_of_lt (s.bounded id hid) (GroupStream.lt_nextId _ _)
  bounded := by
    intro id hid
    rw [List.map_append] at hid
    rcases List.mem_append.mp hid with hold | hnew
    · exact le_of_lt (lt_of_le_of_lt (s.bounded id hold) (GroupStream.lt_nextId _ _))
    · exact le_of_eq (List.mem_singleton.mp hnew)

end Stream

/-! ### Commands on a key -/

/-- The stream at a key; an append makes one. -/
def streamAt (key : Option Stream) : Stream := key.getD .empty

def entriesAt (key : Option Stream) : List Entry := key.elim [] Stream.entries

def xlen (key : Option Stream) : Nat := (entriesAt key).length

/-- `XRANGE key - + COUNT count`; where there is a stream, no entries to read is a null reply. -/
def xrange (key : Option Stream) (count : Nat) : Option (List Entry) :=
  if key.isSome ∧ count = 0 then none else some ((entriesAt key).take count)

theorem entriesAt_streamAt (key : Option Stream) : (streamAt key).entries = entriesAt key := by
  cases key with
  | none => rfl
  | some s => rfl

/-- Where no more entries are there than are read, either all of them are read or there are none. -/
theorem xrange_of_le {key : Option Stream} {count : Nat} (h : xlen key ≤ count) :
    xrange key count = some (entriesAt key) ∨ xrange key count = none ∧ entriesAt key = [] := by
  unfold xrange
  by_cases hnull : key.isSome ∧ count = 0
  · right
    rw [hnull.2] at h
    exact ⟨if_pos hnull, List.length_eq_zero_iff.mp (Nat.le_zero.mp h)⟩
  · left
    rw [if_neg hnull, List.take_of_length_le h]

@[simp] theorem entriesAt_xadd (key : Option Stream) (now : Nat) (fields : List (String × List UInt8)) :
    entriesAt (some ((streamAt key).xadd now fields)) =
      entriesAt key ++ [⟨GroupStream.nextId (streamAt key).lastId now, fields⟩] := by
  rw [← entriesAt_streamAt key]
  rfl

end Redis
