import Mathlib.Data.Int.Notation
import Mathlib.Data.List.AList
import Mathlib.Data.List.Sort

/-!
# Redis values

What a key of a given type holds, and what the commands on it do. Times are in milliseconds. Nothing
here removes a key when its time has come: that is a step of its own.
-/

namespace Redis

/-- A value and, if it was given one, the time its key expires at. -/
structure Stored (α : Type) where
  value : α
  expireAt : Option Nat
  deriving DecidableEq, Repr

/-- A key of one type, which may not exist. -/
abbrev Key (α : Type) := Option (Stored α)

section Key

variable {α : Type}

def get (key : Key α) : Option α := key.map Stored.value

/-- `SET .. EX`. -/
def setEx (value : α) (seconds now : Nat) : Key α := some ⟨value, some (now + 1000 * seconds)⟩

/-- A write that leaves the expiry of an existing key alone. -/
def put (key : Key α) (value : α) : Key α := some ⟨value, key.bind Stored.expireAt⟩

def expire (key : Key α) (seconds now : Nat) : Key α :=
  key.map fun stored => { stored with expireAt := some (now + 1000 * seconds) }

/-- The time of the key has come. -/
def isDue (key : Key α) (now : Nat) : Bool := key.any fun stored => stored.expireAt.any fun time => time ≤ now

@[simp] theorem get_none : get (none : Key α) = none := rfl

@[simp] theorem get_setEx (value : α) (seconds now : Nat) : get (setEx value seconds now) = some value := rfl

@[simp] theorem get_put (key : Key α) (value : α) : get (put key value) = some value := rfl

@[simp] theorem get_expire (key : Key α) (seconds now : Nat) : get (expire key seconds now) = get key := by
  cases key with
  | none => rfl
  | some stored => rfl

end Key

/-! ### Sorted sets -/

/-- A sorted set: every member has one score. -/
abbrev ZSet (α : Type) := AList fun _ : α => ℤ

namespace ZSet

variable {α : Type} [DecidableEq α]

def zadd (z : ZSet α) (score : ℤ) (member : α) : ZSet α := z.insert member score

def zrem (z : ZSet α) (member : α) : ZSet α := z.erase member

/-- The members by score; equal scores by the members themselves. -/
def ranked [LE α] [DecidableLE α] (z : ZSet α) : List α :=
  (z.entries.insertionSort fun x y => x.2 < y.2 ∨ (x.2 = y.2 ∧ x.1 ≤ y.1)).map Sigma.fst

/-- The ranks from `start` to `stop`; negative ones count from the end. -/
def rankRange (ranked : List α) (start stop : ℤ) : List α :=
  let len : ℤ := ranked.length
  let start := max (if start < 0 then len + start else start) 0
  let stop := min (if stop < 0 then len + stop else stop) (len - 1)
  (ranked.drop start.toNat).take (stop + 1 - start).toNat

def zremrangebyrank [LE α] [DecidableLE α] (z : ZSet α) (start stop : ℤ) : ZSet α :=
  (rankRange z.ranked start stop).foldl (fun z member => z.erase member) z

theorem notMem_zrem (z : ZSet α) (member : α) : member ∉ z.zrem member := by
  intro hmem
  exact (AList.mem_erase.mp hmem).1 rfl

end ZSet

end Redis
