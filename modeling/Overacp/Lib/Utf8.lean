import Mathlib.Data.List.Basic

/-!
# UTF-8, encoded and decoded with replacement

The encoder, and the decoder that puts a replacement character in the place of every maximal prefix
of a sequence that cannot be continued. Decoding what was encoded gives the text back; decoding an
encoded text piece by piece does so exactly when every piece is itself an encoded text.
-/

namespace Utf8

def encodeChar (c : Char) : List UInt8 :=
  let v := c.toNat
  if v < 0x80 then [.ofNat v]
  else if v < 0x800 then [.ofNat (0xC0 + v / 0x40), .ofNat (0x80 + v % 0x40)]
  else if v < 0x10000 then
    [.ofNat (0xE0 + v / 0x1000), .ofNat (0x80 + v / 0x40 % 0x40), .ofNat (0x80 + v % 0x40)]
  else
    [.ofNat (0xF0 + v / 0x40000), .ofNat (0x80 + v / 0x1000 % 0x40), .ofNat (0x80 + v / 0x40 % 0x40),
      .ofNat (0x80 + v % 0x40)]

def encode (text : List Char) : List UInt8 := text.flatMap encodeChar

def replacement : Char := '\uFFFD'

/-- Between characters, or with so many bytes owed, the next of them within bounds. -/
inductive State where
  | start
  | owing (tails acc lo hi : Nat)
  deriving DecidableEq, Repr

/-- The first byte of a sequence. -/
def begin (b : Nat) : List Char × State :=
  if b < 0x80 then ([Char.ofNat b], .start)
  else if 0xC2 ≤ b ∧ b ≤ 0xDF then ([], .owing 1 (b - 0xC0) 0x80 0xBF)
  else if b = 0xE0 then ([], .owing 2 0 0xA0 0xBF)
  else if b = 0xED then ([], .owing 2 0xD 0x80 0x9F)
  else if 0xE1 ≤ b ∧ b ≤ 0xEF then ([], .owing 2 (b - 0xE0) 0x80 0xBF)
  else if b = 0xF0 then ([], .owing 3 0 0x90 0xBF)
  else if b = 0xF4 then ([], .owing 3 4 0x80 0x8F)
  else if 0xF1 ≤ b ∧ b ≤ 0xF3 then ([], .owing 3 (b - 0xF0) 0x80 0xBF)
  else ([replacement], .start)

/-- A byte out of bounds ends the sequence before it and begins one of its own. -/
def step : State → Nat → List Char × State
  | .start, b => begin b
  | .owing tails acc lo hi, b =>
      if lo ≤ b ∧ b ≤ hi then
        if tails = 1 then ([Char.ofNat (acc * 0x40 + (b - 0x80))], .start)
        else ([], .owing (tails - 1) (acc * 0x40 + (b - 0x80)) 0x80 0xBF)
      else (replacement :: (begin b).1, (begin b).2)

def decodeFrom : State → List UInt8 → List Char
  | .start, [] => []
  | .owing _ _ _ _, [] => [replacement]
  | s, b :: bs => (step s b.toNat).1 ++ decodeFrom (step s b.toNat).2 bs

def decodeLossy (bytes : List UInt8) : List Char := decodeFrom .start bytes

/-! ### Decoding what was encoded -/

theorem toNat_ofNat {n : Nat} (hn : n < 256) : (UInt8.ofNat n).toNat = n := by
  rw [UInt8.toNat_ofNat']
  exact Nat.mod_eq_of_lt hn

theorem decodeFrom_cons (s : State) (b : UInt8) (bs : List UInt8) :
    decodeFrom s (b :: bs) = (step s b.toNat).1 ++ decodeFrom (step s b.toNat).2 bs := by
  cases s <;> rfl

/-- The bytes up to a cut are decoded to a beginning of the text, and a sequence that is cut to a replacement. -/
theorem decodeFrom_take (s : State) (bytes : List UInt8) (k : Nat) : ∃ text tail,
    decodeFrom s (bytes.take k) = text ++ tail ∧ text <+: decodeFrom s bytes ∧ ∀ c ∈ tail, c = replacement := by
  induction bytes generalizing s k with
  | nil => exact ⟨_, [], by rw [List.take_nil, List.append_nil], List.prefix_refl _, by simp⟩
  | cons b bytes ih =>
      cases k with
      | zero =>
          refine ⟨[], decodeFrom s [], rfl, List.nil_prefix, fun c hc => ?_⟩
          cases s with
          | start => cases hc
          | owing => exact List.mem_singleton.mp hc
      | succ k =>
          obtain ⟨text, tail, htake, hprefix, htail⟩ := ih (step s b.toNat).2 k
          refine ⟨(step s b.toNat).1 ++ text, tail, ?_, ?_, htail⟩
          · rw [List.take_succ_cons, decodeFrom_cons, htake, List.append_assoc]
          · rw [decodeFrom_cons]
            exact (List.prefix_append_right_inj _).mpr hprefix

theorem toNat_scalar (c : Char) : c.toNat < 0xD800 ∨ 0xE000 ≤ c.toNat ∧ c.toNat < 0x110000 := by
  have hvalid := c.valid
  simp only [UInt32.isValidChar, Nat.isValidChar] at hvalid
  show c.val.toNat < 0xD800 ∨ 0xE000 ≤ c.val.toNat ∧ c.val.toNat < 0x110000
  omega

/-- A byte within bounds, with more to come. -/
theorem decodeFrom_owing {tails acc lo hi n : Nat} (hn : n < 256) (hlo : lo ≤ n) (hhi : n ≤ hi)
    (htails : tails ≠ 1) (bs : List UInt8) :
    decodeFrom (.owing tails acc lo hi) (.ofNat n :: bs) =
      decodeFrom (.owing (tails - 1) (acc * 0x40 + (n - 0x80)) 0x80 0xBF) bs := by
  rw [decodeFrom_cons, toNat_ofNat hn, step, if_pos ⟨hlo, hhi⟩, if_neg htails]
  rfl

theorem decodeFrom_owing_one {acc lo hi n : Nat} (hn : n < 256) (hlo : lo ≤ n) (hhi : n ≤ hi)
    (bs : List UInt8) :
    decodeFrom (.owing 1 acc lo hi) (.ofNat n :: bs) =
      Char.ofNat (acc * 0x40 + (n - 0x80)) :: decodeFrom .start bs := by
  rw [decodeFrom_cons, toNat_ofNat hn, step, if_pos ⟨hlo, hhi⟩, if_pos rfl]
  rfl

theorem decodeFrom_begin {n : Nat} (hn : n < 256) (bs : List UInt8) :
    decodeFrom .start (.ofNat n :: bs) = (begin n).1 ++ decodeFrom (begin n).2 bs := by
  rw [decodeFrom_cons, toNat_ofNat hn, step]

/-- The lead byte of three leaves bounds that the second byte of the same character is within. -/
theorem begin_three {v : Nat} (hlo : 0x800 ≤ v) (hhi : v < 0x10000) (hscalar : v < 0xD800 ∨ 0xE000 ≤ v) :
    ∃ lo hi, begin (0xE0 + v / 0x1000) = ([], .owing 2 (v / 0x1000) lo hi) ∧
      lo ≤ 0x80 + v / 0x40 % 0x40 ∧ 0x80 + v / 0x40 % 0x40 ≤ hi := by
  unfold begin
  rw [if_neg (by omega), if_neg (by omega)]
  split
  · rename_i hlead
    exact ⟨0xA0, 0xBF, by rw [show v / 0x1000 = 0 by omega], by omega, by omega⟩
  split
  · rename_i hne hlead
    exact ⟨0x80, 0x9F, by rw [show v / 0x1000 = 0xD by omega], by omega, by omega⟩
  · rw [if_pos (by omega)]
    exact ⟨0x80, 0xBF, by rw [show 0xE0 + v / 0x1000 - 0xE0 = v / 0x1000 by omega], by omega, by omega⟩

theorem begin_four {v : Nat} (hlo : 0x10000 ≤ v) (hhi : v < 0x110000) :
    ∃ lo hi, begin (0xF0 + v / 0x40000) = ([], .owing 3 (v / 0x40000) lo hi) ∧
      lo ≤ 0x80 + v / 0x1000 % 0x40 ∧ 0x80 + v / 0x1000 % 0x40 ≤ hi := by
  unfold begin
  rw [if_neg (by omega), if_neg (by omega), if_neg (by omega), if_neg (by omega), if_neg (by omega)]
  split
  · rename_i hlead
    exact ⟨0x90, 0xBF, by rw [show v / 0x40000 = 0 by omega], by omega, by omega⟩
  split
  · rename_i hne hlead
    exact ⟨0x80, 0x8F, by rw [show v / 0x40000 = 4 by omega], by omega, by omega⟩
  · rw [if_pos (by omega)]
    exact ⟨0x80, 0xBF, by rw [show 0xF0 + v / 0x40000 - 0xF0 = v / 0x40000 by omega], by omega, by omega⟩

theorem decodeFrom_encodeChar (c : Char) (bs : List UInt8) :
    decodeFrom .start (encodeChar c ++ bs) = c :: decodeFrom .start bs := by
  have hscalar := toNat_scalar c
  unfold encodeChar
  dsimp only
  split
  · rename_i h₁
    rw [List.cons_append, List.nil_append, decodeFrom_begin (by omega), begin, if_pos h₁, Char.ofNat_toNat]
    rfl
  split
  · rename_i h₁ h₂
    rw [List.cons_append, List.cons_append, List.nil_append, decodeFrom_begin (by omega), begin,
      if_neg (by omega), if_pos (by omega), List.nil_append,
      decodeFrom_owing_one (by omega) (by omega) (by omega),
      show (0xC0 + c.toNat / 0x40 - 0xC0) * 0x40 + (0x80 + c.toNat % 0x40 - 0x80) = c.toNat by omega,
      Char.ofNat_toNat]
  split
  · rename_i h₁ h₂ h₃
    obtain ⟨lo, hi, hbegin, hlo, hhi⟩ := @begin_three c.toNat (by omega) (by omega) (by omega)
    rw [List.cons_append, List.cons_append, List.cons_append, List.nil_append,
      decodeFrom_begin (by omega), hbegin, List.nil_append,
      decodeFrom_owing (by omega) hlo hhi (by decide),
      decodeFrom_owing_one (by omega) (by omega) (by omega),
      show (c.toNat / 0x1000 * 0x40 + (0x80 + c.toNat / 0x40 % 0x40 - 0x80)) * 0x40 +
        (0x80 + c.toNat % 0x40 - 0x80) = c.toNat by omega, Char.ofNat_toNat]
  · rename_i h₁ h₂ h₃
    obtain ⟨lo, hi, hbegin, hlo, hhi⟩ := @begin_four c.toNat (by omega) (by omega)
    rw [List.cons_append, List.cons_append, List.cons_append, List.cons_append, List.nil_append,
      decodeFrom_begin (by omega), hbegin, List.nil_append,
      decodeFrom_owing (by omega) hlo hhi (by decide),
      decodeFrom_owing (by omega) (by omega) (by omega) (by decide),
      decodeFrom_owing_one (by omega) (by omega) (by omega),
      show ((c.toNat / 0x40000 * 0x40 + (0x80 + c.toNat / 0x1000 % 0x40 - 0x80)) * 0x40 +
        (0x80 + c.toNat / 0x40 % 0x40 - 0x80)) * 0x40 + (0x80 + c.toNat % 0x40 - 0x80) = c.toNat by omega,
      Char.ofNat_toNat]

@[simp] theorem decodeLossy_encode (text : List Char) : decodeLossy (encode text) = text := by
  induction text with
  | nil => rfl
  | cons c text ih =>
      rw [decodeLossy, encode, List.flatMap_cons, decodeFrom_encodeChar]
      exact congrArg (c :: ·) ih

/-- Decoding without replacement: what is not the encoding of a text is refused. -/
def decode (bytes : List UInt8) : Option (List Char) :=
  if encode (decodeLossy bytes) = bytes then some (decodeLossy bytes) else none

@[simp] theorem decode_encode (text : List Char) : decode (encode text) = some text := by
  rw [decode, decodeLossy_encode, if_pos rfl]

theorem encode_append (left right : List Char) : encode (left ++ right) = encode left ++ encode right :=
  List.flatMap_append ..

theorem encode_injective {left right : List Char} (h : encode left = encode right) : left = right := by
  rw [← decodeLossy_encode left, h, decodeLossy_encode]

/-! ### Decoding piece by piece -/

def isContinuation (b : UInt8) : Bool := 0x80 ≤ b.toNat && b.toNat < 0xC0

/-- How many characters begin in the bytes. -/
def begun (bytes : List UInt8) : Nat := bytes.countP fun b => !isContinuation b

/-- A sequence that is under way has yet to give its character. -/
def State.pending : State → Nat
  | .start => 0
  | .owing _ _ _ _ => 1

/-- What is within the bounds of a sequence under way is a continuation byte. -/
def State.Bounded : State → Prop
  | .start => True
  | .owing _ _ lo hi => 0x80 ≤ lo ∧ hi < 0xC0

theorem bounded_owing {tails acc lo hi : Nat} (h : 0x80 ≤ lo ∧ hi < 0xC0) :
    (State.owing tails acc lo hi).Bounded := h

theorem begin_cases (b : Nat) :
    (b < 0x80 ∧ begin b = ([Char.ofNat b], .start)) ∨
      (0xC0 ≤ b ∧ (begin b).1 = [] ∧ (begin b).2.pending = 1 ∧ (begin b).2.Bounded) ∨
      (0x80 ≤ b ∧ begin b = ([replacement], .start)) := by
  unfold begin
  by_cases h₁ : b < 0x80
  · rw [if_pos h₁]
    exact .inl ⟨h₁, rfl⟩
  rw [if_neg h₁]
  by_cases hlead : 0xC2 ≤ b ∧ b ≤ 0xF4
  · right
    left
    refine ⟨by omega, ?_⟩
    split
    · exact ⟨rfl, rfl, bounded_owing (by decide)⟩
    split
    · exact ⟨rfl, rfl, bounded_owing (by decide)⟩
    split
    · exact ⟨rfl, rfl, bounded_owing (by decide)⟩
    split
    · exact ⟨rfl, rfl, bounded_owing (by decide)⟩
    split
    · exact ⟨rfl, rfl, bounded_owing (by decide)⟩
    split
    · exact ⟨rfl, rfl, bounded_owing (by decide)⟩
    · rw [if_pos (by omega)]
      exact ⟨rfl, rfl, bounded_owing (by decide)⟩
  · rw [if_neg (by omega), if_neg (by omega), if_neg (by omega), if_neg (by omega), if_neg (by omega),
      if_neg (by omega), if_neg (by omega)]
    exact .inr (.inr ⟨by omega, rfl⟩)

theorem begun_step {s : State} (hs : s.Bounded) (b : UInt8) :
    s.pending + begun [b] ≤ (step s b.toNat).1.length + (step s b.toNat).2.pending ∧
      (step s b.toNat).2.Bounded := by
  have hbegin : begun [b] ≤ (begin b.toNat).1.length + (begin b.toNat).2.pending ∧
      (begin b.toNat).2.Bounded := by
    have hone : begun [b] ≤ 1 := List.countP_le_length
    rcases begin_cases b.toNat with ⟨-, hb⟩ | ⟨-, hout, hpending, hbounded⟩ | ⟨-, hb⟩
    · rw [hb]
      exact ⟨hone, trivial⟩
    · rw [hout, hpending]
      exact ⟨by simpa using hone, hbounded⟩
    · rw [hb]
      exact ⟨hone, trivial⟩
  cases s with
  | start => simpa only [step, State.pending, Nat.zero_add] using hbegin
  | owing tails acc lo hi =>
      obtain ⟨hlo, hhi⟩ := hs
      rw [step]
      split
      · rename_i hwithin
        have hcont : begun [b] = 0 := by
          have hb : isContinuation b = true := by
            rw [isContinuation, Bool.and_eq_true, decide_eq_true_eq, decide_eq_true_eq]
            omega
          simp only [begun, List.countP_singleton, hb, Bool.not_true, Bool.false_eq_true, ↓reduceIte]
        split
        · exact ⟨by simp [hcont, State.pending], trivial⟩
        · exact ⟨by simp [hcont, State.pending], bounded_owing (by decide)⟩
      · obtain ⟨hle, hbounded⟩ := hbegin
        refine ⟨?_, hbounded⟩
        show 1 + begun [b] ≤ (begin b.toNat).1.length + 1 + (begin b.toNat).2.pending
        omega

/-- Decoding gives at least one character for each that begins in the bytes. -/
theorem begun_le_length_decodeFrom (bytes : List UInt8) {s : State} (hs : s.Bounded) :
    s.pending + begun bytes ≤ (decodeFrom s bytes).length := by
  induction bytes generalizing s with
  | nil => cases s <;> exact Nat.le_refl _
  | cons b bytes ih =>
      obtain ⟨hstep, hbounded⟩ := begun_step hs b
      have hrest := ih hbounded
      have hcons : begun (b :: bytes) = begun [b] + begun bytes := by
        rw [begun, begun, begun, ← List.countP_append]
        rfl
      rw [decodeFrom_cons, List.length_append, hcons]
      omega

/-- Bytes that open in the middle of a character give one more than begin in them. -/
theorem begun_lt_length_decodeLossy {b : UInt8} (hb : isContinuation b = true) (bytes : List UInt8) :
    begun (b :: bytes) < (decodeLossy (b :: bytes)).length := by
  have hrest := begun_le_length_decodeFrom bytes (s := .start) trivial
  have hbegin : begin b.toNat = ([replacement], .start) := by
    have hrange := hb
    rw [isContinuation, Bool.and_eq_true, decide_eq_true_eq, decide_eq_true_eq] at hrange
    rcases begin_cases b.toNat with ⟨hlt, -⟩ | ⟨hge, -⟩ | ⟨-, hbegin⟩
    · omega
    · omega
    · exact hbegin
  have hcount : begun (b :: bytes) = begun bytes := by
    simp only [begun, List.countP_cons, hb, Bool.not_true, Bool.false_eq_true, ↓reduceIte, Nat.add_zero]
  rw [decodeLossy, decodeFrom_cons, step, hbegin, hcount, List.length_append, List.length_singleton]
  simp only [State.pending] at hrest
  dsimp only
  omega

theorem isContinuation_ofNat {n : Nat} (hn : n < 256) :
    isContinuation (.ofNat n) = (decide (0x80 ≤ n) && decide (n < 0xC0)) := by
  rw [isContinuation, toNat_ofNat hn]

/-- A character is encoded as a byte that begins it and bytes that continue it. -/
theorem encodeChar_eq_cons (c : Char) :
    ∃ b bs, encodeChar c = b :: bs ∧ isContinuation b = false ∧ ∀ x ∈ bs, isContinuation x = true := by
  have hscalar := toNat_scalar c
  have htail : ∀ n, isContinuation (.ofNat (0x80 + n % 0x40)) = true := by
    intro n
    rw [isContinuation_ofNat (by omega), Bool.and_eq_true, decide_eq_true_eq, decide_eq_true_eq]
    omega
  have hlead : ∀ n, 0xC0 ≤ n → n < 256 → isContinuation (.ofNat n) = false := by
    intro n hge hlt
    rw [isContinuation_ofNat hlt, Bool.and_eq_false_iff, decide_eq_false_iff_not, decide_eq_false_iff_not]
    omega
  unfold encodeChar
  dsimp only
  split
  · refine ⟨_, _, rfl, ?_, by simp⟩
    rw [isContinuation_ofNat (by omega), Bool.and_eq_false_iff, decide_eq_false_iff_not]
    omega
  split
  · exact ⟨_, _, rfl, hlead _ (by omega) (by omega), fun x hx => List.mem_singleton.mp hx ▸ htail _⟩
  split
  · exact ⟨_, _, rfl, hlead _ (by omega) (by omega), by
      simp only [List.mem_cons, List.not_mem_nil, or_false, forall_eq_or_imp, forall_eq, htail, and_self]⟩
  · exact ⟨_, _, rfl, hlead _ (by omega) (by omega), by
      simp only [List.mem_cons, List.not_mem_nil, or_false, forall_eq_or_imp, forall_eq, htail, and_self]⟩

theorem encodeChar_ascii {c : Char} (h : c.toNat < 0x80) : encodeChar c = [.ofNat c.toNat] := by
  rw [encodeChar, if_pos h]

/-- A character that is not ASCII is encoded in several bytes, none of them ASCII. -/
theorem encodeChar_not_ascii {c : Char} (h : 0x80 ≤ c.toNat) :
    2 ≤ (encodeChar c).length ∧ ∀ b ∈ encodeChar c, 0x80 ≤ b.toNat := by
  have hscalar := toNat_scalar c
  have htail : ∀ n, 0x80 ≤ (UInt8.ofNat (0x80 + n % 0x40)).toNat := by
    intro n
    rw [toNat_ofNat (by omega)]
    omega
  have hlead : ∀ n, 0x80 ≤ n → n < 256 → 0x80 ≤ (UInt8.ofNat n).toNat := by
    intro n hge hlt
    rw [toNat_ofNat hlt]
    exact hge
  unfold encodeChar
  dsimp only
  rw [if_neg (by omega)]
  split
  · refine ⟨Nat.le_refl 2, ?_⟩
    simp only [List.mem_cons, List.not_mem_nil, or_false, forall_eq_or_imp, forall_eq, htail, and_true]
    exact hlead _ (by omega) (by omega)
  · split
    · refine ⟨(by decide : 2 ≤ 3), ?_⟩
      simp only [List.mem_cons, List.not_mem_nil, or_false, forall_eq_or_imp, forall_eq, htail, and_true]
      exact hlead _ (by omega) (by omega)
    · refine ⟨(by decide : 2 ≤ 4), ?_⟩
      simp only [List.mem_cons, List.not_mem_nil, or_false, forall_eq_or_imp, forall_eq, htail, and_true]
      exact hlead _ (by omega) (by omega)

/-- An ASCII byte encodes its own character and no other. -/
theorem toNat_of_mem_encodeChar {c : Char} {b : UInt8} (h : b ∈ encodeChar c) (hb : b.toNat < 0x80) :
    c.toNat = b.toNat := by
  by_cases hascii : c.toNat < 0x80
  · rw [encodeChar_ascii hascii] at h
    rw [List.mem_singleton.mp h, toNat_ofNat (by omega)]
  · have hge := (encodeChar_not_ascii (Nat.le_of_not_lt hascii)).2 b h
    omega

theorem begun_append (left right : List UInt8) : begun (left ++ right) = begun left + begun right :=
  List.countP_append

theorem begun_encode (text : List Char) : begun (encode text) = text.length := by
  induction text with
  | nil => rfl
  | cons c text ih =>
      obtain ⟨b, bs, hcons, hb, hbs⟩ := encodeChar_eq_cons c
      have hzero : begun bs = 0 := by
        rw [begun, List.countP_eq_zero]
        intro x hx
        simp only [hbs x hx, Bool.not_true, Bool.false_eq_true, not_false_eq_true]
      have hone : begun (b :: bs) = 1 := by
        rw [begun, List.countP_cons_of_pos (by rw [hb]; rfl)]
        exact congrArg (· + 1) hzero
      rw [encode, List.flatMap_cons, begun_append, hcons, hone, List.length_cons]
      have hrest : begun (text.flatMap encodeChar) = text.length := ih
      omega

/-- An encoded text falls apart into encoded texts where a character begins. -/
theorem encode_split {text : List Char} {left right : List UInt8} (h : left ++ right = encode text)
    (hright : ∀ b ∈ right.head?, isContinuation b = false) :
    ∃ before after, left = encode before ∧ right = encode after := by
  induction text generalizing left with
  | nil =>
      obtain ⟨rfl, rfl⟩ := List.append_eq_nil_iff.mp h
      exact ⟨[], [], rfl, rfl⟩
  | cons c text ih =>
      rcases List.append_eq_append_iff.mp (h.trans List.flatMap_cons) with
        ⟨mid, hchar, hrest⟩ | ⟨mid, hleft, hrest⟩
      · obtain ⟨b, bs, hcons, -, hbs⟩ := encodeChar_eq_cons c
        rw [hcons] at hchar
        cases left with
        | nil => exact ⟨[], c :: text, rfl, h⟩
        | cons b' left =>
            obtain ⟨rfl, htail⟩ := List.cons.inj hchar
            cases mid with
            | nil =>
                have hbs : bs = left := htail.trans (List.append_nil left)
                refine ⟨[c], text, ?_, hrest⟩
                rw [encode, List.flatMap_singleton, hcons, hbs]
            | cons x mid =>
                have hmem : x ∈ left ++ x :: mid := List.mem_append_right _ List.mem_cons_self
                have hx : isContinuation x = true := hbs x (htail ▸ hmem)
                rw [hright x (by rw [hrest]; rfl)] at hx
                cases hx
      · obtain ⟨before, after, hmid, hafter⟩ := ih hrest.symm
        refine ⟨c :: before, after, ?_, hafter⟩
        rw [hleft, hmid]
        rfl

theorem begun_flatten_le (pieces : List (List UInt8)) :
    begun pieces.flatten ≤ (pieces.flatMap decodeLossy).length := by
  induction pieces with
  | nil => exact Nat.le_refl _
  | cons piece pieces ih =>
      have hpiece := begun_le_length_decodeFrom piece (s := .start) trivial
      simp only [State.pending, Nat.zero_add] at hpiece
      rw [List.flatten_cons, begun_append, List.flatMap_cons, List.length_append, decodeLossy]
      omega

/-- Pieces that together decode to as many characters as begin in them all begin at one. -/
theorem head_of_length_le {pieces : List (List UInt8)}
    (h : (pieces.flatMap decodeLossy).length ≤ begun pieces.flatten) :
    ∀ piece ∈ pieces, ∀ b ∈ piece.head?, isContinuation b = false := by
  induction pieces with
  | nil => simp
  | cons piece pieces ih =>
      have hpiece := begun_le_length_decodeFrom piece (s := .start) trivial
      have hpieces := begun_flatten_le pieces
      simp only [State.pending, Nat.zero_add] at hpiece
      rw [List.flatten_cons, begun_append, List.flatMap_cons, List.length_append] at h
      intro other hother b hb
      rcases List.mem_cons.mp hother with rfl | hother
      · cases other with
        | nil => cases hb
        | cons b' bytes =>
            cases hb
            by_contra hcont
            have hlt := begun_lt_length_decodeLossy (Bool.of_not_eq_false hcont) bytes
            omega
      · rw [decodeLossy] at h
        exact ih (by omega) other hother b hb

/-- Decoding an encoded text piece by piece gives the text if and only if every piece is itself an
encoded text, that is, if no cut falls inside a character. -/
theorem decodeLossy_pieces_iff {text : List Char} {pieces : List (List UInt8)}
    (h : pieces.flatten = encode text) :
    pieces.flatMap decodeLossy = text ↔ ∀ piece ∈ pieces, ∃ t, piece = encode t := by
  constructor
  · intro hdecode
    have hheads : ∀ piece ∈ pieces, ∀ b ∈ piece.head?, isContinuation b = false :=
      head_of_length_le (Nat.le_of_eq (by rw [hdecode, h, begun_encode]))
    clear hdecode
    induction pieces generalizing text with
    | nil => simp
    | cons piece pieces ih =>
        have hright : ∀ b ∈ pieces.flatten.head?, isContinuation b = false := by
          intro b hb
          rw [List.head?_flatten] at hb
          obtain ⟨other, hother, hhead⟩ := List.exists_of_findSome?_eq_some hb
          exact hheads other (List.mem_cons_of_mem _ hother) b hhead
        obtain ⟨before, after, hpiece, hpieces⟩ := encode_split (List.flatten_cons.symm.trans h) hright
        intro other hother
        rcases List.mem_cons.mp hother with rfl | hother
        · exact ⟨before, hpiece⟩
        · exact ih hpieces (fun p hp => hheads p (List.mem_cons_of_mem _ hp)) other hother
  · intro hvalid
    have hencode : encode (pieces.flatMap decodeLossy) = pieces.flatten := by
      clear h
      induction pieces with
      | nil => rfl
      | cons piece pieces ih =>
          obtain ⟨t, ht⟩ := hvalid piece List.mem_cons_self
          rw [List.flatMap_cons, encode_append, ih fun p hp => hvalid p (List.mem_cons_of_mem _ hp), ht,
            decodeLossy_encode, List.flatten_cons]
    exact encode_injective (hencode.trans h)

/-! ### Prefixes of a text and of its bytes -/

theorem encodeChar_length (c : Char) : 0 < (encodeChar c).length ∧ (encodeChar c).length ≤ 4 := by
  unfold encodeChar
  dsimp only
  split
  · exact (by decide : 0 < 1 ∧ 1 ≤ 4)
  split
  · exact (by decide : 0 < 2 ∧ 2 ≤ 4)
  split
  · exact (by decide : 0 < 3 ∧ 3 ≤ 4)
  · exact (by decide : 0 < 4 ∧ 4 ≤ 4)

theorem encode_length_mono {left right : List Char} (h : left <+: right) :
    (encode left).length ≤ (encode right).length := by
  obtain ⟨rest, rfl⟩ := h
  rw [encode_append, List.length_append]
  exact Nat.le_add_right _ _

/-- Of two prefixes of a text the one with no more bytes is a prefix of the other. -/
theorem prefix_of_encode_length_le {text left right : List Char} (hleft : left <+: text) (hright : right <+: text)
    (hle : (encode left).length ≤ (encode right).length) : left <+: right := by
  rcases List.prefix_or_prefix_of_prefix hleft hright with h | ⟨rest, rfl⟩
  · exact h
  cases rest with
  | nil => exact ⟨[], by rw [List.append_nil, List.append_nil]⟩
  | cons c rest =>
      have hpos := (encodeChar_length c).1
      rw [encode_append, List.length_append, encode, encode, List.flatMap_cons, List.length_append] at hle
      omega

/-- Below every limit within a text some prefix ends, less than the bytes of one character away. -/
theorem exists_prefix_within {text : List Char} {limit : Nat} (h : limit < (encode text).length) :
    ∃ left, left <+: text ∧ (encode left).length ≤ limit ∧ limit < (encode left).length + 4 := by
  induction text generalizing limit with
  | nil => exact absurd h (Nat.not_lt_zero _)
  | cons c text ih =>
      have hchar := (encodeChar_length c).2
      have hcons : ∀ rest, (encode (c :: rest)).length = (encodeChar c).length + (encode rest).length := by
        intro rest
        rw [encode, List.flatMap_cons, List.length_append]
        rfl
      by_cases hfits : (encodeChar c).length ≤ limit
      · have hrest : limit - (encodeChar c).length < (encode text).length := by
          rw [hcons] at h
          omega
        obtain ⟨left, hprefix, hwithin, hclose⟩ := ih hrest
        refine ⟨c :: left, (List.prefix_cons_inj c).mpr hprefix, ?_, ?_⟩
        · rw [hcons]
          omega
        · rw [hcons]
          omega
      · refine ⟨[], List.nil_prefix, Nat.zero_le _, ?_⟩
        show limit < 0 + 4
        omega

/-- A character begins, or the text ends, where a prefix of the text ends. -/
theorem exists_prefix_length_iff {text : List Char} {index : Nat} :
    (∃ left, left <+: text ∧ (encode left).length = index) ↔
      index ≤ (encode text).length ∧ ∀ b ∈ (encode text)[index]?, isContinuation b = false := by
  constructor
  · rintro ⟨left, ⟨rest, rfl⟩, rfl⟩
    refine ⟨encode_length_mono (List.prefix_append _ _), ?_⟩
    rw [encode_append, List.getElem?_append_right (Nat.le_refl _), Nat.sub_self]
    cases rest with
    | nil => exact fun b hb => nomatch hb
    | cons c rest =>
        obtain ⟨b, bs, hcons, hb, -⟩ := encodeChar_eq_cons c
        rw [encode, List.flatMap_cons, hcons]
        intro x hx
        cases hx
        exact hb
  · rintro ⟨hle, hbegins⟩
    have hhead : ((encode text).drop index).head? = (encode text)[index]? := List.head?_drop
    obtain ⟨before, after, hbefore, hafter⟩ :=
      encode_split (List.take_append_drop index (encode text)) (by rw [hhead]; exact hbegins)
    refine ⟨before, ⟨after, encode_injective ?_⟩, ?_⟩
    · rw [encode_append, ← hbefore, ← hafter, List.take_append_drop]
    · rw [← hbefore, List.length_take, Nat.min_eq_left hle]

end Utf8
