import Mathlib.Data.List.Basic

/-!
# Go strings as bytes, and the `unicode/utf8` functions `ui.Live` relies on

A Go `string` is a sequence of bytes, not of characters: `len` counts bytes, slicing cuts
bytes, and only the `utf8` functions see runes. `Bytes` is that sequence. Decoding follows
`utf8.DecodeRuneInString` step by step (the `first` table, then the accept range of the
second byte, then continuation bytes); `runeCountInString`, `validString` and the
`strings.TrimSpace` model advance by the widths it reports.

The one law the rest of the development needs is `runeCountInString_append`: rune counts
add up across a cut placed in front of a byte that can start a rune. Every accept range lies
inside the continuation bytes, so a sequence left open at the end of the first part is
refused byte by byte whether or not the second part follows.
-/

namespace Bitcoinx.Go

/-- A Go `string`: its bytes, in order. -/
abbrev Bytes := List UInt8

/-- `utf8.RuneError`, U+FFFD. -/
def runeError : Nat := 0xFFFD

/-- `utf8.RuneStart`: the byte is not a continuation byte. -/
def runeStart (c : UInt8) : Bool := c < 0x80 || 0xBF < c

/-- `locb ≤ c ≤ hicb`. -/
def continuation (c : UInt8) : Bool := 0x80 ≤ c && c ≤ 0xBF

/-- Go's `first` table joined with `acceptRanges`: for a byte `c ≥ 0x80` that starts a
multi-byte sequence, its size and the range its second byte must lie in. -/
def first (c : UInt8) : Option (Nat × UInt8 × UInt8) :=
  if c < 0xC2 then none
  else if c ≤ 0xDF then some (2, 0x80, 0xBF)
  else if c = 0xE0 then some (3, 0xA0, 0xBF)
  else if c ≤ 0xEC then some (3, 0x80, 0xBF)
  else if c = 0xED then some (3, 0x80, 0x9F)
  else if c ≤ 0xEF then some (3, 0x80, 0xBF)
  else if c = 0xF0 then some (4, 0x90, 0xBF)
  else if c ≤ 0xF3 then some (4, 0x80, 0xBF)
  else if c = 0xF4 then some (4, 0x80, 0x8F)
  else none

/-- `utf8.DecodeRuneInString`: the first rune of `s` and its width; `(RuneError, 1)` for a
byte that starts no valid sequence. -/
def decodeRuneInString : Bytes → Nat × Nat
  | [] => (runeError, 0)
  | s0 :: t =>
    if s0 < 0x80 then (s0.toNat, 1) else
    match first s0 with
    | none => (runeError, 1)
    | some (sz, lo, hi) =>
      if t.length + 1 < sz then (runeError, 1) else
      let s1 := t.getD 0 0
      if s1 < lo || hi < s1 then (runeError, 1)
      else if sz = 2 then (s0.toNat % 0x20 * 0x40 + s1.toNat % 0x40, 2) else
      let s2 := t.getD 1 0
      if !continuation s2 then (runeError, 1)
      else if sz = 3 then
        (s0.toNat % 0x10 * 0x1000 + s1.toNat % 0x40 * 0x40 + s2.toNat % 0x40, 3) else
      let s3 := t.getD 2 0
      if !continuation s3 then (runeError, 1)
      else (s0.toNat % 0x08 * 0x40000 + s1.toNat % 0x40 * 0x1000 + s2.toNat % 0x40 * 0x40 +
        s3.toNat % 0x40, 4)

/-! ## Widths -/

/-- Every row of the table starts a sequence of two to four bytes whose second byte is a
continuation byte. -/
theorem first_spec {c : UInt8} {sz : Nat} {lo hi : UInt8} (h : first c = some (sz, lo, hi)) :
    (sz = 2 ∨ sz = 3 ∨ sz = 4) ∧ 0x80 ≤ lo ∧ hi ≤ 0xBF := by
  unfold first at h
  simp only [ite_eq_iff, reduceCtorEq, Option.some.injEq, Prod.mk.injEq, false_and, and_false,
    false_or, or_false] at h
  -- one alternative per row of the table
  rcases h with ⟨-, ⟨-, rfl, rfl, rfl⟩ | ⟨-, ⟨-, rfl, rfl, rfl⟩ |
    ⟨-, ⟨-, rfl, rfl, rfl⟩ | ⟨-, ⟨-, rfl, rfl, rfl⟩ | ⟨-, ⟨-, rfl, rfl, rfl⟩ |
    ⟨-, ⟨-, rfl, rfl, rfl⟩ | ⟨-, ⟨-, rfl, rfl, rfl⟩ | ⟨-, -, rfl, rfl, rfl⟩⟩⟩⟩⟩⟩⟩⟩ <;> decide

/-- A rune of a non-empty string is one byte wide at least and no wider than the string. -/
theorem decodeRuneInString_width (b : UInt8) (t : Bytes) :
    1 ≤ (decodeRuneInString (b :: t)).2 ∧ (decodeRuneInString (b :: t)).2 ≤ t.length + 1 := by
  by_cases hb : b < 0x80
  · simp [decodeRuneInString, hb]
  cases hf : first b with
  | none => simp [decodeRuneInString, hb, hf]
  | some v =>
    obtain ⟨sz, lo, hi⟩ := v
    obtain ⟨hsz, -, -⟩ := first_spec hf
    simp only [decodeRuneInString, hb, hf, if_false]
    by_cases short : t.length + 1 < sz
    · simp [short]
    simp only [short, if_false, apply_ite Prod.snd]
    -- the width is 1 or the size, whatever the three byte checks answer
    generalize (decide (t.getD 0 0 < lo) || decide (hi < t.getD 0 0)) = out,
      (!continuation (t.getD 1 0)) = bad2, (!continuation (t.getD 2 0)) = bad3
    rcases hsz with rfl | rfl | rfl <;> cases out <;> cases bad2 <;> cases bad3 <;> simp <;> omega

/-- Dropping the first rune shortens a string. -/
theorem drop_width_lt (b : UInt8) (t : Bytes) :
    ((b :: t).drop (decodeRuneInString (b :: t)).2).length < (b :: t).length := by
  have := (decodeRuneInString_width b t).1
  simp only [List.length_drop, List.length_cons]
  omega

/-- What follows a string does not change how its first rune decodes, when it starts with a
byte that can start a rune: a sequence the string leaves open fails its range check at that
byte, as it fails the length check without it. -/
theorem decodeRuneInString_append {b : UInt8} {t rest : Bytes}
    (start : ∀ c ∈ rest.head?, runeStart c) :
    decodeRuneInString (b :: t ++ rest) = decodeRuneInString (b :: t) := by
  by_cases hb : b < 0x80
  · simp [decodeRuneInString, hb]
  cases hf : first b with
  | none => simp [decodeRuneInString, hb, hf]
  | some v =>
    obtain ⟨sz, lo, hi⟩ := v
    obtain ⟨hsz, hlo, hhi⟩ := first_spec hf
    simp only [List.cons_append, decodeRuneInString, hb, hf, if_false]
    by_cases short : t.length + 1 < sz
    · rcases rest with _ | ⟨c, r⟩
      · simp
      have hc : c < 0x80 ∨ 0xBF < c := by simpa [runeStart] using start
      have out : (decide (c < lo) || decide (hi < c)) = true := by
        simp only [UInt8.lt_def, UInt8.le_def, Bool.or_eq_true, decide_eq_true_eq] at *
        bv_omega
      have tail : continuation c = false := by
        simp only [continuation, UInt8.lt_def, UInt8.le_def, Bool.and_eq_false_iff,
          decide_eq_false_iff_not] at *
        bv_omega
      simp only [short, if_true]
      -- the first byte the checks read past `t` is `c`
      rcases t with _ | ⟨s1, _ | ⟨s2, _ | ⟨s3, t⟩⟩⟩
      · simp [out]
      · have three : sz ≠ 2 := by simp at short; omega
        simp [tail, three]
      · obtain rfl : sz = 4 := by simp at short; omega
        simp [tail]
      · simp at short; omega
    · have long : ¬ t.length + rest.length + 1 < sz := by omega
      have early : ∀ i, i + 2 ≤ sz → (t ++ rest)[i]? = t[i]? := fun i hi =>
        List.getElem?_append_left (by omega)
      rcases hsz with rfl | rfl | rfl <;> simp [long, short, early]

/-! ## Counting runes -/

/-- `utf8.RuneCountInString`: the number of runes of `s`, each byte that starts no valid
sequence counting as one; the library's loop advances by the widths `DecodeRuneInString`
reports. -/
def runeCountInString (s : Bytes) : Nat :=
  match s with
  | [] => 0
  | b :: t => runeCountInString ((b :: t).drop (decodeRuneInString (b :: t)).2) + 1
termination_by s.length
decreasing_by exact drop_width_lt _ _

@[simp] theorem runeCountInString_nil : runeCountInString [] = 0 := by
  rw [runeCountInString]

theorem runeCountInString_cons (b : UInt8) (t : Bytes) :
    runeCountInString (b :: t) =
      runeCountInString ((b :: t).drop (decodeRuneInString (b :: t)).2) + 1 := by
  rw [runeCountInString]

/-- Rune counts add up across a cut in front of a byte that starts a rune. -/
theorem runeCountInString_append (a : Bytes) {rest : Bytes}
    (start : ∀ c ∈ rest.head?, runeStart c) :
    runeCountInString (a ++ rest) = runeCountInString a + runeCountInString rest := by
  induction a using runeCountInString.induct with
  | case1 => simp
  | case2 b t ih =>
    have width := (decodeRuneInString_width b t).2
    have step : runeCountInString (b :: t ++ rest) =
        runeCountInString ((b :: t).drop (decodeRuneInString (b :: t)).2 ++ rest) + 1 := by
      rw [List.cons_append, runeCountInString_cons, ← List.cons_append,
        decodeRuneInString_append start, List.drop_append_of_le_length (by simpa using width)]
    rw [step, ih, runeCountInString_cons b t]
    omega

theorem runeCountInString_le_length (s : Bytes) : runeCountInString s ≤ s.length := by
  induction s using runeCountInString.induct with
  | case1 => simp
  | case2 b t ih =>
    have := (decodeRuneInString_width b t).1
    rw [runeCountInString_cons]
    simp only [List.length_drop, List.length_cons] at ih ⊢
    omega

/-- `utf8.ValidString`: every rune of `s` is an ASCII byte or a complete multi-byte
sequence. -/
def validString (s : Bytes) : Bool :=
  match s with
  | [] => true
  | b :: t =>
    (b < 0x80 || 1 < (decodeRuneInString (b :: t)).2) &&
      validString ((b :: t).drop (decodeRuneInString (b :: t)).2)
termination_by s.length
decreasing_by exact drop_width_lt _ _

/-! ## `strings.TrimSpace` -/

/-- `unicode.IsSpace`: the Latin-1 spaces, then the `White_Space` table above Latin-1. -/
def isSpace (r : Nat) : Bool :=
  if r ≤ 0xFF then
    r = 0x09 || r = 0x0A || r = 0x0B || r = 0x0C || r = 0x0D || r = 0x20 || r = 0x85 || r = 0xA0
  else
    r = 0x1680 || (0x2000 ≤ r && r ≤ 0x200A) || r = 0x2028 || r = 0x2029 || r = 0x202F ||
      r = 0x205F || r = 0x3000

/-- `strings.TrimLeftFunc(s, unicode.IsSpace)`. -/
def trimLeftSpace (s : Bytes) : Bytes :=
  match s with
  | [] => []
  | b :: t =>
    if isSpace (decodeRuneInString (b :: t)).1 then
      trimLeftSpace ((b :: t).drop (decodeRuneInString (b :: t)).2)
    else b :: t
termination_by s.length
decreasing_by exact drop_width_lt _ _

/-- `strings.TrimRightFunc(s, unicode.IsSpace)`: `s` up to the end of its last rune that is
not white space. -/
def trimRightSpace (s : Bytes) : Bytes :=
  match s with
  | [] => []
  | b :: t =>
    let kept := trimRightSpace ((b :: t).drop (decodeRuneInString (b :: t)).2)
    if kept.isEmpty && isSpace (decodeRuneInString (b :: t)).1 then []
    else (b :: t).take (decodeRuneInString (b :: t)).2 ++ kept
termination_by s.length
decreasing_by exact drop_width_lt _ _

/-- `strings.TrimSpace`, which is `TrimRightFunc(TrimLeftFunc(s, f), f)`. -/
def trimSpace (s : Bytes) : Bytes := trimRightSpace (trimLeftSpace s)

end Bitcoinx.Go
