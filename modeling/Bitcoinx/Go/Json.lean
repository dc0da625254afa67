import Mathlib.Data.List.Basic

/-!
# encoding/json, as Announce writes a record and Peers reads it back

`json.Encoder.Encode` writes a value as text: strings quoted with `encodeState.string`, which
escapes quotes, backslashes, control characters, the HTML characters `<`, `>`, `&` and the line
separators U+2028 and U+2029; integers with `strconv.AppendInt`; slices and structs through
`sliceEncoder` and `structEncoder`. `json.Decoder.Decode` scans one value and unquotes its
strings. Text is a list of characters: a Go string that is valid UTF-8 is its list of runes.

The decoder is split as the scanner splits it: `unquoteStep` reads one character of a string
literal, `unquoteBody` runs it to the closing quote, and `parseValue` with its mutual helpers
reads values with a fuel bound on their nesting and length. Each encoder has a round-trip lemma:
`unquoteBody_encode`, `parseInt_formatInt`, `parseValue_encodeString`,
`parseValue_encodeStrings` and the member lemmas `parseMembers_next` and `parseMembers_last`.
-/

namespace Bitcoinx.Go.Json

/-! ## Values -/

/-- A JSON value as the scanner delimits it; a number keeps its literal text. -/
inductive JValue where
  | null
  | bool (b : Bool)
  | number (literal : List Char)
  | string (s : List Char)
  | array (elems : List JValue)
  | object (members : List (List Char × JValue))
  deriving Repr

/-- The kind of a JSON value, as a type error names it. -/
def JValue.kind : JValue → String
  | .null => "null"
  | .bool _ => "bool"
  | .number _ => "number"
  | .string _ => "string"
  | .array _ => "array"
  | .object _ => "object"

/-! ## Encoding -/

/-- `hex[d]` of `encoding/json`: a lower-case hexadecimal digit. -/
def hexDigit (d : Nat) : Char := "0123456789abcdef".toList.getD d '0'

/-- `htmlSafeSet`: the ASCII characters `encodeState.string` copies as they are when it
escapes HTML, which `json.Encoder` does by default. -/
def htmlSafe (c : Char) : Bool :=
  0x20 ≤ c.val && c != '"' && c != '\\' && c != '<' && c != '>' && c != '&'

/-- What `encodeState.string` writes for one character of a valid UTF-8 string. -/
def encodeChar (c : Char) : List Char :=
  if c.val < 0x80 then
    if htmlSafe c then [c]
    else if c = '\\' then ['\\', '\\']
    else if c = '"' then ['\\', '"']
    else if c = '\n' then ['\\', 'n']
    else if c = '\r' then ['\\', 'r']
    else if c = '\t' then ['\\', 't']
    else ['\\', 'u', '0', '0', hexDigit (c.val.toNat / 16), hexDigit (c.val.toNat % 16)]
  else if c.val = 0x2028 || c.val = 0x2029 then
    ['\\', 'u', '2', '0', '2', hexDigit (c.val.toNat % 16)]
  else [c]

/-- `encodeState.string`: the quoted, escaped string. -/
def encodeString (s : List Char) : List Char := '"' :: s.flatMap encodeChar ++ ['"']

/-- The elements of an array or the members of an object, separated by commas. -/
def commaSeparated : List (List Char) → List Char
  | [] => []
  | [e] => e
  | e :: es => e ++ ',' :: commaSeparated es

/-- `sliceEncoder` of a non-nil slice, given its elements' encodings. -/
def encodeArray (elems : List (List Char)) : List Char := '[' :: commaSeparated elems ++ [']']

/-- `structEncoder`, given each field's name and the encoding of its value. -/
def encodeObject (fields : List (String × List Char)) : List Char :=
  '{' :: commaSeparated (fields.map fun (name, value) => encodeString name.toList ++ ':' :: value) ++
    ['}']

/-- `strconv.AppendInt(_, i, 10)` for the digits of a natural number. -/
def decimal (n : Nat) : List Char :=
  if n < 10 then [Char.ofNat (48 + n)] else decimal (n / 10) ++ [Char.ofNat (48 + n % 10)]
termination_by n
decreasing_by omega

/-- `strconv.AppendInt(_, i, 10)`. -/
def formatInt (i : Int) : List Char := (if i < 0 then ['-'] else []) ++ decimal i.natAbs

/-! ## Scanning -/

/-- `isSpace` of the scanner. -/
def isSpace (c : Char) : Bool := c = ' ' || c = '\t' || c = '\r' || c = '\n'

/-- The input from its first character that is not white space. -/
def skipSpace : List Char → List Char
  | [] => []
  | c :: cs => if isSpace c then skipSpace cs else c :: cs

/-- The value of a hexadecimal digit. -/
def hexValue (c : Char) : Option Nat :=
  if '0' ≤ c ∧ c ≤ '9' then some (c.toNat - 48)
  else if 'a' ≤ c ∧ c ≤ 'f' then some (c.toNat - 87)
  else if 'A' ≤ c ∧ c ≤ 'F' then some (c.toNat - 55)
  else none

/-- `getu4`: the value of four hexadecimal digits. -/
def hex4 (a b c d : Char) : Option Nat := do
  return (((← hexValue a) * 16 + (← hexValue b)) * 16 + (← hexValue c)) * 16 + (← hexValue d)

/-- The character a one-letter escape stands for. -/
def escapeValue (c : Char) : Option Char :=
  if c = '"' then some '"' else if c = '\\' then some '\\' else if c = '/' then some '/'
  else if c = 'b' then some '\x08' else if c = 'f' then some '\x0c'
  else if c = 'n' then some '\n' else if c = 'r' then some '\r' else if c = 't' then some '\t'
  else none

/-- `utf16.DecodeRune` of a surrogate pair. -/
def decodeSurrogates (r1 r2 : Nat) : Option Nat :=
  if 0xD800 ≤ r1 ∧ r1 < 0xDC00 ∧ 0xDC00 ≤ r2 ∧ r2 < 0xE000 then
    some ((r1 - 0xD800) * 0x400 + (r2 - 0xDC00) + 0x10000)
  else none

/-- `unicode.ReplacementChar`, U+FFFD. -/
def replacementChar : Char := Char.ofNat 0xFFFD

/-- Prepend a character to the decoded part of a result. -/
def consDecoded (c : Char) (r : Except String (List Char × List Char)) :
    Except String (List Char × List Char) :=
  r.map fun (s, rest) => (c :: s, rest)

/-- What one step of unquoting finds at the head of a string literal's body. -/
inductive Unquoted where
  /-- The closing quote, and what follows it. -/
  | close (rest : List Char)
  /-- One decoded character, and the rest of the body. -/
  | char (c : Char) (rest : List Char)

/-- One step of `unquoteBytes`: a plain character, a one-letter escape, or a `\uXXXX` escape
that joins a following `\uXXXX` into a surrogate pair and leaves a lone surrogate as
U+FFFD; a control character or an unknown escape is a syntax error of the scanner. -/
def unquoteStep : List Char → Except String Unquoted
  | [] => .error "unexpected end of JSON input"
  | c :: rest =>
    if c = '"' then .ok (.close rest)
    else if c = '\\' then
      match rest with
      | [] => .error "unexpected end of JSON input"
      | e :: rest =>
        if e = 'u' then
          match rest with
          | h1 :: h2 :: h3 :: h4 :: rest =>
            match hex4 h1 h2 h3 h4 with
            | none => .error "invalid character in \\u hexadecimal character escape"
            | some r =>
              if 0xD800 ≤ r ∧ r < 0xE000 then
                match rest with
                | b :: u :: l1 :: l2 :: l3 :: l4 :: after =>
                  if b = '\\' ∧ u = 'u' then
                    match (hex4 l1 l2 l3 l4).bind (decodeSurrogates r) with
                    | some dec => .ok (.char (Char.ofNat dec) after)
                    | none => .ok (.char replacementChar rest)
                  else .ok (.char replacementChar rest)
                | _ => .ok (.char replacementChar rest)
              else .ok (.char (Char.ofNat r) rest)
          | _ => .error "invalid character in \\u hexadecimal character escape"
        else
          match escapeValue e with
          | some v => .ok (.char v rest)
          | none => .error "invalid character in string escape code"
    else if c.val < 0x20 then .error "invalid character in string literal"
    else .ok (.char c rest)

/-- What `unquoteStep` can return on `cs`: the closing quote at its head, a character and a
shorter body, or a syntax error, never the depth error of the value parser. -/
def UnquoteStepSpec (cs : List Char) : Except String Unquoted → Prop
  | .ok (.close rest) => cs = '"' :: rest
  | .ok (.char _ rest) => rest.length < cs.length
  | .error e => e ≠ "exceeded max depth"

theorem unquoteStep_spec (cs : List Char) : UnquoteStepSpec cs (unquoteStep cs) := by
  unfold unquoteStep
  repeat' first | split | split_ifs
  all_goals simp only [UnquoteStepSpec, List.length_cons]
  all_goals first
    | (subst_vars; rfl)
    | decide
    | omega

theorem unquoteStep_shorter {cs rest : List Char} {c : Char}
    (h : unquoteStep cs = .ok (.char c rest)) : rest.length < cs.length := by
  simpa only [h, UnquoteStepSpec] using unquoteStep_spec cs

/-- The body of a string literal up to its closing quote, unquoted as `unquoteBytes` does,
and what follows the quote. -/
def unquoteBody (cs : List Char) : Except String (List Char × List Char) :=
  match h : unquoteStep cs with
  | .error e => .error e
  | .ok (.close rest) => .ok ([], rest)
  | .ok (.char c rest) =>
    have := unquoteStep_shorter h
    consDecoded c (unquoteBody rest)
termination_by cs.length

/-- The digits at the head of `cs`, and what follows them. -/
def spanDigits : List Char → List Char × List Char
  | [] => ([], [])
  | c :: cs =>
    if c.isDigit then
      let (ds, rest) := spanDigits cs
      (c :: ds, rest)
    else ([], c :: cs)

/-- A sign character at the head of `cs`, if it is one of `signs`. -/
def takeSign (signs : List Char) : List Char → List Char × List Char
  | c :: rest => if c ∈ signs then ([c], rest) else ([], c :: rest)
  | [] => ([], [])

/-- The integer part of a number: `0`, or a non-zero digit and the digits after it. -/
def scanInt : List Char → Except String (List Char × List Char)
  | c :: cs =>
    if c = '0' then .ok (['0'], cs)
    else if c.isDigit then .ok (c :: (spanDigits cs).1, (spanDigits cs).2)
    else .error "invalid character looking for beginning of value"
  | [] => .error "unexpected end of JSON input"

/-- An optional fraction: `.` and one digit or more. -/
def scanFrac : List Char → Except String (List Char × List Char)
  | c :: cs =>
    if c = '.' then
      if (spanDigits cs).1.isEmpty then
        .error "invalid character after decimal point in numeric literal"
      else .ok ('.' :: (spanDigits cs).1, (spanDigits cs).2)
    else .ok ([], c :: cs)
  | [] => .ok ([], [])

/-- An optional exponent: `e` or `E`, an optional sign, and one digit or more. -/
def scanExp : List Char → Except String (List Char × List Char)
  | e :: cs =>
    if e = 'e' || e = 'E' then
      let (sign, cs) := takeSign ['+', '-'] cs
      if (spanDigits cs).1.isEmpty then
        .error "invalid character in exponent of numeric literal"
      else .ok (e :: sign ++ (spanDigits cs).1, (spanDigits cs).2)
    else .ok ([], e :: cs)
  | [] => .ok ([], [])

/-- The scanner's number states: an optional `-`, the integer part, an optional fraction and
an optional exponent. The literal, and what follows it. -/
def scanNumber (cs : List Char) : Except String (List Char × List Char) := do
  let (sign, cs) := takeSign ['-'] cs
  let (int, cs) ← scanInt cs
  let (frac, cs) ← scanFrac cs
  let (exp, cs) ← scanExp cs
  return (sign ++ int ++ frac ++ exp, cs)

/-! ## Parsing -/

/-- The rest of a literal `true`, `false` or `null` after its first letter. -/
def expectLiteral (word rest : List Char) : Except String (List Char) :=
  if word.isPrefixOf rest then .ok (rest.drop word.length)
  else .error "invalid character in literal"

mutual

/-- One JSON value after optional white space, and what follows it. `fuel` bounds the
nesting and the number of elements; the decoder passes the input's length. -/
def parseValue : Nat → List Char → Except String (JValue × List Char)
  | 0, _ => .error "exceeded max depth"
  | fuel + 1, cs =>
    match skipSpace cs with
    | [] => .error "unexpected end of JSON input"
    | c :: rest =>
      if c = '{' then parseObject fuel rest
      else if c = '[' then parseArray fuel rest
      else if c = '"' then (unquoteBody rest).map fun (s, r) => (.string s, r)
      else if c = 't' then (expectLiteral ['r', 'u', 'e'] rest).map (.bool true, ·)
      else if c = 'f' then (expectLiteral ['a', 'l', 's', 'e'] rest).map (.bool false, ·)
      else if c = 'n' then (expectLiteral ['u', 'l', 'l'] rest).map (.null, ·)
      else (scanNumber (c :: rest)).map fun (lit, r) => (.number lit, r)

/-- The elements of an array after its `[`. -/
def parseArray : Nat → List Char → Except String (JValue × List Char)
  | 0, _ => .error "exceeded max depth"
  | fuel + 1, cs =>
    match skipSpace cs with
    | c :: rest => if c = ']' then .ok (.array [], rest) else parseElements fuel [] cs
    | [] => .error "unexpected end of JSON input"

/-- Elements from the next one on, after those already read. -/
def parseElements : Nat → List JValue → List Char → Except String (JValue × List Char)
  | 0, _, _ => .error "exceeded max depth"
  | fuel + 1, acc, cs => do
    let (v, rest) ← parseValue fuel cs
    match skipSpace rest with
    | c :: rest =>
      if c = ',' then parseElements fuel (acc ++ [v]) rest
      else if c = ']' then .ok (.array (acc ++ [v]), rest)
      else .error "invalid character after array element"
    | [] => .error "unexpected end of JSON input"

/-- The members of an object after its `{`. -/
def parseObject : Nat → List Char → Except String (JValue × List Char)
  | 0, _ => .error "exceeded max depth"
  | fuel + 1, cs =>
    match skipSpace cs with
    | c :: rest => if c = '}' then .ok (.object [], rest) else parseMembers fuel [] cs
    | [] => .error "unexpected end of JSON input"

/-- Members from the next one on, after those already read. -/
def parseMembers : Nat → List (List Char × JValue) → List Char →
    Except String (JValue × List Char)
  | 0, _, _ => .error "exceeded max depth"
  | fuel + 1, acc, cs =>
    match skipSpace cs with
    | c :: rest =>
      if c = '"' then do
        let (key, rest) ← unquoteBody rest
        match skipSpace rest with
        | c :: rest =>
          if c = ':' then do
            let (v, rest) ← parseValue fuel rest
            match skipSpace rest with
            | c :: rest =>
              if c = ',' then parseMembers fuel (acc ++ [(key, v)]) rest
              else if c = '}' then .ok (.object (acc ++ [(key, v)]), rest)
              else .error "invalid character after object key:value pair"
            | [] => .error "unexpected end of JSON input"
          else .error "invalid character after object key"
        | [] => .error "unexpected end of JSON input"
      else .error "invalid character looking for beginning of object key string"
    | [] => .error "unexpected end of JSON input"

end

/-! ## Strings round trip -/

theorem hexValue_hexDigit : ∀ d, d < 16 → hexValue (hexDigit d) = some d := by decide

theorem hex4_escape {v : Nat} (h : v < 0x100) :
    hex4 '0' '0' (hexDigit (v / 16)) (hexDigit (v % 16)) = some v := by
  have zero : hexValue '0' = some 0 := rfl
  simp only [hex4, zero, hexValue_hexDigit _ (show v / 16 < 16 by omega),
    hexValue_hexDigit _ (show v % 16 < 16 by omega)]
  simp only [Option.pure_def, Option.bind_eq_bind, Option.some_bind, Option.some.injEq]
  omega

theorem unquoteBody_char {cs rest : List Char} {c : Char}
    (step : unquoteStep cs = .ok (.char c rest)) :
    unquoteBody cs = consDecoded c (unquoteBody rest) := by
  rw [unquoteBody]
  split <;> simp_all

theorem unquoteBody_close {cs rest : List Char} (step : unquoteStep cs = .ok (.close rest)) :
    unquoteBody cs = .ok ([], rest) := by
  rw [unquoteBody]
  split <;> simp_all

theorem unquoteBody_error {cs : List Char} {e : String} (step : unquoteStep cs = .error e) :
    unquoteBody cs = .error e := by
  rw [unquoteBody]
  split <;> simp_all

/-- A character other than a quote, a backslash or a control character stands for itself. -/
theorem unquoteStep_plain {c : Char} (rest : List Char) (quote : c ≠ '"') (backslash : c ≠ '\\')
    (printable : ¬ c.val < 0x20) : unquoteStep (c :: rest) = .ok (.char c rest) := by
  simp [unquoteStep, quote, backslash, printable]

/-- A `\uXXXX` escape of a value below the surrogates stands for that character. -/
theorem unquoteStep_hex {a b c d : Char} {r : Nat} (rest : List Char)
    (value : hex4 a b c d = some r) (single : ¬ 0xD800 ≤ r) :
    unquoteStep ('\\' :: 'u' :: a :: b :: c :: d :: rest) = .ok (.char (Char.ofNat r) rest) := by
  simp [unquoteStep, value, single]

/-- One step of unquoting reads back what `encodeState.string` wrote for one character. -/
theorem unquoteStep_encodeChar (c : Char) (rest : List Char) :
    unquoteStep (encodeChar c ++ rest) = .ok (.char c rest) := by
  -- the five characters with a one-letter escape
  by_cases short : c = '\\' ∨ c = '"' ∨ c = '\n' ∨ c = '\r' ∨ c = '\t'
  · rcases short with rfl | rfl | rfl | rfl | rfl <;> rfl
  simp only [not_or] at short
  obtain ⟨backslash, quote, newline, cr, tab⟩ := short
  have back : Char.ofNat c.val.toNat = c := Char.ofNat_toNat c
  unfold encodeChar
  simp only [backslash, quote, newline, cr, tab, if_false]
  split_ifs with ascii safe sep
  · simp only [htmlSafe, Bool.and_eq_true, decide_eq_true_eq, bne_iff_ne, ne_eq] at safe
    exact unquoteStep_plain rest quote backslash (UInt32.not_lt.mpr safe.1.1.1.1.1)
  · have small : c.val.toNat < 0x80 := ascii
    have escaped := unquoteStep_hex rest (hex4_escape (show c.val.toNat < 0x100 by omega))
      (by omega)
    rwa [back] at escaped
  · have sepVal : c.val.toNat = 0x2028 ∨ c.val.toNat = 0x2029 := by
      simp only [Bool.or_eq_true, decide_eq_true_eq] at sep
      rcases sep with h | h
      · exact .inl (by rw [h]; rfl)
      · exact .inr (by rw [h]; rfl)
    have value : hex4 '2' '0' '2' (hexDigit (c.val.toNat % 16)) = some c.val.toNat := by
      rcases sepVal with h | h <;> rw [h] <;> rfl
    have escaped := unquoteStep_hex rest value (by omega)
    rwa [back] at escaped
  · exact unquoteStep_plain rest quote backslash fun h => ascii (Nat.lt_trans h (by decide))

/-- The body of an encoded string unquotes back to the string, up to the closing quote. -/
theorem unquoteBody_encode (s rest : List Char) :
    unquoteBody (s.flatMap encodeChar ++ '"' :: rest) = .ok (s, rest) := by
  induction s with
  | nil => exact unquoteBody_close rfl
  | cons c s ih =>
    rw [List.flatMap_cons, List.append_assoc,
      unquoteBody_char (unquoteStep_encodeChar c _), ih]
    rfl

/-! ## Integers round trip -/

theorem digit_toNat : ∀ d, d < 10 → (Char.ofNat (48 + d)).toNat = 48 + d := by decide

theorem digit_isDigit : ∀ d, d < 10 → (Char.ofNat (48 + d)).isDigit = true := by decide

theorem decimal_isDigit (n : Nat) : ∀ c ∈ decimal n, c.isDigit = true := by
  induction n using decimal.induct with
  | case1 n small =>
    rw [decimal, if_pos small]
    simpa using digit_isDigit n small
  | case2 n big ih =>
    rw [decimal, if_neg big]
    intro c mem
    rcases List.mem_append.mp mem with old | last
    · exact ih c old
    · rw [List.mem_singleton.mp last]; exact digit_isDigit _ (Nat.mod_lt n (by omega))

/-- `strconv.ParseInt(s, 10, 64)`: an optional sign, then decimal digits whose value lies
in the range of `int64`, from `-2^63` to `2^63 - 1`. -/
def parseInt (s : List Char) : Except String Int :=
  let (sign, digits) := takeSign ['+', '-'] s
  if digits.isEmpty || !digits.all Char.isDigit then .error "invalid syntax" else
  let n : Nat := digits.foldl (fun acc d => acc * 10 + (d.toNat - 48)) 0
  let v : Int := if sign = ['-'] then -n else n
  if v < -9223372036854775808 || 9223372036854775808 ≤ v then .error "value out of range"
  else .ok v

theorem foldl_decimal (n : Nat) :
    (decimal n).foldl (fun acc d => acc * 10 + (d.toNat - 48)) 0 = n := by
  induction n using decimal.induct with
  | case1 n small =>
    rw [decimal, if_pos small]
    simp [digit_toNat n small]
  | case2 n big ih =>
    rw [decimal, if_neg big, List.foldl_append, ih]
    simp [digit_toNat _ (Nat.mod_lt n (by omega))]
    omega

theorem decimal_eq_cons (n : Nat) :
    ∃ c tail, decimal n = c :: tail ∧ (c = '0' → n = 0 ∧ tail = []) := by
  induction n using decimal.induct with
  | case1 n small =>
    refine ⟨_, [], by rw [decimal, if_pos small], fun zero => ⟨?_, rfl⟩⟩
    revert zero
    revert n
    decide
  | case2 n big ih =>
    obtain ⟨c, tail, eq, zero⟩ := ih
    refine ⟨c, tail ++ [Char.ofNat (48 + n % 10)], by rw [decimal, if_neg big, eq]; rfl,
      fun h => absurd (zero h).1 (by omega)⟩

/-- The scanner takes the digits at the head and stops at the first other character. -/
theorem spanDigits_append {ds rest : List Char} (digits : ∀ c ∈ ds, c.isDigit = true)
    (stop : ∀ c ∈ rest.head?, c.isDigit = false) : spanDigits (ds ++ rest) = (ds, rest) := by
  induction ds with
  | nil =>
    cases rest with
    | nil => rfl
    | cons c rest => simp [spanDigits, stop c rfl]
  | cons d ds ih =>
    simp [spanDigits, digits d (by simp), ih (fun c mem => digits c (by simp [mem]))]

/-- What may follow a number literal without joining it. -/
def NumberEnd (rest : List Char) : Prop :=
  ∀ c ∈ rest.head?, c.isDigit = false ∧ c ≠ '.' ∧ c ≠ 'e' ∧ c ≠ 'E'

theorem scanInt_decimal (n : Nat) {rest : List Char}
    (stop : ∀ c ∈ rest.head?, c.isDigit = false) :
    scanInt (decimal n ++ rest) = .ok (decimal n, rest) := by
  obtain ⟨c, tail, eq, zero⟩ := decimal_eq_cons n
  have digits := decimal_isDigit n
  rw [eq] at digits ⊢
  have tailDigits : ∀ d ∈ tail, d.isDigit = true := fun d mem => digits d (by simp [mem])
  by_cases c0 : c = '0'
  · obtain ⟨-, rfl⟩ := zero c0
    simp [scanInt, c0]
  · simp [scanInt, c0, digits c (by simp), spanDigits_append tailDigits stop]

theorem scanFrac_end {rest : List Char} (stop : NumberEnd rest) :
    scanFrac rest = .ok ([], rest) := by
  cases rest with
  | nil => rfl
  | cons c cs => simp [scanFrac, (stop c rfl).2.1]

theorem scanExp_end {rest : List Char} (stop : NumberEnd rest) :
    scanExp rest = .ok ([], rest) := by
  cases rest with
  | nil => rfl
  | cons c cs => simp [scanExp, (stop c rfl).2.2.1, (stop c rfl).2.2.2]

/-- The scanner reads back the whole literal `strconv.AppendInt` writes. -/
theorem scanNumber_formatInt (i : Int) {rest : List Char} (stop : NumberEnd rest) :
    scanNumber (formatInt i ++ rest) = .ok (formatInt i, rest) := by
  obtain ⟨c, tail, eq, -⟩ := decimal_eq_cons i.natAbs
  have notMinus : c ≠ '-' := by
    rintro rfl
    exact absurd (decimal_isDigit i.natAbs '-' (by simp [eq])) (by decide)
  have int : scanInt (decimal i.natAbs ++ rest) = .ok (decimal i.natAbs, rest) :=
    scanInt_decimal i.natAbs fun c mem => (stop c mem).1
  unfold scanNumber formatInt
  split_ifs
  · simp [takeSign, int, scanFrac_end stop, scanExp_end stop, bind, Except.bind, pure,
      Except.pure]
  · rw [eq, List.cons_append] at int
    rw [eq]
    simp [takeSign, notMinus, int, scanFrac_end stop, scanExp_end stop, bind, Except.bind, pure,
      Except.pure]

/-- `strconv.ParseInt` reads back every 64-bit integer `strconv.AppendInt` writes. -/
theorem parseInt_formatInt {i : Int} (low : -9223372036854775808 ≤ i)
    (high : i < 9223372036854775808) :
    parseInt (formatInt i) = .ok i := by
  obtain ⟨c, tail, eq, -⟩ := decimal_eq_cons i.natAbs
  have digits := decimal_isDigit i.natAbs
  have notSign : c ∉ ['+', '-'] := by
    rintro mem
    have := digits c (by simp [eq])
    simp only [List.mem_cons, List.mem_singleton, List.not_mem_nil, or_false] at mem
    rcases mem with rfl | rfl <;> exact absurd this (by decide)
  have allDigits : (decimal i.natAbs).all Char.isDigit = true := List.all_eq_true.mpr digits
  have nonEmpty : (decimal i.natAbs).isEmpty = false := by rw [eq]; rfl
  have sign : takeSign ['+', '-'] (formatInt i) =
      (if i < 0 then ['-'] else [], decimal i.natAbs) := by
    unfold formatInt
    split_ifs
    · rfl
    · rw [List.nil_append, eq]
      simp only [takeSign, if_neg notSign]
  unfold parseInt
  rw [sign]
  dsimp only
  rw [nonEmpty, allDigits, foldl_decimal]
  rw [if_neg (by decide)]
  by_cases neg : i < 0
  · rw [if_pos neg, if_pos rfl, if_neg (by simp only [Bool.or_eq_true, decide_eq_true_eq]; omega)]
    congr 1
    omega
  · rw [if_neg neg, if_neg (List.cons_ne_nil _ _).symm,
      if_neg (by simp only [Bool.or_eq_true, decide_eq_true_eq]; omega)]
    congr 1
    omega

/-! ## Values round trip -/

theorem isSpace_of_isDigit {c : Char} (digit : c.isDigit = true) : isSpace c = false := by
  cases space : isSpace c
  · rfl
  · simp only [isSpace, Bool.or_eq_true, decide_eq_true_eq] at space
    rcases space with ((rfl | rfl) | rfl) | rfl <;> exact absurd digit (by decide)

theorem skipSpace_of_not_space {c : Char} {cs : List Char} (notSpace : isSpace c = false) :
    skipSpace (c :: cs) = c :: cs := by
  simp [skipSpace, notSpace]

/-- `parseValue` reads back an encoded string. -/
theorem parseValue_encodeString (fuel : Nat) (s rest : List Char) :
    parseValue (fuel + 1) (encodeString s ++ rest) = .ok (.string s, rest) := by
  simp only [encodeString, List.cons_append, List.append_assoc, List.singleton_append]
  rw [parseValue, skipSpace_of_not_space (c := '"') rfl]
  simp [unquoteBody_encode, Except.map]

/-- `parseValue` reads back a `null`. -/
theorem parseValue_null (fuel : Nat) (rest : List Char) :
    parseValue (fuel + 1) ('n' :: 'u' :: 'l' :: 'l' :: rest) = .ok (.null, rest) := by
  rw [parseValue, skipSpace_of_not_space (c := 'n') rfl]
  simp [expectLiteral, Except.map]

/-- `parseValue` reads back the literal of an integer, up to the first character that cannot
continue it. -/
theorem parseValue_formatInt (fuel : Nat) (i : Int) {rest : List Char} (stop : NumberEnd rest) :
    parseValue (fuel + 1) (formatInt i ++ rest) = .ok (.number (formatInt i), rest) := by
  have scan := scanNumber_formatInt i stop
  obtain ⟨c, tail, eq, -⟩ := decimal_eq_cons i.natAbs
  have digit := decimal_isDigit i.natAbs c (by simp [eq])
  unfold formatInt at scan ⊢
  split_ifs at scan ⊢
  · simp only [List.singleton_append, List.cons_append, List.nil_append] at scan ⊢
    rw [parseValue, skipSpace_of_not_space (c := '-') rfl]
    simp [scan, Except.map]
  · rw [List.nil_append, eq, List.cons_append] at scan ⊢
    have notStart :
        c ≠ '{' ∧ c ≠ '[' ∧ c ≠ '"' ∧ c ≠ 't' ∧ c ≠ 'f' ∧ c ≠ 'n' := by
      refine ⟨?_, ?_, ?_, ?_, ?_, ?_⟩ <;> rintro rfl <;> exact absurd digit (by decide)
    rw [parseValue, skipSpace_of_not_space (isSpace_of_isDigit digit)]
    simp [notStart, scan, Except.map]

theorem numberEnd_cons {c : Char} {rest : List Char}
    (stop : c.isDigit = false ∧ c ≠ '.' ∧ c ≠ 'e' ∧ c ≠ 'E') :
    NumberEnd (c :: rest) := by
  intro d mem
  cases mem
  exact stop

/-- The elements of a non-empty array of encoded strings read back, one unit of fuel each. -/
theorem parseElements_encodeStrings (fuel : Nat) (acc : List JValue) (s : List Char)
    (ss : List (List Char)) (rest : List Char) :
    parseElements (fuel + ss.length + 2) acc
        (commaSeparated ((s :: ss).map encodeString) ++ ']' :: rest) =
      .ok (.array (acc ++ (s :: ss).map .string), rest) := by
  induction ss generalizing s acc with
  | nil =>
    rw [parseElements]
    simp [commaSeparated, parseValue_encodeString, skipSpace_of_not_space (c := ']') rfl, bind,
      Except.bind]
  | cons t ts ih =>
    rw [show fuel + (t :: ts).length + 2 = fuel + ts.length + 2 + 1 by simp; omega, parseElements]
    simp only [List.map_cons, commaSeparated, List.append_assoc, List.cons_append]
    rw [show fuel + ts.length + 2 = fuel + ts.length + 1 + 1 by omega, parseValue_encodeString]
    simp only [bind, Except.bind, skipSpace_of_not_space (c := ',') rfl, if_true]
    rw [show fuel + ts.length + 1 + 1 = fuel + ts.length + 2 by omega]
    have next := ih (acc ++ [.string s]) t
    rw [List.map_cons] at next
    rw [next]
    simp

theorem parseArray_of_head {fuel : Nat} {cs tail : List Char} {c : Char} (head : cs = c :: tail)
    (notSpace : isSpace c = false) (notClose : c ≠ ']') :
    parseArray (fuel + 1) cs = parseElements fuel [] cs := by
  subst head
  rw [parseArray, skipSpace_of_not_space notSpace]
  simp [notClose]

theorem commaSeparated_encodeString (s : List Char) (ss : List (List Char)) (rest : List Char) :
    ∃ tail, commaSeparated ((s :: ss).map encodeString) ++ rest = '"' :: tail := by
  cases ss <;> exact ⟨_, rfl⟩

/-- `parseValue` reads back an array of encoded strings. -/
theorem parseValue_encodeStrings (fuel : Nat) (ss : List (List Char)) (rest : List Char) :
    parseValue (fuel + ss.length + 3) (encodeArray (ss.map encodeString) ++ rest) =
      .ok (.array (ss.map .string), rest) := by
  cases ss with
  | nil =>
    simp [encodeArray, commaSeparated, parseValue, parseArray,
      skipSpace_of_not_space (c := '[') rfl, skipSpace_of_not_space (c := ']') rfl]
  | cons s ss =>
    obtain ⟨tail, head⟩ := commaSeparated_encodeString s ss (']' :: rest)
    simp only [encodeArray, List.cons_append, List.append_assoc, List.singleton_append,
      List.nil_append]
    rw [show fuel + (s :: ss).length + 3 = fuel + ss.length + 2 + 1 + 1 by simp; omega,
      parseValue, skipSpace_of_not_space (c := '[') rfl]
    simp only [if_neg (show '[' ≠ '{' by decide), if_true]
    rw [parseArray_of_head head rfl (by decide), parseElements_encodeStrings]
    simp

theorem parseObject_of_head {fuel : Nat} {cs tail : List Char} {c : Char} (head : cs = c :: tail)
    (notSpace : isSpace c = false) (notClose : c ≠ '}') :
    parseObject (fuel + 1) cs = parseMembers fuel [] cs := by
  subst head
  rw [parseObject, skipSpace_of_not_space notSpace]
  simp [notClose]

/-- The members of an object after `{` start with a member's encoded name, so `parseValue` hands
them to `parseMembers`. -/
theorem parseValue_object (fuel : Nat) (key rest : List Char) :
    parseValue (fuel + 2) ('{' :: (encodeString key ++ rest)) =
      parseMembers fuel [] (encodeString key ++ rest) := by
  rw [parseValue, skipSpace_of_not_space (c := '{') rfl]
  dsimp only
  rw [if_pos rfl]
  exact parseObject_of_head (c := '"') rfl rfl (by decide)

theorem parseMembers_member {fuel : Nat} {acc : List (List Char × JValue)} {key cs : List Char} :
    parseMembers (fuel + 1) acc (encodeString key ++ ':' :: cs) =
      (parseValue fuel cs).bind fun (v, rest) =>
        match skipSpace rest with
        | c :: rest =>
          if c = ',' then parseMembers fuel (acc ++ [(key, v)]) rest
          else if c = '}' then .ok (.object (acc ++ [(key, v)]), rest)
          else .error "invalid character after object key:value pair"
        | [] => .error "unexpected end of JSON input" := by
  simp only [encodeString, List.cons_append, List.append_assoc, List.singleton_append,
    List.nil_append]
  rw [parseMembers, skipSpace_of_not_space (c := '"') rfl]
  simp [unquoteBody_encode, bind, Except.bind, skipSpace_of_not_space (c := ':') rfl]

/-- A member `"key":value` followed by a comma reads back, and the members after it follow. -/
theorem parseMembers_next {fuel : Nat} {acc : List (List Char × JValue)} {key cs rest : List Char}
    {v : JValue} (value : parseValue fuel cs = .ok (v, ',' :: rest)) :
    parseMembers (fuel + 1) acc (encodeString key ++ ':' :: cs) =
      parseMembers fuel (acc ++ [(key, v)]) rest := by
  rw [parseMembers_member, value]
  simp [Except.bind, skipSpace_of_not_space (c := ',') rfl]

/-- The last member `"key":value` before `}` reads back, and closes the object. -/
theorem parseMembers_last {fuel : Nat} {acc : List (List Char × JValue)} {key cs rest : List Char}
    {v : JValue} (value : parseValue fuel cs = .ok (v, '}' :: rest)) :
    parseMembers (fuel + 1) acc (encodeString key ++ ':' :: cs) =
      .ok (.object (acc ++ [(key, v)]), rest) := by
  rw [parseMembers_member, value]
  simp [Except.bind, skipSpace_of_not_space (c := '}') rfl]

end Bitcoinx.Go.Json
