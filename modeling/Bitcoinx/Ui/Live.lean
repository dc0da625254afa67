import Bitcoinx.Go.Utf8
import Mathlib.Data.Nat.Find

/-!
# `ui.Live`: one status line, shortened or padded to the console width

`Live` prefixes the message with a spinner frame and a space, then runs two loops. The first
cuts four bytes and appends the three bytes of `"…"` while the message has more runes than the
line, so each pass takes exactly one byte off; the second appends spaces until the line is
full. The first loop slices bytes while it counts runes.

* `shorten_of_cut`: once the first cut is made the loop stops at the largest cut that fits
  and never panics; `live_fills_line` assembles the whole line for widths of three runes or
  more.
* `live_panics_iff`: the first cut panics exactly on a message of fewer than four bytes with
  more runes than the line, which a width of one or two runes reaches.
* `live_cuts_inside_rune`: a cut can end inside a multi-byte character, leaving a line that is
  not valid UTF-8.
-/

namespace Bitcoinx.Ui

open Bitcoinx.Go

/-! ## `Live` and its two loops -/

/-- A Go runtime panic. -/
inductive GoPanic where
  /-- `msg[0:len(msg)-4]` with a negative high bound. -/
  | sliceBoundsOutOfRange
  deriving DecidableEq, Repr

/-- `spin.Spin1`, the frames `ui`'s `init` installs. -/
def spin1 : List Char := ['|', '/', '-', '\\']

/-- The package's `spinner`: its frames and the position of the next one. -/
structure Spinner where
  frames : List Char
  pos : Nat
  deriving DecidableEq, Repr

/-- The spinner after `init`. -/
def spinner : Spinner := ⟨spin1, 0⟩

/-- `Spinner.Next`: the current frame as a string, and the spinner one frame on. -/
def Spinner.next (s : Spinner) : Bytes × Spinner :=
  (String.utf8EncodeChar (s.frames.getD (s.pos % s.frames.length) ' '),
    { s with pos := s.pos + 1 })

/-- `ConsoleWidth`: the terminal's width, or 80 when the size is unknown or not positive. -/
def consoleWidth (getSize : Except String (Int × Int)) : Nat :=
  match getSize with
  | .ok (width, _) => if width ≤ 0 then 80 else width.toNat
  | .error _ => 80

theorem one_le_consoleWidth (getSize : Except String (Int × Int)) :
    1 ≤ consoleWidth getSize := by
  unfold consoleWidth
  split
  · split <;> omega
  · decide

/-- `chalk.Dim.TextStyle`: the dim attribute on, `msg`, the attribute off. -/
def small (msg : Bytes) : Bytes :=
  [0x1B, 0x5B, 0x32, 0x6D] ++ msg ++ [0x1B, 0x5B, 0x32, 0x32, 0x6D]

/-- `"…"`, U+2026, three bytes. -/
def ellipsis : Bytes := String.utf8EncodeChar '…'

theorem ellipsis_eq : ellipsis = [0xE2, 0x80, 0xA6] := rfl

theorem length_ellipsis : ellipsis.length = 3 := rfl

/-- One pass of the first loop takes exactly one byte off the message. -/
theorem length_shortened (msg : Bytes) (h : 4 ≤ msg.length) :
    (msg.take (msg.length - 4) ++ ellipsis).length + 1 = msg.length := by
  simp [length_ellipsis]; omega

/-- The first loop of `Live`: cut four bytes and append `"…"` while the message has more
runes than the line. -/
def shorten (lineLength : Nat) (msg : Bytes) : Except GoPanic Bytes :=
  if lineLength < runeCountInString msg then
    if msg.length < 4 then .error .sliceBoundsOutOfRange
    else shorten lineLength (msg.take (msg.length - 4) ++ ellipsis)
  else .ok msg
termination_by msg.length
decreasing_by have := length_shortened msg (by omega); omega

theorem shorten_fits {lineLength : Nat} {msg : Bytes}
    (fits : runeCountInString msg ≤ lineLength) : shorten lineLength msg = .ok msg := by
  rw [shorten, if_neg (by omega)]

theorem shorten_short {lineLength : Nat} {msg : Bytes} (over : lineLength < runeCountInString msg)
    (short : msg.length < 4) : shorten lineLength msg = .error .sliceBoundsOutOfRange := by
  rw [shorten, if_pos over, if_pos short]

theorem shorten_cut {lineLength : Nat} {msg : Bytes} (over : lineLength < runeCountInString msg)
    (long : 4 ≤ msg.length) :
    shorten lineLength msg = shorten lineLength (msg.take (msg.length - 4) ++ ellipsis) := by
  rw [shorten, if_pos over, if_neg (by omega)]

theorem runeStart_space : ∀ c ∈ [(0x20 : UInt8)].head?, runeStart c := by decide

theorem runeStart_ellipsis : ∀ c ∈ ellipsis.head?, runeStart c := by decide

theorem runeCountInString_push_space (msg : Bytes) :
    runeCountInString (msg ++ [0x20]) = runeCountInString msg + 1 := by
  rw [runeCountInString_append msg runeStart_space]
  simp [runeCountInString_cons, decodeRuneInString]

/-- The second loop of `Live`: append spaces until the message fills the line. -/
def pad (lineLength : Nat) (msg : Bytes) : Bytes :=
  if runeCountInString msg < lineLength then pad lineLength (msg ++ [0x20]) else msg
termination_by lineLength - runeCountInString msg
decreasing_by rw [runeCountInString_push_space]; omega

theorem pad_full {lineLength : Nat} {msg : Bytes} (full : lineLength ≤ runeCountInString msg) :
    pad lineLength msg = msg := by
  rw [pad, if_neg (by omega)]

theorem pad_push {lineLength : Nat} {msg : Bytes} (room : runeCountInString msg < lineLength) :
    pad lineLength msg = pad lineLength (msg ++ [0x20]) := by
  rw [pad, if_pos room]

/-- `fmt.Sprintf("%s %s", spinner.Next(), strings.TrimSpace(msg))`. -/
def format (frame msg : Bytes) : Bytes := frame ++ [0x20] ++ trimSpace msg

/-- `Live`: the line it prints, ending in a carriage return, and the spinner after it; or the
panic the first loop raises. -/
def live (sp : Spinner) (getSize : Except String (Int × Int)) (msg : Bytes) :
    Except GoPanic (Bytes × Spinner) := do
  let (frame, sp) := sp.next
  let msg := format frame msg
  let lineLength := consoleWidth getSize
  let msg ← shorten lineLength msg
  let msg := pad lineLength msg
  return (small msg ++ [0x0D], sp)

/-! ## The first loop -/

/-- The predicate the first loop stops on, at a cut `j` bytes into the message. -/
def Fits (lineLength : Nat) (s : Bytes) (j : Nat) : Prop :=
  runeCountInString (s.take j) + 1 ≤ lineLength

instance (lineLength : Nat) (s : Bytes) : DecidablePred (Fits lineLength s) :=
  fun j => inferInstanceAs (Decidable (runeCountInString (s.take j) + 1 ≤ lineLength))

theorem runeCountInString_ellipsis : runeCountInString ellipsis = 1 := by
  simp [ellipsis_eq, runeCountInString_cons, decodeRuneInString, first, continuation]

theorem runeCountInString_cut (s : Bytes) (k : Nat) :
    runeCountInString (s.take k ++ ellipsis) = runeCountInString (s.take k) + 1 := by
  rw [runeCountInString_append _ runeStart_ellipsis, runeCountInString_ellipsis]

/-- After `j` cuts the message is `s[0:len(s)-3-j] + "…"`; from a cut at `k` the loop stops
at the largest cut at or below `k` that fits, and it never panics there, because a bare
`"…"` already fits a line of one rune. -/
theorem shorten_of_cut {lineLength : Nat} (wide : 1 ≤ lineLength) (s : Bytes) :
    ∀ k, k ≤ s.length → shorten lineLength (s.take k ++ ellipsis) =
      .ok (s.take (Nat.findGreatest (Fits lineLength s) k) ++ ellipsis)
  | 0, _ => by
    rw [shorten_fits (by simp [runeCountInString_ellipsis]; omega), Nat.findGreatest_zero]
  | k + 1, hk => by
    by_cases fits : Fits lineLength s (k + 1)
    · rw [shorten_fits (by rw [runeCountInString_cut]; exact fits), Nat.findGreatest_eq fits]
    · have next : (s.take (k + 1) ++ ellipsis).take ((s.take (k + 1) ++ ellipsis).length - 4) =
          s.take k := by
        simp [length_ellipsis, List.take_append_of_le_length, List.take_take]; omega
      rw [shorten_cut (by rw [runeCountInString_cut]; exact not_le.mp fits)
          (by simp [length_ellipsis]; omega), next, shorten_of_cut wide s k (by omega),
        Nat.findGreatest_of_not fits]

theorem spinner_next : spinner.next = ([0x7C], ⟨spin1, 1⟩) := rfl

/-! ## The second loop -/

theorem runeCountInString_spaces (msg : Bytes) (n : Nat) :
    runeCountInString (msg ++ List.replicate n 0x20) = runeCountInString msg + n := by
  induction n with
  | zero => simp
  | succ n ih =>
    rw [List.replicate_succ', ← List.append_assoc, runeCountInString_push_space, ih]
    omega

/-- The padding loop appends exactly the spaces that are missing. -/
theorem pad_eq (lineLength : Nat) (msg : Bytes) :
    pad lineLength msg = msg ++ List.replicate (lineLength - runeCountInString msg) 0x20 := by
  induction msg using pad.induct lineLength with
  | case1 msg room ih =>
    rw [pad_push room, ih, runeCountInString_push_space, List.append_assoc, List.singleton_append,
      ← List.replicate_succ, show lineLength - (runeCountInString msg + 1) + 1 =
        lineLength - runeCountInString msg by omega]
  | case2 msg full => rw [pad_full (by omega), Nat.sub_eq_zero_of_le (by omega)]; simp

theorem live_eq (sp : Spinner) (getSize : Except String (Int × Int)) (msg : Bytes) :
    live sp getSize msg =
      (shorten (consoleWidth getSize) (format sp.next.1 msg)).map
        fun line => (small (pad (consoleWidth getSize) line) ++ [0x0D], sp.next.2) := by
  simp only [live]
  cases shorten (consoleWidth getSize) (format sp.next.1 msg) <;> rfl

/-! ## What `Live` prints -/

/-- On a line of three runes or more the first loop never panics, and the string `Live`
passes to `Small` has exactly as many runes as the line: the formatted message padded with
spaces when it fits; otherwise its longest prefix, cut at least four bytes from the end, whose
runes and a `"…"` fit the line, then `"…"` and spaces. -/
theorem live_fills_line (sp : Spinner) (getSize : Except String (Int × Int)) (m : Bytes)
    (wide : 3 ≤ consoleWidth getSize) :
    let L := consoleWidth getSize
    let s := sp.next.1 ++ [0x20] ++ trimSpace m
    ∃ line, live sp getSize m = .ok (small line ++ [0x0D], sp.next.2) ∧
      runeCountInString line = L ∧
      (runeCountInString s ≤ L → line = s ++ List.replicate (L - runeCountInString s) 0x20) ∧
      (L < runeCountInString s → ∃ k, k ≤ s.length - 4 ∧ runeCountInString (s.take k) + 1 ≤ L ∧
        (∀ j, k < j → j ≤ s.length - 4 → L < runeCountInString (s.take j) + 1) ∧
        line = s.take k ++ ellipsis ++
          List.replicate (L - (runeCountInString (s.take k) + 1)) 0x20) := by
  intro L s
  rw [live_eq, show format sp.next.1 m = s from rfl]
  by_cases fits : runeCountInString s ≤ L
  · refine ⟨s ++ List.replicate (L - runeCountInString s) 0x20, ?_, ?_, fun _ => rfl,
      fun over => absurd over (not_lt.mpr fits)⟩
    · rw [shorten_fits fits]
      simp only [Except.map, pad_eq]
    · rw [runeCountInString_spaces]; omega
  · have over : L < runeCountInString s := not_le.mp fits
    have long : 4 ≤ s.length := by have := runeCountInString_le_length s; omega
    set k := Nat.findGreatest (Fits L s) (s.length - 4)
    have fitsK : runeCountInString (s.take k) + 1 ≤ L :=
      Nat.findGreatest_spec (P := Fits L s) (Nat.zero_le _) (by simp [Fits]; omega)
    refine ⟨s.take k ++ ellipsis ++ List.replicate (L - (runeCountInString (s.take k) + 1)) 0x20,
      ?_, by rw [runeCountInString_spaces, runeCountInString_cut]; omega,
      fun h => absurd over (not_lt.mpr h), fun _ => ⟨k, Nat.findGreatest_le _, fitsK,
        fun j above le => not_le.mp (Nat.findGreatest_is_greatest (P := Fits L s) above le),
        rfl⟩⟩
    rw [shorten_cut over long, shorten_of_cut (by omega) s _ (by omega)]
    simp only [Except.map, pad_eq, runeCountInString_cut]

/-- At the default width of 80 columns. -/
theorem live_fills_line_at_eighty :
    3 ≤ consoleWidth (.ok (80, 24)) ∧
      let L := consoleWidth (.ok (80, 24))
      let s := spinner.next.1 ++ [0x20] ++ trimSpace []
      ∃ line, live spinner (.ok (80, 24)) [] = .ok (small line ++ [0x0D], spinner.next.2) ∧
        runeCountInString line = L ∧
        (runeCountInString s ≤ L → line = s ++ List.replicate (L - runeCountInString s) 0x20) ∧
        (L < runeCountInString s → ∃ k, k ≤ s.length - 4 ∧
          runeCountInString (s.take k) + 1 ≤ L ∧
          (∀ j, k < j → j ≤ s.length - 4 → L < runeCountInString (s.take j) + 1) ∧
          line = s.take k ++ ellipsis ++
            List.replicate (L - (runeCountInString (s.take k) + 1)) 0x20) :=
  ⟨by decide, live_fills_line spinner (.ok (80, 24)) [] (by decide)⟩

/-- `Live` panics exactly when the formatted message has more runes than the line and fewer
than four bytes: the first cut is the only one that can go below zero. -/
theorem live_panics_iff (sp : Spinner) (getSize : Except String (Int × Int)) (m : Bytes) :
    live sp getSize m = .error .sliceBoundsOutOfRange ↔
      consoleWidth getSize < runeCountInString (sp.next.1 ++ [0x20] ++ trimSpace m) ∧
        (sp.next.1 ++ [0x20] ++ trimSpace m).length < 4 := by
  rw [live_eq, show sp.next.1 ++ [0x20] ++ trimSpace m = format sp.next.1 m from rfl]
  by_cases fits : runeCountInString (format sp.next.1 m) ≤ consoleWidth getSize
  · simp [shorten_fits fits, Except.map, fits]
  by_cases short : (format sp.next.1 m).length < 4
  · simp [shorten_short (not_le.mp fits) short, Except.map, short, not_le.mp fits]
  · rw [shorten_cut (not_le.mp fits) (by omega),
      shorten_of_cut (one_le_consoleWidth getSize) _ _ (by omega)]
    simp [Except.map, short]

/-- On a console one column wide, `Live ""` slices `"| "[0:-2]`. -/
theorem live_panics_on_narrow_console :
    live spinner (.ok (1, 24)) [] = .error .sliceBoundsOutOfRange := by
  simp [live, format, spinner_next, consoleWidth, shorten_short, trimSpace, trimLeftSpace,
    trimRightSpace, runeCountInString_cons, decodeRuneInString]

/-- At width 4 the message `"€ab"`, valid UTF-8, becomes `"| " + "\xe2" + "…"`: the cut at
byte 3 keeps the first byte of the euro sign. -/
theorem live_cuts_inside_rune :
    validString [0xE2, 0x82, 0xAC, 0x61, 0x62] = true ∧
      live spinner (.ok (4, 24)) [0xE2, 0x82, 0xAC, 0x61, 0x62] =
        .ok (small [0x7C, 0x20, 0xE2, 0xE2, 0x80, 0xA6] ++ [0x0D], ⟨spin1, 1⟩) ∧
      validString (small [0x7C, 0x20, 0xE2, 0xE2, 0x80, 0xA6] ++ [0x0D]) = false := by
  refine ⟨?_, ?_, ?_⟩
  · simp [validString, decodeRuneInString, first, continuation]
  · simp [live, format, spinner_next, consoleWidth, shorten_fits, shorten_cut, trimSpace,
      trimLeftSpace, ellipsis_eq, trimRightSpace, runeCountInString_cons, decodeRuneInString,
      first, continuation, isSpace, pad_full, UInt8.size]
  · simp [small, validString, decodeRuneInString, first, continuation]

end Bitcoinx.Ui
