import Bitcoinx.Go.Json

/-!
# The scanner's fuel is enough

`parseValue` and its helpers take fuel so that Lean sees them end; `json.Decoder` takes none.
This module shows that the fuel `decodePeerInfo` passes never decides an answer. Every scanner
of one token returns a shorter rest or a syntax error (`Scanned`), and from three units of fuel
per character on, each parser has settled (`Settled`): it returns a shorter rest or a syntax
error other than the depth error, and more fuel gives the same answer.

`settled_bind` and `settled_ite` say how a parser's body combines settled answers, so each step
lemma follows the body of its parser; `fuel_enough` proves all five parsers settled together by
induction on the fuel, and `parseValue_settles` is the result for a value.
-/

namespace Bitcoinx.Go.Json

/-! ## What a scanner returns -/

/-- What a scanner can return on `cs`: a token and a rest at least `k` characters shorter, or a
syntax error other than the depth error. -/
def Scanned {α : Type} (k : Nat) (cs : List Char) : Except String (α × List Char) → Prop
  | .ok (_, rest) => rest.length + k ≤ cs.length
  | .error e => e ≠ "exceeded max depth"

section Scanned

variable {α β : Type} {k k' : Nat} {cs cs' : List Char}

theorem Scanned.mono {r : Except String (α × List Char)} (h : Scanned k cs r)
    (le : k' + cs.length ≤ k + cs'.length) : Scanned k' cs' r := by
  rcases r with e | ⟨a, rest⟩
  · exact h
  · simp only [Scanned] at h ⊢
    omega

theorem Scanned.ne_depth {r : Except String (α × List Char)} (h : Scanned k cs r) :
    r ≠ .error "exceeded max depth" := by
  rintro rfl
  exact h rfl

theorem Scanned.bind {x : Except String (α × List Char)}
    {f : α × List Char → Except String (β × List Char)} (hx : Scanned k cs x)
    (hf : ∀ a rest, rest.length + k ≤ cs.length → Scanned 0 rest (f (a, rest))) :
    Scanned k cs (x >>= f) := by
  rcases x with e | ⟨a, rest⟩
  · exact hx
  · exact (hf a rest hx).mono (by simp only [Scanned] at hx; omega)

theorem Scanned.map {r : Except String (α × List Char)} {f : α × List Char → β × List Char}
    (h : Scanned k cs r) (keep : ∀ p, (f p).2 = p.2) : Scanned k cs (r.map f) := by
  rcases r with e | ⟨a, rest⟩
  · exact h
  · simpa only [Scanned, Except.map, keep] using h

theorem scanned_error {e : String} (h : e ≠ "exceeded max depth") :
    Scanned k cs (.error e : Except String (α × List Char)) :=
  h

theorem scanned_pure (a : α) : Scanned 0 cs (pure (a, cs) : Except String (α × List Char)) :=
  Nat.le_refl _

end Scanned

theorem length_skipSpace_le (cs : List Char) : (skipSpace cs).length ≤ cs.length := by
  induction cs with
  | nil => exact le_rfl
  | cons c cs ih =>
    unfold skipSpace
    split
    · exact ih.trans (Nat.le_succ _)
    · exact le_rfl

theorem skipSpace_shorter {cs rest : List Char} {c : Char} (h : skipSpace cs = c :: rest) :
    rest.length + 1 ≤ cs.length := by
  have := length_skipSpace_le cs
  rwa [h, List.length_cons] at this

theorem unquoteBody_scanned (cs : List Char) : Scanned 1 cs (unquoteBody cs) := by
  induction cs using unquoteBody.induct with
  | case1 cs e err =>
    have spec := unquoteStep_spec cs
    rw [err] at spec
    rw [unquoteBody_error err]
    exact spec
  | case2 cs rest close =>
    have spec := unquoteStep_spec cs
    rw [close] at spec
    rw [unquoteBody_close close, spec]
    exact Nat.le_refl _
  | case3 cs c rest step shorter ih =>
    rw [unquoteBody_char step, consDecoded]
    refine (ih.map ?_).mono ?_
    · exact fun _ => rfl
    · omega

theorem length_spanDigits_le (cs : List Char) : (spanDigits cs).2.length ≤ cs.length := by
  induction cs with
  | nil => exact le_rfl
  | cons c cs ih =>
    unfold spanDigits
    split
    · exact ih.trans (Nat.le_succ _)
    · exact le_rfl

theorem length_takeSign_le (signs cs : List Char) : (takeSign signs cs).2.length ≤ cs.length := by
  unfold takeSign
  split
  · split
    · exact Nat.le_succ _
    · exact le_rfl
  · exact le_rfl

theorem scanInt_scanned (cs : List Char) : Scanned 1 cs (scanInt cs) := by
  unfold scanInt
  split
  · split_ifs
    · exact Nat.le_refl _
    · exact Nat.succ_le_succ (length_spanDigits_le _)
    · exact scanned_error (by decide)
  · exact scanned_error (by decide)

theorem scanFrac_scanned (cs : List Char) : Scanned 0 cs (scanFrac cs) := by
  unfold scanFrac
  split
  · split_ifs
    · exact scanned_error (by decide)
    · exact Nat.le_succ_of_le (length_spanDigits_le _)
    · exact Nat.le_refl _
  · exact Nat.le_refl _

theorem scanExp_scanned (cs : List Char) : Scanned 0 cs (scanExp cs) := by
  unfold scanExp
  split
  next e cs =>
    split_ifs
    · have signed := length_takeSign_le ['+', '-'] cs
      generalize takeSign ['+', '-'] cs = p at signed ⊢
      obtain ⟨sign, cs'⟩ := p
      dsimp only
      split_ifs
      · exact scanned_error (by decide)
      · exact Nat.le_succ_of_le ((length_spanDigits_le _).trans signed)
    · exact Nat.le_refl _
  next => exact Nat.le_refl _

theorem scanNumber_scanned (cs : List Char) : Scanned 1 cs (scanNumber cs) := by
  unfold scanNumber
  have signed := length_takeSign_le ['-'] cs
  generalize takeSign ['-'] cs = p at signed ⊢
  obtain ⟨sign, cs'⟩ := p
  refine Scanned.mono ?_ (Nat.add_le_add_left signed 1)
  refine (scanInt_scanned cs').bind fun int cs₁ _ => ?_
  refine (scanFrac_scanned cs₁).bind fun frac cs₂ _ => ?_
  exact (scanExp_scanned cs₂).bind fun exp cs₃ _ => scanned_pure _

theorem expectLiteral_scanned {α : Type} (a : α) (c : Char) (word rest : List Char) :
    Scanned 1 (c :: rest) ((expectLiteral word rest).map (a, ·)) := by
  unfold expectLiteral
  split_ifs
  · simp only [Scanned, Except.map, List.length_drop, List.length_cons]
    omega
  · exact scanned_error (by decide)

/-! ## The fuel is enough -/

/-- A step of a parser that a scanner's result feeds: if the scanner returns a shorter rest and
the step, fed any such rest, neither grows it nor depends on the fuel, neither does the whole. -/
theorem settled_bind {α : Type} {k : Nat} {cs : List Char} {x x' : Except String (α × List Char)}
    {f g : α × List Char → Except String (JValue × List Char)} (hx : Scanned k cs x)
    (same : x' = x)
    (hf : ∀ a rest, rest.length + k ≤ cs.length →
      Scanned 0 rest (f (a, rest)) ∧ g (a, rest) = f (a, rest)) :
    Scanned k cs (x >>= f) ∧ x' >>= g = x >>= f := by
  rw [same]
  rcases x with e | ⟨a, rest⟩
  · exact ⟨hx, rfl⟩
  · exact ⟨(hf a rest hx).1.mono (by simp only [Scanned] at hx; omega), (hf a rest hx).2⟩

/-- An `if` between settled answers is settled. -/
theorem settled_ite {p : Prop} [Decidable p] {k : Nat} {cs : List Char}
    {a a' b b' : Except String (JValue × List Char)}
    (pos : p → Scanned k cs a ∧ a' = a) (neg : ¬p → Scanned k cs b ∧ b' = b) :
    Scanned k cs (if p then a else b) ∧ (if p then a' else b') = if p then a else b := by
  by_cases h : p
  · rw [if_pos h, if_pos h]
    exact pos h
  · rw [if_neg h, if_neg h]
    exact neg h

/-- `parse` has settled at `fuel` on `cs`: it returns a value and a shorter rest or a syntax
error other than the depth error, and one more unit of fuel changes nothing. -/
def Settled (parse : Nat → List Char → Except String (JValue × List Char)) (fuel : Nat)
    (cs : List Char) : Prop :=
  Scanned 1 cs (parse fuel cs) ∧ parse (fuel + 1) cs = parse fuel cs

/-- A settled answer on a suffix of `cs` is a settled answer on `cs`. -/
theorem settled_widen {r r' : Except String (JValue × List Char)} {k : Nat} {rest cs : List Char}
    (h : Scanned 1 rest r ∧ r' = r) (le : k + rest.length ≤ 1 + cs.length) :
    Scanned k cs r ∧ r' = r :=
  ⟨h.1.mono le, h.2⟩

/-- Every parser has settled at `fuel` on every input short enough for it: three units of fuel
per character, and one more for a value, two more for the elements or members after a bracket
or a comma, three more for what follows an opening bracket. -/
structure Enough (fuel : Nat) : Prop where
  value : ∀ cs, 3 * cs.length + 1 ≤ fuel → Settled parseValue fuel cs
  array : ∀ cs, 3 * cs.length + 3 ≤ fuel → Settled parseArray fuel cs
  elements : ∀ acc cs, 3 * cs.length + 2 ≤ fuel → Settled (parseElements · acc) fuel cs
  object : ∀ cs, 3 * cs.length + 3 ≤ fuel → Settled parseObject fuel cs
  members : ∀ acc cs, 3 * cs.length + 2 ≤ fuel → Settled (parseMembers · acc) fuel cs

section Step

variable {fuel : Nat} (ih : Enough fuel)
include ih

theorem Enough.value_succ (cs : List Char) (le : 3 * cs.length + 1 ≤ fuel + 1) :
    Settled parseValue (fuel + 1) cs := by
  unfold Settled
  rw [parseValue.eq_2 cs fuel, parseValue.eq_2 cs (fuel + 1)]
  rcases eq : skipSpace cs with _ | ⟨c, rest⟩
  · exact ⟨scanned_error (by decide), rfl⟩
  have short := skipSpace_shorter eq
  have widen : 1 + (c :: rest).length ≤ 1 + cs.length := by simp only [List.length_cons]; omega
  refine settled_ite (fun _ => ?_) fun _ => settled_ite (fun _ => ?_) fun _ =>
    settled_ite (fun _ => ?_) fun _ => settled_ite (fun _ => ?_) fun _ =>
    settled_ite (fun _ => ?_) fun _ => settled_ite (fun _ => ?_) fun _ => ?_
  · exact settled_widen (ih.object rest (by omega)) (by omega)
  · exact settled_widen (ih.array rest (by omega)) (by omega)
  · refine ⟨((unquoteBody_scanned rest).map ?_).mono (by omega), rfl⟩
    exact fun _ => rfl
  · exact ⟨(expectLiteral_scanned _ c _ rest).mono widen, rfl⟩
  · exact ⟨(expectLiteral_scanned _ c _ rest).mono widen, rfl⟩
  · exact ⟨(expectLiteral_scanned _ c _ rest).mono widen, rfl⟩
  · refine ⟨((scanNumber_scanned (c :: rest)).map ?_).mono widen, rfl⟩
    exact fun _ => rfl

theorem Enough.array_succ (cs : List Char) (le : 3 * cs.length + 3 ≤ fuel + 1) :
    Settled parseArray (fuel + 1) cs := by
  unfold Settled
  rw [parseArray.eq_2 cs fuel, parseArray.eq_2 cs (fuel + 1)]
  rcases eq : skipSpace cs with _ | ⟨c, rest⟩
  · exact ⟨scanned_error (by decide), rfl⟩
  refine settled_ite (fun _ => ⟨skipSpace_shorter eq, rfl⟩) fun _ => ?_
  exact ih.elements [] cs (by omega)

theorem Enough.elements_succ (acc : List JValue) (cs : List Char)
    (le : 3 * cs.length + 2 ≤ fuel + 1) : Settled (parseElements · acc) (fuel + 1) cs := by
  obtain ⟨scanned, same⟩ := ih.value cs (by omega)
  dsimp only [Settled]
  rw [parseElements.eq_2 acc cs fuel, parseElements.eq_2 acc cs (fuel + 1)]
  refine settled_bind scanned same fun v rest shorter => ?_
  dsimp only
  rcases eq : skipSpace rest with _ | ⟨c, rest'⟩
  · exact ⟨scanned_error (by decide), rfl⟩
  have short := skipSpace_shorter eq
  refine settled_ite (fun _ => ?_) fun _ => settled_ite (fun _ => ?_) fun _ => ?_
  · exact settled_widen (ih.elements _ rest' (by omega)) (by omega)
  · exact ⟨show rest'.length + 0 ≤ rest.length by omega, rfl⟩
  · exact ⟨scanned_error (by decide), rfl⟩

theorem Enough.object_succ (cs : List Char) (le : 3 * cs.length + 3 ≤ fuel + 1) :
    Settled parseObject (fuel + 1) cs := by
  unfold Settled
  rw [parseObject.eq_2 cs fuel, parseObject.eq_2 cs (fuel + 1)]
  rcases eq : skipSpace cs with _ | ⟨c, rest⟩
  · exact ⟨scanned_error (by decide), rfl⟩
  refine settled_ite (fun _ => ⟨skipSpace_shorter eq, rfl⟩) fun _ => ?_
  exact ih.members [] cs (by omega)

theorem Enough.members_succ (acc : List (List Char × JValue)) (cs : List Char)
    (le : 3 * cs.length + 2 ≤ fuel + 1) : Settled (parseMembers · acc) (fuel + 1) cs := by
  dsimp only [Settled]
  rw [parseMembers.eq_2 acc cs fuel, parseMembers.eq_2 acc cs (fuel + 1)]
  rcases eq : skipSpace cs with _ | ⟨c, rest⟩
  · exact ⟨scanned_error (by decide), rfl⟩
  have short := skipSpace_shorter eq
  refine settled_ite (fun _ => ?_) fun _ => ⟨scanned_error (by decide), rfl⟩
  -- the key, up to its closing quote
  refine settled_widen (settled_bind (unquoteBody_scanned rest) rfl
    fun key rest₁ shorter₁ => ?_) (by omega)
  dsimp only
  rcases eq₁ : skipSpace rest₁ with _ | ⟨c₁, rest₂⟩
  · exact ⟨scanned_error (by decide), rfl⟩
  have short₁ := skipSpace_shorter eq₁
  refine settled_ite (fun _ => ?_) fun _ => ⟨scanned_error (by decide), rfl⟩
  -- the value after the colon
  obtain ⟨scanned, same⟩ := ih.value rest₂ (by omega)
  refine settled_widen (settled_bind scanned same fun v rest₃ shorter₃ => ?_) (by omega)
  dsimp only
  rcases eq₃ : skipSpace rest₃ with _ | ⟨c₃, rest₄⟩
  · exact ⟨scanned_error (by decide), rfl⟩
  have short₃ := skipSpace_shorter eq₃
  refine settled_ite (fun _ => ?_) fun _ => settled_ite (fun _ => ?_) fun _ => ?_
  · exact settled_widen (ih.members _ rest₄ (by omega)) (by omega)
  · exact ⟨show rest₄.length + 0 ≤ rest₃.length by omega, rfl⟩
  · exact ⟨scanned_error (by decide), rfl⟩

end Step

theorem fuel_enough (fuel : Nat) : Enough fuel := by
  induction fuel with
  | zero =>
    exact ⟨fun _ le => absurd le (by omega), fun _ le => absurd le (by omega),
      fun _ _ le => absurd le (by omega), fun _ le => absurd le (by omega),
      fun _ _ le => absurd le (by omega)⟩
  | succ fuel ih =>
    exact ⟨ih.value_succ, ih.array_succ, ih.elements_succ, ih.object_succ, ih.members_succ⟩

/-- The fuel decides nothing: from three units per character and one more, `parseValue` never
reports the depth error, and any more fuel gives the same answer. -/
theorem parseValue_settles {cs : List Char} {fuel : Nat} (le : 3 * cs.length + 1 ≤ fuel) :
    parseValue fuel cs = parseValue (3 * cs.length + 1) cs ∧
      parseValue fuel cs ≠ .error "exceeded max depth" := by
  refine ⟨?_, ((fuel_enough fuel).value cs le).1.ne_depth⟩
  induction fuel, le using Nat.le_induction with
  | base => rfl
  | succ fuel le same => rw [((fuel_enough fuel).value cs le).2, same]

end Bitcoinx.Go.Json
