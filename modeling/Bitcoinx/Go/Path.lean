import Mathlib.Data.List.Basic

/-!
# The `path`, `path/filepath` and `strings` functions the commands build directories with

`path.Clean` is written as its documentation states its rules, applied to the path's
slash-separated elements from left to right: empty and `.` elements go, a `..` removes the
element before it unless that is a `..` too, and a `..` at the start of a rooted path goes.
`filepath.Base` and `filepath.Abs` are their Unix versions; `Abs` takes the answer of
`os.Getwd` as a parameter. Every function is structurally recursive or a fold, so a path
computed from literals evaluates by `decide`.

The lemmas below are what the commands' directory layouts rest on. `Kept` says what
`cleanElems` keeps (names above a run of `..` that found nothing to remove) and is kept by
every element; from it, `clean_clean` (cleaning is idempotent) and `clean_ne_slash_slash` (a
cleaned path has no empty element). For a clean absolute directory (`CleanDir`), `path.Join`
with a name appends it (`CleanDir.join_name`), with `.` or `/` changes nothing, and with `..`
removes the last name.
-/

namespace Bitcoinx.Go

/-- The elements of a slash-separated path, empty ones included. -/
def splitSlash : List Char → List (List Char)
  | [] => [[]]
  | '/' :: rest => [] :: splitSlash rest
  | c :: rest =>
    match splitSlash rest with
    | e :: es => (c :: e) :: es
    | [] => [[c]]

/-- The elements `path.Clean` keeps, last first: `""` and `"."` go, a `".."` removes the
element before it when that is not itself `".."`, and a `".."` with nothing before it is
dropped in a rooted path and kept in a relative one. -/
def cleanElems (rooted : Bool) : List (List Char) → List (List Char) → List (List Char)
  | kept, [] => kept
  | kept, e :: es =>
    if e = [] || e = ['.'] then cleanElems rooted kept es
    else if e = ['.', '.'] then
      match kept with
      | top :: below =>
        if top = ['.', '.'] then cleanElems rooted (e :: kept) es
        else cleanElems rooted below es
      | [] => cleanElems rooted (if rooted then [] else [e]) es
    else cleanElems rooted (e :: kept) es

/-- `path.Clean`: the shortest path equivalent to `p` by lexical processing; `"."` for an
empty result. -/
def clean (p : String) : String :=
  if p.isEmpty then "." else
  let rooted := p.front = '/'
  let body :=
    String.intercalate "/" ((cleanElems rooted [] (splitSlash p.toList)).reverse.map String.mk)
  if rooted then "/" ++ body
  else if body.isEmpty then "." else body

/-- `path.Join`: the non-empty elements from the first non-empty one on, joined by slashes
and cleaned; `""` when every element is empty. -/
def join (elems : List String) : String :=
  match elems.dropWhile (·.isEmpty) with
  | [] => ""
  | es => clean (String.intercalate "/" es)

/-- `filepath.Base` on a Unix system: the last element, trailing slashes ignored; `"."` for
the empty path and `"/"` for a path of slashes only. -/
def base (p : String) : String :=
  if p.isEmpty then "." else
  let trimmed := (p.toList.reverse.dropWhile (· = '/')).reverse
  let last := (trimmed.reverse.takeWhile (· ≠ '/')).reverse
  if last.isEmpty then "/" else String.mk last

/-- `strings.HasPrefix`. -/
def hasPrefix (s pre : String) : Bool := pre.toList.isPrefixOf s.toList

/-- `strings.TrimPrefix`. -/
def trimPrefix (s pre : String) : String :=
  if hasPrefix s pre then String.mk (s.toList.drop pre.length) else s

/-- `filepath.IsAbs` on a Unix system: `strings.HasPrefix(path, "/")`. -/
def isAbs (p : String) : Bool := hasPrefix p "/"

/-- `filepath.Abs`: a rooted path cleaned, any other joined to the working directory. -/
def abs (getwd : Except String String) (p : String) : Except String String :=
  if isAbs p then .ok (clean p)
  else match getwd with
    | .ok wd => .ok (join [wd, p])
    | .error e => .error e

/-! ## Elements -/

theorem splitSlash_ne_nil : ∀ cs, splitSlash cs ≠ []
  | [] => List.cons_ne_nil _ _
  | c :: cs => by
    by_cases h : c = '/'
    · subst h; exact List.cons_ne_nil _ _
    · rw [splitSlash]
      · split <;> exact List.cons_ne_nil _ _
      · exact h

/-- `splitSlash` is the library's `List.splitOn` at `/`. -/
theorem splitSlash_eq_splitOn : ∀ cs, splitSlash cs = cs.splitOn '/'
  | [] => rfl
  | c :: cs => by
    rw [List.splitOn, List.splitOnP_cons, ← List.splitOn, ← splitSlash_eq_splitOn cs]
    by_cases h : c = '/'
    · subst h; rfl
    · rw [if_neg (by simpa using h), splitSlash]
      · cases e : splitSlash cs with
        | nil => exact absurd e (splitSlash_ne_nil cs)
        | cons => rfl
      · exact h

/-- A slash ends one element and starts the next. -/
theorem splitSlash_append_slash (xs ys : List Char) :
    splitSlash (xs ++ '/' :: ys) = splitSlash xs ++ splitSlash ys := by
  induction xs with
  | nil => rfl
  | cons c xs ih =>
    by_cases h : c = '/'
    · subst h
      rw [List.cons_append, splitSlash, ih, splitSlash, List.cons_append]
    · rw [List.cons_append, splitSlash, ih, splitSlash]
      · cases e : splitSlash xs with
        | nil => exact absurd e (splitSlash_ne_nil xs)
        | cons => rfl
      all_goals exact h

/-- No element of a split path holds a slash. -/
theorem slash_not_mem_of_mem_splitSlash {cs e : List Char} (h : e ∈ splitSlash cs) :
    '/' ∉ e := by
  induction cs generalizing e with
  | nil => simp_all [splitSlash]
  | cons c cs ih =>
    by_cases slash : c = '/'
    · subst slash
      simp only [splitSlash, List.mem_cons] at h
      rcases h with rfl | h
      · exact List.not_mem_nil _
      · exact ih h
    · rw [splitSlash] at h
      · cases e' : splitSlash cs with
        | nil => exact absurd e' (splitSlash_ne_nil cs)
        | cons f fs =>
          rw [e'] at h ih
          simp only [List.mem_cons] at h ih
          rcases h with rfl | h
          · simpa [Ne.symm slash] using ih (.inl rfl)
          · exact ih (.inr h)
      · exact slash

/-- Joining elements by slashes, as a list of characters. -/
theorem intercalate_cons (e : List Char) (es : List (List Char)) :
    ['/'].intercalate (e :: es) = e ++ (es.map ('/' :: ·)).flatten := by
  induction es generalizing e with
  | nil => simp [List.intercalate]
  | cons f es ih =>
    simp only [List.intercalate, List.intersperse_cons₂, List.flatten_cons] at ih ⊢
    rw [ih f]
    simp

/-- The string a list of elements joined by slashes spells. -/
theorem toList_intercalate_go (acc : String) (es : List (List Char)) :
    (String.intercalate.go acc "/" (es.map String.mk)).toList =
      acc.toList ++ (es.map ('/' :: ·)).flatten := by
  induction es generalizing acc with
  | nil => simp [String.intercalate.go]
  | cons e es ih =>
    simp only [List.map_cons, String.intercalate.go, ih, List.flatten_cons]
    simp [String.toList]

theorem toList_intercalate (es : List (List Char)) :
    (String.intercalate "/" (es.map String.mk)).toList = ['/'].intercalate es := by
  cases es with
  | nil => rfl
  | cons e es =>
    rw [List.map_cons, String.intercalate, toList_intercalate_go, intercalate_cons]
    rfl

theorem splitSlash_of_slash_not_mem {n : List Char} (noSlash : '/' ∉ n) : splitSlash n = [n] := by
  rw [splitSlash_eq_splitOn]
  exact List.splitOnP_eq_single _ _ fun c h eq => noSlash (beq_iff_eq.mp eq ▸ h)

theorem intercalate_append_single {es : List (List Char)} (ne : es ≠ []) (e : List Char) :
    ['/'].intercalate (es ++ [e]) = ['/'].intercalate es ++ '/' :: e := by
  obtain ⟨f, fs, rfl⟩ := List.exists_cons_of_ne_nil ne
  simp [intercalate_cons]

/-! ## What `cleanElems` keeps -/

/-- An element `path.Clean` keeps as it is and that no later element removes. -/
structure IsName (e : List Char) : Prop where
  nonempty : e ≠ []
  notDot : e ≠ ['.']
  notDotDot : e ≠ ['.', '.']
  noSlash : '/' ∉ e

instance (e : List Char) : Decidable (IsName e) :=
  decidable_of_iff (e ≠ [] ∧ e ≠ ['.'] ∧ e ≠ ['.', '.'] ∧ '/' ∉ e)
    ⟨fun ⟨a, b, c, d⟩ => ⟨a, b, c, d⟩, fun ⟨a, b, c, d⟩ => ⟨a, b, c, d⟩⟩

/-- Cleaning a path is a fold over its elements. -/
theorem cleanElems_append (r : Bool) (kept es fs : List (List Char)) :
    cleanElems r kept (es ++ fs) = cleanElems r (cleanElems r kept es) fs := by
  induction kept, es using cleanElems.induct r <;> simp_all [cleanElems]

/-- An empty element or `.` goes. -/
theorem cleanElems_drop {r : Bool} {kept es : List (List Char)} {e : List Char}
    (drop : (decide (e = []) || decide (e = ['.'])) = true) :
    cleanElems r kept (e :: es) = cleanElems r kept es := by
  cases kept <;> simp only [cleanElems, drop, if_true]

theorem cleanElems_empty (r : Bool) (kept es : List (List Char)) :
    cleanElems r kept ([] :: es) = cleanElems r kept es :=
  cleanElems_drop rfl

/-- Any other element but `..` is kept. -/
theorem cleanElems_push {r : Bool} {kept es : List (List Char)} {e : List Char}
    (keep : ¬(decide (e = []) || decide (e = ['.'])) = true) (notDotDot : e ≠ ['.', '.']) :
    cleanElems r kept (e :: es) = cleanElems r (e :: kept) es := by
  cases kept <;> simp [cleanElems, keep, notDotDot]

theorem cleanElems_cons_name {r : Bool} {kept es : List (List Char)} {e : List Char}
    (name : IsName e) : cleanElems r kept (e :: es) = cleanElems r (e :: kept) es :=
  cleanElems_push (by simp [name.nonempty, name.notDot]) name.notDotDot

/-- Names are kept, in order. -/
theorem cleanElems_names {r : Bool} {kept es : List (List Char)} (names : ∀ e ∈ es, IsName e) :
    cleanElems r kept es = es.reverse ++ kept := by
  induction es generalizing kept with
  | nil => rfl
  | cons e es ih =>
    rw [cleanElems_cons_name (names e (.head _)), ih fun e h => names e (.tail _ h)]
    simp

/-- A `..` on top of `..` elements that found nothing to remove is kept too. -/
theorem cleanElems_dotDot (k : Nat) (es : List (List Char)) :
    cleanElems false (List.replicate k ['.', '.']) (['.', '.'] :: es) =
      cleanElems false (List.replicate (k + 1) ['.', '.']) es := by
  cases k <;> simp [cleanElems, List.replicate_succ]

theorem cleanElems_replicate (k n : Nat) :
    cleanElems false (List.replicate k ['.', '.']) (List.replicate n ['.', '.']) =
      List.replicate (n + k) ['.', '.'] := by
  induction n generalizing k with
  | zero => simp [cleanElems]
  | succ n ih =>
    rw [List.replicate_succ, cleanElems_dotDot, ih]
    congr 1
    omega

/-- What `cleanElems` keeps, last element first: names above a run of `..` that found nothing
to remove, and no such run in a rooted path. -/
def Kept (rooted : Bool) (kept : List (List Char)) : Prop :=
  ∃ ns n, kept = ns ++ List.replicate n ['.', '.'] ∧ (∀ e ∈ ns, IsName e) ∧ (rooted → n = 0)

theorem kept_nil (r : Bool) : Kept r [] := ⟨[], 0, rfl, by simp, fun _ => rfl⟩

theorem Kept.cons_name {r : Bool} {kept : List (List Char)} {e : List Char} (k : Kept r kept)
    (name : IsName e) : Kept r (e :: kept) := by
  obtain ⟨ns, n, rfl, names, dots⟩ := k
  exact ⟨e :: ns, n, rfl, List.forall_mem_cons.mpr ⟨name, names⟩, dots⟩

/-- Every element kept is a name or `..`: not empty, and without a slash. -/
theorem Kept.mem {r : Bool} {kept : List (List Char)} {e : List Char} (k : Kept r kept)
    (h : e ∈ kept) : e ≠ [] ∧ '/' ∉ e := by
  obtain ⟨ns, n, rfl, names, -⟩ := k
  rcases List.mem_append.mp h with h | h
  · exact ⟨(names e h).nonempty, (names e h).noSlash⟩
  · rw [List.eq_of_mem_replicate h]
    exact ⟨by simp, by simp⟩

/-- Cleaning elements without slashes keeps the invariant. -/
theorem Kept.cleanElems {r : Bool} {kept es : List (List Char)} (k : Kept r kept)
    (noSlash : ∀ e ∈ es, '/' ∉ e) : Kept r (cleanElems r kept es) := by
  induction kept, es using cleanElems.induct r with
  | case1 kept => exact k
  | case2 kept e es drop ih =>
    rw [cleanElems_drop drop]
    exact ih k fun e h => noSlash e (.tail _ h)
  | case3 es below _ ih =>
    rw [cleanElems.eq_2, if_neg (by decide), if_pos rfl, if_pos rfl]
    refine ih ?_ fun e h => noSlash e (.tail _ h)
    obtain ⟨ns, n, eq, names, dots⟩ := k
    cases ns with
    | nil =>
      refine ⟨[], n + 1, by rw [eq]; rfl, by simp, fun rooted => ?_⟩
      cases dots rooted
      cases eq
    | cons f ns =>
      cases eq
      exact absurd rfl (names _ (.head _)).notDotDot
  | case4 es top below notDotDot _ ih =>
    rw [cleanElems.eq_2, if_neg (by decide), if_pos rfl, if_neg notDotDot]
    refine ih ?_ fun e h => noSlash e (.tail _ h)
    obtain ⟨ns, n, eq, names, dots⟩ := k
    cases ns with
    | nil =>
      cases n with
      | zero => cases eq
      | succ n => cases eq; exact absurd rfl notDotDot
    | cons f ns =>
      cases eq
      exact ⟨ns, n, rfl, fun e h => names e (.tail _ h), dots⟩
  | case5 es _ ih =>
    rw [cleanElems.eq_3, if_neg (by decide), if_pos rfl]
    refine ih ?_ fun e h => noSlash e (.tail _ h)
    cases r
    · exact ⟨[], 1, rfl, by simp, by simp⟩
    · exact kept_nil _
  | case6 kept e es keep notDotDot ih =>
    rw [cleanElems_push keep notDotDot]
    refine ih ?_ fun e h => noSlash e (.tail _ h)
    simp only [Bool.or_eq_true, decide_eq_true_eq, not_or] at keep
    exact k.cons_name ⟨keep.1, keep.2, notDotDot, noSlash e (.head _)⟩

/-- Cleaning what was kept again changes nothing. -/
theorem cleanElems_reverse {r : Bool} {kept : List (List Char)} (k : Kept r kept) :
    cleanElems r [] kept.reverse = kept := by
  obtain ⟨ns, n, rfl, names, dots⟩ := k
  rw [List.reverse_append, List.reverse_replicate, cleanElems_append,
    cleanElems_names fun e h => names e (List.mem_reverse.mp h), List.reverse_reverse]
  cases r
  · simpa using congrArg (ns ++ ·) (cleanElems_replicate 0 n)
  · rw [dots rfl]; rfl

/-- The elements kept, joined by slashes, split back into themselves. -/
theorem splitSlash_kept {r : Bool} {kept : List (List Char)} (k : Kept r kept) (ne : kept ≠ []) :
    splitSlash (['/'].intercalate kept.reverse) = kept.reverse := by
  rw [splitSlash_eq_splitOn]
  exact List.splitOn_intercalate _ _ (fun e h => (k.mem (List.mem_reverse.mp h)).2)
    (List.reverse_ne_nil_iff.mpr ne)

/-- The elements kept, joined by slashes, start with a character that is not a slash. -/
theorem intercalate_kept {r : Bool} {kept : List (List Char)} (k : Kept r kept) (ne : kept ≠ []) :
    ∃ c cs, ['/'].intercalate kept.reverse = c :: cs ∧ c ≠ '/' := by
  obtain ⟨e, rest, hl⟩ := List.exists_cons_of_ne_nil (List.reverse_ne_nil_iff.mpr ne)
  have first : e ∈ kept := List.mem_reverse.mp (by rw [hl]; exact .head _)
  obtain ⟨nonempty, noSlash⟩ := k.mem first
  obtain ⟨c, cs, rfl⟩ := List.exists_cons_of_ne_nil nonempty
  exact ⟨c, _, by rw [hl, intercalate_cons]; rfl, fun h => noSlash (h ▸ .head _)⟩

/-! ## `path.Clean` is idempotent -/

theorem clean_rooted_kept {kept : List (List Char)} (k : Kept true kept) :
    clean ("/" ++ String.intercalate "/" (kept.reverse.map String.mk)) =
      "/" ++ String.intercalate "/" (kept.reverse.map String.mk) := by
  have elems : cleanElems true [] (splitSlash ('/' :: ['/'].intercalate kept.reverse)) = kept := by
    rw [splitSlash, cleanElems_empty]
    rcases kept with _ | ⟨e, kept⟩
    · rfl
    · rw [splitSlash_kept k (List.cons_ne_nil _ _), cleanElems_reverse k]
  have chars : ("/" ++ String.intercalate "/" (kept.reverse.map String.mk)).toList =
      '/' :: ['/'].intercalate kept.reverse := by
    rw [← toList_intercalate]; rfl
  unfold clean
  simp only [show ("/" ++ String.intercalate "/" (kept.reverse.map String.mk)).isEmpty = false
    from rfl, show ("/" ++ String.intercalate "/" (kept.reverse.map String.mk)).front = '/'
    from rfl, chars, decide_True, elems]
  rfl

theorem clean_relative_kept {kept : List (List Char)} (k : Kept false kept)
    (ne : (String.intercalate "/" (kept.reverse.map String.mk)).isEmpty = false) :
    clean (String.intercalate "/" (kept.reverse.map String.mk)) =
      String.intercalate "/" (kept.reverse.map String.mk) := by
  have nonNil : kept ≠ [] := by rintro rfl; exact absurd ne (by decide)
  obtain ⟨c, cs, chars, relative⟩ := intercalate_kept k nonNil
  have front : (String.intercalate "/" (kept.reverse.map String.mk)).front = c := by
    show (String.mk (String.intercalate "/" (kept.reverse.map String.mk)).toList).front = c
    rw [toList_intercalate, chars]; rfl
  unfold clean
  simp only [ne, front, relative, toList_intercalate, splitSlash_kept k nonNil, decide_False,
    cleanElems_reverse k]
  simp

/-- What `path.Clean` returns: `.`, a slash and the elements kept of a rooted path, or the
elements kept of a relative one. -/
theorem clean_cases (p : String) :
    clean p = "." ∨
      (∃ kept, Kept true kept ∧
        clean p = "/" ++ String.intercalate "/" (kept.reverse.map String.mk)) ∨
      ∃ kept, Kept false kept ∧
        (String.intercalate "/" (kept.reverse.map String.mk)).isEmpty = false ∧
        clean p = String.intercalate "/" (kept.reverse.map String.mk) := by
  have k (r : Bool) : Kept r (cleanElems r [] (splitSlash p.toList)) :=
    (kept_nil r).cleanElems fun _ h => slash_not_mem_of_mem_splitSlash h
  unfold clean
  dsimp only
  split_ifs with empty rooted body
  · exact .inl rfl
  · exact .inr (.inl ⟨_, by simpa only [rooted, decide_True] using k true, rfl⟩)
  · exact .inl rfl
  · exact .inr (.inr ⟨_, by simpa only [rooted, decide_False] using k false,
      Bool.eq_false_iff.mpr body, rfl⟩)

/-- `path.Clean` is idempotent. -/
theorem clean_clean (p : String) : clean (clean p) = clean p := by
  rcases clean_cases p with eq | ⟨kept, k, eq⟩ | ⟨kept, k, ne, eq⟩ <;> rw [eq]
  · rfl
  · exact clean_rooted_kept k
  · exact clean_relative_kept k ne

/-- A cleaned path never holds two slashes in a row. -/
theorem clean_ne_slash_slash (p : String) (xs ys : List Char) :
    (clean p).toList ≠ xs ++ '/' :: '/' :: ys := by
  intro eq
  have split := congrArg splitSlash eq
  rw [splitSlash_append_slash, splitSlash] at split
  obtain ⟨a, as, ha⟩ := List.exists_cons_of_ne_nil (splitSlash_ne_nil xs)
  obtain ⟨b, bs, hb⟩ := List.exists_cons_of_ne_nil (splitSlash_ne_nil ys)
  rw [ha, hb] at split
  rcases clean_cases p with c | ⟨kept, k, c⟩ | ⟨kept, k, ne, c⟩ <;> rw [c] at split
  · cases as <;> cases split
  · rw [show ("/" ++ String.intercalate "/" (kept.reverse.map String.mk)).toList =
        '/' :: ['/'].intercalate kept.reverse by rw [← toList_intercalate]; rfl,
      splitSlash] at split
    rcases kept with _ | ⟨e, kept⟩
    · cases as <;> simp [List.intercalate, splitSlash] at split
    · rw [splitSlash_kept k (List.cons_ne_nil _ _)] at split
      have : [] ∈ (e :: kept).reverse := by
        rw [(List.cons.inj split).2]; simp
      exact (k.mem (List.mem_reverse.mp this)).1 rfl
  · have nonNil : kept ≠ [] := by rintro rfl; exact absurd ne (by decide)
    rw [toList_intercalate, splitSlash_kept k nonNil] at split
    have : [] ∈ kept.reverse := by rw [split]; simp
    exact (k.mem (List.mem_reverse.mp this)).1 rfl

/-! ## `path.Join` on clean directories -/

/-- `strings.HasPrefix` holds when the string's characters start with the prefix's. -/
theorem hasPrefix_iff {s pre : String} :
    hasPrefix s pre = true ↔ ∃ t, s.toList = pre.toList ++ t := by
  rw [hasPrefix, List.isPrefixOf_iff_prefix]
  exact ⟨fun ⟨t, h⟩ => ⟨t, h.symm⟩, fun ⟨t, h⟩ => ⟨t, h.symm⟩⟩

/-- `strings.TrimPrefix` removes a prefix that is there: putting it back gives the string. -/
theorem trimPrefix_append {s pre : String} (h : hasPrefix s pre = true) :
    pre ++ trimPrefix s pre = s := by
  obtain ⟨t, ht⟩ := hasPrefix_iff.mp h
  rw [trimPrefix, if_pos h, String.ext_iff]
  show pre.toList ++ s.toList.drop pre.toList.length = s.toList
  rw [ht, List.drop_left]

theorem trimPrefix_of_hasPrefix_false {s pre : String} (h : hasPrefix s pre = false) :
    trimPrefix s pre = s := by
  rw [trimPrefix, if_neg (by simp [h])]

theorem isAbs_of_hasPrefix {s pre : String} (abs : isAbs pre = true) (h : hasPrefix s pre = true) :
    isAbs s = true := by
  obtain ⟨t, ht⟩ := hasPrefix_iff.mp abs
  obtain ⟨v, hv⟩ := hasPrefix_iff.mp h
  exact hasPrefix_iff.mpr ⟨t ++ v, by rw [hv, ht]; simp⟩

/-- `path.Join` returns the empty string or a cleaned path. -/
theorem join_cases (es : List String) : join es = "" ∨ ∃ q, join es = clean q := by
  unfold join
  split
  · exact .inl rfl
  · exact .inr ⟨_, rfl⟩

theorem isEmpty_of_isAbs {p : String} (h : isAbs p = true) : p.isEmpty = false := by
  obtain ⟨t, h⟩ := hasPrefix_iff.mp h
  obtain ⟨data⟩ := p
  obtain rfl : data = '/' :: t := h
  rfl

theorem join_pair {a : String} (b : String) (ne : a.isEmpty = false) :
    join [a, b] = clean (a ++ "/" ++ b) := by
  simp only [join, List.dropWhile_cons, ne, Bool.false_eq_true, if_false]
  rfl

/-- A clean absolute path other than `/`: the directories `path.Join` extends by a name. -/
structure CleanDir (p : String) : Prop where
  clean_eq : clean p = p
  abs : isAbs p = true
  notRoot : p ≠ "/"

/-- The elements of a clean directory. -/
theorem CleanDir.elems {p : String} (d : CleanDir p) :
    ∃ kept, Kept true kept ∧ kept ≠ [] ∧
      p = "/" ++ String.intercalate "/" (kept.reverse.map String.mk) := by
  have slash : p.toList.head? = some '/' := by
    obtain ⟨t, h⟩ := hasPrefix_iff.mp d.abs
    rw [h]; rfl
  rcases clean_cases p with eq | ⟨kept, k, eq⟩ | ⟨kept, k, ne, eq⟩ <;> rw [d.clean_eq] at eq
  · rw [eq] at slash; cases slash
  · refine ⟨kept, k, ?_, eq⟩
    rintro rfl
    exact d.notRoot eq
  · have nonNil : kept ≠ [] := by rintro rfl; exact absurd ne (by decide)
    obtain ⟨c, cs, chars, relative⟩ := intercalate_kept k nonNil
    rw [eq, toList_intercalate, chars] at slash
    cases slash
    exact absurd rfl relative

theorem CleanDir.join_eq {p : String} (d : CleanDir p) (n : String) :
    join [p, n] = clean (p ++ "/" ++ n) :=
  join_pair n (isEmpty_of_isAbs d.abs)

/-- Cleaning a rooted path cleans its elements after the leading slash. -/
theorem clean_slash (S : String) :
    clean ("/" ++ S) =
      "/" ++ String.intercalate "/"
        ((cleanElems true [] (splitSlash S.toList)).reverse.map String.mk) := by
  unfold clean
  simp only [show ("/" ++ S).isEmpty = false from rfl, show ("/" ++ S).front = '/' from rfl,
    decide_True]
  rw [show ("/" ++ S).toList = '/' :: S.toList from rfl, splitSlash, cleanElems_empty]
  rfl

/-- What follows a clean directory and a slash is cleaned on top of the directory's elements. -/
theorem CleanDir.clean_append {p : String} (d : CleanDir p) :
    ∃ kept, Kept true kept ∧ kept ≠ [] ∧
      p = "/" ++ String.intercalate "/" (kept.reverse.map String.mk) ∧
      ∀ S, clean (p ++ "/" ++ S) =
        "/" ++ String.intercalate "/"
          ((cleanElems true kept (splitSlash S.toList)).reverse.map String.mk) := by
  obtain ⟨kept, k, ne, rfl⟩ := d.elems
  refine ⟨kept, k, ne, rfl, fun S => ?_⟩
  have chars : (String.intercalate "/" (kept.reverse.map String.mk) ++ "/" ++ S).toList =
      ['/'].intercalate kept.reverse ++ '/' :: S.toList := by
    rw [String.append_assoc, ← toList_intercalate]; rfl
  rw [String.append_assoc "/", String.append_assoc "/", clean_slash,
    chars, splitSlash_append_slash, splitSlash_kept k ne, cleanElems_append, cleanElems_reverse k]

theorem intercalate_append_name {es : List (List Char)} (ne : es ≠ []) (n : String) :
    String.intercalate "/" ((es ++ [n.toList]).map String.mk) =
      String.intercalate "/" (es.map String.mk) ++ "/" ++ n := by
  rw [String.append_assoc]
  refine String.ext_iff.mpr ?_
  show (String.intercalate "/" ((es ++ [n.toList]).map String.mk)).toList =
    (String.intercalate "/" (es.map String.mk)).toList ++ '/' :: n.toList
  rw [toList_intercalate, toList_intercalate, intercalate_append_single ne]

/-- `path.Join` of a clean directory and a name appends the name, and gives a clean
directory again. -/
theorem CleanDir.join_name {p n : String} (d : CleanDir p) (name : IsName n.toList) :
    join [p, n] = p ++ "/" ++ n ∧ CleanDir (p ++ "/" ++ n) := by
  obtain ⟨kept, k, ne, rfl, append⟩ := d.clean_append
  have spelled : "/" ++ String.intercalate "/" ((n.toList :: kept).reverse.map String.mk) =
      "/" ++ String.intercalate "/" (kept.reverse.map String.mk) ++ "/" ++ n := by
    rw [List.reverse_cons, intercalate_append_name (List.reverse_ne_nil_iff.mpr ne)]
    simp only [String.append_assoc]
  have joined : join ["/" ++ String.intercalate "/" (kept.reverse.map String.mk), n] =
      "/" ++ String.intercalate "/" (kept.reverse.map String.mk) ++ "/" ++ n := by
    rw [d.join_eq, append, splitSlash_of_slash_not_mem name.noSlash, cleanElems_cons_name name]
    exact spelled
  refine ⟨joined, ⟨?_, hasPrefix_iff.mpr ⟨_, rfl⟩, fun root => ?_⟩⟩
  · rw [← spelled]; exact clean_rooted_kept (k.cons_name name)
  · have := congrArg (fun s => s.toList.length) root
    simp at this

theorem CleanDir.join_dot {p : String} (d : CleanDir p) : join [p, "."] = p := by
  rw [d.join_eq]
  obtain ⟨kept, k, ne, rfl, append⟩ := d.clean_append
  rw [append]
  rfl

theorem CleanDir.join_slash {p : String} (d : CleanDir p) : join [p, "/"] = p := by
  rw [d.join_eq]
  obtain ⟨kept, k, ne, rfl, append⟩ := d.clean_append
  rw [append]
  rfl

/-- `..` after a name in a clean directory removes the name. -/
theorem CleanDir.join_dotDot {q n : String} (d : CleanDir q) (name : IsName n.toList) :
    join [q ++ "/" ++ n, ".."] = q := by
  rw [(d.join_name name).2.join_eq,
    show q ++ "/" ++ n ++ "/" ++ ".." = q ++ "/" ++ (n ++ "/" ++ "..") by
      simp only [String.append_assoc]]
  have chars : (n ++ "/" ++ "..").toList = n.toList ++ '/' :: ['.', '.'] := by
    rw [String.append_assoc]; rfl
  obtain ⟨kept, k, ne, rfl, append⟩ := d.clean_append
  rw [append, chars, splitSlash_append_slash, splitSlash_of_slash_not_mem name.noSlash,
    List.singleton_append, cleanElems_cons_name name]
  rw [show splitSlash ['.', '.'] = [['.', '.']] from rfl, cleanElems.eq_2, if_neg (by decide),
    if_pos rfl, if_neg name.notDotDot]
  rfl

/-! ## `filepath.Base` -/

/-- `filepath.Base` returns `.`, `/`, or a last element: not empty and without a slash. -/
theorem base_cases (p : String) :
    base p = "." ∨ base p = "/" ∨ ((base p).toList ≠ [] ∧ '/' ∉ (base p).toList) := by
  unfold base
  dsimp only
  split_ifs with empty last
  · exact .inl rfl
  · exact .inr (.inl rfl)
  · refine .inr (.inr ⟨fun nil => last (by simpa using nil), fun slash => ?_⟩)
    have := List.mem_takeWhile_imp (List.mem_reverse.mp slash)
    simp at this

end Bitcoinx.Go
