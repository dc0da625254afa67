import Mathlib.Data.List.Basic

/-!
# `ui.Tree`: the directory tree `create` prints

`Tree(p, ignore)` reads the directory `p` and, through `walk`, every directory below it: each
entry whose name is in `ignore` is skipped, a directory becomes a branch filled by a recursive
`walk`, and any other entry a leaf. The first error of `ioutil.ReadDir` stops the walk, and
`Tree` returns it without printing anything.

A directory tree is given by what `ReadDir` returns for each directory in it. `ReadDir` lists a
symbolic link as a file, so `walk` does not follow it and the tree is finite. What `walk` does is
stated over the paths of the tree, name by name from `p`, in the order of the walk:

* `walk_paths`: when `walk` succeeds it has shown exactly the entries none of whose path's names
  is ignored, at any depth, files as leaves and directories as branches;
* `walk_error`: `walk` fails exactly when a directory it reaches cannot be read, one with no
  ignored name on its path, and it returns the error of the first one.
-/

namespace Bitcoinx.Ui

/-! ## Directory trees and printed trees -/

/-- A directory entry as `ioutil.ReadDir` lists it: a file, or a directory together with what
`ReadDir` of its path returns. -/
inductive Entry where
  | file (name : String)
  | dir (name : String) (contents : Except String (List Entry))

/-- A node of the `treeprint` tree: a leaf `AddNode` adds, or a branch `AddBranch` adds with
what is added under it. -/
inductive Printed where
  | node (name : String)
  | branch (name : String) (children : List Printed)

/-! ## `walk` and `Tree` -/

/-- The loop of `walk(p, node, ignore)` over the entries `ReadDir(p)` returned: the nodes it
adds under `node`, or the first error. -/
def walk (ignore : List String) : List Entry → Except String (List Printed)
  | [] => .ok []
  | .file name :: rest =>
    if name ∈ ignore then walk ignore rest
    else (Printed.node name :: ·) <$> walk ignore rest
  | .dir name (.error e) :: rest =>
    if name ∈ ignore then walk ignore rest
    else .error e
  | .dir name (.ok entries) :: rest =>
    if name ∈ ignore then walk ignore rest
    else do
      let sub ← walk ignore entries
      let more ← walk ignore rest
      return .branch name sub :: more
decreasing_by
  all_goals
    simp only [InvImage, WellFoundedRelation.rel, sizeOfWFRel, measure, Nat.lt_wfRel,
      List.cons.sizeOf_spec, Entry.file.sizeOf_spec, Entry.dir.sizeOf_spec, Except.ok.sizeOf_spec]
    omega

/-- `Tree(p, ignore)`, given what `ReadDir(p)` returns: the tree `Verbose` prints, rooted at
`p`, or the first error. -/
def tree (p : String) (ignore : List String) :
    Except String (List Entry) → Except String Printed
  | .error e => .error e
  | .ok entries => (Printed.branch p ·) <$> walk ignore entries


/-! ## Paths -/

/-- No name on the path is ignored. -/
def unignored (ignore : List String) (path : List String) : Bool :=
  path.all fun name => decide (name ∉ ignore)

/-- The entries of a directory tree in the order `walk` visits them, each with its path of names
and whether it is a directory. A directory that cannot be read has no entries. -/
def entryPaths : List Entry → List (List String × Bool)
  | [] => []
  | .file name :: rest => ([name], false) :: entryPaths rest
  | .dir name (.error _) :: rest => ([name], true) :: entryPaths rest
  | .dir name (.ok entries) :: rest =>
    ([name], true) :: (entryPaths entries).map (fun q => (name :: q.1, q.2)) ++ entryPaths rest

/-- The nodes of a printed tree in order, each with its path of names and whether it is a
branch. -/
def printedPaths : List Printed → List (List String × Bool)
  | [] => []
  | .node name :: rest => ([name], false) :: printedPaths rest
  | .branch name children :: rest =>
    ([name], true) :: (printedPaths children).map (fun q => (name :: q.1, q.2)) ++
      printedPaths rest

/-- The directories of a tree that cannot be read, in the order `walk` reaches them, each with
its path of names and the error of `ReadDir`. -/
def failures : List Entry → List (List String × String)
  | [] => []
  | .file _ :: rest => failures rest
  | .dir name (.error e) :: rest => ([name], e) :: failures rest
  | .dir name (.ok entries) :: rest =>
    (failures entries).map (fun f => (name :: f.1, f.2)) ++ failures rest

section Walk

variable {ignore : List String}

theorem map_eq_ok {α β : Type} {f : α → β} {x : Except String α} {b : β}
    (h : f <$> x = .ok b) : ∃ a, x = .ok a ∧ f a = b := by
  cases x with
  | error e => cases h
  | ok a => exact ⟨a, rfl, Except.ok.inj h⟩

theorem bind_eq_ok {α β : Type} {x : Except String α} {f : α → Except String β} {b : β}
    (h : x >>= f = .ok b) : ∃ a, x = .ok a ∧ f a = .ok b := by
  cases x with
  | error e => cases h
  | ok a => exact ⟨a, rfl, h⟩

theorem map_eq_error {α β : Type} {f : α → β} {x : Except String α} {e : String} :
    f <$> x = .error e ↔ x = .error e := by
  cases x <;> simp [Functor.map, Except.map]

theorem unignored_cons (name : String) (path : List String) :
    unignored ignore (name :: path) = (decide (name ∉ ignore) && unignored ignore path) :=
  List.all_cons

/-- Paths under an ignored name are all dropped. -/
theorem filter_under_ignored {β : Type} {name : String} (skip : name ∈ ignore)
    (qs : List (List String × β)) :
    (qs.map fun q => (name :: q.1, q.2)).filter (fun q => unignored ignore q.1) = [] := by
  simp [List.filter_map, Function.comp_def, unignored_cons, skip]

/-- Paths under a name that is not ignored are kept or dropped as they are without it. -/
theorem filter_under_kept {β : Type} {name : String} (keep : name ∉ ignore)
    (qs : List (List String × β)) :
    (qs.map fun q => (name :: q.1, q.2)).filter (fun q => unignored ignore q.1) =
      (qs.filter fun q => unignored ignore q.1).map fun q => (name :: q.1, q.2) := by
  simp [List.filter_map, Function.comp_def, unignored_cons, keep]

/-- When `walk` succeeds it has shown exactly the entries with no ignored name on their path,
at every depth, in the order of the walk: files as leaves and directories as branches. -/
theorem walk_paths {entries : List Entry} {shown : List Printed}
    (ok : walk ignore entries = .ok shown) :
    printedPaths shown = (entryPaths entries).filter (fun q => unignored ignore q.1) := by
  induction entries using walk.induct ignore generalizing shown with
  | case1 =>
    rw [walk] at ok
    cases ok
    simp [printedPaths, entryPaths]
  | case2 name rest skip ih =>
    rw [walk, if_pos skip] at ok
    simp [entryPaths, unignored_cons, skip, ih ok]
  | case3 name rest keep ih =>
    rw [walk, if_neg keep] at ok
    obtain ⟨more, moreOk, rfl⟩ := map_eq_ok ok
    simp [printedPaths, entryPaths, List.filter_cons, unignored_cons, keep, ih moreOk, unignored]
  | case4 name e rest skip ih =>
    rw [walk, if_pos skip] at ok
    simp [entryPaths, unignored_cons, skip, ih ok]
  | case5 name e rest keep =>
    rw [walk, if_neg keep] at ok
    cases ok
  | case6 name entries rest skip ih =>
    rw [walk, if_pos skip] at ok
    simp only [entryPaths, List.filter_cons, List.filter_append, filter_under_ignored skip,
      unignored_cons, skip, ih ok]
    simp
  | case7 name entries rest keep ihSub ihRest =>
    rw [walk, if_neg keep] at ok
    obtain ⟨sub, subOk, ok⟩ := bind_eq_ok ok
    obtain ⟨more, moreOk, ok⟩ := bind_eq_ok ok
    cases ok
    simp only [printedPaths, entryPaths, List.filter_cons, List.filter_append,
      filter_under_kept keep, unignored_cons, keep, ihSub subOk, ihRest moreOk]
    simp [unignored]

/-- A scaffolded application whose `k8s` directory cannot be read. -/
def scaffolded : List Entry :=
  [.dir "app" (.ok [.file "main.go"]), .dir "k8s" (.error "open k8s: permission denied"),
    .file "chainkit.yml"]

/-- What `create` prints of it. -/
def scaffoldedShown : List Printed := [.branch "app" [.node "main.go"], .node "chainkit.yml"]

theorem walk_paths_scaffolded :
    walk ["k8s"] scaffolded = .ok scaffoldedShown ∧
      printedPaths scaffoldedShown =
        (entryPaths scaffolded).filter (fun q => unignored ["k8s"] q.1) :=
  have ok : walk ["k8s"] scaffolded = .ok scaffoldedShown := by simp [scaffolded, walk]; rfl
  ⟨ok, walk_paths ok⟩

/-- The first failure under a name: none when the name is ignored, and otherwise the first
failure with no ignored name below it. -/
theorem find?_under {name : String} (fs : List (List String × String)) :
    (fs.map fun f => (name :: f.1, f.2)).find? (fun f => unignored ignore f.1) =
      if name ∈ ignore then none
      else (fs.find? fun f => unignored ignore f.1).map fun f => (name :: f.1, f.2) := by
  rw [List.find?_map]
  by_cases skip : name ∈ ignore
  · simp [Function.comp_def, unignored_cons, skip]
  · simp [Function.comp_def, unignored_cons, skip]

/-- `walk` fails exactly when a directory it reaches cannot be read, one with no ignored name on
its path, and it fails with the error of the first one. -/
theorem walk_error (entries : List Entry) (e : String) :
    walk ignore entries = .error e ↔
      ((failures entries).find? fun f => unignored ignore f.1).map Prod.snd = some e := by
  induction entries using walk.induct ignore generalizing e with
  | case1 => simp [walk, failures]
  | case2 name rest skip ih => rw [walk, if_pos skip, failures]; exact ih e
  | case3 name rest keep ih => rw [walk, if_neg keep, map_eq_error, failures]; exact ih e
  | case4 name e' rest skip ih =>
    rw [walk, if_pos skip, failures, List.find?_cons_of_neg _ (by simp [unignored, skip])]
    exact ih e
  | case5 name e' rest keep =>
    rw [walk, if_neg keep, failures, List.find?_cons_of_pos _ (by simp [unignored, keep])]
    simp
  | case6 name entries rest skip ih =>
    rw [walk, if_pos skip, failures, List.find?_append, find?_under, if_pos skip,
      Option.none_or]
    exact ih e
  | case7 name entries rest keep ihSub ihRest =>
    rw [walk, if_neg keep, failures, List.find?_append, find?_under, if_neg keep]
    cases sub : walk ignore entries with
    | error e₀ =>
      obtain ⟨f, first, rfl⟩ := Option.map_eq_some'.mp ((ihSub e₀).mp sub)
      simp [first, bind, Except.bind]
    | ok shown =>
      have none_ : (failures entries).find? (fun f => unignored ignore f.1) = none := by
        cases first : (failures entries).find? (fun f => unignored ignore f.1) with
        | none => rfl
        | some f => simp [(ihSub f.2).mpr (by simp [first])] at sub
      simp only [bind, Except.bind, none_, Option.map_none', Option.none_or]
      rw [← ihRest e]
      cases walk ignore rest <;> simp [pure, Except.pure]

end Walk

end Bitcoinx.Ui
