import Bitcoinx.Go.Path

/-!
# Where the commands put a network's files

`config.Config` derives every directory of a node from `RootDir`. The `join` command sets
`RootDir` to `path.Join(networksDir, filepath.Base(chainID))`, so that each network gets its
own directory under `networksDir`; `create` renders its templates with a Go package path
`GoPkg` taken from the destination directory by trimming the GOPATH source directory.

Both derivations use string operations where a path operation was meant:

* `join_dotdot_leaves_networks_dir`: `filepath.Base` passes `..` through, and maps `.`, the
  empty string and `/` to names that `path.Join` folds back into `networksDir` itself.
* `scaffold_sibling_of_gopath`: `strings.HasPrefix(rootDir, gosource)` accepts a sibling of
  `gosource` that `strings.TrimPrefix(rootDir, gosource + "/")` then leaves whole.

Outside those inputs the layouts are what was meant. For a clean absolute `$HOME`,
`joinConfig_inside_iff` says `RootDir` lies strictly inside `networksDir` exactly when the
chain ID's base is not `.`, `..` or `/`, and then every path of the configuration does too
(`Config.paths_inside`). `scaffold_goPkg` says `GoPkg` is absolute exactly when the
destination is not below `gosource + "/"`, and otherwise joins back to the destination.
-/

namespace Bitcoinx.Cmd

open Bitcoinx.Go

/-! ## `config.Config` -/

/-- `config.Config`, with the field the path methods read. -/
structure Config where
  rootDir : String
  deriving DecidableEq, Repr

namespace Config

variable (getwd : Except String String) (c : Config)

/-- `StateDir`: `state` under `RootDir` made absolute, or under `RootDir` itself when
`filepath.Abs` fails. -/
def stateDir : String :=
  let r := match abs getwd c.rootDir with
    | .ok r => r
    | .error _ => c.rootDir
  join [r, "state"]

/-- `LogFile`. -/
def logFile : String := join [c.stateDir getwd, "log"]

/-- `DataDir`. -/
def dataDir : String := join [c.stateDir getwd, "data"]

/-- `ConfigDir`. -/
def configDir : String := join [c.stateDir getwd, "config"]

/-- `ConfigFile`. -/
def configFile : String := join [c.configDir getwd, "config.toml"]

/-- `ManifestPath`. -/
def manifestPath : String := join [c.rootDir, "chainkit.yml"]

/-- `GenesisPath`. -/
def genesisPath : String := join [c.configDir getwd, "genesis.json"]

/-- `CLIDir`. -/
def cliDir : String := join [c.stateDir getwd, "cli"]

/-- `IPFSDir`: where `discovery.Start` initialises and opens the IPFS repository. -/
def ipfsDir : String := join [c.stateDir getwd, "ipfs"]

/-- Every path a `Config` method returns. -/
def paths : List String :=
  [c.stateDir getwd, c.logFile getwd, c.dataDir getwd, c.configDir getwd, c.configFile getwd,
    c.manifestPath, c.genesisPath getwd, c.cliDir getwd, c.ipfsDir getwd]

end Config

/-- `p` names an entry strictly below the directory `dir`. -/
def strictlyInside (dir p : String) : Bool :=
  hasPrefix p (dir ++ "/") && dir.length + 1 < p.length

theorem strictlyInside_append {dir n : String} (ne : n.toList ≠ []) :
    strictlyInside dir (dir ++ "/" ++ n) = true := by
  simp only [strictlyInside, Bool.and_eq_true, decide_eq_true_eq]
  refine ⟨hasPrefix_iff.mpr ⟨n.toList, rfl⟩, ?_⟩
  have : 0 < n.length := List.length_pos.mpr ne
  simp only [String.length_append]
  show dir.length + 1 < dir.length + 1 + n.length
  omega

theorem strictlyInside_of_length_le {dir p : String} (short : p.length ≤ dir.length) :
    strictlyInside dir p = false := by
  simp only [strictlyInside, Bool.and_eq_false_iff, decide_eq_false_iff_not]
  exact .inr (by omega)

theorem strictlyInside_trans {a b c : String} (ab : strictlyInside a b = true)
    (bc : strictlyInside b c = true) : strictlyInside a c = true := by
  simp only [strictlyInside, Bool.and_eq_true, decide_eq_true_eq, hasPrefix_iff] at *
  obtain ⟨⟨t, hb⟩, lb⟩ := ab
  obtain ⟨⟨u, hc⟩, lc⟩ := bc
  refine ⟨⟨t ++ '/' :: u, ?_⟩, by omega⟩
  rw [hc]
  show b.toList ++ ['/'] ++ u = a.toList ++ ['/'] ++ (t ++ '/' :: u)
  rw [hb]
  show a.toList ++ ['/'] ++ t ++ ['/'] ++ u = _
  simp

/-- A name under a clean directory is strictly inside it, and a clean directory again. -/
theorem join_inside {p : String} (d : CleanDir p) (n : String) (name : IsName n.toList) :
    strictlyInside p (join [p, n]) = true ∧ CleanDir (join [p, n]) := by
  obtain ⟨eq, d'⟩ := d.join_name name
  rw [eq]
  exact ⟨strictlyInside_append name.nonempty, d'⟩

namespace Config

/-- With a clean absolute `RootDir`, `StateDir` does not ask for the working directory. -/
theorem stateDir_of_cleanDir {getwd : Except String String} {c : Config} (d : CleanDir c.rootDir) :
    c.stateDir getwd = join [c.rootDir, "state"] := by
  simp only [stateDir, Go.abs, d.abs, if_true, d.clean_eq]

/-- With a clean absolute `RootDir`, every path of the configuration lies strictly inside it,
whatever the working directory. -/
theorem paths_inside {getwd : Except String String} {c : Config} (d : CleanDir c.rootDir) :
    ∀ p ∈ c.paths getwd, strictlyInside c.rootDir p = true := by
  obtain ⟨stateIn, stateClean⟩ := join_inside d "state" (by decide)
  obtain ⟨-, configClean⟩ := join_inside stateClean "config" (by decide)
  have below (n : String) (name : IsName n.toList) :
      strictlyInside c.rootDir (join [join [c.rootDir, "state"], n]) = true :=
    strictlyInside_trans stateIn (join_inside stateClean n name).1
  have inConfig (n : String) (name : IsName n.toList) :
      strictlyInside c.rootDir (join [join [join [c.rootDir, "state"], "config"], n]) = true :=
    strictlyInside_trans (below "config" (by decide)) (join_inside configClean n name).1
  have state : c.stateDir getwd = join [c.rootDir, "state"] := stateDir_of_cleanDir d
  have config : c.configDir getwd = join [join [c.rootDir, "state"], "config"] := by
    rw [configDir, state]
  simp only [paths, List.mem_cons, List.not_mem_nil, or_false]
  rintro p (rfl | rfl | rfl | rfl | rfl | rfl | rfl | rfl | rfl)
  · rw [state]; exact stateIn
  · rw [logFile, state]; exact below "log" (by decide)
  · rw [dataDir, state]; exact below "data" (by decide)
  · rw [config]; exact below "config" (by decide)
  · rw [configFile, config]; exact inConfig "config.toml" (by decide)
  · exact (join_inside d "chainkit.yml" (by decide)).1
  · rw [genesisPath, config]; exact inConfig "genesis.json" (by decide)
  · rw [cliDir, state]; exact below "cli" (by decide)
  · rw [ipfsDir, state]; exact below "ipfs" (by decide)

end Config

/-! ## The `join` command -/

/-- `networksDir`: `os.ExpandEnv("$HOME/.bitcoinx/networks")`. -/
def networksDir (home : String) : String := home ++ "/.bitcoinx/networks"

/-- The configuration `joinCmd` builds for the chain ID it is given. -/
def joinConfig (home chainID : String) : Config :=
  ⟨join [networksDir home, base chainID]⟩

/-- With `HOME=/root`, joining the chain `..` puts the network in `/root/.bitcoinx`, the
parent of `networksDir`: its state, IPFS repository and manifest all land outside it. The
chains `.`, the empty string and `/` get `networksDir` itself. -/
theorem join_dotdot_leaves_networks_dir :
    (joinConfig "/root" "..").rootDir = "/root/.bitcoinx" ∧
      (joinConfig "/root" "..").stateDir (.ok "/") = "/root/.bitcoinx/state" ∧
      (joinConfig "/root" "..").ipfsDir (.ok "/") = "/root/.bitcoinx/state/ipfs" ∧
      (joinConfig "/root" "..").genesisPath (.ok "/") =
        "/root/.bitcoinx/state/config/genesis.json" ∧
      (joinConfig "/root" "..").manifestPath = "/root/.bitcoinx/chainkit.yml" ∧
      strictlyInside (networksDir "/root") (joinConfig "/root" "..").rootDir = false ∧
      ∀ chainID ∈ [".", "", "/"],
        (joinConfig "/root" chainID).rootDir = networksDir "/root" := by
  decide

/-- `networksDir` of a clean home directory is `.bitcoinx/networks` below it, a clean
directory. -/
theorem networksDir_cleanDir {home : String} (d : CleanDir home) :
    networksDir home = home ++ "/" ++ ".bitcoinx" ++ "/" ++ "networks" ∧
      CleanDir (networksDir home) := by
  have eq : networksDir home = home ++ "/" ++ ".bitcoinx" ++ "/" ++ "networks" := by
    simp only [networksDir, String.append_assoc]; rfl
  rw [eq]
  exact ⟨rfl, ((d.join_name (by decide)).2.join_name (by decide)).2⟩

/-- Where `joinCmd` puts a network: in `networksDir` itself for the chain IDs whose base is `.`
or `/`, in its parent for those whose base is `..`, and in the base's own directory below it
otherwise. -/
theorem joinConfig_rootDir {home : String} (d : CleanDir home) (chainID : String) :
    (base chainID ∈ [".", "/"] ∧ (joinConfig home chainID).rootDir = networksDir home) ∨
    (base chainID = ".." ∧ (joinConfig home chainID).rootDir = home ++ "/" ++ ".bitcoinx") ∨
    (IsName (base chainID).toList ∧
      (joinConfig home chainID).rootDir = networksDir home ++ "/" ++ base chainID) := by
  obtain ⟨eq, networks⟩ := networksDir_cleanDir d
  simp only [joinConfig]
  rcases base_cases chainID with b | b | ⟨nonempty, noSlash⟩
  · exact .inl ⟨by simp [b], by rw [b, networks.join_dot]⟩
  · exact .inl ⟨by simp [b], by rw [b, networks.join_slash]⟩
  by_cases dot : (base chainID).toList = ['.']
  · have b : base chainID = "." := String.ext_iff.mpr dot
    exact .inl ⟨by simp [b], by rw [b, networks.join_dot]⟩
  by_cases dotDot : (base chainID).toList = ['.', '.']
  · have b : base chainID = ".." := String.ext_iff.mpr dotDot
    refine .inr (.inl ⟨b, ?_⟩)
    rw [b, eq, (d.join_name (by decide)).2.join_dotDot (by decide)]
  · have name : IsName (base chainID).toList := ⟨nonempty, dot, dotDot, noSlash⟩
    exact .inr (.inr ⟨name, (networks.join_name name).1⟩)

/-- For a clean absolute `$HOME`, the network's directory lies strictly inside `networksDir`
exactly when the chain ID's base is not `.`, `..` or `/`; and then so does every path of its
configuration. -/
theorem joinConfig_inside_iff {home : String} (d : CleanDir home) (getwd : Except String String)
    (chainID : String) :
    (strictlyInside (networksDir home) (joinConfig home chainID).rootDir = true ↔
        base chainID ∉ [".", "..", "/"]) ∧
      (base chainID ∉ [".", "..", "/"] →
        ∀ p ∈ (joinConfig home chainID).paths getwd, strictlyInside (networksDir home) p = true) := by
  obtain ⟨eq, networks⟩ := networksDir_cleanDir d
  rcases joinConfig_rootDir d chainID with ⟨b, root⟩ | ⟨b, root⟩ | ⟨name, root⟩
  · have outside :
        strictlyInside (networksDir home) (joinConfig home chainID).rootDir = false := by
      rw [root]; exact strictlyInside_of_length_le le_rfl
    simp only [List.mem_cons, List.not_mem_nil, or_false] at b
    rcases b with b | b <;> simp [outside, b]
  · have outside :
        strictlyInside (networksDir home) (joinConfig home chainID).rootDir = false := by
      rw [root, eq]
      exact strictlyInside_of_length_le (by simp only [String.length_append]; omega)
    simp [outside, b]
  · have fresh : base chainID ∉ [".", "..", "/"] := by
      simp only [List.mem_cons, List.not_mem_nil, or_false, not_or]
      exact ⟨fun b => name.notDot (by rw [b]; rfl), fun b => name.notDotDot (by rw [b]; rfl),
        fun b => name.noSlash (by rw [b]; exact .head _)⟩
    have inside : strictlyInside (networksDir home) (joinConfig home chainID).rootDir = true := by
      rw [root]; exact strictlyInside_append name.nonempty
    refine ⟨iff_of_true inside fresh, fun _ p mem => strictlyInside_trans inside ?_⟩
    exact Config.paths_inside (by rw [root]; exact (networks.join_name name).2) p mem

/-- With `HOME=/root`, the chain `testnet` gets its own directory inside `networksDir`, and
every path of its configuration lies there too. -/
theorem joinConfig_inside_iff_testnet :
    CleanDir "/root" ∧
      (strictlyInside (networksDir "/root") (joinConfig "/root" "testnet").rootDir = true ↔
          base "testnet" ∉ [".", "..", "/"]) ∧
        (base "testnet" ∉ [".", "..", "/"] →
          ∀ p ∈ (joinConfig "/root" "testnet").paths (.ok "/"),
            strictlyInside (networksDir "/root") p = true) :=
  have home : CleanDir "/root" := ⟨by decide, by decide, by decide⟩
  ⟨home, joinConfig_inside_iff home (.ok "/") "testnet"⟩

/-! ## The `create` command -/

/-- `templateContext`. -/
structure TemplateContext where
  name : String
  rootDir : String
  goPkg : String
  deriving DecidableEq, Repr

/-- What `os.Stat(rootDir)` reports, as `scaffold` tests it with `os.IsNotExist`. -/
inductive StatResult where
  | found
  | notExist
  | otherError
  deriving DecidableEq, Repr

/-- The errors `scaffold` returns before it writes anything, with the path each names. -/
inductive ScaffoldError where
  /-- "you must run this command within your GOPATH (%q)", naming `goPath()`. -/
  | outsideGopath (goPath : String)
  /-- "destination path %q already exists", naming `rootDir`. -/
  | destinationExists (rootDir : String)
  deriving DecidableEq, Repr

/-- `createCmd`'s destination: `path.Join(getCwd(cmd), name)`. -/
def createRootDir (cwd name : String) : String := join [cwd, name]

/-- `scaffold` up to the context it renders the templates with; `goSrc` and `goPath` are the
values of `goSrc()` and `goPath()`, `stat` what `os.Stat` reports. -/
def scaffold (goSrc goPath : String) (stat : String → StatResult) (name rootDir : String) :
    Except ScaffoldError TemplateContext :=
  if !hasPrefix rootDir goSrc then .error (.outsideGopath goPath)
  else if stat rootDir != .notExist then .error (.destinationExists rootDir)
  else .ok ⟨name, rootDir, trimPrefix rootDir (goSrc ++ "/")⟩

/-- With `GOPATH=/go`, `create --cwd /go/src2 app` passes the GOPATH check, and the template
context's `GoPkg` is the absolute `/go/src2/app`, which does not name the destination inside
`/go/src`. -/
theorem scaffold_sibling_of_gopath :
    createRootDir "/go/src2" "app" = "/go/src2/app" ∧
      scaffold "/go/src" "/go" (fun _ => .notExist) "app" "/go/src2/app" =
        .ok ⟨"app", "/go/src2/app", "/go/src2/app"⟩ ∧
      isAbs "/go/src2/app" = true ∧
      join ["/go/src", "/go/src2/app"] ≠ "/go/src2/app" :=
  ⟨by decide, rfl, by decide, by decide⟩

/-- When the destination lies inside the GOPATH source directory, the template context's
`GoPkg` is a relative path that `path.Join` puts back under it; when it only shares the string
prefix, `GoPkg` is the whole absolute destination. -/
theorem scaffold_goPkg {goSrc goPath cwd name : String} {stat : String → StatResult}
    {ctx : TemplateContext} (src : isAbs goSrc = true)
    (ok : scaffold goSrc goPath stat name (createRootDir cwd name) = .ok ctx) :
    isAbs ctx.goPkg = !hasPrefix ctx.rootDir (goSrc ++ "/") ∧
      (hasPrefix ctx.rootDir (goSrc ++ "/") = true → join [goSrc, ctx.goPkg] = ctx.rootDir) := by
  unfold scaffold at ok
  split_ifs at ok with outside
  cases ok
  simp only [Bool.not_eq_true', Bool.not_eq_false] at outside
  dsimp only
  have shape : createRootDir cwd name = "" ∨ ∃ q, createRootDir cwd name = clean q :=
    join_cases [cwd, name]
  generalize createRootDir cwd name = rootDir at shape outside ⊢
  cases inside : hasPrefix rootDir (goSrc ++ "/")
  · rw [trimPrefix_of_hasPrefix_false inside]
    exact ⟨isAbs_of_hasPrefix src outside, nofun⟩
  · have spelled := trimPrefix_append inside
    generalize trimPrefix rootDir (goSrc ++ "/") = pkg at spelled ⊢
    obtain ⟨q, root⟩ := shape.resolve_left fun empty => by
      have length := congrArg String.length spelled
      rw [empty, String.length_append, String.length_append] at length
      have slash : "/".length = 1 := rfl
      have none : "".length = 0 := rfl
      omega
    refine ⟨?_, fun _ => ?_⟩
    · -- a slash after the separator would be an empty element of a cleaned path
      cases absolute : isAbs pkg
      · rfl
      · obtain ⟨w, hw⟩ := hasPrefix_iff.mp absolute
        refine absurd ?_ (clean_ne_slash_slash q goSrc.toList w)
        rw [← root, ← spelled]
        show goSrc.toList ++ ['/'] ++ pkg.toList = _
        rw [hw]
        simp
    · rw [join_pair _ (isEmpty_of_isAbs src), spelled, root, clean_clean]

/-- With `GOPATH=/go`, `create --cwd /go/src/github.com/acme app` renders its templates with
the relative package path `github.com/acme/app`. -/
theorem scaffold_goPkg_acme :
    isAbs "/go/src" = true ∧
      scaffold "/go/src" "/go" (fun _ => .notExist) "app"
          (createRootDir "/go/src/github.com/acme" "app") =
        .ok ⟨"app", "/go/src/github.com/acme/app", "github.com/acme/app"⟩ ∧
      isAbs "github.com/acme/app" = !hasPrefix "/go/src/github.com/acme/app" ("/go/src" ++ "/") ∧
      (hasPrefix "/go/src/github.com/acme/app" ("/go/src" ++ "/") = true →
        join ["/go/src", "github.com/acme/app"] = "/go/src/github.com/acme/app") :=
  have src : isAbs "/go/src" = true := by decide
  have ok : scaffold "/go/src" "/go" (fun _ => .notExist) "app"
      (createRootDir "/go/src/github.com/acme" "app") =
        .ok ⟨"app", "/go/src/github.com/acme/app", "github.com/acme/app"⟩ := rfl
  ⟨src, ok, scaffold_goPkg src ok⟩

end Bitcoinx.Cmd
