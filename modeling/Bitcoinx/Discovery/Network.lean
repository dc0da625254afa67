import Bitcoinx.Go.Path

/-!
# Publishing a network, and joining it

`Publish` makes a sandbox directory with `ioutil.TempDir`, hard-links the manifest, the genesis
file and the image into it as `chainkit.yml`, `genesis.json` and `image.tgz`, adds the directory
to IPFS with `Unixfs().Add` and returns its content id. `Join` parses and fetches
`path.Join("/ipfs", chainID, name)` for the three names: it reads the manifest and the genesis
file whole, and returns the image's file node unread.

The local file system is a list of files with their contents, and `os.Link` works on it as on a
Unix system: it fails for a missing source or a taken target, and otherwise with what the file
system answers, `EXDEV` when the sandbox is on another file system than the artifacts, or a
permission error. IPFS is the environment: what `Add`, `ParsePath` and `Get` return. A content
id names content, not a moment of a run, so one `Unixfs` answers every call, and
`Unixfs.Serves` states what IPFS promises of a directory it has added.

* `join_publish`: with the three files present, a fresh sandbox and links the file system
  allows, `Publish` adds exactly the directory of the three artifacts, and when IPFS serves what
  it adds, `Join` of the id it returns gives back the manifest and the genesis file as they
  were, and the image's node.
-/

namespace Bitcoinx.Discovery

open Bitcoinx.Go

/-! ## The local file system -/

/-- `os.Link(oldname, newname)`: `newname` becomes a second name of the file `oldname`. It fails
when `oldname` does not exist or `newname` does, and otherwise with the error the file system
gives the two names, if any: `linkError` is `EXDEV` ("invalid cross-device link") for names on
two file systems, and a permission error where one forbids the link. -/
def link (linkError : String → String → Option String) (files : List (String × List UInt8))
    (oldname newname : String) : Except String (List (String × List UInt8)) :=
  match files.lookup oldname with
  | none => .error ("link " ++ oldname ++ " " ++ newname ++ ": no such file or directory")
  | some data =>
    if (files.lookup newname).isSome then
      .error ("link " ++ oldname ++ " " ++ newname ++ ": file exists")
    else
      match linkError oldname newname with
      | some e => .error ("link " ++ oldname ++ " " ++ newname ++ ": " ++ e)
      | none => .ok (files ++ [(newname, data)])

/-- The files directly inside the directory `dir`, each under its name: what
`files.NewSerialFile` reads of it. -/
def dirEntries (files : List (String × List UInt8)) (dir : String) :
    List (String × List UInt8) :=
  files.filterMap fun f =>
    if hasPrefix f.1 (dir ++ "/") && !(trimPrefix f.1 (dir ++ "/")).toList.contains '/' then
      some (trimPrefix f.1 (dir ++ "/"), f.2)
    else none

/-! ## IPFS -/

/-- What IPFS returns to the calls `Publish` and `Join` make on `s.api`. -/
structure Unixfs where
  /-- `Unixfs().Add` of a directory, then `p.Cid().String()`: the directory's content id. -/
  add : List (String × List UInt8) → Except String String
  /-- `iface.ParsePath`. -/
  parsePath : String → Except String String
  /-- `Unixfs().Get` of a parsed path, `none` for the nil path `ParsePath` returns with an
  error. A file node is given by what `ioutil.ReadAll` of it returns. -/
  get : Option String → Except String (Except String (List UInt8))

/-- What IPFS promises of a directory it has added under the id `c`: `c` is one path element,
and each entry `n` of the directory is served, whole, under `/ipfs/<c>/<n>`. -/
structure Unixfs.Serves (api : Unixfs) (dir : List (String × List UInt8)) (c : String) :
    Prop where
  cid : IsName c.toList
  entry : ∀ n data, dir.lookup n = some data →
    ∃ p, api.parsePath ("/ipfs/" ++ c ++ "/" ++ n) = .ok p ∧ api.get (some p) = .ok (.ok data)

/-! ## `Publish` and `Join` -/

/-- What `Publish`'s other collaborators return: `ioutil.TempDir` the sandbox it made, `os.Stat`
and `files.NewSerialFile` their errors, and the file system the error it gives a link, if any,
beyond a missing source or a taken target. -/
structure PublishEnv where
  tempDir : Except String String
  stat : Except String Unit
  serialFile : Except String Unit
  linkError : String → String → Option String

/-- The `os.Link` calls of `Publish`, in order: each source linked into `sandbox` under its
name. The first failure stops them, and the links made before it stay. -/
def linkInto (linkError : String → String → Option String) (sandbox : String) :
    List (String × String) → List (String × List UInt8) →
      Except String Unit × List (String × List UInt8)
  | [], files => (.ok (), files)
  | (source, name) :: rest, files =>
    match link linkError files source (join [sandbox, name]) with
    | .error e => (.error e, files)
    | .ok files => linkInto linkError sandbox rest files

namespace Server

/-- `Publish`, with the file system it leaves: it removes neither the sandbox nor the links it
made there. -/
def publish (api : Unixfs) (env : PublishEnv) (files : List (String × List UInt8))
    (manifestPath genesisPath imagePath : String) :
    Except String String × List (String × List UInt8) :=
  match env.tempDir with
  | .error e => (.error e, files)
  | .ok sandbox =>
    match env.stat with
    | .error e => (.error e, files)
    | .ok () =>
      match linkInto env.linkError sandbox [(manifestPath, "chainkit.yml"),
          (genesisPath, "genesis.json"), (imagePath, "image.tgz")] files with
      | (.error e, files) => (.error e, files)
      | (.ok (), files) =>
        match env.serialFile with
        | .error e => (.error e, files)
        | .ok () => (api.add (dirEntries files sandbox), files)

end Server

/-- `errors.Wrap(err, message)`, as its `Error()` reads. -/
def wrap (message err : String) : String := message ++ ": " ++ err

/-- `NetworkInfo`: the manifest and the genesis file, read whole, and the image's file node,
given by what reading it returns. -/
structure NetworkInfo where
  manifest : List UInt8
  genesis : List UInt8
  image : Except String (List UInt8)

namespace Server

/-- `Join`. A manifest that cannot be read is reported as the genesis file, and the error of
the image's `ParsePath` is overwritten before it is checked, so `Get` is called with the nil
path. -/
def join (api : Unixfs) (chainID : String) : Except String NetworkInfo := do
  let manifestPath ← api.parsePath (Go.join ["/ipfs", chainID, "chainkit.yml"])
  let manifestFile ← api.get (some manifestPath)
  let manifestData ← manifestFile.mapError (wrap "unable to read genesis file")
  let genesisPath ← api.parsePath (Go.join ["/ipfs", chainID, "genesis.json"])
  let genesisFile ← api.get (some genesisPath)
  let genesisData ← genesisFile.mapError (wrap "unable to read genesis file")
  let imageFile ← api.get (api.parsePath (Go.join ["/ipfs", chainID, "image.tgz"])).toOption
  return ⟨manifestData, genesisData, imageFile⟩

end Server


/-! ## Paths -/

theorem cleanDir_ipfs : CleanDir "/ipfs" := ⟨by decide, by decide, by decide⟩

/-- The path `Join` fetches a name at, for a content id that is one path element. -/
theorem join_ipfs {c n : String} (cid : IsName c.toList) (name : IsName n.toList) :
    Go.join ["/ipfs", c, n] = "/ipfs/" ++ c ++ "/" ++ n := by
  have dir := (cleanDir_ipfs.join_name cid).2
  have joined := (dir.join_name name).1
  rw [dir.join_eq] at joined
  exact joined

theorem toList_inside (dir n : String) : (dir ++ "/" ++ n).toList = (dir ++ "/").toList ++ n.toList :=
  rfl

theorem inside_ne {dir a b : String} (h : a ≠ b) : dir ++ "/" ++ a ≠ dir ++ "/" ++ b := by
  intro same
  have chars := congrArg String.toList same
  rw [toList_inside, toList_inside, List.append_cancel_left_eq] at chars
  exact h (String.ext chars)

/-! ## A fresh sandbox -/

section Sandbox

variable {files : List (String × List UInt8)} {dir : String}

/-- No file lies inside `dir`: what `ioutil.TempDir` promises of the directory it makes. -/
def Outside (dir : String) (files : List (String × List UInt8)) : Prop :=
  ∀ f ∈ files, hasPrefix f.1 (dir ++ "/") = false

instance (dir : String) (files : List (String × List UInt8)) : Decidable (Outside dir files) :=
  inferInstanceAs (Decidable (∀ f ∈ files, hasPrefix f.1 (dir ++ "/") = false))

theorem Outside.lookup_none (outside : Outside dir files) (n : String) :
    files.lookup (dir ++ "/" ++ n) = none := by
  rw [List.lookup_eq_none_iff]
  intro f mem
  rw [bne_iff_ne]
  rintro same
  have := outside f mem
  rw [← same, hasPrefix_iff.mpr ⟨n.toList, toList_inside dir n⟩] at this
  cases this

theorem Outside.dirEntries (outside : Outside dir files) : dirEntries files dir = [] := by
  rw [Discovery.dirEntries, List.filterMap_eq_nil_iff]
  intro f mem
  simp [outside f mem]

theorem trimPrefix_inside (dir n : String) : trimPrefix (dir ++ "/" ++ n) (dir ++ "/") = n := by
  rw [trimPrefix, if_pos (hasPrefix_iff.mpr ⟨n.toList, toList_inside dir n⟩)]
  show String.mk (((dir ++ "/").toList ++ n.toList).drop (dir ++ "/").toList.length) = n
  rw [List.drop_left]
  rfl

theorem dirEntries_append (xs ys : List (String × List UInt8)) (dir : String) :
    dirEntries (xs ++ ys) dir = dirEntries xs dir ++ dirEntries ys dir :=
  List.filterMap_append _ _ _

/-- Files put inside `dir` under names are its entries, under those names. -/
theorem dirEntries_inside (entries : List (String × List UInt8))
    (names : ∀ e ∈ entries, IsName e.1.toList) :
    dirEntries (entries.map fun e => (dir ++ "/" ++ e.1, e.2)) dir = entries := by
  induction entries with
  | nil => rfl
  | cons e es ih =>
    have noSlash : e.1.toList.contains '/' = false := by
      simpa using (names e (List.mem_cons_self _ _)).noSlash
    rw [List.map_cons, Discovery.dirEntries, List.filterMap_cons, trimPrefix_inside,
      hasPrefix_iff.mpr ⟨e.1.toList, toList_inside dir e.1⟩, noSlash]
    exact congrArg _ (ih fun e' mem => names e' (List.mem_cons_of_mem _ mem))

end Sandbox



/-! ## `Publish` into a fresh sandbox -/

section Publish

variable {files : List (String × List UInt8)} {sandbox : String}
  {linkError : String → String → Option String}

theorem link_ok {oldname newname : String} {data : List UInt8}
    (present : files.lookup oldname = some data) (absent : files.lookup newname = none)
    (allowed : linkError oldname newname = none) :
    link linkError files oldname newname = .ok (files ++ [(newname, data)]) := by
  simp [link, present, absent, allowed]

/-- A link into a clean directory, under a name nothing there has yet. -/
theorem linkInto_link {source name : String} {rest : List (String × String)}
    {data : List UInt8} (sandboxDir : CleanDir sandbox) (isName : IsName name.toList)
    (present : files.lookup source = some data)
    (absent : files.lookup (sandbox ++ "/" ++ name) = none)
    (allowed : linkError source (sandbox ++ "/" ++ name) = none) :
    linkInto linkError sandbox ((source, name) :: rest) files =
      linkInto linkError sandbox rest (files ++ [(sandbox ++ "/" ++ name, data)]) := by
  rw [linkInto, (sandboxDir.join_name isName).1, link_ok present absent allowed]

theorem lookup_append_of_some {k : String} {data : List UInt8}
    (links : List (String × List UInt8)) (present : files.lookup k = some data) :
    (files ++ links).lookup k = some data := by
  rw [List.lookup_append, present]
  rfl

/-- With the three files present and nothing yet in the sandbox, `Publish` links them in under
their names and adds the sandbox, which holds exactly them. -/
theorem publish_adds_artifacts {api : Unixfs} {env : PublishEnv}
    {manifestPath genesisPath imagePath : String} {manifest genesis image : List UInt8}
    (made : env.tempDir = .ok sandbox) (statted : env.stat = .ok ())
    (serial : env.serialFile = .ok ()) (sandboxDir : CleanDir sandbox)
    (fresh : Outside sandbox files) (hasManifest : files.lookup manifestPath = some manifest)
    (hasGenesis : files.lookup genesisPath = some genesis)
    (hasImage : files.lookup imagePath = some image)
    (allowed : ∀ p ∈ [(manifestPath, "chainkit.yml"), (genesisPath, "genesis.json"),
      (imagePath, "image.tgz")], env.linkError p.1 (sandbox ++ "/" ++ p.2) = none) :
    Server.publish api env files manifestPath genesisPath imagePath =
      (api.add [("chainkit.yml", manifest), ("genesis.json", genesis), ("image.tgz", image)],
        files ++ [(sandbox ++ "/" ++ "chainkit.yml", manifest),
          (sandbox ++ "/" ++ "genesis.json", genesis), (sandbox ++ "/" ++ "image.tgz", image)]) := by
  have genesis_ne : sandbox ++ "/" ++ "genesis.json" ≠ sandbox ++ "/" ++ "chainkit.yml" :=
    inside_ne (by decide)
  have image_ne₁ : sandbox ++ "/" ++ "image.tgz" ≠ sandbox ++ "/" ++ "chainkit.yml" :=
    inside_ne (by decide)
  have image_ne₂ : sandbox ++ "/" ++ "image.tgz" ≠ sandbox ++ "/" ++ "genesis.json" :=
    inside_ne (by decide)
  have manifestLinks : env.linkError manifestPath (sandbox ++ "/" ++ "chainkit.yml") = none :=
    allowed (manifestPath, "chainkit.yml") (by simp)
  have genesisLinks : env.linkError genesisPath (sandbox ++ "/" ++ "genesis.json") = none :=
    allowed (genesisPath, "genesis.json") (by simp)
  have imageLinks : env.linkError imagePath (sandbox ++ "/" ++ "image.tgz") = none :=
    allowed (imagePath, "image.tgz") (by simp)
  rw [Server.publish, made]
  simp only [statted]
  rw [linkInto_link sandboxDir (by decide) hasManifest (fresh.lookup_none _) manifestLinks,
    linkInto_link sandboxDir (by decide) (lookup_append_of_some _ hasGenesis)
      (by simp [List.lookup_append, fresh.lookup_none, genesis_ne]) genesisLinks,
    linkInto_link sandboxDir (by decide)
      (lookup_append_of_some _ (lookup_append_of_some _ hasImage))
      (by simp [List.lookup_append, fresh.lookup_none, image_ne₁, image_ne₂]) imageLinks]
  simp only [linkInto, serial, List.append_assoc, List.cons_append, List.nil_append]
  rw [dirEntries_append, fresh.dirEntries, List.nil_append]
  exact congrArg (fun dir => (api.add dir, _))
    (dirEntries_inside [("chainkit.yml", manifest), ("genesis.json", genesis), ("image.tgz", image)]
      fun e mem => by
        simp only [List.mem_cons, List.not_mem_nil, or_false] at mem
        rcases mem with rfl | rfl | rfl <;> dsimp only <;> decide)

/-- A link that succeeds adds one file under the new name. -/
theorem link_eq_ok {files' : List (String × List UInt8)} {oldname newname : String}
    (ok : link linkError files oldname newname = .ok files') :
    ∃ data, files' = files ++ [(newname, data)] := by
  unfold link at ok
  split at ok
  · cases ok
  · next data _ =>
    split_ifs at ok
    split at ok
    · cases ok
    · cases ok
      exact ⟨data, rfl⟩

/-- The `os.Link` calls only add files: one link into the sandbox per pair, in order, as far as
the first failure. -/
theorem linkInto_adds (pairs : List (String × String)) (files : List (String × List UInt8)) :
    ∃ links, (linkInto linkError sandbox pairs files).2 = files ++ links ∧
      links.length ≤ pairs.length ∧
      ((linkInto linkError sandbox pairs files).1 = .ok () → links.length = pairs.length) ∧
      ∀ l ∈ links, ∃ p ∈ pairs, l.1 = join [sandbox, p.2] := by
  induction pairs generalizing files with
  | nil => exact ⟨[], by simp [linkInto]⟩
  | cons pair rest ih =>
    obtain ⟨source, name⟩ := pair
    rw [linkInto]
    cases linked : link linkError files source (join [sandbox, name]) with
    | error e => exact ⟨[], by simp, by simp, fun failed => (by cases failed), by simp⟩
    | ok files' =>
      obtain ⟨data, rfl⟩ := link_eq_ok linked
      obtain ⟨links, left, length, all, inside⟩ := ih (files ++ [(join [sandbox, name], data)])
      refine ⟨(join [sandbox, name], data) :: links, by simp [left], by simpa using length,
        fun ok => by simpa using all ok, ?_⟩
      rintro l (_ | ⟨_, mem⟩)
      · exact ⟨(source, name), List.mem_cons_self _ _, rfl⟩
      · obtain ⟨p, mem', at_⟩ := inside l mem
        exact ⟨p, List.mem_cons_of_mem _ mem', at_⟩

end Publish

/-- When IPFS serves the directory of the three artifacts under `c`, `Join` of `c` finds the
manifest and the genesis file under the names `Publish` gave them, and the image's node. -/
theorem join_served {api : Unixfs} {c : String} {manifest genesis image : List UInt8}
    (serves : api.Serves [("chainkit.yml", manifest), ("genesis.json", genesis),
      ("image.tgz", image)] c) :
    Server.join api c = .ok ⟨manifest, genesis, .ok image⟩ := by
  obtain ⟨p₁, parse₁, get₁⟩ := serves.entry "chainkit.yml" manifest rfl
  obtain ⟨p₂, parse₂, get₂⟩ := serves.entry "genesis.json" genesis rfl
  obtain ⟨p₃, parse₃, get₃⟩ := serves.entry "image.tgz" image rfl
  simp only [Server.join, join_ipfs (n := "chainkit.yml") serves.cid (by decide),
    join_ipfs (n := "genesis.json") serves.cid (by decide),
    join_ipfs (n := "image.tgz") serves.cid (by decide), parse₁, parse₂, parse₃, bind,
    Except.bind, Except.toOption, get₁, get₂, get₃]
  rfl

/-- Publishing then joining gives the artifacts back. With the three files present, nothing
yet in the sandbox `ioutil.TempDir` made, and a file system that allows the three links (the
sandbox on the artifacts' file system, and permissions that let it), `Publish` returns what IPFS's `Add` returns for the
directory of the three files under the names `chainkit.yml`, `genesis.json` and `image.tgz`;
and when IPFS serves that directory under the id `Publish` returns, `Join` of that id reads back
the manifest and the genesis file, byte for byte, and returns the image's node. -/
theorem join_publish {api : Unixfs} {env : PublishEnv} {files : List (String × List UInt8)}
    {sandbox manifestPath genesisPath imagePath : String} {manifest genesis image : List UInt8}
    (made : env.tempDir = .ok sandbox) (statted : env.stat = .ok ())
    (serial : env.serialFile = .ok ()) (sandboxDir : CleanDir sandbox)
    (fresh : Outside sandbox files) (hasManifest : files.lookup manifestPath = some manifest)
    (hasGenesis : files.lookup genesisPath = some genesis)
    (hasImage : files.lookup imagePath = some image)
    (allowed : ∀ p ∈ [(manifestPath, "chainkit.yml"), (genesisPath, "genesis.json"),
      (imagePath, "image.tgz")], env.linkError p.1 (sandbox ++ "/" ++ p.2) = none) :
    (Server.publish api env files manifestPath genesisPath imagePath).1 =
        api.add [("chainkit.yml", manifest), ("genesis.json", genesis), ("image.tgz", image)] ∧
      ∀ c, (Server.publish api env files manifestPath genesisPath imagePath).1 = .ok c →
        api.Serves [("chainkit.yml", manifest), ("genesis.json", genesis), ("image.tgz", image)] c →
        Server.join api c = .ok ⟨manifest, genesis, .ok image⟩ := by
  rw [publish_adds_artifacts made statted serial sandboxDir fresh hasManifest hasGenesis hasImage
    allowed]
  exact ⟨rfl, fun _ _ serves => join_served serves⟩


/-- An IPFS that gives every directory the id `c` and serves `entries` under `/ipfs/<c>`. -/
def Unixfs.holding (c : String) (entries : List (String × List UInt8)) : Unixfs where
  add _ := .ok c
  parsePath p := .ok p
  get
    | some p =>
      match entries.lookup (trimPrefix p ("/ipfs/" ++ c ++ "/")) with
      | some data => Except.ok (Except.ok data)
      | none => Except.error ("no link named " ++ p)
    | none => Except.error "invalid path"

theorem Unixfs.holding_serves {c : String} (entries : List (String × List UInt8))
    (cid : IsName c.toList) : (Unixfs.holding c entries).Serves entries c := by
  refine ⟨cid, fun n data found => ⟨_, rfl, ?_⟩⟩
  simp only [Unixfs.holding, trimPrefix_inside, found]

/-- The artifacts of a project. -/
def srvArtifacts : List (String × List UInt8) :=
  [("chainkit.yml", [1]), ("genesis.json", [2]), ("image.tgz", [3])]

/-- The project's three files, in `/srv`. -/
def srvFiles : List (String × List UInt8) :=
  [("/srv/chainkit.yml", [1]), ("/srv/genesis.json", [2]), ("/srv/image.tgz", [3])]

/-- A `Publish` whose `ioutil.TempDir` makes `/tmp/chainkit-network1`. -/
def srvEnv : PublishEnv := ⟨.ok "/tmp/chainkit-network1", .ok (), .ok (), fun _ _ => none⟩

theorem join_publish_srv :
    (Unixfs.holding "QmNet" srvArtifacts).Serves srvArtifacts "QmNet" ∧
      ((Server.publish (.holding "QmNet" srvArtifacts) srvEnv srvFiles "/srv/chainkit.yml"
          "/srv/genesis.json" "/srv/image.tgz").1 = (Unixfs.holding "QmNet" srvArtifacts).add srvArtifacts ∧
        ∀ c, (Server.publish (.holding "QmNet" srvArtifacts) srvEnv srvFiles "/srv/chainkit.yml"
            "/srv/genesis.json" "/srv/image.tgz").1 = .ok c →
          (Unixfs.holding "QmNet" srvArtifacts).Serves srvArtifacts c →
          Server.join (.holding "QmNet" srvArtifacts) c = .ok ⟨[1], [2], .ok [3]⟩) :=
  ⟨Unixfs.holding_serves _ (by decide),
    join_publish rfl rfl rfl ⟨by decide, by decide, by decide⟩
      (by decide) rfl rfl rfl fun _ _ => rfl⟩

end Bitcoinx.Discovery
