import Bitcoinx.Discovery.Peers

/-!
# `Announce`, and the record a search gets from each provider

`Announce(ctx, chainID, peer)` waits on `connectedCh`, decodes the chain ID with `cid.Decode`,
registers on its node's host the handler of the protocol `/chainkit/0.1.0`, which writes `peer`
on every stream opened to it, and then calls `dht.Provide` for the id with a ten-second timeout.
The protocol ID does not name the chain: a host has one handler for it, and each `Announce` that
gets past `cid.Decode` replaces it.

The model is the overlay as the `Peers` of another node meets it: each host's handler, the
provider records the DHT holds, and the `Announce` calls, each a small program, with one label
per thing that can happen next. `registered` is the history of the handlers, host and record,
in the order they were registered. A search for an id is a `PeersTask` whose providers are hosts
holding a record for the id, each remote answering as its host's handler does. Every host stays
up: `Stop` and `Start` are the server model's.

* `announce_ok_provides`: an `Announce` that returned nil has stored its host's record for the
  id, and the host answers a stream with the record last registered on it.
* `search_gets_last_announced`: no provider a search finds refuses its stream, and the record
  owed for each is the record of the last `Announce` its host registered, whatever id that
  `Announce` was for.
-/

namespace Bitcoinx.Discovery

/-! ## The overlay -/

/-- Where an `Announce` call is. -/
inductive AnnouncePc where
  /-- At `<-s.connectedCh` and `cid.Decode(chainID)`. -/
  | waiting
  /-- The handler is registered, and `s.dht.Provide(cctx, id, true)` runs. -/
  | providing
  /-- Returned, with its error or nil. -/
  | returned (result : Except String Unit)
  deriving Repr

/-- An `Announce` call: the host whose server runs it, what `cid.Decode(chainID)` returns, the
record it registers, and where it is. -/
structure AnnounceCall where
  host : Nat
  cid : Except String String
  peer : PeerInfo
  pc : AnnouncePc
  deriving Repr

/-- The hosts' handlers of `/chainkit/0.1.0`, the DHT's provider records as (id, host), the
`Announce` calls, and the history of the handlers registered. -/
structure Overlay where
  handlers : List (Option PeerInfo)
  records : List (String × Nat)
  calls : List AnnounceCall
  registered : List (Nat × PeerInfo)
  deriving Repr

namespace Overlay

/-- `n` hosts, none of which has announced. -/
def init (n : Nat) : Overlay := ⟨List.replicate n none, [], [], []⟩

/-- What can happen next. -/
inductive Event where
  /-- The server of `host` calls `Announce` with the record `peer` and a chain ID that
  `cid.Decode` turns into `cid`. -/
  | announce (host : Nat) (cid : Except String String) (peer : PeerInfo)
  /-- Call `i` passes `<-s.connectedCh`: it returns `cid.Decode`'s error, or registers its
  handler. -/
  | register (i : Nat)
  /-- `Provide` of call `i` stores the record and returns nil. -/
  | provided (i : Nat)
  /-- `Provide` of call `i` fails or times out with `err`, having stored the record or not. -/
  | provideFails (i : Nat) (stored : Bool) (err : String)
  deriving Repr

/-- `Provide` of call `i` returns `result`, having stored the record of its host or not. -/
def provideReturns (o : Overlay) (i : Nat) (stored : Bool) (result : Except String Unit) :
    Option Overlay :=
  match o.calls[i]? with
  | some c =>
    match c.pc, c.cid with
    | .providing, .ok id =>
      some { o with records := o.records ++ (if stored then [(id, c.host)] else []),
                    calls := o.calls.set i { c with pc := .returned result } }
    | _, _ => none
  | none => none

/-- One event, or `none` when it cannot happen. -/
def step (o : Overlay) : Event → Option Overlay
  | .announce host cid peer =>
    if host < o.handlers.length then
      some { o with calls := o.calls ++ [⟨host, cid, peer, .waiting⟩] }
    else none
  | .register i =>
    match o.calls[i]? with
    | some c =>
      match c.pc, c.cid with
      | .waiting, .error e =>
        some { o with calls := o.calls.set i { c with pc := .returned (.error e) } }
      | .waiting, .ok _ =>
        some { o with handlers := o.handlers.set c.host (some c.peer),
                      calls := o.calls.set i { c with pc := .providing },
                      registered := o.registered ++ [(c.host, c.peer)] }
      | _, _ => none
    | none => none
  | .provided i => o.provideReturns i true (.ok ())
  | .provideFails i stored err => o.provideReturns i stored (.error err)

/-- A sequence of events, or `none` when one of them cannot happen. -/
def run (o : Overlay) : List Event → Option Overlay
  | [] => some o
  | e :: es => (o.step e).bind fun o' => run o' es

/-- `o'` is reachable from `o`. -/
def Reachable (o o' : Overlay) : Prop := ∃ es, run o es = some o'

/-- The record last registered on host `a`: what its handler writes. -/
def lastRegistered (o : Overlay) (a : Nat) : Option PeerInfo :=
  ((o.registered.filter (·.1 == a)).getLast?).map Prod.snd

/-- How host `a` answers a stream of `/chainkit/0.1.0`: its handler writes its record and
closes the stream, and a host with no handler refuses the protocol. -/
def remote (o : Overlay) (a : Nat) : Remote :=
  match o.handlers[a]?.join with
  | some p => .replies (encodePeerInfo p)
  | none => .refuses

/-- Providers a query for `id` can deliver: hosts holding a record for `id`, with any
addresses, each answering as its host does. -/
def Finds (o : Overlay) (id : String) (providers : List Candidate) : Prop :=
  ∀ c ∈ providers, (id, c.id) ∈ o.records ∧ c.remote = o.remote c.id

/-! ## What a step can do -/

/-- The moves of the overlay, one per way a step can go. -/
inductive Move : Overlay → Overlay → Prop
  | announce {o : Overlay} (host : Nat) (cid : Except String String) (peer : PeerInfo) :
      host < o.handlers.length → Move o { o with calls := o.calls ++ [⟨host, cid, peer, .waiting⟩] }
  | decodeFails {o : Overlay} {i : Nat} {c : AnnounceCall} {e : String} : o.calls[i]? = some c →
      c.pc = .waiting → c.cid = .error e →
      Move o { o with calls := o.calls.set i { c with pc := .returned (.error e) } }
  | register {o : Overlay} {i : Nat} {c : AnnounceCall} {id : String} : o.calls[i]? = some c →
      c.pc = .waiting → c.cid = .ok id →
      Move o { o with handlers := o.handlers.set c.host (some c.peer),
                      calls := o.calls.set i { c with pc := .providing },
                      registered := o.registered ++ [(c.host, c.peer)] }
  | provide {o : Overlay} {i : Nat} {c : AnnounceCall} {id : String} (stored : Bool)
      (result : Except String Unit) : o.calls[i]? = some c → c.pc = .providing → c.cid = .ok id →
      (result = .ok () → stored = true) →
      Move o { o with records := o.records ++ (if stored then [(id, c.host)] else []),
                      calls := o.calls.set i { c with pc := .returned result } }

theorem provideReturns_move {o o' : Overlay} {i : Nat} {stored : Bool}
    {result : Except String Unit} (consistent : result = .ok () → stored = true)
    (h : o.provideReturns i stored result = some o') : Move o o' := by
  unfold provideReturns at h
  split at h
  next c get =>
    split at h
    next id pc cid => cases h; exact .provide stored result get pc cid consistent
    next => cases h
  next => cases h

/-- Every step is one of the moves. -/
theorem step_move {o o' : Overlay} {e : Event} (h : o.step e = some o') : Move o o' := by
  cases e with
  | announce host cid peer =>
    simp only [step] at h
    split_ifs at h with bound
    cases h
    exact .announce host cid peer bound
  | register i =>
    simp only [step] at h
    split at h
    next c get =>
      split at h
      next e waiting cid => cases h; exact .decodeFails get waiting cid
      next id waiting cid => cases h; exact .register get waiting cid
      next => cases h
    next => cases h
  | provided i => exact provideReturns_move (fun _ => rfl) h
  | provideFails i stored err => exact provideReturns_move (fun ok => by cases ok) h

/-- An invariant of the moves holds in every overlay a run reaches. -/
theorem Reachable.invariant {P : Overlay → Prop}
    (preserve : ∀ {o o'}, Move o o' → P o → P o') {o o' : Overlay} (reach : Reachable o o')
    (hold : P o) : P o' := by
  obtain ⟨es, h⟩ := reach
  induction es generalizing o with
  | nil => cases h; exact hold
  | cons e es ih =>
    rw [run, Option.bind_eq_some] at h
    obtain ⟨o₁, first, rest⟩ := h
    exact ih (preserve (step_move first) hold) rest

/-! ## The invariant -/

theorem lastRegistered_isSome {o : Overlay} {a : Nat} {p : PeerInfo}
    (mem : (a, p) ∈ o.registered) : (o.lastRegistered a).isSome := by
  rw [lastRegistered, Option.isSome_map', List.getLast?_isSome]
  exact List.ne_nil_of_mem (List.mem_filter.mpr ⟨mem, beq_self_eq_true a⟩)

/-- The overlay's bookkeeping: the host of each call has a handler slot, a call at `Provide`
has registered its record, every provider record's host has registered one, every call that
returned nil has stored its record, and each host's handler is the last record registered on
it. -/
structure Inv (o : Overlay) : Prop where
  hosts : ∀ c ∈ o.calls, c.host < o.handlers.length
  providing : ∀ c ∈ o.calls, c.pc = .providing → (c.host, c.peer) ∈ o.registered
  records : ∀ r ∈ o.records, ∃ p, (r.2, p) ∈ o.registered
  provided : ∀ c ∈ o.calls, c.pc = .returned (.ok ()) → ∃ id, c.cid = .ok id ∧ (id, c.host) ∈ o.records
  handler : ∀ a, o.handlers[a]?.join = o.lastRegistered a

theorem init_inv (n : Nat) : Inv (init n) :=
  ⟨by simp [init], by simp [init], by simp [init], by simp [init],
    fun a => by simp [init, lastRegistered, List.getElem?_replicate]⟩

theorem Move.inv {o o' : Overlay} (m : Move o o') (inv : Inv o) : Inv o' := by
  obtain ⟨hosts, providing, records, provided, handler⟩ := inv
  cases m with
  | announce host cid peer bound =>
    refine ⟨?_, ?_, records, ?_, handler⟩ <;> simp only [List.mem_append, List.mem_singleton]
    · rintro c (old | rfl)
      exacts [hosts c old, bound]
    · rintro c (old | rfl) pc
      exacts [providing c old pc, by cases pc]
    · rintro c (old | rfl) pc
      exacts [provided c old pc, by cases pc]
  | @decodeFails i c e get waiting cid =>
    have old (d) (mem : d ∈ o.calls.set i { c with pc := .returned (.error e) })
        (live : d.pc ≠ .returned (.error e)) : d ∈ o.calls :=
      (List.mem_or_eq_of_mem_set mem).resolve_right fun eq => live (by rw [eq])
    refine ⟨fun d mem => ?_, fun d mem pc => providing d (old d mem (by simp [pc])) pc,
      records, fun d mem pc => provided d (old d mem (by simp [pc])) pc, handler⟩
    rcases List.mem_or_eq_of_mem_set mem with old | rfl
    · exact hosts d old
    · exact hosts c (List.getElem?_mem get)
  | @register i c id get waiting cid =>
    have cHost := hosts c (List.getElem?_mem get)
    refine ⟨fun d mem => ?_, fun d mem pc => ?_, fun r mem => ?_, fun d mem pc => ?_,
      fun a => ?_⟩
    · rcases List.mem_or_eq_of_mem_set mem with old | rfl
      · simpa using hosts d old
      · simpa using cHost
    · rcases List.mem_or_eq_of_mem_set mem with old | rfl
      · exact List.mem_append_left _ (providing d old pc)
      · exact List.mem_append_right _ (List.mem_singleton_self _)
    · obtain ⟨p, reg⟩ := records r mem
      exact ⟨p, List.mem_append_left _ reg⟩
    · rcases List.mem_or_eq_of_mem_set mem with old | rfl
      · exact provided d old pc
      · cases pc
    · have before := handler a
      simp only [lastRegistered] at before ⊢
      rw [List.getElem?_set]
      by_cases same : c.host = a
      · subst same; simp [cHost]
      · simpa [same] using before
  | @provide i c id stored result get pc cid consistent =>
    have registered := providing c (List.getElem?_mem get) pc
    refine ⟨fun d mem => ?_, fun d mem pc' => ?_, fun r mem => ?_, fun d mem pc' => ?_, handler⟩
    · rcases List.mem_or_eq_of_mem_set mem with old | rfl
      · exact hosts d old
      · exact hosts c (List.getElem?_mem get)
    · rcases List.mem_or_eq_of_mem_set mem with old | rfl
      · exact providing d old pc'
      · cases pc'
    · rcases List.mem_append.mp mem with old | new
      · exact records r old
      · split at new
        · simp only [List.mem_singleton] at new; rw [new]; exact ⟨c.peer, registered⟩
        · cases new
    · rcases List.mem_or_eq_of_mem_set mem with old | rfl
      · obtain ⟨id', cid', stored'⟩ := provided d old pc'
        exact ⟨id', cid', List.mem_append_left _ stored'⟩
      · obtain rfl := consistent (by simpa using pc')
        exact ⟨id, cid, List.mem_append_right _ (by simp)⟩

/-- A provider record's host answers with the record last registered on it. -/
theorem Inv.remote_of_record {o : Overlay} (inv : Inv o) {id : String} {a : Nat}
    (stored : (id, a) ∈ o.records) :
    ∃ p, o.lastRegistered a = some p ∧ o.remote a = .replies (encodePeerInfo p) := by
  obtain ⟨q, reg⟩ := inv.records _ stored
  obtain ⟨p, last⟩ := Option.isSome_iff_exists.mp (lastRegistered_isSome reg)
  exact ⟨p, last, by rw [remote, inv.handler, last]⟩

/-! ## What `Announce` leaves, and what a search gets -/

/-- In every overlay a run reaches, an `Announce` that returned nil decoded its chain ID and
stored its host's provider record for the id, and its host answers a stream with the record
last registered on it. -/
theorem announce_ok_provides {n : Nat} {o : Overlay} {c : AnnounceCall}
    (reach : Reachable (init n) o) (mem : c ∈ o.calls) (ok : c.pc = .returned (.ok ())) :
    ∃ id p, c.cid = .ok id ∧ (id, c.host) ∈ o.records ∧ o.lastRegistered c.host = some p ∧
      o.remote c.host = .replies (encodePeerInfo p) := by
  have inv := reach.invariant (fun m h => m.inv h) (init_inv n)
  obtain ⟨id, cid, stored⟩ := inv.provided c mem ok
  obtain ⟨p, last, answers⟩ := inv.remote_of_record stored
  exact ⟨id, p, cid, stored, last, answers⟩

/-- In every overlay a run reaches, a search for any id meets no provider that refuses its
stream, and the record owed for each provider that passes the loop's test is the record its
host last registered, with the provider's IPv4 addresses: that of the host's last `Announce`,
whatever id that `Announce` was for. -/
theorem search_gets_last_announced {n : Nat} {o : Overlay} {id : String} {self : Nat}
    {providers : List Candidate} (reach : Reachable (init n) o) (finds : o.Finds id providers) :
    (∀ c ∈ providers, c.remote ≠ .refuses) ∧
      PeersTask.expected self providers = providers.filterMap fun c =>
        if passes self c then (o.lastRegistered c.id).map (withAddrs · c.addrs) else none := by
  have inv := reach.invariant (fun m h => m.inv h) (init_inv n)
  have served (c) (mem : c ∈ providers) :
      ∃ p, o.lastRegistered c.id = some p ∧ c.remote = .replies (encodePeerInfo p) := by
    obtain ⟨stored, answers⟩ := finds c mem
    obtain ⟨p, last, remote⟩ := inv.remote_of_record stored
    exact ⟨p, last, answers.trans remote⟩
  refine ⟨fun c mem => ?_, List.filterMap_congr fun c mem => ?_⟩
  · obtain ⟨p, -, replies⟩ := served c mem
    simp [replies]
  · obtain ⟨p, last, replies⟩ := served c mem
    simp only [PeersTask.response, replies, decodePeerInfo_encodePeerInfo, last, Option.map_some',
      withAddrs, appendIPv4_eq]

/-- The record the announcer of `announcedRecord` announces for a second chain. -/
def secondChainRecord : PeerInfo := ⟨"node0", some [], 36656⟩

/-- Host 0's call of `Announce` for the chain `X`, returned. -/
def firstCall : AnnounceCall := ⟨0, .ok "X", PeersTask.announcedRecord, .returned (.ok ())⟩

/-- Host 0 has announced the chain `X` with `announcedRecord`, then the chain `Y` with
`secondChainRecord`; host 1 searches. -/
def twoChains : Overlay :=
  ⟨[some secondChainRecord, none], [("X", 0), ("Y", 0)],
    [firstCall, ⟨0, .ok "Y", secondChainRecord, .returned (.ok ())⟩],
    [(0, PeersTask.announcedRecord), (0, secondChainRecord)]⟩

theorem twoChains_reachable : Reachable (init 2) twoChains :=
  ⟨[.announce 0 (.ok "X") PeersTask.announcedRecord, .register 0, .provided 0,
    .announce 0 (.ok "Y") secondChainRecord, .register 1, .provided 1], by rfl⟩

/-- Host 0 as a search for `X` finds it. -/
def secondChainProvider : Candidate :=
  ⟨0, [⟨[(pIP4, "10.0.0.1")]⟩], .replies (encodePeerInfo secondChainRecord), false⟩

/-- The call for `X` returned nil, and its host now answers with the record of `Y`. -/
theorem announce_ok_provides_twoChains :
    firstCall ∈ twoChains.calls ∧ firstCall.pc = .returned (.ok ()) ∧
      ∃ id p, firstCall.cid = .ok id ∧ (id, firstCall.host) ∈ twoChains.records ∧
        twoChains.lastRegistered firstCall.host = some p ∧
        twoChains.remote firstCall.host = .replies (encodePeerInfo p) :=
  have mem : firstCall ∈ twoChains.calls := List.mem_cons_self _ _
  ⟨mem, rfl, announce_ok_provides twoChains_reachable mem rfl⟩

/-- A search for `X` is owed the record host 0 announced for `Y`. -/
theorem search_gets_last_announced_twoChains :
    twoChains.Finds "X" [secondChainProvider] ∧
      twoChains.lastRegistered secondChainProvider.id = some secondChainRecord ∧
      (∀ c ∈ [secondChainProvider], c.remote ≠ .refuses) ∧
      PeersTask.expected 1 [secondChainProvider] = [secondChainProvider].filterMap fun c =>
        if passes 1 c then (twoChains.lastRegistered c.id).map (withAddrs · c.addrs) else none :=
  have finds : twoChains.Finds "X" [secondChainProvider] := by
    simp only [Finds, List.mem_singleton, forall_eq]
    exact ⟨by decide, rfl⟩
  ⟨finds, rfl, search_gets_last_announced twoChains_reachable finds⟩

end Overlay

end Bitcoinx.Discovery
