import Bitcoinx.Go.JsonFuel

/-!
# The record a node announces, and the record `Peers` sends for it

`Announce` registers a stream handler that writes the node's `PeerInfo` with
`json.NewEncoder(stream).Encode(peer)`. For each provider it finds, `Peers` reads one record from
the stream with `json.NewDecoder(stream).Decode` into a fresh `&PeerInfo{}`, replaces a nil `IP`
list by `[]string{}`, and appends the IPv4 values of the provider's addresses.

`decodePeerInfo_encodePeerInfo` shows that the decoder reads back every record the encoder
writes, and `announced_record_round_trip` what `Peers` then sends.
-/

namespace Bitcoinx.Discovery

open Bitcoinx.Go.Json

/-! ## The record -/

/-- `PeerInfo`. Its strings are valid UTF-8, so each is a Lean string; a Go `int` is 64 bits
wide; a nil `IP` slice is `none`. -/
structure PeerInfo where
  nodeID : String
  ip : Option (List String)
  tendermintP2PPort : BitVec 64
  deriving DecidableEq, Repr

/-- `&PeerInfo{}`: the fresh record `Peers` decodes into. -/
def PeerInfo.zero : PeerInfo := ⟨"", none, 0⟩

/-- The fields of `PeerInfo`, in declaration order. -/
inductive Field where
  | nodeID
  | ip
  | tendermintP2PPort
  deriving DecidableEq, Repr

/-- The name in each field's `json` tag. -/
def Field.name : Field → String
  | .nodeID => "node_id"
  | .ip => "ips"
  | .tendermintP2PPort => "tendermint_p2p_port"


/-- The fields in the order `structEncoder` writes them. -/
def fields : List Field := [.nodeID, .ip, .tendermintP2PPort]

/-! ## Encoding -/

/-- `sliceEncoder` for a `[]string`: `null` for a nil slice. -/
def encodeStringSlice : Option (List String) → List Char
  | none => ['n', 'u', 'l', 'l']
  | some ss => encodeArray ((ss.map String.toList).map encodeString)

/-- The encoding of one field's value. -/
def encodeField (p : PeerInfo) : Field → List Char
  | .nodeID => encodeString p.nodeID.toList
  | .ip => encodeStringSlice p.ip
  | .tendermintP2PPort => formatInt p.tendermintP2PPort.toInt

/-- What the handler's `json.NewEncoder(stream).Encode(peer)` writes: the object and a
newline. -/
def encodePeerInfo (p : PeerInfo) : List Char :=
  encodeObject (fields.map fun f => (f.name, encodeField p f)) ++ ['\n']

/-! ## Decoding -/

/-- Why `Decode` fails. -/
inductive DecodeError where
  /-- A syntax error of the scanner, or the end of the stream inside the value. -/
  | malformed (msg : String)
  /-- `UnmarshalTypeError`: the JSON value, the field it was for, and the Go type. -/
  | unmarshalType (value field goType : String)
  deriving DecidableEq, Repr

/-- Go's case folding of one character of a field name against one of a key, for the ASCII
names of `PeerInfo`: letters match in either case, and `s` and `k` also match U+017F and U+212A,
which fold to them. -/
def foldEq (n k : Char) : Bool :=
  n == k || (n.isAlpha && k.isAlpha && n.toLower == k.toLower) ||
    (n.toLower == 's' && k.val == 0x17F) || (n.toLower == 'k' && k.val == 0x212A)

/-- The key equals the name up to case folding. -/
def equalFold : List Char → List Char → Bool
  | [], [] => true
  | n :: name, k :: key => foldEq n k && equalFold name key
  | _, _ => false

/-- The field an object key sets: one whose name equals the key, else the first one whose name
equals it up to case folding. -/
def lookupField (key : List Char) : Option Field :=
  match fields.find? fun f => f.name.toList == key with
  | some f => some f
  | none => fields.find? fun f => equalFold f.name.toList key

/-- `literalStore` into a `string` field or element: a string is stored, `null` leaves the old
value. -/
def decodeString (field old : String) : JValue → Except DecodeError String
  | .string s => .ok ⟨s⟩
  | .null => .ok old
  | v => .error (.unmarshalType v.kind field "string")

/-- `array` into a `[]string`: element `i` is decoded into the old slice's element `i`, or into
`""` past its end, and the slice gets as many elements as the array. -/
def decodeElements (field : String) : List String → List JValue → Except DecodeError (List String)
  | _, [] => .ok []
  | old, v :: vs => do
    let s ← decodeString field (old.headD "") v
    let ss ← decodeElements field old.tail vs
    return s :: ss

/-- A `[]string` field: `null` makes it nil, an array is decoded element by element. -/
def decodeStringSlice (field : String) (old : Option (List String)) :
    JValue → Except DecodeError (Option (List String))
  | .null => .ok none
  | .array vs => (decodeElements field (old.getD []) vs).map some
  | v => .error (.unmarshalType v.kind field "[]string")

/-- `literalStore` into an `int` field: `strconv.ParseInt(literal, 10, 64)`, and `null` leaves
the old value. -/
def decodeInt (field : String) (old : BitVec 64) : JValue → Except DecodeError (BitVec 64)
  | .number lit =>
    match parseInt lit with
    | .ok n => .ok (BitVec.ofInt 64 n)
    | .error _ => .error (.unmarshalType ("number " ++ String.mk lit) field "int")
  | .null => .ok old
  | v => .error (.unmarshalType v.kind field "int")

/-- One member of the object: the field its key names is decoded from the value; a key that
names no field is skipped. -/
def decodeMember (p : PeerInfo) (key : List Char) (v : JValue) : Except DecodeError PeerInfo :=
  match lookupField key with
  | some f@(.nodeID) => (decodeString f.name p.nodeID v).map fun s => { p with nodeID := s }
  | some f@(.ip) => (decodeStringSlice f.name p.ip v).map fun ss => { p with ip := ss }
  | some f@(.tendermintP2PPort) =>
    (decodeInt f.name p.tendermintP2PPort v).map fun n => { p with tendermintP2PPort := n }
  | none => .ok p

/-- `d.value` into a `*PeerInfo`: an object is decoded member by member, `null` leaves the
record as it is, and any other value is a type error. -/
def unmarshalPeerInfo (p : PeerInfo) : JValue → Except DecodeError PeerInfo
  | .object members => members.foldlM (fun p (key, v) => decodeMember p key v) p
  | .null => .ok p
  | v => .error (.unmarshalType v.kind "" "discovery.PeerInfo")

/-- `json.NewDecoder(stream).Decode(peer)` into a fresh record, on a stream that delivers
`input`: one value is scanned, then stored. The fuel bounds the calls of the scanner, and
three per character are as many as any input needs. -/
def decodePeerInfo (input : List Char) : Except DecodeError PeerInfo := do
  let (v, _) ← (parseValue (3 * input.length + 3) input).mapError .malformed
  unmarshalPeerInfo PeerInfo.zero v

/-- The fuel decides nothing: with any fuel from three units per character on the decoder reads
the same record or fails the same way, and its scan never reports the depth error. -/
theorem decodePeerInfo_fuel (input : List Char) {fuel : Nat} (le : 3 * input.length + 1 ≤ fuel) :
    decodePeerInfo input = (do
        let (v, _) ← (parseValue fuel input).mapError .malformed
        unmarshalPeerInfo PeerInfo.zero v) ∧
      parseValue (3 * input.length + 3) input ≠ .error "exceeded max depth" := by
  have own := parseValue_settles (show 3 * input.length + 1 ≤ 3 * input.length + 3 by omega)
  refine ⟨?_, own.2⟩
  rw [decodePeerInfo, own.1, (parseValue_settles le).1]

/-! ## Round trip -/

/-- What the encoding of a `[]string` scans to. -/
def stringSliceValue : Option (List String) → JValue
  | none => .null
  | some ss => .array (ss.map fun s => .string s.toList)

/-- What the encoding of a field scans to. -/
def fieldValue (p : PeerInfo) : Field → JValue
  | .nodeID => .string p.nodeID.toList
  | .ip => stringSliceValue p.ip
  | .tendermintP2PPort => .number (formatInt p.tendermintP2PPort.toInt)

theorem length_le_commaSeparated (ss : List (List Char)) :
    ss.length ≤ (commaSeparated (ss.map encodeString)).length := by
  induction ss with
  | nil => simp
  | cons s ss ih =>
    cases ss with
    | nil => simp [commaSeparated, encodeString]
    | cons t ts =>
      simp only [List.map_cons, commaSeparated, List.length_append, List.length_cons] at ih ⊢
      omega

theorem length_le_encodeStringSlice (ips : Option (List String)) :
    (ips.getD []).length ≤ (encodeStringSlice ips).length := by
  cases ips with
  | none => simp
  | some ss =>
    have := length_le_commaSeparated (ss.map String.toList)
    simp only [List.length_map] at this
    simp only [encodeStringSlice, encodeArray, Option.getD_some, List.length_cons,
      List.length_append]
    omega

theorem parseValue_encodeStringSlice (fuel : Nat) (ips : Option (List String)) (rest : List Char) :
    parseValue (fuel + (ips.getD []).length + 3) (encodeStringSlice ips ++ rest) =
      .ok (stringSliceValue ips, rest) := by
  cases ips with
  | none => exact parseValue_null (fuel + 2) rest
  | some ss =>
    have parsed := parseValue_encodeStrings fuel (ss.map String.toList) rest
    simp only [List.length_map, List.map_map] at parsed
    simpa [encodeStringSlice, stringSliceValue] using parsed

/-- The encoding of a record scans to the object of its fields' values, and leaves the
newline. -/
theorem parseValue_encodePeerInfo (fuel : Nat) (p : PeerInfo) :
    parseValue (fuel + (p.ip.getD []).length + 7) (encodePeerInfo p) =
      .ok (.object (fields.map fun f => (f.name.toList, fieldValue p f)), ['\n']) := by
  simp only [encodePeerInfo, encodeObject, fields, List.map, encodeField, commaSeparated,
    List.append_assoc, List.cons_append, List.singleton_append, List.nil_append]
  rw [show fuel + (p.ip.getD []).length + 7 = fuel + (p.ip.getD []).length + 5 + 2 by omega,
    parseValue_object, parseMembers_next (parseValue_encodeString _ _ _),
    parseMembers_next (parseValue_encodeStringSlice _ _ _),
    parseMembers_last (parseValue_formatInt _ _ (numberEnd_cons (by decide)))]
  rfl

theorem lookupField_name (f : Field) : lookupField f.name.toList = some f := by
  cases f <;> rfl

theorem decodeElements_strings (field : String) (old ss : List String) :
    decodeElements field old (ss.map fun s => .string s.toList) = .ok ss := by
  induction ss generalizing old with
  | nil => rfl
  | cons s ss ih =>
    simp only [List.map_cons, decodeElements, decodeString, ih, bind, Except.bind, pure,
      Except.pure]
    rfl

theorem ofInt_toInt (x : BitVec 64) : BitVec.ofInt 64 x.toInt = x :=
  BitVec.eq_of_toInt_eq (by rw [BitVec.toInt_ofInt, BitVec.toInt_eq_toNat_bmod, Int.bmod_bmod])

theorem decodeInt_formatInt (field : String) (old x : BitVec 64) :
    decodeInt field old (.number (formatInt x.toInt)) = .ok x := by
  have bounds : -9223372036854775808 ≤ x.toInt ∧ x.toInt < 9223372036854775808 := by
    have := x.isLt
    rw [BitVec.toInt_eq_toNat_cond]
    split <;> omega
  simp [decodeInt, parseInt_formatInt bounds.1 bounds.2, ofInt_toInt]

/-- Storing the fields' values into a fresh record rebuilds the record. -/
theorem unmarshalPeerInfo_fieldValues (p : PeerInfo) :
    unmarshalPeerInfo PeerInfo.zero
        (.object (fields.map fun f => (f.name.toList, fieldValue p f))) = .ok p := by
  have ips : decodeStringSlice Field.ip.name none (stringSliceValue p.ip) = .ok p.ip := by
    cases p.ip <;> simp only [decodeStringSlice, stringSliceValue, decodeElements_strings,
      Option.getD_none, Except.map]
  simp only [unmarshalPeerInfo, fields, List.map, List.foldlM, decodeMember, lookupField_name,
    fieldValue, decodeString, ips, decodeInt_formatInt, Except.map, bind, Except.bind, pure,
    Except.pure, PeerInfo.zero]
  rfl

/-- `Decode` reads back every record the handler's `Encode` writes. -/
theorem decodePeerInfo_encodePeerInfo (p : PeerInfo) :
    decodePeerInfo (encodePeerInfo p) = .ok p := by
  have long : (p.ip.getD []).length + 2 ≤ (encodePeerInfo p).length := by
    have := length_le_encodeStringSlice p.ip
    simp only [encodePeerInfo, encodeObject, fields, List.map, encodeField, commaSeparated,
      List.length_append, List.length_cons]
    omega
  obtain ⟨fuel, eq⟩ : ∃ fuel, 3 * (encodePeerInfo p).length + 3 =
      fuel + (p.ip.getD []).length + 7 :=
    ⟨3 * (encodePeerInfo p).length + 3 - (p.ip.getD []).length - 7, by omega⟩
  simp only [decodePeerInfo, eq, parseValue_encodePeerInfo, Except.mapError, bind, Except.bind,
    unmarshalPeerInfo_fieldValues]

/-! ## What `Peers` sends -/

/-- A multiaddress, as the protocol codes and values of its components. -/
structure Multiaddr where
  components : List (Nat × String)
  deriving DecidableEq, Repr

/-- `multiaddr.P_IP4`. -/
def pIP4 : Nat := 0x0004

/-- `Multiaddr.ValueForProtocol`: the value of the first component of the protocol. -/
def Multiaddr.valueForProtocol (a : Multiaddr) (code : Nat) : Except String String :=
  match a.components.find? (·.1 == code) with
  | some (_, v) => .ok v
  | none => .error "protocol not found in multiaddr"

/-- The loop of `Peers` over `p.Addrs`: each address's non-empty IPv4 value is appended. -/
def appendIPv4 (ips : List String) : List Multiaddr → List String
  | [] => ips
  | a :: addrs =>
    match a.valueForProtocol pIP4 with
    | .ok v => if v = "" then appendIPv4 ips addrs else appendIPv4 (ips ++ [v]) addrs
    | .error _ => appendIPv4 ips addrs

/-- The record `Peers` sends for a decoded record `r` of a provider with addresses `addrs`:
`IP` set to `[]string{}` when nil, then the IPv4 values appended. -/
def withAddrs (r : PeerInfo) (addrs : List Multiaddr) : PeerInfo :=
  { r with ip := some (appendIPv4 (r.ip.getD []) addrs) }

/-- The non-empty IPv4 values of a list of addresses, in order. -/
def ipv4Values (addrs : List Multiaddr) : List String :=
  addrs.filterMap fun a =>
    match a.valueForProtocol pIP4 with
    | .ok v => if v = "" then none else some v
    | .error _ => none

theorem appendIPv4_eq (ips : List String) (addrs : List Multiaddr) :
    appendIPv4 ips addrs = ips ++ ipv4Values addrs := by
  induction addrs generalizing ips with
  | nil => simp [appendIPv4, ipv4Values]
  | cons a addrs ih =>
    simp only [appendIPv4, ipv4Values, List.filterMap_cons]
    split
    · split <;> simp [ih, ipv4Values]
    · simp [ih, ipv4Values]

/-- The record `Peers` sends for an announcer is the announced record, with its `IP` list (`[]`
for a nil one) followed by the provider's IPv4 values, and nothing else changed; `Decode`
itself gives back the announced record, a nil list as nil. -/
theorem announced_record_round_trip (p : PeerInfo) (addrs : List Multiaddr) :
    decodePeerInfo (encodePeerInfo p) = .ok p ∧
      withAddrs p addrs = { p with ip := some (p.ip.getD [] ++ ipv4Values addrs) } :=
  ⟨decodePeerInfo_encodePeerInfo p, by rw [withAddrs, appendIPv4_eq]⟩

end Bitcoinx.Discovery
