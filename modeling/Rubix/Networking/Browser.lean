/-
# `Rubix.Networking.Browser` — peers that advertise themselves over mDNS

    advertiser    the TXT record of a service named after the fingerprint
    browser       a service is resolved   ──▶  Discovered
                  a service is removed    ──▶  Removed

A thread of the browser takes the daemon's events one by one and sends what it
makes of them on a channel of a hundred messages.  It waits where that is full,
so no event is lost, repeated or overtaken on the way to `next_event`.

A record is not signed.  What the browser checks is that the fingerprint is the
one of the advertised keys (`Vouched`); the name, the port and the addresses
are whatever the record says, and a removal is believed on the service's name
alone.  An honest record is read as it was written, in whatever order its
properties come (`parsePeerInfo_advertised`).
-/
import Rubix.Lib.Relay
import Rubix.Lib.Table
import Rubix.Networking.Mdns
import Rubix.Networking.UdpDiscovery

namespace Rubix.Networking

open Security (Crypto IdentityKeys Ed25519PublicKey X25519PublicKey deriveFingerprint)
open DiscoveryBeacon (hex decode_hex arrayFromSlice)

/-- `std::net::IpAddr` -/
inductive IpAddr where
  | v4 (octets : Vector UInt8 4)
  | v6 (segments : Vector UInt16 8)
  deriving DecidableEq

def IpAddr.isV4 : IpAddr → Bool
  | .v4 _ => true
  | .v6 _ => false

/-- What the daemon has resolved of a service: the properties of its TXT record
in their order, and its addresses in the order in which the set of them is
iterated. -/
structure ServiceInfo where
  properties : List (String × String)
  port : UInt16
  addresses : List IpAddr

inductive ServiceEvent where
  | resolved (info : ServiceInfo)
  | removed (fullname : String)
  /-- Any other event of the daemon's. -/
  | other

/-- A `PeerInfo`, in the fields that `parse_peer_info` gives it; the literal there
leaves out `x25519_public`. -/
structure MdnsPeer where
  fingerprint : Fingerprint
  displayName : String
  ipAddress : IpAddr
  tcpPort : UInt16
  lastSeen : DateTime
  deriving DecidableEq

inductive DiscoveryEvent where
  | discovered (peer : MdnsPeer)
  | removed (fp : Fingerprint)
  deriving DecidableEq

/-! ## The record -/

/-- The properties of `MdnsAdvertiser::new`. -/
def advertised (crypto : Crypto) (identity : IdentityKeys) (displayName : String) :
    List (String × String) :=
  [("display_name", displayName),
    ("fingerprint", (identity.fingerprint crypto).toFormattedString),
    ("ed25519", hex identity.ed25519.pub.toList),
    ("x25519", hex identity.x25519.pub.toList),
    ("version", "1")]

/-- `collect` into a `HashMap`: of two properties of one key, the later stays. -/
def collect (properties : List (String × String)) : List (String × String) :=
  properties.foldl (Table.put Prod.fst) []

/-- `properties.get(key)` -/
def ServiceInfo.get (info : ServiceInfo) (key : String) : Option String :=
  (Table.find Prod.fst (collect info.properties) key).map Prod.snd

/-- The first IPv4 address, else the first one. -/
def ServiceInfo.preferredAddress (info : ServiceInfo) : Option IpAddr :=
  (info.addresses.find? IpAddr.isV4).or info.addresses.head?

/-- `parse_peer_info`, at a reading of the clock. -/
def parsePeerInfo (crypto : Crypto) (info : ServiceInfo) (utc : DateTime) : Option MdnsPeer := do
  let fingerprintStr ← info.get "fingerprint"
  let fingerprint ← (Fingerprint.fromHex fingerprintStr).toOption
  let ed25519Hex ← info.get "ed25519"
  let x25519Hex ← info.get "x25519"
  let ed25519Bytes ← Hex.decode ed25519Hex.toList
  let x25519Bytes ← Hex.decode x25519Hex.toList
  let ed25519Pub ← arrayFromSlice 32 ed25519Bytes
  let x25519Pub ← arrayFromSlice 32 x25519Bytes
  let computedFp := deriveFingerprint crypto ed25519Pub x25519Pub
  if computedFp.constantTimeEq fingerprint then
    let ipAddress ← info.preferredAddress
    return {
      fingerprint
      displayName := (info.get "display_name").getD "Unknown"
      ipAddress
      tcpPort := info.port
      lastSeen := utc }
  else none

/-- What the thread makes of an event. -/
def discoveryEvent (crypto : Crypto) (utc : DateTime) : ServiceEvent → Option DiscoveryEvent
  | .resolved info => (parsePeerInfo crypto info utc).map .discovered
  | .removed fullname => (removedFingerprint fullname).map .removed
  | .other => none

/-- The thread of `MdnsBrowser::new`, between the daemon and `next_event`. -/
abbrev Browser : Type := Relay DateTime ServiceEvent DiscoveryEvent 100

def Browser.run (crypto : Crypto) (events : List (Relay.Event DateTime ServiceEvent)) : Browser :=
  Runs.run (Relay.step (discoveryEvent crypto)) events .new

/-! ## What is read -/

/-- `text` is 32 bytes in hex digits. -/
def KeyText (text : String) (key : Vector UInt8 32) : Prop :=
  Hex.decode text.toList = some key.toList

/-- What a discovered peer's record says: the fingerprint is that of the keys. -/
structure Vouched (crypto : Crypto) (info : ServiceInfo) (utc : DateTime) (p : MdnsPeer) :
    Prop where
  keys : ∃ (ed : Ed25519PublicKey) (x : X25519PublicKey),
    (∃ text, info.get "ed25519" = some text ∧ KeyText text ed) ∧
    (∃ text, info.get "x25519" = some text ∧ KeyText text x) ∧
    (∃ text, info.get "fingerprint" = some text ∧
      Fingerprint.fromHex text = .ok (deriveFingerprint crypto ed x)) ∧
    p.fingerprint = deriveFingerprint crypto ed x
  displayName : p.displayName = (info.get "display_name").getD "Unknown"
  ipAddress : info.preferredAddress = some p.ipAddress
  tcpPort : p.tcpPort = info.port
  lastSeen : p.lastSeen = utc

section
variable {crypto : Crypto} {info : ServiceInfo} {utc : DateTime} {p : MdnsPeer}

theorem arrayFromSlice_eq_some {n : Nat} {bytes : List UInt8} {v : Vector UInt8 n} :
    arrayFromSlice n bytes = some v ↔ bytes = v.toList := by
  constructor
  · intro h
    rw [arrayFromSlice] at h
    split at h
    · next hlen =>
        cases h
        refine List.ext_getElem ?_ ?_
        · rw [hlen, Vector.length_toList]
        · intro i hi _
          simp [Security.IdentityBindPayload.field, hi]
    · cases h
  · rintro rfl
    exact DiscoveryBeacon.arrayFromSlice_toList v

theorem Vouched.of_parsePeerInfo (h : parsePeerInfo crypto info utc = some p) :
    Vouched crypto info utc p := by
  obtain ⟨fpText, hfpText, h⟩ := Option.bind_eq_some_iff.mp h
  obtain ⟨fp, hfp, h⟩ := Option.bind_eq_some_iff.mp h
  obtain ⟨edText, hedText, h⟩ := Option.bind_eq_some_iff.mp h
  obtain ⟨xText, hxText, h⟩ := Option.bind_eq_some_iff.mp h
  obtain ⟨edBytes, hedBytes, h⟩ := Option.bind_eq_some_iff.mp h
  obtain ⟨xBytes, hxBytes, h⟩ := Option.bind_eq_some_iff.mp h
  obtain ⟨ed, hed, h⟩ := Option.bind_eq_some_iff.mp h
  obtain ⟨x, hx, h⟩ := Option.bind_eq_some_iff.mp h
  rw [arrayFromSlice_eq_some.mp hed] at hedBytes
  rw [arrayFromSlice_eq_some.mp hx] at hxBytes
  dsimp only at h
  split at h
  · next hmatch =>
      obtain ⟨ip, hip, h⟩ := Option.bind_eq_some_iff.mp h
      cases h
      have hderived : deriveFingerprint crypto ed x = fp :=
        Fingerprint.constantTimeEq_iff.mp hmatch
      have hread : Fingerprint.fromHex fpText = .ok fp := by
        cases hparsed : Fingerprint.fromHex fpText with
        | ok fp' =>
            rw [hparsed] at hfp
            cases hfp
            rfl
        | error e =>
            rw [hparsed] at hfp
            exact nomatch hfp
      refine ⟨⟨ed, x, ⟨edText, hedText, hedBytes⟩, ⟨xText, hxText, hxBytes⟩, ?_, hderived.symm⟩,
        rfl, hip, rfl, rfl⟩
      exact ⟨fpText, hfpText, hderived ▸ hread⟩
  · exact nomatch h

theorem Vouched.parsePeerInfo (h : Vouched crypto info utc p) :
    parsePeerInfo crypto info utc = some p := by
  obtain ⟨ed, x, ⟨edText, hedText, hed⟩, ⟨xText, hxText, hx⟩, ⟨fpText, hfpText, hfp⟩, hderived⟩ :=
    h.keys
  have hsame : (deriveFingerprint crypto ed x).constantTimeEq (deriveFingerprint crypto ed x)
      = true := Fingerprint.constantTimeEq_iff.mpr rfl
  obtain ⟨hname, hip, hport, hseen⟩ := And.intro h.displayName
    (And.intro h.ipAddress (And.intro h.tcpPort h.lastSeen))
  rw [KeyText] at hed hx
  simp only [Networking.parsePeerInfo, hedText, hxText, hfpText, hed, hx, hfp,
    DiscoveryBeacon.arrayFromSlice_toList, Except.toOption, hsame, hip, if_true, bind,
    Option.bind_some, pure]
  rw [← hname, ← hport, ← hseen, ← hderived]

theorem ServiceInfo.preferredAddress_spec {ip : IpAddr} (h : info.preferredAddress = some ip) :
    ip ∈ info.addresses ∧ ((∃ a ∈ info.addresses, a.isV4 = true) → ip.isV4 = true) := by
  rw [preferredAddress] at h
  cases hv4 : info.addresses.find? IpAddr.isV4 with
  | some a =>
      rw [hv4] at h
      cases h
      exact ⟨List.mem_of_find?_eq_some hv4, fun _ => List.find?_some hv4⟩
  | none =>
      rw [hv4] at h
      refine ⟨List.mem_of_mem_head? h, ?_⟩
      rintro ⟨a, ha, hisV4⟩
      exact absurd hisV4 (List.find?_eq_none.mp hv4 a ha)

/-! ## What is advertised -/

/-- A key with one value is found, wherever it stands. -/
theorem ServiceInfo.get_of_unique {key value : String} (hmem : (key, value) ∈ info.properties)
    (honly : ∀ value', (key, value') ∈ info.properties → value' = value) :
    info.get key = some value := by
  rw [get, collect, Table.find_foldl_put]
  cases hfound : Table.find Prod.fst info.properties.reverse key with
  | none =>
      exact absurd rfl (Table.find_eq_none_iff.mp hfound _ (List.mem_reverse.mpr hmem))
  | some r =>
      have hkey : r.1 = key := Table.key_of_find hfound
      have hr : r ∈ info.properties := List.mem_reverse.mp (List.mem_of_find?_eq_some hfound)
      have hvalue : r.2 = value := honly r.2 (hkey ▸ hr)
      simp [hvalue]

theorem advertised_keys (crypto : Crypto) (identity : IdentityKeys) (displayName : String) :
    Table.Unique Prod.fst (advertised crypto identity displayName) := by
  show ["display_name", "fingerprint", "ed25519", "x25519", "version"].Nodup
  decide

/-- In whatever order the properties come, each is found as it was written. -/
theorem get_advertised {identity : IdentityKeys} {displayName : String}
    (h : info.properties.Perm (advertised crypto identity displayName)) {key value : String}
    (hmem : (key, value) ∈ advertised crypto identity displayName) :
    info.get key = some value := by
  refine ServiceInfo.get_of_unique (h.mem_iff.mpr hmem) ?_
  intro value' hmem'
  have hunique := advertised_keys crypto identity displayName
  exact congrArg Prod.snd (hunique.eq_of_key (h.mem_iff.mp hmem') hmem rfl)

theorem keyText_hex (key : Vector UInt8 32) : KeyText (hex key.toList) key := decode_hex _

/-- An honest record is read as it was written. -/
theorem parsePeerInfo_advertised {identity : IdentityKeys} {displayName : String}
    (h : info.properties.Perm (advertised crypto identity displayName)) {ip : IpAddr}
    (hip : info.preferredAddress = some ip) (utc : DateTime) :
    parsePeerInfo crypto info utc = some
      { fingerprint := identity.fingerprint crypto
        displayName
        ipAddress := ip
        tcpPort := info.port
        lastSeen := utc } := by
  have hname : info.get "display_name" = some displayName := get_advertised h (by simp [advertised])
  have hfp : info.get "fingerprint" = some (identity.fingerprint crypto).toFormattedString :=
    get_advertised h (by simp [advertised])
  have hed : info.get "ed25519" = some (hex identity.ed25519.pub.toList) :=
    get_advertised h (by simp [advertised])
  have hx : info.get "x25519" = some (hex identity.x25519.pub.toList) :=
    get_advertised h (by simp [advertised])
  refine Vouched.parsePeerInfo ⟨?_, ?_, hip, rfl, rfl⟩
  · refine ⟨identity.ed25519.pub, identity.x25519.pub, ⟨_, hed, keyText_hex _⟩,
      ⟨_, hx, keyText_hex _⟩, ⟨_, hfp, ?_⟩, rfl⟩
    exact Fingerprint.fromHex_toFormattedString _
  · rw [hname]
    rfl

/-- A removal is read off the name's first label, whatever follows. -/
theorem discoveryEvent_removed (fp : Fingerprint) (rest : String) (utc : DateTime) :
    discoveryEvent crypto utc (.removed (fp.toFormattedString ++ "." ++ rest))
      = some (.removed fp) := by
  rw [discoveryEvent, removedFingerprint, firstLabel_formatted,
    Fingerprint.fromHex_toFormattedString]
  rfl

/-! ## What is reported -/

/-- What stands behind an event that `next_event` returns. -/
def Reported (crypto : Crypto) (taken : List (DateTime × ServiceEvent)) : DiscoveryEvent → Prop
  | .discovered p => ∃ utc info, (utc, .resolved info) ∈ taken ∧ Vouched crypto info utc p ∧
      p.ipAddress ∈ info.addresses ∧
        ((∃ a ∈ info.addresses, a.isV4 = true) → p.ipAddress.isV4 = true)
  | .removed fp => ∃ utc fullname, (utc, .removed fullname) ∈ taken ∧
      Fingerprint.fromHex (firstLabel fullname) = .ok fp

theorem reported_of_discoveryEvent {taken : List (DateTime × ServiceEvent)} {e : ServiceEvent}
    {d : DiscoveryEvent} (htaken : (utc, e) ∈ taken) (h : discoveryEvent crypto utc e = some d) :
    Reported crypto taken d := by
  cases e with
  | resolved info =>
      obtain ⟨p, hp, rfl⟩ := Option.map_eq_some_iff.mp h
      have hvouched := Vouched.of_parsePeerInfo hp
      obtain ⟨hmem, hprefers⟩ := ServiceInfo.preferredAddress_spec hvouched.ipAddress
      exact ⟨utc, info, htaken, hvouched, hmem, hprefers⟩
  | removed fullname =>
      obtain ⟨fp, hfp, rfl⟩ := Option.map_eq_some_iff.mp h
      refine ⟨utc, fullname, htaken, ?_⟩
      rw [removedFingerprint] at hfp
      cases hread : Fingerprint.fromHex (firstLabel fullname) with
      | ok fp' =>
          rw [hread] at hfp
          cases hfp
          rfl
      | error e =>
          rw [hread] at hfp
          cases hfp
  | other => cases h

/-- Every run of the browser, whatever the daemon reports: the events that come
out are what was made of those that went in, in order and each once, and each
stands behind a record of its own.  An honest record that is resolved with an
address comes out as the peer that advertised it, and a removed one as its
removal. -/
theorem browser_reports (crypto : Crypto) (events : List (Relay.Event DateTime ServiceEvent)) :
    let s := Browser.run crypto events
    s.taken.map Prod.snd ++ s.source = Relay.arrivals events ∧
      s.received <+: s.made (discoveryEvent crypto) ∧
      s.channel.contents.length ≤ 101 ∧
      (∀ d ∈ s.received, Reported crypto s.taken d) ∧
      (s.closed = false →
        s.received ++ s.channel.contents = s.made (discoveryEvent crypto) ∧
        ((∀ e, e.IsTurn → s.step (discoveryEvent crypto) e = s) →
          s.source = [] ∧ s.received = s.made (discoveryEvent crypto))) ∧
      (∀ e, e.IsTurn → s.step (discoveryEvent crypto) e = s ∨
        (s.step (discoveryEvent crypto) e).left < s.left) ∧
      (∀ utc info identity displayName ip, (utc, .resolved info) ∈ s.taken →
        info.properties.Perm (advertised crypto identity displayName) →
        info.preferredAddress = some ip →
        .discovered
          { fingerprint := identity.fingerprint crypto
            displayName
            ipAddress := ip
            tcpPort := info.port
            lastSeen := utc } ∈ s.made (discoveryEvent crypto)) ∧
      (∀ utc fp rest, (utc, .removed (fp.toFormattedString ++ "." ++ rest)) ∈ s.taken →
        .removed fp ∈ s.made (discoveryEvent crypto)) := by
  intro s
  have hordered : Relay.Ordered (discoveryEvent crypto) s := Relay.run_ordered events
  refine ⟨Relay.run_items events .new, (List.prefix_append _ _).trans hordered.front,
    hordered.length_contents_le, ?_, ?_, fun e he => Relay.left_lt he, ?_, ?_⟩
  · intro d hd
    obtain ⟨utc, e, htaken, hmake⟩ := hordered.of_received hd
    exact reported_of_discoveryEvent htaken hmake
  · intro hopen
    refine ⟨hordered.whole hopen, ?_⟩
    intro hquiet
    exact hordered.all_received (by decide) hopen hquiet 0
  · intro utc info identity displayName ip htaken hrecord hip
    refine List.mem_filterMap.mpr ⟨_, htaken, ?_⟩
    show (parsePeerInfo crypto info utc).map DiscoveryEvent.discovered = _
    rw [parsePeerInfo_advertised hrecord hip utc]
    rfl
  · intro utc fp rest htaken
    exact List.mem_filterMap.mpr ⟨_, htaken, discoveryEvent_removed fp rest utc⟩

end

section
open Security.Idealized

/-- Alice's record, its properties from the last to the first. -/
def aliceService : ServiceInfo where
  properties := (advertised crypto alice "Alice").reverse
  port := 7878
  addresses := [.v6 (Vector.replicate 8 1), .v4 (Vector.replicate 4 10)]

def aliceComes : List (Relay.Event DateTime ServiceEvent) :=
  [.arrives (.resolved aliceService), .takes 3]

def aliceGoes : List (Relay.Event DateTime ServiceEvent) :=
  [.arrives (.removed (serviceName (fingerprintOf alice))), .takes 4]

theorem browser_reports_alice :
    .discovered
        { fingerprint := fingerprintOf alice
          displayName := "Alice"
          ipAddress := .v4 (Vector.replicate 4 10)
          tcpPort := 7878
          lastSeen := 3 }
      ∈ (Browser.run crypto aliceComes).received
          ++ (Browser.run crypto aliceComes).channel.contents ∧
    .removed (fingerprintOf alice)
      ∈ (Browser.run crypto aliceGoes).received
          ++ (Browser.run crypto aliceGoes).channel.contents := by
  constructor
  · obtain ⟨-, -, -, -, hopen, -, hrecord, -⟩ := browser_reports crypto aliceComes
    rw [(hopen rfl).1]
    exact hrecord 3 aliceService alice "Alice" _ List.mem_cons_self (List.reverse_perm _) rfl
  · obtain ⟨-, -, -, -, hopen, -, -, hremoved⟩ := browser_reports crypto aliceGoes
    rw [(hopen rfl).1]
    exact hremoved 4 (fingerprintOf alice) serviceType List.mem_cons_self

end

end Rubix.Networking
