import Mathlib.Data.List.Destutter
import MbrcPlugin.Lib.Addresses
import MbrcPlugin.Lib.Transition
import MbrcPlugin.Protocol.Json
import MbrcPlugin.Protocol.WireV6
import MbrcPlugin.Settings.Config

/-!
# Discovery

A client multicasts a probe from each of its addresses, every plugin that hears one answers with
the address it can be reached at from there, and the client keeps the distinct answers.  Datagrams
are lost, repeated and overtaken as the network likes, the interfaces of a host come and go, and
other traffic reaches the same sockets.  What the client finds in any run is `discovered`: it is
what some plugin told that heard a probe of this client, once for each address and port.
-/

namespace Mbrc.Discovery

open Net
open Installations (asU64)

/-! ## Addresses -/

/-- An address of an interface, and its netmask. -/
structure Iface where
  ip : Ipv4Addr
  netmask : Ipv4Addr
  deriving DecidableEq

def isUnspecified (ip : Ipv4Addr) : Bool := ip = .new 0 0 0 0

def isLinkLocal (ip : Ipv4Addr) : Bool := ip.a.val = 169 && ip.b.val = 254

def isPrivate (ip : Ipv4Addr) : Bool :=
  ip.a.val = 10 || (ip.a.val = 172 && 16 ≤ ip.b.val && ip.b.val ≤ 31) ||
    (ip.a.val = 192 && ip.b.val = 168)

/-- `same_subnet`. -/
def sameSubnet (a b mask : Ipv4Addr) : Bool :=
  a.toNat &&& mask.toNat = b.toNat &&& mask.toNat

/-- `usable_ipv4_ifaces`: without loopback, unspecified and link-local addresses. -/
def usable (ifaces : List Iface) : List Iface :=
  ifaces.filter fun i => !i.ip.isLoopback && !isUnspecified i.ip && !isLinkLocal i.ip

/-- `best_private_ipv4`. -/
def bestPrivate (ifaces : List Iface) : Option Ipv4Addr :=
  ((ifaces.find? fun i => isPrivate i.ip).or ifaces.head?).map Iface.ip

/-- `advertise_ip`: the address on the subnet of the client, else a best guess. -/
def advertiseIp (ifaces : List Iface) (client : Option Ipv4Addr) : Option Ipv4Addr :=
  let usable := usable ifaces
  match client.bind fun client => usable.find? fun i => sameSubnet i.ip client i.netmask with
  | some i => some i.ip
  | none => bestPrivate usable

/-- `interface_ipv4s`: the addresses a client probes from, sorted and each once. -/
def interfaceIpv4s (addrs : List Ipv4Addr) : List Ipv4Addr :=
  let addrs := ((addrs.filter fun ip => !ip.isLoopback).mergeSort fun a b =>
    a.toNat ≤ b.toNat).destutter (· ≠ ·)
  if addrs = [] then [.new 0 0 0 0] else addrs

/-! ## Probes and answers -/

/-- `probe_request`. -/
def probeRequest (iface : Ipv4Addr) (askProtocols : Bool) : Value :=
  .object ([("context", .string "discovery"), ("address", .string (IpAddr.v4 iface).display)] ++
    if askProtocols then [("protocol", .bool true)] else [])

/-- What a probe asked for. -/
structure Probe where
  clientIp : Option Ipv4Addr := none
  wantsProtocols : Bool := false

/-- `Probe::parse`, of a datagram that may not be JSON. -/
def Probe.parse : Option Value → Probe
  | none => {}
  | some value =>
    { clientIp := ((value.get "address").bind Value.asStr).bind fun a => parseIpv4 (Text.trim a)
      wantsProtocols := (value.get "protocol").bind Value.asBool = some true }

/-- `advertised_protocols_csv`. -/
def advertisedProtocolsCsv : String := ",".intercalate ([4, 5, 6].map toString)

/-- `notify`. -/
def notify (address name : String) (port : Fin 65536) (withProtocols : Bool) : Value :=
  .object ([("context", .string "notify"), ("address", .string address), ("name", .string name),
    ("port", .int port.val)] ++
    if withProtocols then [("protocol", .string advertisedProtocolsCsv)] else [])

/-- A host that runs the plugin, by its environment. -/
structure Host where
  computerName : Option String
  hostName : Option String
  port : Fin 65536

/-- `hostname`. -/
def Host.name (h : Host) : String :=
  ((h.computerName.or h.hostName).filter fun s => Text.trim s ≠ "").getD "MusicBee"

/-- `respond`: what a host answers a datagram from an IPv4 source. -/
def respond (h : Host) (ifaces : List Iface) (source : Ipv4Addr) (req : Option Value) : Value :=
  let probe := Probe.parse req
  let clientIp := probe.clientIp.or (some source)
  let address := (advertiseIp ifaces clientIp).elim "" fun ip => (IpAddr.v4 ip).display
  notify address h.name h.port probe.wantsProtocols

structure Discovered where
  address : String
  port : Nat
  name : String
  protocols : Option String
  deriving DecidableEq

def defaultPluginPort : Nat := 3000

/-- `parse_notify`, of a datagram that may not be JSON. -/
def parseNotify (datagram : Option Value) : Option Discovered := do
  let v ← datagram
  let context ← (← v.get "context").asStr
  guard (context = "notify")
  let address ← (← v.get "address").asStr
  guard (address ≠ "")
  return {
    address
    port := ((v.get "port").bind asU64).getD defaultPluginPort % 65536
    name := (((v.get "name").bind Value.asStr).filter (· ≠ "")).getD "MusicBee Remote"
    protocols := ((v.get "protocol").bind Value.asStr).filter (· ≠ "") }

/-- An answer beside the ones that are kept. -/
def keep (found : List Discovered) (d : Discovered) : List Discovered :=
  if found.any fun e => e.address = d.address && e.port = d.port then found else found ++ [d]

/-! ## A search -/

/-- One call of `discover`, and the datagrams that may reach its sockets. -/
structure Search where
  /-- The addresses a socket was opened at, and a probe sent from. -/
  opened : List Ipv4Addr
  askProtocols : Bool
  inFlight : List (Option Value) := []
  /-- The datagrams that were received, for the statements. -/
  received : List (Option Value) := []
  found : List Discovered := []

inductive Event where
  /-- A host with these interfaces hears the probe of an address, as coming from a source. -/
  | hear (host : Host) (ifaces : List Iface) (source probe : Ipv4Addr)
  /-- Something else is sent to a socket. -/
  | stray (datagram : Option Value)
  /-- A datagram arrives, maybe not for the first time. -/
  | receive (n : Nat)

namespace Search

/-- Nothing else that is sent to a socket is an answer. -/
def step (s : Search) : Event → Option Search
  | .hear host ifaces source probe =>
    if probe ∈ s.opened then
      some { s with
        inFlight := s.inFlight ++
          [some (respond host ifaces source (some (probeRequest probe s.askProtocols)))] }
    else none
  | .stray datagram =>
    if (parseNotify datagram).isNone then some { s with inFlight := s.inFlight ++ [datagram] }
    else none
  | .receive n =>
    match s.inFlight[n]? with
    | some datagram =>
      some { s with
        received := s.received ++ [datagram]
        found := (parseNotify datagram).elim s.found (keep s.found) }
    | none => none

/-- A search that begins has opened sockets at some of its addresses. -/
def system (addrs : List Ipv4Addr) (askProtocols : Bool) : Transition.System Search Event where
  start s := s.opened ⊆ interfaceIpv4s addrs ∧ s.askProtocols = askProtocols ∧ s.inFlight = [] ∧
    s.received = [] ∧ s.found = []
  next := step

end Search

/-! ## Texts of addresses -/

theorem isWhiteSpace_of_mem_showNumber {n : Nat} {c : Char} (h : c ∈ showNumber 10 n) :
    Text.isWhiteSpace c = false := by
  have hall : ∀ m ∈ List.range 10, Text.isWhiteSpace (Nat.digitChar m) = false := by decide
  unfold showNumber at h
  split at h
  · obtain rfl := List.mem_singleton.mp h
    decide
  · obtain ⟨d, hd, rfl⟩ := List.mem_map.mp (List.mem_reverse.mp h)
    exact hall d (List.mem_range.mpr (Nat.digits_lt_base (by omega) hd))

theorem trim_display (ip : Ipv4Addr) :
    Text.trim (IpAddr.v4 ip).display = (IpAddr.v4 ip).display := by
  have hshow : ∀ c ∈ showIpv4 ip, Text.isWhiteSpace c = false := by
    intro c hc
    rcases mem_intercalate hc with rfl | ⟨l, hl, hc⟩
    · decide
    · simp only [List.mem_cons, List.not_mem_nil, or_false] at hl
      rcases hl with rfl | rfl | rfl | rfl <;> exact isWhiteSpace_of_mem_showNumber hc
  rw [Text.trim_eq, IpAddr.display, String.toList_ofList, trimChars_eq_self hshow]

theorem parseIpv4_display (ip : Ipv4Addr) : parseIpv4 (IpAddr.v4 ip).display = some ip := by
  rw [parseIpv4, IpAddr.display, String.toList_ofList, readIpv4_showIpv4]

theorem display_ne_empty (ip : Ipv4Addr) : (IpAddr.v4 ip).display ≠ "" := by
  intro h
  have hparse := parseIpv4_display ip
  rw [h] at hparse
  simp [parseIpv4, readIpv4] at hparse

/-! ## Round trips -/

/-- **A probe says who asks, and what.** -/
theorem parse_probeRequest (iface : Ipv4Addr) (askProtocols : Bool) :
    Probe.parse (some (probeRequest iface askProtocols)) =
      { clientIp := some iface, wantsProtocols := askProtocols } := by
  have haddress : (probeRequest iface askProtocols).get "address" =
      some (.string (IpAddr.v4 iface).display) := by
    simp [probeRequest, Value.get, List.lookup_cons]
  have hprotocol : (probeRequest iface askProtocols).get "protocol" =
      if askProtocols then some (.bool true) else none := by
    cases askProtocols <;> simp [probeRequest, Value.get, List.lookup_cons]
  have hip : parseIpv4 (Text.trim (IpAddr.v4 iface).display) = some iface := by
    rw [trim_display, parseIpv4_display]
  cases askProtocols <;> simp [Probe.parse, haddress, hprotocol, Value.asStr, Value.asBool, hip]

/-- The name of a host is never empty. -/
theorem name_ne_empty (h : Host) : h.name ≠ "" := by
  unfold Host.name
  cases hname : (h.computerName.or h.hostName).filter fun s => Text.trim s ≠ "" with
  | none => decide
  | some name =>
    intro hempty
    have hkept := (Option.filter_eq_some_iff.mp hname).2
    rw [Option.getD_some] at hempty
    rw [hempty] at hkept
    exact absurd hkept (by decide)

/-- **An answer is read as it was meant**, where it gives an address. -/
theorem parseNotify_notify {address name : String} (haddress : address ≠ "") (hname : name ≠ "")
    (port : Fin 65536) (withProtocols : Bool) :
    parseNotify (some (notify address name port withProtocols)) =
      some { address, port := port.val, name
             protocols := if withProtocols then some advertisedProtocolsCsv else none } := by
  have hport : asU64 (.int port.val) = some port.val := WireV6.asU64_int (by omega)
  have hmod : port.val % 65536 = port.val := Nat.mod_eq_of_lt port.isLt
  have hcsv : advertisedProtocolsCsv ≠ "" := by decide
  cases withProtocols <;>
    simp [parseNotify, notify, Value.get, Value.asStr, List.lookup_cons, Option.filter_some, guard,
      haddress, hname, hport, hmod, hcsv]

/-- No answer is read where it gives none. -/
theorem parseNotify_empty (name : String) (port : Fin 65536) (withProtocols : Bool) :
    parseNotify (some (notify "" name port withProtocols)) = none := by
  simp [parseNotify, notify, Value.get, Value.asStr, List.lookup_cons, guard]

/-! ## What is advertised -/

/-- **What a host tells a client** that probes from an address: one of its usable addresses, on the
client's subnet where it has one there, else a private one where it has one. -/
structure Advertised (host : Host) (ifaces : List Iface) (probe : Ipv4Addr) (askProtocols : Bool)
    (d : Discovered) : Prop where
  port : d.port = host.port.val
  name : d.name = host.name
  protocols : d.protocols = if askProtocols then some advertisedProtocolsCsv else none
  address : ∃ i ∈ usable ifaces, d.address = (IpAddr.v4 i.ip).display ∧
    ((∃ j ∈ usable ifaces, sameSubnet j.ip probe j.netmask = true) →
      sameSubnet i.ip probe i.netmask = true) ∧
    ((∀ j ∈ usable ifaces, sameSubnet j.ip probe j.netmask = false) →
      (∃ j ∈ usable ifaces, isPrivate j.ip = true) → isPrivate i.ip = true)

/-- The address to advertise, and which one it is. -/
theorem advertiseIp_cases (ifaces : List Iface) (probe : Ipv4Addr) :
    (usable ifaces = [] ∧ advertiseIp ifaces (some probe) = none) ∨
      ∃ i ∈ usable ifaces, advertiseIp ifaces (some probe) = some i.ip ∧
        ((∃ j ∈ usable ifaces, sameSubnet j.ip probe j.netmask = true) →
          sameSubnet i.ip probe i.netmask = true) ∧
        ((∀ j ∈ usable ifaces, sameSubnet j.ip probe j.netmask = false) →
          (∃ j ∈ usable ifaces, isPrivate j.ip = true) → isPrivate i.ip = true) := by
  cases hfind : (usable ifaces).find? fun i => sameSubnet i.ip probe i.netmask with
  | some i =>
    have hsame : sameSubnet i.ip probe i.netmask = true := by simpa using List.find?_some hfind
    have hi := List.mem_of_find?_eq_some hfind
    refine .inr ⟨i, hi, by simp [advertiseIp, hfind], fun _ => hsame, fun hnone => ?_⟩
    rw [hnone i hi] at hsame
    cases hsame
  | none =>
    have hother : ∀ j ∈ usable ifaces, ¬ sameSubnet j.ip probe j.netmask = true :=
      List.find?_eq_none.mp hfind
    have hbest : advertiseIp ifaces (some probe) = bestPrivate (usable ifaces) := by
      simp [advertiseIp, hfind]
    rw [hbest]
    cases hprivate : (usable ifaces).find? fun i => isPrivate i.ip with
    | some i =>
      have hi := List.mem_of_find?_eq_some hprivate
      refine .inr ⟨i, hi, by simp [bestPrivate, hprivate], ?_, fun _ _ => ?_⟩
      · rintro ⟨j, hj, hsame⟩
        exact absurd hsame (hother j hj)
      · simpa using List.find?_some hprivate
    | none =>
      have hnone := List.find?_eq_none.mp hprivate
      cases hu : usable ifaces with
      | nil => exact .inl ⟨rfl, by simp [bestPrivate]⟩
      | cons i rest =>
        rw [hu] at hprivate hother hnone
        refine .inr ⟨i, List.mem_cons_self, by simp [bestPrivate, hprivate], ?_, ?_⟩
        · rintro ⟨j, hj, hsame⟩
          exact absurd hsame (hother j hj)
        · rintro - ⟨j, hj, hp⟩
          exact absurd hp (hnone j hj)

/-- The answer to a probe of this client is read as what the host tells, or gives no address. -/
theorem parseNotify_respond (host : Host) (ifaces : List Iface) (source probe : Ipv4Addr)
    (askProtocols : Bool) :
    (usable ifaces = [] ∧
      parseNotify (some (respond host ifaces source (some (probeRequest probe askProtocols)))) =
        none) ∨
    ∃ d, parseNotify (some (respond host ifaces source (some (probeRequest probe askProtocols)))) =
        some d ∧ Advertised host ifaces probe askProtocols d := by
  have hanswer : respond host ifaces source (some (probeRequest probe askProtocols)) =
      notify ((advertiseIp ifaces (some probe)).elim "" fun ip => (IpAddr.v4 ip).display) host.name
        host.port askProtocols := by
    simp only [respond, parse_probeRequest, Option.some_or]
  rw [hanswer]
  rcases advertiseIp_cases ifaces probe with ⟨hnone, hip⟩ | ⟨i, hi, hip, hsubnet, hprivate⟩
  · refine .inl ⟨hnone, ?_⟩
    rw [hip]
    exact parseNotify_empty _ _ _
  · rw [hip]
    refine .inr ⟨_, parseNotify_notify (display_ne_empty i.ip) (name_ne_empty host) host.port
      askProtocols, rfl, rfl, rfl, i, hi, rfl, hsubnet, hprivate⟩

/-! ## What is kept -/

/-- What tells two answers apart. -/
def Discovered.key (d : Discovered) : String × Nat := (d.address, d.port)

theorem keep_cases (found : List Discovered) (d : Discovered) :
    (d.key ∈ found.map Discovered.key ∧ keep found d = found) ∨
      (d.key ∉ found.map Discovered.key ∧ keep found d = found ++ [d]) := by
  have hany : (found.any fun e => e.address = d.address && e.port = d.port) = true ↔
      d.key ∈ found.map Discovered.key := by
    simp only [List.any_eq_true, Bool.and_eq_true, decide_eq_true_eq, List.mem_map, Discovered.key,
      Prod.mk.injEq]
  unfold keep
  split
  · exact .inl ⟨hany.mp ‹_›, rfl⟩
  · exact .inr ⟨fun hmem => ‹¬ _› (hany.mpr hmem), rfl⟩

theorem mem_keep {found : List Discovered} {d e : Discovered} (he : e ∈ keep found d) :
    e ∈ found ∨ e = d := by
  rcases keep_cases found d with ⟨-, hkeep⟩ | ⟨-, hkeep⟩
  · exact .inl (hkeep ▸ he)
  · rw [hkeep] at he
    exact (List.mem_append.mp he).imp_right List.mem_singleton.mp

theorem key_mem_keep {found : List Discovered} {d : Discovered} {k : String × Nat} :
    k ∈ (keep found d).map Discovered.key ↔ k ∈ found.map Discovered.key ∨ k = d.key := by
  rcases keep_cases found d with ⟨hin, hkeep⟩ | ⟨-, hkeep⟩
  · rw [hkeep, or_iff_left_of_imp]
    rintro rfl
    exact hin
  · rw [hkeep, List.map_append, List.mem_append, List.map_singleton, List.mem_singleton]

theorem keep_distinct {found : List Discovered} (h : (found.map Discovered.key).Nodup)
    (d : Discovered) : ((keep found d).map Discovered.key).Nodup := by
  rcases keep_cases found d with ⟨-, hkeep⟩ | ⟨hnew, hkeep⟩
  · rwa [hkeep]
  · rw [hkeep, List.map_append, List.nodup_append]
    refine ⟨h, List.nodup_singleton _, ?_⟩
    rintro k hk l hl rfl
    exact hnew (List.mem_singleton.mp hl ▸ hk)

/-! ## Every search -/

/-- Some host that heard a probe of this client told it this. -/
def Told (addrs : List Ipv4Addr) (askProtocols : Bool) (past : List Event) (d : Discovered) :
    Prop :=
  ∃ host ifaces source probe, Event.hear host ifaces source probe ∈ past ∧
    probe ∈ interfaceIpv4s addrs ∧ Advertised host ifaces probe askProtocols d

/-- What holds of a search after some events. -/
structure Inv (addrs : List Ipv4Addr) (askProtocols : Bool) (past : List Event) (s : Search) :
    Prop where
  opened : s.opened ⊆ interfaceIpv4s addrs
  asks : s.askProtocols = askProtocols
  inFlight : ∀ g ∈ s.inFlight, ∀ d, parseNotify g = some d → Told addrs askProtocols past d
  found : ∀ d ∈ s.found, Told addrs askProtocols past d
  distinct : (s.found.map Discovered.key).Nodup
  received : ∀ g ∈ s.received, ∀ d, parseNotify g = some d → d.key ∈ s.found.map Discovered.key

variable {addrs : List Ipv4Addr} {askProtocols : Bool} {past : List Event} {s s' : Search}

theorem Told.later {d : Discovered} (h : Told addrs askProtocols past d) (event : Event) :
    Told addrs askProtocols (past ++ [event]) d := by
  obtain ⟨host, ifaces, source, probe, hpast, hrest⟩ := h
  exact ⟨host, ifaces, source, probe, List.mem_append_left _ hpast, hrest⟩

theorem Inv.step {event : Event} (h : Inv addrs askProtocols past s)
    (hs : s.step event = some s') : Inv addrs askProtocols (past ++ [event]) s' := by
  have hfound : ∀ d ∈ s.found, Told addrs askProtocols (past ++ [event]) d :=
    fun d hd => (h.found d hd).later event
  have hflight : ∀ g ∈ s.inFlight, ∀ d, parseNotify g = some d →
      Told addrs askProtocols (past ++ [event]) d :=
    fun g hg d hd => (h.inFlight g hg d hd).later event
  cases event with
  | hear host ifaces source probe =>
    simp only [Search.step] at hs
    split at hs
    · rename_i hopened
      obtain rfl := Option.some.inj hs
      refine ⟨h.opened, h.asks, fun g hg d hd => ?_, hfound, h.distinct, h.received⟩
      rcases List.mem_append.mp hg with hg | hg
      · exact hflight g hg d hd
      · obtain rfl := List.mem_singleton.mp hg
        rw [h.asks] at hd
        rcases parseNotify_respond host ifaces source probe askProtocols with
          ⟨-, hnone⟩ | ⟨e, he, ha⟩
        · rw [hnone] at hd
          cases hd
        · obtain rfl := Option.some.inj (he.symm.trans hd)
          exact ⟨host, ifaces, source, probe, List.mem_append_right _ List.mem_cons_self,
            h.opened hopened, ha⟩
    · cases hs
  | stray datagram =>
    simp only [Search.step] at hs
    split at hs
    · rename_i hstray
      obtain rfl := Option.some.inj hs
      refine ⟨h.opened, h.asks, fun g hg d hd => ?_, hfound, h.distinct, h.received⟩
      rcases List.mem_append.mp hg with hg | hg
      · exact hflight g hg d hd
      · obtain rfl := List.mem_singleton.mp hg
        rw [hd] at hstray
        cases hstray
    · cases hs
  | receive n =>
    simp only [Search.step] at hs
    split at hs
    · rename_i datagram hn
      obtain rfl := Option.some.inj hs
      have hgram := List.mem_of_getElem? hn
      cases hd : parseNotify datagram with
      | none =>
        refine ⟨h.opened, h.asks, hflight, hfound, h.distinct, fun g hg d hgd => ?_⟩
        rcases List.mem_append.mp hg with hg | hg
        · exact h.received g hg d hgd
        · obtain rfl := List.mem_singleton.mp hg
          rw [hd] at hgd
          cases hgd
      | some d =>
        refine ⟨h.opened, h.asks, hflight, fun e he => ?_, keep_distinct h.distinct d,
          fun g hg e he => key_mem_keep.mpr ?_⟩
        · rcases mem_keep he with hold | rfl
          · exact hfound e hold
          · exact hflight datagram hgram e hd
        · rcases List.mem_append.mp hg with hg | hg
          · exact .inl (h.received g hg e he)
          · obtain rfl := List.mem_singleton.mp hg
            exact .inr (congrArg Discovered.key (Option.some.inj (he.symm.trans hd)))
    · cases hs

theorem inv_run {s₀ : Search} {events : List Event} (h₀ : Inv addrs askProtocols [] s₀)
    (he : (Search.system addrs askProtocols).exec s₀ events = some s) :
    Inv addrs askProtocols events s := by
  induction events using List.reverseRecOn generalizing s with
  | nil =>
    obtain rfl := Option.some.inj he
    exact h₀
  | append_singleton past event ih =>
    rw [Transition.System.exec_snoc] at he
    obtain ⟨t, ht, hnext⟩ := Option.bind_eq_some_iff.mp he
    exact (ih ht).step hnext

end Mbrc.Discovery
