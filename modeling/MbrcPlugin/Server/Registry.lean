import MbrcPlugin.Lib.OrderedTable
import Mathlib.Data.Finset.Card
import Mathlib.Data.List.MinMax
import Mathlib.Data.Prod.Lex
import Mathlib.Data.String.Basic

/-!
# The connection registry

It bounds the concurrent connections of a source IP and of a `client_id`, and closes the stale main
of a client that reconnects.  A connection is known by its number, and so is the handle that closes
it; what an operation closes is part of its answer.
-/

namespace Mbrc.Registry

inductive IpAddr where
  | v4 (bits : BitVec 32)
  | v6 (bits : BitVec 128)
  deriving DecidableEq

def IpAddr.isLoopback : IpAddr → Bool
  | .v4 bits => bits >>> 24 = 127
  | .v6 bits => bits = 1

/-- How long a connection must have been silent before it may be evicted. -/
def minEvictIdleMs : Nat := 10000

/-- What a connection is for. -/
inductive Role where
  | subscriber | auxiliary
  deriving DecidableEq

inductive Admit where
  | admitted | rejectedCap
  deriving DecidableEq

inductive IpAdmit where
  | admitted
  /-- This stale connection was closed to make room. -/
  | evicted (victim : Nat)
  | rejected
  deriving DecidableEq

/-- The live sockets of one `client_id`. -/
structure ClientEntry where
  conns : Finset Nat := ∅
  main : Option Nat := none
  deriving DecidableEq

/-- What is kept about one handshaked connection. -/
structure ConnMeta where
  ip : IpAddr
  role : Role
  lastActiveMs : Nat
  deriving DecidableEq

structure State where
  maxConnsPerClient : Nat
  maxConnsPerIp : Nat
  byIp : IpAddr → Option Nat
  byClient : Table String ClientEntry
  shutdown : Finset Nat
  conns : Table Nat ConnMeta

namespace State

def new (maxConnsPerClient maxConnsPerIp : Nat) : State :=
  { maxConnsPerClient, maxConnsPerIp, byIp := fun _ => none, byClient := Table.empty
    shutdown := ∅, conns := Table.empty }

/-- The slots of an IP. -/
def slots (r : State) (ip : IpAddr) : Nat := (r.byIp ip).getD 0

def setSlots (r : State) (ip : IpAddr) (count : Option Nat) : State :=
  { r with byIp := fun a => if a = ip then count else r.byIp a }

/-- A connection of an IP that may be evicted. -/
def ConnMeta.mayGo (ip : IpAddr) (now : Nat) (c : ConnMeta) : Bool :=
  c.ip = ip && c.role ≠ .subscriber && minEvictIdleMs ≤ now - c.lastActiveMs

/-- The connection this IP can most afford to lose. -/
def evictable (r : State) (ip : IpAddr) (now : Nat) : Option Nat :=
  ((r.conns.rows.filter fun row => ConnMeta.mayGo ip now row.2).argmin
    fun row => toLex (row.2.lastActiveMs, row.1)).map Prod.fst

/-- Reserves an IP slot at accept time. -/
def admitIp (r : State) (ip : IpAddr) (now : Nat) : IpAdmit × State :=
  if ip.isLoopback then (.admitted, r)
  else if r.slots ip < r.maxConnsPerIp then (.admitted, r.setSlots ip (some (r.slots ip + 1)))
  else
    match r.evictable ip now with
    | none => (.rejected, r.setSlots ip (some (r.slots ip)))
    | some victim => (.evicted victim, r.setSlots ip (some (r.slots ip + 1)))

/-- Records inbound activity. -/
def touch (r : State) (n now : Nat) : State :=
  match r.conns.get? n with
  | some c => { r with conns := r.conns.insert n { c with lastActiveMs := now } }
  | none => r

def releaseIp (r : State) (ip : IpAddr) : State :=
  if ip.isLoopback then r
  else
    match r.byIp ip with
    | some count => r.setSlots ip (if count - 1 = 0 then none else some (count - 1))
    | none => r

/-- The entry of a client, a new one if it has none. -/
def entry (r : State) (clientId : String) : ClientEntry := (r.byClient.get? clientId).getD {}

/-- Registers a handshaked connection; with the answer the main that it supersedes. -/
def register (r : State) (n : Nat) (ip : IpAddr) (clientId : Option String) (role : Role)
    (now : Nat) : Admit × State × Option Nat :=
  let recorded (r : State) : State :=
    { r with
      shutdown := insert n r.shutdown
      conns := r.conns.insert n { ip, role, lastActiveMs := now } }
  match clientId with
  | none => (.admitted, recorded r, none)
  | some clientId =>
    let old := r.entry clientId
    if !ip.isLoopback && r.maxConnsPerClient ≤ old.conns.card then
      (.rejectedCap, { r with byClient := r.byClient.insert clientId old }, none)
    else
      let subscribes := role = .subscriber
      let entry : ClientEntry :=
        { conns := insert n old.conns, main := if subscribes then some n else old.main }
      let r := recorded { r with byClient := r.byClient.insert clientId entry }
      let superseded := if subscribes then old.main else none
      (.admitted, r, superseded.filter fun old => old ≠ n && old ∈ r.shutdown)

/-- Removes a connection's bookkeeping on close. -/
def unregister (r : State) (n : Nat) (clientId : Option String) : State :=
  let r := { r with shutdown := r.shutdown.erase n, conns := r.conns.erase n }
  match clientId with
  | none => r
  | some clientId =>
    match r.byClient.get? clientId with
    | none => r
    | some old =>
      let entry : ClientEntry :=
        { conns := old.conns.erase n, main := if old.main = some n then none else old.main }
      if entry.conns = ∅ then { r with byClient := r.byClient.erase clientId }
      else { r with byClient := r.byClient.insert clientId entry }

/-! ## Facts -/

variable {r : State} {ip ip' : IpAddr} {now n : Nat}

@[simp] theorem setSlots_slots (count : Option Nat) :
    (r.setSlots ip count).slots ip' = if ip' = ip then count.getD 0 else r.slots ip' := by
  show (if ip' = ip then count else r.byIp ip').getD 0 = _
  split <;> rfl

/-- A connection that is evicted may go, and no other of the IP has been silent for longer. -/
theorem evictable_some {victim : Nat} (h : r.evictable ip now = some victim) :
    ∃ c, r.conns.get? victim = some c ∧ ConnMeta.mayGo ip now c = true ∧
      ∀ other c', r.conns.get? other = some c' → ConnMeta.mayGo ip now c' = true →
        toLex (c.lastActiveMs, victim) ≤ toLex (c'.lastActiveMs, other) := by
  unfold evictable at h
  obtain ⟨row, hrow, rfl⟩ := Option.map_eq_some_iff.mp h
  obtain ⟨hmem, hgo⟩ := List.mem_filter.mp (List.argmin_mem hrow)
  refine ⟨row.2, Table.mem_rows.mp hmem, hgo, fun other c' hc' hgo' => ?_⟩
  have hother : (other, c') ∈ r.conns.rows.filter fun row => ConnMeta.mayGo ip now row.2 :=
    List.mem_filter.mpr ⟨Table.mem_rows.mpr hc', hgo'⟩
  exact List.le_of_mem_argmin (f := fun row : Nat × ConnMeta => toLex (row.2.lastActiveMs, row.1))
    hother hrow

/-- What an admission leaves of the registry is all but the slots of the IP. -/
theorem admitIp_conns : (r.admitIp ip now).2.conns = r.conns := by
  unfold admitIp
  split
  · rfl
  · split
    · rfl
    · split <;> rfl

theorem touch_conns {m : Nat} : (r.touch n now).conns.get? m =
    (r.conns.get? m).map fun c => if m = n then { c with lastActiveMs := now } else c := by
  unfold touch
  split
  · rename_i c hc
    rw [Table.get?_insert]
    by_cases hm : n = m
    · subst hm
      rw [if_pos rfl, hc, Option.map_some, if_pos rfl]
    · rw [if_neg hm]
      cases hget : r.conns.get? m with
      | none => rfl
      | some c' => rw [Option.map_some, if_neg (Ne.symm hm)]
  · rename_i hnone
    cases hget : r.conns.get? m with
    | none => rfl
    | some c' =>
      rw [Option.map_some, if_neg]
      rintro rfl
      simp [hnone] at hget

/-- What an admission of a connection leaves. -/
theorem register_cases (r : State) (n : Nat) (ip : IpAddr) (clientId : Option String) (role : Role)
    (now : Nat) :
    (∃ id, clientId = some id ∧ ip.isLoopback = false ∧
      r.maxConnsPerClient ≤ (r.entry id).conns.card ∧
      r.register n ip clientId role now =
        (.rejectedCap, { r with byClient := r.byClient.insert id (r.entry id) }, none)) ∨
    (∃ byClient superseded,
      r.register n ip clientId role now =
        (.admitted, { r with
          byClient
          shutdown := insert n r.shutdown
          conns := r.conns.insert n { ip, role, lastActiveMs := now } }, superseded) ∧
      ((clientId = none ∧ byClient = r.byClient ∧ superseded = none) ∨
        ∃ id, clientId = some id ∧
          (ip.isLoopback = false → (r.entry id).conns.card < r.maxConnsPerClient) ∧
          byClient = r.byClient.insert id {
            conns := insert n (r.entry id).conns
            main := if role = .subscriber then some n else (r.entry id).main } ∧
          superseded = (if role = .subscriber then (r.entry id).main else none).filter
            fun old => old ≠ n && old ∈ insert n r.shutdown)) := by
  unfold register
  cases clientId with
  | none => exact Or.inr ⟨_, _, rfl, Or.inl ⟨rfl, rfl, rfl⟩⟩
  | some id =>
    by_cases hcap :
        (!ip.isLoopback && decide (r.maxConnsPerClient ≤ (r.entry id).conns.card)) = true
    · rw [Bool.and_eq_true, Bool.not_eq_true', decide_eq_true_eq] at hcap
      refine Or.inl ⟨id, rfl, hcap.1, hcap.2, ?_⟩
      simp [hcap]
    · refine Or.inr ⟨_, _, by simp only [if_neg hcap], Or.inr ⟨id, rfl, ?_, rfl, rfl⟩⟩
      intro hloop
      simp only [hloop, Bool.not_false, Bool.true_and, decide_eq_true_eq] at hcap
      omega

/-- What is left of the registry when a connection is taken out. -/
theorem unregister_cases (r : State) (n : Nat) (clientId : Option String) :
    ∃ byClient, r.unregister n clientId = { r with
        byClient, shutdown := r.shutdown.erase n, conns := r.conns.erase n } ∧
      ((byClient = r.byClient ∧ ∀ id, clientId = some id → r.byClient.get? id = none) ∨
        ∃ id old, clientId = some id ∧ r.byClient.get? id = some old ∧
          byClient = if old.conns.erase n = ∅ then r.byClient.erase id
            else r.byClient.insert id {
              conns := old.conns.erase n
              main := if old.main = some n then none else old.main }) := by
  unfold unregister
  cases clientId with
  | none => exact ⟨_, rfl, Or.inl ⟨rfl, fun id hid => by simp at hid⟩⟩
  | some id =>
    cases hget : r.byClient.get? id with
    | none =>
      refine ⟨_, by simp only [hget], Or.inl ⟨rfl, ?_⟩⟩
      rintro id' hid
      rwa [← Option.some.inj hid]
    | some old =>
      by_cases hempty : old.conns.erase n = ∅
      · refine ⟨_, by simp only [hget, if_pos hempty]; rfl, Or.inr ⟨id, old, rfl, hget, ?_⟩⟩
        rw [if_pos hempty]
      · refine ⟨_, by simp only [hget, if_neg hempty]; rfl, Or.inr ⟨id, old, rfl, hget, ?_⟩⟩
        rw [if_neg hempty]

end State

end Mbrc.Registry
