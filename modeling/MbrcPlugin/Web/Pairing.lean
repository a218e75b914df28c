import MbrcPlugin.Lib.OrderedTable
import MbrcPlugin.Lib.Text
import MbrcPlugin.Permissions.Gate

/-!
# Paired browsers

The pairing state as it is between two takings of its lock: at most one live code, the wrong codes
of each address, and the browsers that have redeemed a code.  A browser is filed under a hash of its
token, `clientId`, in memory as in the store.  Instants and durations are in nanoseconds, and an
address is its text.
-/

namespace Mbrc.Pairing

open Permissions

def seconds (n : Nat) : Nat := n * 10 ^ 9

def codeTtl : Nat := seconds 120

def freeWrongCodes : Nat := 3

def firstBackoff : Nat := seconds 5

def maxBackoff : Nat := seconds (5 * 60)

def maxWrongPerCode : Nat := 10

def maxTrackedAddresses : Nat := 1024

def maxLabel : Nat := 64

/-! ## State -/

/-- A paired browser; `token` is empty for one that was read back from the store. -/
structure PairedClient where
  id : String
  token : String
  label : String
  pairedAt : Int
  lastSeen : Int
  address : String
  deriving DecidableEq

/-- What is written down about a paired browser. -/
structure Record where
  id : String
  label : String
  pairedAt : Int
  lastSeen : Int
  address : String
  deriving DecidableEq

def PairedClient.record (c : PairedClient) : Record :=
  { id := c.id, label := c.label, pairedAt := c.pairedAt, lastSeen := c.lastSeen
    address := c.address }

def Record.client (r : Record) : PairedClient :=
  { id := r.id, token := "", label := r.label, pairedAt := r.pairedAt, lastSeen := r.lastSeen
    address := r.address }

inductive PairingRefused where
  /-- No code is live, or it lapsed. -/
  | noCode
  | wrongCode
  /-- This address must wait this long. -/
  | backoff (wait : Nat)
  deriving DecidableEq

def PairingRefused.message : PairingRefused → String
  | .noCode | .wrongCode => "pairing code is wrong or expired"
  | .backoff wait =>
    "too many wrong pairing codes from this address; try again in " ++
      toString (max ((wait / 10 ^ 6 + 999) / 1000) 1) ++ " s"

/-- Wrong codes one address has sent. -/
structure Strikes where
  wrong : Nat
  blockedUntil : Option Nat
  deriving DecidableEq

structure LiveCode where
  code : String
  issued : Nat
  role : Role
  wrong : Nat
  deriving DecidableEq

structure State where
  code : Option LiveCode := none
  /-- The last code was voided by too many wrong attempts. -/
  voided : Bool := false
  strikes : Table String Strikes := Table.empty
  tokens : Table String PairedClient := Table.empty

/-! ## Codes -/

/-- The wait after a wrong code, by how many past the free ones it is. -/
def backoffAfter (past : Nat) : Nat := min (firstBackoff * min (2 ^ past) (2 ^ 32 - 1)) maxBackoff

/-- Compares every byte, so the time it takes says nothing. -/
def constantTimeEq (a b : String) : Bool :=
  let a := a.toUTF8.data.toList
  let b := b.toUTF8.data.toList
  if a.length ≠ b.length then false
  else (a.zip b).foldl (fun acc p => acc ||| (p.1 ^^^ p.2)) 0 == 0

/-- A label as it is kept: trimmed, bounded, and never empty. -/
def clampLabel (label : String) : String :=
  let trimmed := Text.clamp maxLabel label
  if trimmed = [] then "browser" else String.ofList trimmed

namespace State

/-- Records a wrong code, and starts or doubles the wait of its address. -/
def strike (s : State) (address : String) (now : Nat) : State :=
  let full (t : Table String Strikes) : Bool := maxTrackedAddresses ≤ t.rows.length
  let strikes :=
    if full s.strikes && (s.strikes.get? address).isNone then
      let lapsed := s.strikes.rows.filter fun row => !row.2.blockedUntil.any (now < ·)
      let kept := s.strikes.eraseAll (lapsed.map Prod.fst)
      if full kept then Table.empty else kept
    else s.strikes
  let entry := (strikes.get? address).getD { wrong := 0, blockedUntil := none }
  let wrong := entry.wrong + 1
  let blockedUntil :=
    if freeWrongCodes ≤ wrong then some (now + backoffAfter (wrong - freeWrongCodes))
    else entry.blockedUntil
  { s with strikes := strikes.insert address { wrong, blockedUntil } }

def newCodeFor (s : State) (code : String) (role : Role) (now : Nat) : State :=
  { s with code := some { code, issued := now, role, wrong := 0 }, voided := false }

/-- What stands of the code that is out. -/
def liveCode (s : State) (now : Nat) : Option LiveCode :=
  s.code.filter fun live => now - live.issued < codeTtl

def takeCodeAt (s : State) (offered address : String) (now : Nat) :
    State × Except PairingRefused Role :=
  match (s.strikes.get? address).bind (·.blockedUntil) |>.filter (now < ·) with
  | some blocked => (s, .error (.backoff (blocked - now)))
  | none =>
    match s.liveCode now with
    | none => (s, .error .noCode)
    | some live =>
      if constantTimeEq live.code offered then
        ({ s with code := none, strikes := s.strikes.erase address }, .ok live.role)
      else
        let s :=
          if maxWrongPerCode ≤ live.wrong + 1 then { s with code := none, voided := true }
          else { s with code := some { live with wrong := live.wrong + 1 } }
        (s.strike address now, .error .wrongCode)

/-! ## Tokens -/

section

variable (clientId : String → String)

/-- `redeem`, when the code is taken. -/
def redeemed (s : State) (token label address : String) (now : Int) : State × PairedClient :=
  let client : PairedClient :=
    { id := clientId token, token, label := clampLabel label, pairedAt := now, lastSeen := now
      address }
  ({ s with tokens := s.tokens.insert client.id client }, client)

def pairedId (s : State) (token : String) (address : Option String) (now : Int) :
    State × Option PairedClient :=
  match s.tokens.get? (clientId token) with
  | some client =>
    let client := { client with lastSeen := now, address := address.getD client.address }
    ({ s with tokens := s.tokens.insert (clientId token) client }, some client)
  | none => (s, none)

def isPaired (s : State) (token : String) (now : Int) : State × Bool :=
  let (s, client) := s.pairedId clientId token none now
  (s, client.isSome)

end

def rename (s : State) (id label : String) : State × Option PairedClient :=
  match s.tokens.get? id with
  | some client =>
    let client := { client with label := clampLabel label }
    ({ s with tokens := s.tokens.insert id client }, some client)
  | none => (s, none)

def revoke (s : State) (id : String) : State × Bool :=
  ({ s with tokens := s.tokens.erase id }, (s.tokens.get? id).isSome)

def revokeAll (s : State) : State × List String :=
  ({ s with tokens := Table.empty, code := none, voided := false }, s.tokens.rows.map Prod.fst)

end State

/-! ## The store -/

abbrev Stored : Type := Table String Record

/-- The store, with what was paired before. -/
def State.«open» (s : State) (stored : Stored) : State :=
  { s with tokens := stored.rows.foldl (fun t row => t.insert row.2.id row.2.client) s.tokens }

def write (t : Stored) (client : PairedClient) : Stored := t.insert client.id client.record

def forget (t : Stored) (id : String) : Stored := t.erase id

/-! ## Facts -/

theorem foldl_or_eq_zero {l : List (UInt8 × UInt8)} {acc : UInt8} :
    l.foldl (fun acc p => acc ||| (p.1 ^^^ p.2)) acc = 0 ↔ acc = 0 ∧ ∀ p ∈ l, p.1 = p.2 := by
  induction l generalizing acc with
  | nil => simp
  | cons p l ih =>
    rw [List.foldl_cons, ih, UInt8.or_eq_zero_iff, UInt8.xor_eq_zero_iff]
    simp only [List.mem_cons, forall_eq_or_imp]
    exact and_assoc

theorem eq_of_zip {l l' : List UInt8} (hlen : l.length = l'.length)
    (h : ∀ p ∈ l.zip l', p.1 = p.2) : l = l' := by
  apply List.ext_getElem hlen
  intro i hi hi'
  have hz : i < (l.zip l').length := by
    rw [List.length_zip]
    omega
  have hp := h _ (List.getElem_mem hz)
  rwa [List.getElem_zip] at hp

/-- The comparison is equality. -/
theorem constantTimeEq_iff {a b : String} : constantTimeEq a b = true ↔ a = b := by
  have htext : a.toUTF8.data.toList = b.toUTF8.data.toList ↔ a = b := by
    rw [Array.toList_inj, ← ByteArray.ext_iff, String.toUTF8_eq_toByteArray,
      String.toUTF8_eq_toByteArray, String.toByteArray_inj]
  rw [← htext]
  unfold constantTimeEq
  constructor
  · intro h
    dsimp only at h
    split at h
    · simp at h
    · rename_i hlen
      rw [ne_eq, not_not] at hlen
      rw [beq_iff_eq, foldl_or_eq_zero] at h
      exact eq_of_zip hlen h.2
  · intro h
    rw [h, if_neg (by simp), beq_iff_eq, foldl_or_eq_zero]
    refine ⟨rfl, fun p hp => ?_⟩
    obtain ⟨i, hi, rfl⟩ := List.mem_iff_getElem.mp hp
    rw [List.getElem_zip]

@[simp] theorem client_record (r : Record) : r.client.record = r := rfl

namespace State

variable {s : State} {id : String}

@[simp] theorem strike_tokens (address : String) (now : Nat) :
    (s.strike address now).tokens = s.tokens := rfl

@[simp] theorem newCodeFor_tokens (code : String) (role : Role) (now : Nat) :
    (s.newCodeFor code role now).tokens = s.tokens := rfl

@[simp] theorem takeCodeAt_tokens (offered address : String) (now : Nat) :
    (s.takeCodeAt offered address now).1.tokens = s.tokens := by
  unfold takeCodeAt
  split
  · rfl
  · split
    · rfl
    · split
      · rfl
      · dsimp only
        split <;> rfl

@[simp] theorem revoke_tokens : (s.revoke id).1.tokens = s.tokens.erase id := rfl

@[simp] theorem revokeAll_tokens : s.revokeAll.1.tokens = Table.empty := rfl

end State

end Mbrc.Pairing
