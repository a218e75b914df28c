import MbrcPlugin.Permissions.Gate
import Mathlib.Data.List.Sort

/-!
# Client identities

The first handshake for a `client_id` is issued a token, whose hash the store keeps; whoever returns
with the token is the installation that was issued it.  Rows age out, and no more than a number of
them are kept, but for the apps that hold a role.  Clock values are `i64` milliseconds.
-/

namespace Mbrc.Clients

open Permissions

def identityTtlMs : Int := 30 * 24 * 60 * 60 * 1000

def maxIdentities : Nat := 200

def maxClientIdLen : Nat := 128

def maxNameLen : Nat := 64

/-- What a handshake's identity check decided. -/
inductive Identity where
  | known
  /-- First contact: the client must keep this token. -/
  | issued (token : String)
  /-- The id is spoken for. -/
  | refused
  deriving DecidableEq

/-- A record of one installation. -/
structure Record where
  tokenHash : String
  firstSeenMs : Int
  lastSeenMs : Int
  name : String
  clientType : String
  address : String
  deriving DecidableEq

/-- What a handshake says about the app, beyond its id and token. -/
structure Introduction where
  name : Option String
  clientType : String
  address : Option String
  deriving DecidableEq

/-- The rows of the store; `none` is one this build cannot read. -/
abbrev Identities : Type := Table String (Option Record)

/-- A device name as it is kept. -/
def clampName (name : String) : String := String.ofList (Text.clamp maxNameLen name)

/-! ## Handshakes -/

section

variable (hash : String → String)

/-- The decision on a row that was read, and the row to store; `fresh` is a new token. -/
def identify (existing : Option Record) (token : Option String) (about : Introduction) (now : Int)
    (fresh : String) : Identity × Option Record :=
  match existing with
  | some record =>
    if token.any fun token => hash token = record.tokenHash then
      (.known, some { record with
        name := (about.name.map clampName).getD record.name
        clientType := about.clientType
        address := about.address.getD record.address
        lastSeenMs := now })
    else (.refused, none)
  | none =>
    (.issued fresh, some
      { tokenHash := hash fresh, firstSeenMs := now, lastSeenMs := now
        name := (about.name.map clampName).getD ""
        clientType := about.clientType
        address := about.address.getD "" })

end

/-! ## The store -/

/-- `i64::saturating_sub`. -/
def saturatingSub (a b : Int) : Int := max (-2 ^ 63) (min (a - b) (2 ^ 63 - 1))

/-- A row that is young enough, with its age. -/
def live (now : Int) : String × Option Record → Option (String × Int)
  | (id, some record) =>
    if saturatingSub now record.lastSeenMs < identityTtlMs then some (id, record.lastSeenMs)
    else none
  | (_, none) => none

/-- Drops what has aged out, then what does not fit. -/
def prune (roles : Table String String) (t : Identities) (now : Int) : Identities :=
  let pinned := Roles.pinnedApps roles
  let unpinned := t.rows.filter fun row => row.1 ∉ pinned
  let kept := unpinned.filterMap (live now)
  let expired := unpinned.filter fun row => (live now row).isNone
  let oldest := (kept.insertionSort fun a b => a.2 ≤ b.2).take (kept.length - maxIdentities)
  (t.eraseAll (expired.map Prod.fst)).eraseAll (oldest.map Prod.fst)

/-- The write that adds a row. -/
def store (roles : Table String String) (t : Identities) (id : String) (record : Record)
    (now : Int) : Identities :=
  prune roles (t.insert id (some record)) now

/-! ## Facts -/

variable {roles : Table String String} {t : Identities} {now : Int} {id : String}

theorem prune_le {row : Option Record} (h : (prune roles t now).get? id = some row) :
    t.get? id = some row := by
  rw [prune, Table.get?_eraseAll, Table.get?_eraseAll] at h
  split at h
  · simp at h
  · split at h
    · simp at h
    · exact h

/-- A write leaves of the other rows what it does not drop. -/
theorem store_le {record : Record} {id' : String} {row : Option Record}
    (h : (store roles t id record now).get? id' = some row) :
    (id' = id ∧ row = some record) ∨ (id' ≠ id ∧ t.get? id' = some row) := by
  have hrow := prune_le h
  rw [Table.get?_insert] at hrow
  split at hrow
  · rename_i heq
    exact Or.inl ⟨heq.symm, (Option.some.inj hrow).symm⟩
  · rename_i hne
    exact Or.inr ⟨Ne.symm hne, hrow⟩

/-- An app that holds a role is never pruned. -/
theorem prune_pinned (h : id ∈ Roles.pinnedApps roles) :
    (prune roles t now).get? id = t.get? id := by
  rw [prune, Table.get?_eraseAll, Table.get?_eraseAll, if_neg, if_neg]
  · rw [List.mem_map]
    rintro ⟨row, hrow, rfl⟩
    have hunpinned := (List.mem_filter.mp (List.mem_filter.mp hrow).1).2
    exact of_decide_eq_true hunpinned h
  · rw [List.mem_map]
    rintro ⟨⟨a, lastSeen⟩, hrow, rfl⟩
    have hkept := (List.perm_insertionSort _ _).mem_iff.mp (List.mem_of_mem_take hrow)
    obtain ⟨row, hrow, hlive⟩ := List.mem_filterMap.mp hkept
    have hunpinned := (List.mem_filter.mp hrow).2
    obtain ⟨a', record⟩ := row
    cases record with
    | none => simp [live] at hlive
    | some record =>
      rw [live] at hlive
      split at hlive
      · obtain ⟨rfl, -⟩ := Prod.mk.inj (Option.some.inj hlive)
        exact of_decide_eq_true hunpinned h
      · simp at hlive

attribute [irreducible] prune

end Mbrc.Clients
