import MbrcPlugin.Lib.Transition
import MbrcPlugin.Lib.FileWrites
import MbrcPlugin.Web.Pairing

/-!
# Revocation

A call changes the pairing state under its lock and writes the store when it has let go of it, and
`redeem` takes its code under one lock and files the token under the next.  A revocation is `Final`
when, once it has returned, neither this process nor the next admits what it covered.  The code
sees to none of the three conditions of `Orderly`: a record that is written is memory's by then, no
`revoke_all` comes between the two locks of a `redeem`, and a token is new.

`next` and the fields below it are there for the statements: no step of the code reads them.
-/

namespace Mbrc.Pairing

open Permissions WriteBehind

/-! ## Calls under way -/

/-- A call that has let go of the lock and has not returned. -/
inductive Call where
  /-- A `redeem` that has taken the code of this number. -/
  | redeem (label address : String) (role : Role) (code : Nat)
  /-- A `redeem`, a `paired_id` or a `rename` that is to write its client. -/
  | write (client : PairedClient)
  | revoke (id : String)
  /-- What is left to forget, what was dropped, and the codes there had been. -/
  | revokeAll (todo dropped : List String) (code : Nat)
  deriving DecidableEq

structure World where
  memory : State
  stored : Stored
  calls : List Call
  /-- The number of the next code. -/
  next : Nat
  /-- The ids that were ever filed. -/
  used : List String
  /-- The number of the code an id was minted from. -/
  minted : String → Nat
  /-- The codes there had been when `revoke_all` last dropped the tokens. -/
  cleared : Nat
  /-- What the revocations that have returned had dropped. -/
  gone : List String
  /-- The codes there had been at a `revoke_all` that has returned. -/
  spent : Nat

namespace World

def opened (stored : Stored) : World :=
  { memory := State.«open» {} stored, stored, calls := [], next := 1
    used := stored.rows.map Prod.fst, minted := fun _ => 0, cleared := 0, gone := [], spent := 0 }

/-- A locked step that leaves a client to write, if it found one. -/
def touched (w : World) : State × Option PairedClient → World
  | (memory, some client) => { w with memory, calls := w.calls ++ [.write client] }
  | (memory, none) => { w with memory }

end World

/-! ## Steps -/

inductive Event where
  | newCode (code : String) (role : Role) (now : Nat)
  /-- `redeem` begins. -/
  | takeCode (offered label address : String) (now : Nat)
  | mint (n : Nat) (token : String) (now : Int)
  /-- `paired_id`, or `is_paired` without an address. -/
  | pairedId (token : String) (address : Option String) (now : Int)
  | rename (id label : String)
  | revoke (id : String)
  | revokeAll
  /-- A write of the store, which lands or fails. -/
  | write (n : Nat) (lands : Bool)
  | forget (n : Nat) (id : String) (lands : Bool)
  /-- `revoke_all` returns. -/
  | done (n : Nat)
  | restart
  deriving DecidableEq

section

variable (clientId : String → String)

def step (w : World) : Event → Option World
  | .newCode code role now =>
    some { w with memory := w.memory.newCodeFor code role now, next := w.next + 1 }
  | .takeCode offered label address now =>
    match w.memory.takeCodeAt offered address now with
    | (memory, .ok role) =>
      -- the code that is out is the last one made
      some { w with memory, calls := w.calls ++ [.redeem label address role (w.next - 1)] }
    | (memory, .error _) => some { w with memory }
  | .mint n token now =>
    match w.calls[n]? with
    | some (.redeem label address _ code) =>
      let (memory, client) := w.memory.redeemed clientId token label address now
      some { w with
        memory, calls := w.calls.set n (.write client), used := client.id :: w.used
        minted := fun id => if id = client.id then code else w.minted id }
    | _ => none
  | .pairedId token address now => some (w.touched (w.memory.pairedId clientId token address now))
  | .rename id label => some (w.touched (w.memory.rename id label))
  | .revoke id =>
    match w.memory.revoke id with
    | (memory, true) => some { w with memory, calls := w.calls ++ [.revoke id] }
    | (memory, false) => some { w with memory }
  | .revokeAll =>
    let (memory, ids) := w.memory.revokeAll
    some { w with memory, calls := w.calls ++ [.revokeAll ids ids w.next], cleared := w.next }
  | .write n lands =>
    match w.calls[n]? with
    | some (.write client) =>
      some { w with
        stored := if lands then write w.stored client else w.stored
        calls := w.calls.eraseIdx n }
    | _ => none
  | .forget n id lands =>
    let stored := if lands then forget w.stored id else w.stored
    match w.calls[n]? with
    | some (.revoke id') =>
      if id = id' then
        some { w with stored, calls := w.calls.eraseIdx n, gone := id :: w.gone }
      else none
    | some (.revokeAll todo dropped code) =>
      if id ∈ todo then
        some { w with stored, calls := w.calls.set n (.revokeAll (todo.erase id) dropped code) }
      else none
    | _ => none
  | .done n =>
    match w.calls[n]? with
    | some (.revokeAll [] dropped code) =>
      some { w with
        calls := w.calls.eraseIdx n, gone := dropped ++ w.gone, spent := max w.spent code }
    | _ => none
  | .restart => if w.calls = [] then some { w with memory := State.«open» {} w.stored } else none

/-- Every record of the store is filed under its own id, as `write` does. -/
def Filed (stored : Stored) : Prop := ∀ id r, stored.get? id = some r → r.id = id

def system : Transition.System World Event where
  start w := ∃ stored, Filed stored ∧ w = World.opened stored
  next := step clientId

/-! ## What is promised -/

/-- What memory has for the store. -/
def State.record (s : State) (id : String) : Option Record :=
  (s.tokens.get? id).map PairedClient.record

/-- A state admits nothing that a revocation covered. -/
def Refuses (w : World) (s : State) : Prop :=
  ∀ token now, (s.isPaired clientId token now).2 = true →
    clientId token ∉ w.gone ∧ w.spent ≤ w.minted (clientId token)

structure Final (w : World) : Prop where
  refuses : Refuses clientId w w.memory
  restarted : w.calls = [] → Refuses clientId w (State.«open» {} w.stored)
  stored : w.calls = [] → ∀ id, w.stored.get? id = w.memory.record id

/-! ## When it holds -/

/-- What a call is still to file under an id. -/
def Call.Pending : Call → String → Option Record → Prop
  | .redeem .., _, _ => False
  | .write client, id, r => id = client.id ∧ r = some client.record
  | .revoke id', id, r => id = id' ∧ r = none
  | .revokeAll todo _ _, id, r => id ∈ todo ∧ r = none

/-- What a write leaves under an id is what memory has, or another call is to bring that. -/
def Brings (w : World) (n : Nat) (id : String) (left : Option Record) : Prop :=
  left = w.memory.record id ∨
    ∃ m call, m ≠ n ∧ w.calls[m]? = some call ∧ call.Pending id (w.memory.record id)

def Orderly (w : World) : Event → Prop
  | .mint n token _ => ∀ label address role code,
      w.calls[n]? = some (.redeem label address role code) →
        w.cleared ≤ code ∧ clientId token ∉ w.used
  | .write n lands => ∀ client, w.calls[n]? = some (.write client) →
      Brings w n client.id (if lands then some client.record else w.stored.get? client.id)
  | .forget n id lands => Brings w n id (if lands then none else w.stored.get? id)
  | _ => True

end

/-! ## The invariant -/

def World.Pending (w : World) (id : String) (r : Option Record) : Prop :=
  ∃ call ∈ w.calls, call.Pending id r

/-- A revocation has its tokens out of memory. -/
def Call.Sound (w : World) : Call → Prop
  | .redeem .. | .write _ => True
  | .revoke id => id ∈ w.used ∧ w.memory.record id = none
  | .revokeAll _ dropped code =>
    code ≤ w.cleared ∧ ∀ id ∈ dropped, id ∈ w.used ∧ w.memory.record id = none

structure Inv (w : World) : Prop where
  behind : Behind w.memory.record w.stored.get? w.Pending
  filed : ∀ id c, w.memory.tokens.get? id = some c →
    c.id = id ∧ id ∈ w.used ∧ w.cleared ≤ w.minted id
  calls : ∀ call ∈ w.calls, call.Sound w
  gone : ∀ id ∈ w.gone, id ∈ w.used ∧ w.memory.record id = none
  spent : w.spent ≤ w.cleared
  next : w.cleared ≤ w.next

/-- A step of the memory: no id comes back. -/
structure Moves (w w' : World) : Prop where
  used : ∀ id ∈ w.used, id ∈ w'.used
  cleared : w.cleared ≤ w'.cleared
  away : ∀ id ∈ w.used, w.memory.record id = none → w'.memory.record id = none

section

variable {w w' : World} {n : Nat}

theorem Call.Sound.moves {call : Call} (h : call.Sound w) (hm : Moves w w') : call.Sound w' := by
  cases call with
  | redeem label address role code => trivial
  | write client => trivial
  | revoke id => exact ⟨hm.used id h.1, hm.away id h.1 h.2⟩
  | revokeAll todo dropped code =>
    refine ⟨le_trans h.1 hm.cleared, fun id hid => ?_⟩
    obtain ⟨hused, haway⟩ := h.2 id hid
    exact ⟨hm.used id hused, hm.away id hused haway⟩

/-- What a step has to show, when the calls under way and the ids that are gone are old or sound. -/
theorem Inv.moves (h : Inv w) (hm : Moves w w')
    (hbehind : Behind w'.memory.record w'.stored.get? w'.Pending)
    (hfiled : ∀ id c, w'.memory.tokens.get? id = some c →
      c.id = id ∧ id ∈ w'.used ∧ w'.cleared ≤ w'.minted id)
    (hcalls : ∀ call ∈ w'.calls, call ∈ w.calls ∨ call.Sound w')
    (hgone : ∀ id ∈ w'.gone, id ∈ w.gone ∨ (id ∈ w'.used ∧ w'.memory.record id = none))
    (hspent : w'.spent ≤ w'.cleared) (hnext : w'.cleared ≤ w'.next) : Inv w' where
  behind := hbehind
  filed := hfiled
  calls call hcall := by
    rcases hcalls call hcall with hold | hsound
    · exact (h.calls call hold).moves hm
    · exact hsound
  gone id hid := by
    rcases hgone id hid with hold | haway
    · obtain ⟨hused, haway⟩ := h.gone id hold
      exact ⟨hm.used id hused, hm.away id hused haway⟩
    · exact haway
  spent := hspent
  next := hnext

theorem sound_append {calls : List Call} {call : Call} (h : call.Sound w') :
    ∀ c ∈ calls ++ [call], c ∈ calls ∨ c.Sound w' := by
  intro c hc
  rcases List.mem_append.mp hc with hold | hnew
  · exact Or.inl hold
  · rw [List.mem_singleton.mp hnew]
    exact Or.inr h

theorem pending_append {call : Call} {id : String} {r : Option Record} (h : w.Pending id r)
    (hcalls : w'.calls = w.calls ++ [call]) : w'.Pending id r := by
  obtain ⟨c, hc, hp⟩ := h
  exact ⟨c, by rw [hcalls]; exact List.mem_append_left _ hc, hp⟩

theorem pending_last (call : Call) {id : String} {r : Option Record} (h : call.Pending id r)
    (hcalls : w'.calls = w.calls ++ [call]) : w'.Pending id r :=
  ⟨call, by rw [hcalls]; exact List.mem_append_right _ (List.mem_singleton.mpr rfl), h⟩

/-! ## The locked steps -/

theorem Moves.of_record (hused : w'.used = w.used) (hcleared : w'.cleared = w.cleared)
    (hrecord : w'.memory.record = w.memory.record) : Moves w w' := by
  refine ⟨fun id hid => ?_, hcleared.ge, fun id _ haway => ?_⟩
  · rw [hused]
    exact hid
  · rw [hrecord]
    exact haway

theorem record_eq_of_tokens {s s' : State} (h : s'.tokens = s.tokens) : s'.record = s.record := by
  funext id
  rw [State.record, State.record, h]

/-- Only the codes change. -/
theorem Inv.codes {memory : State} {next : Nat} (h : Inv w) (ht : memory.tokens = w.memory.tokens)
    (hnext : w.next ≤ next) : Inv { w with memory, next } := by
  have hrecord : memory.record = w.memory.record := record_eq_of_tokens ht
  refine h.moves (.of_record rfl rfl hrecord) ?_ (fun id c hc => ?_) (fun call hcall => .inl hcall)
    (fun id hid => .inl hid) h.spent (le_trans h.next hnext)
  · show Behind memory.record w.stored.get? w.Pending
    rw [hrecord]
    exact h.behind
  · rw [show memory.tokens = w.memory.tokens from ht] at hc
    exact h.filed id c hc

theorem Inv.take {label address : String} {role : Role} {code : Nat} (h : Inv w) :
    Inv { w with calls := w.calls ++ [.redeem label address role code] } := by
  exact h.moves (.of_record rfl rfl rfl) (h.behind.mono fun id r hp => pending_append hp rfl)
    h.filed (sound_append trivial) (fun id hid => .inl hid) h.spent h.next

theorem record_insert {s : State} {id k : String} {client : PairedClient} :
    State.record { s with tokens := s.tokens.insert id client } k =
      if id = k then some client.record else s.record k := by
  rw [State.record, Table.get?_insert]
  split <;> rfl

/-- A client that is there is filed again and is to be written. -/
theorem Inv.touch {id : String} {old client : PairedClient} (h : Inv w)
    (hold : w.memory.tokens.get? id = some old) (hid : client.id = old.id) :
    Inv { w with
      memory := { w.memory with tokens := w.memory.tokens.insert id client }
      calls := w.calls ++ [.write client] } := by
  obtain ⟨hkey, hused, hminted⟩ := h.filed id old hold
  have hsome : w.memory.record id ≠ none := by simp [State.record, hold]
  refine h.moves ⟨fun k hk => hk, le_rfl, fun k _ haway => ?_⟩
    (h.behind.change (fun k _ hp => pending_append hp rfl) fun k hk => ?_) (fun k c hc => ?_)
    (sound_append trivial) (fun k hk => .inl hk) h.spent h.next
  · rw [record_insert, if_neg]
    · exact haway
    · rintro rfl
      exact hsome haway
  · refine pending_last (w := w) (.write client) ?_ rfl
    rw [record_insert] at hk ⊢
    split
    · rename_i heq
      exact ⟨by rw [hid, hkey, heq], rfl⟩
    · rename_i hne
      rw [if_neg hne] at hk
      exact absurd rfl hk
  · rw [Table.get?_insert] at hc
    split at hc
    · rename_i heq
      obtain rfl := Option.some.inj hc
      rw [← heq]
      exact ⟨hid.trans hkey, hused, hminted⟩
    · exact h.filed k c hc

/-- A token is filed that is new, from a code that is younger than the last `revoke_all`. -/
theorem Inv.mint {label address : String} {role : Role} {code : Nat} {client : PairedClient}
    (h : Inv w) (hn : w.calls[n]? = some (.redeem label address role code))
    (hcode : w.cleared ≤ code) (hnew : client.id ∉ w.used) :
    Inv { w with
      memory := { w.memory with tokens := w.memory.tokens.insert client.id client }
      calls := w.calls.set n (.write client), used := client.id :: w.used
      minted := fun id => if id = client.id then code else w.minted id } := by
  have hlt : n < w.calls.length := (List.getElem?_eq_some_iff.mp hn).1
  refine h.moves ⟨fun k hk => List.mem_cons_of_mem _ hk, le_rfl, fun k hk haway => ?_⟩
    (h.behind.change ?_ fun k hk => ?_) (fun k c hc => ?_) (fun call hcall => ?_)
    (fun k hk => .inl hk) h.spent h.next
  · rw [record_insert, if_neg]
    · exact haway
    · rintro rfl
      exact hnew hk
  · rintro k - ⟨call, hcall, hp⟩
    obtain ⟨m, hm⟩ := List.mem_iff_getElem?.mp hcall
    have hne : n ≠ m := by
      rintro rfl
      rw [hn] at hm
      obtain rfl := Option.some.inj hm
      exact hp
    refine ⟨call, List.mem_iff_getElem?.mpr ⟨m, ?_⟩, hp⟩
    rw [List.getElem?_set_ne hne]
    exact hm
  · refine ⟨.write client, List.mem_set hlt _, ?_⟩
    rw [record_insert] at hk ⊢
    split
    · rename_i heq
      exact ⟨heq.symm, rfl⟩
    · rename_i hne
      rw [if_neg hne] at hk
      exact absurd rfl hk
  · rw [Table.get?_insert] at hc
    split at hc
    · rename_i heq
      obtain rfl := Option.some.inj hc
      refine ⟨heq, by rw [← heq]; exact List.mem_cons_self, ?_⟩
      show w.cleared ≤ if k = client.id then code else w.minted k
      rw [if_pos heq.symm]
      exact hcode
    · rename_i hne
      obtain ⟨hkey, hused, hminted⟩ := h.filed k c hc
      refine ⟨hkey, List.mem_cons_of_mem _ hused, ?_⟩
      show w.cleared ≤ if k = client.id then code else w.minted k
      rw [if_neg (Ne.symm hne)]
      exact hminted
  · rcases List.mem_or_eq_of_mem_set hcall with hold | rfl
    · exact Or.inl hold
    · exact Or.inr trivial

theorem record_erase {s : State} {id k : String} :
    State.record { s with tokens := s.tokens.erase id } k =
      if id = k then none else s.record k := by
  rw [State.record, Table.get?_erase]
  split <;> rfl

theorem Inv.revoke {id : String} {old : PairedClient} (h : Inv w)
    (hold : w.memory.tokens.get? id = some old) :
    Inv { w with
      memory := { w.memory with tokens := w.memory.tokens.erase id }
      calls := w.calls ++ [.revoke id] } := by
  obtain ⟨-, hused, -⟩ := h.filed id old hold
  refine h.moves ⟨fun k hk => hk, le_rfl, fun k _ haway => ?_⟩
    (h.behind.change (fun k _ hp => pending_append hp rfl) fun k hk => ?_) (fun k c hc => ?_)
    (sound_append ⟨hused, by rw [record_erase, if_pos rfl]⟩) (fun k hk => .inl hk) h.spent h.next
  · rw [record_erase]
    split
    · rfl
    · exact haway
  · refine pending_last (w := w) (.revoke id) ?_ rfl
    rw [record_erase] at hk ⊢
    split
    · rename_i heq
      exact ⟨heq.symm, rfl⟩
    · rename_i hne
      rw [if_neg hne] at hk
      exact absurd rfl hk
  · rw [Table.get?_erase] at hc
    split at hc
    · simp at hc
    · exact h.filed k c hc

theorem Inv.revokeAll (h : Inv w) :
    Inv { w with
      memory := w.memory.revokeAll.1
      calls := w.calls ++ [.revokeAll w.memory.revokeAll.2 w.memory.revokeAll.2 w.next]
      cleared := w.next } := by
  have haway : ∀ id, w.memory.revokeAll.1.record id = none := by
    intro id
    rw [State.record, State.revokeAll_tokens, Table.get?_empty]
    rfl
  have hmem : ∀ id, id ∈ w.memory.revokeAll.2 ↔ ∃ c, w.memory.tokens.get? id = some c := by
    intro id
    rw [State.revokeAll, List.mem_map]
    constructor
    · rintro ⟨⟨k, c⟩, hrow, rfl⟩
      exact ⟨c, Table.mem_rows.mp hrow⟩
    · rintro ⟨c, hc⟩
      exact ⟨(id, c), Table.mem_rows.mpr hc, rfl⟩
  refine h.moves ⟨fun k hk => hk, h.next, fun k _ _ => haway k⟩
    (h.behind.change (fun k _ hp => pending_append hp rfl) fun k hk => ?_) (fun k c hc => ?_)
    (sound_append ⟨le_rfl, fun id hid => ⟨?_, haway id⟩⟩) (fun k hk => .inl hk)
    (le_trans h.spent h.next) le_rfl
  · refine pending_last (w := w) (.revokeAll _ _ _) ⟨?_, haway k⟩ rfl
    rw [hmem]
    cases hc : w.memory.tokens.get? k with
    | none =>
      rw [haway, State.record, hc] at hk
      exact absurd rfl hk
    | some c => exact ⟨c, rfl⟩
  · rw [State.revokeAll_tokens, Table.get?_empty] at hc
    simp at hc
  · obtain ⟨c, hc⟩ := (hmem id).mp hid
    exact (h.filed id c hc).2.1

end

end Mbrc.Pairing
