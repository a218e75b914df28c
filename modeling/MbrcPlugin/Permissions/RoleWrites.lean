import MbrcPlugin.Lib.Transition
import MbrcPlugin.Lib.FileWrites
import MbrcPlugin.Permissions.Gate

/-!
# Roles in memory and in the store

`assign`, `unassign` and `unassign_browsers` change the map under its lock and write the store once
they have let go of it, so two calls for one principal may write in either order.  The table holds
the assignments whenever no call is under way, in the runs where no write lands that is not memory's
by then (`roles_stored`); two assignments that write the other way round leave the older role.
-/

namespace Mbrc.Permissions

open WriteBehind

/-! ## Calls under way -/

/-- What a call is still to write. -/
inductive Persist where
  | insert (key : String) (role : Role)
  | remove (key : String)
  | removeAll (keys : List String)
  deriving DecidableEq

namespace Persist

/-- The transaction. -/
def write (stored : Table String String) : Persist → Table String String
  | insert key role => stored.insert key role.asStr
  | remove key => stored.erase key
  | removeAll keys => stored.eraseAll keys

/-- What it writes under a key. -/
def Brings : Persist → String → Option String → Prop
  | insert key role, k, v => k = key ∧ v = some role.asStr
  | remove key, k, v => k = key ∧ v = none
  | removeAll keys, k, v => k ∈ keys ∧ v = none

theorem get?_write_of_brings {p : Persist} {k : String} {v : Option String} (h : p.Brings k v)
    (stored : Table String String) : (p.write stored).get? k = v := by
  cases p with
  | insert key role =>
    obtain ⟨rfl, rfl⟩ := h
    rw [write, Table.get?_insert, if_pos rfl]
  | remove key =>
    obtain ⟨rfl, rfl⟩ := h
    rw [write, Table.get?_erase, if_pos rfl]
  | removeAll keys =>
    obtain ⟨hk, rfl⟩ := h
    rw [write, Table.get?_eraseAll, if_pos hk]

theorem get?_write_of_not {p : Persist} {k : String} (h : ¬ ∃ v, p.Brings k v)
    (stored : Table String String) : (p.write stored).get? k = stored.get? k := by
  cases p with
  | insert key role =>
    rw [write, Table.get?_insert, if_neg]
    rintro rfl
    exact h ⟨_, rfl, rfl⟩
  | remove key =>
    rw [write, Table.get?_erase, if_neg]
    rintro rfl
    exact h ⟨_, rfl, rfl⟩
  | removeAll keys =>
    rw [write, Table.get?_eraseAll, if_neg]
    exact fun hk => h ⟨_, hk, rfl⟩

end Persist

namespace Roles

/-- The keys of the paired browsers that hold a role. -/
def browserKeys (r : Roles) : List String :=
  (r.assigned.rows.map Prod.fst).filter fun key => browserStart.toList.isPrefixOf key.toList

/-- What memory has for the store. -/
def record (r : Roles) (k : String) : Option String := (r.assigned.get? k).map Role.asStr

end Roles

structure RoleCalls where
  roles : Roles
  calls : List Persist

namespace RoleCalls

/-- A step under the lock that leaves a transaction to write. -/
def leave (w : RoleCalls) (assigned : Table String Role) (p : Persist) : RoleCalls :=
  { roles := { w.roles with assigned }, calls := w.calls ++ [p] }

end RoleCalls

/-! ## Steps -/

inductive RoleEvent where
  | assign (principal : Principal) (role : Role)
  | unassign (principal : Principal)
  | unassignBrowsers
  /-- A transaction commits, and its call returns. -/
  | persist (n : Nat)
  | restart
  deriving DecidableEq

namespace RoleCalls

def step (w : RoleCalls) : RoleEvent → Option RoleCalls
  | .assign principal role =>
    match principal.key with
    | some key => some (w.leave (w.roles.assigned.insert key role) (.insert key role))
    | none => some w
  | .unassign principal =>
    match principal.key with
    | some key => some (w.leave (w.roles.assigned.erase key) (.remove key))
    | none => some w
  | .unassignBrowsers =>
    let keys := w.roles.browserKeys
    some (w.leave (w.roles.assigned.eraseAll keys) (.removeAll keys))
  | .persist n =>
    match w.calls[n]? with
    | some p =>
      some { roles := { w.roles with stored := p.write w.roles.stored }
             calls := w.calls.eraseIdx n }
    | none => none
  | .restart =>
    if w.calls = [] then some { w with roles := Roles.«open» w.roles.stored } else none

/-- Every row of the store names a role, as the calls write them. -/
def Named (stored : Table String String) : Prop :=
  ∀ key name, stored.get? key = some name → ∃ role : Role, name = role.asStr

def system : Transition.System RoleCalls RoleEvent where
  start w := ∃ stored, Named stored ∧ w = { roles := Roles.«open» stored, calls := [] }
  next := step

/-- **What is promised**: the table holds the assignments, and the next start has them again. -/
structure Agree (r : Roles) : Prop where
  stored : ∀ key, r.stored.get? key = r.record key
  restored : Roles.«open» r.stored = r

/-- A transaction that commits leaves under each of its keys what memory has, or another call is to
write that. -/
def Orderly (w : RoleCalls) : RoleEvent → Prop
  | .persist n => ∀ p k v, w.calls[n]? = some p → p.Brings k v →
      v = w.roles.record k ∨
        ∃ m p', m ≠ n ∧ w.calls[m]? = some p' ∧ p'.Brings k (w.roles.record k)
  | _ => True

/-! ## The next start -/

/-- The assignments a row of the store gives. -/
def ofRow (row : String × String) : Option (String × Role) :=
  (Role.parse row.2).map fun role => (row.1, role)

theorem open_assigned (stored : Table String String) :
    (Roles.«open» stored).assigned =
      (stored.rows.filterMap ofRow).foldl (fun t row => t.insert row.1 row.2) Table.empty := by
  rw [List.foldl_filterMap]
  show stored.rows.foldl _ _ = _
  congr 1
  funext t row
  cases h : Role.parse row.2 <;> simp [ofRow, h]

theorem ofRow_keys (rows : List (String × String)) :
    ((rows.filterMap ofRow).map Prod.fst).Sublist (rows.map Prod.fst) := by
  induction rows with
  | nil => simp
  | cons row rows ih =>
    cases h : Role.parse row.2 with
    | none => simpa [ofRow, h] using ih.cons row.1
    | some role => simpa [ofRow, h] using ih.cons_cons row.1

theorem get?_open {stored : Table String String} (hnamed : Named stored) (key : String) :
    ((Roles.«open» stored).assigned.get? key).map Role.asStr = stored.get? key := by
  have hkeys := (ofRow_keys stored.rows).nodup stored.keys_nodup
  rw [open_assigned]
  cases hr : stored.get? key with
  | none =>
    rw [Table.get?_foldl_insert (fun row : String × Role => row.1) fun row => row.2,
      Table.get?_empty]
    · rfl
    · intro hin
      obtain ⟨⟨k, name⟩, hrow, rfl⟩ := List.mem_map.mp ((ofRow_keys stored.rows).subset hin)
      rw [Table.mem_rows.mp hrow] at hr
      cases hr
  | some name =>
    obtain ⟨role, rfl⟩ := hnamed key name hr
    have hrow : (key, role) ∈ stored.rows.filterMap ofRow :=
      List.mem_filterMap.mpr ⟨_, Table.mem_rows.mpr hr, by simp [ofRow]⟩
    have hget := Table.get?_foldl_insert_of_mem (fun row : String × Role => row.1)
      (fun row => row.2) hkeys hrow Table.empty
    rw [hget]
    rfl

theorem asStr_injective : Function.Injective Role.asStr := by
  intro a b h
  simpa using congrArg Role.parse h

theorem agree_of_record {r : Roles} (h : r.stored.get? = r.record) : Agree r := by
  have hstored : ∀ key, r.stored.get? key = r.record key := fun key => congrFun h key
  refine ⟨hstored, ?_⟩
  have hnamed : Named r.stored := by
    intro key name hname
    rw [hstored, Roles.record, Option.map_eq_some_iff] at hname
    obtain ⟨role, -, rfl⟩ := hname
    exact ⟨role, rfl⟩
  have hassigned : (Roles.«open» r.stored).assigned = r.assigned := by
    refine Table.ext fun key => Option.map_injective asStr_injective ?_
    rw [get?_open hnamed, hstored]
    rfl
  exact congrArg (fun assigned => Roles.mk assigned r.stored) hassigned

/-! ## Every run -/

/-- A call under way brings a value under a key. -/
def Pending (w : RoleCalls) (k : String) (v : Option String) : Prop := ∃ p ∈ w.calls, p.Brings k v

/-- The store is behind memory by the calls under way. -/
def Inv (w : RoleCalls) : Prop := Behind w.roles.record w.roles.stored.get? w.Pending

theorem Inv.leave {w : RoleCalls} {assigned : Table String Role} {p : Persist} (h : w.Inv)
    (hnew : ∀ k, assigned.get? k ≠ w.roles.assigned.get? k →
      p.Brings k ((assigned.get? k).map Role.asStr)) : (w.leave assigned p).Inv := by
  refine Behind.change h (fun k _ hp => ?_) fun k hk => ?_
  · obtain ⟨q, hq, hbrings⟩ := hp
    exact ⟨q, List.mem_append_left _ hq, hbrings⟩
  · refine ⟨p, List.mem_append_right _ (List.mem_singleton.mpr rfl), hnew k fun heq => hk ?_⟩
    exact congrArg (Option.map Role.asStr) heq

theorem Inv.persist {w : RoleCalls} {n : Nat} {p : Persist} (h : w.Inv)
    (hn : w.calls[n]? = some p) (ho : w.Orderly (.persist n)) :
    Inv { roles := { w.roles with stored := p.write w.roles.stored }
          calls := w.calls.eraseIdx n } := by
  refine Behind.landAt (W := fun k => ∃ v, p.Brings k v) h (fun k hk => ?_) (fun k v hk hp => ?_)
    fun k hk => ?_
  · exact p.get?_write_of_not hk _
  · obtain ⟨q, hq, hbrings⟩ := hp
    obtain ⟨m, hm⟩ := List.mem_iff_getElem?.mp hq
    refine ⟨q, List.mem_eraseIdx_iff_getElem?.mpr ⟨m, ?_, hm⟩, hbrings⟩
    rintro rfl
    rw [hn] at hm
    obtain rfl := Option.some.inj hm
    exact hk ⟨v, hbrings⟩
  · obtain ⟨v, hv⟩ := hk
    rcases ho p k v hn hv with heq | ⟨m, q, hm, hq, hbrings⟩
    · exact Or.inl ((p.get?_write_of_brings hv _).trans heq)
    · exact Or.inr ⟨q, List.mem_eraseIdx_iff_getElem?.mpr ⟨m, hm, hq⟩, hbrings⟩

/-- With no call under way the store is memory's. -/
theorem Inv.agree {w : RoleCalls} (h : w.Inv) (hcalls : w.calls = []) : Agree w.roles := by
  refine agree_of_record (Behind.agree h fun k v hp => ?_)
  obtain ⟨p, hp, -⟩ := hp
  rw [hcalls] at hp
  exact List.not_mem_nil hp

theorem step_inv {w w' : RoleCalls} {event : RoleEvent} (h : w.Inv) (ho : w.Orderly event)
    (hstep : w.step event = some w') : w'.Inv := by
  cases event with
  | assign principal role =>
    simp only [step] at hstep
    split at hstep <;> obtain rfl := Option.some.inj hstep
    · rename_i key _
      refine h.leave fun k hk => ?_
      rw [Table.get?_insert] at hk ⊢
      split at hk
      · rename_i heq
        exact ⟨heq.symm, by rw [if_pos heq]; rfl⟩
      · exact absurd rfl hk
    · exact h
  | unassign principal =>
    simp only [step] at hstep
    split at hstep <;> obtain rfl := Option.some.inj hstep
    · rename_i key _
      refine h.leave fun k hk => ?_
      rw [Table.get?_erase] at hk ⊢
      split at hk
      · rename_i heq
        exact ⟨heq.symm, by rw [if_pos heq]; rfl⟩
      · exact absurd rfl hk
    · exact h
  | unassignBrowsers =>
    obtain rfl := Option.some.inj hstep
    refine h.leave fun k hk => ?_
    rw [Table.get?_eraseAll] at hk ⊢
    split at hk
    · rename_i hin
      exact ⟨hin, by rw [if_pos hin]; rfl⟩
    · exact absurd rfl hk
  | persist n =>
    simp only [step] at hstep
    split at hstep
    · rename_i p hn
      obtain rfl := Option.some.inj hstep
      exact h.persist hn ho
    · cases hstep
  | restart =>
    simp only [step] at hstep
    split at hstep
    · rename_i hcalls
      obtain rfl := Option.some.inj hstep
      rw [(h.agree hcalls).restored]
      exact h
    · cases hstep

theorem start_inv {w : RoleCalls} (h : system.start w) : w.Inv := by
  obtain ⟨stored, hnamed, rfl⟩ := h
  intro key
  exact Or.inl (get?_open hnamed key).symm

/-- **Memory and the store agree** whenever no call is under way. -/
theorem roles_stored {w₀ w : RoleCalls} {events : List RoleEvent} (h₀ : system.start w₀)
    (hC : system.Along Orderly w₀ events) (he : system.exec w₀ events = some w)
    (hcalls : w.calls = []) : Agree w.roles := by
  have hnext : ∀ w event w', w.Inv → w.Orderly event → system.next w event = some w' → w'.Inv :=
    fun w event w' h ho hn => step_inv h ho hn
  exact (system.exec_induction hnext (start_inv h₀) hC he).agree hcalls

/-- What is written is what memory has. -/
def calm (w : RoleCalls) : RoleEvent → Bool
  | .persist n =>
    match w.calls[n]? with
    | some (.insert key role) => w.roles.record key = some role.asStr
    | some (.remove key) => w.roles.record key = none
    | some (.removeAll keys) => keys.all fun key => w.roles.record key = none
    | none => true
  | _ => true

theorem orderly_of_calm {w : RoleCalls} {event : RoleEvent} (h : w.calm event = true) :
    w.Orderly event := by
  cases event with
  | persist n =>
    intro p k v hp hbrings
    rw [calm, hp] at h
    cases p with
    | insert key role =>
      obtain ⟨rfl, rfl⟩ := hbrings
      exact Or.inl (of_decide_eq_true h).symm
    | remove key =>
      obtain ⟨rfl, rfl⟩ := hbrings
      exact Or.inl (of_decide_eq_true h).symm
    | removeAll keys =>
      obtain ⟨hk, rfl⟩ := hbrings
      exact Or.inl (of_decide_eq_true (List.all_eq_true.mp h k hk)).symm
  | _ => trivial

def unopened : RoleCalls where
  roles := Roles.«open» Table.empty
  calls := []

theorem unopened_start : system.start unopened := ⟨Table.empty, fun key name h => by simp at h, rfl⟩

/-- A phone and a browser get a role, and the browsers lose theirs. -/
def oneByOne : List RoleEvent :=
  [.assign (.app "phone") .host, .persist 0, .assign (.browser "tab") .dj, .persist 0,
    .unassignBrowsers, .persist 0, .restart]

theorem roles_stored_oneByOne : ∃ w, system.exec unopened oneByOne = some w ∧
    w.roles.roleOf (.app "phone") = .host ∧ Agree w.roles := by
  have hrun : (system.exec unopened oneByOne).any (fun w =>
      w.calls = [] ∧ w.roles.roleOf (.app "phone") = .host) = true := by decide +kernel
  have hcalm : system.checked calm unopened oneByOne = true := by decide +kernel
  obtain ⟨w, hexec, hfacts⟩ := (Option.any_eq_true _ _).mp hrun
  obtain ⟨hcalls, hrole⟩ := of_decide_eq_true hfacts
  exact ⟨w, hexec, hrole, roles_stored unopened_start
    (system.along_of_checked (fun _ _ => orderly_of_calm) hcalm) hexec hcalls⟩

/-- A role is given and taken away, and the two are written the other way round. -/
def writtenInReverse : List RoleEvent :=
  [.assign (.app "phone") .host, .unassign (.app "phone"), .persist 1, .persist 0]

/-- The role that was taken away is back after a restart. -/
theorem roles_revived : ∃ w, system.Reachable w ∧ w.calls = [] ∧
    w.roles.roleOf (.app "phone") = .guest ∧
    (Roles.«open» w.roles.stored).roleOf (.app "phone") = .host ∧ ¬ Agree w.roles := by
  have hrun : (system.exec unopened writtenInReverse).any (fun w =>
      w.calls = [] ∧ w.roles.roleOf (.app "phone") = .guest ∧
        (Roles.«open» w.roles.stored).roleOf (.app "phone") = .host) = true := by decide +kernel
  obtain ⟨w, hexec, hfacts⟩ := (Option.any_eq_true _ _).mp hrun
  obtain ⟨hcalls, hguest, hhost⟩ := of_decide_eq_true hfacts
  refine ⟨w, ⟨unopened, writtenInReverse, unopened_start, hexec⟩, hcalls, hguest, hhost, ?_⟩
  intro hagree
  rw [hagree.restored, hguest] at hhost
  cases hhost

end RoleCalls

end Mbrc.Permissions
