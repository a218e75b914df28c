import MbrcPlugin.Commands.Orders
import MbrcPlugin.Commands.V6

/-!
# Removing slots of the queue

The slots are checked as a batch, then removed from the highest down: what a removal shifts is
behind every slot still to go.  So after any number of removals the queue is the old one without
the highest of the slots (`removeEach_run`), and the version moves whether the host went through
with all of them or not.
-/

namespace Mbrc.Removal

open Providers CommandsV6 Slots Interaction
open Interaction.Fallible (check outcome)

/-! ## The handler with the version -/

section

variable {σ : Type} (host : σ → (c : Call) → Answer c × σ)

/-- The answer, the host and the version after it. -/
structure Done (σ : Type) where
  answer : Except V6Error Value
  host : σ
  version : Option UInt64

/-- The version of the list, where there is a cache that holds one. -/
def listVersion (version : Option UInt64) : Nat := (version.getD 0).toNat

/-- `try_for_each`. -/
def eachRemoved : List Int → σ → Except String Unit × σ
  | [], s => (.ok (), s)
  | order :: orders, s =>
    match host s (.command (.removeListItem order)) with
    | (.ok _, s') => eachRemoved orders s'
    | (.error message, s') => (.error message, s')

def beyond (highest : Int) (len : Nat) : V6Error :=
  invalid "orders"
    ("order " ++ toString highest ++ " is past the end of a " ++ toString len ++ "-track queue")

/-- The version is bumped once the removals have begun. -/
def remove (data : Value) (version : Option UInt64) (s : σ) : Done σ :=
  match ordersHighestFirst data "orders" with
  | .error e => ⟨.error e, s, version⟩
  | .ok orders =>
    match checkVersion data (listVersion version) with
    | .error e => ⟨.error e, s, version⟩
    | .ok () =>
      match host s (.query .nowPlayingListPaths) with
      | (.error message, s') => ⟨.error (internal message), s', version⟩
      | (.ok (paths : List String), s') =>
        let highest := orders.headD 0
        if paths.length ≤ highest.toNat then
          ⟨.error (beyond highest paths.length), s', version⟩
        else
          let (removed, s'') := eachRemoved host orders s'
          ⟨(removed.mapError internal).map fun _ => .object [], s'', version.map (· + 1)⟩

/-- The handler is the one of the op, with the version beside it. -/
theorem eachRemoved_run (orders : List Int) (s : σ) :
    ∃ calls, (removeEach orders).run.run host s =
      (calls, (eachRemoved host orders s).1.mapError internal, (eachRemoved host orders s).2) := by
  induction orders generalizing s with
  | nil => exact ⟨[], rfl⟩
  | cons order orders ih =>
    obtain ⟨calls, hrest⟩ := ih (host s (.command (.removeListItem order))).2
    unfold removeEach eachRemoved
    cases hcall : host s (.command (.removeListItem order)) with
    | mk answer s' =>
      rw [hcall] at hrest
      have hperform (a : Except V6Error Unit)
          (h : (answer.mapError internal).map (fun _ : Unit => ()) = a) :
          (perform internal (.removeListItem order) : HandlerV6 Unit).run.run host s =
            ([.command (.removeListItem order)], a, s') := by
        show (_, ((host s (.command (.removeListItem order))).1.mapError internal).map _, _) = _
        rw [hcall]
        exact congrArg (fun a => (_, a, s')) h
      cases answer with
      | ok _ =>
        rw [Fallible.run_bind_ok (hperform (.ok ()) rfl), hrest]
        exact ⟨_, rfl⟩
      | error message =>
        exact ⟨_, Fallible.run_bind_error (hperform (.error (internal message)) rfl) _⟩

theorem remove_run (data : Value) (version : Option UInt64) (s : σ) :
    ∃ calls, (removeItems data (listVersion version)).run.run host s =
      (calls, (remove host data version s).answer, (remove host data version s).host) := by
  unfold removeItems remove
  cases ordersHighestFirst data "orders" with
  | error e => exact ⟨[], rfl⟩
  | ok orders =>
    rw [Fallible.run_check_bind]
    cases checkVersion data (listVersion version) with
    | error e => exact ⟨[], rfl⟩
    | ok _ =>
      rw [Fallible.run_check_bind]
      cases hread : host s (.query .nowPlayingListPaths) with
      | mk answer s' =>
        have hask (a : Except V6Error (List String))
            (h : (answer : Except String (List String)).mapError internal = a) :
            (ask internal .nowPlayingListPaths : HandlerV6 (List String)).run.run host s =
              ([.query .nowPlayingListPaths], a, s') := by
          show (_, (host s (.query .nowPlayingListPaths)).1.mapError internal, _) = _
          rw [hread]
          exact congrArg (fun a => (_, a, s')) h
        cases answer with
        | error message =>
          exact ⟨_, Fallible.run_bind_error (hask (.error (internal message)) rfl) _⟩
        | ok paths =>
          rw [Fallible.run_bind_ok (hask (.ok paths) rfl)]
          dsimp only
          split
          · exact ⟨_, rfl⟩
          · obtain ⟨calls, hrest⟩ := eachRemoved_run host orders s'
            cases hremoved : (eachRemoved host orders s').1 with
            | error message =>
              rw [hremoved] at hrest
              rw [Fallible.run_bind_error hrest]
              exact ⟨_, rfl⟩
            | ok _ =>
              rw [hremoved] at hrest
              rw [Fallible.run_bind_ok hrest]
              exact ⟨_, rfl⟩

/-! ## The queue -/

/-- What is left of a queue without some of its slots. -/
def left (queue : List String) (gone : List Int) : List String :=
  entriesAt (fun i => decide ((i : Int) ∉ gone)) queue

theorem left_nil (queue : List String) : left queue [] = queue := by
  have htrue : (fun i : Nat => decide ((i : Int) ∉ ([] : List Int))) = fun _ => true := by
    funext i
    simp
  rw [left, htrue, entriesAt_true]

theorem left_highestFirst (queue : List String) (gone : List Int) :
    left queue (highestFirst gone) = left queue gone := by
  have hmem (i : Nat) : decide ((i : Int) ∉ highestFirst gone) = decide ((i : Int) ∉ gone) :=
    decide_eq_decide.mpr (not_congr mem_highestFirst)
  unfold left
  simp only [hmem]

theorem left_cons {queue : List String} {order : Int} {lower : List Int} (hpos : 0 ≤ order)
    (hlt : order < queue.length) (hlower : ∀ o ∈ lower, 0 ≤ o ∧ o < order) :
    left (queue.eraseIdx order.toNat) lower = left queue (order :: lower) := by
  have hplaces (gone : List Int) (h : ∀ o ∈ gone, 0 ≤ o) (i : Nat) :
      decide ((i : Int) ∉ gone) = decide (i ∉ gone.map Int.toNat) := by
    have hmem := decide_mem_toNat h i
    rw [decide_eq_decide] at hmem
    exact decide_eq_decide.mpr (not_congr hmem.symm)
  have hall : ∀ o ∈ order :: lower, 0 ≤ o := by
    intro o ho
    rcases List.mem_cons.mp ho with rfl | ho
    · exact hpos
    · exact (hlower o ho).1
  have hbelow : ∀ i ∈ lower.map Int.toNat, i < order.toNat := by
    intro i hi
    obtain ⟨o, ho, rfl⟩ := List.mem_map.mp hi
    have hbounds := hlower o ho
    omega
  unfold left
  simp only [hplaces lower fun o ho => (hlower o ho).1, hplaces _ hall, List.map_cons]
  exact entriesAt_eraseIdx_cons (by omega) hbelow

/-- A host that deletes the slot it is told to, or fails and deletes none. -/
structure QueueHost (queue : σ → List String) : Prop where
  reads : ∀ s, queue (host s (.query .nowPlayingListPaths)).2 = queue s ∧
    ∀ paths : List String, (host s (.query .nowPlayingListPaths)).1 = .ok paths → paths = queue s
  removes : ∀ s (order : Int), 0 ≤ order → order < (queue s).length →
    (∃ u, (host s (.command (.removeListItem order))).1 = .ok u ∧
      queue (host s (.command (.removeListItem order))).2 = (queue s).eraseIdx order.toNat) ∨
    (∃ message, (host s (.command (.removeListItem order))).1 = .error message ∧
      queue (host s (.command (.removeListItem order))).2 = queue s)

variable {host}

/-- After any number of removals the highest slots are gone, and no other. -/
theorem eachRemoved_left {queue : σ → List String} (hhost : QueueHost host queue)
    {orders : List Int} {s : σ} (hsorted : orders.Pairwise fun a b => b < a)
    (hrange : ∀ o ∈ orders, 0 ≤ o ∧ o < (queue s).length) :
    ∃ k ≤ orders.length,
      queue (eachRemoved host orders s).2 = left (queue s) (orders.take k) ∧
      ((k = orders.length ∧ (eachRemoved host orders s).1 = .ok ()) ∨
        (k < orders.length ∧ ∃ message, (eachRemoved host orders s).1 = .error message)) := by
  induction orders generalizing s with
  | nil => exact ⟨0, Nat.le_refl 0, (left_nil _).symm, .inl ⟨rfl, rfl⟩⟩
  | cons order orders ih =>
    obtain ⟨hpos, hlt⟩ := hrange order List.mem_cons_self
    obtain ⟨hhead, htail⟩ := List.pairwise_cons.mp hsorted
    have hlower (o : Int) (ho : o ∈ orders) : 0 ≤ o ∧ o < order :=
      ⟨(hrange o (List.mem_cons_of_mem _ ho)).1, hhead o ho⟩
    unfold eachRemoved
    rcases hhost.removes s order hpos hlt with ⟨u, hok, hqueue⟩ | ⟨message, herror, hqueue⟩
    · cases hcall : host s (.command (.removeListItem order)) with
      | mk answer s' =>
        rw [hcall] at hok hqueue
        obtain rfl : answer = .ok u := hok
        have hlength : (queue s').length = (queue s).length - 1 := by
          rw [hqueue, List.length_eraseIdx_of_lt (by omega)]
        obtain ⟨k, hk, hleft, hend⟩ := ih (s := s') htail fun o ho => by
          have hbounds := hlower o ho
          omega
        refine ⟨k + 1, Nat.succ_le_succ hk, ?_, ?_⟩
        · rw [List.take_succ_cons, ← left_cons hpos hlt, ← hqueue]
          · exact hleft
          · exact fun o ho => hlower o (List.mem_of_mem_take ho)
        · rw [List.length_cons]
          rcases hend with ⟨hall, hok⟩ | ⟨hsome, message, herror⟩
          · exact .inl ⟨by omega, hok⟩
          · exact .inr ⟨by omega, message, herror⟩
    · cases hcall : host s (.command (.removeListItem order)) with
      | mk answer s' =>
        rw [hcall] at herror hqueue
        obtain rfl : answer = .error message := herror
        refine ⟨0, Nat.zero_le _, ?_, .inr ⟨Nat.succ_pos _, message, rfl⟩⟩
        rw [List.take_zero, left_nil]
        exact hqueue

/-! ## Requests -/

/-- A request for distinct slots of the queue, with the version it has now or none. -/
structure Sound (data : Value) (version : Option UInt64) (len : Nat) (asked : List Int) :
    Prop where
  named : askedOrders data "orders" = some asked
  distinct : Distinct asked
  range : ∀ o ∈ asked, o < len
  fresh : checkVersion data (listVersion version) = .ok ()

theorem remove_sound {queue : σ → List String} (hhost : QueueHost host queue) {data : Value}
    {version : Option UInt64} {s : σ} {asked : List Int} {paths : List String}
    (hsound : Sound data version (queue s).length asked)
    (hread : (host s (.query .nowPlayingListPaths)).1 = .ok paths) :
    remove host data version s =
      ⟨((eachRemoved host (highestFirst asked) (host s (.query .nowPlayingListPaths)).2).1.mapError
          internal).map fun _ => .object [],
        (eachRemoved host (highestFirst asked) (host s (.query .nowPlayingListPaths)).2).2,
        version.map (· + 1)⟩ := by
  have horders : ordersHighestFirst data "orders" = .ok (highestFirst asked) :=
    ordersHighestFirst_eq_ok.mpr ⟨asked, hsound.named, hsound.distinct, rfl⟩
  obtain rfl := (hhost.reads s).2 paths hread
  have hhighest := (headD_highestFirst hsound.distinct.ne_nil
    fun o ho => (hsound.distinct.bounds o ho).1).mpr hsound.range
  unfold remove
  simp only [horders, hsound.fresh]
  cases hcall : host s (.query .nowPlayingListPaths) with
  | mk answer s' =>
    rw [hcall] at hread
    obtain rfl : answer = .ok (queue s) := hread
    dsimp only
    rw [if_neg (by omega)]

/-- Any other request is refused before a slot is removed. -/
theorem remove_refused {queue : σ → List String} (hhost : QueueHost host queue) {data : Value}
    {version : Option UInt64} {s : σ}
    (h : (¬ ∃ asked, Sound data version (queue s).length asked) ∨
      ∃ message, (host s (.query .nowPlayingListPaths)).1 = .error message) :
    (∃ e, (remove host data version s).answer = .error e) ∧
      queue (remove host data version s).host = queue s ∧
      (remove host data version s).version = version := by
  unfold remove
  cases horders : ordersHighestFirst data "orders" with
  | error e => exact ⟨⟨e, rfl⟩, rfl, rfl⟩
  | ok orders =>
    cases hversion : checkVersion data (listVersion version) with
    | error e => exact ⟨⟨e, rfl⟩, rfl, rfl⟩
    | ok _ =>
      have hreads := hhost.reads s
      cases hcall : host s (.query .nowPlayingListPaths) with
      | mk answer s' =>
        rw [hcall] at hreads h
        cases answer with
        | error message => exact ⟨⟨_, rfl⟩, hreads.1, rfl⟩
        | ok paths =>
          obtain rfl := hreads.2 paths rfl
          dsimp only
          split
          · exact ⟨⟨_, rfl⟩, hreads.1, rfl⟩
          · rename_i hwithin
            obtain ⟨asked, hasked, hdistinct, rfl⟩ := ordersHighestFirst_eq_ok.mp horders
            have hrange := (headD_highestFirst (n := (queue s).length) hdistinct.ne_nil
              fun o ho => (hdistinct.bounds o ho).1).mp (Nat.lt_of_not_le hwithin)
            rcases h with hnone | ⟨message, hmessage⟩
            · exact (hnone ⟨asked, hasked, hdistinct, hrange, hversion⟩).elim
            · cases hmessage

theorem bumped_ne (version : UInt64) : version + 1 ≠ version := by
  intro h
  simp at h

variable (host) in
/-- Nothing is removed: the request is not sound, or the host does not say what the queue holds. -/
structure Refused (queue : σ → List String) (data : Value) (version : Option UInt64) (s : σ)
    (done : Done σ) : Prop where
  failed : ∃ e, done.answer = .error e
  kept : queue done.host = queue s
  unmoved : done.version = version
  reason : (¬ ∃ asked, Sound data version (queue s).length asked) ∨
    ∃ message, (host s (.query .nowPlayingListPaths)).1 = .error message

/-- The slots are gone, all of them where it is answered, and the highest `k` of them where the host
fails; the version has moved. -/
structure Removed (queue : σ → List String) (version : Option UInt64) (asked : List Int) (s : σ)
    (done : Done σ) : Prop where
  bumped : done.version = version.map (· + 1)
  moved : ∀ v ∈ version, done.version ≠ some v
  lost : (done.answer = .ok (.object []) ∧ queue done.host = left (queue s) asked) ∨
    ∃ k < asked.length, (∃ message, done.answer = .error (internal message)) ∧
      queue done.host = left (queue s) ((highestFirst asked).take k)

end

/-! ## A queue of four -/

/-- A queue that deletes a slot it has, as often as it may. -/
def shelf : List String × Nat → (c : Call) → Answer c × (List String × Nat)
  | (queue, may), .query .nowPlayingListPaths => (.ok queue, (queue, may))
  | (queue, may), .command (.removeListItem order) =>
    match may with
    | 0 => (.error "refused", (queue, 0))
    | may + 1 => (.ok (), (queue.eraseIdx order.toNat, may))
  | s, c => (silent c, s)

theorem shelf_queueHost : QueueHost shelf Prod.fst := by
  refine ⟨fun s => ⟨rfl, fun paths h => (Except.ok.inj h).symm⟩, fun s order hpos hlt => ?_⟩
  obtain ⟨queue, may⟩ := s
  cases may with
  | zero => exact .inr ⟨"refused", rfl, rfl⟩
  | succ may => exact .inl ⟨(), rfl, rfl⟩

def removal (orders : List Int) : Value := .object [("orders", .array (orders.map .int))]

/-- The host refuses the second slot. -/
example : (remove shelf (removal [0, 2]) (some 7) (["a", "b", "c", "d"], 1)).host.1 =
    ["a", "b", "d"] := rfl

end Mbrc.Removal
