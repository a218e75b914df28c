import MbrcPlugin.Commands.Orders
import MbrcPlugin.Commands.PlaylistV6

/-!
# Moving and removing tracks of a playlist

The list a move writes is the old one with the named tracks lifted out and put back together, and
the list a removal writes is the old one without them.  What the source does with a slice, a
subtraction or a split that may panic is written out (`movePlan`, `removePlan`): none of them does
for slots that were checked.
-/

namespace Mbrc.CommandsV6

open Providers Interaction Slots
open Interaction.Fallible (check outcome)

/-! ## Steps that may panic -/

/-- `Vec::split_off` panics past the end. -/
def splitOff {α : Type} (l : List α) (n : Nat) : Option (List α × List α) :=
  if n ≤ l.length then some (l.splitAt n) else none

/-- A subtraction panics below zero. -/
def checkedSub (m n : Nat) : Option Nat := if n ≤ m then some (m - n) else none

/-- The list a removal writes, or how it refuses; nothing where a step panics. -/
def removePlan (orders : List Int) (paths : List String) :
    Option (Except V6Error (List String)) := do
  let highest ← orders.head?
  match checkInRange highest paths.length "orders" with
  | .error e => return .error e
  | .ok () => return .ok (partitionAt paths orders).2

/-- The list a move writes, or how it refuses; nothing where a step panics. -/
def movePlan (orders : List Int) (target : Int) (paths : List String) :
    Option (Except V6Error (List String)) := do
  let highest ← orders.head?
  match checkInRange highest paths.length "from_orders" with
  | .error e => return .error e
  | .ok () =>
    let room ← checkedSub paths.length orders.length
    if target < 0 ∨ room < target then
      return .error (invalid "to_order"
        ("to_order must be 0..=" ++ toString room ++ " when moving " ++ toString orders.length ++
          " tracks"))
    let (moved, rest) := partitionAt paths orders
    let (before, tail) ← splitOff rest target.toNat
    return .ok (before ++ moved ++ tail)

/-! ## The tracks at the slots -/

/-- The tracks a request names, in the order they stand in. -/
def namedAt (paths : List String) (asked : List Int) : List String :=
  entriesAt (fun i => decide ((i : Int) ∈ asked)) paths

def othersAt (paths : List String) (asked : List Int) : List String :=
  entriesAt (fun i => !decide ((i : Int) ∈ asked)) paths

theorem partitionAt_eq (paths : List String) (orders : List Int) :
    partitionAt paths orders = (namedAt paths orders, othersAt paths orders) := by
  have hplace (p : Nat → Bool) : (fun i => p (0 + i)) = p := by
    funext i
    rw [Nat.zero_add]
  have hzip (p : Nat → Bool) := zipIdx_filter p paths 0
  simp only [hplace] at hzip
  unfold partitionAt namedAt othersAt
  rw [List.partition_eq_filter_filter, ← hzip, ← hzip]
  rfl

theorem partitionAt_highestFirst (paths : List String) (asked : List Int) :
    partitionAt paths (highestFirst asked) = (namedAt paths asked, othersAt paths asked) := by
  have hmem (i : Nat) : decide ((i : Int) ∈ highestFirst asked) = decide ((i : Int) ∈ asked) :=
    decide_eq_decide.mpr mem_highestFirst
  rw [partitionAt_eq]
  unfold namedAt othersAt
  simp only [hmem]

/-- Each slot is one of the list's. -/
def WithinList (asked : List Int) (paths : List String) : Prop :=
  Distinct asked ∧ ∀ o ∈ asked, o < paths.length

section

variable {asked : List Int} {paths : List String}

theorem length_namedAt (h : WithinList asked paths) : (namedAt paths asked).length = asked.length :=
  length_entriesAt_asked h.1 h.2

theorem named_others_perm (paths : List String) (asked : List Int) :
    (namedAt paths asked ++ othersAt paths asked).Perm paths :=
  entriesAt_perm _ paths

theorem length_others (h : WithinList asked paths) :
    asked.length + (othersAt paths asked).length = paths.length := by
  rw [← length_namedAt h, ← List.length_append]
  exact (named_others_perm paths asked).length_eq

theorem checkInRange_eq_ok (hdistinct : Distinct asked) {field : String} :
    checkInRange ((highestFirst asked).headD 0) paths.length field = .ok () ↔
      WithinList asked paths := by
  have hhead := headD_highestFirst hdistinct.ne_nil (fun o ho => (hdistinct.bounds o ho).1)
    (n := paths.length)
  unfold checkInRange
  constructor
  · intro h
    split at h
    · cases h
    · exact ⟨hdistinct, hhead.mp (by omega)⟩
  · intro h
    rw [if_neg (by have hlt := hhead.mpr h.2; omega)]

/-! ## The plans -/

theorem head?_highestFirst (hdistinct : Distinct asked) :
    (highestFirst asked).head? = some ((highestFirst asked).headD 0) := by
  cases hsort : highestFirst asked with
  | nil => exact absurd hsort (highestFirst_ne_nil hdistinct.ne_nil)
  | cons top rest => rfl

theorem removePlan_within (h : WithinList asked paths) :
    removePlan (highestFirst asked) paths = some (.ok (othersAt paths asked)) := by
  simp only [removePlan, head?_highestFirst h.1, Option.bind_eq_bind, Option.bind_some]
  rw [(checkInRange_eq_ok h.1).mpr h, partitionAt_highestFirst]
  rfl

theorem removePlan_beyond (hdistinct : Distinct asked) {e : V6Error}
    (h : checkInRange ((highestFirst asked).headD 0) paths.length "orders" = .error e) :
    removePlan (highestFirst asked) paths = some (.error e) := by
  simp only [removePlan, head?_highestFirst hdistinct, Option.bind_eq_bind, Option.bind_some]
  rw [h]
  rfl

theorem movePlan_beyond (hdistinct : Distinct asked) (target : Int) {e : V6Error}
    (h : checkInRange ((highestFirst asked).headD 0) paths.length "from_orders" = .error e) :
    movePlan (highestFirst asked) target paths = some (.error e) := by
  simp only [movePlan, head?_highestFirst hdistinct, Option.bind_eq_bind, Option.bind_some]
  rw [h]
  rfl

/-- The room left is what the split can be made in. -/
theorem movePlan_within (h : WithinList asked paths) (target : Int) :
    movePlan (highestFirst asked) target paths =
      if target < 0 ∨ ((paths.length - asked.length : Nat) : Int) < target then
        some (.error (invalid "to_order"
          ("to_order must be 0..=" ++ toString (paths.length - asked.length) ++
            " when moving " ++ toString asked.length ++ " tracks")))
      else
        some (.ok ((othersAt paths asked).take target.toNat ++ namedAt paths asked ++
          (othersAt paths asked).drop target.toNat)) := by
  have hlength := length_others h
  have hsub : checkedSub paths.length asked.length = some (paths.length - asked.length) :=
    if_pos (by omega)
  simp only [movePlan, head?_highestFirst h.1, Option.bind_eq_bind, Option.bind_some]
  rw [(checkInRange_eq_ok h.1).mpr h]
  simp only [length_highestFirst, hsub, Option.bind_some, partitionAt_highestFirst]
  split
  · rfl
  · rename_i hroom
    have hsplit : splitOff (othersAt paths asked) target.toNat =
        some ((othersAt paths asked).splitAt target.toNat) := if_pos (by omega)
    rw [hsplit, List.splitAt_eq]
    rfl

end

/-! ## What is written -/

/-- The tracks at the slots are lifted out and put back together, the first of them at `target`. -/
structure Moved (paths : List String) (asked : List Int) (target : Int) (list : List String) :
    Prop where
  perm : list.Perm paths
  stands : ∃ before after, list = before ++ namedAt paths asked ++ after ∧
    (before.length : Int) = target ∧ before ++ after = othersAt paths asked

theorem moved_of_room {paths : List String} {asked : List Int} {target : Int}
    (h : WithinList asked paths)
    (hroom : ¬ (target < 0 ∨ ((paths.length - asked.length : Nat) : Int) < target)) :
    Moved paths asked target ((othersAt paths asked).take target.toNat ++ namedAt paths asked ++
      (othersAt paths asked).drop target.toNat) := by
  have hlength := length_others h
  refine ⟨?_, _, _, rfl, ?_, List.take_append_drop _ _⟩
  · refine ((List.perm_append_comm.append_right _).trans ?_)
    rw [List.append_assoc, List.take_append_drop]
    exact named_others_perm paths asked
  · rw [List.length_take]
    omega

/-! ## Runs -/

section

variable {σ α : Type} (host : σ → (c : Call) → Answer c × σ)

/-- A run makes no command and fails, or it makes one, a write that satisfies `P`, and fails only
where a call of the host does. -/
def Edits (h : HandlerV6 Value) (s : σ) (P : String → List String → Prop) : Prop :=
  (commands host h s = [] ∧ ∃ e, outcome host h s = .error e) ∨
    ∃ url list, P url list ∧ commands host h s = [.setPlaylistFiles url list] ∧
      ∀ e, outcome host h s = .error e → e.code = .internal

variable {host} {s : σ} {P : String → List String → Prop}

/-- Before its write a handler reads and checks. -/
theorem edits_bind {x : HandlerV6 α} (hx : x.Within (OnCommands fun _ => False))
    {f : α → HandlerV6 Value}
    (hf : ∀ a, outcome host x s = .ok a → Edits host (f a) (x.run.run host s).2.2 P) :
    Edits host (x >>= f) s P := by
  have hnone : commands host x s = [] := commands_eq_nil hx host s
  cases hout : outcome host x s with
  | error e =>
    have hrun := Fallible.run_bind_error (x := x) (Prod.ext rfl (Prod.ext hout rfl)) f
    refine .inl ⟨?_, e, congrArg (fun r => r.2.1) hrun⟩
    exact (congrArg (fun r => r.1.filterMap Call.command?) hrun).trans hnone
  | ok a =>
    have hrun := Fallible.run_bind_ok (x := x) (Prod.ext rfl (Prod.ext hout rfl)) f
    have hcommands : commands host (x >>= f) s =
        commands host (f a) (x.run.run host s).2.2 := by
      have hcalls := congrArg (fun r => r.1.filterMap Call.command?) hrun
      dsimp only at hcalls
      rw [List.filterMap_append] at hcalls
      exact hcalls.trans (congrArg (· ++ _) hnone)
    have houtcome : outcome host (x >>= f) s = outcome host (f a) (x.run.run host s).2.2 :=
      congrArg (fun r => r.2.1) hrun
    unfold Edits
    rw [hcommands, houtcome]
    exact hf a hout

theorem edits_check {e : Except V6Error α} {f : α → HandlerV6 Value}
    (hf : ∀ a, e = .ok a → Edits host (f a) s P) : Edits host (check e >>= f) s P :=
  edits_bind ((Fallible.within_check e).mpr trivial) hf

theorem edits_throw (e : V6Error) : Edits host (throw e) s P := .inl ⟨rfl, e, rfl⟩

theorem versionReply_error {url : String} {counted : List (String × Value)} {e : V6Error}
    (h : outcome host (versionReply url counted) s = .error e) : e.code = .internal := by
  cases hread : (host s (.query (.playlistFiles url))).1 with
  | error message =>
    have hask : outcome host (ask internal (.playlistFiles url)) s = .error (internal message) :=
      congrArg (Except.mapError internal) hread
    have hversion : outcome host (writtenVersion url) s = .error (internal message) :=
      Fallible.outcome_bind_error hask _
    rw [versionReply, Fallible.outcome_bind_error hversion] at h
    obtain rfl := Except.error.inj h
    rfl
  | ok files =>
    have hask : Except.mapError internal (host s (.query (.playlistFiles url))).1 = .ok files :=
      congrArg (Except.mapError internal) hread
    have hversion : outcome host (writtenVersion url) s = .ok (versionOf files.paths) := by
      unfold writtenVersion ask
      rw [Fallible.outcome_attempt_bind hask]
      rfl
    obtain ⟨s', hrest⟩ := Fallible.outcome_bind_ok hversion fun version =>
      (pure (.object (("version", .string version) :: counted)) : HandlerV6 Value)
    cases hrest.symm.trans h

/-- The write, and the version read back. -/
theorem edits_write {url : String} {list : List String} (hP : P url list)
    (counted : List (String × Value)) :
    Edits host (perform internal (.setPlaylistFiles url list) >>= fun _ =>
      versionReply url counted) s P := by
  refine .inr ⟨url, list, hP, ?_, fun e he => ?_⟩
  · rw [perform, commands_attempt_bind]
    have hnone (s') : commands host (versionReply url counted) s' = [] :=
      commands_eq_nil (within_versionReply url counted) host s'
    simp only [hnone]
    split <;> rfl
  · unfold perform at he
    cases hwrite : (host s (.command (.setPlaylistFiles url list))).1 with
    | error message =>
      have hattempt : outcome host (Fallible.attempt (.command (.setPlaylistFiles url list))
          fun r => (r.mapError internal).map fun _ => ()) s = .error (internal message) :=
        congrArg (fun r : Except String Unit => (r.mapError internal).map fun _ => ()) hwrite
      rw [Fallible.outcome_bind_error hattempt] at he
      obtain rfl := Except.error.inj he
      rfl
    | ok a =>
      have hread : ((host s (.command (.setPlaylistFiles url list))).1.mapError internal).map
          (fun _ => ()) = .ok () :=
        congrArg (fun r : Except String Unit => (r.mapError internal).map fun _ => ()) hwrite
      rw [Fallible.outcome_attempt_bind hread] at he
      exact versionReply_error he

theorem knownFiles_ok {url : String} {files : PlaylistFiles}
    (h : outcome host (knownFiles url) s = .ok files) :
    (host s (.query (.playlistFiles url))).1 = .ok files := by
  cases hread : (host s (.query (.playlistFiles url))).1 with
  | error message =>
    have hask : outcome host (ask internal (.playlistFiles url)) s = .error (internal message) :=
      congrArg (Except.mapError internal) hread
    rw [knownFiles, Fallible.outcome_bind_error hask] at h
    cases h
  | ok read =>
    have hask : Except.mapError internal (host s (.query (.playlistFiles url))).1 = .ok read :=
      congrArg (Except.mapError internal) hread
    unfold knownFiles ask at h
    rw [Fallible.outcome_attempt_bind hask] at h
    split at h
    · cases h
    · exact congrArg Except.ok (Except.ok.inj h)

theorem editableFiles_ok {data : Value} {url : String} {files : PlaylistFiles}
    (h : outcome host (editableFiles data url) s = .ok files) :
    (host s (.query (.playlistFiles url))).1 = .ok files := by
  unfold editableFiles at h
  cases hknown : outcome host (knownFiles url) s with
  | error e =>
    rw [Fallible.outcome_bind_error hknown] at h
    cases h
  | ok read =>
    obtain ⟨s', hrest⟩ := Fallible.outcome_bind_ok hknown fun files => do
      if !editable files.kind then
        throw
          { code := .unavailable
            message := "this playlist is not a list of tracks that can be edited" }
      check (checkVersionOf data files)
      return files
    have hends := hrest.symm.trans h
    split at hends
    · cases hends
    · cases hversion : checkVersionOf data read with
      | error e =>
        rw [hversion] at hends
        cases hends
      | ok _ =>
        rw [hversion] at hends
        rw [knownFiles_ok hknown, show read = files from Except.ok.inj hends]

/-- What lets a request through to its checks: the playlist as the host answers it. -/
theorem edits_editableFiles {data : Value} {url : String} {f : PlaylistFiles → HandlerV6 Value}
    (hf : ∀ files, (host s (.query (.playlistFiles url))).1 = .ok files →
      ∀ s', Edits host (f files) s' P) :
    Edits host (editableFiles data url >>= f) s P := by
  exact edits_bind (within_editableFiles data url) fun files hfiles =>
    hf files (editableFiles_ok hfiles) _

/-! ## Moves and removals -/

/-- What a removal writes: the playlist without the slots of the request. -/
def Removal (host : σ → (c : Call) → Answer c × σ) (s : σ) (data : Value) (url : String)
    (list : List String) : Prop :=
  ∃ asked files, reqStr data "url" = .ok url ∧ askedOrders data "orders" = some asked ∧
    (host s (.query (.playlistFiles url))).1 = .ok files ∧ WithinList asked files.paths ∧
    removePlan (highestFirst asked) files.paths = some (.ok list) ∧
    list = othersAt files.paths asked

def Move (host : σ → (c : Call) → Answer c × σ) (s : σ) (data : Value) (url : String)
    (list : List String) : Prop :=
  ∃ asked target files, reqStr data "url" = .ok url ∧
    askedOrders data "from_orders" = some asked ∧ reqI64 data "to_order" = .ok target ∧
    (host s (.query (.playlistFiles url))).1 = .ok files ∧ WithinList asked files.paths ∧
    movePlan (highestFirst asked) target files.paths = some (.ok list) ∧
    Moved files.paths asked target list

theorem edits_removeTracks (host : σ → (c : Call) → Answer c × σ) (s : σ) (data : Value) :
    Edits host (removeTracks data) s (Removal host s data) := by
  refine edits_check fun url hurl => edits_check fun orders horders => ?_
  obtain ⟨asked, hasked, hdistinct, rfl⟩ := ordersHighestFirst_eq_ok.mp horders
  refine edits_editableFiles fun files hfiles s' => edits_check fun _ hrange => ?_
  have hwithin := (checkInRange_eq_ok hdistinct).mp hrange
  rw [partitionAt_highestFirst]
  exact edits_write ⟨asked, files, hurl, hasked, hfiles, hwithin, removePlan_within hwithin,
    rfl⟩ _

theorem edits_moveTracks (host : σ → (c : Call) → Answer c × σ) (s : σ) (data : Value) :
    Edits host (moveTracks data) s (Move host s data) := by
  refine edits_check fun url hurl => edits_check fun orders horders =>
    edits_check fun target htarget => ?_
  obtain ⟨asked, hasked, hdistinct, rfl⟩ := ordersHighestFirst_eq_ok.mp horders
  refine edits_editableFiles fun files hfiles s' => edits_check fun _ hrange => ?_
  have hwithin := (checkInRange_eq_ok hdistinct).mp hrange
  dsimp only
  rw [length_highestFirst]
  split
  · exact edits_throw _
  · rename_i hroom
    rw [movedTo, partitionAt_highestFirst]
    have hplan := movePlan_within hwithin target
    rw [if_neg hroom] at hplan
    exact edits_write ⟨asked, target, files, hurl, hasked, htarget, hfiles, hwithin, hplan,
      moved_of_room hwithin hroom⟩ _

end

/-- Slots that were checked make no step of a plan panic, wherever the list ends. -/
theorem plans_isSome {data : Value} {field : String} {orders : List Int}
    (h : ordersHighestFirst data field = .ok orders) (target : Int) (paths : List String) :
    (movePlan orders target paths).isSome ∧ (removePlan orders paths).isSome := by
  obtain ⟨asked, -, hdistinct, rfl⟩ := ordersHighestFirst_eq_ok.mp h
  constructor
  · cases hrange : checkInRange ((highestFirst asked).headD 0) paths.length "from_orders" with
    | error e => rw [movePlan_beyond hdistinct target hrange]; rfl
    | ok _ =>
      rw [movePlan_within ((checkInRange_eq_ok hdistinct).mp hrange)]
      split <;> rfl
  · cases hrange : checkInRange ((highestFirst asked).headD 0) paths.length "orders" with
    | error e => rw [removePlan_beyond hdistinct hrange]; rfl
    | ok _ => rw [removePlan_within ((checkInRange_eq_ok hdistinct).mp hrange)]; rfl

/-- **Playlist moves are permutations.**  A move that is let through writes the old list with the
named tracks together from `to_order` on, a removal that is let through the old list without the
named tracks; a request that is not writes nothing, and none makes a step panic. -/
theorem playlist_moves_permute {σ : Type} (host : σ → (c : Call) → Answer c × σ) (s : σ)
    (data : Value) :
    Edits host (moveTracks data) s (Move host s data) ∧
      Edits host (removeTracks data) s (Removal host s data) ∧
      ∀ field orders, ordersHighestFirst data field = .ok orders →
        ∀ target paths, (movePlan orders target paths).isSome ∧ (removePlan orders paths).isSome :=
  ⟨edits_moveTracks host s data, edits_removeTracks host s data,
    fun _ _ h target paths => plans_isSome h target paths⟩

example : movePlan [3, 1] 2 ["a", "b", "c", "d"] = some (.ok ["a", "c", "b", "d"]) := rfl

example : removePlan [3, 0] ["a", "b", "c", "d"] = some (.ok ["b", "c"]) := rfl

end Mbrc.CommandsV6
