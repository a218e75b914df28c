import Mathlib.Data.List.Chain
import MbrcPlugin.Permissions.RoleWrites
import MbrcPlugin.Server.SessionV6

/-!
# What a watched client was told last

A client is told its permissions once, by the handshake's reply or by the capabilities route, and a
watch tells it every change from then on.  The watch compares what the client may do with what the
watch takes it to have been told, so the two have to agree when it starts.  The WebSocket sends its
reply and then starts the watch from it.  A TCP connection starts the watch before the reply is
queued, and an event stream starts one from what the client may do by then, whatever the
capabilities route answered before.

Whenever no change is under way and the watch waits, the last permissions the client heard are its
permissions, in the runs where those two starts find what the first answer told (`told_last`).
-/

namespace Mbrc.Permissions

open Server

/-! ## Permissions as they are told -/

/-- The object that the handshake, the capabilities route and `permissions_changed` carry. -/
structure ToldPermissions where
  partyMode : Bool
  role : String
  allowed : List String
  maxTracksPerAdd : Option Nat
  deriving DecidableEq

/-- With Party Mode off every client is told it is the host. -/
def hostPermissions : ToldPermissions where
  partyMode := false
  role := Role.host.asStr
  allowed := Capability.all.map Capability.asStr
  maxTracksPerAdd := none

def rolePermissions (role : Role) : ToldPermissions where
  partyMode := true
  role := role.asStr
  allowed := role.capabilities.map Capability.asStr
  maxTracksPerAdd := role.maxTracksPerAdd

/-- `PartyMode::permissions`, with nothing changing meanwhile. -/
def permissions (enabled : Bool) (role : Role) : ToldPermissions :=
  if enabled then rolePermissions role else hostPermissions

/-- Returns every paired browser to the default role. -/
def Roles.unassignBrowsers (r : Roles) : Roles :=
  { assigned := r.assigned.eraseAll r.browserKeys, stored := r.stored.eraseAll r.browserKeys }

/-! ## A client and its watch -/

inductive Transport where
  | tcp | webSocket | eventStream
  deriving DecidableEq

/-- How far the client has come. -/
inductive Stage where
  | unanswered
  /-- The handshake or the capabilities route has read the permissions of its answer. -/
  | answering (told : ToldPermissions)
  | answered (told : ToldPermissions)
  /-- An event stream has read the permissions its watch is to start from. -/
  | opened (told : ToldPermissions)
  /-- Its watch runs; `owed` is the handshake's reply while that is still to be queued. -/
  | watched (watch : Watch ToldPermissions) (owed : Option ToldPermissions)
  deriving DecidableEq

structure WatchedClient where
  enabled : Bool
  roles : Roles
  /-- Changes made whose bump of the counter is still to come. -/
  pending : Nat
  changes : Nat
  stage : Stage
  /-- The read of the permissions under way has found Party Mode on. -/
  reading : Bool
  /-- The receiver of the client's channel is there. -/
  isOpen : Bool
  /-- The permissions the client was told, in the order they were queued for it. -/
  heard : List ToldPermissions
  /-- The messages of its watch. -/
  sent : List ToldPermissions

inductive WatchEvent where
  | setEnabled (enabled : Bool)
  | assignRole (principal : Principal) (role : Role)
  | unassignRole (principal : Principal)
  | unassignBrowsers
  /-- A change bumps the counter. -/
  | changed
  /-- Whoever is to read the permissions reads the switch, or the role after it. -/
  | read
  /-- The first answer is queued for the client. -/
  | answer
  | subscribe
  /-- The watch leaves its select; `closes` where it saw the channel closed. -/
  | wake (closes : Bool)
  | drop
  deriving DecidableEq

namespace WatchedClient

variable (principal : Principal) (transport : Transport)

/-- What the client may do now. -/
def current (s : WatchedClient) : ToldPermissions :=
  permissions s.enabled (s.roles.roleOf principal)

/-- Somebody is to read the client's permissions. -/
def reads (s : WatchedClient) : Bool :=
  match s.stage with
  | .unanswered | .watched (.checking _ _) _ => true
  | .answered _ => transport = .eventStream
  | _ => false

/-- What a read returns with its next step: the switch is read first, the role where it is on. -/
def returned (s : WatchedClient) : Option ToldPermissions :=
  if s.reading then some (rolePermissions (s.roles.roleOf principal))
  else if s.enabled then none
  else some hostPermissions

/-- What is done with the permissions once they are read. -/
def use (s : WatchedClient) (now : ToldPermissions) : WatchedClient :=
  match s.stage with
  | .unanswered => { s with stage := .answering now, reading := false }
  | .answered _ => { s with stage := .opened now, reading := false }
  | .watched watch owed =>
    match watch.step now s.changes s.isOpen false with
    | some (watch', tells) =>
      { s with stage := .watched watch' owed, reading := false, heard := s.heard ++ tells
               sent := s.sent ++ tells }
    | none => s
  | _ => s

/-- The watch subscribes to the counter and is spawned. -/
def watch (s : WatchedClient) (told : ToldPermissions) (owed : Option ToldPermissions) :
    WatchedClient :=
  { s with stage := .watched (.checking told s.changes) owed, reading := false }

def step (s : WatchedClient) : WatchEvent → Option WatchedClient
  | .setEnabled enabled =>
    if s.enabled = enabled then some s else some { s with enabled, pending := s.pending + 1 }
  | .assignRole other role =>
    match s.roles.assign other role with
    | (roles, true) => some { s with roles, pending := s.pending + 1 }
    | (_, false) => some s
  | .unassignRole other =>
    some { s with roles := s.roles.unassign other, pending := s.pending + 1 }
  | .unassignBrowsers =>
    some { s with roles := s.roles.unassignBrowsers, pending := s.pending + 1 }
  | .changed =>
    if 0 < s.pending then some { s with pending := s.pending - 1, changes := s.changes + 1 }
    else none
  | .read =>
    if s.reads transport then
      match s.returned principal with
      | some now => some (s.use now)
      | none => some { s with reading := true }
    else none
  | .answer =>
    match transport, s.stage with
    | .tcp, .watched watch (some told) =>
      some { s with stage := .watched watch none, heard := s.heard ++ [told] }
    | .webSocket, .answering told | .eventStream, .answering told =>
      some { s with stage := .answered told, heard := s.heard ++ [told] }
    | _, _ => none
  | .subscribe =>
    match transport, s.stage with
    | .tcp, .answering told => some (s.watch told (some told))
    | .webSocket, .answered told => some (s.watch told none)
    | .eventStream, .opened told => some (s.watch told none)
    | _, _ => none
  | .wake closes =>
    match s.stage with
    | .watched (.waiting told seen) owed =>
      (Watch.step (.waiting told seen) told s.changes s.isOpen closes).map fun (watch, _) =>
        { s with stage := .watched watch owed, reading := false }
    | _ => none
  | .drop => some { s with isOpen := false }

example (s : WatchedClient) :
    s.step principal transport .unassignBrowsers =
      some { s with roles := s.roles.unassignBrowsers, pending := s.pending + 1 } := by
  simp only [step]

/-- Nobody has been told anything; changes may be under way. -/
def system : Transition.System WatchedClient WatchEvent where
  start s := s.stage = .unanswered ∧ s.sent = [] ∧ s.heard = []
  next := step principal transport

/-- **What is promised**: whenever no change is under way and the watch waits with nothing to wake
it, its client has heard its permissions last, and no message of the watch repeats the one
before. -/
structure ToldLast (s : WatchedClient) : Prop where
  last : ∀ told, s.pending = 0 → s.stage = .watched (.waiting told s.changes) none →
    s.heard.getLast? = some (s.current principal)
  distinct : s.sent.IsChain (· ≠ ·)

/-- Where a stream opens, and where a watch compares before the handshake's reply is queued, the
permissions read are those of the first answer. -/
def Unmoved (s : WatchedClient) : WatchEvent → Prop
  | .read => ∀ now, s.returned principal = some now →
      match s.stage with
      | .answered told | .watched (.checking told _) (some _) => now = told
      | _ => True
  | _ => True

/-! ## The invariant -/

/-- A change is to come that a watch which has seen this much of the counter wakes for. -/
def Behind (s : WatchedClient) (seen : Nat) : Prop := 0 < s.pending ∨ seen ≠ s.changes

/-- What a running watch was started from and has told since. -/
structure Tells (s : WatchedClient) (told : ToldPermissions) (seen : Nat)
    (owed : Option ToldPermissions) : Prop where
  seen : seen ≤ s.changes
  heard : owed = none → s.heard.getLast? = some told
  owed : ∀ reply ∈ owed, reply = told
  sent : ∀ message ∈ s.sent.getLast?, message = told

/-- What holds at a stage. -/
def Holds (s : WatchedClient) : Stage → Prop
  | .unanswered | .answering _ => s.sent = []
  | .answered told | .opened told => s.sent = [] ∧ s.heard.getLast? = some told
  | .watched (.checking told seen) owed =>
    s.Tells told seen owed ∧ (s.reading = true → s.enabled = true ∨ s.Behind seen)
  | .watched (.waiting told seen) owed =>
    s.Tells told seen owed ∧ (told = s.current principal ∨ s.Behind seen)
  | .watched _ _ => True

structure Inv (s : WatchedClient) : Prop where
  holds : s.Holds principal s.stage
  distinct : s.sent.IsChain (· ≠ ·)

variable {principal transport} {s s' : WatchedClient}

theorem Inv.toldLast (h : s.Inv principal) : s.ToldLast principal := by
  refine ⟨fun told hpending hstage => ?_, h.distinct⟩
  have hw := h.holds
  rw [hstage] at hw
  obtain ⟨htells, hcurrent | hpend | hseen⟩ := hw
  · rw [htells.heard rfl, hcurrent]
  · omega
  · exact absurd rfl hseen

/-- **A change** leaves every watch something to wake for. -/
theorem Inv.change (h : s.Inv principal) (hstage : s'.stage = s.stage)
    (hheard : s'.heard = s.heard) (hsent : s'.sent = s.sent) (hle : s.changes ≤ s'.changes)
    (hbehind : ∀ seen ≤ s.changes, s'.Behind seen) : s'.Inv principal := by
  refine ⟨?_, hsent ▸ h.distinct⟩
  have hw := h.holds
  have htells : ∀ {told seen owed}, s.Tells told seen owed → s'.Tells told seen owed :=
    fun ht => ⟨ht.seen.trans hle, hheard ▸ ht.heard, ht.owed, hsent ▸ ht.sent⟩
  rw [hstage]
  cases hcase : s.stage with
  | unanswered | answering told =>
    rw [hcase] at hw
    exact hsent.trans hw
  | answered told | opened told =>
    rw [hcase] at hw
    exact ⟨hsent.trans hw.1, hheard ▸ hw.2⟩
  | watched watch owed =>
    rw [hcase] at hw
    cases watch with
    | checking told seen => exact ⟨htells hw.1, fun _ => Or.inr (hbehind seen hw.1.seen)⟩
    | waiting told seen => exact ⟨htells hw.1, Or.inr (hbehind seen hw.1.seen)⟩
    | notStarted | ended => trivial

theorem Inv.pend (h : s.Inv principal) (enabled : Bool) (roles : Roles) :
    Inv principal { s with enabled, roles, pending := s.pending + 1 } :=
  h.change rfl rfl rfl le_rfl fun _ _ => Or.inl (Nat.succ_pos _)

theorem Inv.bump (h : s.Inv principal) :
    Inv principal { s with pending := s.pending - 1, changes := s.changes + 1 } :=
  h.change rfl rfl rfl (Nat.le_succ _) fun _ hseen => Or.inr (by dsimp only; omega)

/-! ## Reads and messages -/

/-- What a read returns is the permissions now, or those of a change the watch will wake for. -/
theorem current_of_returned {now : ToldPermissions} {seen : Nat}
    (hread : s.reading = true → s.enabled = true ∨ s.Behind seen)
    (hreturned : s.returned principal = some now) :
    now = s.current principal ∨ s.Behind seen := by
  rw [returned] at hreturned
  cases hr : s.reading with
  | true =>
    rw [hr, if_pos rfl, Option.some_inj] at hreturned
    refine (hread hr).imp_left fun hon => ?_
    rw [current, hon, ← hreturned]
    rfl
  | false =>
    cases hon : s.enabled with
    | true => simp [hr, hon] at hreturned
    | false =>
      simp only [hr, hon, Bool.false_eq_true, if_false, Option.some_inj] at hreturned
      refine Or.inl ?_
      rw [current, hon, ← hreturned]
      rfl

/-- **A comparison** finds what was told, or tells what it found. -/
theorem Inv.compare {told now : ToldPermissions} {seen : Nat} {owed : Option ToldPermissions}
    (h : s.Inv principal) (hstage : s.stage = .watched (.checking told seen) owed)
    (hreturned : s.returned principal = some now) (howed : owed.isSome → now = told) :
    (s.use now).Inv principal := by
  have hw := h.holds
  rw [hstage] at hw
  obtain ⟨htells, hread⟩ := hw
  have hcurrent := current_of_returned hread hreturned
  simp only [use, hstage]
  cases hs : Watch.step (.checking told seen) now s.changes s.isOpen false with
  | none => exact h
  | some result =>
    obtain ⟨watch', tells⟩ := result
    rcases Watch.step_cases hs with
      ⟨_, _, ⟨⟩, hsame, ⟨⟩⟩ | ⟨_, _, ⟨⟩, hne, -, ⟨⟩⟩ | ⟨-, -, ⟨⟩⟩ | ⟨_, _, hnot, -⟩
    · simp only [List.append_nil]
      exact ⟨⟨⟨htells.seen, htells.heard, htells.owed, htells.sent⟩, hsame ▸ hcurrent⟩, h.distinct⟩
    · have hnone : owed = none := by
        cases owed with
        | none => rfl
        | some reply => exact absurd (howed rfl) hne
      subst hnone
      refine ⟨⟨⟨htells.seen, fun _ => by simp, by simp, by simp⟩, hcurrent⟩, ?_⟩
      refine List.isChain_append.mpr ⟨h.distinct, List.isChain_singleton now, ?_⟩
      rintro message hmessage _ ⟨⟩
      rw [htells.sent message hmessage]
      exact hne.symm
    · exact ⟨trivial, by simpa using h.distinct⟩
    · cases hnot

theorem Inv.read (h : s.Inv principal) (hunmoved : s.Unmoved principal .read)
    (hs : s.step principal transport .read = some s') : s'.Inv principal := by
  simp only [step] at hs
  split at hs
  case isFalse => cases hs
  case isTrue hreads =>
    cases hreturned : s.returned principal with
    | none =>
      rw [hreturned, Option.some_inj] at hs
      subst hs
      -- only the switch was read, and it is on
      have hon : s.enabled = true := by
        by_contra hoff
        cases hr : s.reading <;> simp [returned, hr, hoff] at hreturned
      refine ⟨?_, h.distinct⟩
      have hw := h.holds
      cases hcase : s.stage with
      | unanswered | answering told | answered told | opened told =>
        rw [hcase] at hw
        exact hw
      | watched watch owed =>
        rw [hcase] at hw
        cases watch with
        | checking told seen =>
          exact ⟨⟨hw.1.seen, hw.1.heard, hw.1.owed, hw.1.sent⟩, fun _ => Or.inl hon⟩
        | waiting told seen => exact ⟨⟨hw.1.seen, hw.1.heard, hw.1.owed, hw.1.sent⟩, hw.2⟩
        | notStarted | ended => trivial
    | some now =>
      rw [hreturned, Option.some_inj] at hs
      subst hs
      have hsame := hunmoved now hreturned
      have hw := h.holds
      cases hcase : s.stage with
      | unanswered =>
        rw [hcase] at hw
        simp only [use, hcase]
        exact ⟨hw, h.distinct⟩
      | answering told | opened told => simp [reads, hcase] at hreads
      | answered told =>
        rw [hcase] at hw hsame
        simp only [use, hcase]
        exact ⟨⟨hw.1, hsame ▸ hw.2⟩, h.distinct⟩
      | watched watch owed =>
        cases watch with
        | checking told seen =>
          refine h.compare hcase hreturned fun hsome => ?_
          obtain ⟨reply, rfl⟩ := Option.isSome_iff_exists.mp hsome
          rw [hcase] at hsame
          exact hsame
        | waiting told seen | notStarted | ended => simp [reads, hcase] at hreads

theorem Inv.answer (h : s.Inv principal) (hs : s.step principal transport .answer = some s') :
    s'.Inv principal := by
  have hw := h.holds
  simp only [step] at hs
  split at hs
  case h_1 watch told hcase =>
    obtain rfl := Option.some.inj hs
    rw [hcase] at hw
    refine ⟨?_, h.distinct⟩
    cases watch with
    | checking told' seen =>
      obtain rfl := hw.1.owed told rfl
      exact ⟨⟨hw.1.seen, fun _ => by simp, by simp, hw.1.sent⟩, hw.2⟩
    | waiting told' seen =>
      obtain rfl := hw.1.owed told rfl
      exact ⟨⟨hw.1.seen, fun _ => by simp, by simp, hw.1.sent⟩, hw.2⟩
    | notStarted | ended => trivial
  case h_4 => cases hs
  all_goals
    rename_i hcase
    obtain rfl := Option.some.inj hs
    rw [hcase] at hw
    exact ⟨⟨hw, by simp⟩, h.distinct⟩

theorem Inv.watch {told : ToldPermissions} {owed : Option ToldPermissions} (h : s.Inv principal)
    (hsent : s.sent = []) (hheard : owed = none → s.heard.getLast? = some told)
    (howed : ∀ reply ∈ owed, reply = told) : (s.watch told owed).Inv principal := by
  refine ⟨⟨⟨le_rfl, hheard, howed, ?_⟩, by simp [WatchedClient.watch]⟩, h.distinct⟩
  rw [show (s.watch told owed).sent = s.sent from rfl, hsent]
  simp

theorem Inv.subscribe (h : s.Inv principal)
    (hs : s.step principal transport .subscribe = some s') : s'.Inv principal := by
  have hw := h.holds
  simp only [step] at hs
  split at hs
  case h_4 => cases hs
  case h_1 told hcase =>
    obtain rfl := Option.some.inj hs
    rw [hcase] at hw
    exact h.watch hw (by simp) (by simp)
  all_goals
    rename_i told hcase
    obtain rfl := Option.some.inj hs
    rw [hcase] at hw
    exact h.watch hw.1 (fun _ => hw.2) (by simp)

theorem Inv.wake {closes : Bool} (h : s.Inv principal)
    (hs : s.step principal transport (.wake closes) = some s') : s'.Inv principal := by
  have hw := h.holds
  simp only [step] at hs
  split at hs
  case h_2 => cases hs
  case h_1 told seen owed hcase =>
    rw [hcase] at hw
    obtain ⟨⟨watch', tells⟩, hstep, rfl⟩ := Option.map_eq_some_iff.mp hs
    rcases Watch.step_cases hstep with
      ⟨_, _, hnot, -⟩ | ⟨_, _, hnot, -⟩ | ⟨-, -, ⟨⟩⟩ | ⟨_, _, ⟨⟩, -, ⟨⟩⟩
    · cases hnot
    · cases hnot
    · exact ⟨trivial, h.distinct⟩
    · exact ⟨⟨⟨le_rfl, hw.1.heard, hw.1.owed, hw.1.sent⟩, by simp⟩, h.distinct⟩

theorem inv_step {event : WatchEvent} (h : s.Inv principal) (hu : s.Unmoved principal event)
    (hs : s.step principal transport event = some s') : s'.Inv principal := by
  cases event with
  | setEnabled enabled =>
    simp only [step] at hs
    split at hs <;> obtain rfl := Option.some.inj hs
    · exact h
    · exact h.pend enabled s.roles
  | assignRole other role =>
    simp only [step] at hs
    split at hs <;> obtain rfl := Option.some.inj hs
    · exact h.pend s.enabled _
    · exact h
  | unassignRole other =>
    obtain rfl := Option.some.inj hs
    exact h.pend s.enabled _
  | unassignBrowsers =>
    obtain rfl := Option.some.inj hs
    exact h.pend s.enabled _
  | changed =>
    simp only [step] at hs
    split at hs
    · obtain rfl := Option.some.inj hs
      exact h.bump
    · cases hs
  | read => exact h.read hu hs
  | answer => exact h.answer hs
  | subscribe => exact h.subscribe hs
  | wake closes => exact h.wake hs
  | drop =>
    obtain rfl := Option.some.inj hs
    refine ⟨?_, h.distinct⟩
    have hw := h.holds
    cases hcase : s.stage with
    | unanswered | answering told | answered told | opened told =>
      rw [hcase] at hw
      exact hw
    | watched watch owed =>
      rw [hcase] at hw
      cases watch with
      | checking told seen | waiting told seen =>
        exact ⟨⟨hw.1.seen, hw.1.heard, hw.1.owed, hw.1.sent⟩, hw.2⟩
      | notStarted | ended => trivial

theorem Inv.start (h : (system principal transport).start s) : s.Inv principal := by
  obtain ⟨hstage, hsent, -⟩ := h
  refine ⟨?_, by simp [hsent]⟩
  rw [hstage]
  exact hsent

/-- **A watched client was told its permissions last**, in every run in which a stream opens, and a
watch compares ahead of the handshake's reply, on the permissions of the first answer. -/
theorem told_last {s₀ : WatchedClient} {events : List WatchEvent}
    (h₀ : (system principal transport).start s₀)
    (hunmoved : (system principal transport).Along (Unmoved principal) s₀ events)
    (hrun : (system principal transport).exec s₀ events = some s) : s.ToldLast principal :=
  ((system principal transport).exec_induction (fun _ _ _ => inv_step) (Inv.start h₀) hunmoved
    hrun).toldLast

/-- The condition, computed. -/
def unmoved (principal : Principal) (s : WatchedClient) : WatchEvent → Bool
  | .read => (s.returned principal).all fun now =>
      match s.stage with
      | .answered told | .watched (.checking told _) (some _) => now = told
      | _ => true
  | _ => true

theorem unmoved_of_unmoved {event : WatchEvent} (h : s.unmoved principal event = true) :
    s.Unmoved principal event := by
  cases event with
  | read =>
    intro now hnow
    rw [unmoved, hnow, Option.all_some] at h
    split
    case h_3 => trivial
    all_goals
      rename_i hstage
      rw [hstage] at h
      exact of_decide_eq_true h
  | _ => trivial

/-- Party Mode is on and nobody holds a role. -/
def newcomer : WatchedClient where
  enabled := true
  roles := { assigned := Table.empty, stored := Table.empty }
  pending := 0
  changes := 0
  stage := .unanswered
  reading := false
  isOpen := true
  heard := []
  sent := []

/-- An app completes its handshake and is made a DJ afterwards. -/
def promoted : List WatchEvent :=
  [.read, .read, .subscribe, .read, .read, .answer, .assignRole (.app "phone") .dj, .changed,
    .wake false, .read, .read]

theorem told_last_promoted : ∃ s,
    (system (.app "phone") .tcp).exec newcomer promoted = some s ∧ s.ToldLast (.app "phone") ∧
      s.heard = [rolePermissions .guest, rolePermissions .dj] := by
  have hrun : ((system (.app "phone") .tcp).exec newcomer promoted).any (fun s =>
      s.heard = [rolePermissions .guest, rolePermissions .dj]) = true := by decide +kernel
  have hguard : (system (.app "phone") .tcp).checked (unmoved (.app "phone")) newcomer promoted =
      true := by decide +kernel
  obtain ⟨s, hexec, hheard⟩ := (Option.any_eq_true _ _).mp hrun
  exact ⟨s, hexec, told_last ⟨rfl, rfl, rfl⟩
    ((system (.app "phone") .tcp).along_of_checked (fun _ _ => unmoved_of_unmoved) hguard) hexec,
    of_decide_eq_true hheard⟩

/-- A browser is made a DJ between the capabilities route's answer and its event stream. -/
def missed : List WatchEvent :=
  [.read, .read, .answer, .assignRole (.browser "tablet") .dj, .changed, .read, .read, .subscribe,
    .read, .read]

/-- An app is made a DJ during its handshake, and its watch tells it so ahead of the reply. -/
def overtaken : List WatchEvent :=
  [.read, .read, .assignRole (.app "phone") .dj, .changed, .subscribe, .read, .read, .answer]

/-- **A stream that never tells, and a reply that comes last**: both clients take themselves for
guests, with no change under way and both watches waiting. -/
theorem told_too_little :
    (∃ s, (system (.browser "tablet") .eventStream).Reachable s ∧
      ¬ s.ToldLast (.browser "tablet")) ∧
    ∃ s, (system (.app "phone") .tcp).Reachable s ∧ ¬ s.ToldLast (.app "phone") := by
  have hmissed : ((system (.browser "tablet") .eventStream).exec newcomer missed).any (fun s =>
      s.pending = 0 ∧ s.stage = .watched (.waiting (rolePermissions .dj) s.changes) none ∧
        s.heard.getLast? ≠ some (s.current (.browser "tablet"))) = true := by decide +kernel
  have hovertaken : ((system (.app "phone") .tcp).exec newcomer overtaken).any (fun s =>
      s.pending = 0 ∧ s.stage = .watched (.waiting (rolePermissions .dj) s.changes) none ∧
        s.heard.getLast? ≠ some (s.current (.app "phone"))) = true := by decide +kernel
  obtain ⟨s, hexec, hs⟩ := (Option.any_eq_true _ _).mp hmissed
  obtain ⟨t, hexec', ht⟩ := (Option.any_eq_true _ _).mp hovertaken
  obtain ⟨hpending, hstage, hlast⟩ := of_decide_eq_true hs
  obtain ⟨hpending', hstage', hlast'⟩ := of_decide_eq_true ht
  exact ⟨⟨s, ⟨newcomer, missed, ⟨rfl, rfl, rfl⟩, hexec⟩,
      fun h => hlast (h.last _ hpending hstage)⟩,
    t, ⟨newcomer, overtaken, ⟨rfl, rfl, rfl⟩, hexec'⟩,
      fun h => hlast' (h.last _ hpending' hstage')⟩

end WatchedClient

end Mbrc.Permissions
