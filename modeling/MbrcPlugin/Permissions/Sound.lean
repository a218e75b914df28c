import MbrcPlugin.Permissions.SoundV4
import MbrcPlugin.Permissions.SoundV6

/-!
# The gate is sound

Whatever a request carries and however the host answers, what a session does with it is what the
role of its client may do.
-/

namespace Mbrc.Permissions

open Interaction Providers

variable {σ : Type}

/-! ## Permitted requests -/

/-- The host may do everything. -/
theorem allowed_host (commands : List Command) : Allowed .host commands where
  held c _ := Role.mem_capabilities_host (capabilityOf c)
  tracks max hmax := by simp [Role.maxTracksPerAdd] at hmax

theorem allowed_nil (role : Role) : Allowed role [] where
  held _ hc := absurd hc List.not_mem_nil
  tracks max _ := Nat.zero_le max

/-- A request that passes is permitted, or comes from the host. -/
theorem check_eq_ok {role : Role} {op : String} {action : Option Action}
    (h : check true role op action = .ok ()) :
    role = .host ∨ ∃ a, action = some a ∧ role.permits a = true := by
  unfold check at h
  cases action with
  | none =>
    left
    by_contra hrole
    simp [hrole] at h
  | some a =>
    right
    refine ⟨a, rfl, ?_⟩
    by_contra hpermits
    simp [hpermits] at h

/-! ## Refusals -/

/-- A handler that only reads makes no command. -/
theorem Covered.reads_nothing {ε α : Type} {h : Fallible Answer ε α} (hc : Covered .read h) :
    h.Within (OnCommands fun _ => False) := by
  apply hc.commands.mono
  intro call hcall
  cases call with
  | command c =>
    obtain ⟨capability, haction, -⟩ := hcall
    simp [Action.capability] at haction
  | query q => trivial
  | reading r => trivial

/-- Without a value every get-or-set context is a query. -/
theorem getOrSet_null : ∀ context ∈ V4.getOrSet, V4.action context .null = some .read := by
  decide +kernel

theorem within_refusalReplies (ctx : Commands.Ctx) (context : String) :
    (Session.refusalReplies ctx context).Within (OnCommands fun _ => False) := by
  unfold Session.refusalReplies
  apply Fallible.Within.ite
  · intro hcontext
    cases hd : Commands.dispatch ctx context .null with
    | none => trivial
    | some query =>
      have hquery := (V4.covered_dispatch (getOrSet_null context hcontext) hd).reads_nothing
      exact Fallible.Within.tryCatch (hquery.bind fun _ => trivial) fun _ => trivial
  · intro _
    trivial

theorem refusalReplies_commands (ctx : Commands.Ctx) (context : String)
    (host : σ → (c : Call) → Answer c × σ) (s : σ) :
    commands host (Session.refusalReplies ctx context) s = [] := by
  apply List.eq_nil_iff_forall_not_mem.mpr
  exact within_commands (within_refusalReplies ctx context) host s

/-! ## Sessions -/

/-- A program that makes no command does what any role may do. -/
theorem allowed_of_within {ε α : Type} {h : Fallible Answer ε α}
    (hnone : h.Within (OnCommands fun _ => False)) (role : Role)
    (host : σ → (c : Call) → Answer c × σ) (s : σ) : Allowed role (commands host h s) := by
  rw [List.eq_nil_iff_forall_not_mem.mpr (within_commands hnone host s)]
  exact allowed_nil role

theorem dispatchCommand_allowed (role : Role) (ctx : Commands.Ctx) (context : String)
    (data : Value) (host : σ → (c : Call) → Answer c × σ) (s : σ) :
    Allowed role (commands host (Session.dispatchCommand ⟨true, role⟩ ctx context data) s) := by
  unfold Session.dispatchCommand
  cases hcheck : check true role context (V4.action context data) with
  | error refusal => exact allowed_of_within (within_refusalReplies ctx context) role host s
  | ok _ =>
    cases hd : Commands.dispatch ctx context data with
    | none => exact allowed_nil role
    | some handler =>
      rcases check_eq_ok hcheck with rfl | ⟨action, ha, hpermits⟩
      · exact allowed_host _
      · exact (V4.covered_dispatch ha hd).allowed hpermits host s

theorem dispatchOp_allowed (role : Role) (listVersion : Nat) (op : String) (data : Value)
    (pair : Except V6Error Value) (host : σ → (c : Call) → Answer c × σ) (s : σ) :
    Allowed role (commands host (Session.dispatchOp ⟨true, role⟩ listVersion op data pair) s) := by
  unfold Session.dispatchOp
  by_cases hping : op = "ping"
  · simp only [hping, if_true]
    exact allowed_nil role
  by_cases hpair : op = "pair"
  · simp only [hpair, if_true]
    exact allowed_of_within ((Fallible.within_check pair).mpr trivial) role host s
  simp only [hping, hpair, if_false]
  cases hcheck : check true role op (V6.action op data) with
  | error refusal => exact allowed_nil role
  | ok _ =>
    cases hd : CommandsV6.dispatch listVersion op data with
    | none => exact allowed_nil role
    | some handler =>
      rcases check_eq_ok hcheck with rfl | ⟨action, ha, hpermits⟩
      · exact allowed_host _
      · exact (V6.covered_dispatch ha hd).allowed hpermits host s

/-! ## The gate -/

/-- Nothing but appends, of one track in all. -/
def AppendsOne (commands : List Command) : Prop :=
  (∀ c ∈ commands, ∃ files play, c = .queue .last files play) ∧
    (commands.map tracksQueued).sum ≤ 1

theorem Allowed.appendsOne {commands : List Command} (h : Allowed .guest commands) :
    AppendsOne commands :=
  ⟨h.guest_appends, h.tracks 1 rfl⟩

/-- **The gate is sound.**  Whatever the op or context and the data are and whatever the host
answers, a session makes the commands its client's role may make; for a guest these append one
track at most, and what answers a refused context makes none. -/
theorem gate_sound (host : σ → (c : Call) → Answer c × σ) (s : σ) :
    (∀ (role : Role) (ctx : Commands.Ctx) (context : String) (data : Value),
      Allowed role (commands host (Session.dispatchCommand ⟨true, role⟩ ctx context data) s)) ∧
    (∀ (role : Role) (listVersion : Nat) (op : String) (data : Value)
        (pair : Except V6Error Value),
      Allowed role
        (commands host (Session.dispatchOp ⟨true, role⟩ listVersion op data pair) s)) ∧
    (∀ (ctx : Commands.Ctx) (context : String) (data : Value),
      AppendsOne (commands host (Session.dispatchCommand ⟨true, .guest⟩ ctx context data) s)) ∧
    (∀ (listVersion : Nat) (op : String) (data : Value) (pair : Except V6Error Value),
      AppendsOne
        (commands host (Session.dispatchOp ⟨true, .guest⟩ listVersion op data pair) s)) ∧
    (∀ (ctx : Commands.Ctx) (context : String),
      commands host (Session.refusalReplies ctx context) s = []) := by
  refine ⟨?_, ?_, ?_, ?_, ?_⟩
  · intro role ctx context data
    exact dispatchCommand_allowed role ctx context data host s
  · intro role listVersion op data pair
    exact dispatchOp_allowed role listVersion op data pair host s
  · intro ctx context data
    exact (dispatchCommand_allowed .guest ctx context data host s).appendsOne
  · intro listVersion op data pair
    exact (dispatchOp_allowed .guest listVersion op data pair host s).appendsOne
  · intro ctx context
    exact refusalReplies_commands ctx context host s

end Mbrc.Permissions

/-!
# What a check that passes grants

Where a request passes the gate, what its handler does is granted: the standing that the gate found
holds what each command is behind, and the handler queues no more tracks than its role may add.
-/

namespace Mbrc.Permissions

open Interaction Providers

variable {ε α : Type} {st : Standing} {x : Fallible Answer ε α}

/-- With Party Mode off everything is granted, else what the role holds. -/
def Standing.Holds (st : Standing) (c : Command) : Prop :=
  st.partyMode = true → capabilityOf c ∈ st.role.capabilities

/-- How many tracks a request may add, where there is a limit. -/
def Standing.limit (st : Standing) : Option Nat :=
  if st.partyMode = true then st.role.maxTracksPerAdd else none

/-- A program does no more than the standing grants. -/
structure Grants (st : Standing) (x : Fallible Answer ε α) : Prop where
  commands : x.Within (OnCommands st.Holds)
  tracks : ∀ max, st.limit = some max → x.Spends callTracks max

/-! ## Actions that are permitted -/

theorem capability_of_permits {role : Role} {action : Action} {capability : Capability}
    (hpermits : role.permits action = true) (hcapability : action.capability = some capability) :
    capability ∈ role.capabilities := by
  cases action with
  | read => cases hcapability
  | change c =>
    obtain rfl : c = capability := Option.some.inj hcapability
    simpa [Role.permits] using hpermits
  | queue c tracks =>
    obtain rfl : c = capability := Option.some.inj hcapability
    simp only [Role.permits, Bool.and_eq_true, decide_eq_true_eq] at hpermits
    exact hpermits.1

theorem atMost_of_permits {role : Role} {action : Action} {max : Nat}
    (hpermits : role.permits action = true) (hmax : role.maxTracksPerAdd = some max) :
    ∃ n, action.atMost = some n ∧ n ≤ max := by
  cases action with
  | read => exact ⟨0, rfl, Nat.zero_le max⟩
  | change c => exact ⟨0, rfl, Nat.zero_le max⟩
  | queue c tracks =>
    simp only [Role.permits, Bool.and_eq_true, hmax, Option.all_some] at hpermits
    cases tracks with
    | none => simp at hpermits
    | some n => exact ⟨n, rfl, by simpa using hpermits.2⟩

/-! ## Programs that are granted -/

/-- Calls of every kind, where every command is granted. -/
theorem within_onCommands {P : Command → Prop} (hall : ∀ c, P c) :
    x.Within (OnCommands P) := by
  have hwithin : ∀ p : Program Answer (Except ε α), p.Within (OnCommands P) := by
    intro p
    induction p with
    | done a => trivial
    | call call next ih =>
      refine ⟨?_, ih⟩
      cases call with
      | command c => exact hall c
      | query q => trivial
      | reading r => trivial
  exact hwithin x.run

/-- A program that makes no command is granted to everyone. -/
theorem grants_of_silent (h : x.Within (OnCommands fun _ => False)) : Grants st x where
  commands := by
    apply h.mono
    intro call hcall
    cases call with
    | command c => exact hcall.elim
    | query q => trivial
    | reading r => trivial
  tracks max _ := by
    apply Program.Within.spends
    apply h.mono
    intro call hcall
    exact free_of_onCommands hcall

/-- **A request that passes** is granted what its handler does. -/
theorem grants_of_check {op : String} {action : Option Action}
    (hcheck : check st.partyMode st.role op action = .ok ())
    (hc : ∀ a, action = some a → Covered a x) : Grants st x := by
  by_cases hon : st.partyMode = true
  · rw [hon] at hcheck
    rcases check_eq_ok hcheck with hhost | ⟨a, ha, hpermits⟩
    · refine ⟨within_onCommands fun c _ => ?_, fun max hmax => ?_⟩
      · rw [hhost]
        exact Role.mem_capabilities_host _
      · simp [Standing.limit, hhost, Role.maxTracksPerAdd] at hmax
    · refine ⟨(hc a ha).commands.mono fun call hcall => ?_, fun max hmax => ?_⟩
      · cases call with
        | command c =>
          obtain ⟨capability, hcapability, himplies⟩ := hcall
          exact fun _ => himplies st.role (capability_of_permits hpermits hcapability)
        | query q => trivial
        | reading r => trivial
      · rw [Standing.limit, if_pos hon] at hmax
        obtain ⟨n, hn, hle⟩ := atMost_of_permits hpermits hmax
        exact ((hc a ha).tracks n hn).mono hle
  · refine ⟨within_onCommands fun c h => absurd h hon, fun max hmax => ?_⟩
    rw [Standing.limit, if_neg hon] at hmax
    cases hmax

/-- What a V4 session does with a command that may be refused. -/
theorem grants_dispatchCommand (ctx : Commands.Ctx) (context : String) (data : Value) :
    Grants st (Session.dispatchCommand st ctx context data) := by
  unfold Session.dispatchCommand
  cases hcheck : check st.partyMode st.role context (V4.action context data) with
  | error refusal => exact grants_of_silent (within_refusalReplies ctx context)
  | ok passed =>
    cases hd : Commands.dispatch ctx context data with
    | none => exact grants_of_silent trivial
    | some handler => exact grants_of_check hcheck fun a ha => V4.covered_dispatch ha hd

end Mbrc.Permissions
