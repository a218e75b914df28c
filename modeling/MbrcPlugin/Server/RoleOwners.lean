import MbrcPlugin.Server.Installations

/-!
# Who acts under a role

A role that a `pair` gave is exercised by the sessions of the installation that paired.  The roles
are kept by `client_id`, so that takes what a step has to meet to be `Orderly`: when an app pairs,
no session with another token acts for its id and the row of the id is not another's.  From then on
the row keeps the others out: a handshake without a row takes the role away, and one with a row
needs the token.
-/

namespace Mbrc.Installations

open Permissions Clients

/-! ## What is promised -/

/-- A role that a session's `pair` gave was exercised with that session's token. -/
def Owned (w : World) : Prop :=
  ∀ act ∈ w.acts, ∀ token, act.earned = some token → act.token = some token

/-! ## When it holds -/

section

variable (hash : String → String)

/-- The row of an id, if it has one, is of a token. -/
def RowOf (w : World) (id token : String) : Prop :=
  ∀ record, w.identities.get? id = some (some record) → record.tokenHash = hash token

/-- Every session that acts for an id has a token. -/
def Shared (w : World) (id : String) (token : Option String) : Prop :=
  ∀ s ∈ w.sessions, s.principal = some (.app id) → s.token = token

structure RequestOrderly (w : World) (s : Session) (op : String) (data : Value) (moment : Moment) :
    Prop where
  /-- The token that is presented has the hash of one that earned a role only if it is that. -/
  handshake : op = "handshake" → ∀ token, (data.get "client_token").bind Value.asStr = some token →
    ∀ id t, w.earned id = some t → hash token = hash t → token = t
  /-- An app that pairs is alone under its id. -/
  pair : op = "pair" → ∀ id code role, s.principal = some (.app id) →
    data.get "code" = some (.string code) →
      (w.pairing.takeCodeAt code s.peer moment.instant).2 = .ok role →
        Shared w id s.token ∧ ∀ token, s.token = some token → RowOf hash w id token

def Orderly (w : World) : Event → Prop
  | .request n op data moment => ∀ s, w.sessions[n]? = some s →
      RequestOrderly hash w s op data moment
  | _ => True

/-! ## The invariant -/

/-- A session that is an app's has its handshake behind it, and the token of a role of its id. -/
def MayAct (w : World) (s : Session) : Prop :=
  ∀ id, s.principal = some (.app id) → s.handshaked = true ∧ s.token.isSome = true ∧
    ∀ token, w.earned id = some token → s.token = some token

structure Inv (w : World) : Prop where
  owner : ∀ id token, w.earned id = some token → Shared w id (some token)
  row : ∀ id token, w.earned id = some token → RowOf hash w id token
  /-- Only a handshake makes an app of a session. -/
  settled : ∀ s ∈ w.sessions, ∀ id, s.principal = some (.app id) → s.handshaked = true
  /-- An app has a token. -/
  proven : ∀ s ∈ w.sessions, ∀ id, s.principal = some (.app id) → s.token.isSome = true
  acts : Owned w

end

variable {hash : String → String} {w w' : World} {s s' : Session} {n : Nat} {moment : Moment}

/-- Rows are written and roles taken away. -/
theorem Inv.settle {identities : Identities} {roles : Roles} {earned : String → Option String}
    (h : Inv hash w) (hearned : ∀ id token, earned id = some token → w.earned id = some token)
    (hrow : ∀ id token, earned id = some token →
      RowOf hash { w with identities, roles, earned } id token) :
    Inv hash { w with identities, roles, earned } where
  owner id token he := h.owner id token (hearned id token he)
  row := hrow
  settled := h.settled
  proven := h.proven
  acts := h.acts

/-- A session is replaced by one that may act for its id. -/
theorem Inv.set (h : Inv hash w) (hs : MayAct w s) :
    Inv hash { w with sessions := w.sessions.set n s } where
  owner id token he s' hs' hp := by
    rcases List.mem_or_eq_of_mem_set hs' with hold | rfl
    · exact h.owner id token he s' hold hp
    · exact (hs id hp).2.2 token he
  row := h.row
  settled s' hs' id hp := by
    rcases List.mem_or_eq_of_mem_set hs' with hold | rfl
    · exact h.settled s' hold id hp
    · exact (hs id hp).1
  proven s' hs' id hp := by
    rcases List.mem_or_eq_of_mem_set hs' with hold | rfl
    · exact h.proven s' hold id hp
    · exact (hs id hp).2.1
  acts := h.acts

/-- The sessions that are left. -/
theorem Inv.fewer {sessions : List Session} (h : Inv hash w) (hsub : sessions ⊆ w.sessions) :
    Inv hash { w with sessions } where
  owner id token he s hs hp := h.owner id token he s (hsub hs) hp
  row := h.row
  settled s hs := h.settled s (hsub hs)
  proven s hs := h.proven s (hsub hs)
  acts := h.acts

theorem Inv.connect {peer : String} {browser : Option (Option String)} (h : Inv hash w) :
    Inv hash { w with sessions := w.sessions ++ [{ peer, principal := known browser }] } := by
  have happ : ∀ s ∈ w.sessions ++ [({ peer, principal := known browser } : Session)], ∀ id,
      s.principal = some (.app id) → s ∈ w.sessions := by
    intro s hs id hp
    rcases List.mem_append.mp hs with hold | hnew
    · exact hold
    · rw [List.mem_singleton.mp hnew] at hp
      rcases browser with _ | _ | id' <;> simp [known] at hp
  exact ⟨fun id token he s hs hp => h.owner id token he s (happ s hs id hp) hp, h.row,
    fun s hs id hp => h.settled s (happ s hs id hp) id hp,
    fun s hs id hp => h.proven s (happ s hs id hp) id hp, h.acts⟩

/-! ## Handshakes -/

theorem earned_unassign {principal : Principal} {id token : String}
    (h : (w.unassign principal).earned id = some token) :
    principal ≠ .app id ∧ w.earned id = some token := by
  have hif : (if principal = .app id then none else w.earned id) = some token := h
  split at hif
  · simp at hif
  · rename_i hne
    exact ⟨hne, hif⟩

theorem Inv.unassign {principal : Principal} (h : Inv hash w) : Inv hash (w.unassign principal) :=
  h.settle (fun _ _ he => (earned_unassign he).2)
    fun id token he => h.row id token (earned_unassign he).2

/-- What an identity check does to the rows. -/
inductive Identified (hash : String → String) (w : World) (id : String) (token : Option String) :
    World × Identity → Prop where
  /-- There is no store. -/
  | unused (h : w.active = false) : Identified hash w id token (w, .known)
  | refused (h : w.active = true) : Identified hash w id token (w, .refused)
  | known (h : w.active = true) {old record : Clients.Record} {t : String} {now : Int}
    (hold : w.identities.get? id = some (some old)) (htoken : token = some t)
    (hmatch : hash t = old.tokenHash) (hrecord : record.tokenHash = old.tokenHash) :
    Identified hash w id token
      ({ w with identities := store w.roles.stored w.identities id record now }, .known)
  | issued (h : w.active = true) {record : Clients.Record} {fresh : String} {now : Int} :
    Identified hash w id token
      ({ w with identities := store w.roles.stored w.identities id record now }, .issued fresh)

theorem identify_identified (hash : String → String) (w : World) (moment : Moment)
    (hello : Hello) (peer : String) :
    Identified hash w hello.clientId hello.token (w.identify hash hello peer moment) := by
  unfold World.identify
  split
  · rename_i hactive
    unfold Clients.identify
    cases hold : (w.identities.get? hello.clientId).join with
    | none => exact .issued hactive
    | some old =>
      dsimp only
      by_cases hmatch : (hello.token.any fun token => hash token = old.tokenHash) = true
      · rw [if_pos hmatch]
        obtain ⟨t, ht, heq⟩ := (Option.any_eq_true _ _).mp hmatch
        exact .known hactive (Option.join_eq_some_iff.mp hold) ht (of_decide_eq_true heq) rfl
      · rw [if_neg hmatch]
        exact .refused hactive
  · rename_i hactive
    exact .unused (by simpa using hactive)

/-- A row is written that is of the token that earned a role, if one did. -/
theorem Inv.write {id : String} {record : Clients.Record} {now : Int} (h : Inv hash w)
    (hrecord : ∀ token, w.earned id = some token → record.tokenHash = hash token) :
    Inv hash { w with identities := store w.roles.stored w.identities id record now } := by
  refine h.settle (fun _ _ he => he) fun id' token he record' hget => ?_
  dsimp only at hget
  rcases store_le hget with ⟨rfl, heq⟩ | ⟨-, hold⟩
  · obtain rfl := Option.some.inj heq
    exact hrecord token he
  · exact h.row id' token he record' hold

/-- A fresh token takes the role of its id away. -/
theorem Inv.issue {id : String} {record : Clients.Record} {now : Int} (h : Inv hash w) :
    Inv hash (World.unassign
      { w with identities := store w.roles.stored w.identities id record now } (.app id)) := by
  refine h.settle (fun _ _ he => (earned_unassign he).2) fun id' token he record' hget => ?_
  obtain ⟨hne, hearned⟩ := earned_unassign he
  dsimp only at hget
  rcases store_le hget with ⟨rfl, -⟩ | ⟨-, hold⟩
  · exact absurd rfl hne
  · exact h.row id' token hearned record' hold

theorem readHello_token {data : Value} {hello : Hello} (h : readHello data = .ok hello) :
    hello.token = (data.get "client_token").bind Value.asStr := by
  unfold readHello at h
  cases hv : checkVersion data with
  | error e => simp [hv, bind, Except.bind] at h
  | ok _ =>
    cases hid : readClientId data with
    | error e => simp [hv, hid, bind, Except.bind] at h
    | ok id =>
      cases ht : readClientType data with
      | error e => simp [hv, hid, ht, bind, Except.bind] at h
      | ok clientType =>
        simp only [hv, hid, ht, bind, Except.bind, pure, Except.pure] at h
        obtain rfl := Except.ok.inj h
        rfl

/-- A session that comes out of a handshake is an app's only with a token that may act for it. -/
theorem handleHandshake_inv {data : Value} {next : Option Session} {reply : Reply}
    (h : Inv hash w) (hn : w.sessions[n]? = some s) (hs : s.handshaked = false)
    (ho : ∀ token, (data.get "client_token").bind Value.asStr = some token →
      ∀ id t, w.earned id = some t → hash token = hash t → token = t)
    (hstep : w.handleHandshake hash s data moment = (w', next, reply)) :
    Inv hash w' ∧ w'.sessions = w.sessions ∧ ∀ s', next = some s' → MayAct w' s' := by
  have hnot : ∀ id, s.principal ≠ some (.app id) := by
    intro id hp
    rw [h.settled s (List.mem_of_getElem? hn) id hp] at hs
    exact absurd hs (by simp)
  -- the principal is the transport's, or the app's where the store is in use
  have happ : ∀ {active : Bool} {id id' : String},
      some (s.principal.getD (if active then Principal.app id' else .anonymous)) =
        some (.app id) → active = true ∧ id = id' := by
    intro active id id' hp
    cases hprincipal : s.principal with
    | none =>
      rw [hprincipal, Option.getD_none] at hp
      cases active
      · simp at hp
      · exact ⟨rfl, (Principal.app.inj (Option.some.inj hp)).symm⟩
    | some principal =>
      rw [hprincipal, Option.getD_some] at hp
      exact absurd (hprincipal.trans hp) (hnot id)
  unfold World.handleHandshake at hstep
  cases hread : readHello data with
  | error e =>
    rw [hread] at hstep
    obtain ⟨rfl, hnext⟩ := Prod.mk.inj hstep
    obtain ⟨rfl, -⟩ := Prod.mk.inj hnext
    exact ⟨h, rfl, fun s' hs' => absurd hs' (by simp)⟩
  | ok hello =>
    rw [hread] at hstep
    dsimp only at hstep
    have htoken := readHello_token hread
    have hident := identify_identified hash w moment hello s.peer
    generalize w.identify hash hello s.peer moment = out at hident hstep
    cases hident with
    | unused hactive =>
      obtain ⟨rfl, hnext⟩ := Prod.mk.inj hstep
      obtain ⟨rfl, -⟩ := Prod.mk.inj hnext
      refine ⟨h, rfl, ?_⟩
      rintro s' hs' id hp
      obtain rfl := Option.some.inj hs'
      have := (happ hp).1
      simp [hactive] at this
    | refused hactive =>
      obtain ⟨rfl, hnext⟩ := Prod.mk.inj hstep
      obtain ⟨rfl, -⟩ := Prod.mk.inj hnext
      exact ⟨h, rfl, fun s' hs' => absurd hs' (by simp)⟩
    | known hactive hold htok hmatch hrecord =>
      rename_i old record t now
      simp only [Option.isSome_none, Bool.false_eq_true, if_false, Option.none_or] at hstep
      obtain ⟨rfl, hnext⟩ := Prod.mk.inj hstep
      obtain ⟨rfl, -⟩ := Prod.mk.inj hnext
      refine ⟨h.write fun token he => ?_, rfl, ?_⟩
      · rw [hrecord]
        exact h.row _ token he old hold
      · rintro s' hs' id hp
        obtain rfl := Option.some.inj hs'
        obtain rfl := (happ hp).2
        refine ⟨rfl, by simp [htok], fun token he => ?_⟩
        have heq := ho t (by rw [← htoken, htok]) _ token he
          (hmatch.trans (h.row _ token he old hold))
        show hello.token = some token
        rw [htok, heq]
    | issued hactive =>
      rename_i record fresh now
      simp only [Option.isSome_some, if_true] at hstep
      obtain ⟨rfl, hnext⟩ := Prod.mk.inj hstep
      obtain ⟨rfl, -⟩ := Prod.mk.inj hnext
      refine ⟨h.issue, rfl, ?_⟩
      rintro s' hs' id hp
      obtain rfl := Option.some.inj hs'
      obtain rfl := (happ hp).2
      refine ⟨rfl, rfl, fun token he => ?_⟩
      exact absurd rfl (earned_unassign he).1

/-! ## Roles -/

/-- A role is given to an app under whose id nobody else acts, or it is none that was earned. -/
theorem Inv.assign {principal : Principal} {role : Role} {token : Option String} (h : Inv hash w)
    (hshared : ∀ id t, principal = .app id → token = some t →
      Shared w id token ∧ RowOf hash w id t) : Inv hash (w.assign principal role token) := by
  have hearned : ∀ id t, (w.assign principal role token).earned id = some t →
      (principal = .app id ∧ token = some t) ∨ w.earned id = some t := by
    intro id t he
    have hif : (if principal = .app id then token else w.earned id) = some t := he
    split at hif
    · rename_i heq
      exact Or.inl ⟨heq, hif⟩
    · exact Or.inr hif
  refine ⟨fun id t he => ?_, fun id t he => ?_, h.settled, h.proven, h.acts⟩
  · rcases hearned id t he with ⟨hp, ht⟩ | hold
    · rw [← ht]
      exact (hshared id t hp ht).1
    · exact h.owner id t hold
  · rcases hearned id t he with ⟨hp, ht⟩ | hold
    · exact (hshared id t hp ht).2
    · exact h.row id t hold

theorem Inv.setPartyRole {key role : String} (h : Inv hash w) :
    Inv hash (w.setPartyRole key role) := by
  unfold World.setPartyRole
  split
  · split
    · exact h.unassign
    · exact h.assign fun id t _ ht => absurd ht (by simp)
  · exact h

/-- Only the pairing state changes. -/
theorem Inv.pairing {pairing : Pairing.State} (h : Inv hash w) : Inv hash { w with pairing } :=
  ⟨h.owner, h.row, h.settled, h.proven, h.acts⟩

theorem pair_inv {data : Value} {reply : Reply} (h : Inv hash w)
    (ho : RequestOrderly hash w s "pair" data moment)
    (hstep : w.pair s data moment = (w', reply)) : Inv hash w' ∧ w'.sessions = w.sessions := by
  unfold World.pair at hstep
  split at hstep
  · obtain ⟨rfl, -⟩ := Prod.mk.inj hstep
    exact ⟨h, rfl⟩
  · rename_i code hcode
    split at hstep
    · rename_i id hp
      split at hstep
      · rename_i pairing role htake
        obtain ⟨rfl, -⟩ := Prod.mk.inj hstep
        refine ⟨h.pairing.assign ?_, rfl⟩
        rintro id' t heq ht
        obtain rfl := Principal.app.inj heq
        obtain ⟨hshared, hrow⟩ := ho.pair rfl id code role hp hcode (by rw [htake])
        exact ⟨hshared, hrow t ht⟩
      · obtain ⟨rfl, -⟩ := Prod.mk.inj hstep
        exact ⟨h.pairing, rfl⟩
    · obtain ⟨rfl, -⟩ := Prod.mk.inj hstep
      exact ⟨h, rfl⟩
    · obtain ⟨rfl, -⟩ := Prod.mk.inj hstep
      exact ⟨h, rfl⟩
  · obtain ⟨rfl, -⟩ := Prod.mk.inj hstep
    exact ⟨h, rfl⟩

/-- The token whose device a principal is. -/
def earnedBy (w : World) : Principal → Option String
  | .app id => w.earned id
  | _ => none

/-- **The gate.** A session whose request is judged acts with its own token. -/
theorem dispatch_inv {op : String} {data : Value} {reply : Reply} (h : Inv hash w)
    (hs : s ∈ w.sessions) (hstep : w.dispatch s op data = (w', reply)) :
    Inv hash w' ∧ w'.sessions = w.sessions := by
  have hact : ∀ token, earnedBy w (s.principal.getD .anonymous) = some token →
      s.token = some token := by
    intro token he
    cases hp : s.principal.getD .anonymous with
    | app id =>
      rw [hp] at he
      have happ : s.principal = some (.app id) := by
        cases hprincipal : s.principal with
        | none => simp [hprincipal] at hp
        | some principal => rw [← hp, hprincipal, Option.getD_some]
      exact h.owner id token he s hs happ
    | browser id => simp [hp, earnedBy] at he
    | legacyDevice id => simp [hp, earnedBy] at he
    | anonymous => simp [hp, earnedBy] at he
  have hw : w' = w ∨ ∃ act : Act, w' = { w with acts := w.acts ++ [act] } ∧
      ∀ token, act.earned = some token → act.token = some token := by
    unfold World.dispatch at hstep
    dsimp only at hstep
    split at hstep <;> obtain ⟨rfl, -⟩ := Prod.mk.inj hstep <;> split
    · exact Or.inr ⟨_, rfl, hact⟩
    · exact Or.inl rfl
    · exact Or.inr ⟨_, rfl, hact⟩
    · exact Or.inl rfl
  rcases hw with rfl | ⟨act, rfl, hown⟩
  · exact ⟨h, rfl⟩
  · refine ⟨⟨h.owner, h.row, h.settled, h.proven, ?_⟩, rfl⟩
    intro act' hact' token he
    rcases List.mem_append.mp hact' with hold | hnew
    · exact h.acts act' hold token he
    · rw [List.mem_singleton.mp hnew] at he ⊢
      exact hown token he

/-! ## Every run -/

/-- **A request.** -/
theorem handleRequest_inv {op : String} {data : Value} {next : Option Session} {reply : Reply}
    (h : Inv hash w) (hn : w.sessions[n]? = some s) (ho : RequestOrderly hash w s op data moment)
    (hstep : w.handleRequest hash s op data moment = (w', next, reply)) :
    Inv hash w' ∧ w'.sessions = w.sessions ∧ ∀ s', next = some s' → MayAct w' s' := by
  have hmem := List.mem_of_getElem? hn
  -- the session stays as it is
  have hsame : Inv hash w' ∧ w'.sessions = w.sessions → MayAct w' s := by
    rintro ⟨hinv, hsessions⟩ id hp
    refine ⟨h.settled s hmem id hp, h.proven s hmem id hp, fun token he => ?_⟩
    exact hinv.owner id token he s (by rw [hsessions]; exact hmem) hp
  have hkept : ∀ {w₁ : World} {reply₁ : Reply}, Inv hash w₁ ∧ w₁.sessions = w.sessions →
      (w₁, some s, reply₁) = (w', next, reply) → Inv hash w' ∧ w'.sessions = w.sessions ∧
        ∀ s', next = some s' → MayAct w' s' := by
    intro w₁ reply₁ hinv heq
    obtain ⟨rfl, hnext⟩ := Prod.mk.inj heq
    obtain ⟨rfl, -⟩ := Prod.mk.inj hnext
    refine ⟨hinv.1, hinv.2, fun s' hs' => ?_⟩
    obtain rfl := Option.some.inj hs'
    exact hsame hinv
  unfold World.handleRequest at hstep
  split at hstep
  · rename_i hop
    split at hstep
    · exact hkept ⟨h, rfl⟩ hstep
    · rename_i hhandshaked
      exact handleHandshake_inv h hn (by simpa using hhandshaked) (ho.handshake hop) hstep
  · split at hstep
    · split at hstep
      · exact hkept ⟨h, rfl⟩ hstep
      · dsimp only at hstep
        split at hstep
        · rename_i hop
          subst hop
          exact hkept (pair_inv h ho rfl) hstep
        · exact hkept (dispatch_inv h hmem rfl) hstep
    · obtain ⟨rfl, hnext⟩ := Prod.mk.inj hstep
      obtain ⟨rfl, -⟩ := Prod.mk.inj hnext
      exact ⟨h, rfl, fun s' hs' => absurd hs' (by simp)⟩

theorem step_inv {event : Event} (h : Inv hash w) (ho : Orderly hash w event)
    (hstep : step hash w event = some w') : Inv hash w' := by
  cases event with
  | connect peer browser =>
    obtain rfl := Option.some.inj hstep
    exact h.connect
  | request n op data moment =>
    simp only [step, Option.bind_eq_bind, Option.bind_eq_some_iff] at hstep
    obtain ⟨s, hs, hsome⟩ := hstep
    split at hsome <;> rename_i w₁ _ reply heq <;> obtain rfl := Option.some.inj hsome <;>
      obtain ⟨hinv, hsessions, hnext⟩ := handleRequest_inv h hs (ho s hs) heq <;>
      rw [← hsessions]
    · exact hinv.set (hnext _ rfl)
    · exact hinv.fewer fun _ hx => List.mem_of_mem_eraseIdx hx
  | close n =>
    obtain rfl := Option.some.inj hstep
    exact h.fewer fun _ hx => List.mem_of_mem_eraseIdx hx
  | newCode code role instant =>
    obtain rfl := Option.some.inj hstep
    exact h.pairing
  | setPartyRole key role =>
    obtain rfl := Option.some.inj hstep
    exact h.setPartyRole
  | setPartyMode enabled =>
    obtain rfl := Option.some.inj hstep
    exact ⟨h.owner, h.row, h.settled, h.proven, h.acts⟩
  | restart =>
    obtain rfl := Option.some.inj hstep
    have hgone := h.fewer (List.nil_subset w.sessions)
    exact ⟨hgone.owner, hgone.row, hgone.settled, hgone.proven, hgone.acts⟩

theorem initial_inv (active : Bool) (identities : Identities) (roles : Table String String) :
    Inv hash (World.initial active identities roles) where
  owner id token he := by simp [World.initial] at he
  row id token he := by simp [World.initial] at he
  settled s hs := absurd hs List.not_mem_nil
  proven s hs := absurd hs List.not_mem_nil
  acts act hact := absurd hact List.not_mem_nil

/-- **A role belongs to the installation that earned it** in every orderly run. -/
theorem role_owned {active : Bool} {identities : Identities} {roles : Table String String}
    {events : List Event}
    (ho : (system hash).Along (Orderly hash) (World.initial active identities roles) events)
    (hexec : (system hash).exec (World.initial active identities roles) events = some w) :
    Owned w :=
  ((system hash).exec_induction (fun _ _ _ hi hC hn => step_inv hi hC hn)
    (initial_inv active identities roles) ho hexec).acts

def phoneToken : String := "a3a3a3a3a3a3a3a3a3a3a3a3a3a3a3a3a3a3a3a3"

def tabletToken : String := "5c5c5c5c5c5c5c5c5c5c5c5c5c5c5c5c5c5c5c5c"

/-- The hash, as far as the runs below need it. -/
def sha1 (token : String) : String :=
  if token = phoneToken then "17452e96426b61a92adaf952272fda246a8eba75"
  else if token = tabletToken then "8e6fd3444e8950d86693649b8954cbfd37349bf5"
  else "?" ++ token

theorem eq_phoneToken {token : String} (h : sha1 phoneToken = sha1 token) : phoneToken = token := by
  rw [sha1, if_pos rfl, sha1] at h
  split at h
  · rename_i heq
    exact heq.symm
  · split at h
    · exact absurd h (by decide)
    · rw [← String.toList_inj, String.toList_append] at h
      simp at h

def calmRequest (w : World) (s : Session) (op : String) (data : Value) : Bool :=
  -- no other token than those two is presented
  (op ≠ "handshake" || ((data.get "client_token").bind Value.asStr).all (· = phoneToken)) &&
    (op ≠ "pair" || match s.principal with
      | some (.app id) =>
        s.token = some phoneToken &&
          (w.sessions.all fun s' => s'.principal ≠ some (.app id) || s'.token = s.token) &&
          (w.identities.get? id).join.all fun record => record.tokenHash = sha1 phoneToken
      | _ => true)

def calm (w : World) : Event → Bool
  | .request n op data _ => (w.sessions[n]?).all fun s => calmRequest w s op data
  | _ => true

theorem orderly_of_calm (w : World) (event : Event) (h : calm w event = true) :
    Orderly sha1 w event := by
  cases event with
  | request n op data moment =>
    intro s hs
    rw [calm, hs, Option.all_some, calmRequest, Bool.and_eq_true, Bool.or_eq_true,
      Bool.or_eq_true] at h
    obtain ⟨hhandshake, hpair⟩ := h
    constructor
    · rintro rfl token htoken id t he hhash
      rw [htoken] at hhandshake
      obtain rfl : token = phoneToken := by simpa using hhandshake
      exact eq_phoneToken hhash
    · rintro rfl id code role hp hcode htake
      rw [hp] at hpair
      simp only [ne_eq, not_true_eq_false, decide_false, Bool.false_eq_true, false_or,
        Bool.and_eq_true, decide_eq_true_eq, List.all_eq_true, Bool.or_eq_true] at hpair
      obtain ⟨⟨htoken, hall⟩, hrow⟩ := hpair
      refine ⟨fun s' hs' hp' => ?_, fun token ht record hget => ?_⟩
      · rcases hall s' hs' with hne | heq
        · exact absurd hp' hne
        · exact heq
      · rw [hget] at hrow
        obtain rfl := Option.some.inj (ht.symm.trans htoken)
        simpa using hrow
  | _ => trivial

/-- The handshake of an auxiliary connection. -/
def hello (id : String) (token : Option String) : Value :=
  .object ([("protocol_version", .int 6), ("client_id", .string id),
    ("client_type", .string "android"), ("no_broadcast", .bool true)] ++
      (token.map fun token => ("client_token", .string token)).toList)

/-- A request at a time, with a token to issue. -/
def stamp (ms : Int) (fresh : String) : Moment := { ms, instant := 0, fresh }

/-- A phone pairs while Party Mode is on, and comes back with its token. -/
def phoneReturns : List Event :=
  [.connect "192.168.1.20" none, .request 0 "handshake" (hello "phone" none) (stamp 0 phoneToken),
    .setPartyMode true, .newCode "123456" .dj 0,
    .request 0 "pair" (.object [("code", .string "123456")]) (stamp 1 ""), .close 0,
    .connect "192.168.1.20" none,
    .request 0 "handshake" (hello "phone" (some phoneToken)) (stamp 2 ""),
    .request 0 "player_play" (.object []) (stamp 3 "")]

theorem role_owned_phoneReturns :
    ∃ w, (system sha1).exec (World.initial true Table.empty Table.empty) phoneReturns = some w ∧
      w.acts = [{ token := some phoneToken, earned := some phoneToken }] ∧ Owned w := by
  have hrun : ((system sha1).exec (World.initial true Table.empty Table.empty) phoneReturns).any
      (fun w => w.acts = [{ token := some phoneToken, earned := some phoneToken }]) = true := by
    decide +kernel
  have hcalm : (system sha1).checked calm (World.initial true Table.empty Table.empty)
      phoneReturns = true := by decide +kernel
  obtain ⟨w, hexec, hacts⟩ := (Option.any_eq_true _ _).mp hrun
  exact ⟨w, hexec, of_decide_eq_true hacts,
    role_owned ((system sha1).along_of_checked orderly_of_calm hcalm) hexec⟩

/-! ## A row that is pruned while its client is connected -/

/-- A month after its handshake the row of a phone that is still connected is pruned, a tablet is
issued a token for the id, and the phone pairs. -/
def pairsLate : List Event :=
  [.connect "192.168.1.20" none, .request 0 "handshake" (hello "shared" none) (stamp 0 phoneToken),
    .connect "192.168.1.21" none,
    .request 1 "handshake" (hello "other" none) (stamp identityTtlMs "00"),
    .connect "192.168.1.22" none,
    .request 2 "handshake" (hello "shared" none) (stamp (identityTtlMs + 1) tabletToken),
    .setPartyMode true, .newCode "123456" .host 0,
    .request 0 "pair" (.object [("code", .string "123456")]) (stamp (identityTtlMs + 2) ""),
    .request 2 "playlist_delete" (.object []) (stamp (identityTtlMs + 3) "")]

/-- The tablet acts under the role the phone earned. -/
theorem role_borrowed :
    ¬ ∀ active identities roles events w,
      (system sha1).exec (World.initial active identities roles) events = some w → Owned w := by
  intro hall
  have hrun : ((system sha1).exec (World.initial true Table.empty Table.empty) pairsLate).any
      (fun w => w.acts = [{ token := some tabletToken, earned := some phoneToken }]) = true := by
    decide +kernel
  obtain ⟨w, hexec, hacts⟩ := (Option.any_eq_true _ _).mp hrun
  have hown := hall _ _ _ _ w hexec { token := some tabletToken, earned := some phoneToken }
    (by rw [of_decide_eq_true hacts]; exact List.mem_singleton.mpr rfl) phoneToken rfl
  exact absurd hown (by decide)

end Mbrc.Installations
