import MbrcPlugin.Server.IpSlots

/-!
# The sockets an IP keeps open

The task of an accepted connection holds its slot, whatever it turns out to speak: V4, V5 or V6
lines, or HTTP, where one of the requests may ask for an event stream, which the task serves itself,
or for a WebSocket.  The latter gets the socket: the future that serves the connection completes
once the socket is handed over, the task ends and gives its slot back, and another task serves the
socket from then on.  `slots_count_sockets` says that this is where the slots stop counting sockets.
-/

namespace Mbrc.Connections

open Registry

/-! ## Connections that are over -/

section

variable {w w' : World} {n m now : Nat} {c c' d : Conn}

/-- The connections that are over were so before, at the same IP. -/
def KeepsReleased (w w' : World) : Prop :=
  ∀ (m : Nat) (d : Conn), w'.conns[m]? = some d → d.phase = .released →
    ∃ c, w.conns[m]? = some c ∧ c.phase = .released ∧ c.ip = d.ip

theorem KeepsReleased.trans {v : World} (h : KeepsReleased w w') (h' : KeepsReleased w' v) :
    KeepsReleased w v := by
  intro m d hd hphase
  obtain ⟨c, hc, hphase, hip⟩ := h' m d hd hphase
  obtain ⟨b, hb, hphase, hip'⟩ := h m c hc hphase
  exact ⟨b, hb, hphase, hip'.trans hip⟩

theorem keepsReleased_set (hc : w.conns[n]? = some c) (hconns : w'.conns = w.conns.set n c')
    (hip : c'.ip = c.ip) (hphase : c'.phase = .released → c.phase = .released) :
    KeepsReleased w w' := by
  intro m d hd hreleased
  rw [hconns] at hd
  rcases set_getElem? hd with ⟨rfl, rfl⟩ | ⟨-, hd⟩
  · exact ⟨c, hc, hphase hreleased, hip.symm⟩
  · exact ⟨d, hd, hreleased, rfl⟩

theorem keepsReleased_tell (o : Option Nat) : KeepsReleased w (w.tell o) := by
  cases o with
  | none => exact fun m d hd hphase => ⟨d, hd, hphase, rfl⟩
  | some n =>
    cases hc : w.conns[n]? with
    | none =>
      rw [tell_of_none hc]
      exact fun m d hd hphase => ⟨d, hd, hphase, rfl⟩
    | some c =>
      rw [tell_some hc]
      exact keepsReleased_set hc rfl rfl id

/-- A new connection is not over. -/
theorem keepsReleased_push {ip : IpAddr} (h : KeepsReleased w w') (registry : State) :
    KeepsReleased w { w' with registry, conns := w'.conns ++ [({ ip } : Conn)] } := by
  intro m d hd hphase
  have hd : (w'.conns ++ [({ ip } : Conn)])[m]? = some d := hd
  rw [List.getElem?_append] at hd
  split at hd
  case isTrue => exact h m d hd hphase
  case isFalse =>
    obtain rfl := List.mem_singleton.mp (List.mem_of_getElem? hd)
    cases hphase

theorem keepsReleased_accept (ip : IpAddr) : KeepsReleased w (w.accept ip now) := by
  have hself : KeepsReleased w w := fun m d hd hphase => ⟨d, hd, hphase, rfl⟩
  unfold World.accept
  split
  · exact keepsReleased_push hself _
  · refine keepsReleased_push ?_ _
    unfold World.evict
    split
    · exact keepsReleased_tell _
    · exact hself
  · exact hself

theorem keepsReleased_register {reg : RegMeta} {close : Bool} {proto : Proto}
    (hc : w.conns[n]? = some c) :
    KeepsReleased w (w.registerConn n { c with proto } reg close now) := by
  unfold World.registerConn
  dsimp only
  split
  · refine KeepsReleased.trans ?_ (keepsReleased_tell _)
    apply keepsReleased_set hc
    · rfl
    · rfl
    · intro hphase
      cases close <;> simp at hphase
  · apply keepsReleased_set hc
    · rfl
    · rfl
    · exact nofun

/-- A step that ends no task leaves those that are over. -/
theorem step_keepsReleased {e : Event} (h : step w e = some w') (hno : ∀ n, e ≠ .release n) :
    KeepsReleased w w' := by
  cases e with
  | accept ip now =>
    obtain rfl := Option.some.inj h
    exact keepsReleased_accept ip
  | received n now =>
    obtain ⟨c, hc, -, -, rfl⟩ := received_cases h
    exact keepsReleased_set hc rfl rfl id
  | frame n line identity now =>
    obtain ⟨c, hc, -, -, proto, close, -, hcases⟩ := frame_cases h
    rcases hcases with ⟨reg, -, -, rfl⟩ | ⟨-, rfl⟩
    · exact keepsReleased_register hc
    · refine keepsReleased_set hc rfl rfl fun hphase => ?_
      cases close <;> simp at hphase
  | finish n =>
    obtain ⟨c, hc, -, rfl⟩ := finish_cases h
    exact keepsReleased_set hc rfl rfl nofun
  | release n => exact absurd rfl (hno n)

end

end Mbrc.Connections

namespace Mbrc.Sockets

open Registry Connections

/-! ## Requests -/

inductive Path where
  | ws | events | other
  deriving DecidableEq

/-- An HTTP request, as far as it decides who serves the socket next. -/
structure Request where
  path : Path
  /-- Its Host names the server as one on the network does. -/
  knownHost : Bool
  /-- It carries a paired token, or none is asked for. -/
  admitted : Bool
  /-- It asks for an upgrade to a WebSocket. -/
  upgrade : Bool
  deriving DecidableEq

inductive Answer where
  | plain | stream | switching
  deriving DecidableEq

def Request.answer (r : Request) : Answer :=
  if !r.knownHost then .plain
  else
    match r.path with
    | .ws => if r.upgrade && r.admitted then .switching else .plain
    | .events => if r.admitted then .stream else .plain
    | .other => .plain

/-! ## Sockets -/

/-- Who serves the socket of a connection, and how. -/
inductive Service where
  /-- Its first bytes are waited for. -/
  | sniffing
  | lines
  | http
  | streaming
  /-- The answer to an upgrade is written. -/
  | switching
  /-- The task of `on_upgrade` has the socket. -/
  | webSocket
  /-- That task has ended. -/
  | left
  deriving DecidableEq

structure World where
  net : Connections.World
  webEnabled : Bool
  service : Nat → Service

inductive Event where
  | accept (ip : IpAddr) (now : Nat)
  | sniffed (n : Nat) (http : Bool)
  | received (n now : Nat)
  | frame (n : Nat) (line : Line) (identity : Clients.Identity) (now : Nat)
  | request (n : Nat) (r : Request)
  | streamEnded (n : Nat)
  | handOver (n : Nat)
  /-- The task of a WebSocket ends. -/
  | leave (n : Nat)
  /-- The future of a connection completes. -/
  | finish (n : Nat)
  /-- Its task ends, and its slot is given back. -/
  | release (n : Nat)

namespace World

/-- The connection is served by its task, as told. -/
def serves (w : World) (n : Nat) (service : Service) : Bool :=
  (w.net.conns[n]?).any (·.phase = .«open») && w.service n = service

def serve (w : World) (n : Nat) (service : Service) : World :=
  { w with service := Function.update w.service n service }

/-- A step of the connections' tasks and of the registry. -/
def run (w : World) (e : Connections.Event) : Option World :=
  (Connections.step w.net e).map fun net => { w with net }

def step (w : World) : Event → Option World
  | .accept ip now => w.run (.accept ip now)
  | .sniffed n http =>
    if w.serves n .sniffing then
      some (w.serve n (if w.webEnabled && http then .http else .lines))
    else none
  | .received n now => if w.serves n .lines then w.run (.received n now) else none
  | .frame n line identity now =>
    if w.serves n .lines then w.run (.frame n line identity now) else none
  | .request n r =>
    if w.serves n .http then
      some (w.serve n (match r.answer with
        | .plain => .http
        | .stream => .streaming
        | .switching => .switching))
    else none
  | .streamEnded n => if w.serves n .streaming then some (w.serve n .http) else none
  | .handOver n => if w.serves n .switching then some (w.serve n .webSocket) else none
  | .leave n => if w.service n = .webSocket then some (w.serve n .left) else none
  | .finish n => w.run (.finish n)
  | .release n => w.run (.release n)

def system : Transition.System World Event where
  start w := ∃ net webEnabled, Connections.system.start net ∧
    w = { net, webEnabled, service := fun _ => .sniffing }
  next := step

/-! ## What is promised -/

/-- A socket of the IP that is served: by the task of its connection, or by the one that has it
since. -/
def served (w : World) (ip : IpAddr) (conn : Conn × Nat) : Bool :=
  conn.1.ip = ip && (conn.1.phase ≠ .released || w.service conn.2 = .webSocket)

def sockets (w : World) (ip : IpAddr) : Nat := w.net.conns.zipIdx.countP (w.served ip)

/-- The slots of an IP are its sockets. -/
def SlotsMatch (w : World) : Prop :=
  ∀ ip, ip.isLoopback = false → w.net.registry.slots ip = w.sockets ip

/-- A connection's task does not end before the task that it handed its socket to. -/
def SlotKept (w : World) : Event → Prop
  | .release n => ∀ c ∈ w.net.conns[n]?, c.ip.isLoopback = false → w.service n ≠ .webSocket
  | _ => True

instance (w : World) (e : Event) : Decidable (w.SlotKept e) := by
  unfold SlotKept
  split <;> infer_instance

/-- Where an admission finds its IP at the cap, it makes a connection go that was not going. -/
def NewVictim (w : World) : Event → Prop
  | .accept ip now => Connections.NewVictim w.net (.accept ip now)
  | _ => True

/-! ## Slots and sockets -/

variable {w w' : World} {n : Nat}

/-- A socket that another task has since its connection's task ended. -/
def astray (w : World) (ip : IpAddr) (conn : Conn × Nat) : Bool :=
  conn.1.ip = ip && conn.1.phase = .released && w.service conn.2 = .webSocket

theorem sockets_eq (w : World) (ip : IpAddr) :
    w.sockets ip = w.net.conns.countP (Conn.holds ip) +
      w.net.conns.zipIdx.countP (w.astray ip) := by
  have hfst : w.net.conns.countP (Conn.holds ip) =
      w.net.conns.zipIdx.countP (fun conn => Conn.holds ip conn.1) := by
    conv_lhs => rw [← List.zipIdx_map_fst 0 w.net.conns, List.countP_map]
    rfl
  rw [hfst]
  unfold sockets
  apply countP_split
  · intro conn
    unfold served Conn.holds astray
    cases decide (conn.1.ip = ip) <;> by_cases hphase : conn.1.phase = .released <;> simp [hphase]
  · intro conn
    unfold Conn.holds astray
    by_cases hphase : conn.1.phase = .released <;> simp [hphase]

/-- No socket of a foreign IP is astray. -/
def Held (w : World) : Prop :=
  ∀ n c, w.net.conns[n]? = some c → c.ip.isLoopback = false → c.phase = .released →
    w.service n ≠ .webSocket

theorem slotsMatch_iff (h : Connections.Inv False w.net) : w.SlotsMatch ↔ w.Held := by
  constructor
  · intro hmatch n c hc hip hphase hservice
    have hslots := hmatch c.ip hip
    rw [sockets_eq, h.slots c.ip hip] at hslots
    have hzero : w.net.conns.zipIdx.countP (w.astray c.ip) = 0 := by omega
    rw [List.countP_eq_zero] at hzero
    exact hzero (c, n) (List.mem_zipIdx_iff_getElem?.mpr hc) (by simp [astray, hphase, hservice])
  · intro hheld ip hip
    rw [sockets_eq, h.slots ip hip, Nat.left_eq_add, List.countP_eq_zero]
    rintro ⟨c, n⟩ hmem hastray
    have hc : w.net.conns[n]? = some c := List.mem_zipIdx_iff_getElem?.mp hmem
    simp only [astray, Bool.and_eq_true, decide_eq_true_eq] at hastray
    obtain ⟨⟨rfl, hphase⟩, hservice⟩ := hastray
    exact hheld n c hc hip hphase hservice

/-! ## What a step does -/

theorem serves_iff {service : Service} : w.serves n service = true ↔
    (∃ c, w.net.conns[n]? = some c ∧ c.phase = .«open») ∧ w.service n = service := by
  simp [serves, Option.any_eq_true]

theorem run_cases {e : Connections.Event} (h : w.run e = some w') :
    ∃ net, Connections.step w.net e = some net ∧ w' = { w with net } := by
  obtain ⟨net, hnet, heq⟩ := Option.map_eq_some_iff.mp h
  exact ⟨net, hnet, heq.symm⟩

/-- An event of the sockets is one of the connections, or changes who serves a socket; it is handed
over while its connection's task runs. -/
theorem step_cases {e : Event} (h : w.step e = some w') :
    (∃ e' net, Connections.step w.net e' = some net ∧ w' = { w with net } ∧
      (∀ m, e' = .release m ↔ e = .release m) ∧
        ∀ ip now, e' = .accept ip now → e = .accept ip now) ∨
    ∃ m service, w' = w.serve m service ∧ (∀ k, e ≠ .release k) ∧
      (service = .webSocket → ∃ c, w.net.conns[m]? = some c ∧ c.phase = .«open») := by
  have hrun {e' : Connections.Event} (h : w.run e' = some w')
      (hrelease : ∀ m, e' = .release m ↔ e = .release m)
      (haccept : ∀ ip now, e' = .accept ip now → e = .accept ip now) :
      ∃ e' net, Connections.step w.net e' = some net ∧ w' = { w with net } ∧
        (∀ m, e' = .release m ↔ e = .release m) ∧
          ∀ ip now, e' = .accept ip now → e = .accept ip now := by
    obtain ⟨net, hnet, heq⟩ := run_cases h
    exact ⟨e', net, hnet, heq, hrelease, haccept⟩
  cases e with
  | accept ip now => exact .inl (hrun h (by simp) (by simp))
  | finish n => exact .inl (hrun h (by simp) (by simp))
  | release n => exact .inl (hrun h (by simp) (by simp))
  | received n now =>
    simp only [step] at h
    split at h
    case isTrue => exact .inl (hrun h (by simp) (by simp))
    case isFalse => cases h
  | frame n line identity now =>
    simp only [step] at h
    split at h
    case isTrue => exact .inl (hrun h (by simp) (by simp))
    case isFalse => cases h
  | sniffed n http =>
    simp only [step] at h
    split at h
    case isFalse => cases h
    case isTrue =>
      obtain rfl := Option.some.inj h
      refine .inr ⟨n, _, rfl, nofun, fun heq => ?_⟩
      split at heq <;> cases heq
  | request n r =>
    simp only [step] at h
    split at h
    case isFalse => cases h
    case isTrue =>
      obtain rfl := Option.some.inj h
      refine .inr ⟨n, _, rfl, nofun, fun heq => ?_⟩
      split at heq <;> cases heq
  | streamEnded n =>
    simp only [step] at h
    split at h
    case isFalse => cases h
    case isTrue =>
      obtain rfl := Option.some.inj h
      exact .inr ⟨n, .http, rfl, nofun, nofun⟩
  | handOver n =>
    simp only [step] at h
    split at h
    case isFalse => cases h
    case isTrue hserves =>
      obtain rfl := Option.some.inj h
      exact .inr ⟨n, .webSocket, rfl, nofun, fun _ => (serves_iff.mp hserves).1⟩
  | leave n =>
    simp only [step] at h
    split at h
    case isFalse => cases h
    case isTrue =>
      obtain rfl := Option.some.inj h
      exact .inr ⟨n, .left, rfl, nofun, nofun⟩

/-- **One event**: sockets and slots that match go on to match where the event keeps the slot. -/
theorem held_step {e : Event} (h : w.Held) (hs : w.step e = some w') :
    w'.Held ↔ w.SlotKept e := by
  rcases step_cases hs with ⟨e', net, hnet, rfl, hrelease, -⟩ | ⟨m, service, rfl, hno, hopen⟩
  · by_cases hends : ∃ n, e' = .release n
    · obtain ⟨n, rfl⟩ := hends
      obtain rfl := (hrelease n).mp rfl
      obtain ⟨c, hc, -, rfl⟩ := release_cases hnet
      constructor
      · intro hheld d hd hip
        obtain rfl := Option.some.inj (hc.symm.trans hd)
        refine hheld n { c with phase := .released } ?_ hip rfl
        exact List.getElem?_set_self (List.getElem?_eq_some_iff.mp hc).1
      · intro hkept m d hd hip hphase
        rcases set_getElem? hd with ⟨rfl, rfl⟩ | ⟨-, hd⟩
        · exact hkept c hc hip
        · exact h m d hd hip hphase
    · have hno (n : Nat) : e' ≠ .release n := fun heq => hends ⟨n, heq⟩
      refine iff_of_true (fun m d hd hip hphase => ?_) ?_
      · obtain ⟨c, hc, hphase, hsame⟩ := step_keepsReleased hnet hno m d hd hphase
        exact h m c hc (hsame ▸ hip) hphase
      · cases e with
        | release n => exact absurd ((hrelease n).mpr rfl) (hno n)
        | _ => trivial
  · refine iff_of_true (fun k d hd hip hphase => ?_) ?_
    · show Function.update w.service m service k ≠ .webSocket
      by_cases hk : k = m
      · subst hk
        rw [Function.update_self]
        intro heq
        obtain ⟨c, hc, hphase'⟩ := hopen heq
        obtain rfl := Option.some.inj (hc.symm.trans hd)
        rw [hphase'] at hphase
        cases hphase
      · rw [Function.update_of_ne hk]
        exact h k d hd hip hphase
    · cases e with
      | release n => exact absurd rfl (hno n)
      | _ => trivial

/-- What the connections keep, in every run and in those without a second victim (`fresh`). -/
def Sound (fresh : Prop) (w : World) : Prop := Connections.Inv fresh w.net

theorem Sound.step {fresh : Prop} {e : Event} (h : Sound fresh w)
    (ho : fresh → w.NewVictim e) (hs : w.step e = some w') : Sound fresh w' := by
  rcases step_cases hs with ⟨e', net, hnet, rfl, -, haccept⟩ | ⟨m, service, rfl, -⟩
  · refine Connections.step_inv h (fun hfresh => ?_) hnet
    cases e' with
    | accept ip now =>
      obtain rfl := haccept ip now rfl
      exact ho hfresh
    | _ => trivial
  · exact h

/-- What keeps the sockets below the cap. -/
structure Capped (w : World) : Prop where
  bounded : Sound True w
  sound : Sound False w
  held : w.Held

theorem Capped.step {e : Event} (h : Capped w) (hin : w.SlotKept e ∧ w.NewVictim e)
    (hs : w.step e = some w') : Capped w' where
  bounded := h.bounded.step (fun _ => hin.2) hs
  sound := h.sound.step False.elim hs
  held := (held_step h.held hs).mpr hin.1

end World

/-- **The slots of every IP are its sockets** at every moment of a run exactly if no connection's
task ends in it before the task that has its socket. -/
theorem slots_count_sockets {w₀ w : World} {events : List Event}
    (hstart : World.system.start w₀) (hrun : World.system.exec w₀ events = some w) :
    (∀ n t, World.system.exec w₀ (events.take n) = some t → t.SlotsMatch) ↔
      World.system.Along World.SlotKept w₀ events := by
  obtain ⟨net, webEnabled, hnet, rfl⟩ := hstart
  have hsound : World.Sound False { net, webEnabled, service := fun _ => .sniffing } :=
    Connections.reachable_inv ⟨net, [], hnet, rfl⟩
  refine World.system.along_iff_prefixes (fun s e s' h hP hs => ?_) hsound ?_ hrun
  · have hsound' := World.Sound.step h False.elim hs
    rw [World.slotsMatch_iff hsound']
    exact ⟨hsound', World.held_step ((World.slotsMatch_iff h).mp hP) hs⟩
  · rw [World.slotsMatch_iff hsound]
    intro n c _ _ _
    exact nofun

/-- **The cap bounds the sockets** of an IP in such a run, but for those that were told to close. -/
theorem cap_bounds_sockets {w₀ w : World} {events : List Event}
    (hstart : World.system.start w₀)
    (hin : World.system.Along (fun w e => w.SlotKept e ∧ w.NewVictim e) w₀ events)
    (hrun : World.system.exec w₀ events = some w) :
    ∀ ip, ip.isLoopback = false →
      w.sockets ip ≤ w.net.registry.maxConnsPerIp + w.net.conns.countP (Conn.leaves ip) := by
  obtain ⟨net, webEnabled, ⟨maxConnsPerClient, maxConnsPerIp, rfl⟩, rfl⟩ := hstart
  have hstart : World.Capped
      { net := initial maxConnsPerClient maxConnsPerIp, webEnabled
        service := fun _ => .sniffing } :=
    ⟨initial_inv maxConnsPerClient maxConnsPerIp, initial_inv maxConnsPerClient maxConnsPerIp,
      fun n c _ _ _ => nofun⟩
  have hcapped : World.Capped w :=
    World.system.exec_induction (fun _ _ _ h hin hs => h.step hin hs) hstart hin hrun
  intro ip hip
  rw [← (World.slotsMatch_iff hcapped.sound).mpr hcapped.held ip hip]
  exact (Connections.Inv.bounded hcapped.bounded).bounded ip hip

/-! ## Runs -/

/-- A server that lets an IP have `cap` connections. -/
def World.opened (cap : Nat) : World :=
  { net := initial 10 cap, webEnabled := true, service := fun _ => .sniffing }

/-- A request of a paired browser. -/
def Request.paired (path : Path) : Request :=
  { path, knownHost := true, admitted := true, upgrade := true }

/-- A phone has a connection of its app, an event stream, and a WebSocket that is left at once. -/
def World.keptRun : List Event :=
  [.accept phone 0, .sniffed 0 false, .received 0 5, .frame 0 (hello "phone" true) .known 5,
    .accept phone 10, .sniffed 1 true, .request 1 (.paired .other), .request 1 (.paired .events),
    .accept phone 20, .sniffed 2 true, .request 2 (.paired .ws), .handOver 2, .leave 2, .finish 2,
    .release 2, .finish 0, .release 0]

theorem slots_count_sockets_phone :
    ∃ w, World.system.exec (World.opened 4) World.keptRun = some w ∧
      w.net.registry.slots phone = 1 ∧ ∀ n t,
        World.system.exec (World.opened 4) (World.keptRun.take n) = some t → t.SlotsMatch := by
  have hrun : (World.system.exec (World.opened 4) World.keptRun).any
      (fun w => w.net.registry.slots phone = 1) = true := by decide +kernel
  have hin : World.system.checked (fun w e => decide (w.SlotKept e)) (World.opened 4)
      World.keptRun = true := by decide +kernel
  obtain ⟨w, hexec, hslots⟩ := (Option.any_eq_true _ _).mp hrun
  have halong := World.system.along_of_checked (fun _ _ h => of_decide_eq_true h) hin
  exact ⟨w, hexec, of_decide_eq_true hslots,
    (slots_count_sockets ⟨_, _, ⟨_, _, rfl⟩, rfl⟩ hexec).mpr halong⟩

/-- Two WebSockets of a phone, where an IP may have one connection. -/
def World.upgradeRun : List Event :=
  [.accept phone 0, .sniffed 0 true, .request 0 (.paired .other), .request 0 (.paired .ws),
    .handOver 0, .finish 0, .release 0,
    .accept phone 10, .sniffed 1 true, .request 1 (.paired .ws), .handOver 1, .finish 1,
    .release 1]

/-- Both are served, and no slot is taken. -/
theorem upgraded_sockets_uncounted :
    ∃ w, World.system.exec (World.opened 1) World.upgradeRun = some w ∧ ¬ w.SlotsMatch ∧
      w.net.registry.slots phone = 0 ∧ w.sockets phone = 2 ∧ w.net.evictions = [] := by
  have hrun : (World.system.exec (World.opened 1) World.upgradeRun).any (fun w =>
      w.net.registry.slots phone = 0 ∧ w.sockets phone = 2 ∧ w.net.evictions = []) = true := by
    decide +kernel
  obtain ⟨w, hexec, hfacts⟩ := (Option.any_eq_true _ _).mp hrun
  obtain ⟨hslots, hsockets, hnone⟩ := of_decide_eq_true hfacts
  refine ⟨w, hexec, fun hmatch => ?_, hslots, hsockets, hnone⟩
  have heq := hmatch phone (by decide)
  omega

end Mbrc.Sockets
