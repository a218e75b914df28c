import MbrcPlugin.Server.Connections

/-!
# Slots of an IP

The slots of an IP are its connections that have not given theirs back.  An eviction admits one more
than the cap, so the slots stay bounded as long as it makes a connection go that was not going
already: the entry of an evicted connection stays until its task gets to run, so the next admission
may find it again.
-/

namespace Mbrc.Connections

open Registry

/-! ## What is promised -/

/-- A connection that holds a slot of an IP. -/
def Conn.holds (ip : IpAddr) (c : Conn) : Bool := c.ip = ip && c.phase ≠ .released

/-- One that was told to close. -/
def Conn.leaves (ip : IpAddr) (c : Conn) : Bool := c.holds ip && c.told

/-- One that was not. -/
def Conn.stays (ip : IpAddr) (c : Conn) : Bool := c.holds ip && !c.told

/-- The slots of an IP are bounded, and whoever is evicted can be spared. -/
structure SlotsBounded (w : World) : Prop where
  bounded : ∀ ip, ip.isLoopback = false →
    w.registry.slots ip ≤ w.registry.maxConnsPerIp + w.conns.countP (Conn.leaves ip)
  fresh : ∀ e ∈ w.evictions, e.told = false
  idle : ∀ e ∈ w.evictions, minEvictIdleMs ≤ e.silentFor
  spared : ∀ e ∈ w.evictions, ∃ a, e.admitted = some a ∧ a.role ≠ .subscriber

/-! ## When it holds -/

/-- Where an admission finds its IP at the cap, the connection that has been silent for longest
among those that may go was not told to close before. -/
def NewVictim (w : World) : Event → Prop
  | .accept ip now => ip.isLoopback = false → w.registry.maxConnsPerIp ≤ w.registry.slots ip →
      ∀ n c m, w.conns[n]? = some c → w.registry.conns.get? n = some m →
        State.ConnMeta.mayGo ip now m = true →
        (∀ other m', w.registry.conns.get? other = some m' →
          State.ConnMeta.mayGo ip now m' = true →
          toLex (m.lastActiveMs, n) ≤ toLex (m'.lastActiveMs, other)) → c.told = false
  | _ => True

/-! ## Counting -/

section

variable {α : Type} {l : List α} {n : Nat} {a b : α} {p q r : α → Bool}

/-- One element takes the place of another. -/
theorem countP_set_some (h : l[n]? = some a) :
    (l.set n b).countP p + (if p a then 1 else 0) = l.countP p + (if p b then 1 else 0) := by
  obtain ⟨hn, rfl⟩ := List.getElem?_eq_some_iff.mp h
  rw [List.countP_set hn]
  by_cases hp : p l[n] = true
  · have hpos : 0 < l.countP p := List.countP_pos_iff.mpr ⟨l[n], List.getElem_mem hn, hp⟩
    simp only [hp, if_true]
    omega
  · simp only [hp, Bool.false_eq_true, if_false]
    omega

theorem countP_split (h : ∀ a, p a = (q a || r a)) (hd : ∀ a, (q a && r a) = false) (l : List α) :
    l.countP p = l.countP q + l.countP r := by
  induction l with
  | nil => rfl
  | cons a l ih =>
    have ha := h a
    have hda := hd a
    rw [List.countP_cons, List.countP_cons, List.countP_cons, ih, ha]
    cases hq : q a <;> cases hr : r a <;> simp_all <;> omega

end

theorem holds_count (ip : IpAddr) (conns : List Conn) :
    conns.countP (Conn.holds ip) =
      conns.countP (Conn.leaves ip) + conns.countP (Conn.stays ip) := by
  apply countP_split
  · intro c
    unfold Conn.leaves Conn.stays
    cases c.holds ip <;> cases c.told <;> rfl
  · intro c
    unfold Conn.leaves Conn.stays
    cases c.holds ip <;> cases c.told <;> rfl

/-! ## The invariant -/

/-- What the registry keeps about a connection is so. -/
structure Known (c : Conn) (m : ConnMeta) : Prop where
  live : c.phase = .«open» ∨ c.phase = .closing
  ip : c.ip = m.ip
  clock : c.lastFrame ≤ m.lastActiveMs
  role : ∃ a, c.admitted = some a ∧ a.role = m.role

/-- What holds of every run, and of those without a second victim (`fresh`). -/
structure Inv (fresh : Prop) (w : World) : Prop where
  slots : ∀ ip, ip.isLoopback = false → w.registry.slots ip = w.conns.countP (Conn.holds ip)
  stays : fresh → ∀ ip, ip.isLoopback = false →
    w.conns.countP (Conn.stays ip) ≤ w.registry.maxConnsPerIp
  known : ∀ n m, w.registry.conns.get? n = some m → ∃ c, w.conns[n]? = some c ∧ Known c m
  evictions : ∀ e ∈ w.evictions, (fresh → e.told = false) ∧ minEvictIdleMs ≤ e.silentFor ∧
    ∃ a, e.admitted = some a ∧ a.role ≠ .subscriber

theorem Inv.bounded {w : World} (h : Inv True w) : SlotsBounded w := by
  refine ⟨fun ip hip => ?_, fun e he => (h.evictions e he).1 trivial,
    fun e he => (h.evictions e he).2.1, fun e he => (h.evictions e he).2.2⟩
  have hslots := h.slots ip hip
  have hstays := h.stays trivial ip hip
  have hcount := holds_count ip w.conns
  omega

section

variable {fresh : Prop} {w w' : World} {n now : Nat} {c c' : Conn}

/-- One connection goes on, without giving its slot back. -/
theorem Inv.set (h : Inv fresh w) (hc : w.conns[n]? = some c) (hconns : w'.conns = w.conns.set n c')
    (hip : c'.ip = c.ip) (hreleased : c'.phase = .released ↔ c.phase = .released)
    (htold : c.told = true → c'.told = true) (hevictions : w'.evictions = w.evictions)
    (hslots : ∀ ip, w'.registry.slots ip = w.registry.slots ip)
    (hmax : w'.registry.maxConnsPerIp = w.registry.maxConnsPerIp)
    (hknown : ∀ m k, w'.registry.conns.get? m = some k →
      (m = n ∧ Known c' k) ∨ (m ≠ n ∧ w.registry.conns.get? m = some k)) : Inv fresh w' := by
  have hholds : ∀ ip, c'.holds ip = c.holds ip := by
    intro ip
    unfold Conn.holds
    rw [hip]
    congr 1
    rw [decide_eq_decide]
    exact not_congr hreleased
  refine ⟨fun ip hloop => ?_, fun hf ip hloop => ?_, fun m k hm => ?_, ?_⟩
  · have hcount := countP_set_some (p := Conn.holds ip) (b := c') hc
    rw [hholds ip] at hcount
    rw [hslots ip, h.slots ip hloop, hconns]
    omega
  · have hcount := countP_set_some (p := Conn.stays ip) (b := c') hc
    have hle : (if c'.stays ip then 1 else 0) ≤ if c.stays ip then 1 else 0 := by
      unfold Conn.stays
      rw [hholds ip]
      cases hct : c.told with
      | true => simp [htold hct]
      | false => cases c.holds ip <;> cases c'.told <;> simp
    have hstays := h.stays hf ip hloop
    rw [hmax, hconns]
    omega
  · rw [hconns]
    rcases hknown m k hm with ⟨rfl, hkn⟩ | ⟨hne, hold⟩
    · refine ⟨c', ?_, hkn⟩
      rw [List.getElem?_set_self (List.getElem?_eq_some_iff.mp hc).1]
    · obtain ⟨d, hd, hkn⟩ := h.known m k hold
      exact ⟨d, by rw [List.getElem?_set_ne (Ne.symm hne)]; exact hd, hkn⟩
  · rw [hevictions]
    exact h.evictions

/-- A handle is notified. -/
theorem Inv.tell (h : Inv fresh w) (o : Option Nat) : Inv fresh (w.tell o) := by
  cases o with
  | none => exact h
  | some n =>
    cases hc : w.conns[n]? with
    | none => rwa [tell_of_none hc]
    | some c =>
      rw [tell_some hc]
      refine h.set hc rfl rfl Iff.rfl (fun _ => rfl) rfl (fun _ => rfl) rfl ?_
      intro m k hm
      by_cases hmn : m = n
      · subst hmn
        obtain ⟨d, hd, hkn⟩ := h.known m k hm
        obtain rfl := Option.some.inj (hc.symm.trans hd)
        exact Or.inl ⟨rfl, hkn.live, hkn.ip, hkn.clock, hkn.role⟩
      · exact Or.inr ⟨hmn, hm⟩

/-! ## Steps -/

theorem register_inv {reg : RegMeta} {close : Bool} {proto : Proto} (h : Inv fresh w)
    (hc : w.conns[n]? = some c) (hopen : c.phase = .«open») (hclock : c.lastFrame ≤ now) :
    Inv fresh (w.registerConn n { c with proto } reg close now) := by
  unfold World.registerConn
  dsimp only
  rcases State.register_cases w.registry n c.ip reg.clientId
    (if reg.isMain then .subscriber else .auxiliary) now with
    ⟨id, -, -, -, heq⟩ | ⟨byClient, superseded, heq, -⟩
  · rw [heq]
    refine h.set hc rfl rfl (by simp [hopen]) (fun ht => ht) rfl (fun _ => rfl) rfl ?_
    intro m k hm
    by_cases hmn : m = n
    · subst hmn
      obtain ⟨d, hd, hkn⟩ := h.known m k hm
      obtain rfl := Option.some.inj (hc.symm.trans hd)
      exact Or.inl ⟨rfl, Or.inr rfl, hkn.ip, hkn.clock, hkn.role⟩
    · exact Or.inr ⟨hmn, hm⟩
  · rw [heq]
    apply Inv.tell
    refine h.set hc rfl rfl ?_ (fun ht => ht) rfl (fun _ => rfl) rfl ?_
    · cases close <;> simp [hopen]
    · intro m k hm
      rw [Table.get?_insert] at hm
      split at hm
      · rename_i heq
        obtain rfl := Option.some.inj hm
        refine Or.inl ⟨heq.symm, ?_, rfl, hclock, _, rfl, rfl⟩
        cases close <;> simp
      · rename_i hne
        exact Or.inr ⟨Ne.symm hne, hm⟩

/-- A new connection takes a slot. -/
theorem Inv.push {ip : IpAddr} {registry : State} (h : Inv fresh w)
    (hroom : fresh → ip.isLoopback = false →
      w.conns.countP (Conn.stays ip) < w.registry.maxConnsPerIp)
    (hslots : ∀ ip', ip'.isLoopback = false →
      registry.slots ip' = w.registry.slots ip' + if ip = ip' then 1 else 0)
    (hmax : registry.maxConnsPerIp = w.registry.maxConnsPerIp)
    (hconns : registry.conns = w.registry.conns) :
    Inv fresh { w with registry, conns := w.conns ++ [({ ip } : Conn)] } := by
  refine ⟨fun ip' hloop => ?_, fun hf ip' hloop => ?_, fun m k hm => ?_, h.evictions⟩
  · have hone : Conn.holds ip' { ip } = decide (ip = ip') := by simp [Conn.holds]
    rw [hslots ip' hloop, h.slots ip' hloop, List.countP_append, List.countP_singleton, hone]
    simp
  · have hone : Conn.stays ip' { ip } = decide (ip = ip') := by simp [Conn.stays, Conn.holds]
    show _ ≤ registry.maxConnsPerIp
    rw [hmax, List.countP_append, List.countP_singleton, hone]
    by_cases hip : ip = ip'
    · subst hip
      have := hroom hf hloop
      simp
      omega
    · simpa [hip] using h.stays hf ip' hloop
  · obtain ⟨d, hd, hkn⟩ := h.known m k (by rwa [← hconns])
    refine ⟨d, ?_, hkn⟩
    show (w.conns ++ [_])[m]? = some d
    rw [List.getElem?_append_left (List.getElem?_eq_some_iff.mp hd).1]
    exact hd

@[simp] theorem evict_registry (victim : Nat) : (w.evict victim now).registry = w.registry := by
  unfold World.evict
  split
  · exact tell_registry _
  · rfl

/-- An eviction of a connection that was not told to close makes room. -/
theorem evict_inv {ip : IpAddr} {victim : Nat} {k : ConnMeta} (h : Inv fresh w)
    (hk : w.registry.conns.get? victim = some k) (hgo : State.ConnMeta.mayGo ip now k = true)
    (hfresh : fresh → ∀ d, w.conns[victim]? = some d → d.told = false) :
    Inv fresh (w.evict victim now) ∧ (fresh →
      (w.evict victim now).conns.countP (Conn.stays ip) < w.conns.countP (Conn.stays ip)) := by
  obtain ⟨d, hd, hkn⟩ := h.known victim k hk
  rw [State.ConnMeta.mayGo, Bool.and_eq_true, Bool.and_eq_true, decide_eq_true_eq,
    decide_eq_true_eq, decide_eq_true_eq] at hgo
  obtain ⟨⟨hip, hrole⟩, hsilent⟩ := hgo
  unfold World.evict
  rw [hd]
  dsimp only
  constructor
  · apply Inv.tell
    refine ⟨h.slots, h.stays, h.known, fun e he => ?_⟩
    rcases List.mem_append.mp he with hold | hnew
    · exact h.evictions e hold
    · obtain rfl := List.mem_singleton.mp hnew
      obtain ⟨a, ha, harole⟩ := hkn.role
      have hclock := hkn.clock
      refine ⟨fun hf => hfresh hf d hd, ?_, a, ha, by rwa [harole]⟩
      show minEvictIdleMs ≤ now - d.lastFrame
      omega
  · intro hf
    have htold := hfresh hf d hd
    rw [tell_some (c := d)]
    swap
    · exact hd
    have hcount := countP_set_some (p := Conn.stays ip) (b := { d with told := true }) hd
    have hstays : d.stays ip = true := by
      have hlive : d.phase ≠ .released := by
        rcases hkn.live with hp | hp <;> simp [hp]
      simp [Conn.stays, Conn.holds, htold, hlive, hkn.ip, hip]
    have hleft : Conn.stays ip { d with told := true } = false := by simp [Conn.stays]
    rw [hstays, hleft] at hcount
    simp only [if_true, Bool.false_eq_true, if_false] at hcount
    show (w.conns.set victim { d with told := true }).countP (Conn.stays ip) < _
    omega

theorem accept_inv {ip : IpAddr} (h : Inv fresh w) (ho : fresh → NewVictim w (.accept ip now)) :
    Inv fresh (w.accept ip now) := by
  unfold World.accept State.admitIp
  by_cases hloop : ip.isLoopback = true
  · -- loopback holds no slot
    rw [if_pos hloop]
    refine h.push (fun _ hip => by simp [hloop] at hip) (fun ip' hip' => ?_) rfl rfl
    rw [if_neg, Nat.add_zero]
    rintro rfl
    simp [hloop] at hip'
  · have hip : ip.isLoopback = false := by simpa using hloop
    have hset : ∀ ip', (w.registry.setSlots ip (some (w.registry.slots ip + 1))).slots ip' =
        w.registry.slots ip' + if ip = ip' then 1 else 0 := by
      intro ip'
      rw [State.setSlots_slots]
      by_cases heq : ip' = ip
      · simp [heq]
      · simp [heq, Ne.symm heq]
    have hslots := h.slots ip hip
    have hcount := holds_count ip w.conns
    rw [if_neg hloop]
    by_cases hcap : w.registry.slots ip < w.registry.maxConnsPerIp
    · rw [if_pos hcap]
      exact h.push (fun _ _ => by omega) (fun ip' _ => hset ip') rfl rfl
    · rw [if_neg hcap]
      cases hvictim : w.registry.evictable ip now with
      | none =>
        refine ⟨fun ip' hip' => ?_, h.stays, h.known, h.evictions⟩
        rw [State.setSlots_slots, ← h.slots ip' hip']
        split
        · rename_i heq
          rw [heq]
          rfl
        · rfl
      | some victim =>
        obtain ⟨k, hk, hgo, hleast⟩ := State.evictable_some hvictim
        obtain ⟨hinv, hless⟩ := evict_inv h hk hgo
          fun hf d hd => ho hf hip (by omega) victim d k hd hk hgo hleast
        refine hinv.push (fun hf _ => ?_) (fun ip' _ => ?_) ?_ ?_
        · have hstays := h.stays hf ip hip
          have hless := hless hf
          rw [evict_registry]
          omega
        · rw [evict_registry]
          exact hset ip'
        · rw [evict_registry]
          rfl
        · rw [evict_registry]
          rfl

theorem release_inv (h : Inv fresh w) (hstep : step w (.release n) = some w') : Inv fresh w' := by
  obtain ⟨c, hc, hphase, rfl⟩ := release_cases hstep
  have hfacts : (w.registry.releaseIp c.ip).conns = w.registry.conns ∧
      (w.registry.releaseIp c.ip).maxConnsPerIp = w.registry.maxConnsPerIp := by
    unfold State.releaseIp
    split
    · exact ⟨rfl, rfl⟩
    · split <;> exact ⟨rfl, rfl⟩
  have hslots : ∀ ip, ip.isLoopback = false → (w.registry.releaseIp c.ip).slots ip =
      w.registry.slots ip - if c.ip = ip then 1 else 0 := by
    intro ip hip
    unfold State.releaseIp
    split
    · rename_i hloop
      rw [if_neg, Nat.sub_zero]
      rintro rfl
      simp [hloop] at hip
    · split
      · rename_i count hcount
        rw [State.setSlots_slots]
        by_cases heq : ip = c.ip
        · subst heq
          simp only [if_true, State.slots, hcount, Option.getD_some]
          split <;> simp_all
        · simp [heq, Ne.symm heq]
      · rename_i hnone
        split
        · rename_i heq
          subst heq
          simp [State.slots, hnone]
        · rfl
  refine ⟨fun ip hip => ?_, fun hf ip hip => ?_, fun m k hm => ?_, h.evictions⟩
  · have hcount := countP_set_some (p := Conn.holds ip) (b := { c with phase := .released }) hc
    have hbefore : c.holds ip = decide (c.ip = ip) := by simp [Conn.holds, hphase]
    have hafter : Conn.holds ip { c with phase := .released } = false := by simp [Conn.holds]
    rw [hbefore, hafter] at hcount
    rw [hslots ip hip, h.slots ip hip]
    by_cases heq : c.ip = ip
    · simp only [heq, decide_true, if_true, Bool.false_eq_true, if_false] at hcount ⊢
      omega
    · simp only [heq, decide_false, Bool.false_eq_true, if_false] at hcount ⊢
      omega
  · have hcount := countP_set_some (p := Conn.stays ip) (b := { c with phase := .released }) hc
    have hafter : Conn.stays ip { c with phase := .released } = false := by
      simp [Conn.stays, Conn.holds]
    rw [hafter] at hcount
    simp only [Bool.false_eq_true, if_false] at hcount
    have hstays := h.stays hf ip hip
    show _ ≤ (w.registry.releaseIp c.ip).maxConnsPerIp
    rw [hfacts.2]
    show (w.conns.set n { c with phase := .released }).countP (Conn.stays ip) ≤ _
    omega
  · obtain ⟨d, hd, hkn⟩ := h.known m k (by rw [← hfacts.1]; exact hm)
    refine ⟨d, ?_, hkn⟩
    rw [List.getElem?_set_ne]
    · exact hd
    · rintro rfl
      obtain rfl := Option.some.inj (hc.symm.trans hd)
      rcases hkn.live with hp | hp <;> simp [hphase] at hp

theorem step_inv {event : Event} (h : Inv fresh w) (ho : fresh → NewVictim w event)
    (hstep : step w event = some w') : Inv fresh w' := by
  cases event with
  | accept ip now =>
    obtain rfl := Option.some.inj hstep
    exact accept_inv h ho
  | received n now =>
    obtain ⟨c, hc, hopen, hclock, rfl⟩ := received_cases hstep
    have htouch : ∀ ip, (w.registry.touch n now).slots ip = w.registry.slots ip := by
      intro ip
      unfold State.touch
      split <;> rfl
    have hmax : (w.registry.touch n now).maxConnsPerIp = w.registry.maxConnsPerIp := by
      unfold State.touch
      split <;> rfl
    refine h.set hc rfl rfl Iff.rfl (fun ht => ht) rfl htouch hmax fun m k hm => ?_
    rw [State.touch_conns] at hm
    obtain ⟨k', hk', heq⟩ := Option.map_eq_some_iff.mp hm
    by_cases hmn : m = n
    · rw [if_pos hmn] at heq
      subst hmn heq
      obtain ⟨d, hd, hkn⟩ := h.known m k' hk'
      obtain rfl := Option.some.inj (hc.symm.trans hd)
      exact Or.inl ⟨rfl, hkn.live, hkn.ip, Nat.le_refl now, hkn.role⟩
    · rw [if_neg hmn] at heq
      exact Or.inr ⟨hmn, heq ▸ hk'⟩
  | frame n line identity now =>
    obtain ⟨c, hc, hopen, hclock, proto, close, -, hcases⟩ := frame_cases hstep
    rcases hcases with ⟨reg, -, -, rfl⟩ | ⟨-, rfl⟩
    · exact register_inv h hc hopen hclock
    · refine h.set hc rfl rfl ?_ (fun ht => ht) rfl (fun _ => rfl) rfl fun m k hm => ?_
      · cases close <;> simp [hopen]
      · by_cases hmn : m = n
        · subst hmn
          obtain ⟨d, hd, hkn⟩ := h.known m k hm
          obtain rfl := Option.some.inj (hc.symm.trans hd)
          refine Or.inl ⟨rfl, ?_, hkn.ip, hkn.clock, hkn.role⟩
          cases close <;> simp
        · exact Or.inr ⟨hmn, hm⟩
  | finish n =>
    obtain ⟨c, hc, hphase, rfl⟩ := finish_cases hstep
    obtain ⟨byClient, heq, -⟩ :=
      State.unregister_cases w.registry n c.proto.clientId
    refine h.set hc rfl rfl ?_ (fun ht => ht) rfl (fun ip => ?_) ?_ fun m k hm => ?_
    · rcases hphase with hp | hp <;> simp [hp]
    · rw [heq]
      rfl
    · rw [heq]
    · rw [heq, Table.get?_erase] at hm
      split at hm
      · simp at hm
      · rename_i hne
        exact Or.inr ⟨Ne.symm hne, hm⟩
  | release n => exact release_inv h hstep

/-! ## Every run -/

theorem initial_inv (maxConnsPerClient maxConnsPerIp : Nat) :
    Inv fresh (initial maxConnsPerClient maxConnsPerIp) := by
  refine ⟨fun ip _ => rfl, fun _ ip _ => Nat.zero_le _, fun n m hm => ?_, fun e he => ?_⟩
  · simp [initial, State.new] at hm
  · simp [initial] at he

/-- In every run the victims of evictions are idle and take no events. -/
theorem reachable_inv (hr : system.Reachable w) : Inv False w := by
  apply system.reachable_induction ?_ (fun _ _ _ hi hn => step_inv hi False.elim hn) hr
  rintro _ ⟨maxConnsPerClient, maxConnsPerIp, rfl⟩
  exact initial_inv maxConnsPerClient maxConnsPerIp

/-- **The slots stay bounded** in every run whose evictions make another connection go. -/
theorem slots_bounded {w₀ : World} {events : List Event} (hstart : system.start w₀)
    (ho : system.Along NewVictim w₀ events) (hexec : system.exec w₀ events = some w) :
    SlotsBounded w := by
  obtain ⟨maxConnsPerClient, maxConnsPerIp, rfl⟩ := hstart
  exact (system.exec_induction (fun _ _ _ hi hC hn => step_inv hi (fun _ => hC) hn)
    (initial_inv maxConnsPerClient maxConnsPerIp) ho hexec).bounded

end

/-! ## Runs -/

/-- A phone, 192.168.1.20. -/
def phone : IpAddr := .v4 0xC0A80114

/-- A V4 handshake. -/
def hello (clientId : String) (noBroadcast : Bool) : Line where
  lenient := some (.object [("context", .string "protocol"), ("data", .object
    [("protocol_version", .int 4), ("no_broadcast", .bool noBroadcast),
      ("client_id", .string clientId)])])
  request := none

/-- A step that evicts nobody who was told to close. -/
def newVictim (w : World) : Event → Bool
  | .accept ip now => ip.isLoopback || w.registry.slots ip < w.registry.maxConnsPerIp ||
      (w.registry.conns.rows.all fun row => !State.ConnMeta.mayGo ip now row.2 ||
        (w.conns[row.1]?).all fun c => !c.told)
  | _ => true

theorem newVictim_of_check (w : World) (event : Event) (h : newVictim w event = true) :
    NewVictim w event := by
  cases event with
  | accept ip now =>
    intro hloop hcap n c m hc hm hgo _
    simp only [newVictim, hloop, Bool.false_or, Bool.or_eq_true, decide_eq_true_eq,
      List.all_eq_true] at h
    rcases h with hlt | hall
    · omega
    · have hrow := hall (n, m) (Table.mem_rows.mpr hm)
      simpa [hgo, hc] using hrow
  | _ => trivial

/-- A third socket of a phone takes the place of the first, whose task then ends, and a fourth the
place of the second. -/
def oneAfterAnother : List Event :=
  [.accept phone 0, .received 0 5, .frame 0 (hello "phone" true) .known 5, .accept phone 10,
    .received 1 15, .frame 1 (hello "phone" true) .known 15, .accept phone 20000, .finish 0,
    .release 0, .accept phone 20010]

theorem slots_bounded_oneAfterAnother :
    ∃ w, system.exec (initial 10 2) oneAfterAnother = some w ∧
      w.evictions.map Eviction.victim = [0, 1] ∧ w.registry.slots phone = 3 ∧ SlotsBounded w := by
  have hrun : (system.exec (initial 10 2) oneAfterAnother).any (fun w =>
      w.evictions.map Eviction.victim = [0, 1] ∧ w.registry.slots phone = 3) = true := by
    decide +kernel
  have hcheck : system.checked newVictim (initial 10 2) oneAfterAnother = true := by
    decide +kernel
  obtain ⟨w, hexec, hfacts⟩ := (Option.any_eq_true _ _).mp hrun
  obtain ⟨hvictims, hslots⟩ := of_decide_eq_true hfacts
  exact ⟨w, hexec, hvictims, hslots, slots_bounded (⟨10, 2, rfl⟩ : system.start (initial 10 2))
    (system.along_of_checked newVictim_of_check hcheck) hexec⟩

/-! ## The same victim twice -/

/-- Two sockets are accepted before the task of the evicted one gets to run. -/
def inARow : List Event :=
  [.accept phone 0, .received 0 5, .frame 0 (hello "phone" true) .known 5, .accept phone 20000,
    .accept phone 20001]

theorem evicted_twice : ¬ ∀ w, system.Reachable w → SlotsBounded w := by
  intro hall
  have hrun : (system.exec (initial 10 1) inARow).any (fun w =>
      w.registry.slots phone = 3 ∧ w.registry.maxConnsPerIp = 1 ∧
        w.conns.countP (Conn.leaves phone) = 1) = true := by decide +kernel
  obtain ⟨w, hexec, hfacts⟩ := (Option.any_eq_true _ _).mp hrun
  obtain ⟨hslots, hmax, hleaves⟩ := of_decide_eq_true hfacts
  have hbounded := (hall w ⟨_, _, ⟨10, 1, rfl⟩, hexec⟩).bounded phone (by decide)
  omega

end Mbrc.Connections
