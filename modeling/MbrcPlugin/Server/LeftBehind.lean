import MbrcPlugin.Server.IpSlots

/-!
# What closed connections leave behind

The sockets of a `client_id` are the live connections that were admitted under it, as long as a
connection is taken out under the id it was admitted under: the id is read from its session when it
ends, and a legacy client may have sent `protocol` with another one by then.
-/

namespace Mbrc.Connections

open Registry

/-! ## What is promised -/

def Conn.Live (c : Conn) : Prop := c.phase = .«open» ∨ c.phase = .closing

instance (c : Conn) : Decidable c.Live := inferInstanceAs (Decidable (_ ∨ _))

/-- A live connection that was admitted under an id. -/
structure Under (conns : List Conn) (id : String) (n : Nat) (c : Conn) (a : Admission) : Prop where
  conn : conns[n]? = some c
  live : c.Live
  admitted : c.admitted = some a
  clientId : a.clientId = some id

/-- The connection is not from this machine. -/
def remote (conns : List Conn) (n : Nat) : Bool := (conns[n]?).any fun c => !c.ip.isLoopback

/-- The registry is about the live connections and nothing else. -/
structure Tidy (w : World) : Prop where
  members : ∀ id n, n ∈ (w.registry.entry id).conns ↔ ∃ c a, Under w.conns id n c a
  capped : ∀ id, ((w.registry.entry id).conns.filter fun n => remote w.conns n = true).card ≤
    w.registry.maxConnsPerClient
  main : ∀ id n, (w.registry.entry id).main = some n → ∃ c a, Under w.conns id n c a ∧
    a.role = .subscriber ∧ ∀ m d b, Under w.conns id m d b → b.role = .subscriber → m ≠ n →
      b.number < a.number ∧ d.told = true
  empty : (∀ c ∈ w.conns, c.phase = .released) → (∀ ip, w.registry.byIp ip = none) ∧
    w.registry.byClient = Table.empty ∧ w.registry.shutdown = ∅ ∧ w.registry.conns = Table.empty

/-! ## When it holds -/

/-- A connection is taken out under the id it was admitted under; an IP may hold a slot. -/
def SameId (w : World) : Event → Prop
  | .finish n => ∀ c a, w.conns[n]? = some c → c.admitted = some a → c.proto.clientId = a.clientId
  | .accept ip _ => ip.isLoopback = false → 0 < w.registry.maxConnsPerIp
  | _ => True

/-! ## The entries -/

section

variable {r : State} {n : Nat} {id : String}

theorem entry_insert {clientId : String} {e : ClientEntry} :
    ((r.byClient.insert clientId e).get? id).getD {} =
      if clientId = id then e else r.entry id := by
  rw [Table.get?_insert]
  split <;> rfl

/-- What is left of an entry; a main that is gone is not one any more. -/
theorem entry_unregister {clientId : Option String}
    (hmain : ∀ id, (r.entry id).conns.erase n = ∅ → (r.entry id).main = none ∨
      (r.entry id).main = some n) :
    (r.unregister n clientId).entry id =
      if clientId = some id then
        { conns := (r.entry id).conns.erase n
          main := if (r.entry id).main = some n then none else (r.entry id).main }
      else r.entry id := by
  obtain ⟨byClient, heq, hcases⟩ := State.unregister_cases r n clientId
  rw [heq]
  show (byClient.get? id).getD {} = _
  rcases hcases with ⟨rfl, hnone⟩ | ⟨id', old, rfl, hold, rfl⟩
  · split
    · rename_i hid
      have hentry : r.entry id = {} := by rw [State.entry, hnone id hid, Option.getD_none]
      rw [hentry, hnone id hid]
      rfl
    · rfl
  · have hentry : r.entry id' = old := by rw [State.entry, hold, Option.getD_some]
    split
    · rename_i hempty
      rw [Table.get?_erase]
      by_cases hid : id' = id
      · subst hid
        rw [if_pos rfl, if_pos rfl, hentry, hempty, Option.getD_none]
        have hmain := hmain id'
        rw [hentry] at hmain
        rcases hmain hempty with hm | hm <;> simp [hm]
      · rw [if_neg hid, if_neg (by simpa using hid)]
        rfl
    · rw [entry_insert]
      by_cases hid : id' = id
      · subst hid
        rw [if_pos rfl, if_pos rfl, hentry]
      · rw [if_neg hid, if_neg (by simpa using hid)]

end

/-! ## The invariant -/

/-- The invariant, while a connection may still have to be told. -/
structure Tended (owed : Option Nat) (w : World) : Prop where
  members : ∀ id n, n ∈ (w.registry.entry id).conns ↔ ∃ c a, Under w.conns id n c a
  capped : ∀ id, ((w.registry.entry id).conns.filter fun n => remote w.conns n = true).card ≤
    w.registry.maxConnsPerClient
  main : ∀ id n, (w.registry.entry id).main = some n → ∃ c a, Under w.conns id n c a ∧
    a.role = .subscriber ∧ ∀ m d b, Under w.conns id m d b → b.role = .subscriber → m ≠ n →
      b.number < a.number
  told : ∀ id n c a, Under w.conns id n c a → a.role = .subscriber →
    (w.registry.entry id).main = some n ∨ c.told = true ∨ owed = some n
  numbers : ∀ c ∈ w.conns, ∀ a, c.admitted = some a → a.number < w.admissions
  registered : ∀ c ∈ w.conns, c.registered = false → c.admitted = none
  clients : ∀ id e, w.registry.byClient.get? id = some e → e.conns ≠ ∅ ∨
    ∃ c ∈ w.conns, c.phase = .closing ∧ c.admitted = none ∧ c.proto.clientId = some id
  handles : ∀ n ∈ w.registry.shutdown, ∃ c, w.conns[n]? = some c ∧ c.Live
  handle : ∀ id n c a, Under w.conns id n c a → n ∈ w.registry.shutdown
  slots : ∀ ip count, w.registry.byIp ip = some count → 0 < count ∧ ip.isLoopback = false

theorem Tended.tidy {w : World} (h : Tended none w) (hinv : Inv False w) : Tidy w := by
  refine ⟨h.members, h.capped, fun id n hn => ?_, fun hall => ?_⟩
  · obtain ⟨c, a, hu, hrole, hless⟩ := h.main id n hn
    refine ⟨c, a, hu, hrole, fun m d b hm hb hne => ⟨hless m d b hm hb hne, ?_⟩⟩
    rcases h.told id m d b hm hb with hmain | htold | howed
    · exact absurd (Option.some.inj (hmain.symm.trans hn)) hne
    · exact htold
    · simp at howed
  · have hdead : ∀ (n : Nat) (c : Conn), w.conns[n]? = some c → ¬ c.Live := by
      intro n c hc hlive
      have hphase := hall c (List.mem_of_getElem? hc)
      rcases hlive with hp | hp <;> simp [hphase] at hp
    refine ⟨fun ip => ?_, ?_, ?_, ?_⟩
    · cases hcount : w.registry.byIp ip with
      | none => rfl
      | some count =>
        obtain ⟨hpos, hloop⟩ := h.slots ip count hcount
        have hslots := hinv.slots ip hloop
        have hzero : w.conns.countP (Conn.holds ip) = 0 := by
          rw [List.countP_eq_zero]
          intro c hc
          simp [Conn.holds, hall c hc]
        rw [hzero, State.slots, hcount, Option.getD_some] at hslots
        omega
    · apply Table.ext
      intro id
      rw [Table.get?_empty]
      cases he : w.registry.byClient.get? id with
      | none => rfl
      | some e =>
        rcases h.clients id e he with hne | ⟨c, hc, hphase, -⟩
        · obtain ⟨n, hn⟩ := Finset.nonempty_iff_ne_empty.mpr hne
          have hentry : w.registry.entry id = e := by rw [State.entry, he, Option.getD_some]
          obtain ⟨c, a, hu⟩ := (h.members id n).mp (hentry ▸ hn)
          exact absurd hu.live (hdead n c hu.conn)
        · have hreleased := hall c hc
          simp [hphase] at hreleased
    · rw [Finset.eq_empty_iff_forall_notMem]
      intro n hn
      obtain ⟨c, hc, hlive⟩ := h.handles n hn
      exact hdead n c hc hlive
    · apply Table.ext
      intro n
      rw [Table.get?_empty]
      cases hm : w.registry.conns.get? n with
      | none => rfl
      | some m =>
        obtain ⟨c, hc, hkn⟩ := hinv.known n m hm
        exact absurd hkn.live (hdead n c hc)

/-! ## Steps -/

section

variable {owed : Option Nat} {w w' : World} {n now : Nat} {c c' : Conn} {id : String}

/-- The others are under the ids they were under. -/
theorem under_set_ne {m : Nat} {d : Conn} {b : Admission} (hconns : w'.conns = w.conns.set n c')
    (hne : m ≠ n) : Under w'.conns id m d b ↔ Under w.conns id m d b := by
  have hget : w'.conns[m]? = w.conns[m]? := by rw [hconns, List.getElem?_set_ne (Ne.symm hne)]
  constructor
  · intro h
    exact ⟨by rw [← hget]; exact h.conn, h.live, h.admitted, h.clientId⟩
  · intro h
    exact ⟨by rw [hget]; exact h.conn, h.live, h.admitted, h.clientId⟩

theorem remote_set {d : Conn} (hc : w.conns[n]? = some c) (hip : d.ip = c.ip) (m : Nat) :
    remote (w.conns.set n d) m = remote w.conns m := by
  unfold remote
  by_cases hmn : m = n
  · subst hmn
    rw [List.getElem?_set_self (List.getElem?_eq_some_iff.mp hc).1, hc, Option.any_some,
      Option.any_some, hip]
  · rw [List.getElem?_set_ne (Ne.symm hmn)]

/-- A refused connection that goes on is one. -/
theorem refused_set (hc : w.conns[n]? = some c) (hconns : w'.conns = w.conns.set n c')
    (hadmitted : c'.admitted = c.admitted)
    (hclosing : c.phase = .closing → c'.phase = .closing ∧ c'.proto.clientId = c.proto.clientId)
    (h : ∃ d ∈ w.conns, d.phase = .closing ∧ d.admitted = none ∧ d.proto.clientId = some id) :
    ∃ d ∈ w'.conns, d.phase = .closing ∧ d.admitted = none ∧ d.proto.clientId = some id := by
  obtain ⟨d, hd, hphase, hnone, hid⟩ := h
  obtain ⟨m, hm⟩ := List.getElem?_of_mem hd
  by_cases hmn : m = n
  · subst hmn
    obtain rfl := Option.some.inj (hc.symm.trans hm)
    obtain ⟨hphase', hid'⟩ := hclosing hphase
    refine ⟨c', List.mem_of_getElem? (i := m) ?_, hphase', hadmitted.trans hnone, hid'.trans hid⟩
    rw [hconns, List.getElem?_set_self (List.getElem?_eq_some_iff.mp hc).1]
  · refine ⟨d, List.mem_of_getElem? (i := m) ?_, hphase, hnone, hid⟩
    rw [hconns, List.getElem?_set_ne (Ne.symm hmn)]
    exact hm

/-- A connection goes on as it was admitted. -/
theorem Tended.set (h : Tended owed w) (hc : w.conns[n]? = some c)
    (hconns : w'.conns = w.conns.set n c') (hip : c'.ip = c.ip)
    (hadmitted : c'.admitted = c.admitted) (hlive : c'.Live ↔ c.Live)
    (htold : c.told = true → c'.told = true)
    (hregistered : c'.registered = false → c.registered = false)
    (hnumbers : w'.admissions = w.admissions)
    (hentry : ∀ id, w'.registry.entry id = w.registry.entry id)
    (hclients : ∀ id e, w'.registry.byClient.get? id = some e → e.conns ≠ ∅ ∨
      ∃ d ∈ w'.conns, d.phase = .closing ∧ d.admitted = none ∧ d.proto.clientId = some id)
    (hshutdown : w'.registry.shutdown = w.registry.shutdown)
    (hmax : w'.registry.maxConnsPerClient = w.registry.maxConnsPerClient)
    (hslots : ∀ ip count, w'.registry.byIp ip = some count → 0 < count ∧ ip.isLoopback = false) :
    Tended owed w' := by
  have hself : w'.conns[n]? = some c' := by
    rw [hconns, List.getElem?_set_self (List.getElem?_eq_some_iff.mp hc).1]
  have hmem : ∀ d ∈ w'.conns, d = c' ∨ d ∈ w.conns := by
    intro d hd
    rw [hconns] at hd
    exact (List.mem_or_eq_of_mem_set hd).symm
  -- who was under an id is, and the other way round
  have hto : ∀ id m d b, Under w.conns id m d b → ∃ d', Under w'.conns id m d' b ∧
      (d.told = true → d'.told = true) := by
    intro id m d b hu
    by_cases hmn : m = n
    · subst hmn
      obtain rfl := Option.some.inj (hc.symm.trans hu.conn)
      exact ⟨c', ⟨hself, hlive.mpr hu.live, hadmitted.trans hu.admitted, hu.clientId⟩, htold⟩
    · exact ⟨d, (under_set_ne hconns hmn).mpr hu, fun ht => ht⟩
  have hback : ∀ id m d b, Under w'.conns id m d b → ∃ d', Under w.conns id m d' b ∧
      (d'.told = true → d.told = true) := by
    intro id m d b hu
    by_cases hmn : m = n
    · subst hmn
      obtain rfl := Option.some.inj (hself.symm.trans hu.conn)
      exact ⟨c, ⟨hc, hlive.mp hu.live, hadmitted.symm.trans hu.admitted, hu.clientId⟩, htold⟩
    · exact ⟨d, (under_set_ne hconns hmn).mp hu, fun ht => ht⟩
  refine ⟨fun id m => ?_, fun id => ?_, fun id m hm => ?_, fun id m d b hu hrole => ?_,
    fun d hd b hb => ?_, fun d hd hfalse => ?_, hclients, fun m hm => ?_,
    fun id m d b hu => ?_, hslots⟩
  · rw [hentry, h.members]
    constructor
    · rintro ⟨d, b, hu⟩
      obtain ⟨d', hu', -⟩ := hto id m d b hu
      exact ⟨d', b, hu'⟩
    · rintro ⟨d, b, hu⟩
      obtain ⟨d', hu', -⟩ := hback id m d b hu
      exact ⟨d', b, hu'⟩
  · rw [hentry, hmax, hconns]
    simp only [remote_set hc hip]
    exact h.capped id
  · rw [hentry] at hm
    obtain ⟨d, b, hu, hrole, hless⟩ := h.main id m hm
    obtain ⟨d', hu', -⟩ := hto id m d b hu
    refine ⟨d', b, hu', hrole, fun k e f hk hf hne => ?_⟩
    obtain ⟨e', hk', -⟩ := hback id k e f hk
    exact hless k e' f hk' hf hne
  · rw [hentry]
    obtain ⟨d', hu', hmono⟩ := hback id m d b hu
    exact (h.told id m d' b hu' hrole).imp_right fun ht => ht.imp_left hmono
  · rw [hnumbers]
    rcases hmem d hd with rfl | hold
    · exact h.numbers c (List.mem_of_getElem? hc) b (hadmitted.symm.trans hb)
    · exact h.numbers d hold b hb
  · rcases hmem d hd with rfl | hold
    · exact hadmitted.trans (h.registered c (List.mem_of_getElem? hc) (hregistered hfalse))
    · exact h.registered d hold hfalse
  · rw [hshutdown] at hm
    obtain ⟨d, hd, hl⟩ := h.handles m hm
    by_cases hmn : m = n
    · subst hmn
      obtain rfl := Option.some.inj (hc.symm.trans hd)
      exact ⟨c', hself, hlive.mpr hl⟩
    · exact ⟨d, by rw [hconns, List.getElem?_set_ne (Ne.symm hmn)]; exact hd, hl⟩
  · rw [hshutdown]
    obtain ⟨d', hu', -⟩ := hback id m d b hu
    exact h.handle id m d' b hu'

/-- Whoever has to be told is. -/
theorem Tended.tell (h : Tended owed w) : Tended none (w.tell owed) := by
  cases owed with
  | none => exact h
  | some n =>
    cases hc : w.conns[n]? with
    | none =>
      rw [tell_of_none hc]
      refine { h with told := fun id m d b hu hrole => ?_ }
      rcases h.told id m d b hu hrole with hmain | ht | howed
      · exact Or.inl hmain
      · exact Or.inr (Or.inl ht)
      · obtain rfl := Option.some.inj howed
        simp [hu.conn] at hc
    | some c =>
      rw [tell_some hc]
      have hset : Tended (some n) { w with conns := w.conns.set n { c with told := true } } :=
        h.set hc rfl rfl rfl Iff.rfl (fun _ => rfl) (fun ht => ht) rfl (fun _ => rfl)
          (fun id e he => (h.clients id e he).imp_right
            (refused_set hc rfl rfl fun hp => ⟨hp, rfl⟩)) rfl rfl h.slots
      refine { hset with told := fun id m d b hu hrole => ?_ }
      rcases hset.told id m d b hu hrole with hmain | ht | howed
      · exact Or.inl hmain
      · exact Or.inr (Or.inl ht)
      · obtain rfl := Option.some.inj howed
        have hd := hu.conn
        rw [List.getElem?_set_self (List.getElem?_eq_some_iff.mp hc).1] at hd
        obtain rfl := Option.some.inj hd
        exact Or.inr (Or.inl rfl)

theorem Tended.weaken (h : Tended none w) : Tended owed w :=
  { h with told := fun id m d b hu hrole =>
      (h.told id m d b hu hrole).imp_right fun ht => ht.imp_right fun hn => by simp at hn }

/-- A new connection is under no id. -/
theorem Tended.push {ip : IpAddr} {registry : State} (h : Tended owed w)
    (hclient : registry.byClient = w.registry.byClient)
    (hshutdown : registry.shutdown = w.registry.shutdown)
    (hmax : registry.maxConnsPerClient = w.registry.maxConnsPerClient)
    (hslots : ∀ ip count, registry.byIp ip = some count → 0 < count ∧ ip.isLoopback = false) :
    Tended owed { w with registry, conns := w.conns ++ [({ ip } : Conn)] } := by
  have hentry : ∀ id, registry.entry id = w.registry.entry id := by
    intro id
    rw [State.entry, hclient, State.entry]
  have hget : ∀ {m : Nat} {d : Conn}, w.conns[m]? = some d →
      (w.conns ++ [({ ip } : Conn)])[m]? = some d := by
    intro m d hm
    rw [List.getElem?_append_left (List.getElem?_eq_some_iff.mp hm).1]
    exact hm
  have hunder : ∀ id m d b,
      Under (w.conns ++ [({ ip } : Conn)]) id m d b ↔ Under w.conns id m d b := by
    intro id m d b
    constructor
    · intro hu
      refine ⟨?_, hu.live, hu.admitted, hu.clientId⟩
      have hm := hu.conn
      rw [List.getElem?_append] at hm
      split at hm
      · exact hm
      · obtain rfl := List.mem_singleton.mp (List.mem_of_getElem? hm)
        exact absurd hu.admitted (by simp)
    · intro hu
      exact ⟨hget hu.conn, hu.live, hu.admitted, hu.clientId⟩
  have hmem : ∀ d ∈ w.conns ++ [({ ip } : Conn)], d ∈ w.conns ∨ d = { ip } :=
    fun d hd => (List.mem_append.mp hd).imp_right List.mem_singleton.mp
  refine ⟨fun id m => ?_, fun id => ?_, fun id m hm => ?_, fun id m d b hu hrole => ?_,
    fun d hd b hb => ?_, fun d hd hfalse => ?_, fun id e he => ?_, fun m hm => ?_,
    fun id m d b hu => ?_, hslots⟩
  · simp only [hentry, hunder]
    exact h.members id m
  · simp only [hentry, hmax]
    refine le_trans (Finset.card_le_card fun m hm => ?_) (h.capped id)
    obtain ⟨hm, hr⟩ := Finset.mem_filter.mp hm
    obtain ⟨d, b, hu⟩ := (h.members id m).mp hm
    refine Finset.mem_filter.mpr ⟨hm, ?_⟩
    rw [remote, hget hu.conn] at hr
    rw [remote, hu.conn]
    exact hr
  · simp only [hentry] at hm
    obtain ⟨d, b, hu, hrole, hless⟩ := h.main id m hm
    refine ⟨d, b, (hunder id m d b).mpr hu, hrole, fun k e f hk => ?_⟩
    exact hless k e f ((hunder id k e f).mp hk)
  · simp only [hentry]
    exact h.told id m d b ((hunder id m d b).mp hu) hrole
  · rcases hmem d hd with hold | rfl
    · exact h.numbers d hold b hb
    · simp at hb
  · rcases hmem d hd with hold | rfl
    · exact h.registered d hold hfalse
    · rfl
  · rw [show registry.byClient = _ from hclient] at he
    refine (h.clients id e he).imp_right ?_
    rintro ⟨d, hd, hrest⟩
    exact ⟨d, List.mem_append_left _ hd, hrest⟩
  · rw [show registry.shutdown = _ from hshutdown] at hm
    obtain ⟨d, hd, hl⟩ := h.handles m hm
    exact ⟨d, hget hd, hl⟩
  · show m ∈ registry.shutdown
    rw [hshutdown]
    exact h.handle id m d b ((hunder id m d b).mp hu)

/-! ### Slots -/

theorem slots_set {r : State} {ip : IpAddr} {k : Nat}
    (h : ∀ ip count, r.byIp ip = some count → 0 < count ∧ ip.isLoopback = false)
    (hip : ip.isLoopback = false) (hk : 0 < k) : ∀ ip' count,
      (r.setSlots ip (some k)).byIp ip' = some count → 0 < count ∧ ip'.isLoopback = false := by
  intro ip' count hcount
  rw [show (r.setSlots ip (some k)).byIp ip' = if ip' = ip then some k else r.byIp ip' from rfl]
    at hcount
  split at hcount
  · rename_i heq
    obtain rfl := Option.some.inj hcount
    exact ⟨hk, heq ▸ hip⟩
  · exact h ip' count hcount

theorem accept_tended {ip : IpAddr} (h : Tended none w) (ho : SameId w (.accept ip now)) :
    Tended none (w.accept ip now) := by
  unfold World.accept State.admitIp
  by_cases hloop : ip.isLoopback = true
  · rw [if_pos hloop]
    exact h.push rfl rfl rfl h.slots
  · have hip : ip.isLoopback = false := by simpa using hloop
    rw [if_neg hloop]
    by_cases hcap : w.registry.slots ip < w.registry.maxConnsPerIp
    · rw [if_pos hcap]
      exact h.push rfl rfl rfl (slots_set h.slots hip (by omega))
    · rw [if_neg hcap]
      have hpos := ho hip
      cases hvictim : w.registry.evictable ip now with
      | none =>
        exact { h with slots := slots_set h.slots hip (by omega) }
      | some victim =>
        have hevict : Tended none (w.evict victim now) := by
          unfold World.evict
          split
          · have howed : Tended (some victim) w := h.weaken
            apply Tended.tell
            exact { howed with }
          · exact h
        refine hevict.push ?_ ?_ ?_ (slots_set h.slots hip (by omega)) <;>
          rw [evict_registry] <;> rfl

theorem release_tended (h : Tended none w) (hstep : step w (.release n) = some w') :
    Tended none w' := by
  obtain ⟨c, hc, hphase, rfl⟩ := release_cases hstep
  have hregistry : w.registry.releaseIp c.ip = { w.registry with
      byIp := (w.registry.releaseIp c.ip).byIp } := by
    unfold State.releaseIp
    split
    · rfl
    · split <;> rfl
  refine h.set hc rfl rfl rfl ?_ (fun ht => ht) (fun hr => hr) rfl (fun id => ?_)
    (fun id e he => ?_) ?_ ?_ ?_
  · simp [Conn.Live, hphase]
  · rw [hregistry]
    rfl
  · rw [hregistry] at he
    exact (h.clients id e he).imp_right
      (refused_set hc rfl rfl fun hp => by simp [hphase] at hp)
  · rw [hregistry]
  · rw [hregistry]
  · intro ip count hcount
    unfold State.releaseIp at hcount
    split at hcount
    · exact h.slots ip count hcount
    · split at hcount
      · rename_i hloop _ old hold
        rw [State.setSlots] at hcount
        dsimp only at hcount
        split at hcount
        · rename_i heq
          split at hcount
          · simp at hcount
          · obtain rfl := Option.some.inj hcount
            exact ⟨by omega, by simpa [heq] using hloop⟩
        · exact h.slots ip count hcount
      · exact h.slots ip count hcount

end

end Mbrc.Connections
