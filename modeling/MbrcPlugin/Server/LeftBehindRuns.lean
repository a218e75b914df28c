import MbrcPlugin.Server.LeftBehind

/-!
# Nothing is left behind

Registrations and the ends of connections keep the registry tended, and so does every run that takes
connections out under the ids they were admitted under.
-/

namespace Mbrc.Connections

open Registry

section

variable {w w' : World} {n now : Nat} {c : Conn}

/-! ## Registrations -/

theorem finish_tended (h : Tended none w) (ho : SameId w (.finish n))
    (hstep : step w (.finish n) = some w') : Tended none w' := by
  obtain ⟨c, hc, hphase, rfl⟩ := finish_cases hstep
  obtain ⟨byClient, heq, hcases⟩ :=
    State.unregister_cases w.registry n c.proto.clientId
  have hlive : c.Live := hphase
  have hentry : ∀ id, (w.registry.unregister n c.proto.clientId).entry id =
      if c.proto.clientId = some id then
        { conns := (w.registry.entry id).conns.erase n
          main := if (w.registry.entry id).main = some n then none
            else (w.registry.entry id).main }
      else w.registry.entry id := by
    intro id
    apply entry_unregister
    intro id hempty
    cases hmain : (w.registry.entry id).main with
    | none => exact Or.inl rfl
    | some m =>
      obtain ⟨d, b, hu, -⟩ := h.main id m hmain
      have hm : m ∈ (w.registry.entry id).conns := (h.members id m).mpr ⟨d, b, hu⟩
      by_cases hmn : m = n
      · exact Or.inr (by rw [hmn])
      · have : m ∈ (w.registry.entry id).conns.erase n := Finset.mem_erase.mpr ⟨hmn, hm⟩
        simp [hempty] at this
  have hset : ∀ {m : Nat}, m ≠ n →
      (w.conns.set n { c with phase := .closed })[m]? = w.conns[m]? :=
    fun hne => List.getElem?_set_ne (Ne.symm hne)
  have hunder : ∀ id m d b, Under (w.conns.set n { c with phase := .closed }) id m d b ↔
      m ≠ n ∧ Under w.conns id m d b := by
    intro id m d b
    constructor
    · intro hu
      have hne : m ≠ n := by
        rintro rfl
        have hd := hu.conn
        rw [List.getElem?_set_self (List.getElem?_eq_some_iff.mp hc).1] at hd
        obtain rfl := Option.some.inj hd
        exact absurd hu.live (by simp [Conn.Live])
      exact ⟨hne, (hset hne).symm.trans hu.conn, hu.live, hu.admitted, hu.clientId⟩
    · rintro ⟨hne, hu⟩
      exact ⟨(hset hne).trans hu.conn, hu.live, hu.admitted, hu.clientId⟩
  have hid : ∀ id d b, Under w.conns id n d b → c.proto.clientId = some id := by
    intro id d b hu
    obtain rfl := Option.some.inj (hc.symm.trans hu.conn)
    rw [ho c b hc hu.admitted]
    exact hu.clientId
  have hrefused : ∀ id, c.proto.clientId ≠ some id →
      (∃ d ∈ w.conns, d.phase = .closing ∧ d.admitted = none ∧ d.proto.clientId = some id) →
        ∃ d ∈ w.conns.set n { c with phase := .closed },
          d.phase = .closing ∧ d.admitted = none ∧ d.proto.clientId = some id := by
    rintro id hne ⟨d, hd, hp, hnone, hcid⟩
    obtain ⟨m, hm⟩ := List.getElem?_of_mem hd
    have hmn : m ≠ n := by
      rintro rfl
      obtain rfl := Option.some.inj (hc.symm.trans hm)
      exact hne hcid
    exact ⟨d, List.mem_of_getElem? ((hset hmn).trans hm), hp, hnone, hcid⟩
  refine ⟨fun id m => ?_, fun id => ?_, fun id m hm => ?_, fun id m d b hu hrole => ?_,
    fun d hd b hb => ?_, fun d hd hfalse => ?_, fun id e he => ?_, fun m hm => ?_,
    fun id m d b hu => ?_, ?_⟩
  · simp only [hunder, hentry]
    split
    · rw [Finset.mem_erase, h.members]
      constructor
      · rintro ⟨hne, d, b, hu⟩
        exact ⟨d, b, hne, hu⟩
      · rintro ⟨d, b, hne, hu⟩
        exact ⟨hne, d, b, hu⟩
    · rename_i hne
      rw [h.members]
      constructor
      · rintro ⟨d, b, hu⟩
        refine ⟨d, b, ?_, hu⟩
        rintro rfl
        exact hne (hid id d b hu)
      · rintro ⟨d, b, -, hu⟩
        exact ⟨d, b, hu⟩
  · have hsub : ((w.registry.unregister n c.proto.clientId).entry id).conns ⊆
        (w.registry.entry id).conns := by
      rw [hentry]
      split
      · exact Finset.erase_subset _ _
      · exact Finset.Subset.refl _
    have hmax : (w.registry.unregister n c.proto.clientId).maxConnsPerClient =
        w.registry.maxConnsPerClient := by rw [heq]
    have hremote := remote_set (d := { c with phase := .closed }) hc rfl
    simp only [hremote, hmax]
    exact le_trans (Finset.card_le_card (Finset.filter_subset_filter _ hsub)) (h.capped id)
  · have hmain : (w.registry.entry id).main = some m ∧ m ≠ n := by
      simp only [hentry] at hm
      split at hm
      · dsimp only at hm
        split at hm
        · simp at hm
        · rename_i hne
          refine ⟨hm, ?_⟩
          rintro rfl
          exact hne hm
      · rename_i hne
        refine ⟨hm, ?_⟩
        rintro rfl
        obtain ⟨d, b, hu, -⟩ := h.main id m hm
        exact hne (hid id d b hu)
    obtain ⟨d, b, hu, hrole, hless⟩ := h.main id m hmain.1
    refine ⟨d, b, (hunder id m d b).mpr ⟨hmain.2, hu⟩, hrole, fun k e f hk => ?_⟩
    exact hless k e f ((hunder id k e f).mp hk).2
  · obtain ⟨hne, hu⟩ := (hunder id m d b).mp hu
    refine (h.told id m d b hu hrole).imp_left fun hmain => ?_
    simp only [hentry]
    split
    · simp [hmain, hne]
    · exact hmain
  · rcases List.mem_or_eq_of_mem_set hd with hold | rfl
    · exact h.numbers d hold b hb
    · exact h.numbers c (List.mem_of_getElem? hc) b hb
  · rcases List.mem_or_eq_of_mem_set hd with hold | rfl
    · exact h.registered d hold hfalse
    · exact h.registered c (List.mem_of_getElem? hc) hfalse
  · simp only [heq] at he
    rcases hcases with ⟨rfl, hnone⟩ | ⟨id₀, old, hid₀, -, rfl⟩
    · refine (h.clients id e he).imp_right (hrefused id fun hcid => ?_)
      simp [hnone id hcid] at he
    · by_cases heqid : id₀ = id
      · subst heqid
        split at he
        · simp [Table.get?_erase] at he
        · rename_i hne
          rw [Table.get?_insert, if_pos rfl] at he
          obtain rfl := Option.some.inj he
          exact Or.inl hne
      · have hold : w.registry.byClient.get? id = some e := by
          split at he
          · rwa [Table.get?_erase, if_neg heqid] at he
          · rwa [Table.get?_insert, if_neg heqid] at he
        refine (h.clients id e hold).imp_right (hrefused id fun hcid => ?_)
        exact heqid (Option.some.inj (hid₀.symm.trans hcid))
  · simp only [heq, Finset.mem_erase] at hm
    obtain ⟨d, hd, hl⟩ := h.handles m hm.2
    exact ⟨d, (hset hm.1).trans hd, hl⟩
  · obtain ⟨hne, hu⟩ := (hunder id m d b).mp hu
    simp only [heq, Finset.mem_erase]
    exact ⟨hne, h.handle id m d b hu⟩
  · simp only [heq]
    exact h.slots

/-- A connection is admitted; the main it supersedes has to be told. -/
theorem admit_tended {a : Admission} {c₁ : Conn} {byClient : Table String ClientEntry}
    {conns : Table Nat ConnMeta} {superseded : Option Nat} (h : Tended none w)
    (hc : w.conns[n]? = some c) (hnever : c.admitted = none) (hip : c₁.ip = c.ip)
    (hlive : c₁.Live) (hadmitted : c₁.admitted = some a) (hregistered : c₁.registered = true)
    (hnumber : a.number = w.admissions) (hopen : c.phase = .«open»)
    (hcases : (a.clientId = none ∧ byClient = w.registry.byClient ∧ superseded = none) ∨
      ∃ id, a.clientId = some id ∧
        (c.ip.isLoopback = false →
          (w.registry.entry id).conns.card < w.registry.maxConnsPerClient) ∧
        byClient = w.registry.byClient.insert id {
          conns := insert n (w.registry.entry id).conns
          main := if a.role = .subscriber then some n else (w.registry.entry id).main } ∧
        superseded = (if a.role = .subscriber then (w.registry.entry id).main else none).filter
          fun old => old ≠ n && old ∈ insert n w.registry.shutdown) :
    Tended superseded { w with
      registry := { w.registry with
        byClient, shutdown := insert n w.registry.shutdown, conns }
      admissions := w.admissions + 1
      conns := w.conns.set n c₁ } := by
  have hself : (w.conns.set n c₁)[n]? = some c₁ :=
    List.getElem?_set_self (List.getElem?_eq_some_iff.mp hc).1
  have hset : ∀ {m : Nat}, m ≠ n → (w.conns.set n c₁)[m]? = w.conns[m]? :=
    fun hne => List.getElem?_set_ne (Ne.symm hne)
  have hnew : ∀ {id m d b}, Under w.conns id m d b → m ≠ n := by
    rintro id m d b hu rfl
    obtain rfl := Option.some.inj (hc.symm.trans hu.conn)
    exact absurd hu.admitted (by simp [hnever])
  have hunder : ∀ id m d b, Under (w.conns.set n c₁) id m d b ↔
      (m = n ∧ d = c₁ ∧ b = a ∧ a.clientId = some id) ∨ Under w.conns id m d b := by
    intro id m d b
    constructor
    · intro hu
      by_cases hmn : m = n
      · subst hmn
        obtain rfl := Option.some.inj (hself.symm.trans hu.conn)
        obtain rfl := Option.some.inj (hadmitted.symm.trans hu.admitted)
        exact Or.inl ⟨rfl, rfl, rfl, hu.clientId⟩
      · exact Or.inr ⟨(hset hmn).symm.trans hu.conn, hu.live, hu.admitted, hu.clientId⟩
    · rintro (⟨rfl, rfl, rfl, hid⟩ | hu)
      · exact ⟨hself, hlive, hadmitted, hid⟩
      · exact ⟨(hset (hnew hu)).trans hu.conn, hu.live, hu.admitted, hu.clientId⟩
  have hentry : ∀ id, (byClient.get? id).getD {} = if a.clientId = some id then
      { conns := insert n (w.registry.entry id).conns
        main := if a.role = .subscriber then some n else (w.registry.entry id).main }
      else w.registry.entry id := by
    intro id
    rcases hcases with ⟨hnone, rfl, -⟩ | ⟨id', hid', -, rfl, -⟩
    · rw [hnone, if_neg (by simp)]
      rfl
    · rw [entry_insert, hid']
      by_cases heq : id' = id
      · subst heq
        rw [if_pos rfl, if_pos rfl]
      · rw [if_neg heq, if_neg (by simpa using heq)]
  have hless : ∀ {id m d b}, Under w.conns id m d b → b.number < a.number := by
    intro id m d b hu
    rw [hnumber]
    exact h.numbers d (List.mem_of_getElem? hu.conn) b hu.admitted
  refine ⟨fun id m => ?_, fun id => ?_, fun id m hm => ?_, fun id m d b hu hrole => ?_,
    fun d hd b hb => ?_, fun d hd hfalse => ?_, fun id e he => ?_, fun m hm => ?_,
    fun id m d b hu => ?_, h.slots⟩
  · show m ∈ ((byClient.get? id).getD {}).conns ↔ _
    simp only [hentry, hunder]
    split
    · rename_i hid
      rw [Finset.mem_insert, h.members]
      constructor
      · rintro (rfl | ⟨d, b, hu⟩)
        · exact ⟨c₁, a, Or.inl ⟨rfl, rfl, rfl, hid⟩⟩
        · exact ⟨d, b, Or.inr hu⟩
      · rintro ⟨d, b, ⟨rfl, -⟩ | hu⟩
        · exact Or.inl rfl
        · exact Or.inr ⟨d, b, hu⟩
    · rename_i hid
      rw [h.members]
      constructor
      · rintro ⟨d, b, hu⟩
        exact ⟨d, b, Or.inr hu⟩
      · rintro ⟨d, b, ⟨-, -, -, heq⟩ | hu⟩
        · exact absurd heq hid
        · exact ⟨d, b, hu⟩
  · show (((byClient.get? id).getD {}).conns.filter _).card ≤ w.registry.maxConnsPerClient
    simp only [hentry, remote_set hc hip]
    split
    · rename_i hid
      rw [Finset.filter_insert]
      split
      · rename_i hremote
        have hloop : c.ip.isLoopback = false := by
          rw [remote, hc] at hremote
          simpa using hremote
        obtain ⟨id', hid', hroom, -⟩ := hcases.resolve_left fun hn => by simp [hn.1] at hid
        obtain rfl := Option.some.inj (hid'.symm.trans hid)
        have hfilter := Finset.card_filter_le (w.registry.entry id').conns
          fun n => remote w.conns n = true
        have hinsert := Finset.card_insert_le n
          ((w.registry.entry id').conns.filter fun n => remote w.conns n = true)
        have := hroom hloop
        omega
      · exact h.capped id
    · exact h.capped id
  · have hm : ((byClient.get? id).getD {}).main = some m := hm
    rw [hentry] at hm
    have hold : (w.registry.entry id).main = some m →
        (a.clientId = some id → a.role ≠ .subscriber) →
        ∃ c a, Under (w.conns.set n c₁) id m c a ∧ a.role = .subscriber ∧
          ∀ k d b, Under (w.conns.set n c₁) id k d b → b.role = .subscriber → k ≠ m →
            b.number < a.number := by
      intro hmain haux
      obtain ⟨d, b, hu, hrole, hbelow⟩ := h.main id m hmain
      refine ⟨d, b, (hunder id m d b).mpr (Or.inr hu), hrole, fun k e f hk hf hne => ?_⟩
      rcases (hunder id k e f).mp hk with ⟨-, -, rfl, hid⟩ | hk
      · exact absurd hf (haux hid)
      · exact hbelow k e f hk hf hne
    split at hm
    · rename_i hid
      dsimp only at hm
      split at hm
      · rename_i hrole
        obtain rfl := Option.some.inj hm
        refine ⟨c₁, a, (hunder id n c₁ a).mpr (Or.inl ⟨rfl, rfl, rfl, hid⟩), hrole,
          fun k e f hk hf hne => ?_⟩
        rcases (hunder id k e f).mp hk with ⟨rfl, -⟩ | hk
        · exact absurd rfl hne
        · exact hless hk
      · rename_i haux
        exact hold hm fun _ => haux
    · rename_i hid
      exact hold hm fun heq => absurd heq hid
  · show ((byClient.get? id).getD {}).main = some m ∨ _
    rw [hentry]
    rcases (hunder id m d b).mp hu with ⟨rfl, rfl, rfl, hid⟩ | hu
    · rw [if_pos hid, if_pos hrole]
      exact Or.inl rfl
    · rcases h.told id m d b hu hrole with hmain | ht | hn
      · split
        · rename_i hid
          dsimp only
          split
          · rename_i hsub
            -- the old main is superseded
            obtain ⟨id', hid', -, -, rfl⟩ := hcases.resolve_left fun hn => by simp [hn.1] at hid
            obtain rfl := Option.some.inj (hid'.symm.trans hid)
            refine Or.inr (Or.inr ?_)
            rw [if_pos hsub, hmain, Option.filter_some, if_pos]
            simp [hnew hu, h.handle id' m d b hu]
          · exact Or.inl hmain
        · exact Or.inl hmain
      · exact Or.inr (Or.inl ht)
      · simp at hn
  · show b.number < w.admissions + 1
    rcases List.mem_or_eq_of_mem_set hd with hold | rfl
    · have := h.numbers d hold b hb
      omega
    · obtain rfl := Option.some.inj (hadmitted.symm.trans hb)
      omega
  · rcases List.mem_or_eq_of_mem_set hd with hold | rfl
    · exact h.registered d hold hfalse
    · simp [hregistered] at hfalse
  · have hold : w.registry.byClient.get? id = some e →
        e.conns ≠ ∅ ∨ ∃ d ∈ w.conns.set n c₁, d.phase = .closing ∧ d.admitted = none ∧
          d.proto.clientId = some id := by
      intro he
      refine (h.clients id e he).imp_right ?_
      rintro ⟨d, hd, hp, hnone, hcid⟩
      obtain ⟨m, hm⟩ := List.getElem?_of_mem hd
      have hmn : m ≠ n := by
        rintro rfl
        obtain rfl := Option.some.inj (hc.symm.trans hm)
        simp [hopen] at hp
      exact ⟨d, List.mem_of_getElem? ((hset hmn).trans hm), hp, hnone, hcid⟩
    rcases hcases with ⟨-, rfl, -⟩ | ⟨id', -, -, rfl, -⟩
    · exact hold he
    · dsimp only at he
      rw [Table.get?_insert] at he
      split at he
      · obtain rfl := Option.some.inj he
        exact Or.inl (Finset.insert_ne_empty _ _)
      · exact hold he
  · rcases Finset.mem_insert.mp hm with rfl | hm
    · exact ⟨c₁, hself, hlive⟩
    · obtain ⟨d, hd, hl⟩ := h.handles m hm
      by_cases hmn : m = n
      · exact ⟨c₁, by rw [hmn]; exact hself, hlive⟩
      · exact ⟨d, (hset hmn).trans hd, hl⟩
  · show m ∈ insert n w.registry.shutdown
    rcases (hunder id m d b).mp hu with ⟨rfl, -⟩ | hu
    · exact Finset.mem_insert_self _ _
    · exact Finset.mem_insert_of_mem (h.handle id m d b hu)

/-- A refused connection is closed at once, and an admitted one is under its id. -/
theorem register_tended {reg : RegMeta} {close : Bool} {proto : Proto} (h : Tended none w)
    (hc : w.conns[n]? = some c) (hopen : c.phase = .«open») (hregistered : c.registered = false)
    (hreg : proto.regMeta = some reg) :
    Tended none (w.registerConn n { c with proto } reg close now) := by
  have hmem := List.mem_of_getElem? hc
  have hnever : c.admitted = none := h.registered c hmem hregistered
  unfold World.registerConn
  dsimp only
  rcases State.register_cases w.registry n c.ip reg.clientId
    (if reg.isMain then .subscriber else .auxiliary) now with
    ⟨id, hid, hloop, hcap, heq⟩ | ⟨byClient, superseded, heq, hcases⟩
  · rw [heq]
    refine h.set hc rfl rfl rfl (by simp [Conn.Live, hopen]) (fun ht => ht) (by simp) rfl
      (fun id' => ?_) (fun id' e he => ?_) rfl rfl h.slots
    · show ((w.registry.byClient.insert id (w.registry.entry id)).get? id').getD {} = _
      rw [entry_insert]
      split
      · rename_i heqid
        rw [heqid]
      · rfl
    · dsimp only at he
      rw [Table.get?_insert] at he
      have hset : ∀ d, (w.conns.set n d)[n]? = some d := fun d =>
        List.getElem?_set_self (List.getElem?_eq_some_iff.mp hc).1
      split at he
      · rename_i heqid
        subst heqid
        refine Or.inr ⟨_, List.mem_of_getElem? (hset _), rfl, hnever, ?_⟩
        rw [Proto.clientId, hreg]
        exact hid
      · exact (h.clients id' e he).imp_right
          (refused_set hc rfl rfl fun hp => by simp [hopen] at hp)
  · rw [heq]
    dsimp only
    apply Tended.tell
    refine admit_tended h hc hnever rfl ?_ rfl rfl rfl hopen hcases
    cases close <;> simp [Conn.Live]

theorem step_tended {event : Event} (h : Tended none w) (ho : SameId w event)
    (hstep : step w event = some w') : Tended none w' := by
  cases event with
  | accept ip now =>
    obtain rfl := Option.some.inj hstep
    exact accept_tended h ho
  | received n now =>
    obtain ⟨c, hc, hopen, hclock, rfl⟩ := received_cases hstep
    have hregistry : w.registry.touch n now = { w.registry with
        conns := (w.registry.touch n now).conns } := by
      unfold State.touch
      split <;> rfl
    rw [hregistry]
    exact h.set hc rfl rfl rfl Iff.rfl (fun ht => ht) (fun hr => hr) rfl (fun _ => rfl)
      (fun id e he => (h.clients id e he).imp_right
        (refused_set hc rfl rfl fun hp => ⟨hp, rfl⟩)) rfl rfl h.slots
  | frame n line identity now =>
    obtain ⟨c, hc, hopen, hclock, proto, close, -, hcases⟩ := frame_cases hstep
    rcases hcases with ⟨reg, hregistered, hreg, rfl⟩ | ⟨-, rfl⟩
    · exact register_tended h hc hopen hregistered hreg
    · refine h.set hc rfl rfl rfl ?_ (fun ht => ht) (fun hr => hr) rfl (fun _ => rfl)
        (fun id e he => (h.clients id e he).imp_right
          (refused_set hc rfl rfl fun hp => by simp [hopen] at hp)) rfl rfl h.slots
      cases close <;> simp [Conn.Live, hopen]
  | finish n => exact finish_tended h ho hstep
  | release n => exact release_tended h hstep

theorem initial_tended (maxConnsPerClient maxConnsPerIp : Nat) :
    Tended none (initial maxConnsPerClient maxConnsPerIp) := by
  have hentry : ∀ id, (initial maxConnsPerClient maxConnsPerIp).registry.entry id = {} := by
    intro id
    simp [initial, State.new, State.entry]
  refine ⟨fun id n => ?_, fun id => ?_, fun id n hn => ?_, fun id n c a hu => ?_,
    fun c hc => ?_, fun c hc => ?_, fun id e he => ?_, fun n hn => ?_, fun id n c a hu => ?_,
    fun ip count hcount => ?_⟩
  · rw [hentry]
    constructor
    · intro hn
      exact absurd hn (Finset.notMem_empty n)
    · rintro ⟨c, a, hu⟩
      exact absurd hu.conn (by simp [initial])
  · rw [hentry]
    simp
  · simp [hentry] at hn
  · exact absurd hu.conn (by simp [initial])
  · simp [initial] at hc
  · simp [initial] at hc
  · simp [initial, State.new] at he
  · simp [initial, State.new] at hn
  · exact absurd hu.conn (by simp [initial])
  · simp [initial, State.new] at hcount

/-- **Nothing is left behind** in every run that takes connections out under their ids. -/
theorem nothing_left {w₀ : World} {events : List Event} (hstart : system.start w₀)
    (ho : system.Along SameId w₀ events) (hexec : system.exec w₀ events = some w) : Tidy w := by
  have hinv := reachable_inv ⟨w₀, events, hstart, hexec⟩
  obtain ⟨maxConnsPerClient, maxConnsPerIp, rfl⟩ := hstart
  exact (system.exec_induction (fun _ _ _ hi hC hn => step_tended hi hC hn)
    (initial_tended maxConnsPerClient maxConnsPerIp) ho hexec).tidy hinv

end

/-! ## Runs -/

/-- The condition, checked. -/
def sameId (w : World) : Event → Bool
  | .finish n => (w.conns[n]?).all fun c => c.admitted.all fun a => c.proto.clientId = a.clientId
  | .accept ip _ => ip.isLoopback || 0 < w.registry.maxConnsPerIp
  | _ => true

theorem sameId_of_check (w : World) (event : Event) (h : sameId w event = true) :
    SameId w event := by
  cases event with
  | finish n =>
    intro c a hc ha
    rw [sameId, hc, Option.all_some, ha, Option.all_some] at h
    exact of_decide_eq_true h
  | accept ip now =>
    intro hip
    simpa [sameId, hip] using h
  | _ => trivial

/-- A phone reconnects while its old main is still there, and a third socket is past its cap. -/
def reconnects : List Event :=
  [.accept phone 0, .frame 0 (hello "phone" false) .known 0, .accept phone 5,
    .frame 1 (hello "phone" false) .known 5, .accept phone 6,
    .frame 2 (hello "phone" false) .known 6, .finish 2, .finish 0, .release 0, .release 2]

theorem nothing_left_reconnects :
    ∃ w, system.exec (initial 2 10) reconnects = some w ∧
      (w.registry.entry "phone").conns = {1} ∧ (w.registry.entry "phone").main = some 1 ∧
      w.conns.map Conn.told = [true, false, false] ∧ Tidy w := by
  have hrun : (system.exec (initial 2 10) reconnects).any (fun w =>
      (w.registry.entry "phone").conns = {1} ∧ (w.registry.entry "phone").main = some 1 ∧
        w.conns.map Conn.told = [true, false, false]) = true := by decide +kernel
  have hcheck : system.checked sameId (initial 2 10) reconnects = true := by decide +kernel
  obtain ⟨w, hexec, hfacts⟩ := (Option.any_eq_true _ _).mp hrun
  obtain ⟨hconns, hmain, htold⟩ := of_decide_eq_true hfacts
  exact ⟨w, hexec, hconns, hmain, htold,
    nothing_left (⟨2, 10, rfl⟩ : system.start (initial 2 10))
      (system.along_of_checked sameId_of_check hcheck) hexec⟩

/-! ## Another id -/

/-- A V4 client names another id on a connection that is registered. -/
def namesAnother : List Event :=
  [.accept phone 0, .frame 0 (hello "phone" false) .known 0,
    .frame 0 (hello "tablet" false) .known 1, .finish 0, .release 0]

/-- The connection is gone and its entry is not. -/
theorem entry_left : ¬ ∀ w, system.Reachable w → Tidy w := by
  intro hall
  have hrun : (system.exec (initial 10 40) namesAnother).any (fun w =>
      0 ∈ (w.registry.entry "phone").conns ∧
        (w.conns[0]?.map Conn.phase) = some .released) = true := by decide +kernel
  obtain ⟨w, hexec, hfacts⟩ := (Option.any_eq_true _ _).mp hrun
  obtain ⟨hmem, hphase⟩ := of_decide_eq_true hfacts
  have htidy := hall w ⟨_, _, ⟨10, 40, rfl⟩, hexec⟩
  obtain ⟨c, a, hu⟩ := (htidy.members "phone" 0).mp hmem
  obtain ⟨d, hd, hreleased⟩ := Option.map_eq_some_iff.mp hphase
  obtain rfl := Option.some.inj (hu.conn.symm.trans hd)
  rcases hu.live with hp | hp <;> simp [hreleased] at hp

end Mbrc.Connections
