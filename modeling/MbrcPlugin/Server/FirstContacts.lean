import MbrcPlugin.Lib.Transition
import MbrcPlugin.Server.Clients

/-!
# First contacts

Handshakes that identify themselves at the same time.  A call reads the row of its `client_id` in
one transaction, which may fail, and writes it in another; between the two other calls read and
write.

`Call.issuedBefore` and `Call.rowThen` are there for the statements: no step of the code reads
them.
-/

namespace Mbrc.FirstContacts

open Clients

/-! ## Calls -/

inductive Phase where
  | reading
  /-- What was decided, and the row to write. -/
  | storing (identity : Identity) (record : Record)
  | answered (identity : Identity)
  deriving DecidableEq

/-- A call of `identify`. -/
structure Call where
  id : String
  token : Option String
  about : Introduction
  now : Int
  phase : Phase
  /-- The tokens that had been issued for the id when the call began. -/
  issuedBefore : List String
  /-- The row there was when the call was answered. -/
  rowThen : Option Record
  deriving DecidableEq

/-- The token that an answered call was issued. -/
def Call.issued (c : Call) : Option String :=
  match c.phase with
  | .answered (.issued token) => some token
  | _ => none

structure World where
  /-- The store is in use. -/
  active : Bool
  rows : Identities
  roles : Table String String
  calls : List Call

namespace World

/-- The row of an id, if there is one that this build can read. -/
def stored (w : World) (id : String) : Option Record := (w.rows.get? id).join

/-- The tokens that were issued for an id. -/
def issued (w : World) (id : String) : List String :=
  (w.calls.filter fun c => c.id = id).filterMap Call.issued

end World

/-! ## Steps -/

inductive Event where
  | call (id : String) (token : Option String) (about : Introduction) (now : Int)
  /-- The read transaction of a call, and the token there is for it. -/
  | read (n : Nat) (fails : Bool) (fresh : String)
  /-- The write transaction of a call. -/
  | write (n : Nat) (commits : Bool)
  | setRoles (roles : Table String String)

section

variable (hash : String → String)

def step (w : World) : Event → Option World
  | .call id token about now =>
    some { w with calls := w.calls ++ [{
      id, token, about, now
      phase := if w.active then .reading else .answered .known
      issuedBefore := if w.active then w.issued id else []
      rowThen := none }] }
  | .read n fails fresh => do
    let c ← w.calls[n]?
    match c.phase with
    | .reading =>
      let existing := if fails then none else w.stored c.id
      let decided := identify hash existing c.token c.about c.now fresh
      let phase : Phase := match decided.2 with
        | some record => .storing decided.1 record
        | none => .answered decided.1
      some { w with calls := w.calls.set n { c with phase, rowThen := w.stored c.id } }
    | _ => none
  | .write n commits => do
    let c ← w.calls[n]?
    match c.phase with
    | .storing identity record =>
      some { w with
        rows := if commits then store w.roles w.rows c.id record c.now else w.rows
        calls := w.calls.set n { c with
          phase := .answered identity, rowThen := w.stored c.id } }
    | _ => none
  | .setRoles roles => some { w with roles }

def system : Transition.System World Event where
  start w := w.calls = []
  next := step hash

end

/-! ## What is promised -/

section

variable (hash : String → String) (id : String)

/-- A call presents the token of a row. -/
def Call.Presents (c : Call) (record : Record) : Prop :=
  (c.token.any fun token => hash token = record.tokenHash) = true

/-- One installation has the id. -/
structure OneInstallation (w : World) : Prop where
  issued : ∀ (i j : Nat) (c d : Call), w.calls[i]? = some c → w.calls[j]? = some d →
    c.id = id → d.id = id → c.issued.isSome → d.issued.isSome → i = j
  returns : ∀ c ∈ w.calls, c.id = id → ∀ token ∈ c.issuedBefore, c.token = some token →
    ∀ identity, c.phase = .answered identity → identity = .known
  others : ∀ c ∈ w.calls, c.id = id → ∀ record, c.rowThen = some record →
    ¬ c.Presents hash record → ∀ identity, c.phase = .answered identity → identity = .refused

/-- The write of a call does not prune the row of the id. -/
def Spares (w : World) : Event → Prop
  | .write n _ => ∀ c identity record, w.calls[n]? = some c → c.phase = .storing identity record →
      (store w.roles w.rows c.id record c.now).get? id =
        (w.rows.insert c.id (some record)).get? id
  | _ => True

/-- A token is issued for the id only while it has no row, and the row is written. -/
def Alone (w : World) : Event → Prop
  | .write n commits => ∀ c token record, w.calls[n]? = some c → c.id = id →
      c.phase = .storing (.issued token) record → w.stored id = none ∧ commits = true
  | _ => True

/-- What a step has to meet. -/
def Orderly (w : World) (event : Event) : Prop := Spares id w event ∧ Alone id w event

end

/-! ## The invariant -/

section

variable {hash : String → String} {id : String}

/-- What holds of a call for an id with the given row. -/
structure Sound (hash : String → String) (row : Option Record) (c : Call) : Prop where
  earlier : ∀ token ∈ c.issuedBefore, ∃ r, row = some r ∧ r.tokenHash = hash token
  phase : match c.phase with
    | .reading => True
    | .storing .known record =>
      (∃ r, row = some r ∧ r.tokenHash = record.tokenHash) ∧ c.Presents hash record
    | .storing (.issued token) record => record.tokenHash = hash token
    | .storing .refused _ => False
    | .answered .known => ∀ r, c.rowThen = some r → c.Presents hash r
    | .answered (.issued token) =>
      c.rowThen = none ∧ c.issuedBefore = [] ∧ ∃ r, row = some r ∧ r.tokenHash = hash token
    | .answered .refused => ∀ token ∈ c.issuedBefore, c.token ≠ some token

/-- A row of the same token may take the place of a row. -/
theorem Sound.mono {row row' : Option Record} {c : Call} (h : Sound hash row c)
    (hrow : ∀ r, row = some r → ∃ r', row' = some r' ∧ r'.tokenHash = r.tokenHash) :
    Sound hash row' c := by
  have hkept : ∀ token, (∃ r, row = some r ∧ r.tokenHash = token) →
      ∃ r, row' = some r ∧ r.tokenHash = token := by
    rintro token ⟨r, hr, htoken⟩
    obtain ⟨r', hr', heq⟩ := hrow r hr
    exact ⟨r', hr', heq.trans htoken⟩
  refine ⟨fun token ht => hkept _ (h.earlier token ht), ?_⟩
  have hphase := h.phase
  split at hphase
  · trivial
  · exact ⟨hkept _ hphase.1, hphase.2⟩
  · exact hphase
  · exact hphase
  · exact hphase
  · exact ⟨hphase.1, hphase.2.1, hkept _ hphase.2.2⟩
  · exact hphase

structure Inv (hash : String → String) (id : String) (w : World) : Prop where
  sound : ∀ c ∈ w.calls, c.id = id → Sound hash (w.stored id) c
  issued : ∀ (i j : Nat) (c d : Call), w.calls[i]? = some c → w.calls[j]? = some d →
    c.id = id → d.id = id → c.issued.isSome → d.issued.isSome → i = j

variable {w w' : World} {c c' : Call} {n : Nat}

/-- A token that was issued has its row. -/
theorem Sound.row {row : Option Record} (h : Sound hash row c) {token : String}
    (ht : c.issued = some token) : ∃ r, row = some r ∧ r.tokenHash = hash token := by
  unfold Call.issued at ht
  split at ht
  · rename_i heq
    obtain rfl := Option.some.inj ht
    have hphase := h.phase
    rw [heq] at hphase
    exact hphase.2.2
  · simp at ht

/-- One call goes on; the row of the id stays of its token, and only one call is issued one. -/
theorem Inv.set {rows : Identities} (h : Inv hash id w)
    (hrow : ∀ r, w.stored id = some r →
      ∃ r', (rows.get? id).join = some r' ∧ r'.tokenHash = r.tokenHash)
    (hc : c'.id = id → Sound hash (rows.get? id).join c')
    (hissued : c'.id = id → c'.issued.isSome → ∀ d ∈ w.calls, d.id = id → d.issued = none) :
    Inv hash id { w with rows, calls := w.calls.set n c' } := by
  constructor
  · intro d hd hid
    rcases List.mem_or_eq_of_mem_set hd with hold | rfl
    · exact (h.sound d hold hid).mono hrow
    · exact hc hid
  · intro i j d e hi hj hd he hdi hei
    have hcases : ∀ {k : Nat} {d : Call}, (w.calls.set n c')[k]? = some d →
        (n = k ∧ d = c') ∨ w.calls[k]? = some d := by
      intro k d hk
      rw [List.getElem?_set] at hk
      split at hk
      · rename_i heq
        split at hk
        · exact Or.inl ⟨heq, (Option.some.inj hk).symm⟩
        · simp at hk
      · exact Or.inr hk
    rcases hcases hi with ⟨rfl, rfl⟩ | hi'
    · rcases hcases hj with ⟨rfl, -⟩ | hj'
      · rfl
      · rw [hissued hd hdi e (List.mem_of_getElem? hj') he] at hei
        simp at hei
    · rcases hcases hj with ⟨rfl, rfl⟩ | hj'
      · rw [hissued he hei d (List.mem_of_getElem? hi') hd] at hdi
        simp at hdi
      · exact h.issued i j d e hi' hj' hd he hdi hei

/-! ## Steps -/

theorem call_inv {call token} {about : Introduction} {now : Int} (h : Inv hash id w)
    (hstep : step hash w (.call call token about now) = some w') : Inv hash id w' := by
  obtain rfl := Option.some.inj hstep
  constructor
  · intro c hc hid
    rcases List.mem_append.mp hc with hold | hnew
    · exact h.sound c hold hid
    · obtain rfl := List.mem_singleton.mp hnew
      obtain rfl : call = id := hid
      constructor
      · intro token ht
        dsimp only at ht
        split at ht
        · obtain ⟨d, hd, htoken⟩ := List.mem_filterMap.mp ht
          obtain ⟨hmem, hid⟩ := List.mem_filter.mp hd
          exact (h.sound d hmem (of_decide_eq_true hid)).row htoken
        · simp at ht
      · dsimp only
        split <;> rename_i hphase <;> split at hphase <;> simp_all
  · intro i j c d hi hj hc hd hci hdi
    have hold : ∀ {k : Nat} {e : Call}, (w.calls ++ [{
        id := call, token, about, now
        phase := if w.active then .reading else .answered .known
        issuedBefore := if w.active then w.issued call else []
        rowThen := none }])[k]? = some e → e.issued.isSome →
        w.calls[k]? = some e := by
      intro k e hk hsome
      rw [List.getElem?_append] at hk
      split at hk
      · exact hk
      · obtain rfl := List.mem_singleton.mp (List.mem_of_getElem? hk)
        rw [Call.issued] at hsome
        split at hsome <;> rename_i hphase
        · split at hphase <;> simp at hphase
        · simp at hsome
    exact h.issued i j c d (hold hi hci) (hold hj hdi) hc hd hci hdi

theorem read_inv {fails : Bool} {fresh : String} (h : Inv hash id w)
    (hstep : step hash w (.read n fails fresh) = some w') : Inv hash id w' := by
  simp only [step, Option.bind_eq_bind, Option.bind_eq_some_iff] at hstep
  obtain ⟨c, hc, hsome⟩ := hstep
  split at hsome
  · rename_i hphase
    have hmem := List.mem_of_getElem? hc
    have hkeep : ∀ r, w.stored id = some r →
        ∃ r', (w.rows.get? id).join = some r' ∧ r'.tokenHash = r.tokenHash :=
      fun r hr => ⟨r, hr, rfl⟩
    obtain rfl := Option.some.inj hsome
    cases hexisting : if fails then none else w.stored c.id with
    | none =>
      refine h.set hkeep (fun hid => ⟨(h.sound c hmem hid).earlier, ?_⟩) ?_
      · simp only [identify]
      · simp [identify, Call.issued]
    | some record =>
      have hrow : w.stored c.id = some record := by
        split at hexisting
        · simp at hexisting
        · exact hexisting
      by_cases hpresents : c.Presents hash record
      · refine h.set hkeep (fun hid => ⟨(h.sound c hmem hid).earlier, ?_⟩) ?_
        · unfold Call.Presents at hpresents
          simp only [identify, if_pos hpresents]
          obtain rfl : c.id = id := hid
          exact ⟨⟨record, hrow, rfl⟩, hpresents⟩
        · unfold Call.Presents at hpresents
          simp only [identify, if_pos hpresents]
          simp [Call.issued]
      · refine h.set hkeep (fun hid => ⟨(h.sound c hmem hid).earlier, ?_⟩) ?_
        · obtain rfl : c.id = id := hid
          have hearlier := (h.sound c hmem rfl).earlier
          unfold Call.Presents at hpresents
          simp only [identify, if_neg hpresents]
          intro token ht heq
          obtain ⟨r, hr, htoken⟩ := hearlier token ht
          obtain rfl := Option.some.inj (hrow.symm.trans hr)
          rw [heq] at hpresents
          simp [htoken] at hpresents
        · unfold Call.Presents at hpresents
          simp only [identify, if_neg hpresents]
          simp [Call.issued]
  · simp at hsome

/-- What a write that spares the row of the id leaves of it. -/
theorem stored_write {identity : Identity} {record : Record} {commits : Bool}
    (hs : Spares id w (.write n commits)) (hc : w.calls[n]? = some c)
    (hphase : c.phase = .storing identity record) :
    ((if commits then store w.roles w.rows c.id record c.now else w.rows).get? id).join =
      if commits ∧ c.id = id then some record else w.stored id := by
  cases commits with
  | false => rfl
  | true =>
    rw [if_pos rfl, hs c identity record hc hphase, Table.get?_insert]
    by_cases hid : c.id = id
    · rw [if_pos hid, if_pos ⟨rfl, hid⟩]
      rfl
    · rw [if_neg hid, if_neg (fun h => hid h.2)]
      rfl

theorem write_inv {commits : Bool} (h : Inv hash id w) (ho : Orderly id w (.write n commits))
    (hstep : step hash w (.write n commits) = some w') : Inv hash id w' := by
  simp only [step, Option.bind_eq_bind, Option.bind_eq_some_iff] at hstep
  obtain ⟨c, hc, hsome⟩ := hstep
  split at hsome
  · rename_i identity record hphase
    have hmem := List.mem_of_getElem? hc
    have hrow := stored_write ho.1 hc hphase
    obtain rfl := Option.some.inj hsome
    cases identity with
    | known =>
      have hsound : c.id = id →
          (∃ r, w.stored id = some r ∧ r.tokenHash = record.tokenHash) ∧
            c.Presents hash record := by
        intro hid
        have := (h.sound c hmem hid).phase
        rwa [hphase] at this
      have hkeep : ∀ r, w.stored id = some r → ∃ r',
          ((if commits then store w.roles w.rows c.id record c.now else w.rows).get? id).join =
            some r' ∧ r'.tokenHash = r.tokenHash := by
        intro r hr
        rw [hrow]
        split
        · rename_i hboth
          obtain ⟨⟨r', hr', htoken⟩, -⟩ := hsound hboth.2
          obtain rfl := Option.some.inj (hr.symm.trans hr')
          exact ⟨record, rfl, htoken.symm⟩
        · exact ⟨r, hr, rfl⟩
      refine h.set hkeep (fun hid => ?_) (by simp [Call.issued])
      refine ⟨((h.sound c hmem hid).mono hkeep).earlier, ?_⟩
      show ∀ r, w.stored c.id = some r → c.Presents hash r
      intro r hr
      obtain rfl : c.id = id := hid
      obtain ⟨⟨r', hr', htoken⟩, hpresents⟩ := hsound rfl
      obtain rfl := Option.some.inj (hr.symm.trans hr')
      unfold Call.Presents at hpresents ⊢
      rwa [htoken]
    | issued token =>
      have halone : c.id = id → w.stored id = none ∧ commits = true :=
        fun hid => ho.2 c token record hc hid hphase
      have hkeep : ∀ r, w.stored id = some r → ∃ r',
          ((if commits then store w.roles w.rows c.id record c.now else w.rows).get? id).join =
            some r' ∧ r'.tokenHash = r.tokenHash := by
        intro r hr
        rw [hrow]
        split
        · rename_i hboth
          rw [(halone hboth.2).1] at hr
          simp at hr
        · exact ⟨r, hr, rfl⟩
      -- nobody was issued a token while there was no row
      have hnobody : w.stored id = none → ∀ d ∈ w.calls, d.id = id → d.issued = none := by
        intro hnone d hd hid
        cases hissued : d.issued with
        | none => rfl
        | some t =>
          obtain ⟨r, hr, -⟩ := (h.sound d hd hid).row hissued
          simp [hnone] at hr
      refine h.set hkeep (fun hid => ?_) fun hid _ => hnobody (halone hid).1
      refine ⟨((h.sound c hmem hid).mono hkeep).earlier, ?_⟩
      obtain ⟨hnone, hcommits⟩ := halone hid
      show w.stored c.id = none ∧ c.issuedBefore = [] ∧ _
      refine ⟨by rw [show c.id = id from hid, hnone], ?_, record, ?_, ?_⟩
      · rw [List.eq_nil_iff_forall_not_mem]
        intro t ht
        obtain ⟨r, hr, -⟩ := (h.sound c hmem hid).earlier t ht
        simp [hnone] at hr
      · rw [hrow, if_pos ⟨hcommits, hid⟩]
      · have := (h.sound c hmem hid).phase
        rwa [hphase] at this
    | refused =>
      by_cases hid : c.id = id
      · have := (h.sound c hmem hid).phase
        rw [hphase] at this
        exact this.elim
      · refine h.set ?_ (fun heq => absurd heq hid) fun heq => absurd heq hid
        intro r hr
        rw [hrow, if_neg fun hboth => hid hboth.2]
        exact ⟨r, hr, rfl⟩
  · simp at hsome

theorem step_inv {event : Event} (h : Inv hash id w) (ho : Orderly id w event)
    (hstep : step hash w event = some w') : Inv hash id w' := by
  cases event with
  | call call token about now => exact call_inv h hstep
  | read n fails fresh => exact read_inv h hstep
  | write n commits => exact write_inv h ho hstep
  | setRoles roles =>
    obtain rfl := Option.some.inj hstep
    exact ⟨h.sound, h.issued⟩

/-! ## Every run -/

/-- Calls that are sound are of one installation. -/
theorem Inv.one (h : Inv hash id w) : OneInstallation hash id w := by
  refine ⟨h.issued, ?_, ?_⟩
  · intro c hc hid token ht htoken identity hphase
    have hsound := (h.sound c hc hid).phase
    rw [hphase] at hsound
    cases identity with
    | known => rfl
    | issued fresh =>
      obtain ⟨-, hnone, -⟩ := hsound
      simp [hnone] at ht
    | refused => exact absurd htoken (hsound token ht)
  · intro c hc hid record hthen hpresents identity hphase
    have hsound := (h.sound c hc hid).phase
    rw [hphase] at hsound
    cases identity with
    | known => exact absurd (hsound record hthen) hpresents
    | issued fresh =>
      obtain ⟨hnone, -⟩ := hsound
      simp [hnone] at hthen
    | refused => rfl

/-- **One id, one installation** in every orderly run. -/
theorem one_installation {w₀ : World} {events : List Event} (hstart : (system hash).start w₀)
    (ho : (system hash).Along (Orderly id) w₀ events)
    (hexec : (system hash).exec w₀ events = some w) : OneInstallation hash id w := by
  have hnil : w₀.calls = [] := hstart
  have hinit : Inv hash id w₀ := by
    constructor
    · intro c hc
      simp [hnil] at hc
    · intro i j c d hi
      simp [hnil] at hi
  exact ((system hash).exec_induction (fun _ _ _ hi hC hn => step_inv hi hC hn) hinit ho hexec).one

end

/-! ## Runs -/

def tokenA : String := "a3a3a3a3a3a3a3a3a3a3a3a3a3a3a3a3a3a3a3a3"

def tokenB : String := "5c5c5c5c5c5c5c5c5c5c5c5c5c5c5c5c5c5c5c5c"

/-- The hash, as far as the runs below need it. -/
def sha1 (token : String) : String :=
  if token = tokenA then "17452e96426b61a92adaf952272fda246a8eba75"
  else if token = tokenB then "8e6fd3444e8950d86693649b8954cbfd37349bf5"
  else "?" ++ token

def about : Introduction := { name := some "Pixel", clientType := "android", address := none }

def World.fresh : World :=
  { active := true, rows := Table.empty, roles := Table.empty, calls := [] }

def spares (id : String) (w : World) : Event → Bool
  | .write n _ => (w.calls[n]?).all fun c => match c.phase with
    | .storing _ record =>
      (store w.roles w.rows c.id record c.now).get? id =
        (w.rows.insert c.id (some record)).get? id
    | _ => true
  | _ => true

def alone (id : String) (w : World) : Event → Bool
  | .write n commits => (w.calls[n]?).all fun c => match c.phase with
    | .storing (.issued _) _ => c.id ≠ id || ((w.stored id).isNone && commits)
    | _ => true
  | _ => true

theorem spares_of_check {id : String} (w : World) (event : Event)
    (h : spares id w event = true) : Spares id w event := by
  cases event with
  | write n commits =>
    intro c identity record hc hphase
    rw [spares, hc, Option.all_some, hphase] at h
    exact of_decide_eq_true h
  | _ => trivial

theorem orderly_of_check {id : String} (w : World) (event : Event)
    (h : (spares id w event && alone id w event) = true) : Orderly id w event := by
  obtain ⟨hspares, halone⟩ := Bool.and_eq_true_iff.mp h
  refine ⟨spares_of_check w event hspares, ?_⟩
  cases event with
  | write n commits =>
    intro c token record hc hid hphase
    rw [alone, hc, Option.all_some, hphase] at halone
    simpa [hid] using halone
  | _ => trivial

/-- A phone is issued a token and comes back with it while another app is new, and a stranger
without it is refused. -/
def oneByOne : List Event :=
  [.call "phone" none about 0, .read 0 false tokenA, .write 0 true,
    .call "phone" (some tokenA) about 5, .call "other" none about 5, .read 1 false "",
    .read 2 false tokenB, .write 2 true, .write 1 true, .call "phone" (some tokenB) about 6,
    .read 3 false ""]

theorem one_installation_oneByOne :
    ∃ w, (system sha1).exec World.fresh oneByOne = some w ∧
      w.calls.map Call.phase = [.answered (.issued tokenA), .answered .known,
        .answered (.issued tokenB), .answered .refused] ∧
      OneInstallation sha1 "phone" w := by
  have hrun : ((system sha1).exec World.fresh oneByOne).any (fun w =>
      w.calls.map Call.phase = [.answered (.issued tokenA), .answered .known,
        .answered (.issued tokenB), .answered .refused]) = true := by decide +kernel
  have hcheck : (system sha1).checked
      (fun w event => spares "phone" w event && alone "phone" w event) World.fresh oneByOne =
        true := by decide +kernel
  obtain ⟨w, hexec, hphases⟩ := (Option.any_eq_true _ _).mp hrun
  exact ⟨w, hexec, of_decide_eq_true hphases,
    one_installation (rfl : World.fresh.calls = [])
      ((system sha1).along_of_checked orderly_of_check hcheck) hexec⟩

/-! ## Two first contacts -/

/-- Two handshakes with a new id read before either has written. -/
def together : List Event :=
  [.call "shared" none about 0, .call "shared" none about 0, .read 0 false tokenA,
    .read 1 false tokenB, .write 0 true, .write 1 true, .call "shared" (some tokenA) about 1,
    .read 2 false ""]

/-- Both are issued a token, and the first is refused when it comes back. -/
theorem both_issued :
    ¬ ∀ (id : String) (w₀ w : World) (events : List Event), (system sha1).start w₀ →
      (system sha1).Along (Spares id) w₀ events → (system sha1).exec w₀ events = some w →
        OneInstallation sha1 id w := by
  intro hall
  have hrun : ((system sha1).exec World.fresh together).any (fun w =>
      (w.calls[0]?.map fun c => (c.id, c.issued)) = some ("shared", some tokenA) ∧
        (w.calls[1]?.map fun c => (c.id, c.issued)) = some ("shared", some tokenB)) = true := by
    decide +kernel
  have hcheck : (system sha1).checked (spares "shared") World.fresh together = true := by
    decide +kernel
  obtain ⟨w, hexec, hfacts⟩ := (Option.any_eq_true _ _).mp hrun
  obtain ⟨hfirst, hsecond⟩ := of_decide_eq_true hfacts
  obtain ⟨a, ha, hfirst⟩ := Option.map_eq_some_iff.mp hfirst
  obtain ⟨b, hb, hsecond⟩ := Option.map_eq_some_iff.mp hsecond
  obtain ⟨haid, haissued⟩ := Prod.mk.inj hfirst
  obtain ⟨hbid, hbissued⟩ := Prod.mk.inj hsecond
  have hone := hall "shared" World.fresh w together (rfl : World.fresh.calls = [])
    ((system sha1).along_of_checked spares_of_check hcheck) hexec
  have heq := hone.issued 0 1 a b ha hb haid hbid (by rw [haissued]; rfl) (by rw [hbissued]; rfl)
  exact absurd heq (by decide)

end Mbrc.FirstContacts
