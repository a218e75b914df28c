import MbrcPlugin.Web.Revocation

/-!
# Revocation, in every run

The writes of the store, the start of the next process, and the theorem: `revocation_final` for the
runs whose steps are `Orderly`, and a run that is not, in which an unpaired browser comes back.
-/

namespace Mbrc.Pairing

open Permissions WriteBehind

section

variable {w w' : World} {n : Nat}

/-! ## The store -/

/-- A call that goes has nothing left for the other keys. -/
theorem pending_eraseIdx {call : Call} {k : String} {r : Option Record}
    (hn : w.calls[n]? = some call) (hcall : ¬ call.Pending k r) (h : w.Pending k r) :
    ∃ c ∈ w.calls.eraseIdx n, c.Pending k r := by
  obtain ⟨c, hc, hp⟩ := h
  refine ⟨c, ?_, hp⟩
  rw [List.mem_eraseIdx_iff_getElem?]
  obtain ⟨m, hm⟩ := List.mem_iff_getElem?.mp hc
  refine ⟨m, ?_, hm⟩
  rintro rfl
  rw [hn] at hm
  obtain rfl := Option.some.inj hm
  exact hcall hp

theorem Brings.pending {id : String} {left : Option Record} (h : Brings w n id left) :
    left = w.memory.record id ∨
      ∃ c ∈ w.calls.eraseIdx n, c.Pending id (w.memory.record id) := by
  rcases h with heq | ⟨m, c, hm, hc, hp⟩
  · exact Or.inl heq
  · refine Or.inr ⟨c, ?_, hp⟩
    rw [List.mem_eraseIdx_iff_getElem?]
    exact ⟨m, hm, hc⟩

/-- Only one record of the store is written. -/
def WrittenAt (id : String) (stored stored' : Stored) : Prop :=
  ∀ k, k ≠ id → stored'.get? k = stored.get? k

/-- A write that ends leaves the record of one id to be accounted for. -/
theorem Inv.land {id : String} {stored : Stored} {calls : List Call} {gone : List String}
    (h : Inv w) (hstored : WrittenAt id w.stored stored)
    (hpending : ∀ k r, k ≠ id → w.Pending k r → ∃ call ∈ calls, call.Pending k r)
    (hcalls : ∀ call ∈ calls, call ∈ w.calls ∨ call.Sound w)
    (hgone : ∀ k ∈ gone, k ∈ w.gone ∨ (k ∈ w.used ∧ w.memory.record k = none))
    (hleft : stored.get? id = w.memory.record id ∨
      ∃ call ∈ calls, call.Pending id (w.memory.record id)) :
    Inv { w with stored, calls, gone } := by
  have hmoves : Moves w { w with stored, calls, gone } := .of_record rfl rfl rfl
  refine h.moves hmoves (h.behind.land hstored hpending hleft) h.filed (fun call hcall => ?_) hgone
    h.spent h.next
  rcases hcalls call hcall with hold | hsound
  · exact Or.inl hold
  · exact Or.inr (hsound.moves hmoves)

theorem writtenAt_write {client : PairedClient} {lands : Bool} {stored : Stored} :
    WrittenAt client.id stored (if lands then write stored client else stored) := by
  intro k hk
  split
  · rw [write, Table.get?_insert, if_neg (Ne.symm hk)]
  · rfl

theorem writtenAt_forget {id : String} {lands : Bool} {stored : Stored} :
    WrittenAt id stored (if lands then forget stored id else stored) := by
  intro k hk
  split
  · rw [forget, Table.get?_erase, if_neg (Ne.symm hk)]
  · rfl

theorem get?_write {client : PairedClient} {lands : Bool} {stored : Stored} :
    (if lands then write stored client else stored).get? client.id =
      if lands then some client.record else stored.get? client.id := by
  split
  · rw [write, Table.get?_insert, if_pos rfl]
  · rfl

theorem get?_forget {id : String} {lands : Bool} {stored : Stored} :
    (if lands then forget stored id else stored).get? id =
      if lands then none else stored.get? id := by
  split
  · rw [forget, Table.get?_erase, if_pos rfl]
  · rfl

theorem Inv.write {client : PairedClient} {lands : Bool} (h : Inv w)
    (hn : w.calls[n]? = some (.write client))
    (ho : Brings w n client.id (if lands then some client.record else w.stored.get? client.id)) :
    Inv { w with
      stored := if lands then Pairing.write w.stored client else w.stored
      calls := w.calls.eraseIdx n } := by
  refine h.land writtenAt_write (fun k r hk hp => ?_)
    (fun call hcall => .inl (List.mem_of_mem_eraseIdx hcall)) (fun k hk => .inl hk) ?_
  · exact pending_eraseIdx hn (fun hpend => hk hpend.1) hp
  · rw [get?_write]
    exact ho.pending

theorem Inv.forget {id : String} {lands : Bool} (h : Inv w)
    (hn : w.calls[n]? = some (.revoke id))
    (ho : Brings w n id (if lands then none else w.stored.get? id)) :
    Inv { w with
      stored := if lands then Pairing.forget w.stored id else w.stored
      calls := w.calls.eraseIdx n, gone := id :: w.gone } := by
  refine h.land writtenAt_forget (fun k r hk hp => ?_)
    (fun call hcall => .inl (List.mem_of_mem_eraseIdx hcall)) (fun k hk => ?_) ?_
  · exact pending_eraseIdx hn (fun hpend => hk hpend.1) hp
  · rcases List.mem_cons.mp hk with rfl | hold
    · exact Or.inr (h.calls _ (List.mem_of_getElem? hn))
    · exact Or.inl hold
  · rw [get?_forget]
    exact ho.pending

/-- `revoke_all` forgets one of what it dropped. -/
theorem Inv.forgetOne {id : String} {todo dropped : List String} {code : Nat} {lands : Bool}
    (h : Inv w) (hn : w.calls[n]? = some (.revokeAll todo dropped code))
    (ho : Brings w n id (if lands then none else w.stored.get? id)) :
    Inv { w with
      stored := if lands then Pairing.forget w.stored id else w.stored
      calls := w.calls.set n (.revokeAll (todo.erase id) dropped code) } := by
  have hlt : n < w.calls.length := (List.getElem?_eq_some_iff.mp hn).1
  refine h.land writtenAt_forget ?_ (fun call hcall => ?_) (fun k hk => .inl hk) ?_
  · rintro k r hk ⟨call, hcall, hp⟩
    obtain ⟨m, hm⟩ := List.mem_iff_getElem?.mp hcall
    by_cases hmn : n = m
    · rw [← hmn, hn] at hm
      obtain rfl := Option.some.inj hm
      exact ⟨_, List.mem_set hlt _, (List.mem_erase_of_ne hk).mpr hp.1, hp.2⟩
    · exact ⟨call, List.mem_iff_getElem?.mpr ⟨m, by rw [List.getElem?_set_ne hmn, hm]⟩, hp⟩
  · rcases List.mem_or_eq_of_mem_set hcall with hold | rfl
    · exact Or.inl hold
    · exact Or.inr (h.calls (.revokeAll todo dropped code) (List.mem_of_getElem? hn))
  · rw [get?_forget]
    rcases ho with heq | ⟨m, c, hm, hc, hp⟩
    · exact Or.inl heq
    · exact Or.inr ⟨c, List.mem_iff_getElem?.mpr ⟨m, by rw [List.getElem?_set_ne hm.symm, hc]⟩, hp⟩

theorem Inv.done {dropped : List String} {code : Nat} (h : Inv w)
    (hn : w.calls[n]? = some (.revokeAll [] dropped code)) :
    Inv { w with
      calls := w.calls.eraseIdx n, gone := dropped ++ w.gone, spent := max w.spent code } := by
  obtain ⟨hcode, hdropped⟩ := h.calls _ (List.mem_of_getElem? hn)
  refine h.moves (.of_record rfl rfl rfl) (h.behind.mono fun k r hp => ?_) h.filed
    (fun call hcall => .inl (List.mem_of_mem_eraseIdx hcall)) (fun k hk => ?_)
    (max_le h.spent hcode) h.next
  · exact pending_eraseIdx hn (fun hpend => List.not_mem_nil hpend.1) hp
  · rcases List.mem_append.mp hk with hin | hold
    · exact Or.inr (hdropped k hin)
    · exact Or.inl hold

/-! ## The next start -/

theorem get?_open {stored : Stored} (hfiled : Filed stored) (id : String) :
    (State.«open» {} stored).tokens.get? id = (stored.get? id).map Record.client := by
  have hkeys : stored.rows.map (fun row => row.2.id) = stored.rows.map Prod.fst := by
    refine List.map_congr_left ?_
    rintro ⟨k, r⟩ hrow
    exact hfiled k r (Table.mem_rows.mp hrow)
  show (stored.rows.foldl (fun t row => t.insert row.2.id row.2.client) Table.empty).get? id = _
  cases hr : stored.get? id with
  | none =>
    rw [Table.get?_foldl_insert (fun row : String × Record => row.2.id)
      (fun row => row.2.client), Table.get?_empty]
    · rfl
    · rw [hkeys, List.mem_map]
      rintro ⟨⟨k, r⟩, hrow, rfl⟩
      rw [Table.mem_rows.mp hrow] at hr
      simp at hr
  | some r =>
    have hin := Table.get?_foldl_insert_of_mem (fun row : String × Record => row.2.id)
      (fun row => row.2.client) (by rw [hkeys]; exact stored.keys_nodup) (Table.mem_rows.mpr hr)
      Table.empty
    rwa [show ((id, r) : String × Record).2.id = id from hfiled id r hr] at hin

theorem record_open {stored : Stored} (hfiled : Filed stored) :
    (State.«open» {} stored).record = stored.get? := by
  funext id
  rw [State.record, get?_open hfiled, Option.map_map]
  exact congrFun Option.map_id_fun (stored.get? id)

/-- With no call under way the store is memory's. -/
theorem Inv.stored_eq (h : Inv w) (hcalls : w.calls = []) :
    w.stored.get? = w.memory.record :=
  h.behind.agree fun id r hp => by
    obtain ⟨call, hcall, -⟩ := hp
    rw [hcalls] at hcall
    exact List.not_mem_nil hcall

theorem Inv.filed_stored (h : Inv w) (hcalls : w.calls = []) : Filed w.stored := by
  intro id r hr
  rw [h.stored_eq hcalls, State.record, Option.map_eq_some_iff] at hr
  obtain ⟨c, hc, rfl⟩ := hr
  exact (h.filed id c hc).1

theorem Inv.restart (h : Inv w) (hcalls : w.calls = []) :
    Inv { w with memory := State.«open» {} w.stored } := by
  have hfiled := h.filed_stored hcalls
  have hrecord : (State.«open» {} w.stored).record = w.memory.record := by
    rw [record_open hfiled, h.stored_eq hcalls]
  refine h.moves (.of_record rfl rfl hrecord) ?_ (fun id c hc => ?_) (fun call hcall => .inl hcall)
    (fun k hk => .inl hk) h.spent h.next
  · show Behind (State.record _) w.stored.get? w.Pending
    rw [hrecord]
    exact h.behind
  · rw [get?_open hfiled, Option.map_eq_some_iff] at hc
    obtain ⟨r, hr, rfl⟩ := hc
    have hmem := hr
    rw [h.stored_eq hcalls, State.record, Option.map_eq_some_iff] at hmem
    obtain ⟨c, hc, -⟩ := hmem
    exact ⟨hfiled id r hr, (h.filed id c hc).2⟩

end

/-! ## Every run -/

variable {clientId : String → String} {w w' : World}

theorem isPaired_iff {s : State} {token : String} {now : Int} :
    (s.isPaired clientId token now).2 = true ↔ s.record (clientId token) ≠ none := by
  unfold State.isPaired State.pairedId State.record
  cases s.tokens.get? (clientId token) <;> simp

theorem refuses_of_record {s : State} (h : Inv w) (hs : s.record = w.memory.record) :
    Refuses clientId w s := by
  intro token now hpaired
  rw [isPaired_iff, hs] at hpaired
  refine ⟨fun hgone => hpaired (h.gone _ hgone).2, ?_⟩
  cases hc : w.memory.tokens.get? (clientId token) with
  | none =>
    rw [State.record, hc] at hpaired
    exact absurd rfl hpaired
  | some c => exact le_trans h.spent (h.filed _ c hc).2.2

theorem Inv.final (h : Inv w) : Final clientId w where
  refuses := refuses_of_record h rfl
  restarted hcalls :=
    refuses_of_record h (by rw [record_open (h.filed_stored hcalls), h.stored_eq hcalls])
  stored hcalls id := by rw [h.stored_eq hcalls]

theorem initial_inv {stored : Stored} (hfiled : Filed stored) : Inv (World.opened stored) where
  behind id := Or.inl (congrFun (record_open hfiled) id).symm
  filed id c hc := by
    rw [show (World.opened stored).memory = State.«open» {} stored from rfl, get?_open hfiled,
      Option.map_eq_some_iff] at hc
    obtain ⟨r, hr, rfl⟩ := hc
    refine ⟨hfiled id r hr, ?_, le_rfl⟩
    exact List.mem_map.mpr ⟨(id, r), Table.mem_rows.mpr hr, rfl⟩
  calls call hcall := absurd hcall List.not_mem_nil
  gone id hid := absurd hid List.not_mem_nil
  spent := le_rfl
  next := Nat.zero_le 1

theorem step_inv {event : Event} (h : Inv w) (ho : Orderly clientId w event)
    (hstep : step clientId w event = some w') : Inv w' := by
  cases event with
  | newCode code role now =>
    obtain rfl := Option.some.inj hstep
    exact h.codes rfl (Nat.le_succ _)
  | takeCode offered label address now =>
    have ht := State.takeCodeAt_tokens (s := w.memory) offered address now
    simp only [step] at hstep
    split at hstep <;> rename_i memory _ heq <;> rw [heq] at ht <;>
      obtain rfl := Option.some.inj hstep
    · exact (h.codes ht le_rfl).take
    · exact h.codes ht le_rfl
  | mint n token now =>
    simp only [step] at hstep
    split at hstep
    · rename_i label address role code hn
      obtain rfl := Option.some.inj hstep
      obtain ⟨hcode, hnew⟩ := ho label address role code hn
      exact h.mint hn hcode hnew
    · simp at hstep
  | pairedId token address now =>
    obtain rfl := Option.some.inj hstep
    unfold State.pairedId
    split
    · rename_i client hc
      have hid := (h.filed _ client hc).1
      exact h.touch hc rfl
    · exact h
  | rename id label =>
    obtain rfl := Option.some.inj hstep
    unfold State.rename
    split
    · rename_i client hc
      exact h.touch hc rfl
    · exact h
  | revoke id =>
    simp only [step, State.revoke] at hstep
    split at hstep
    · rename_i heq
      obtain ⟨rfl, hsome⟩ := Prod.mk.inj heq
      obtain rfl := Option.some.inj hstep
      obtain ⟨c, hc⟩ := Option.isSome_iff_exists.mp hsome
      exact h.revoke hc
    · rename_i heq
      obtain ⟨rfl, hnone⟩ := Prod.mk.inj heq
      obtain rfl := Option.some.inj hstep
      rw [Table.erase_of_none (Option.not_isSome_iff_eq_none.mp (by simp [hnone]))]
      exact h
  | revokeAll =>
    obtain rfl := Option.some.inj hstep
    exact h.revokeAll
  | write n lands =>
    simp only [step] at hstep
    split at hstep
    · rename_i client hn
      obtain rfl := Option.some.inj hstep
      exact h.write hn (ho client hn)
    · simp at hstep
  | forget n id lands =>
    simp only [step] at hstep
    split at hstep
    · rename_i id' hn
      split at hstep
      · rename_i heq
        obtain rfl := heq
        obtain rfl := Option.some.inj hstep
        exact h.forget hn ho
      · simp at hstep
    · rename_i todo dropped code hn
      split at hstep
      · obtain rfl := Option.some.inj hstep
        exact h.forgetOne hn ho
      · simp at hstep
    · simp at hstep
  | done n =>
    simp only [step] at hstep
    split at hstep
    · rename_i dropped code hn
      obtain rfl := Option.some.inj hstep
      exact h.done hn
    · simp at hstep
  | restart =>
    simp only [step] at hstep
    split at hstep
    · rename_i hcalls
      obtain rfl := Option.some.inj hstep
      exact h.restart hcalls
    · simp at hstep

/-- **Revocation is final** in every orderly run. -/
theorem revocation_final {stored : Stored} {events : List Event} (hfiled : Filed stored)
    (ho : (system clientId).Along (Orderly clientId) (World.opened stored) events)
    (hexec : (system clientId).exec (World.opened stored) events = some w) : Final clientId w :=
  ((system clientId).exec_induction (fun _ _ _ hi hC hn => step_inv hi hC hn) (initial_inv hfiled)
    ho hexec).final

/-- A token and its hash. -/
def phoneToken : String := "0000000000000000000000000000000000000000000000000000000000000000"

def phoneId : String := "0114498021cb8c4f1519f96bdf58dd806f3adb63"

/-- The hash, as far as the runs below need it. -/
def phoneHash (token : String) : String := if token = phoneToken then phoneId else token

def calm (w : World) : Event → Bool
  | .mint n token _ => (w.calls[n]?).all fun
    | .redeem _ _ _ code => w.cleared ≤ code && phoneHash token ∉ w.used
    | _ => true
  | .write n lands => (w.calls[n]?).all fun
    | .write client =>
      (if lands then some client.record else w.stored.get? client.id) = w.memory.record client.id
    | _ => true
  | .forget _ id lands => (if lands then none else w.stored.get? id) = w.memory.record id
  | _ => true

theorem orderly_of_calm (w : World) (event : Event) (h : calm w event = true) :
    Orderly phoneHash w event := by
  cases event with
  | mint n token now =>
    intro label address role code hn
    rw [calm, hn, Option.all_some, Bool.and_eq_true, decide_eq_true_eq, decide_eq_true_eq] at h
    exact h
  | write n lands =>
    intro client hn
    rw [calm, hn, Option.all_some, decide_eq_true_eq] at h
    exact Or.inl h
  | forget n id lands =>
    rw [calm, decide_eq_true_eq] at h
    exact Or.inl h
  | _ => trivial

/-- A phone pairs. -/
def phonePairs : List Event :=
  [.newCode "123456" .host 0, .takeCode "123456" "phone" "192.168.1.20" (seconds 30),
    .mint 0 phoneToken 1000, .write 0 true]

/-- The phone pairs, is seen and is unpaired. -/
def oneByOne : List Event :=
  phonePairs ++ [.pairedId phoneToken none 1001, .write 0 true, .revoke phoneId,
    .forget 0 phoneId true, .restart]

theorem revocation_final_oneByOne :
    ∃ w, (system phoneHash).exec (World.opened Table.empty) oneByOne = some w ∧
      w.gone = [phoneId] ∧ Final phoneHash w := by
  have hrun : ((system phoneHash).exec (World.opened Table.empty) oneByOne).any
      (fun w => w.gone = [phoneId]) = true := by decide +kernel
  have hcalm : (system phoneHash).checked calm (World.opened Table.empty) oneByOne = true := by
    decide +kernel
  obtain ⟨w, hexec, hgone⟩ := (Option.any_eq_true _ _).mp hrun
  exact ⟨w, hexec, of_decide_eq_true hgone,
    revocation_final (fun id r hr => by simp at hr)
      ((system phoneHash).along_of_checked orderly_of_calm hcalm) hexec⟩

/-! ## Seen while it is unpaired -/

/-- The phone is seen before it is unpaired, and written down after. -/
def seenLate : List Event :=
  phonePairs ++ [.pairedId phoneToken none 1001, .revoke phoneId, .forget 1 phoneId true,
    .write 0 true, .restart]

/-- The next process admits the phone. -/
theorem revoked_comes_back :
    ¬ ∀ stored events w, Filed stored →
      (system phoneHash).exec (World.opened stored) events = some w → Final phoneHash w := by
  intro hall
  have hrun : ((system phoneHash).exec (World.opened Table.empty) seenLate).any (fun w =>
      w.gone = [phoneId] ∧ (w.memory.isPaired phoneHash phoneToken 1002).2 = true) = true := by
    decide +kernel
  obtain ⟨w, hexec, hfacts⟩ := (Option.any_eq_true _ _).mp hrun
  obtain ⟨hgone, hpaired⟩ := of_decide_eq_true hfacts
  have hfinal := hall Table.empty seenLate w (fun id r hr => by simp at hr) hexec
  refine (hfinal.refuses phoneToken 1002 hpaired).1 ?_
  rw [hgone, phoneHash, if_pos rfl]
  exact List.mem_singleton.mpr rfl

end Mbrc.Pairing
