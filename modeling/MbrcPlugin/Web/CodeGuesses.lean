import Mathlib.Data.List.Dedup
import Mathlib.Logic.Function.Basic
import Std.Data.String.ToNat
import MbrcPlugin.Lib.Transition
import MbrcPlugin.Web.Pairing

/-!
# Guessing a pairing code

Codes are minted, offered and dropped in any order, from any addresses.  What has happened is kept
as a history, and what a code and an address have coming is read off it: `sinceMint` is the life of
the code that is out, `recalled` what is held against an address.  The table that holds the wrong
codes is bounded: a wrong code from a new address that finds it full makes it forget every address
that is not inside a wait.  `guesses_bounded` says that this is all it forgets as long as fewer
addresses are inside a wait than the table has room for.

The counts are numbers here; the code's are `u32` and checked.
-/

namespace Mbrc.Pairing

open Permissions

/-! ## What has happened -/

/-- A call that has returned, with what it answered. -/
inductive Entry where
  | minted (code : String) (role : Role) (issued : Nat)
  | accepted (offered address : String) (now : Nat) (role : Role)
  | wrong (offered address : String) (now : Nat)
  /-- An offer that was compared with no code. -/
  | refused (offered address : String) (now : Nat) (why : PairingRefused)
  | revokedAll
  deriving DecidableEq

namespace Entry

def ofAnswer (offered address : String) (now : Nat) : Except PairingRefused Role → Entry
  | .ok role => .accepted offered address now role
  | .error .wrongCode => .wrong offered address now
  | .error why => .refused offered address now why

def isMinted : Entry → Bool
  | .minted .. => true
  | _ => false

def isWrong : Entry → Bool
  | .wrong .. => true
  | _ => false

/-- The code that is out is out no longer. -/
def spends : Entry → Bool
  | .accepted .. | .revokedAll => true
  | _ => false

def guesser : Entry → Option String
  | .wrong _ address _ => some address
  | _ => none

end Entry

/-- What has happened since the last code was minted. -/
def sinceMint (past : List Entry) : List Entry := past.takeWhile fun e => !e.isMinted

def lastMint (past : List Entry) : Option Entry := past.find? (·.isMinted)

@[simp] theorem sinceMint_minted (code : String) (role : Role) (issued : Nat)
    (past : List Entry) : sinceMint (.minted code role issued :: past) = [] := rfl

/-! ## What is held against an address -/

abbrev Memory : Type := String → Strikes

def fresh : Strikes := { wrong := 0, blockedUntil := none }

/-- The wait that starts with the wrong code this many past the free ones. -/
def waitAfter (past : Nat) : Nat := min (firstBackoff * 2 ^ past) maxBackoff

def Strikes.again (s : Strikes) (now : Nat) : Strikes :=
  { wrong := s.wrong + 1
    blockedUntil :=
      if freeWrongCodes ≤ s.wrong + 1 then some (now + waitAfter (s.wrong + 1 - freeWrongCodes))
      else s.blockedUntil }

def Strikes.waits (s : Strikes) (now : Nat) : Bool := s.blockedUntil.any (now < ·)

def guessers (past : List Entry) : List String := (past.filterMap (·.guesser)).dedup

/-- The addresses that have wrong codes to their name. -/
def tracked (m : Memory) (past : List Entry) : List String :=
  (guessers past).filter fun a => (m a).wrong ≠ 0

/-- The addresses inside a wait. -/
def waiting (m : Memory) (past : List Entry) (now : Nat) : List String :=
  (guessers past).filter fun a => (m a).waits now

/-- A wrong code from a new address finds as many tracked as there may be. -/
def crowded (m : Memory) (past : List Entry) (address : String) : Bool :=
  (m address).wrong = 0 && maxTrackedAddresses ≤ (tracked m past).length

/-- What a history holds against each address.  A right code clears its address; `forgets` says
whether a crowded wrong code clears those that are not inside a wait. -/
def recalled (forgets : Bool) : List Entry → Memory
  | [] => fun _ => fresh
  | .wrong _ address now :: past =>
    let before := recalled forgets past
    let kept : Memory := fun a =>
      if forgets && crowded before past address && !(before a).waits now then fresh else before a
    Function.update kept address ((kept address).again now)
  | .accepted _ address _ _ :: past => Function.update (recalled forgets past) address fresh
  | _ :: past => recalled forgets past

/-! ## Runs -/

structure Guessing where
  state : State := {}
  clock : Nat := 0
  past : List Entry := []

inductive Guess where
  | newCodeFor (code : String) (role : Role) (now : Nat)
  | takeCode (offered address : String) (now : Nat)
  | revokeAll (now : Nat)
  deriving DecidableEq

def Guess.now : Guess → Nat
  | .newCodeFor _ _ now | .takeCode _ _ now | .revokeAll now => now

namespace Guessing

def after (w : Guessing) : Guess → Guessing
  | .newCodeFor code role now =>
    { state := w.state.newCodeFor code role now, clock := now
      past := .minted code role now :: w.past }
  | .takeCode offered address now =>
    let (state, answer) := w.state.takeCodeAt offered address now
    { state, clock := now, past := .ofAnswer offered address now answer :: w.past }
  | .revokeAll now => { state := w.state.revokeAll.1, clock := now, past := .revokedAll :: w.past }

/-- The clock does not run backwards. -/
def step (w : Guessing) (e : Guess) : Option Guessing :=
  if w.clock ≤ e.now then some (w.after e) else none

def system : Transition.System Guessing Guess where
  start w := w = {}
  next := step

/-- Fewer addresses are inside a wait than the table has room for. -/
def FewWaiting (forgets : Bool) (w : Guessing) (e : Guess) : Prop :=
  (waiting (recalled forgets w.past) w.past e.now).length < maxTrackedAddresses

/-- What an offer is compared with, if it is: the last code minted, not taken or dropped since,
not lapsed, and not tried too often. -/
structure Compared (w : Guessing) (code : String) (role : Role) (now : Nat) : Prop where
  minted : ∃ issued, lastMint w.past = some (.minted code role issued) ∧ now - issued < codeTtl
  unspent : ∀ e ∈ sinceMint w.past, e.spends = false
  tries : (sinceMint w.past).countP (·.isWrong) < maxWrongPerCode

/-- **No grinding.** An offer is accepted or found wrong against the code that is out, for its
role, and an address inside the wait that the history has for it is refused with what is left. -/
structure Bounded (forgets : Bool) (w : Guessing) (offered address : String) (now : Nat) :
    Prop where
  accepted : ∀ role, (w.state.takeCodeAt offered address now).2 = .ok role →
    w.Compared offered role now
  wrong : (w.state.takeCodeAt offered address now).2 = .error .wrongCode →
    ∃ code role, code ≠ offered ∧ w.Compared code role now
  waits : ∀ blocked, (recalled forgets w.past address).blockedUntil = some blocked →
    now < blocked → w.state.takeCodeAt offered address now =
      (w.state, .error (.backoff (blocked - now)))
  free : (recalled forgets w.past address).waits now = false →
    ∀ wait, (w.state.takeCodeAt offered address now).2 ≠ .error (.backoff wait)

/-! ## The table and the history -/

end Guessing

theorem backoffAfter_eq (past : Nat) : backoffAfter past = waitAfter past := by
  unfold backoffAfter waitAfter
  by_cases h : 2 ^ past ≤ 2 ^ 32 - 1
  · rw [min_eq_left h]
  · have hlarge : 2 ^ 32 - 1 ≤ 2 ^ past := by omega
    rw [min_eq_right hlarge, min_eq_right (by decide), min_eq_right]
    calc maxBackoff ≤ firstBackoff * (2 ^ 32 - 1) := by decide
      _ ≤ firstBackoff * 2 ^ past := Nat.mul_le_mul_left _ hlarge

section

variable {past : List Entry} {forgets : Bool} {a : String}

theorem mem_guessers : a ∈ guessers past ↔ ∃ e ∈ past, e.guesser = some a := by
  rw [guessers, List.mem_dedup, List.mem_filterMap]

theorem recalled_of_not_guesser (h : a ∉ guessers past) : recalled forgets past a = fresh := by
  induction past with
  | nil => rfl
  | cons e past ih =>
    have hpast : a ∉ guessers past := by
      intro ha
      obtain ⟨e', he', hg⟩ := mem_guessers.mp ha
      exact h (mem_guessers.mpr ⟨e', List.mem_cons_of_mem _ he', hg⟩)
    have hhead : e.guesser ≠ some a := fun hg => h (mem_guessers.mpr ⟨e, by simp, hg⟩)
    cases e with
    | wrong offered address now =>
      have hne : a ≠ address := fun heq => hhead (by rw [heq, Entry.guesser])
      rw [recalled, Function.update_of_ne hne]
      split
      · rfl
      · exact ih hpast
    | accepted offered address now role =>
      rw [recalled]
      by_cases heq : a = address
      · rw [heq, Function.update_self]
      · rw [Function.update_of_ne heq, ih hpast]
    | minted => exact ih hpast
    | refused => exact ih hpast
    | revokedAll => exact ih hpast

theorem tracked_nodup (m : Memory) (past : List Entry) : (tracked m past).Nodup :=
  (List.nodup_dedup _).filter _

theorem mem_tracked :
    a ∈ tracked (recalled forgets past) past ↔ (recalled forgets past a).wrong ≠ 0 := by
  rw [tracked, List.mem_filter, decide_eq_true_eq]
  refine ⟨fun h => h.2, fun h => ⟨?_, h⟩⟩
  by_contra hnot
  exact h (by rw [recalled_of_not_guesser hnot, fresh])

theorem mem_waiting {now : Nat} :
    a ∈ waiting (recalled forgets past) past now ↔ (recalled forgets past a).waits now = true := by
  rw [waiting, List.mem_filter]
  refine ⟨fun h => h.2, fun h => ⟨?_, h⟩⟩
  by_contra hnot
  rw [recalled_of_not_guesser hnot] at h
  simp [fresh, Strikes.waits] at h

end

/-- The table says of each address what a memory does, and has no rows besides. -/
structure Holds (t : Table String Strikes) (m : Memory) : Prop where
  row : ∀ a, (t.get? a).getD fresh = m a
  used : ∀ a r, t.get? a = some r → r.wrong ≠ 0

namespace Holds

variable {t : Table String Strikes} {m : Memory}

theorem get?_eq_none (h : Holds t m) {a : String} : t.get? a = none ↔ (m a).wrong = 0 := by
  rw [← h.row a]
  cases hget : t.get? a with
  | none => simp [fresh]
  | some r => simpa using h.used a r hget

theorem get?_eq_some (h : Holds t m) {a : String} {r : Strikes} (hget : t.get? a = some r) :
    m a = r := by
  rw [← h.row a, hget, Option.getD_some]

/-- A row for each tracked address. -/
theorem length_eq {past : List Entry} {forgets : Bool} (h : Holds t (recalled forgets past)) :
    t.rows.length = (tracked (recalled forgets past) past).length := by
  rw [← List.length_map (f := Prod.fst)]
  apply List.Perm.length_eq
  rw [List.perm_ext_iff_of_nodup t.keys_nodup (tracked_nodup _ _)]
  intro a
  rw [mem_tracked, List.mem_map, ← not_iff_not, not_not, ← h.get?_eq_none]
  constructor
  · intro hno
    cases hget : t.get? a with
    | none => rfl
    | some r => exact absurd ⟨(a, r), Table.mem_rows.mpr hget, rfl⟩ hno
  · rintro hnone ⟨⟨b, r⟩, hrow, rfl⟩
    rw [Table.mem_rows] at hrow
    simp [hnone] at hrow

theorem insert (h : Holds t m) {a : String} {r : Strikes} (hr : r.wrong ≠ 0) :
    Holds (t.insert a r) (Function.update m a r) := by
  constructor
  · intro b
    rw [Table.get?_insert]
    by_cases hb : a = b
    · rw [if_pos hb, ← hb, Function.update_self, Option.getD_some]
    · rw [if_neg hb, Function.update_of_ne (Ne.symm hb), h.row]
  · intro b r' hget
    rw [Table.get?_insert] at hget
    split at hget
    · obtain rfl := Option.some.inj hget
      exact hr
    · exact h.used b r' hget

theorem erase (h : Holds t m) (a : String) : Holds (t.erase a) (Function.update m a fresh) := by
  constructor
  · intro b
    rw [Table.get?_erase]
    by_cases hb : a = b
    · rw [if_pos hb, ← hb, Function.update_self, Option.getD_none]
    · rw [if_neg hb, Function.update_of_ne (Ne.symm hb), h.row]
  · intro b r hget
    rw [Table.get?_erase] at hget
    split at hget
    · cases hget
    · exact h.used b r hget

end Holds

/-! ### Room for a new address -/

/-- The rows that are not inside a wait. -/
def lapsed (t : Table String Strikes) (now : Nat) : List String :=
  (t.rows.filter fun row => !row.2.blockedUntil.any (now < ·)).map Prod.fst

def full (t : Table String Strikes) : Bool := maxTrackedAddresses ≤ t.rows.length

def makeRoom (t : Table String Strikes) (address : String) (now : Nat) : Table String Strikes :=
  if full t && (t.get? address).isNone then
    let kept := t.eraseAll (lapsed t now)
    if full kept then Table.empty else kept
  else t

theorem mem_lapsed {t : Table String Strikes} {a : String} {now : Nat} :
    a ∈ lapsed t now ↔ ∃ r, t.get? a = some r ∧ r.waits now = false := by
  rw [lapsed, List.mem_map]
  constructor
  · rintro ⟨⟨b, r⟩, hrow, rfl⟩
    rw [List.mem_filter, Table.mem_rows] at hrow
    exact ⟨r, hrow.1, by simpa [Strikes.waits] using hrow.2⟩
  · rintro ⟨r, hget, hwaits⟩
    refine ⟨(a, r), List.mem_filter.mpr ⟨Table.mem_rows.mpr hget, ?_⟩, rfl⟩
    simpa [Strikes.waits] using hwaits

theorem get?_eraseAll_lapsed {t : Table String Strikes} {a : String} {now : Nat} :
    (t.eraseAll (lapsed t now)).get? a = (t.get? a).filter (·.waits now) := by
  rw [Table.get?_eraseAll]
  cases hget : t.get? a with
  | none => simp
  | some r =>
    by_cases hr : r.waits now = true
    · rw [if_neg, Option.filter_some, if_pos hr]
      intro ha
      obtain ⟨r', hget', hr'⟩ := mem_lapsed.mp ha
      rw [hget, Option.some.injEq] at hget'
      rw [← hget', hr] at hr'
      cases hr'
    · rw [Option.filter_some, if_neg hr, if_pos]
      exact mem_lapsed.mpr ⟨r, hget, by simpa using hr⟩

theorem strike_strikes (s : State) (address : String) (now : Nat) :
    (s.strike address now).strikes = (makeRoom s.strikes address now).insert address
      ((((makeRoom s.strikes address now).get? address).getD fresh).again now) := by
  unfold Strikes.again
  simp only [← backoffAfter_eq]
  rfl

namespace Holds

variable {past : List Entry} {t : Table String Strikes} {now : Nat}

theorem full_iff_crowded {address : String} (h : Holds t (recalled true past)) :
    (full t && (t.get? address).isNone) = crowded (recalled true past) past address := by
  rw [Bool.eq_iff_iff, full, crowded, Bool.and_eq_true, Bool.and_eq_true, decide_eq_true_eq,
    decide_eq_true_eq, decide_eq_true_eq, Option.isNone_iff_eq_none, h.get?_eq_none, h.length_eq]
  exact and_comm

/-- The addresses inside a wait leave room. -/
theorem not_full_kept (h : Holds t (recalled true past))
    (hfew : (waiting (recalled true past) past now).length < maxTrackedAddresses) :
    full (t.eraseAll (lapsed t now)) = false := by
  rw [full, decide_eq_false_iff_not, not_le]
  refine lt_of_le_of_lt ?_ hfew
  rw [← List.length_map (f := Prod.fst)]
  refine (List.subperm_of_subset (Table.keys_nodup _) fun a ha => ?_).length_le
  obtain ⟨⟨b, r⟩, hrow, rfl⟩ := List.mem_map.mp ha
  rw [Table.mem_rows, get?_eraseAll_lapsed, Option.filter_eq_some_iff] at hrow
  rw [mem_waiting, h.get?_eq_some hrow.1]
  exact hrow.2

/-- A wrong code is held against its address, in the table as in the history. -/
theorem strike {s : State} {offered address : String} (h : Holds s.strikes (recalled true past))
    (hfew : (waiting (recalled true past) past now).length < maxTrackedAddresses) :
    Holds (s.strike address now).strikes
      (recalled true (.wrong offered address now :: past)) := by
  have hroom : Holds (makeRoom s.strikes address now) fun a =>
      if true && crowded (recalled true past) past address &&
        !(recalled true past a).waits now then fresh else recalled true past a := by
    unfold makeRoom
    dsimp only
    rw [h.full_iff_crowded, h.not_full_kept hfew, Bool.true_and]
    by_cases hc : crowded (recalled true past) past address = true
    · rw [hc, if_pos rfl, if_neg Bool.false_ne_true]
      constructor
      · intro a
        rw [get?_eraseAll_lapsed, ← h.row a]
        cases hget : s.strikes.get? a with
        | none => simp
        | some r => by_cases hr : r.waits now = true <;> simp [Option.filter_some, hr]
      · intro a r hget
        rw [get?_eraseAll_lapsed, Option.filter_eq_some_iff] at hget
        exact h.used a r hget.1
    · rw [Bool.not_eq_true] at hc
      rw [hc, if_neg Bool.false_ne_true]
      simpa using h
  rw [strike_strikes, hroom.row]
  exact hroom.insert (Nat.succ_ne_zero _)

end Holds

/-! ## What an offer does -/

/-- The outcomes of an offer, with what each leaves behind. -/
inductive Taken (s : State) (offered address : String) (now : Nat) :
    State × Except PairingRefused Role → Prop where
  | waits (blocked : Nat)
      (hblocked : ((s.strikes.get? address).getD fresh).blockedUntil = some blocked)
      (hnow : now < blocked) : Taken s offered address now (s, .error (.backoff (blocked - now)))
  | noCode (hfree : ((s.strikes.get? address).getD fresh).waits now = false)
      (hlive : s.liveCode now = none) : Taken s offered address now (s, .error .noCode)
  | right (live : LiveCode) (hfree : ((s.strikes.get? address).getD fresh).waits now = false)
      (hlive : s.liveCode now = some live) (hcode : live.code = offered) :
      Taken s offered address now
        ({ s with code := none, strikes := s.strikes.erase address }, .ok live.role)
  | wrong (live : LiveCode) (s' : State)
      (hfree : ((s.strikes.get? address).getD fresh).waits now = false)
      (hlive : s.liveCode now = some live) (hcode : live.code ≠ offered)
      (hstrikes : s'.strikes = (s.strike address now).strikes)
      (hleft : s'.code = if maxWrongPerCode ≤ live.wrong + 1 then none
        else some { live with wrong := live.wrong + 1 }) :
      Taken s offered address now (s', .error .wrongCode)

theorem takeCodeAt_taken (s : State) (offered address : String) (now : Nat) :
    Taken s offered address now (s.takeCodeAt offered address now) := by
  unfold State.takeCodeAt
  split
  · rename_i blocked hblocked
    obtain ⟨hbind, hnow⟩ := Option.filter_eq_some_iff.mp hblocked
    obtain ⟨r, hget, hr⟩ := Option.bind_eq_some_iff.mp hbind
    exact .waits blocked (by rw [hget, Option.getD_some, hr]) (by simpa using hnow)
  · rename_i hnone
    have hfree : ((s.strikes.get? address).getD fresh).waits now = false := by
      cases hget : s.strikes.get? address with
      | none => rfl
      | some r =>
        rw [hget] at hnone
        cases hr : r.blockedUntil with
        | none => simp [Strikes.waits, hr]
        | some blocked => simpa [hr, Option.filter_some, Strikes.waits] using hnone
    split
    · rename_i hlive
      exact .noCode hfree hlive
    · rename_i live hlive
      by_cases hcode : live.code = offered
      · rw [if_pos (constantTimeEq_iff.mpr hcode)]
        exact .right live hfree hlive hcode
      · rw [if_neg (mt constantTimeEq_iff.mp hcode)]
        refine .wrong live _ hfree hlive hcode ?_ ?_
        · split <;> rfl
        · split <;> rfl

/-- The right code, from an address that need not wait. -/
theorem takeCodeAt_right {s : State} {address : String} {now : Nat} {live : LiveCode}
    (hfree : ((s.strikes.get? address).getD fresh).waits now = false)
    (hlive : s.liveCode now = some live) :
    (s.takeCodeAt live.code address now).2 = .ok live.role := by
  have htaken := takeCodeAt_taken s live.code address now
  generalize s.takeCodeAt live.code address now = res at htaken
  cases htaken with
  | waits blocked hblocked hnow => simp [Strikes.waits, hblocked, hnow] at hfree
  | noCode _ hnone =>
    rw [hlive] at hnone
    cases hnone
  | right live' _ hlive' =>
    rw [hlive, Option.some.injEq] at hlive'
    rw [hlive']
  | wrong live' s' _ hlive' hcode =>
    rw [hlive, Option.some.injEq] at hlive'
    exact absurd (congrArg LiveCode.code hlive').symm hcode

theorem code_of_liveCode {s : State} {now : Nat} {live : LiveCode}
    (h : s.liveCode now = some live) : s.code = some live ∧ now - live.issued < codeTtl := by
  obtain ⟨hcode, hissued⟩ := Option.filter_eq_some_iff.mp h
  exact ⟨hcode, by simpa using hissued⟩

/-! ## Every run -/

namespace Guessing

/-- The code in memory is the last one minted, tried as often as it says. -/
structure Outstanding (past : List Entry) (live : LiveCode) : Prop where
  minted : lastMint past = some (.minted live.code live.role live.issued)
  unspent : ∀ e ∈ sinceMint past, e.spends = false
  tried : (sinceMint past).countP (·.isWrong) = live.wrong
  tries : live.wrong < maxWrongPerCode

structure Inv (w : Guessing) : Prop where
  holds : Holds w.state.strikes (recalled true w.past)
  live : ∀ live, w.state.code = some live → Outstanding w.past live

theorem Outstanding.compared {w : Guessing} {live : LiveCode} {now : Nat}
    (h : Outstanding w.past live) (hissued : now - live.issued < codeTtl) :
    w.Compared live.code live.role now where
  minted := ⟨live.issued, h.minted, hissued⟩
  unspent := h.unspent
  tries := h.tried ▸ h.tries

theorem Outstanding.ofMint (past : List Entry) (code : String) (role : Role) (now : Nat) :
    Outstanding (.minted code role now :: past) { code, issued := now, role, wrong := 0 } where
  minted := rfl
  unspent := by
    intro e he
    rw [sinceMint_minted] at he
    cases he
  tried := by rw [sinceMint_minted, List.countP_nil]
  tries := Nat.zero_lt_succ 9

/-- A refused offer is not held against the code. -/
theorem Outstanding.refused {past : List Entry} {live : LiveCode} (h : Outstanding past live)
    (offered address : String) (now : Nat) (why : PairingRefused) :
    Outstanding (.refused offered address now why :: past) live where
  minted := h.minted
  unspent := by
    intro e he
    rw [sinceMint, List.takeWhile_cons_of_pos rfl] at he
    rcases List.mem_cons.mp he with rfl | he
    · rfl
    · exact h.unspent e he
  tried := h.tried
  tries := h.tries

theorem Outstanding.wrong {past : List Entry} {live : LiveCode} (h : Outstanding past live)
    (hleft : live.wrong + 1 < maxWrongPerCode) (offered address : String) (now : Nat) :
    Outstanding (.wrong offered address now :: past) { live with wrong := live.wrong + 1 } where
  minted := h.minted
  unspent := by
    intro e he
    rw [sinceMint, List.takeWhile_cons_of_pos rfl] at he
    rcases List.mem_cons.mp he with rfl | he
    · rfl
    · exact h.unspent e he
  tried := by
    rw [sinceMint, List.takeWhile_cons_of_pos rfl, List.countP_cons_of_pos rfl, ← sinceMint,
      h.tried]
  tries := hleft

theorem Inv.bounded {w : Guessing} (h : w.Inv) (offered address : String) (now : Nat) :
    w.Bounded true offered address now := by
  have hrow := h.holds.row address
  have htaken := takeCodeAt_taken w.state offered address now
  generalize hres : w.state.takeCodeAt offered address now = res at htaken
  constructor <;> rw [hres] <;> clear hres
  case accepted =>
    intro role hok
    cases htaken with
    | waits => cases hok
    | noCode => cases hok
    | wrong => cases hok
    | right live hfree hlive hcode =>
      obtain rfl : live.role = role := Except.ok.inj hok
      obtain ⟨hcode', hissued⟩ := code_of_liveCode hlive
      rw [← hcode]
      exact (h.live live hcode').compared hissued
  case wrong =>
    intro hwrong
    cases htaken with
    | waits => cases hwrong
    | noCode => cases hwrong
    | right => cases hwrong
    | wrong live s' hfree hlive hcode hstrikes hleft =>
      obtain ⟨hcode', hissued⟩ := code_of_liveCode hlive
      exact ⟨live.code, live.role, hcode, (h.live live hcode').compared hissued⟩
  case waits =>
    intro blocked hblocked hnow
    have hwaits : (recalled true w.past address).waits now = true := by
      simpa [Strikes.waits, hblocked] using hnow
    cases htaken with
    | waits blocked' hblocked' =>
      rw [hrow, hblocked, Option.some.injEq] at hblocked'
      rw [hblocked']
    | noCode hfree =>
      rw [hrow, hwaits] at hfree
      cases hfree
    | right live hfree =>
      rw [hrow, hwaits] at hfree
      cases hfree
    | wrong live s' hfree =>
      rw [hrow, hwaits] at hfree
      cases hfree
  case free =>
    intro hfree wait hwait
    cases htaken with
    | waits blocked hblocked hnow =>
      rw [hrow] at hblocked
      simp [Strikes.waits, hblocked, hnow] at hfree
    | noCode => cases hwait
    | right => cases hwait
    | wrong => cases hwait

theorem inv_start : ({} : Guessing).Inv where
  holds := ⟨fun a => by rw [Table.get?_empty]; rfl, fun a r h => by simp at h⟩
  live live h := by cases h

theorem after_takeCode (w : Guessing) (offered address : String) (now : Nat) :
    w.after (.takeCode offered address now) =
      { state := (w.state.takeCodeAt offered address now).1, clock := now
        past := .ofAnswer offered address now (w.state.takeCodeAt offered address now).2 ::
          w.past } := rfl

theorem Inv.takeCode {w : Guessing} (h : w.Inv) {offered address : String} {now : Nat}
    (hfew : FewWaiting true w (.takeCode offered address now)) :
    (w.after (.takeCode offered address now)).Inv := by
  have htaken := takeCodeAt_taken w.state offered address now
  rw [after_takeCode]
  generalize w.state.takeCodeAt offered address now = res at htaken
  cases htaken with
  | waits blocked =>
    exact ⟨h.holds, fun live hlive => (h.live live hlive).refused offered address now _⟩
  | noCode => exact ⟨h.holds, fun live hlive => (h.live live hlive).refused offered address now _⟩
  | right live hfree hlive hcode => exact ⟨h.holds.erase address, fun live hlive => nomatch hlive⟩
  | wrong live s' hfree hlive hcode hstrikes hleft =>
    constructor
    · have hstrike : Holds (w.state.strike address now).strikes
          (recalled true (.wrong offered address now :: w.past)) := h.holds.strike hfew
      rw [← hstrikes] at hstrike
      exact hstrike
    · intro left hs'
      rw [show s'.code = some left from hs'] at hleft
      split at hleft
      · cases hleft
      rename_i htries
      obtain rfl := Option.some.inj hleft
      rw [not_le] at htries
      exact (h.live live (code_of_liveCode hlive).1).wrong htries offered address now

theorem inv_step {w w' : Guessing} {e : Guess} (h : w.Inv) (hfew : FewWaiting true w e)
    (hs : w.step e = some w') : w'.Inv := by
  unfold step at hs
  split at hs
  case isFalse => cases hs
  obtain rfl := Option.some.inj hs
  cases e with
  | newCodeFor code role now =>
    refine ⟨h.holds, fun live hlive => ?_⟩
    obtain rfl := Option.some.inj hlive
    exact .ofMint w.past code role now
  | takeCode offered address now => exact h.takeCode hfew
  | revokeAll now => exact ⟨h.holds, fun live hlive => nomatch hlive⟩

/-- **Pairing codes cannot be ground down.** -/
theorem guesses_bounded {w : Guessing} {events : List Guess}
    (hfew : system.Along (FewWaiting true) {} events) (hrun : system.exec {} events = some w)
    (offered address : String) (now : Nat) : w.Bounded true offered address now := by
  have hinv : w.Inv := system.exec_induction (fun _ _ _ h hC hs => inv_step h hC hs) inv_start
    hfew hrun
  exact hinv.bounded offered address now

/-! ## An address forgotten -/

instance (forgets : Bool) (w : Guessing) (e : Guess) : Decidable (FewWaiting forgets w e) :=
  inferInstanceAs (Decidable (_ < _))

def guest : String := "192.168.1.20"

def neighbour (i : Nat) : String := "2001:db8::" ++ Nat.repr i

/-- A code, and a wrong guess at it. -/
def guess (address : String) (now : Nat) : List Guess :=
  [.newCodeFor "123456" .dj now, .takeCode "000000" address now]

/-- When the guest's wait is over, neighbours send a wrong code each. -/
@[irreducible] def crowd (n : Nat) : List Guess :=
  (List.range n).flatMap fun i => guess (neighbour i) (seconds 5)

theorem crowd_zero : crowd 0 = [] := by rw [crowd, List.range_zero, List.flatMap_nil]

theorem crowd_succ (n : Nat) : crowd (n + 1) = crowd n ++ guess (neighbour n) (seconds 5) := by
  rw [crowd, List.range_succ, List.flatMap_append, List.flatMap_singleton, crowd]

theorem neighbour_injective {i j : Nat} (h : neighbour i = neighbour j) : i = j := by
  have hrepr : Nat.repr i = Nat.repr j := by
    unfold neighbour at h
    simpa using h
  have := congrArg String.toNat? hrepr
  rwa [Nat.toNat?_repr, Nat.toNat?_repr, Option.some.injEq] at this

theorem neighbour_ne_guest (i : Nat) : neighbour i ≠ guest := by
  intro h
  have := congrArg (fun s : String => s.toList.head?) h
  simp [neighbour, guest] at this

theorem recalled_wrong {past : List Entry} {offered address : String} {now : Nat} :
    recalled false (.wrong offered address now :: past) =
      Function.update (recalled false past) address
        ((recalled false past address).again now) := by
  simp [recalled]

/-- One more wrong guess, while nobody but the guest waits. -/
theorem guess_step {w : Guessing} (address : String) {now : Nat} (hclock : w.clock ≤ now)
    (hfree : ((w.state.strikes.get? address).getD fresh).waits now = false)
    (hguest : ∀ a, (recalled false w.past a).waits now = true → a = guest) :
    ∃ w', system.exec w (guess address now) = some w' ∧
      system.Along (FewWaiting false) w (guess address now) ∧ w'.clock = now ∧
      w'.past = .wrong "000000" address now :: .minted "123456" .dj now :: w.past ∧
      w'.state.strikes = (w.state.strike address now).strikes ∧
      w'.state.code = some { code := "123456", issued := now, role := .dj, wrong := 1 } := by
  have hfew : ∀ e : Guess, e.now = now → ∀ w : Guessing,
      (∀ a, (recalled false w.past a).waits now = true → a = guest) → FewWaiting false w e := by
    intro e he w hguest
    have hsub : waiting (recalled false w.past) w.past e.now ⊆ [guest] := by
      intro a ha
      rw [mem_waiting, he] at ha
      exact List.mem_singleton.mpr (hguest a ha)
    have hnodup : (waiting (recalled false w.past) w.past e.now).Nodup :=
      (List.nodup_dedup _).filter _
    exact lt_of_le_of_lt (List.subperm_of_subset hnodup hsub).length_le (by decide)
  have hmint : system.next w (.newCodeFor "123456" .dj now) =
      some (w.after (.newCodeFor "123456" .dj now)) := if_pos hclock
  have htake : system.next (w.after (.newCodeFor "123456" .dj now))
      (.takeCode "000000" address now) =
      some ((w.after (.newCodeFor "123456" .dj now)).after (.takeCode "000000" address now)) :=
    if_pos le_rfl
  refine ⟨_, by rw [guess, system.exec_cons, hmint, Option.bind_some, system.exec_cons, htake]; rfl,
    system.along_cons (hfew _ rfl w hguest) hmint
      (system.along_cons (hfew _ rfl _ hguest) htake trivial), ?_⟩
  rw [after_takeCode]
  have htaken := takeCodeAt_taken (w.after (.newCodeFor "123456" .dj now)).state "000000" address
    now
  generalize (w.after (.newCodeFor "123456" .dj now)).state.takeCodeAt "000000" address now = res
    at htaken
  have hlive : (w.after (.newCodeFor "123456" .dj now)).state.liveCode now =
      some { code := "123456", issued := now, role := .dj, wrong := 0 } := by
    simp [State.liveCode, after, State.newCodeFor, codeTtl, seconds]
  cases htaken with
  | waits blocked hblocked hnow =>
    have hblocked' : ((w.state.strikes.get? address).getD fresh).blockedUntil = some blocked :=
      hblocked
    simp [Strikes.waits, hblocked', hnow] at hfree
  | noCode _ hnone =>
    rw [hlive] at hnone
    cases hnone
  | right live _ hlive' hcode =>
    rw [hlive, Option.some.injEq] at hlive'
    rw [← hlive'] at hcode
    exact absurd hcode (by simp)
  | wrong live s' _ hlive' hcode hstrikes hleft =>
    rw [hlive, Option.some.injEq] at hlive'
    rw [← hlive', if_neg (by simp [maxWrongPerCode])] at hleft
    exact ⟨rfl, rfl, hstrikes, hleft⟩

/-- The guest's wait is over, and so many neighbours have sent a wrong code. -/
structure Crowd (n : Nat) (w : Guessing) : Prop where
  clock : w.clock ≤ seconds 5
  rows : w.state.strikes.rows.length = n + 1
  rested : ∀ a r, w.state.strikes.get? a = some r → r.waits (seconds 5) = false
  new : ∀ i, n ≤ i → w.state.strikes.get? (neighbour i) = none
  guest : recalled false w.past guest = { wrong := 3, blockedUntil := some (seconds 5) }
  unheard : ∀ i, n ≤ i → recalled false w.past (neighbour i) = fresh
  nobody : ∀ a, (recalled false w.past a).waits (seconds 5) = false

theorem rows_length_insert {t : Table String Strikes} {a : String} (h : t.get? a = none)
    (r : Strikes) : (t.insert a r).rows.length = t.rows.length + 1 := by
  rw [(t.rows_insert_perm a r).length_eq, Table.erase_of_none h, List.length_cons]

/-- What a neighbour's first wrong code leaves in the history. -/
theorem Crowd.heard {n : Nat} {w w' : Guessing} (h : Crowd n w)
    (hpast : w'.past = .wrong "000000" (neighbour n) (seconds 5) ::
      .minted "123456" .dj (seconds 5) :: w.past) :
    recalled false w'.past = Function.update (recalled false w.past) (neighbour n)
      { wrong := 1, blockedUntil := none } := by
  rw [hpast, recalled_wrong]
  have hsame : recalled false (.minted "123456" .dj (seconds 5) :: w.past) =
      recalled false w.past := rfl
  rw [hsame, h.unheard n le_rfl]
  rfl

theorem Crowd.step {n : Nat} {w : Guessing} (h : Crowd n w) (hn : n + 1 < maxTrackedAddresses) :
    ∃ w', system.exec w (guess (neighbour n) (seconds 5)) = some w' ∧
      system.Along (FewWaiting false) w (guess (neighbour n) (seconds 5)) ∧ Crowd (n + 1) w' := by
  have hnone := h.new n le_rfl
  obtain ⟨w', hrun, hfew, hclock, hpast, hstrikes, -⟩ :=
    guess_step _ h.clock (by rw [hnone]; rfl) fun a ha => absurd ha (by rw [h.nobody a]; simp)
  have hfull : full w.state.strikes = false := by
    rw [full, h.rows, decide_eq_false_iff_not]
    omega
  have hroom : makeRoom w.state.strikes (neighbour n) (seconds 5) = w.state.strikes := by
    rw [makeRoom, hfull, Bool.false_and, if_neg Bool.false_ne_true]
  rw [strike_strikes, hroom, hnone] at hstrikes
  have hrow : (fresh.again (seconds 5)).waits (seconds 5) = false := rfl
  refine ⟨w', hrun, hfew, ⟨hclock.le, ?_, ?_, ?_, ?_, ?_, ?_⟩⟩
  · rw [hstrikes, rows_length_insert hnone, h.rows]
  · intro a r hget
    rw [hstrikes, Table.get?_insert] at hget
    split at hget
    · obtain rfl := Option.some.inj hget
      exact hrow
    · exact h.rested a r hget
  · intro i hi
    rw [hstrikes, Table.get?_insert, if_neg]
    · exact h.new i (by omega)
    · intro heq
      have := neighbour_injective heq
      omega
  · rw [h.heard hpast, Function.update_of_ne (neighbour_ne_guest n).symm, h.guest]
  · intro i hi
    rw [h.heard hpast, Function.update_of_ne]
    · exact h.unheard i (by omega)
    · intro heq
      have := neighbour_injective heq
      omega
  · intro a
    rw [h.heard hpast]
    by_cases ha : a = neighbour n
    · rw [ha, Function.update_self]
      rfl
    · rw [Function.update_of_ne ha]
      exact h.nobody a

theorem Crowd.run {w : Guessing} (h : Crowd 0 w) {n : Nat} (hn : n < maxTrackedAddresses) :
    ∃ w', system.exec w (crowd n) = some w' ∧
      system.Along (FewWaiting false) w (crowd n) ∧ Crowd n w' := by
  induction n with
  | zero =>
    rw [crowd_zero]
    exact ⟨w, rfl, trivial, h⟩
  | succ n ih =>
    obtain ⟨v, hrun, hfew, hv⟩ := ih (by omega)
    obtain ⟨w', hrun', hfew', hw'⟩ := hv.step (by omega)
    rw [crowd_succ, system.exec_append, hrun]
    exact ⟨w', hrun', system.along_append hfew hrun hfew', hw'⟩

/-- One neighbour more, and everybody else is forgotten. -/
theorem Crowd.forgets {w : Guessing} (h : Crowd 1023 w) :
    ∃ w', system.exec w (guess (neighbour 1023) (seconds 5)) = some w' ∧
      system.Along (FewWaiting false) w (guess (neighbour 1023) (seconds 5)) ∧
      w'.clock ≤ seconds 5 ∧ w'.state.strikes.get? Guessing.guest = none ∧
      full w'.state.strikes = false ∧ recalled false w'.past Guessing.guest =
        { wrong := 3, blockedUntil := some (seconds 5) } ∧
      ∀ a, (recalled false w'.past a).waits (seconds 5) = false := by
  have hnone := h.new 1023 le_rfl
  obtain ⟨w', hrun, hfew, hclock, hpast, hstrikes, -⟩ :=
    guess_step _ h.clock (by rw [hnone]; rfl) fun a ha => absurd ha (by rw [h.nobody a]; simp)
  have hempty : w.state.strikes.eraseAll (lapsed w.state.strikes (seconds 5)) = Table.empty := by
    refine Table.ext fun a => ?_
    rw [get?_eraseAll_lapsed, Table.get?_empty]
    cases hget : w.state.strikes.get? a with
    | none => rfl
    | some r => rw [Option.filter_some, if_neg (by simp [h.rested a r hget])]
  have hfull : full w.state.strikes = true := by
    rw [full, h.rows]
    rfl
  have hroom : makeRoom w.state.strikes (neighbour 1023) (seconds 5) = Table.empty := by
    rw [makeRoom, hfull, hnone, hempty]
    simp
  rw [strike_strikes, hroom] at hstrikes
  refine ⟨w', hrun, hfew, hclock.le, ?_, ?_, ?_, ?_⟩
  · rw [hstrikes, Table.get?_insert, if_neg (neighbour_ne_guest _), Table.get?_empty]
  · rw [hstrikes, full, rows_length_insert (Table.get?_empty _), Table.rows_empty]
    rfl
  · rw [h.heard hpast, Function.update_of_ne (neighbour_ne_guest _).symm, h.guest]
  · intro a
    rw [h.heard hpast]
    by_cases ha : a = neighbour 1023
    · rw [ha, Function.update_self]
      rfl
    · rw [Function.update_of_ne ha]
      exact h.nobody a

/-- Three wrong codes, the neighbours, and a fourth. -/
def forgotten : List Guess :=
  (guess guest 0 ++ guess guest 0 ++ guess guest 0) ++
    (crowd maxTrackedAddresses ++ guess guest (seconds 5))

theorem crowd_start : ∃ w, system.exec {} (guess guest 0 ++ guess guest 0 ++ guess guest 0) =
    some w ∧ Crowd 0 w := by
  have hrun : (system.exec {} (guess guest 0 ++ guess guest 0 ++ guess guest 0)).any (fun w =>
      decide (w.clock = 0 ∧
        w.state.strikes.rows = [(guest, { wrong := 3, blockedUntil := some (seconds 5) })] ∧
        w.past = [.wrong "000000" guest 0, .minted "123456" .dj 0, .wrong "000000" guest 0,
          .minted "123456" .dj 0, .wrong "000000" guest 0, .minted "123456" .dj 0])) = true := by
    decide +kernel
  obtain ⟨w, hexec, hfacts⟩ := (Option.any_eq_true _ _).mp hrun
  obtain ⟨hclock, hrows, hpast⟩ := of_decide_eq_true hfacts
  have hrecalled : recalled false w.past = Function.update (fun _ => fresh) guest
      { wrong := 3, blockedUntil := some (seconds 5) } := by
    rw [hpast]
    funext a
    by_cases ha : a = guest
    · rw [ha]
      rfl
    · simp [recalled, ha]
  refine ⟨w, hexec, ⟨by omega, by rw [hrows]; rfl, ?_, ?_, ?_, ?_, ?_⟩⟩
  · intro a r hget
    rw [← Table.mem_rows, hrows, List.mem_singleton] at hget
    obtain ⟨rfl, rfl⟩ := Prod.mk.inj hget
    rfl
  · intro i _
    cases hget : w.state.strikes.get? (neighbour i) with
    | none => rfl
    | some r =>
      rw [← Table.mem_rows, hrows, List.mem_singleton] at hget
      exact absurd (congrArg Prod.fst hget) (neighbour_ne_guest i)
  · rw [hrecalled, Function.update_self]
  · intro i _
    rw [hrecalled, Function.update_of_ne (neighbour_ne_guest i)]
  · intro a
    rw [hrecalled]
    by_cases ha : a = guest
    · rw [ha, Function.update_self]
      rfl
    · rw [Function.update_of_ne ha]
      rfl

/-- The guest's fourth wrong code starts no wait: the right one is compared at once, and taken. -/
theorem forgotten_after_wait : ∃ w, system.exec {} forgotten = some w ∧
    system.Along (FewWaiting false) {} forgotten ∧
    (w.state.takeCodeAt "123456" guest (seconds 5)).2 = .ok .dj ∧
    ¬ w.Bounded false "123456" guest (seconds 5) := by
  obtain ⟨w₀, hrun₀, hw₀⟩ := crowd_start
  obtain ⟨w₁, hrun₁, hfew₁, hw₁⟩ := hw₀.run (n := 1023) (by decide)
  obtain ⟨w₂, hrun₂, hfew₂, hclock, hnone, hfull, hguest, hnobody⟩ := hw₁.forgets
  obtain ⟨w₃, hrun₃, hfew₃, -, hpast, hstrikes, hcode⟩ :=
    guess_step guest hclock (by rw [hnone]; rfl)
      fun a ha => absurd ha (by rw [hnobody a]; simp)
  have hchecked : system.checked (fun w e => decide (FewWaiting false w e)) {}
      (guess guest 0 ++ guess guest 0 ++ guess guest 0) = true := by decide +kernel
  have hfew₀ := system.along_of_checked (fun _ _ h => of_decide_eq_true h) hchecked
  have hcrowd : crowd maxTrackedAddresses = crowd 1023 ++ guess (neighbour 1023) (seconds 5) :=
    crowd_succ 1023
  -- the table holds the fourth code as the first
  have hrow : w₃.state.strikes.get? guest = some { wrong := 1, blockedUntil := none } := by
    rw [hstrikes, strike_strikes, Table.get?_insert, if_pos rfl, makeRoom, hfull, Bool.false_and,
      if_neg Bool.false_ne_true, hnone]
    rfl
  -- the history says that it starts a wait
  have hwait : recalled false w₃.past guest =
      { wrong := 4, blockedUntil := some (seconds 15) } := by
    have hsame : recalled false (.minted "123456" .dj (seconds 5) :: w₂.past) =
        recalled false w₂.past := rfl
    rw [hpast, recalled_wrong, Function.update_self, hsame, hguest]
    rfl
  have htaken : (w₃.state.takeCodeAt "123456" guest (seconds 5)).2 = .ok .dj := by
    have hlive : w₃.state.liveCode (seconds 5) =
        some { code := "123456", issued := seconds 5, role := .dj, wrong := 1 } := by
      simp [State.liveCode, hcode, codeTtl, seconds]
    exact takeCodeAt_right (by rw [hrow]; rfl) hlive
  refine ⟨w₃, ?_, ?_, htaken, fun hbounded => ?_⟩
  · rw [forgotten, system.exec_append, hrun₀, Option.bind_some, hcrowd, system.exec_append,
      system.exec_append, hrun₁, Option.bind_some, hrun₂, Option.bind_some, hrun₃]
  · have hrun : system.exec w₀ (crowd 1023 ++ guess (neighbour 1023) (seconds 5)) = some w₂ := by
      rw [system.exec_append, hrun₁, Option.bind_some, hrun₂]
    have hfew := system.along_append (system.along_append hfew₁ hrun₁ hfew₂) hrun hfew₃
    rw [← hcrowd] at hfew
    exact system.along_append hfew₀ hrun₀ hfew
  · have := hbounded.waits (seconds 15) (by rw [hwait]) (by unfold seconds; omega)
    rw [this] at htaken
    cases htaken

/-- Three wrong codes, and the wait they start. -/
theorem guesses_bounded_three_wrong : ∃ w, system.exec {}
      (guess guest 0 ++ guess guest 0 ++ guess guest 0) = some w ∧
    w.Bounded true "123456" guest 0 := by
  have hchecked : system.checked (fun w e => decide (FewWaiting true w e)) {}
      (guess guest 0 ++ guess guest 0 ++ guess guest 0) = true := by decide +kernel
  have hfew := system.along_of_checked (fun _ _ h => of_decide_eq_true h) hchecked
  obtain ⟨w, hrun, -⟩ := crowd_start
  exact ⟨w, hrun, guesses_bounded hfew hrun "123456" guest 0⟩

end Guessing

end Mbrc.Pairing
