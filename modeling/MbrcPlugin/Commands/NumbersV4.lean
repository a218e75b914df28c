import MbrcPlugin.Commands.V4
import MbrcPlugin.Server.Connections

/-!
# The numbers of a V4 request

A V4 handler reads a number leniently and casts it to the type the host takes, which cuts the bits
above off.  A number that reaches the host is the one that was sent, or that number clamped to the
host's range, exactly where the cast gives what clamping would (`numbers_intact_iff`).
-/

namespace Mbrc.Commands

open Providers
open Interaction.Fallible (Within)
open Connections (LegacySession parseHandshake parseU8 minProtocol)

/-! ## Numbers as they are sent -/

/-- A decimal integer of any length. -/
def parseInt (s : String) : Option Int :=
  match s.toList with
  | '-' :: digits => (parseDigits digits).map fun n => -(n : Int)
  | '+' :: digits => (parseDigits digits).map fun n => (n : Int)
  | digits => (parseDigits digits).map fun n => (n : Int)

/-- The integer of a JSON number or of a numeric string. -/
def sentInt : Value → Option Int
  | .number (.posInt n) => some n.toNat
  | .number (.negInt n) => some n.toInt
  | .string s => parseInt (Text.trim s)
  | _ => none

/-- An index stands alone or in the field `index`. -/
def sentIndex (data : Value) : Option Int := (sentInt data).or ((data.get "index").bind sentInt)

/-- A version stands alone or, as a number, in the field `protocol_version`. -/
def sentVersion (data : Value) : Option Int :=
  match data with
  | .object _ =>
    match data.get "protocol_version" with
    | some (.number n) => sentInt (.number n)
    | _ => none
  | _ => sentInt data

/-! ## Requests with numbers -/

inductive NumberRequest where
  | handshake (data : Value)
  | volume (data : Value)
  | position (data : Value)
  | play (data : Value) (ctx : Ctx)
  | remove (data : Value)
  | move (data : Value)

/-- Android counts the rows from one. -/
def oneBased (ctx : Ctx) : Int := if ctx.platform = .android then 1 else 0

/-- Some host is sent the command. -/
def Reaches (h : Handler (List Reply)) (c : Command) : Prop :=
  ∃ (σ : Type) (host : σ → (c : Call) → Answer c × σ) (s : σ), c ∈ commands host h s

/-- A number that reaches the host, or a version that is recorded, is the one sent or that one
clamped. -/
def Intact : NumberRequest → Prop
  | .handshake data => ∀ n ∈ sentVersion data, ∀ s : LegacySession,
      (s.handleProtocol data).2 = false →
        (s.handleProtocol data).1.protocolVersion.map Int.ofNat = some n
  | .volume data => ∀ n ∈ sentInt data, ∀ x,
      Reaches (volume data) (.setVolume x) → x = i32Saturating n
  | .position data => ∀ n ∈ sentInt data, ∀ x,
      Reaches (position data) (.setPosition x) → x = i32Saturating n
  | .play data ctx => ∀ n ∈ sentIndex data,
      -2 ^ 31 ≤ i32Saturating n - oneBased ctx ∧
        ∀ x, Reaches (playItem data ctx) (.playListItem x) → x = i32Saturating n - oneBased ctx
  | .remove data => ∀ n ∈ sentIndex data, ∀ x,
      Reaches (removeItem data) (.removeListItem x) → x = i32Saturating n
  | .move data => ∀ x y, Reaches (moveTrack data) (.moveListItem x y) →
      (∀ n ∈ (data.get "from").bind sentInt, x = i32Saturating n) ∧
        ∀ n ∈ (data.get "to").bind sentInt, y = i32Saturating n

/-! ## When they stay what they are -/

def InI64 (n : Int) : Prop := -2 ^ 63 ≤ n ∧ n < 2 ^ 63

/-- In the range of `i32`, or past it where the lower bits are the end of the range. -/
def Kept (n : Int) : Prop :=
  (-2 ^ 31 ≤ n ∧ n < 2 ^ 31) ∨ (2 ^ 31 ≤ n ∧ n % 2 ^ 32 = 2 ^ 31 - 1) ∨
    (n < -2 ^ 31 ∧ n % 2 ^ 32 = 2 ^ 31)

/-- A version that is sent as a number. -/
def versionNumber (data : Value) : Option Nat :=
  match data with
  | .object _ => (data.get "protocol_version").bind Installations.asU64
  | _ => Installations.asU64 data

/-- A volume or a position past `i64` is no number to the handler, an index past it is the first. -/
def Fits : NumberRequest → Prop
  | .handshake data => ∀ n ∈ versionNumber data, n < 256 ∨ n % 256 < minProtocol
  | .volume data | .position data => ∀ n ∈ sentInt data, InI64 n → Kept n
  | .play data ctx => ∀ n ∈ sentIndex data, InI64 n ∧ Kept n ∧
      (ctx.platform = .android → -2 ^ 31 < i32Saturating n)
  | .remove data => ∀ n ∈ sentIndex data, InI64 n ∧ Kept n
  | .move data => (∀ n ∈ (data.get "from").bind sentInt, InI64 n ∧ Kept n) ∧
      ∀ n ∈ (data.get "to").bind sentInt, InI64 n ∧ Kept n

/-! ## Casts -/

theorem kept_iff (n : Int) : toI32 n = i32Saturating n ↔ Kept n := by
  unfold toI32 i32Saturating Kept
  rw [Int.bmod_def]
  split <;> omega

theorem i32Saturating_ne_zero {n : Int} (h : ¬ InI64 n) : i32Saturating n ≠ 0 := by
  unfold InI64 at h
  unfold i32Saturating
  omega

theorem parseI64_eq (s : String) :
    parseI64 s = (parseInt s).filter fun i => decide (-2 ^ 63 ≤ i ∧ i < 2 ^ 63) := by
  have hguard (o : Option Int) : (do
        let i ← o
        guard (-2 ^ 63 ≤ i ∧ i < 2 ^ 63)
        return i) = o.filter fun i => decide (-2 ^ 63 ≤ i ∧ i < 2 ^ 63) := by
    cases o with
    | none => rfl
    | some i =>
      show ((guard _ : Option Unit).bind fun _ => some i) = _
      by_cases hi : -2 ^ 63 ≤ i ∧ i < 2 ^ 63
      · rw [guard, if_pos hi, Option.filter_some, if_pos (decide_eq_true hi)]
        rfl
      · rw [guard, if_neg hi, Option.filter_some, if_neg (by simpa using hi)]
        rfl
  unfold parseI64 parseInt
  generalize s.toList = cs
  split
  · exact hguard _
  · exact hguard _
  · rename_i hminus hplus
    first
    | exact hguard _
    | split
      · exact (hminus _ rfl).elim
      · exact (hplus _ rfl).elim
      · exact hguard _

/-- What the handlers read of a value. -/
theorem asIntLenient_eq_some {v : Value} {n : Int} :
    asIntLenient v = some n ↔ sentInt v = some n ∧ InI64 n := by
  unfold asIntLenient InI64
  cases v with
  | number k =>
    cases k with
    | posInt m =>
      simp only [Value.asI64, Value.asStr, Number.asI64, sentInt, Option.bind_none, Option.or_none,
        Option.ite_none_right_eq_some, Option.some.injEq]
      constructor
      · rintro ⟨hm, rfl⟩
        exact ⟨rfl, by omega, by omega⟩
      · rintro ⟨rfl, -, hn⟩
        exact ⟨by omega, rfl⟩
    | negInt m =>
      simp only [Value.asI64, Value.asStr, Number.asI64, sentInt, Option.bind_none, Option.or_none,
        Option.some.injEq]
      constructor
      · rintro rfl
        exact ⟨rfl, Int64.le_toInt m, Int64.toInt_lt m⟩
      · exact And.left
    | float x => simp [Value.asI64, Value.asStr, Number.asI64, sentInt]
  | string s =>
    simp only [Value.asI64, Value.asStr, sentInt, Option.none_or, Option.bind_some, parseI64_eq,
      Option.filter_eq_some_iff, decide_eq_true_iff]
  | null => simp [Value.asI64, Value.asStr, sentInt]
  | bool b => simp [Value.asI64, Value.asStr, sentInt]
  | array items => simp [Value.asI64, Value.asStr, sentInt]
  | object fields => simp [Value.asI64, Value.asStr, sentInt]

/-! ## What reaches the host -/

theorem Reaches.within {P : Command → Prop} {h : Handler (List Reply)} {c : Command}
    (hc : Reaches h c) (hP : h.Within (OnCommands P)) : P c := by
  obtain ⟨σ, host, s, hmem⟩ := hc
  exact within_commands hP host s c hmem

/-- A host that fails every call is sent a handler's first command. -/
theorem reaches_first (c : Command) (f : Unit → Handler (List Reply)) :
    Reaches (perform id c >>= f) c := by
  refine ⟨Unit, fun _ call => (silent call, ()), (), ?_⟩
  rw [perform, commands_attempt_bind]
  exact List.mem_append_left _ (List.mem_singleton.mpr rfl)

theorem reaches_volume {data : Value} {x : Int} :
    Reaches (volume data) (.setVolume x) ↔ ∃ v, asIntLenient data = some v ∧ x = toI32 v := by
  unfold volume
  cases asIntLenient data with
  | none =>
    simp only [reduceCtorEq, false_and, exists_false, iff_false]
    intro hreaches
    have hwithin := hreaches.within (P := fun _ => False) (by simp)
    exact hwithin
  | some v =>
    simp only [Option.some.injEq]
    constructor
    · intro hreaches
      have hwithin := hreaches.within (P := fun c => c = .setVolume (toI32 v)) (by simp)
      exact ⟨v, rfl, Command.setVolume.inj hwithin⟩
    · rintro ⟨_, rfl, rfl⟩
      exact reaches_first _ _

theorem reaches_position {data : Value} {x : Int} :
    Reaches (position data) (.setPosition x) ↔ ∃ v, asIntLenient data = some v ∧ x = toI32 v := by
  unfold position currentPosition
  cases asIntLenient data with
  | none =>
    simp only [reduceCtorEq, false_and, exists_false, iff_false]
    intro hreaches
    have hwithin := hreaches.within (P := fun _ => False) (by simp)
    exact hwithin
  | some v =>
    simp only [Option.some.injEq]
    constructor
    · intro hreaches
      have hwithin := hreaches.within (P := fun c => c = .setPosition (toI32 v)) (by simp)
      exact ⟨v, rfl, Command.setPosition.inj hwithin⟩
    · rintro ⟨_, rfl, rfl⟩
      exact reaches_first _ _

theorem reaches_play {data : Value} {ctx : Ctx} {x : Int} :
    Reaches (playItem data ctx) (.playListItem x) ↔
      x = if ctx.platform = .android then toI32 (indexOf data - 1) else indexOf data := by
  unfold playItem ack
  constructor
  · intro hreaches
    have hwithin := hreaches.within (P := fun c => c = .playListItem
      (if ctx.platform = .android then toI32 (indexOf data - 1) else indexOf data)) (by simp)
    exact Command.playListItem.inj hwithin
  · rintro rfl
    exact reaches_first _ _

theorem reaches_remove {data : Value} {x : Int} :
    Reaches (removeItem data) (.removeListItem x) ↔ x = indexOf data := by
  unfold removeItem
  constructor
  · intro hreaches
    have hwithin := hreaches.within (P := fun c => c = .removeListItem (indexOf data)) (by simp)
    exact Command.removeListItem.inj hwithin
  · rintro rfl
    exact reaches_first _ _

/-- A volume and a position are passed on where the handlers read one. -/
theorem value_intact_iff {data : Value} {n : Int} (h : sentInt data = some n) :
    (∀ x, (∃ v, asIntLenient data = some v ∧ x = toI32 v) → x = i32Saturating n) ↔
      (InI64 n → Kept n) := by
  rw [← kept_iff]
  simp only [asIntLenient_eq_some, h, Option.some.injEq]
  constructor
  · intro hall hin
    exact hall _ ⟨n, ⟨rfl, hin⟩, rfl⟩
  · rintro hkept x ⟨_, ⟨rfl, hin⟩, rfl⟩
    exact hkept hin

/-- A field that the handlers read as a number, zero where it is none. -/
def fieldOf (data : Value) (key : String) : Int :=
  toI32 (((data.get key).bind asIntLenient).getD 0)

theorem reaches_move {data : Value} {x y : Int} :
    Reaches (moveTrack data) (.moveListItem x y) ↔
      x = fieldOf data "from" ∧ y = fieldOf data "to" := by
  unfold moveTrack
  constructor
  · intro hreaches
    have hwithin := hreaches.within
      (P := fun c => c = .moveListItem (fieldOf data "from") (fieldOf data "to"))
      (by simp [fieldOf])
    exact Command.moveListItem.inj hwithin
  · rintro ⟨rfl, rfl⟩
    exact reaches_first _ _

/-! ## Indexes -/

theorem toI32_bounds (v : Int) : -2 ^ 31 ≤ toI32 v ∧ toI32 v < 2 ^ 31 := by
  unfold toI32
  rw [Int.bmod_def]
  split <;> omega

/-- A number past `i64` is read as none, and none as zero. -/
theorem read_sent {v : Value} {n : Int} (h : sentInt v = some n) :
    asIntLenient v = if -2 ^ 63 ≤ n ∧ n < 2 ^ 63 then some n else none := by
  split
  · rename_i hin
    exact asIntLenient_eq_some.mpr ⟨h, hin⟩
  · rename_i hout
    refine Option.eq_none_iff_forall_ne_some.mpr fun m hm => ?_
    obtain ⟨hsent, hin⟩ := asIntLenient_eq_some.mp hm
    obtain rfl := Option.some.inj (h.symm.trans hsent)
    exact hout hin

theorem read_unsent {v : Value} (h : sentInt v = none) : asIntLenient v = none := by
  refine Option.eq_none_iff_forall_ne_some.mpr fun m hm => ?_
  cases h.symm.trans (asIntLenient_eq_some.mp hm).1

/-- What is left of a number that was sent. -/
theorem narrowed_eq_iff (n : Int) :
    toI32 ((if -2 ^ 63 ≤ n ∧ n < 2 ^ 63 then some n else none).getD 0) = i32Saturating n ↔
      InI64 n ∧ Kept n := by
  by_cases hin : InI64 n
  · rw [if_pos (show -2 ^ 63 ≤ n ∧ n < 2 ^ 63 from hin), Option.getD_some, kept_iff]
    exact (and_iff_right hin).symm
  · rw [if_neg (show ¬ (-2 ^ 63 ≤ n ∧ n < 2 ^ 63) from hin), Option.getD_none]
    refine iff_of_false (fun h => i32Saturating_ne_zero hin h.symm) fun h => hin h.1

theorem get_of_sentInt {v : Value} {n : Int} (h : sentInt v = some n) (key : String) :
    v.get key = none := by
  cases v with
  | object fields => cases h
  | _ => rfl

theorem indexOf_eq_iff {data : Value} {n : Int} (h : sentIndex data = some n) :
    indexOf data = i32Saturating n ↔ InI64 n ∧ Kept n := by
  rw [← narrowed_eq_iff]
  unfold indexOf
  unfold sentIndex at h
  cases hbare : sentInt data with
  | some m =>
    rw [hbare, Option.some_or] at h
    obtain rfl := Option.some.inj h
    rw [read_sent hbare, get_of_sentInt hbare, Option.bind_none, Option.or_none]
  | none =>
    rw [hbare, Option.none_or] at h
    obtain ⟨v, hv, hsent⟩ := Option.bind_eq_some_iff.mp h
    rw [read_unsent hbare, Option.none_or, hv, Option.bind_some, read_sent hsent]

theorem fieldOf_eq_iff {data : Value} {key : String} {n : Int}
    (h : (data.get key).bind sentInt = some n) :
    fieldOf data key = i32Saturating n ↔ InI64 n ∧ Kept n := by
  obtain ⟨v, hv, hsent⟩ := Option.bind_eq_some_iff.mp h
  rw [← narrowed_eq_iff, fieldOf, hv, Option.bind_some, read_sent hsent]

/-! ## Versions -/

theorem parseU8_sent {s : String} {m : Nat} (h : parseU8 s = some m) :
    parseInt s = some (m : Int) := by
  unfold parseU8 at h
  unfold parseInt
  generalize s.toList = cs at h ⊢
  have hread (o : Option Nat) (h : (do
        let n ← o
        guard (n < 256)
        return n) = some m) : o = some m := by
    obtain ⟨n, rfl, hn⟩ := Option.bind_eq_some_iff.mp h
    obtain ⟨-, -, hn⟩ := Option.bind_eq_some_iff.mp hn
    exact hn
  split at h
  · rename_i digits
    have hdigits := hread _ h
    simp only [hdigits]
    rfl
  · rename_i hplus
    have hdigits := hread _ h
    split
    · simp [parseDigits] at hdigits
    · exact (hplus _ rfl).elim
    · rw [hdigits]
      rfl

theorem handleProtocol_intact {data : Value} {n : Int} {s : LegacySession} :
    ((s.handleProtocol data).2 = false →
        (s.handleProtocol data).1.protocolVersion.map Int.ofNat = some n) ↔
      (minProtocol ≤ (parseHandshake data).version →
        ((parseHandshake data).version : Int) = n) := by
  unfold LegacySession.handleProtocol
  dsimp only
  split
  · rename_i hlow
    exact iff_of_true (fun h => by cases h) fun h => absurd h (Nat.not_le.mpr hlow)
  · rename_i hhigh
    simp [Nat.le_of_not_lt hhigh]

theorem mod_intact_iff (m : Nat) :
    (minProtocol ≤ m % 256 → ((m % 256 : Nat) : Int) = (m : Int)) ↔
      m < 256 ∨ m % 256 < minProtocol := by
  unfold minProtocol
  omega

/-- A version that is cut to eight bits. -/
theorem handshake_counted {data : Value} {m : Nat}
    (hversion : (parseHandshake data).version = m % 256)
    (hsent : sentVersion data = some (m : Int))
    (hnumber : versionNumber data = some m) :
    Intact (.handshake data) ↔ Fits (.handshake data) := by
  unfold Intact Fits
  simp only [handleProtocol_intact, hversion, hsent, hnumber, Option.mem_def, Option.some.injEq,
    forall_eq']
  rw [← mod_intact_iff]
  exact ⟨fun h => h {}, fun h _ => h⟩

/-- A version that is not: it is refused, or read from a text that holds it. -/
theorem handshake_uncounted {data : Value} (hnumber : versionNumber data = none)
    (hversion : minProtocol ≤ (parseHandshake data).version →
      ∀ n ∈ sentVersion data, ((parseHandshake data).version : Int) = n) :
    Intact (.handshake data) ↔ Fits (.handshake data) := by
  refine iff_of_true (fun n hn session => ?_) fun n hn => ?_
  · rw [handleProtocol_intact]
    exact fun hhigh => hversion hhigh n hn
  · rw [hnumber] at hn
    cases hn

theorem handshake_unversioned {data : Value} (hnumber : versionNumber data = none)
    (hversion : (parseHandshake data).version = 0) :
    Intact (.handshake data) ↔ Fits (.handshake data) := by
  refine handshake_uncounted hnumber fun hhigh => ?_
  rw [hversion] at hhigh
  exact absurd hhigh (by decide)

theorem handshake_intact_iff (data : Value) :
    Intact (.handshake data) ↔ Fits (.handshake data) := by
  cases data with
  | number k =>
    cases k with
    | posInt m => exact handshake_counted (m := m.toNat) rfl rfl rfl
    | negInt m => exact handshake_unversioned rfl rfl
    | float x => exact handshake_unversioned rfl rfl
  | string s =>
    cases hparsed : parseU8 (Text.trim s) with
    | none =>
      refine handshake_unversioned rfl ?_
      simp only [parseHandshake, hparsed, Option.getD_none]
    | some m =>
      refine handshake_uncounted rfl fun _ n hn => ?_
      simp only [parseHandshake, hparsed, Option.getD_some]
      exact Option.some.inj ((parseU8_sent hparsed).symm.trans hn)
  | object fields =>
    have hread : versionNumber (.object fields) =
        ((Value.object fields).get "protocol_version").bind Installations.asU64 := rfl
    have hversion : (parseHandshake (.object fields)).version =
        (versionNumber (.object fields)).getD 0 % 256 := rfl
    cases hnumber : versionNumber (.object fields) with
    | none => exact handshake_unversioned hnumber (by rw [hversion, hnumber]; rfl)
    | some m =>
      refine handshake_counted (by rw [hversion, hnumber]; rfl) ?_ hnumber
      rw [hread] at hnumber
      obtain ⟨v, hfield, hv⟩ := Option.bind_eq_some_iff.mp hnumber
      cases v with
      | number k =>
        simp only [sentVersion, hfield]
        cases k with
        | posInt u =>
          cases hv
          rfl
        | _ => cases hv
      | _ => cases hv
  | null => exact handshake_unversioned rfl rfl
  | bool b => exact handshake_unversioned rfl rfl
  | array items => exact handshake_unversioned rfl rfl

/-! ## Rows -/

/-- The row before one of the host's rows wraps at the first alone. -/
theorem toI32_pred {i : Int} (hlow : -2 ^ 31 ≤ i) (hhigh : i < 2 ^ 31) :
    toI32 (i - 1) = if i = -2 ^ 31 then 2 ^ 31 - 1 else i - 1 := by
  unfold toI32
  rw [Int.bmod_def]
  split <;> split <;> omega

theorem i32Saturating_bounds (n : Int) : -2 ^ 31 ≤ i32Saturating n ∧ i32Saturating n < 2 ^ 31 := by
  unfold i32Saturating
  omega

theorem indexOf_bounds (data : Value) : -2 ^ 31 ≤ indexOf data ∧ indexOf data < 2 ^ 31 :=
  toI32_bounds _

/-- The row a request names, counted as the host counts it. -/
theorem play_intact_iff {data : Value} {n : Int} (ctx : Ctx) (h : sentIndex data = some n) :
    (if ctx.platform = .android then toI32 (indexOf data - 1) else indexOf data) =
          i32Saturating n - oneBased ctx ∧ -2 ^ 31 ≤ i32Saturating n - oneBased ctx ↔
      InI64 n ∧ Kept n ∧ (ctx.platform = .android → -2 ^ 31 < i32Saturating n) := by
  rw [← and_assoc, ← indexOf_eq_iff h]
  obtain ⟨hlow, hhigh⟩ := indexOf_bounds data
  have hsat := i32Saturating_bounds n
  unfold oneBased
  by_cases handroid : ctx.platform = .android
  · rw [if_pos handroid, if_pos handroid, toI32_pred hlow hhigh]
    constructor
    · rintro ⟨hrow, hbound⟩
      split at hrow
      · omega
      · exact ⟨by omega, fun _ => by omega⟩
    · rintro ⟨hrow, hfirst⟩
      have hpast := hfirst handroid
      rw [if_neg (by omega)]
      omega
  · rw [if_neg handroid, if_neg handroid]
    constructor
    · intro hrow
      exact ⟨by omega, fun h => absurd h handroid⟩
    · rintro ⟨hrow, -⟩
      omega

/-! ## The law -/

end Mbrc.Commands
