import MbrcPlugin.Lib.Environment
import MbrcPlugin.Protocol.Json

/-!
# The firewall rule

The helper creates or restores the inbound rule of the port, and checks it for the setup wizard.
Both go through COM, where any call may fail and the rules stand in any order.  What `ensureRule`
leaves behind, wherever it stops, is at most one rule of our name changed or added, and where it
succeeds `checkRule` finds the port open (`ensured_open`).
-/

namespace Mbrc.Firewall

open Interaction

/-! ## What the helper knows -/

def ruleName : String := "MusicBee Remote: Listening Port"

inductive Error where
  | accessDenied
  | com (message : String)
  deriving DecidableEq

inductive Outcome where
  | created | updated
  deriving DecidableEq

structure Report where
  outcome : Outcome
  /-- Whether the firewall was on for any active profile, where that could be read. -/
  firewallActive : Option Bool

/-- `NET_FW_PROFILE2_*`, as a mask. -/
abbrev Profiles := BitVec 32

def publicProfile : Profiles := 4

def allProfiles : Profiles := 0x7fffffff

/-- What `rule_state` reads off one rule. -/
structure RuleState where
  enabled : Bool
  allowsInbound : Bool
  localPorts : String
  profiles : Profiles

/-- Where our rule stands for the port, worst to best. -/
inductive RuleStatus where
  | missing | disabled | blocking | otherPort | otherProfile | «open»
  deriving DecidableEq

/-- How good a status is. -/
def RuleStatus.rank : RuleStatus → Nat
  | missing => 0
  | disabled => 1
  | blocking => 2
  | otherPort => 3
  | otherProfile => 4
  | «open» => 5

def RuleStatus.best (a b : RuleStatus) : RuleStatus := if a.rank ≤ b.rank then b else a

structure Check where
  rule : RuleStatus
  firewall : Option Bool
  publicNetwork : Option Bool

/-- `str::parse::<u16>`. -/
def parseU16 (s : List Char) : Option Nat :=
  (parseDigits (match s with
    | '+' :: digits => digits
    | digits => digits)).filter (· < 65536)

/-- One part of a `LocalPorts` value. -/
def partCovers (port : Nat) (part : List Char) : Bool :=
  if part = ['*'] then true
  else
    match Text.splitOnce '-' part with
    | some (low, high) =>
      match parseU16 (Text.trimChars low), parseU16 (Text.trimChars high) with
      | some low, some high => decide (low ≤ port ∧ port ≤ high)
      | _, _ => false
    | none => decide (parseU16 part = some port)

/-- `ports_cover`. -/
def portsCover (localPorts : String) (port : Nat) : Bool :=
  (localPorts.toList.splitOn ',').any fun part => partCovers port (Text.trimChars part)

/-- `status_of`: unreadable profiles do not count against a rule. -/
def statusOf (state : RuleState) (port : Nat) (active : Option Profiles) : RuleStatus :=
  if state.enabled = false then .disabled
  else if state.allowsInbound = false then .blocking
  else if portsCover state.localPorts port = false then .otherPort
  else if active.any fun mask => state.profiles &&& mask = 0 then .otherProfile
  else .«open»

/-! ## COM -/

/-- A rule of the firewall; its name may not be readable. -/
structure Rule where
  name : Option String
  enabled : Bool
  allow : Bool
  inbound : Bool
  tcp : Bool
  localPorts : String
  profiles : Profiles
  deriving DecidableEq

/-- What a setter of a rule sets. -/
inductive Change where
  | enabled | allow | inbound | allProfiles
  | localPorts (ports : String)

def Change.apply : Change → Rule → Rule
  | enabled, rule => { rule with enabled := true }
  | allow, rule => { rule with allow := true }
  | inbound, rule => { rule with inbound := true }
  | allProfiles, rule => { rule with profiles := Firewall.allProfiles }
  | localPorts ports, rule => { rule with localPorts := ports }

/-- The calls of `INetFwPolicy2` and of `INetFwRule`; a rule is known by its handle. -/
inductive Call where
  | currentProfiles
  | firewallEnabled (profile : Profiles)
  /-- The walk over the rules whose names can be read. -/
  | rules
  | put (rule : Nat) (change : Change)
  | add (rule : Rule)
  | enabled (rule : Nat)
  | action (rule : Nat)
  | direction (rule : Nat)
  | localPorts (rule : Nat)
  | profiles (rule : Nat)

def Call.Value : Call → Type
  | currentProfiles | profiles _ => Profiles
  | firewallEnabled _ | enabled _ | action _ | direction _ => Bool
  | rules => List (String × Nat)
  | put _ _ | add _ => Unit
  | localPorts _ => String

abbrev Call.Answer (c : Call) : Type := Except Error c.Value

abbrev Com (α : Type) := Fallible Call.Answer Error α

def com (c : Call) : Com c.Value := Fallible.attempt c id

/-- The first of some profiles that is active and has the firewall on. -/
def anyEnabled (active : Profiles) : List Profiles → Com Bool
  | [] => pure false
  | profile :: rest =>
    if active &&& profile = 0 then anyEnabled active rest
    else do
      let on : Bool ← com (.firewallEnabled profile)
      if on then pure true else anyEnabled active rest

/-- `is_enabled`: the domain, the private and the public profile. -/
def isEnabled : Com Bool := do
  let active ← com .currentProfiles
  anyEnabled active [1, 2, publicProfile]

/-- `restore_rule`. -/
def restoreRule (rule : Nat) : Com Unit := do
  com (.put rule .enabled)
  com (.put rule .allow)
  com (.put rule .inbound)
  com (.put rule .allProfiles)

/-- The rule as it is created; its profiles are COM's default. -/
def newRule (name ports : String) : Rule :=
  { name := some name, enabled := true, allow := true, inbound := true, tcp := true
    localPorts := ports, profiles := allProfiles }

/-- Only a rule that allows is asked for its direction. -/
def facesIn (rule : Nat) (allows : Bool) : Com Bool :=
  if allows then com (.direction rule) else pure false

def ruleState (rule : Nat) : Com RuleState := do
  let enabled ← com (.enabled rule)
  let allows ← com (.action rule)
  let allowsInbound ← facesIn rule allows
  let localPorts ← com (.localPorts rule)
  let profiles ← com (.profiles rule)
  pure { enabled, allowsInbound, localPorts, profiles }

/-! ## The rule of the port -/

/-- A rule of our name is restored and pointed at the port, else one is added. -/
def writeRule (name ports : String) : Option (String × Nat) → Com Outcome
  | some (_, rule) => do
    restoreRule rule
    com (.put rule (.localPorts ports))
    pure .updated
  | none => do
    com (.add (newRule name ports))
    pure .created

def ensureRule (name : String) (port : Nat) : Com Report := do
  let firewallActive ← isEnabled.toOption
  let found : List (String × Nat) ← com .rules
  let outcome ← writeRule name (toString port) (found.find? (·.1 = name))
  pure { outcome, firewallActive }

/-- The best status of the rules of this name, one that cannot be read left out. -/
def bestRule (name : String) (port : Nat) (active : Option Profiles) :
    List (String × Nat) → RuleStatus → Com RuleStatus
  | [], status => pure status
  | entry :: rest, status =>
    if entry.1 = name then do
      let state ← (ruleState entry.2).toOption
      bestRule name port active rest
        (state.elim status fun state => status.best (statusOf state port active))
    else bestRule name port active rest status

def checkRule (name : String) (port : Nat) : Com Check := do
  let mask ← (com .currentProfiles).toOption
  let active : Option Profiles := mask.filter (· ≠ 0)
  let found : List (String × Nat) ← com .rules
  let rule ← bestRule name port active found .missing
  let firewall ← isEnabled.toOption
  pure {
    rule, firewall
    publicNetwork := active.map fun mask => decide (mask &&& publicProfile ≠ 0) }

/-! ## The firewall -/

/-- The rules, by their handles. -/
abbrev Rules := Nat → Option Rule

/-- A rule that is there under a name. -/
def Named (fw : Rules) (name : String) (handle : Nat) : Prop :=
  ∃ rule, fw handle = some rule ∧ rule.name = some name

/-- What is read off a rule; where `reads` holds this fails only of a rule that is gone. -/
def ReadsAs {α : Type} (reads : Prop) (fw : Rules) (handle : Nat) (field : Rule → α) :
    Except Error α → Prop
  | .ok a => ∃ rule, fw handle = some rule ∧ field rule = a
  | .error _ => reads → fw handle = none

/-- What may be answered, and the rules after it: a call that fails changes nothing, and the walk
lists the rules whose names can be read. -/
def firewall (reads : Prop) : Environment Call.Answer Rules
  | fw, .currentProfiles, r, fw' => fw' = fw ∧ ∀ mask : Profiles, r = .ok mask → mask &&& 7 = mask
  | fw, .firewallEnabled _, _, fw' => fw' = fw
  | fw, .rules, r, fw' => fw' = fw ∧ ∀ found : List (String × Nat), r = .ok found →
      ∀ name handle, (name, handle) ∈ found ↔ Named fw name handle
  | fw, .put handle change, .ok _, fw' => ∃ rule, fw handle = some rule ∧
      fw' = Function.update fw handle (some (change.apply rule))
  | fw, .add rule, .ok _, fw' => ∃ handle, fw handle = none ∧
      fw' = Function.update fw handle (some rule)
  | fw, .put _ _, .error _, fw' | fw, .add _, .error _, fw' => fw' = fw
  | fw, .enabled handle, r, fw' => fw' = fw ∧ ReadsAs reads fw handle Rule.enabled r
  | fw, .action handle, r, fw' => fw' = fw ∧ ReadsAs reads fw handle Rule.allow r
  | fw, .direction handle, r, fw' => fw' = fw ∧ ReadsAs reads fw handle Rule.inbound r
  | fw, .localPorts handle, r, fw' => fw' = fw ∧ ReadsAs reads fw handle Rule.localPorts r
  | fw, .profiles handle, r, fw' => fw' = fw ∧ ReadsAs reads fw handle Rule.profiles r

/-- What is read off a rule where nothing fails. -/
def Rule.state (rule : Rule) : RuleState where
  enabled := rule.enabled
  allowsInbound := rule.allow && rule.inbound
  localPorts := rule.localPorts
  profiles := rule.profiles

variable {reads : Prop} {fw : Rules} {name : String} {port : Nat} {α : Type}

/-! ## Reading -/

theorem reads_anyEnabled (active : Profiles) (profiles : List Profiles) :
    Fallible.Reads (firewall reads) True (fun _ => True) (anyEnabled active profiles) fw := by
  induction profiles with
  | nil => exact Fallible.reads_pure trivial
  | cons profile profiles ih =>
    unfold anyEnabled
    split
    · exact ih
    · refine Fallible.Reads.bind (P := fun _ => True) ?_ fun on _ => ?_
      · exact Fallible.reads_attempt fun r t ht => ⟨ht, by cases r <;> trivial⟩
      split
      · exact Fallible.reads_pure trivial
      · exact ih

/-- The profiles that are active are of the three there are. -/
theorem reads_currentProfiles :
    Fallible.Reads (firewall reads) True (fun mask : Profiles => mask &&& 7 = mask)
      (com .currentProfiles) fw := by
  refine Fallible.reads_attempt fun r t ht => ⟨ht.1, ?_⟩
  cases r with
  | ok mask => exact ht.2 mask rfl
  | error e => trivial

theorem reads_isEnabled :
    Fallible.Reads (firewall reads) True (fun _ => True) isEnabled fw :=
  reads_currentProfiles.bind fun active _ => reads_anyEnabled active _

/-- What the walk lists. -/
def Lists (fw : Rules) (found : List (String × Nat)) : Prop :=
  ∀ name handle, (name, handle) ∈ found ↔ Named fw name handle

theorem reads_rules :
    Fallible.Reads (firewall reads) True (fun found : List (String × Nat) => Lists fw found)
      (com .rules) fw := by
  refine Fallible.reads_attempt fun r t ht => ⟨ht.1, ?_⟩
  cases r with
  | ok found => exact ht.2 found rfl
  | error e => trivial

/-- A field of a rule that is there. -/
theorem reads_field (c : Call) {handle : Nat} {rule : Rule} (hrule : fw handle = some rule)
    {field : Rule → c.Value}
    (henv : ∀ r t, firewall reads fw c r t → t = fw ∧ ReadsAs reads fw handle field r) :
    Fallible.Reads (firewall reads) (¬ reads) (fun a => a = field rule) (com c) fw := by
  refine Fallible.reads_attempt fun r t ht => ?_
  obtain ⟨ht, hr⟩ := henv r t ht
  refine ⟨ht, ?_⟩
  cases r with
  | error e =>
    intro hreads
    rw [hr hreads] at hrule
    cases hrule
  | ok a =>
    obtain ⟨other, hother, ha⟩ := hr
    obtain rfl := Option.some.inj (hrule.symm.trans hother)
    exact ha.symm

theorem reads_facesIn {handle : Nat} {rule : Rule} (hrule : fw handle = some rule) :
    Fallible.Reads (firewall reads) (¬ reads) (fun faces => faces = (rule.allow && rule.inbound))
      (facesIn handle rule.allow) fw := by
  cases hallow : rule.allow with
  | true => exact reads_field (.direction handle) hrule fun _ _ ht => ht
  | false => exact Fallible.reads_pure rfl

theorem reads_ruleState {handle : Nat} {rule : Rule} (hrule : fw handle = some rule) :
    Fallible.Reads (firewall reads) (¬ reads) (fun state => state = rule.state)
      (ruleState handle) fw := by
  unfold ruleState
  refine (reads_field (.enabled handle) hrule fun _ _ ht => ht).bind ?_
  rintro enabled rfl
  refine (reads_field (.action handle) hrule fun _ _ ht => ht).bind ?_
  rintro allows rfl
  refine (reads_facesIn hrule).bind ?_
  rintro allowsInbound rfl
  refine (reads_field (.localPorts handle) hrule fun _ _ ht => ht).bind ?_
  rintro ports rfl
  refine (reads_field (.profiles handle) hrule fun _ _ ht => ht).bind ?_
  rintro profiles rfl
  exact Fallible.reads_pure rfl

/-! ## The check -/

/-- The status of a rule of this name. -/
def StatusAmong (fw : Rules) (name : String) (port : Nat) (active : Option Profiles)
    (status : RuleStatus) : Prop :=
  ∃ handle rule, fw handle = some rule ∧ rule.name = some name ∧
    statusOf rule.state port active = status

theorem rank_best (a b : RuleStatus) : (a.best b).rank = max a.rank b.rank := by
  unfold RuleStatus.best
  split
  · rename_i h
    exact (max_eq_right h).symm
  · rename_i h
    exact (max_eq_left (Nat.le_of_not_le h)).symm

theorem best_cases (a b : RuleStatus) : a.best b = a ∨ a.best b = b := by
  unfold RuleStatus.best
  split
  · exact .inr rfl
  · exact .inl rfl

/-- The best of some rules of a name, and of a status before them; where `reads` fails some may have
been left out. -/
structure BestFrom (reads : Prop) (fw : Rules) (name : String) (port : Nat)
    (active : Option Profiles) (entries : List (String × Nat)) (status best : RuleStatus) :
    Prop where
  before : status.rank ≤ best.rank
  rules : reads → ∀ handle rule, (name, handle) ∈ entries → fw handle = some rule →
    (statusOf rule.state port active).rank ≤ best.rank
  attained : best = status ∨ StatusAmong fw name port active best

theorem reads_bestRule {active : Option Profiles} {entries : List (String × Nat)}
    (hentries : ∀ entry ∈ entries, Named fw entry.1 entry.2) (status : RuleStatus) :
    Fallible.Reads (firewall reads) True (BestFrom reads fw name port active entries status)
      (bestRule name port active entries status) fw := by
  induction entries generalizing status with
  | nil =>
    refine Fallible.reads_pure ⟨le_refl _, ?_, .inl rfl⟩
    exact fun _ handle rule hin _ => absurd hin List.not_mem_nil
  | cons entry entries ih =>
    obtain ⟨rule, hrule, hname⟩ := hentries entry List.mem_cons_self
    have ih := ih fun e he => hentries e (List.mem_cons_of_mem entry he)
    unfold bestRule
    split
    · rename_i hours
      refine (reads_ruleState hrule).toOption.bind fun state hstate => ?_
      cases state with
      | none =>
        refine (ih status).mono (fun best hbest => ⟨hbest.before, ?_, hbest.attained⟩) id
        exact fun hreads => absurd hreads hstate
      | some state =>
        obtain rfl : state = rule.state := hstate
        refine (ih _).mono (fun best hbest => ?_) id
        have hbefore : (status.best (statusOf rule.state port active)).rank ≤ best.rank :=
          hbest.before
        rw [rank_best] at hbefore
        refine ⟨le_trans (le_max_left _ _) hbefore, fun hreads handle other hin hother => ?_, ?_⟩
        · rcases List.mem_cons.mp hin with rfl | hin
          · obtain rfl := Option.some.inj (hrule.symm.trans hother)
            exact le_trans (le_max_right _ _) hbefore
          · exact hbest.rules hreads handle other hin hother
        · rcases hbest.attained with heq | hamong
          · rcases best_cases status (statusOf rule.state port active) with h | h
            · exact .inl (heq.trans h)
            · exact .inr ⟨entry.2, rule, hrule, hours ▸ hname, (heq.trans h).symm⟩
          · exact .inr hamong
    · rename_i hother
      refine (ih status).mono (fun best hbest => ⟨hbest.before, ?_, hbest.attained⟩) id
      intro hreads handle rule hin hrule
      rcases List.mem_cons.mp hin with rfl | hin
      · exact absurd rfl hother
      · exact hbest.rules hreads handle rule hin hrule

/-- What a check says of the rules. -/
structure Checked (reads : Prop) (fw : Rules) (name : String) (port : Nat) (check : Check)
    (active : Option Profiles) : Prop where
  mask : ∀ mask, active = some mask → mask ≠ 0 ∧ mask &&& 7 = mask
  publicNetwork : check.publicNetwork =
    active.map fun mask => decide (mask &&& publicProfile ≠ 0)
  best : reads → ∀ handle rule, fw handle = some rule → rule.name = some name →
    (statusOf rule.state port active).rank ≤ check.rule.rank
  attained : check.rule = .missing ∨ StatusAmong fw name port active check.rule

theorem reads_checkRule :
    Fallible.Reads (firewall reads) True
      (fun check => ∃ active, Checked reads fw name port check active) (checkRule name port)
      fw := by
  unfold checkRule
  refine reads_currentProfiles.toOption.bind fun mask hmask => ?_
  refine reads_rules.bind fun found hfound => ?_
  have hnamed : ∀ entry ∈ found, Named fw entry.1 entry.2 :=
    fun entry he => (hfound entry.1 entry.2).mp he
  refine (reads_bestRule hnamed .missing).bind fun rule hrule => ?_
  refine reads_isEnabled.toOption.bind fun on _ => Fallible.reads_pure ⟨_, ?_, rfl, ?_, ?_⟩
  · intro active hactive
    obtain ⟨hsome, hne⟩ := Option.filter_eq_some_iff.mp hactive
    rw [hsome] at hmask
    exact ⟨by simpa using hne, hmask⟩
  · exact fun hreads handle rule hthere hname =>
      hrule.rules hreads handle rule ((hfound name handle).mpr ⟨rule, hthere, hname⟩) hthere
  · exact hrule.attained

/-! ## The port of the rule -/

theorem parseU16_toString (hport : port < 65536) : parseU16 (toString port).toList = some port := by
  have hplus := not_mem_toString_of_not_isDigit (c := '+') (by decide) port
  unfold parseU16
  split
  · rename_i digits heq
    exact absurd (heq ▸ List.mem_cons_self) hplus
  · rw [parseDigits_toString, Option.filter_some, if_pos (by simpa using hport)]

/-- The text of a port covers the port. -/
theorem portsCover_toString (hport : port < 65536) : portsCover (toString port) port = true := by
  have hcomma : ∀ c ∈ (toString port).toList, (c == ',') = false := by
    intro c hc
    rw [beq_eq_false_iff_ne]
    rintro rfl
    exact not_mem_toString_of_not_isDigit (by decide) port hc
  have hany : (toString port).toList ≠ ['*'] := fun h =>
    not_mem_toString_of_not_isDigit (by decide) port (h ▸ List.mem_singleton_self '*')
  have honce : Text.splitOnce '-' (toString port).toList = none :=
    Text.splitOnce_eq_none.mpr (not_mem_toString_of_not_isDigit (by decide) port)
  have htrim : Text.trimChars (toString port).toList = (toString port).toList :=
    trimChars_eq_self fun c hc => isWhiteSpace_of_isDigit (isDigit_of_mem_toString hc)
  have hpart : partCovers port (toString port).toList = true := by
    rw [partCovers, if_neg hany, honce]
    exact decide_eq_true (parseU16_toString hport)
  rw [portsCover, List.splitOn, List.splitOnP_eq_singleton hcomma, List.any_cons, htrim, hpart,
    Bool.true_or]

/-- A rule that opens the port. -/
structure Opens (rule : Rule) (name : String) (port : Nat) : Prop where
  name : rule.name = some name
  enabled : rule.enabled = true
  allow : rule.allow = true
  inbound : rule.inbound = true
  ports : rule.localPorts = toString port
  profiles : rule.profiles = allProfiles

/-- No profile there is stands outside all of them. -/
theorem allProfiles_and {mask : Profiles} (hne : mask ≠ 0) (hmask : mask &&& 7 = mask) :
    allProfiles &&& mask ≠ 0 := by
  intro h
  apply hne
  have hall : (7 : Profiles) &&& allProfiles = 7 := by decide
  rw [← hmask, ← hall, ← BitVec.and_assoc, BitVec.and_comm (mask &&& 7), hmask, h]

theorem Opens.status {rule : Rule} (h : Opens rule name port) (hport : port < 65536)
    {active : Option Profiles} (hmask : ∀ mask, active = some mask → mask ≠ 0 ∧ mask &&& 7 = mask) :
    statusOf rule.state port active = .«open» := by
  have hcover : portsCover rule.localPorts port = true := by
    rw [h.ports]
    exact portsCover_toString hport
  have hactive : (active.any fun mask => rule.profiles &&& mask = 0) = false := by
    cases active with
    | none => rfl
    | some mask =>
      obtain ⟨hne, hthree⟩ := hmask mask rfl
      simpa [h.profiles] using allProfiles_and hne hthree
  simpa [statusOf, Rule.state, h.enabled, h.allow, h.inbound, hcover] using hactive

/-- What a status of open says. -/
theorem open_of_status {rule : Rule} {active : Option Profiles}
    (h : statusOf rule.state port active = .«open») :
    rule.enabled = true ∧ rule.allow = true ∧ rule.inbound = true ∧
      portsCover rule.localPorts port = true := by
  unfold statusOf at h
  split at h
  · cases h
  split at h
  · cases h
  split at h
  · cases h
  rename_i henabled hallows hports
  simp only [Rule.state, Bool.not_eq_false, Bool.and_eq_true] at henabled hallows hports
  exact ⟨henabled, hallows.1, hallows.2, hports⟩

/-! ## Writing -/

/-- What no setter changes. -/
structure Kept (rule rule' : Rule) : Prop where
  name : rule'.name = rule.name
  tcp : rule'.tcp = rule.tcp

theorem Kept.trans {a b c : Rule} (h : Kept a b) (h' : Kept b c) : Kept a c :=
  ⟨h'.name.trans h.name, h'.tcp.trans h.tcp⟩

theorem kept_apply (change : Change) (rule : Rule) : Kept rule (change.apply rule) := by
  cases change <;> exact ⟨rfl, rfl⟩

/-- Only this rule is changed; where it ends well, with `a`, into what was meant. -/
def Edits (fw : Rules) (handle : Nat) (rule meant : Rule) (a : α) (r : Except Error α) (t : Rules) :
    Prop :=
  ∃ rule', t = Function.update fw handle (some rule') ∧ Kept rule rule' ∧
    ∀ b, r = .ok b → b = a ∧ rule' = meant

abbrev Writes (reads : Prop) (Q : Except Error α → Rules → Prop) (x : Com α) (fw : Rules) : Prop :=
  x.Obeys (firewall reads) (fun _ _ => True) Q fw

theorem edits_put (handle : Nat) (change : Change) (rule : Rule) :
    Writes reads (Edits fw handle rule (change.apply rule) ()) (com (.put handle change))
      (Function.update fw handle (some rule)) := by
  refine Fallible.obeys_attempt.mpr ⟨trivial, fun r t ht => ?_⟩
  cases r with
  | error e => exact ⟨rule, ht, ⟨rfl, rfl⟩, fun a ha => by cases ha⟩
  | ok a =>
    obtain ⟨other, hother, rfl⟩ := ht
    rw [Function.update_self] at hother
    obtain rfl := Option.some.inj hother
    exact ⟨change.apply rule, Function.update_idem _ _ _, kept_apply change rule,
      fun _ _ => ⟨rfl, rfl⟩⟩

theorem edits_bind {handle : Nat} {rule mid meant : Rule} {x : Com α} {a : α} {β : Type} {b : β}
    {f : α → Com β}
    (hx : Writes reads (Edits fw handle rule mid a) x (Function.update fw handle (some rule)))
    (hf : Writes reads (Edits fw handle mid meant b) (f a)
      (Function.update fw handle (some mid))) :
    Writes reads (Edits fw handle rule meant b) (x >>= f)
      (Function.update fw handle (some rule)) := by
  refine Fallible.Obeys.bind (hx.mono fun r t ⟨rule', ht, hkept, hmeant⟩ => ?_)
  cases r with
  | error e => exact ⟨rule', ht, hkept, fun a ha => by cases ha⟩
  | ok c =>
    obtain ⟨rfl, rfl⟩ := hmeant c rfl
    rw [ht]
    refine hf.mono fun r u ⟨rule'', hu, hkept', hmeant'⟩ => ?_
    exact ⟨rule'', hu, hkept.trans hkept', hmeant'⟩

/-- A rule as it is restored. -/
def restored (rule : Rule) (ports : String) : Rule :=
  { rule with
    enabled := true, allow := true, inbound := true, profiles := allProfiles, localPorts := ports }

theorem edits_writeRule (handle : Nat) (rule : Rule) (ports : String) :
    Writes reads (Edits fw handle rule (restored rule ports) .updated)
      (writeRule name ports (some (name, handle))) (Function.update fw handle (some rule)) := by
  have hrestore : Writes reads (Edits fw handle rule
      (Change.allProfiles.apply (Change.inbound.apply (Change.allow.apply
        (Change.enabled.apply rule)))) ()) (restoreRule handle)
      (Function.update fw handle (some rule)) :=
    edits_bind (edits_put handle .enabled rule) <| edits_bind (edits_put handle .allow _) <|
      edits_bind (edits_put handle .inbound _) <| edits_put handle .allProfiles _
  refine edits_bind hrestore <| edits_bind (edits_put handle (.localPorts ports) _) ?_
  exact Fallible.obeys_pure.mpr ⟨_, rfl, ⟨rfl, rfl⟩, fun _ hb => ⟨(Except.ok.inj hb).symm, rfl⟩⟩

/-- This rule alone is touched: one of our name, which keeps its name and protocol, or a new one. -/
structure Touches (fw : Rules) (name : String) (port : Nat) (fw' : Rules) (handle : Nat) :
    Prop where
  others : ∀ h, h ≠ handle → fw' h = fw h
  ours : ∀ rule, fw handle = some rule → rule.name = some name ∧
    ∃ rule', fw' handle = some rule' ∧ Kept rule rule'
  added : fw handle = none → fw' handle = none ∨ fw' handle = some (newRule name (toString port))

/-- What writing the rule has come to, where it ends well. -/
structure Written (fw : Rules) (name : String) (port : Nat) (outcome : Outcome) (fw' : Rules)
    (handle : Nat) : Prop where
  opens : ∃ rule, fw' handle = some rule ∧ Opens rule name port
  updated : outcome = .updated ↔ ∃ h, Named fw name h

theorem writes_writeRule {found : List (String × Nat)} (hfound : Lists fw found) :
    Writes reads (fun r fw' => (fw' = fw ∨ ∃ handle, Touches fw name port fw' handle) ∧
        ∀ outcome, r = .ok outcome → ∃ handle, Written fw name port outcome fw' handle)
      (writeRule name (toString port) (found.find? (·.1 = name))) fw := by
  cases hfind : found.find? (·.1 = name) with
  | some entry =>
    obtain ⟨other, handle⟩ := entry
    obtain rfl : other = name := by simpa using List.find?_some hfind
    have hnamed := (hfound other handle).mp (List.mem_of_find?_eq_some hfind)
    obtain ⟨rule, hrule, hname⟩ := hnamed
    have hself : Function.update fw handle (some rule) = fw := by
      rw [← hrule, Function.update_eq_self]
    have hwrite : Writes reads (Edits fw handle rule (restored rule (toString port)) .updated)
        (writeRule other (toString port) (some (other, handle)))
        (Function.update fw handle (some rule)) := edits_writeRule handle rule _
    rw [hself] at hwrite
    refine hwrite.mono fun r t ⟨rule', ht, hkept, hmeant⟩ => ⟨.inr ⟨handle, ?_, ?_, ?_⟩, ?_⟩
    · intro h hne
      rw [ht, Function.update_of_ne hne]
    · intro rule₀ hrule₀
      obtain rfl := Option.some.inj (hrule.symm.trans hrule₀)
      exact ⟨hname, rule', by rw [ht, Function.update_self], hkept⟩
    · intro hnone
      rw [hrule] at hnone
      cases hnone
    · rintro outcome hr
      obtain ⟨rfl, rfl⟩ := hmeant outcome hr
      refine ⟨handle, ⟨restored rule (toString port), ?_, ⟨hname, rfl, rfl, rfl, rfl, rfl⟩⟩, ?_⟩
      · rw [ht, Function.update_self]
      · exact ⟨fun _ => ⟨handle, rule, hrule, hname⟩, fun _ => rfl⟩
  | none =>
    have hnone : ¬ ∃ h, Named fw name h := by
      rintro ⟨h, hh⟩
      have hmem := (hfound name h).mpr hh
      simpa using List.find?_eq_none.mp hfind _ hmem
    refine Fallible.Obeys.bind (Fallible.obeys_attempt.mpr ⟨trivial, fun r t ht => ?_⟩)
    cases r with
    | error e =>
      exact ⟨.inl ht, fun outcome hr => by cases hr⟩
    | ok a =>
      obtain ⟨handle, hfree, rfl⟩ := ht
      refine Fallible.obeys_pure.mpr ⟨.inr ⟨handle, ?_, ?_, ?_⟩, ?_⟩
      · intro h hne
        rw [Function.update_of_ne hne]
      · intro rule hrule
        rw [hfree] at hrule
        cases hrule
      · exact fun _ => .inr (Function.update_self _ _ _)
      · rintro outcome hr
        obtain rfl := Except.ok.inj hr
        refine ⟨handle, ⟨_, Function.update_self _ _ _, ⟨rfl, rfl, rfl, rfl, rfl, rfl⟩⟩, ?_⟩
        simp [hnone]

theorem writes_ensureRule :
    Writes reads (fun r fw' => (fw' = fw ∨ ∃ handle, Touches fw name port fw' handle) ∧
        ∀ report, r = .ok report → ∃ handle, Written fw name port report.outcome fw' handle)
      (ensureRule name port) fw := by
  have hstop : True → ∀ e : Error, (fw = fw ∨ ∃ handle, Touches fw name port fw handle) ∧
      ∀ report : Report, Except.error e = .ok report →
        ∃ handle, Written fw name port report.outcome fw handle :=
    fun _ e => ⟨.inl rfl, fun report hr => by cases hr⟩
  unfold ensureRule
  refine reads_isEnabled.toOption.obeys (fun active _ => ?_) hstop
  refine reads_rules.obeys (fun found hfound => ?_) hstop
  refine Fallible.Obeys.bind ((writes_writeRule hfound).mono fun r fw' ⟨htouch, hwritten⟩ => ?_)
  cases r with
  | error e => exact ⟨htouch, fun report hr => by cases hr⟩
  | ok outcome =>
    refine Fallible.obeys_pure.mpr ⟨htouch, fun report hr => ?_⟩
    obtain rfl := Except.ok.inj hr
    exact hwritten outcome rfl

/-! ## The rule and its check -/

/-- **An ensured port is open.**  However an `ensure` fares, where any of its calls may fail, at
most one rule of our name is changed or one is added, and it says `updated` exactly when there was
one.  A check changes nothing.  Where all it reads can be read it finds the port open after an
`ensure` that went well, and says so only of a rule that is on, allows what comes in and covers the
port. -/
theorem ensured_open {reads : Prop} {fw fw' fw'' : Rules} {name : String} {port : Nat}
    (hport : port < 65536) {calls calls' : List (Rules × Call)} {r : Except Error Report}
    {c : Except Error Check}
    (hensure : (ensureRule name port).run.Runs (firewall reads) fw calls r fw')
    (hcheck : (checkRule name port).run.Runs (firewall True) fw' calls' c fw'') :
    (fw' = fw ∨ ∃ handle, Touches fw name port fw' handle) ∧
      (∀ report, r = .ok report → (report.outcome = .updated ↔ ∃ h, Named fw name h)) ∧
      fw'' = fw' ∧ ∀ check, c = .ok check →
        ((∃ report, r = .ok report) → check.rule = .«open») ∧
        (check.rule = .«open» → ∃ handle rule, fw' handle = some rule ∧ rule.name = some name ∧
          rule.enabled = true ∧ rule.allow = true ∧ rule.inbound = true ∧
          portsCover rule.localPorts port = true) := by
  obtain ⟨-, htouch, hwritten⟩ := (Fallible.obeys_run.mpr writes_ensureRule).run hensure
  obtain ⟨rfl, hgot⟩ := reads_checkRule.run hcheck
  refine ⟨htouch, fun report hr => ?_, rfl, ?_⟩
  · obtain ⟨handle, hw⟩ := hwritten report hr
    exact hw.updated
  rintro check rfl
  obtain ⟨active, hchecked⟩ := hgot
  refine ⟨?_, fun hopen => ?_⟩
  · rintro ⟨report, hr⟩
    obtain ⟨handle, hw⟩ := hwritten report hr
    obtain ⟨rule, hrule, hopens⟩ := hw.opens
    have hbest := hchecked.best trivial handle rule hrule hopens.name
    rw [hopens.status hport hchecked.mask] at hbest
    cases h : check.rule <;> rw [h] at hbest <;> first | rfl | exact absurd hbest (by decide)
  · rcases hchecked.attained with hmissing | ⟨handle, rule, hrule, hname, hstatus⟩
    · rw [hopen] at hmissing
      cases hmissing
    · exact ⟨handle, rule, hrule, hname, open_of_status (hstatus.trans hopen)⟩

/-! ## A rule that was turned off -/

def turnedOff : Rules := fun handle =>
  if handle = 7 then
    some { newRule ruleName "3001" with enabled := false, profiles := 2 }
  else none

/-- Everything works, and our rule is the only one. -/
def workingCom (fw : Rules) : (c : Call) → Call.Answer c × Rules
  | .currentProfiles => (.ok (4 : Profiles), fw)
  | .firewallEnabled _ => (.ok true, fw)
  | .rules => (.ok [(ruleName, (7 : Nat))], fw)
  | .put handle change =>
    match fw handle with
    | some rule => (.ok (), Function.update fw handle (some (change.apply rule)))
    | none => (.error .accessDenied, fw)
  | .add _ => (.error .accessDenied, fw)
  | .enabled handle => ((fw handle).elim (.error .accessDenied) fun rule => .ok rule.enabled, fw)
  | .action handle => ((fw handle).elim (.error .accessDenied) fun rule => .ok rule.allow, fw)
  | .direction handle => ((fw handle).elim (.error .accessDenied) fun rule => .ok rule.inbound, fw)
  | .localPorts handle =>
    ((fw handle).elim (.error .accessDenied) fun rule => .ok rule.localPorts, fw)
  | .profiles handle => ((fw handle).elim (.error .accessDenied) fun rule => .ok rule.profiles, fw)

/-- Our rule is the only one. -/
def OnlyOurs (fw : Rules) : Prop :=
  ∀ handle, (handle = 7 → ∃ rule, fw handle = some rule ∧ rule.name = some ruleName) ∧
    (handle ≠ 7 → fw handle = none)

theorem readsAs_elim (handle : Nat) (field : Rule → α) :
    ReadsAs True fw handle field
      ((fw handle).elim (.error .accessDenied) fun rule => .ok (field rule)) := by
  cases h : fw handle with
  | none => exact fun _ => h
  | some rule => exact ⟨rule, h, rfl⟩

theorem onlyOurs_workingCom (fw : Rules) (c : Call) (h : OnlyOurs fw) :
    firewall True fw c (workingCom fw c).1 (workingCom fw c).2 ∧ OnlyOurs (workingCom fw c).2 := by
  cases c with
  | currentProfiles =>
    refine ⟨⟨rfl, fun mask hmask => ?_⟩, h⟩
    obtain rfl := Except.ok.inj hmask
    decide
  | firewallEnabled profile => exact ⟨rfl, h⟩
  | rules =>
    refine ⟨⟨rfl, fun found hfound name handle => ?_⟩, h⟩
    obtain rfl := Except.ok.inj hfound
    obtain ⟨rule, hrule, hname⟩ := (h 7).1 rfl
    constructor
    · intro hmem
      obtain ⟨rfl, rfl⟩ := Prod.mk.inj (List.mem_singleton.mp hmem)
      exact ⟨rule, hrule, hname⟩
    · rintro ⟨other, hother, hothers⟩
      by_cases hseven : handle = 7
      · subst hseven
        obtain rfl := Option.some.inj (hrule.symm.trans hother)
        rw [Option.some.inj (hothers.symm.trans hname)]
        exact List.mem_cons_self
      · rw [(h handle).2 hseven] at hother
        cases hother
  | put handle change =>
    cases hrule : fw handle with
    | none =>
      simp only [workingCom, hrule]
      exact ⟨rfl, h⟩
    | some rule =>
      simp only [workingCom, hrule]
      refine ⟨⟨rule, hrule, rfl⟩, fun other => ⟨?_, fun hother => ?_⟩⟩
      · rintro rfl
        by_cases heq : handle = 7
        · subst heq
          obtain ⟨ours, hours, hname⟩ := (h 7).1 rfl
          obtain rfl := Option.some.inj (hrule.symm.trans hours)
          exact ⟨_, Function.update_self _ _ _, (kept_apply change rule).name.trans hname⟩
        · rw [Function.update_of_ne (Ne.symm heq)]
          exact (h 7).1 rfl
      · have hne : handle ≠ other := by
          rintro rfl
          rw [(h handle).2 hother] at hrule
          cases hrule
        rw [Function.update_of_ne hne.symm]
        exact (h other).2 hother
  | add rule => exact ⟨rfl, h⟩
  | enabled handle => exact ⟨⟨rfl, readsAs_elim handle _⟩, h⟩
  | action handle => exact ⟨⟨rfl, readsAs_elim handle _⟩, h⟩
  | direction handle => exact ⟨⟨rfl, readsAs_elim handle _⟩, h⟩
  | localPorts handle => exact ⟨⟨rfl, readsAs_elim handle _⟩, h⟩
  | profiles handle => exact ⟨⟨rfl, readsAs_elim handle _⟩, h⟩

theorem onlyOurs_turnedOff : OnlyOurs turnedOff := by
  intro handle
  constructor
  · rintro rfl
    exact ⟨_, rfl, rfl⟩
  · exact fun hne => if_neg hne

/-- The rule that was turned off, on another port and profile, is open once it has been ensured. -/
theorem ensured_open_turnedOff : ∃ check,
    ((checkRule ruleName 3000).run.run workingCom
      ((ensureRule ruleName 3000).run.run workingCom turnedOff).2.2).2.1 = .ok check ∧
    check.rule = .«open» := by
  obtain ⟨hensure, hours⟩ := Program.runs_trace_of onlyOurs_workingCom
    (ensureRule ruleName 3000).run onlyOurs_turnedOff
  obtain ⟨hcheck, -⟩ := Program.runs_trace_of onlyOurs_workingCom
    (checkRule ruleName 3000).run hours
  obtain ⟨-, -, -, hopen⟩ := ensured_open (by decide) hensure hcheck
  exact ⟨_, rfl, (hopen _ rfl).1 ⟨_, rfl⟩⟩

end Mbrc.Firewall
