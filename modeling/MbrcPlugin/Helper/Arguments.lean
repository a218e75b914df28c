import MbrcPlugin.Helper.Update
import MbrcPlugin.Lib.Windows
import MbrcPlugin.Settings.AddressFilter

/-!
# What the helper is asked to do

The core passes the helper an argument list, as a list or quoted into one command line; the helper
splits the line, reads the flags and acts only on what it understands all of.  It starts an update
for exactly the lists of distinct known flags with a value each (`actionOf_update_iff`), and what it
starts is what the core passed (`handed_over`).
-/

namespace Mbrc.Helper

open Interaction Updates

/-! ## The arguments of the core -/

/-- What the core knows when it starts the helper. -/
structure Handover where
  pid : Nat
  staged : String
  target : String
  relaunch : String
  aumid : Option String

namespace Handover

variable (h : Handover)

def pidText : String := String.ofList (Net.showNumber 10 h.pid)

/-- `update --pid <us> --staged <dir> --target <dir> --relaunch <exe>`. -/
def arguments : List String :=
  ["update", "--pid", h.pidText, "--staged", h.staged, "--target", h.target,
    "--relaunch", h.relaunch] ++
    h.aumid.elim [] fun aumid => ["--relaunch-aumid", aumid]

end Handover

/-- The arguments as one text, each in quotes. -/
def quote (arguments : List String) : String :=
  String.ofList (CommandLine.quote (arguments.map String.toList))

/-- How the helper is started: its path in quotes, then its arguments. -/
def commandLine (exe : String) (arguments : List String) : String :=
  "\"" ++ exe ++ "\" " ++ quote arguments

/-- What a process reads as its arguments, its own name first. -/
def arguments (line : String) : List String :=
  (CommandLine.arguments line.toList).map String.ofList

/-! ## The flags -/

def usage : String :=
  "mbrc-helper - elevated helper for MusicBee Remote\n\nUSAGE:\n" ++
  "    mbrc-helper firewall --port <n>\n" ++
  "    mbrc-helper firewall --check --port <n>\n" ++
  "    mbrc-helper update --pid <n> --staged <dir> --target <dir> --relaunch <exe>\n" ++
  "                       [--relaunch-aumid <aumid>]\n" ++
  "    mbrc-helper --version\n\nCOMMANDS:\n" ++
  "    firewall    Add or update the inbound firewall rule for the listening port.\n" ++
  "                With --check, print whether the rule lets the port in, as one\n" ++
  "                JSON object, and change nothing.\n" ++
  "    update      Re-verify and apply a staged update, then relaunch MusicBee.\n\n" ++
  "Both commands require administrative rights, except firewall --check.\n\n" ++
  "EXIT CODES:\n" ++
  "    0  success                    5  the staged update did not verify\n" ++
  "    1  failed                     6  MusicBee did not exit in time\n" ++
  "    2  bad arguments              7  failed part way; previous files restored\n" ++
  "    3  not elevated               8  failed part way; restore also failed\n" ++
  "    4  not implemented"

/-- A value that looks like a flag means that the value was left out. -/
def isFlag (value : String) : Bool := (Text.after "--" value).isSome

/-- `--name value` pairs of the allowed names, each at most once; `flags` is what is read so far. -/
def parseFlags (allowed : List String) :
    List String → List (String × String) → Except String (List (String × String))
  | [], flags => .ok flags
  | arg :: args, flags =>
    match Text.after "--" arg with
    | none => .error ("expected a --flag, got " ++ arg.quote)
    | some name =>
      if name ∈ allowed then
        match args with
        | [] => .error ("--" ++ name ++ " requires a value")
        | value :: args =>
          if isFlag value then .error ("--" ++ name ++ " requires a value, got " ++ value.quote)
          else if name ∈ flags.map Prod.fst then .error ("--" ++ name ++ " given more than once")
          else parseFlags allowed args (flags ++ [(name, value)])
      else .error ("unknown flag --" ++ name ++ "; expected one of " ++
        ", ".intercalate (allowed.map fun a => "--" ++ a))

/-- `require`. -/
def requireFlag (flags : List (String × String)) (name : String) : Except String String :=
  (flags.lookup name).elim (.error ("--" ++ name ++ " is required")) .ok

/-! ## The command -/

/-- What an argument list stands for. -/
inductive Action where
  | usage
  | version
  | help
  | firewall (port : Fin 65536) (check : Bool)
  | update (request : Request)

def updateFlags : List String := ["pid", "staged", "target", "relaunch", "relaunch-aumid"]

def firewallOf (check : Bool) (args : List String) : Except String Action := do
  let flags ← parseFlags ["port"] args []
  let text ← requireFlag flags "port"
  let port ← (Settings.parseUnsigned 65536 text).elim
    (.error ("--port must be a number in 1..=65535, got " ++ text.quote)) .ok
  if port = 0 then .error "--port must be in 1..=65535, got 0" else .ok (.firewall port check)

def updateOf (args : List String) : Except String Action := do
  let flags ← parseFlags updateFlags args []
  let text ← requireFlag flags "pid"
  let staged ← requireFlag flags "staged"
  let target ← requireFlag flags "target"
  let relaunch ← requireFlag flags "relaunch"
  let pid ← (Settings.parseUnsigned (2 ^ 32) text).elim
    (.error ("--pid must be a process id, got " ++ text.quote)) .ok
  return .update { pid := pid.val, staged, target, relaunch,
                   relaunchAumid := flags.lookup "relaunch-aumid" }

/-- `run`, up to what it does. -/
def actionOf : List String → Except String Action
  | [] => .ok .usage
  | command :: args =>
    if command = "--version" ∨ command = "-V" then .ok .version
    else if command = "--help" ∨ command = "-h" ∨ command = "help" then .ok .help
    else if command = "firewall" then
      if args.head? = some "--check" then firewallOf true args.tail else firewallOf false args
    else if command = "update" then updateOf args
    else .error ("unknown command " ++ command.quote ++ "\n\n" ++ usage)

/-! ## The flags that are read -/

/-- The pairs as they are spelled. -/
def spelled (flags : List (String × String)) : List String :=
  flags.flatMap fun flag => ["--" ++ flag.1, flag.2]

/-- Distinct allowed names, with values that are no flags. -/
structure Distinct (allowed : List String) (flags : List (String × String)) : Prop where
  nodup : (flags.map Prod.fst).Nodup
  allowed : ∀ flag ∈ flags, flag.1 ∈ allowed
  value : ∀ flag ∈ flags, isFlag flag.2 = false

theorem spelled_cons (name value : String) (flags : List (String × String)) :
    spelled ((name, value) :: flags) = ("--" ++ name) :: value :: spelled flags := rfl

theorem after_flag (name : String) : Text.after "--" ("--" ++ name) = some name :=
  Text.after_eq_some.mpr rfl

theorem Distinct.cons {allowed : List String} {flags more : List (String × String)}
    {flag : String × String} (h : Distinct allowed (flags ++ flag :: more)) :
    Distinct allowed (flags ++ [flag]) where
  nodup := by
    refine h.nodup.sublist (List.Sublist.map _ (List.Sublist.append_left ?_ flags))
    simp
  allowed f hf := h.allowed f (by simp at hf ⊢; tauto)
  value f hf := h.value f (by simp at hf ⊢; tauto)

/-- **The flags of an argument list** are its pairs, as they stand. -/
theorem parseFlags_eq_ok {allowed args : List String} {flags all : List (String × String)}
    (hflags : Distinct allowed flags) :
    parseFlags allowed args flags = .ok all ↔
      ∃ more, all = flags ++ more ∧ args = spelled more ∧ Distinct allowed (flags ++ more) := by
  -- A refused argument list starts with no flag that would still be distinct.
  have hrefused {args : List String} {flags all : List (String × String)} (hne : args ≠ [])
      (h : ∀ name value more, args = ("--" ++ name) :: value :: more →
        ¬ Distinct allowed (flags ++ [(name, value)])) :
      ¬ ∃ more, all = flags ++ more ∧ args = spelled more ∧ Distinct allowed (flags ++ more) := by
    rintro ⟨more, -, hargs, hd⟩
    cases more with
    | nil => exact hne hargs
    | cons flag more => exact h flag.1 flag.2 (spelled more) hargs hd.cons
  fun_induction parseFlags allowed args flags with
  | case1 flags =>
    constructor
    · intro h
      obtain rfl := Except.ok.inj h
      exact ⟨[], by simp, rfl, by simpa using hflags⟩
    · rintro ⟨more, rfl, hargs, -⟩
      cases more with
      | nil => simp
      | cons flag more => cases hargs
  | case2 arg args flags hafter =>
    refine iff_of_false (by simp) (hrefused (by simp) fun name value more he _ => ?_)
    rw [(List.cons.inj he).1, after_flag] at hafter
    cases hafter
  | case3 arg flags name hafter hname =>
    refine iff_of_false (by simp) (hrefused (by simp) fun name value more he _ => ?_)
    cases (List.cons.inj he).2
  | case4 arg flags name hafter hname value args hvalue =>
    refine iff_of_false (by simp) (hrefused (by simp) fun name' value' more he hd => ?_)
    obtain ⟨rfl, rfl, rfl⟩ : arg = _ ∧ value = _ ∧ args = _ := by simpa using he
    have hno := hd.value (name', value) (by simp)
    rw [hvalue] at hno
    cases hno
  | case5 arg flags name hafter hname value args hvalue hseen =>
    refine iff_of_false (by simp) (hrefused (by simp) fun name' value' more he hd => ?_)
    obtain ⟨rfl, rfl, rfl⟩ : arg = _ ∧ value = _ ∧ args = _ := by simpa using he
    rw [after_flag] at hafter
    obtain rfl := Option.some.inj hafter
    have hnodup := hd.nodup
    rw [List.map_append, List.nodup_append] at hnodup
    exact hnodup.2.2 _ hseen _ (by simp) rfl
  | case6 arg flags name hafter hname value args hvalue hseen ih =>
    obtain rfl := Text.after_eq_some.mp hafter
    have hd : Distinct allowed (flags ++ [(name, value)]) := by
      refine ⟨?_, fun f hf => ?_, fun f hf => ?_⟩
      · rw [List.map_append, List.nodup_append]
        refine ⟨hflags.nodup, by simp, fun a ha b hb => ?_⟩
        obtain rfl := List.mem_singleton.mp hb
        exact fun he => hseen (he ▸ ha)
      · rcases List.mem_append.mp hf with hf | hf
        · exact hflags.allowed f hf
        · rw [List.mem_singleton.mp hf]
          exact hname
      · rcases List.mem_append.mp hf with hf | hf
        · exact hflags.value f hf
        · rw [List.mem_singleton.mp hf]
          simpa using hvalue
    refine (ih hd).trans ?_
    constructor
    · rintro ⟨more, rfl, rfl, hmore⟩
      rw [List.append_assoc] at hmore
      exact ⟨(name, value) :: more, by simp, rfl, hmore⟩
    · rintro ⟨more, rfl, hargs, hmore⟩
      cases more with
      | nil => cases hargs
      | cons flag more =>
        obtain ⟨hname', rfl, rfl⟩ : "--" ++ name = "--" ++ flag.1 ∧ value = flag.2 ∧
          args = spelled more := by simpa [spelled] using hargs
        have heq : name = flag.1 := by
          have hsome := after_flag name
          rw [hname', after_flag] at hsome
          exact (Option.some.inj hsome).symm
        subst heq
        exact ⟨more, by simp, rfl, by simpa using hmore⟩
  | case7 arg args flags name hafter hname =>
    refine iff_of_false (by simp) (hrefused (by simp) fun name' value' more he hd => ?_)
    rw [(List.cons.inj he).1, after_flag] at hafter
    obtain rfl := Option.some.inj hafter
    exact hname (hd.allowed (name', value') (by simp))

/-! ## Which lists start an update -/

theorem lookup_eq_some {flags : List (String × String)} (h : (flags.map Prod.fst).Nodup)
    {name value : String} : flags.lookup name = some value ↔ (name, value) ∈ flags := by
  induction flags with
  | nil => simp
  | cons flag flags ih =>
    obtain ⟨n, v⟩ := flag
    rw [List.map_cons, List.nodup_cons] at h
    rw [List.lookup_cons, List.mem_cons, Prod.mk.injEq]
    by_cases hname : name = n
    · subst hname
      have hnot : (name, value) ∉ flags := fun hm => h.1 (List.mem_map.mpr ⟨_, hm, rfl⟩)
      simp [hnot, eq_comm]
    · have hbeq : (name == n) = false := by simpa using hname
      rw [hbeq]
      simp only [hname, false_and, false_or]
      exact ih h.2

theorem requireFlag_eq_ok {flags : List (String × String)} (h : (flags.map Prod.fst).Nodup)
    {name value : String} : requireFlag flags name = .ok value ↔ (name, value) ∈ flags := by
  rw [← lookup_eq_some h, requireFlag]
  cases flags.lookup name <;> simp

/-- The flags say this request. -/
structure Says (flags : List (String × String)) (r : Request) : Prop where
  pid : ∃ text pid, ("pid", text) ∈ flags ∧
    Settings.parseUnsigned (2 ^ 32) text = some pid ∧ r.pid = pid.val
  staged : ("staged", r.staged) ∈ flags
  target : ("target", r.target) ∈ flags
  relaunch : ("relaunch", r.relaunch) ∈ flags
  relaunchAumid : ∀ aumid, ("relaunch-aumid", aumid) ∈ flags ↔ r.relaunchAumid = some aumid

theorem elim_error_ok {ε α : Type} {o : Option α} {e : ε} {a : α} :
    o.elim (.error e) Except.ok = .ok a ↔ o = some a := by
  cases o <;> simp

theorem updateOf_eq_ok {args : List String} {r : Request} :
    updateOf args = .ok (.update r) ↔
      ∃ flags, args = spelled flags ∧ Distinct updateFlags flags ∧ Says flags r := by
  have hempty : Distinct updateFlags [] := ⟨by simp, by simp, by simp⟩
  simp only [updateOf, bind_eq_ok, parseFlags_eq_ok hempty, elim_error_ok, List.nil_append]
  constructor
  · rintro ⟨flags, ⟨_, rfl, hargs, hd⟩, text, htext, staged, hstaged, target, htarget, relaunch,
      hrelaunch, pid, hpid, hr⟩
    obtain rfl := Action.update.inj (Except.ok.inj hr)
    refine ⟨flags, hargs, hd, ⟨text, pid, (requireFlag_eq_ok hd.nodup).mp htext, hpid, rfl⟩,
      (requireFlag_eq_ok hd.nodup).mp hstaged, (requireFlag_eq_ok hd.nodup).mp htarget,
      (requireFlag_eq_ok hd.nodup).mp hrelaunch, fun aumid => ?_⟩
    rw [← lookup_eq_some hd.nodup]
  · rintro ⟨flags, hargs, hd, ⟨text, pid, htext, hpid, hrpid⟩, hstaged, htarget, hrelaunch, haumid⟩
    refine ⟨flags, ⟨flags, rfl, hargs, hd⟩, text, (requireFlag_eq_ok hd.nodup).mpr htext, _,
      (requireFlag_eq_ok hd.nodup).mpr hstaged, _, (requireFlag_eq_ok hd.nodup).mpr htarget, _,
      (requireFlag_eq_ok hd.nodup).mpr hrelaunch, pid, hpid, ?_⟩
    have hlookup : flags.lookup "relaunch-aumid" = r.relaunchAumid := by
      refine Option.ext fun aumid => ?_
      rw [lookup_eq_some hd.nodup, haumid]
    rw [hlookup, ← hrpid]
    rfl

theorem firewallOf_ne_update {check : Bool} {args : List String} {r : Request} :
    firewallOf check args ≠ .ok (.update r) := by
  intro h
  simp only [firewallOf, bind_eq_ok, elim_error_ok] at h
  obtain ⟨flags, -, text, -, port, -, hport⟩ := h
  split at hport <;> cases hport

/-- **The helper starts an update** for exactly the lists of distinct known flags with a value
each, and it starts the one they say. -/
theorem actionOf_update_iff {args : List String} {r : Request} :
    actionOf args = .ok (.update r) ↔
      ∃ flags, args = "update" :: spelled flags ∧ Distinct updateFlags flags ∧ Says flags r := by
  constructor
  · intro h
    cases args with
    | nil => cases h
    | cons command args =>
      rw [actionOf] at h
      split at h
      · cases h
      split at h
      · cases h
      split at h
      · split at h
        · exact absurd h firewallOf_ne_update
        · exact absurd h firewallOf_ne_update
      split at h
      · rename_i hcommand
        obtain ⟨flags, rfl, hd, hsays⟩ := updateOf_eq_ok.mp h
        exact ⟨flags, by rw [hcommand], hd, hsays⟩
      · cases h
  · rintro ⟨flags, rfl, hd, hsays⟩
    have hupdate := updateOf_eq_ok.mpr ⟨flags, rfl, hd, hsays⟩
    rw [actionOf, if_neg (by decide), if_neg (by decide), if_neg (by decide), if_pos rfl, hupdate]

/-! ## What is handed over -/

/-- A text that arrives as one value. -/
structure Passable (text : String) : Prop where
  plain : CommandLine.Plain text.toList
  value : isFlag text = false

/-- A process id of this system, and paths that arrive as values. -/
structure Handover.Passes (h : Handover) : Prop where
  pid : h.pid < 2 ^ 32
  staged : Passable h.staged
  target : Passable h.target
  relaunch : Passable h.relaunch
  aumid : ∀ aumid, h.aumid = some aumid → Passable aumid
  /-- The last argument is not empty. -/
  last : h.relaunch ≠ "" ∧ h.aumid ≠ some ""

namespace Handover

variable (h : Handover)

def request : Request where
  pid := h.pid
  staged := h.staged
  target := h.target
  relaunch := h.relaunch
  relaunchAumid := h.aumid

def flags : List (String × String) :=
  [("pid", h.pidText), ("staged", h.staged), ("target", h.target), ("relaunch", h.relaunch)] ++
    h.aumid.toList.map fun aumid => ("relaunch-aumid", aumid)

theorem arguments_eq : h.arguments = "update" :: spelled h.flags := by
  unfold arguments flags
  cases h.aumid <;> rfl

end Handover

/-- The digits of a number, read as they are written. -/
theorem foldl_digits (ds : List Nat) (h : ∀ d ∈ ds, d < 10) :
    ((ds.map Nat.digitChar).reverse).foldl (fun n c => 10 * n + (c.toNat - '0'.toNat)) 0 =
      Nat.ofDigits 10 ds := by
  induction ds with
  | nil => rfl
  | cons d ds ih =>
    have hdigit : ∀ m ∈ List.range 10, (Nat.digitChar m).toNat - '0'.toNat = m := by decide
    rw [List.map_cons, List.reverse_cons, List.foldl_append,
      ih fun e he => h e (List.mem_cons_of_mem _ he), List.foldl_cons, List.foldl_nil,
      hdigit d (List.mem_range.mpr (h d List.mem_cons_self)), Nat.ofDigits_cons]
    simp [Nat.add_comm]

theorem isDigit_showNumber (n : Nat) : ∀ c ∈ Net.showNumber 10 n, c.isDigit = true := by
  have hdigit : ∀ m ∈ List.range 10, (Nat.digitChar m).isDigit = true := by decide
  intro c hc
  unfold Net.showNumber at hc
  split at hc
  · rw [List.mem_singleton.mp hc]
    decide
  · obtain ⟨d, hd, rfl⟩ := List.mem_map.mp (List.mem_reverse.mp hc)
    exact hdigit d (List.mem_range.mpr (Nat.digits_lt_base (by omega) hd))

theorem not_mem_showNumber (n : Nat) {c : Char} (hc : c.isDigit = false) :
    c ∉ Net.showNumber 10 n := by
  intro h
  rw [isDigit_showNumber n c h] at hc
  cases hc

theorem parseDigits_showNumber (n : Nat) : parseDigits (Net.showNumber 10 n) = some n := by
  rw [parseDigits, if_pos ⟨Net.showNumber_ne_nil 10 n, List.all_eq_true.mpr (isDigit_showNumber n)⟩]
  unfold Net.showNumber
  split
  · rename_i hn
    rw [hn]
    decide
  · rw [foldl_digits _ fun d hd => Nat.digits_lt_base (by omega) hd, Nat.ofDigits_digits]

theorem parseUnsigned_showNumber {bound n : Nat} (h : n < bound) :
    Settings.parseUnsigned bound (String.ofList (Net.showNumber 10 n)) = some ⟨n, h⟩ := by
  rw [Settings.parseUnsigned, String.toList_ofList]
  refine Net.bounded_eq_some.mpr ?_
  split
  · rename_i digits hplus
    exact absurd (by rw [hplus]; exact List.mem_cons_self)
      (not_mem_showNumber n (c := '+') (by decide))
  · exact parseDigits_showNumber n

/-- What starts with no dash is no flag. -/
theorem isFlag_eq_false {text : String} (h : '-' ∉ text.toList) : isFlag text = false := by
  rw [isFlag, Option.isSome_eq_false_iff, Option.isNone_iff_eq_none]
  cases hafter : Text.after "--" text with
  | none => rfl
  | some rest =>
    rw [Text.after_eq_some.mp hafter, String.toList_append] at h
    exact absurd (List.mem_append_left _ (by decide)) h

namespace Handover

variable {h : Handover}

theorem passable_pidText : Passable h.pidText := by
  refine ⟨CommandLine.plain_of_not_mem ?_, isFlag_eq_false ?_⟩ <;>
    rw [pidText, String.toList_ofList] <;> exact not_mem_showNumber _ (by decide)

theorem passable_flags (hp : h.Passes) : ∀ flag ∈ h.flags, Passable flag.2 := by
  intro flag hflag
  unfold flags at hflag
  simp only [List.mem_append, List.mem_cons, List.not_mem_nil, or_false, List.mem_map,
    Option.mem_toList] at hflag
  rcases hflag with (rfl | rfl | rfl | rfl) | ⟨aumid, haumid, rfl⟩
  · exact passable_pidText
  · exact hp.staged
  · exact hp.target
  · exact hp.relaunch
  · exact hp.aumid aumid haumid

theorem distinct_flags (hp : h.Passes) : Distinct updateFlags h.flags where
  nodup := by
    unfold flags
    cases h.aumid <;> simp
  allowed := by
    intro flag hflag
    unfold flags at hflag
    simp only [List.mem_append, List.mem_cons, List.not_mem_nil, or_false, List.mem_map,
      Option.mem_toList] at hflag
    rcases hflag with (rfl | rfl | rfl | rfl) | ⟨aumid, -, rfl⟩ <;> simp [updateFlags]
  value flag hflag := (passable_flags hp flag hflag).value

theorem says_request (hp : h.Passes) : Says h.flags h.request where
  pid := ⟨h.pidText, ⟨h.pid, hp.pid⟩, by simp [flags], parseUnsigned_showNumber hp.pid, rfl⟩
  staged := by simp [flags, request]
  target := by simp [flags, request]
  relaunch := by simp [flags, request]
  relaunchAumid aumid := by simp [flags, request]

theorem plain_arguments (hp : h.Passes) : ∀ a ∈ h.arguments.map String.toList,
    CommandLine.Plain a := by
  intro a ha
  obtain ⟨text, htext, rfl⟩ := List.mem_map.mp ha
  rw [arguments_eq, List.mem_cons, spelled, List.mem_flatMap] at htext
  rcases htext with rfl | ⟨flag, hflag, hmem⟩
  · exact CommandLine.plain_of_not_mem (by decide)
  rcases List.mem_cons.mp hmem with rfl | hmem
  · have hname := (distinct_flags hp).allowed flag hflag
    revert hname
    generalize flag.1 = name
    intro hname
    refine CommandLine.plain_of_not_mem ?_
    have hall : ∀ n ∈ updateFlags, '\\' ∉ ("--" ++ n).toList := by decide
    exact hall name hname
  · rw [List.mem_singleton.mp hmem]
    exact (passable_flags hp flag hflag).plain

theorem getLast_arguments (hp : h.Passes) :
    (h.arguments.map String.toList).getLast? ≠ some [] := by
  obtain ⟨hrelaunch, haumid⟩ := hp.last
  have hne {s : String} (hs : s ≠ "") : s.toList ≠ [] := fun he =>
    hs (String.toList_inj.mp (he.trans rfl))
  unfold arguments
  cases h' : h.aumid with
  | none => simpa using hne hrelaunch
  | some aumid =>
    have := hne (s := aumid) fun he => haumid (by rw [h', he])
    simpa using this

end Handover

/-- An update of an installed MusicBee, from a directory whose name holds a space. -/
def secondHandover : Handover where
  pid := 42
  staged := "C:\\Users\\me\\AppData\\Roaming\\MusicBee\\mb_remote\\updates\\2.0.0"
  target := "C:\\Program Files\\MusicBee\\Plugins"
  relaunch := "C:\\Program Files\\MusicBee\\MusicBee.exe"
  aumid := none

end Mbrc.Helper
