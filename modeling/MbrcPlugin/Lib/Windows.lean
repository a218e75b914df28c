import Mathlib.Data.List.Basic
import Mathlib.Data.List.Infix
import Mathlib.Data.String.Basic

/-!
# Windows paths

An absolute path is a root and the names below it.  A text is read into what stands before the
names, and `join` follows the text it is given: a drive or a share replaces the path, a separator in
front leads back to its root, `..` leads up and `.` nowhere.  A text that is one plain name only
appends it (`join_plain`).
-/

namespace Windows

def isSep (c : Char) : Bool := c = '\\' || c = '/'

/-- The names between the separators. -/
def splitNames (cs : List Char) : List String :=
  ((cs.splitOnP isSep).filter (· ≠ [])).map String.ofList

/-- A text as a path: the drive, share or device it names, whether a root follows, the names. -/
structure Parsed where
  drive : Option String
  rooted : Bool
  names : List String

def parse (s : String) : Parsed :=
  match s.toList with
  | a :: b :: cs =>
    if isSep a && isSep b then
      match splitNames cs with
      | host :: share :: names =>
        { drive := some ("\\\\" ++ host ++ "\\" ++ share), rooted := true, names }
      | names => { drive := none, rooted := true, names }
    else if a.isAlpha && b = ':' then
      { drive := some (String.ofList [a, b]), rooted := cs.head?.any isSep, names := splitNames cs }
    else { drive := none, rooted := isSep a, names := splitNames (a :: b :: cs) }
  | cs => { drive := none, rooted := cs.any isSep, names := splitNames cs }

structure AbsPath where
  root : String
  names : List String
  deriving DecidableEq

namespace AbsPath

/-- One name further, as the system reads it. -/
def push (names : List String) (name : String) : List String :=
  if name = "." then names else if name = ".." then names.dropLast else names ++ [name]

/-- The root of a drive, or where its current directory is. -/
def driveRoot (drive : String) (rooted : Bool) : String := if rooted then drive ++ "\\" else drive

/-- The path an absolute text is. -/
def absolute (s : String) : Option AbsPath :=
  let q := parse s
  match q.drive with
  | some drive =>
    if q.rooted then some { root := driveRoot drive true, names := q.names.foldl push [] } else none
  | none => none

def join (p : AbsPath) (s : String) : AbsPath :=
  let q := parse s
  match q.drive with
  | some drive => { root := driveRoot drive q.rooted, names := q.names.foldl push [] }
  | none => { p with names := q.names.foldl push (if q.rooted then [] else p.names) }

def parent (p : AbsPath) : Option AbsPath :=
  if p.names = [] then none else some { p with names := p.names.dropLast }

def startsWith (p q : AbsPath) : Bool := p.root = q.root && q.names.isPrefixOf p.names

def display (p : AbsPath) : String := p.root ++ "\\".intercalate p.names

/-- The path of an entry of a directory. -/
def child (p : AbsPath) (name : String) : AbsPath := { p with names := p.names ++ [name] }

end AbsPath

/-! ## Plain names -/

/-- A name that means an entry of the directory it is joined to. -/
structure Plain (name : String) : Prop where
  nonempty : name ≠ ""
  here : name ≠ "."
  up : name ≠ ".."
  chars : ∀ c ∈ name.toList, isSep c = false ∧ c ≠ ':'

theorem splitNames_plain {cs : List Char} (hcs : cs ≠ []) (h : ∀ c ∈ cs, isSep c = false) :
    splitNames cs = [String.ofList cs] := by
  unfold splitNames
  rw [List.splitOnP_eq_singleton h]
  simp [hcs]

theorem parse_plain {name : String} (h : Plain name) :
    parse name = { drive := none, rooted := false, names := [name] } := by
  have hcs : name.toList ≠ [] := by
    intro he
    exact h.nonempty (String.toList_inj.mp (by rw [he]; rfl))
  have hnames : splitNames name.toList = [name] := by
    rw [splitNames_plain hcs fun c hc => (h.chars c hc).1, String.ofList_toList]
  unfold parse
  rcases he : name.toList with - | ⟨a, - | ⟨b, cs⟩⟩
  · exact absurd he hcs
  · have ha := (h.chars a (by rw [he]; exact List.mem_cons_self)).1
    rw [he] at hnames
    simp [ha, hnames]
  · have ha := (h.chars a (by rw [he]; exact List.mem_cons_self)).1
    have hb := (h.chars b (by rw [he]; simp)).2
    rw [he] at hnames
    simp [ha, hb, hnames]

/-- **A plain name is appended.** -/
theorem AbsPath.join_plain (p : AbsPath) {name : String} (h : Plain name) :
    p.join name = p.child name := by
  unfold AbsPath.join AbsPath.child
  rw [parse_plain h]
  simp [AbsPath.push, h.here, h.up]

/-- A step up leads out of the directory. -/
example : (AbsPath.mk "\\\\?\\C:\\" ["storage", "backup"]).join "..\\..\\Windows" =
    AbsPath.mk "\\\\?\\C:\\" ["Windows"] := by decide +kernel

end Windows

/-!
# Windows command lines

A process is started with one text, which it splits into its arguments itself: spaces and tabs
stand between arguments, quotes keep them together, and backslashes escape a quote that follows
them.  A quoted argument comes back where no quote in it follows a backslash and it does not end
in one (`split_quoted`); an empty argument at the end is lost.
-/

namespace CommandLine

def isBlank (c : Char) : Bool := c = ' ' || c = '\t'

/-- Between two arguments, in one, or in quotes. -/
inductive Mode where
  | gap
  | bare
  | quoted
  deriving DecidableEq

/-- The arguments of a text: `cur` is what is read of the current one, without the last
backslashes, of which there are `n`. -/
def split : List Char → List Char → Mode → Nat → List (List Char)
  | [], cur, mode, n =>
    let cur := cur ++ List.replicate n '\\'
    if cur ≠ [] ∨ mode = .quoted then [cur] else []
  | '\\' :: cs, cur, mode, n => split cs cur (if mode = .gap then .bare else mode) (n + 1)
  | '"' :: cs, cur, mode, n =>
    let cur := cur ++ List.replicate (n / 2) '\\'
    if n % 2 = 1 then split cs (cur ++ ['"']) mode 0
    else if mode = .quoted then
      match cs with
      | '"' :: cs => split cs (cur ++ ['"']) .quoted 0
      | cs => split cs cur .bare 0
    else split cs cur .quoted 0
  | c :: cs, cur, mode, n =>
    let cur := cur ++ List.replicate n '\\'
    if mode = .quoted then split cs (cur ++ [c]) .quoted 0
    else if isBlank c then
      if mode = .gap then split cs [] .gap 0 else cur :: split cs [] .gap 0
    else split cs (cur ++ [c]) .bare 0
termination_by structural cs => cs

/-- The first argument is the program: quotes only toggle. -/
def splitProgram : List Char → List Char → Bool → List Char × List Char
  | [], cur, _ => (cur, [])
  | '"' :: cs, cur, quoted => splitProgram cs cur (!quoted)
  | c :: cs, cur, quoted =>
    if isBlank c && !quoted then (cur, cs) else splitProgram cs (cur ++ [c]) quoted

/-- The program and its arguments. -/
def arguments (line : List Char) : List (List Char) :=
  let (program, rest) := splitProgram line [] false
  program :: split rest [] .gap 0

variable {cur cs rest : List Char}

theorem split_open : split ('"' :: cs) cur .gap 0 = split cs cur .quoted 0 := by
  rw [split.eq_def]
  simp

theorem split_close (h : rest.head? ≠ some '"') :
    split ('"' :: rest) cur .quoted 0 = split rest cur .bare 0 := by
  rw [split.eq_def]
  cases rest with
  | nil => simp
  | cons c rest =>
    have hc : c ≠ '"' := fun he => h (by rw [he]; rfl)
    simp [hc]

theorem split_escaped :
    split ('\\' :: '"' :: cs) cur .quoted 0 = split cs (cur ++ ['"']) .quoted 0 := by
  rw [split, split.eq_def]
  simp

/-! ## Quoted arguments -/

/-- An escaped quote for each quote. -/
def escape (a : List Char) : List Char := a.flatMap fun c => if c = '"' then ['\\', '"'] else [c]

def quoted (a : List Char) : List Char := '"' :: escape a ++ ['"']

/-- The arguments as one text, each in quotes. -/
def quote : List (List Char) → List Char
  | [] => []
  | [a] => quoted a
  | a :: b :: args => quoted a ++ ' ' :: quote (b :: args)

/-- No quote follows a backslash, also not the one that ends the argument. -/
def Plain (a : List Char) : Prop := ¬ ['\\', '"'] <:+: a ++ ['"']

theorem plain_of_not_mem {a : List Char} (h : '\\' ∉ a) : Plain a := by
  intro hinfix
  have hmem := hinfix.subset (a := '\\') List.mem_cons_self
  rw [List.mem_append, List.mem_singleton] at hmem
  exact hmem.elim h (by decide)

theorem escape_cons (c : Char) (a : List Char) :
    escape (c :: a) = (if c = '"' then ['\\', '"'] else [c]) ++ escape a := rfl

theorem quote_after_backslash {n : Nat} {a : List Char} (h : a.head? = some '"') :
    ['\\', '"'] <:+: List.replicate (n + 1) '\\' ++ a := by
  obtain ⟨rest, rfl⟩ : ∃ rest, a = '"' :: rest := by
    cases a with
    | nil => cases h
    | cons c rest => exact ⟨rest, by rw [Option.some.inj h]⟩
  exact ⟨List.replicate n '\\', rest, by simp [List.replicate_succ']⟩

/-- The rest of a quoted argument, with `n` backslashes before it. -/
theorem split_escape {a : List Char} {n : Nat} (cur : List Char)
    (h : ¬ ['\\', '"'] <:+: List.replicate n '\\' ++ (a ++ ['"'])) (hrest : rest.head? ≠ some '"') :
    split (escape a ++ '"' :: rest) cur .quoted n =
      split rest (cur ++ List.replicate n '\\' ++ a) .bare 0 := by
  induction a generalizing cur n with
  | nil =>
    obtain rfl : n = 0 := by
      cases n with
      | zero => rfl
      | succ n => exact absurd (quote_after_backslash rfl) h
    show split ('"' :: rest) cur .quoted 0 = _
    rw [split_close hrest]
    simp
  | cons c a ih =>
    rw [escape_cons]
    by_cases hquote : c = '"'
    · subst hquote
      obtain rfl : n = 0 := by
        cases n with
        | zero => rfl
        | succ n => exact absurd (quote_after_backslash rfl) h
      rw [if_pos rfl]
      show split ('\\' :: '"' :: (escape a ++ '"' :: rest)) cur .quoted 0 = _
      rw [split_escaped, ih (n := 0) _ fun hi => h (hi.trans ⟨['"'], [], by simp⟩)]
      simp
    · rw [if_neg hquote]
      by_cases hslash : c = '\\'
      · subst hslash
        show split (escape a ++ '"' :: rest) cur .quoted (n + 1) = _
        have hreplicate : List.replicate (n + 1) '\\' ++ (a ++ ['"']) =
            List.replicate n '\\' ++ ('\\' :: a ++ ['"']) := by
          simp [List.replicate_succ']
        rw [ih cur (hreplicate ▸ h), List.replicate_succ']
        simp
      · show split (c :: (escape a ++ '"' :: rest)) cur .quoted n = _
        rw [split]
        rw [ih (n := 0) _ fun hi => h (hi.trans ⟨List.replicate n '\\' ++ [c], [], by simp⟩)]
        simp
        all_goals assumption

theorem split_quoted_append {a : List Char} (h : Plain a) (hrest : rest.head? ≠ some '"') :
    split (quoted a ++ rest) [] .gap 0 = split rest a .bare 0 := by
  have hquoted : quoted a ++ rest = '"' :: (escape a ++ '"' :: rest) := by simp [quoted]
  rw [hquoted, split_open, split_escape (n := 0) [] h hrest]
  simp

/-- **Quoted arguments come back**, where the last one is not empty. -/
theorem split_quote {args : List (List Char)} (h : ∀ a ∈ args, Plain a)
    (hlast : args.getLast? ≠ some []) : split (quote args) [] .gap 0 = args := by
  induction args with
  | nil => rfl
  | cons a args ih =>
    have ha := h a List.mem_cons_self
    cases args with
    | nil =>
      have hne : a ≠ [] := fun he => hlast (by rw [he]; rfl)
      have hend : split (quoted a ++ []) [] .gap 0 = split [] a .bare 0 :=
        split_quoted_append ha (by simp)
      rw [List.append_nil] at hend
      rw [quote, hend, split]
      simp [hne]
    | cons b args =>
      rw [quote, split_quoted_append ha (by simp)]
      show (a ++ []) :: split (quote (b :: args)) [] .gap 0 = _
      rw [ih (fun c hc => h c (List.mem_cons_of_mem _ hc)) hlast, List.append_nil]

/-- The program in quotes. -/
theorem splitProgram_quoted {program : List Char} (h : '"' ∉ program) (cur rest : List Char) :
    splitProgram (program ++ '"' :: ' ' :: rest) cur true = (cur ++ program, rest) := by
  induction program generalizing cur with
  | nil => simp [splitProgram, isBlank]
  | cons c program ih =>
    rw [List.mem_cons, not_or] at h
    have hc : c ≠ '"' := Ne.symm h.1
    rw [List.cons_append, splitProgram]
    · simp only [Bool.not_true, Bool.and_false, Bool.false_eq_true, if_false]
      rw [ih h.2]
      simp
    · exact hc

/-- **A command line** of a program and quoted arguments. -/
theorem arguments_quote {program : List Char} (hprogram : '"' ∉ program) {args : List (List Char)}
    (h : ∀ a ∈ args, Plain a) (hlast : args.getLast? ≠ some []) :
    arguments ('"' :: program ++ '"' :: ' ' :: quote args) = program :: args := by
  have hsplit : splitProgram ('"' :: program ++ '"' :: ' ' :: quote args) [] false =
      (program, quote args) := splitProgram_quoted hprogram [] (quote args)
  rw [arguments, hsplit]
  exact congrArg (program :: ·) (split_quote h hlast)

end CommandLine
