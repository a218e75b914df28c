import MbrcPlugin.Protocol.Json
import Mathlib.Logic.Function.Basic
import Mathlib.Data.List.Infix

/-!
# Pseudonyms

What `mbrc-capture trim` puts in the place of library strings.  A string stands for the same
pseudonym in a whole fixture: the first title is `Track 1`, the second one `Track 2`.  A path is
built again from what stands beside it, or is numbered as well.
-/

namespace Mbrc.Capture

/-! ## The scrubber -/

/-- What is numbered on its own. -/
inductive Category where
  | artist | album | title | genre | name | path
  deriving DecidableEq

def Category.display : Category → String
  | .artist => "Artist"
  | .album => "Album"
  | .title => "Track"
  | .genre => "Genre"
  | .name => "Name"
  | .path => "item"

structure Scrubber where
  counters : Category → Nat := fun _ => 0
  seen : List ((Category × String) × String) := []
  /-- The paths that were rewritten and what they became, which the code does not keep. -/
  rebuilt : List (String × String) := []

/-- The text of a string that was seen, or the text of the next number. -/
def numbered (category : Category) (original : String) (text : Nat → String) :
    StateM Scrubber String := fun scrub =>
  match scrub.seen.lookup (category, original) with
  | some val => (val, scrub)
  | none =>
    let n := scrub.counters category + 1
    (text n, { scrub with
      counters := Function.update scrub.counters category n
      seen := scrub.seen ++ [((category, original), text n)] })

def labelText (category : Category) (n : Nat) : String := category.display ++ " " ++ toString n

/-- `Scrubber::label`. -/
def label (category : Category) (original : String) : StateM Scrubber String :=
  if original = "" then pure ""
  else numbered category original (labelText category)

def tokenPath (ext : String) (n : Nat) : String :=
  "\\\\host\\media\\item-" ++ toString n ++ "." ++ ext

/-- `Scrubber::path_token`. -/
def pathToken (original ext : String) : StateM Scrubber String :=
  numbered .path original (tokenPath ext)

/-! ## Paths -/

/-- `looks_like_path`: a backslash, a scheme, or a drive. -/
def looksLikePath (s : String) : Bool :=
  decide ('\\' ∈ s.toList) || decide ("://".toList <:+: s.toList) ||
    match s.toList with
    | drive :: ':' :: c :: _ => drive.isAlpha && (c = '/' || c = '\\')
    | _ => false

/-- `extension_of`: what follows the last point. -/
def extensionOf (p : String) : String :=
  let ext := (p.toList.reverse.takeWhile (· ≠ '.')).reverse
  if ext ≠ [] ∧ (String.ofList ext).utf8ByteSize ≤ 4 ∧ '\\' ∉ ext ∧ '/' ∉ ext then
    String.ofList ext
  else "dat"

/-- The fields a path is built from. -/
structure Siblings where
  artist : Option String
  album : Option String
  title : Option String
  name : Option String
  trackno : Int

def siblings (fields : List (String × Value)) : Siblings :=
  let text (key : String) : Option String := (fields.lookup key).bind Value.asStr
  { artist := (text "album_artist").or (text "artist"), album := text "album",
    title := text "title", name := text "name",
    trackno := ((fields.lookup "trackno").bind Value.asI64).getD 0 }

/-- What a path is built from. -/
inductive Origin where
  | track (artist album title : String) (trackno : Int) (ext : String)
  | media (name ext : String)
  | token (path ext : String)
  deriving DecidableEq

def Siblings.media (siblings : Siblings) (p : String) : Origin :=
  match siblings.name with
  | some name => if name ≠ "" then .media name (extensionOf p) else .token p (extensionOf p)
  | none => .token p (extensionOf p)

def Siblings.origin (siblings : Siblings) (p : String) : Origin :=
  match siblings.artist, siblings.album, siblings.title with
  | some artist, some album, some title =>
    if artist ≠ "" ∧ title ≠ "" then .track artist album title siblings.trackno (extensionOf p)
    else siblings.media p
  | _, _, _ => siblings.media p

/-- A number of at least two characters. -/
def twoDigits (i : Int) : String := if 0 ≤ i ∧ i < 10 then "0" ++ toString i else toString i

def trackPath (artist album title : String) (trackno : Int) (ext : String) : String :=
  "\\\\host\\music\\" ++ artist ++ "\\" ++ album ++ "\\" ++ twoDigits trackno ++ " - " ++ title ++
    "." ++ ext

def mediaPath (name ext : String) : String := "\\\\host\\media\\" ++ name ++ "." ++ ext

/-- The synthetic path. -/
def Origin.path : Origin → StateM Scrubber String
  | .track artist album title trackno ext => pure (trackPath artist album title trackno ext)
  | .media name ext => pure (mediaPath name ext)
  | .token p ext => pathToken p ext

/-- The path in the place of another one. -/
def rebuild (siblings : Siblings) (p : String) : StateM Scrubber String := do
  let synth ← (siblings.origin p).path
  modify fun scrub => { scrub with rebuilt := scrub.rebuilt ++ [(p, synth)] }
  return synth

def noSiblings : Siblings :=
  { artist := none, album := none, title := none, name := none, trackno := 0 }

/-! ## Values -/

/-- The keys of paths, in the order in which they are rebuilt. -/
def pathKeys : List String := ["src", "path", "url"]

def categoryOf (key : String) : Option Category :=
  match key with
  | "artist" | "album_artist" | "albumartist" | "albumArtist" => some .artist
  | "album" => some .album
  | "title" => some .title
  | "genre" => some .genre
  | "name" => some .name
  | _ => none

/-- What happens to a field before the paths are rebuilt. -/
inductive Treatment where
  | pseudonym (category : Category) (original : String)
  | left
  | scrubbed

def treatment (key : String) (val : Value) : Treatment :=
  match categoryOf key, val with
  | some category, .string original => .pseudonym category original
  | _, _ => if key ∈ pathKeys then .left else .scrubbed

/-- Under a key of a path no pseudonym stands. -/
theorem not_pathKey {key : String} {val : Value} {c : Category} {x : String}
    (h : treatment key val = .pseudonym c x) : key ∉ pathKeys := by
  intro hkey
  simp only [pathKeys, List.mem_cons, List.not_mem_nil, or_false] at hkey
  obtain rfl | rfl | rfl := hkey <;> cases val <;> simp [treatment, categoryOf, pathKeys] at h

theorem mem_pathKeys {key : String} {val : Value} (h : treatment key val = .left) :
    key ∈ pathKeys := by
  unfold treatment at h
  split at h
  · cases h
  · by_contra hkey
    rw [if_neg hkey] at h
    cases h

theorem not_mem_pathKeys {key : String} {val : Value} (h : treatment key val = .scrubbed) :
    key ∉ pathKeys := by
  unfold treatment at h
  split at h
  · cases h
  · intro hkey
    rw [if_pos hkey] at h
    cases h

theorem category_ne_path {key : String} {val : Value} {c : Category} {x : String}
    (h : treatment key val = .pseudonym c x) : c ≠ .path := by
  have hcategory : categoryOf key = some c := by
    unfold treatment at h
    split at h
    · rename_i hkey
      rw [hkey, (Treatment.pseudonym.inj h).1]
    · split at h <;> cases h
  rintro rfl
  unfold categoryOf at hcategory
  split at hcategory <;> cases hcategory

def Treatment.run (val : Value) (scrubbed : StateM Scrubber Value) :
    Treatment → StateM Scrubber Value
  | pseudonym category original => Value.string <$> label category original
  | left => pure val
  | .scrubbed => scrubbed

/-- `rebuild_paths`, at one field: a path under the key is rebuilt. -/
def rebuildField (siblings : Siblings) (key : String) (field : String × Value) :
    StateM Scrubber (String × Value) :=
  match field with
  | (k, .string p) =>
    if k = key ∧ p ≠ "" then (fun synth => (k, Value.string synth)) <$> rebuild siblings p
    else pure field
  | _ => pure field

def rebuildKey (siblings : Siblings) (key : String) :
    List (String × Value) → StateM Scrubber (List (String × Value))
  | [] => return []
  | field :: rest => do
    return (← rebuildField siblings key field) :: (← rebuildKey siblings key rest)

/-- `rebuild_paths`. -/
def rebuildPaths (fields : List (String × Value)) : StateM Scrubber (List (String × Value)) :=
  pathKeys.foldlM (fun rebuilt key => rebuildKey (siblings fields) key rebuilt) fields

mutual

/-- `scrub_value`. -/
def scrubValue : Value → StateM Scrubber Value
  | .array items => do return .array (← scrubItems items)
  | .object fields => do return .object (← rebuildPaths (← scrubFields fields))
  | .string s =>
    if looksLikePath s then do return .string (← rebuild noSiblings s) else return .string s
  | val => return val

def scrubItems : List Value → StateM Scrubber (List Value)
  | [] => return []
  | val :: rest => do return (← scrubValue val) :: (← scrubItems rest)

def scrubFields : List (String × Value) → StateM Scrubber (List (String × Value))
  | [] => return []
  | (key, val) :: rest => do
    let val ← (treatment key val).run val (scrubValue val)
    return (key, val) :: (← scrubFields rest)

end

/-- The most items of an array that are kept. -/
def maxArrayLen : Nat := 3

mutual

/-- `truncate_arrays`. -/
def truncateArrays : Value → Value
  | .array items => .array ((truncateItems items).take maxArrayLen)
  | .object fields => .object (truncateFields fields)
  | val => val

def truncateItems : List Value → List Value
  | [] => []
  | val :: rest => truncateArrays val :: truncateItems rest

def truncateFields : List (String × Value) → List (String × Value)
  | [] => []
  | (key, val) :: rest => (key, truncateArrays val) :: truncateFields rest

end

end Mbrc.Capture
