import MbrcPlugin.Commands.LyricsV6
import MbrcPlugin.Lib.Rounding
import MbrcPlugin.Lib.TextLines
import MbrcPlugin.Library.TrackFilter

/-!
# The V6 track

`track_json` builds a track from the raw tags of the host and `cached_track_json` from a row of the
cache, which keeps the year, the rating and the duration parsed.  The two parse the year alike, but
not the duration, where the cache takes zero for none and reads negative parts, nor the rating,
which the cache keeps in single precision and does not clamp.  A conversion to a row that overflows
panics, and is nothing here.  The text of a float is a parameter.
-/

namespace Mbrc.TrackV6

open Text Cache LyricsV6

/-! ## Tags as text -/

/-- `TrackTags`. -/
structure TrackTags where
  src : String
  artist : String := ""
  title : String := ""
  album : String := ""
  albumArtist : String := ""
  trackNo : Int := 0
  discNo : Int := 0
  genre : String := ""
  multiArtist : String := ""
  multiComposer : String := ""
  year : String := ""
  originalYear : String := ""
  duration : String := ""
  rating : String := ""
  dateAdded : String := ""
  deriving DecidableEq

/-! ## Years -/

/-- `parse_year`: the first number of four digits that is no less than 1000. -/
def parseYear (raw : String) : Option Int :=
  (((raw.toList.splitOnP (!Char.isDigit ·)).filter (·.length = 4)).filterMap
    fun token => parseI64 (String.ofList token)).find? fun y => 1000 ≤ y ∧ y ≤ 9999

/-- `year_or_zero`. -/
def yearOrZero (raw : String) : Int := (parseYear raw).elim 0 toI32

theorem parseYear_range {raw : String} {y : Int} (h : parseYear raw = some y) :
    1000 ≤ y ∧ y ≤ 9999 := by
  unfold parseYear at h
  simpa using List.find?_some h

theorem yearOrZero_eq (raw : String) : yearOrZero raw = (parseYear raw).getD 0 := by
  unfold yearOrZero
  cases hyear : parseYear raw with
  | none => rfl
  | some y =>
    have hrange := parseYear_range hyear
    rw [Option.elim_some, Option.getD_some, toI32, Int.bmod_eq_of_le] <;> omega

/-! ## Decimal numbers -/

/-- What `f32::from_str` and `f64::from_str` read, before they round it. -/
inductive Decimal where
  | nan
  | infinity (negative : Bool)
  | finite (value : ℚ)
  deriving DecidableEq

/-- Digits with or without a sign. -/
def signed (s : List Char) : Option Int :=
  match s with
  | '-' :: digits => (parseDigits digits).map fun n => -(n : Int)
  | '+' :: digits => (parseDigits digits).map fun n => (n : Int)
  | digits => (parseDigits digits).map fun n => (n : Int)

def readExponent : List Char → Option Int
  | [] => some 0
  | c :: rest => if c = 'e' ∨ c = 'E' then signed rest else none

/-- Digits with or without a point among them, and an exponent. -/
def readNumber (s : List Char) : Option ℚ := do
  let whole := s.takeWhile Char.isDigit
  let (frac, rest) :=
    match s.dropWhile Char.isDigit with
    | '.' :: rest => (rest.takeWhile Char.isDigit, rest.dropWhile Char.isDigit)
    | rest => ([], rest)
  let digits ← parseDigits (whole ++ frac)
  let exponent ← readExponent rest
  return (digits : ℚ) * 10 ^ (exponent - frac.length)

def readUnsigned (negative : Bool) (s : List Char) : Option Decimal :=
  match asciiLower (String.ofList s) with
  | "inf" | "infinity" => some (.infinity negative)
  | "nan" => some .nan
  | _ => (readNumber s).map fun q => .finite (if negative then -q else q)

def readDecimal (s : List Char) : Option Decimal :=
  match s with
  | '-' :: rest => readUnsigned true rest
  | '+' :: rest => readUnsigned false rest
  | rest => readUnsigned false rest

/-- In a format. -/
def Decimal.to (format : Rounding.Format) : Decimal → Rating
  | nan => none
  | infinity negative => some (if negative then ⊥ else (⊤ : WithTop ℚ))
  | finite value => some (format.round value)

/-- `str::parse` to a float of the format. -/
def parseFloat (format : Rounding.Format) (s : List Char) : Option Rating :=
  (readDecimal s).map (Decimal.to format)

/-- `replace(',', ".")`. -/
def withPoint (s : List Char) : List Char := s.map fun c => if c = ',' then '.' else c

/-- The value of a finite float. -/
def finite? : Rating → Option ℚ
  | some (some (some q)) => some q
  | _ => none

/-- `x > 0.0`, which is false of what is no number. -/
def isPositive : Rating → Bool
  | some x => 0 < x
  | none => false

/-- `x <= 0.0`. -/
def isUnrated : Rating → Bool
  | some x => x ≤ 0
  | none => false

/-- `f64::clamp(0.0, 5.0)`. -/
def clampRating (x : Rating) : Rating := x.map fun x => max 0 (min x ((5 : ℚ) : WithTop ℚ))

/-! ## As the cache reads them -/

namespace Row

/-- The parts are read until one is no number. -/
def durationFrom (total : Int) : List (List Char) → Option Int
  | [] => checkedI64 (total * 1000)
  | part :: parts =>
    match parseI64 (trim (String.ofList part)) with
    | none => some 0
    | some n => do
      let sixty ← checkedI64 (total * 60)
      let total ← checkedI64 (sixty + n)
      durationFrom total parts

/-- `parse_duration_ms` of the cache: zero when the tag says nothing. -/
def parseDurationMs (raw : String) : Option Int := durationFrom 0 (raw.toList.splitOn ':')

/-- `parse_rating` of the cache, in single precision. -/
def parseRating (raw : String) : Rating :=
  (parseFloat Rounding.single (withPoint (trim raw).toList)).getD (some ((0 : ℚ) : WithTop ℚ))

end Row

/-- `CachedTags::from`. -/
def TrackTags.toCached (tags : TrackTags) : Option CachedTags := do
  let durationMs ← Row.parseDurationMs tags.duration
  return {
    src := tags.src
    artist := tags.artist
    title := tags.title
    album := tags.album
    albumArtist := tags.albumArtist
    trackNo := tags.trackNo
    discNo := tags.discNo
    genre := tags.genre
    multiArtist := tags.multiArtist
    multiComposer := tags.multiComposer
    year := yearOrZero tags.year
    originalYear := yearOrZero tags.originalYear
    rating := Row.parseRating tags.rating
    dateAdded := tags.dateAdded
    durationMs }

/-! ## As they are read from the host -/

def durationFrom (total : Int) : List (List Char) → Option Int
  | [] => checkedI64 (total * 1000)
  | part :: parts => do
    let n ← (parseI64 (trim (String.ofList part))).filter (0 ≤ ·)
    let sixty ← checkedI64 (total * 60)
    let total ← checkedI64 (sixty + n)
    durationFrom total parts

/-- `parse_duration_ms`. -/
def parseDurationMs (raw : String) : Option Int :=
  if trim raw = "" then none else durationFrom 0 ((trim raw).toList.splitOn ':')

/-- `parse_rating`: from zero to five, nothing when unrated. -/
def parseRating (raw : String) : Option Rating :=
  if trim raw = "" then none
  else (parseFloat Rounding.double (withPoint (trim raw).toList)).bind fun value =>
    if isUnrated value then none else some (clampRating value)

/-! ## The track -/

/-- Which credits a track object lists. -/
inductive Credits where
  | lead | all
  deriving DecidableEq

def roleText : Mbrc.Credits.Role → String
  | .artist => "artist"
  | .guest => "guest"
  | .performer => "performer"
  | .remixer => "remixer"

/-- `Credit::to_json`. -/
def creditJson (credit : Credit) : Value :=
  .object ([("name", .string credit.name), ("role", .string (roleText credit.role))] ++
    (credit.detail.map fun detail => ("detail", Value.string detail)).toList)

def strings (names : List String) : Value := .array (names.map .string)

/-- `artist_json`: the names a track is browsed under, and the credits. -/
def artistJson (raw display : String) (shown : Credits) : Value × Value :=
  let all := Mbrc.Credits.orDisplay raw display
  let listed := all.filter fun c => shown = .all || c.role ≠ .performer
  (strings (Mbrc.Credits.leadNames all), .array (listed.map creditJson))

def composerNames (raw : String) : List String :=
  ((MultiValue.values raw).map fun v => trim (String.ofList (v.toList.dropWhile isControl))).filter
    (· ≠ "")

def intJson : Option Int → Value
  | some i => .int i
  | none => .null

def nonEmpty (s : String) : Value := if s = "" then .null else .string s

section

variable (float : ℚ → Float64)

/-- A float as a value: null unless it is finite. -/
def floatJson (x : Option Rating) : Value :=
  match x.bind finite? with
  | some q => .number (.float (float q))
  | none => .null

/-- The object of a track, of which only the cover may be missing. -/
def trackObject (src : String) (artist : Value × Value) (display title album albumArtist : String)
    (trackNo discNo : Int) (genre composer : List String)
    (year originalYear durationMs : Option Int) (rating : Option Rating) (dateAdded : String)
    (coverHash : Option String) : Value :=
  .object
    ([("src", .string src),
      ("artist", artist.1),
      ("artist_display", .string display),
      ("artist_credits", artist.2),
      ("title", .string title),
      ("album", .string album),
      ("album_artist", .string albumArtist),
      ("track_no", .int trackNo),
      ("disc_no", .int discNo),
      ("genre", strings genre),
      ("composer", strings composer),
      ("year", intJson year),
      ("original_year", intJson originalYear),
      ("duration_ms", intJson durationMs),
      ("rating", floatJson float rating),
      ("date_added", nonEmpty dateAdded)] ++
      (coverHash.map fun hash => ("cover_hash", Value.string hash)).toList)

/-- `track_json`. -/
def trackJson (tags : TrackTags) (coverHash : Option String) (shown : Credits) : Value :=
  trackObject float tags.src (artistJson tags.multiArtist tags.artist shown) tags.artist tags.title
    tags.album tags.albumArtist tags.trackNo tags.discNo (MultiValue.values tags.genre)
    (composerNames tags.multiComposer) (parseYear tags.year) (parseYear tags.originalYear)
    (parseDurationMs tags.duration) (parseRating tags.rating) tags.dateAdded coverHash

/-- Where it is positive. -/
def positive (i : Int) : Option Int := if 0 < i then some i else none

/-- `cached_track_json`. -/
def cachedTrackJson (tags : CachedTags) (coverHash : Option String) : Value :=
  trackObject float tags.src (artistJson tags.multiArtist tags.artist .lead) tags.artist tags.title
    tags.album tags.albumArtist tags.trackNo tags.discNo (MultiValue.values tags.genre)
    (composerNames tags.multiComposer) (positive tags.year) (positive tags.originalYear)
    (positive tags.durationMs) (if isPositive tags.rating then some tags.rating else none)
    tags.dateAdded coverHash

end

end Mbrc.TrackV6
