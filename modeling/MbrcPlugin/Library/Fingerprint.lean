import MbrcPlugin.Library.Reconcile

/-!
# What the library fingerprint notices

The fingerprint is a wrapping sum of one term an album, with the number of albums mixed in.  The
order of the albums is lost in the sum; a term determines its time, so one album's new time moves
the sum, and the same count is mixed into both.
-/

namespace Mbrc.Reconcile

/-! ## The sum of the terms -/

/-- What an album adds to the sum: the hash of its key against its time. -/
def term (album : String × Int) : UInt64 :=
  fnv1a64 album.1.toUTF8.toList ^^^ UInt64.ofInt album.2

def addTerm (sum : UInt64) (album : String × Int) : UInt64 := sum + term album

/-- The sum of the terms, and the count of the albums, as the loop keeps them. -/
theorem foldl_pair (albums : List (String × Int)) (sum : UInt64) (count : UInt64) :
    albums.foldl (fun (acc, count) (key, modified) =>
      (acc + (fnv1a64 key.toUTF8.toList ^^^ UInt64.ofInt modified), count + 1)) (sum, count) =
      (albums.foldl addTerm sum, albums.foldl (fun count _ => count + 1) count) := by
  induction albums generalizing sum count with
  | nil => rfl
  | cons album rest ih =>
    simp only [List.foldl_cons]
    exact ih _ _

theorem fingerprint_eq (albums : List (String × Int)) :
    fingerprint albums = albums.foldl addTerm 0 ^^^
      albums.foldl (fun count _ => count + 1) 0 * 0x9E3779B97F4A7C15 := by
  unfold fingerprint
  rw [foldl_pair]

/-- The count sees the length of the list only. -/
theorem foldl_count (albums : List (String × Int)) (count : UInt64) :
    albums.foldl (fun count _ => count + 1) count = count + UInt64.ofNat albums.length := by
  induction albums generalizing count with
  | nil => simp
  | cons album rest ih =>
    rw [List.foldl_cons, ih, List.length_cons, UInt64.ofNat_add, UInt64.add_assoc]
    congr 1
    exact UInt64.add_comm _ _

theorem foldl_addTerm (albums : List (String × Int)) (sum : UInt64) :
    albums.foldl addTerm sum = sum + albums.foldl addTerm 0 := by
  induction albums generalizing sum with
  | nil => simp
  | cons album rest ih =>
    rw [List.foldl_cons, List.foldl_cons, ih, ih (addTerm 0 album)]
    simp only [addTerm, UInt64.zero_add, UInt64.add_assoc]

/-- The terms may be added in any order. -/
theorem foldl_addTerm_perm {albums other : List (String × Int)} (hperm : other.Perm albums)
    (sum : UInt64) : other.foldl addTerm sum = albums.foldl addTerm sum := by
  induction hperm generalizing sum with
  | nil => rfl
  | cons album _ ih => exact ih _
  | swap album album' rest =>
    simp only [List.foldl_cons, addTerm, UInt64.add_assoc]
    rw [UInt64.add_comm (term album)]
  | trans _ _ ih ih' => rw [ih, ih']

theorem fingerprint_perm {albums other : List (String × Int)} (hperm : other.Perm albums) :
    fingerprint other = fingerprint albums := by
  rw [fingerprint_eq, fingerprint_eq, foldl_addTerm_perm hperm, foldl_count, foldl_count,
    hperm.length_eq]

/-! ## One album's time -/

/-- An `i64` and its bits read as a `u64` determine each other. -/
theorem ofInt_toInt_inj {m m' : Int64} (h : UInt64.ofInt m.toInt = UInt64.ofInt m'.toInt) :
    m = m' := by
  have hlow := Int64.le_toInt m
  have hhigh := Int64.toInt_lt m
  have hlow' := Int64.le_toInt m'
  have hhigh' := Int64.toInt_lt m'
  have hmod : m.toInt % 2 ^ 64 = m'.toInt % 2 ^ 64 := by
    have := congrArg UInt64.toNat h
    simp only [UInt64.ofInt, UInt64.toNat_ofNat'] at this
    omega
  exact Int64.toInt_inj.mp (by omega)

/-- A term determines the time in it. -/
theorem term_inj {key : String} {m m' : Int64}
    (h : term (key, m.toInt) = term (key, m'.toInt)) : m = m' := by
  unfold term at h
  rw [UInt64.xor_right_inj] at h
  exact ofInt_toInt_inj h

theorem foldl_addTerm_middle (before after : List (String × Int)) (album : String × Int) :
    (before ++ album :: after).foldl addTerm 0 =
      before.foldl addTerm 0 + after.foldl addTerm 0 + term album := by
  rw [List.foldl_append, List.foldl_cons, foldl_addTerm, addTerm, UInt64.add_assoc,
    UInt64.add_comm (term album), UInt64.add_assoc]

/-- The albums with the times as the host sends them. -/
def stamped (albums : List (String × Int64)) : List (String × Int) :=
  albums.map fun (key, modified) => (key, modified.toInt)

/-- **The fingerprint notices a single album**: no order of the albums matters, and another time
of exactly one of them gives another number. -/
theorem fingerprint_notices (albums : List (String × Int64)) :
    (∀ other, other.Perm albums →
      fingerprint (stamped other) = fingerprint (stamped albums)) ∧
    ∀ before after key modified modified', albums = before ++ (key, modified) :: after →
      modified' ≠ modified →
      fingerprint (stamped (before ++ (key, modified') :: after)) ≠
        fingerprint (stamped albums) := by
  constructor
  · intro other hperm
    exact fingerprint_perm (hperm.map _)
  · intro before after key modified modified' halbums hne heq
    subst halbums
    apply hne
    have hcount : ∀ m : Int64, (stamped (before ++ (key, m) :: after)).length =
        before.length + (after.length + 1) := by
      intro m
      simp [stamped]
    have hsplit : ∀ m : Int64, stamped (before ++ (key, m) :: after) =
        stamped before ++ (key, m.toInt) :: stamped after := by
      intro m
      simp [stamped]
    rw [fingerprint_eq, fingerprint_eq, foldl_count, foldl_count, hcount, hcount,
      UInt64.xor_left_inj, hsplit, hsplit, foldl_addTerm_middle, foldl_addTerm_middle,
      UInt64.add_right_inj] at heq
    exact term_inj heq

/-- One of two albums gets a time before the epoch. -/
theorem fingerprint_notices_edit :
    fingerprint (stamped [("x", -1), ("y", 7)]) ≠ fingerprint (stamped [("x", 5), ("y", 7)]) ∧
      fingerprint (stamped [("y", 7), ("x", 5)]) = fingerprint (stamped [("x", 5), ("y", 7)]) :=
  ⟨(fingerprint_notices [("x", 5), ("y", 7)]).2 [] [("y", 7)] "x" 5 (-1) rfl (by decide),
    (fingerprint_notices [("x", 5), ("y", 7)]).1 _ (List.Perm.swap _ _ _)⟩

end Mbrc.Reconcile
