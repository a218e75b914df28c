import MbrcPlugin.Commands.PlaylistV6
import Mathlib.Logic.Function.Iterate

/-!
# What the version of a playlist tells apart

The fingerprint rotates the hash of a path by seven bits for each path that follows.  Two paths that
change places change it, unless rotating the difference of their hashes over the distance between
them gives that difference back (`fingerprint_swap`); over a distance of sixty-four it always does.
-/

namespace Mbrc.CommandsV6

open Providers Interaction
open Interaction.Fallible (check attempt)

/-! ## Rotations -/

theorem toBitVec_rotateLeft7 (x : UInt64) : (rotateLeft7 x).toBitVec = x.toBitVec.rotateLeft 7 :=
  rfl

theorem getLsbD_rotateLeft7 (x : UInt64) {i : Nat} (hi : i < 64) :
    (rotateLeft7 x).toBitVec.getLsbD i = x.toBitVec.getLsbD ((i + 57) % 64) := by
  rw [toBitVec_rotateLeft7, BitVec.getLsbD_rotateLeft]
  by_cases hlow : i < 7
  · rw [decide_eq_true (by omega), cond_true]
    congr 1
    omega
  · rw [decide_eq_false (by omega), cond_false, decide_eq_true hi, Bool.true_and]
    congr 1
    omega

theorem rotateLeft7_xor (x y : UInt64) :
    rotateLeft7 (x ^^^ y) = rotateLeft7 x ^^^ rotateLeft7 y := by
  rw [← UInt64.toBitVec_inj]
  apply BitVec.eq_of_getLsbD_eq
  intro i hi
  rw [UInt64.toBitVec_xor, BitVec.getLsbD_xor]
  simp only [getLsbD_rotateLeft7 _ hi]
  rw [UInt64.toBitVec_xor, BitVec.getLsbD_xor]

theorem getLsbD_iterate (x : UInt64) (n : Nat) {i : Nat} (hi : i < 64) :
    (rotateLeft7^[n] x).toBitVec.getLsbD i = x.toBitVec.getLsbD ((i + 57 * n) % 64) := by
  induction n generalizing i with
  | zero =>
    rw [Function.iterate_zero_apply]
    congr 1
    omega
  | succ n ih =>
    rw [Function.iterate_succ_apply', getLsbD_rotateLeft7 _ hi, ih (Nat.mod_lt _ (by omega))]
    congr 1
    omega

/-- Sixty-four rotations are none. -/
theorem iterate_of_dvd {n : Nat} (h : 64 ∣ n) (x : UInt64) : rotateLeft7^[n] x = x := by
  rw [← UInt64.toBitVec_inj]
  apply BitVec.eq_of_getLsbD_eq
  intro i hi
  rw [getLsbD_iterate x n hi]
  congr 1
  obtain ⟨m, rfl⟩ := h
  omega

theorem iterate_xor (n : Nat) (x y : UInt64) :
    rotateLeft7^[n] (x ^^^ y) = rotateLeft7^[n] x ^^^ rotateLeft7^[n] y := by
  induction n generalizing x y with
  | zero => rfl
  | succ n ih => rw [Function.iterate_succ_apply, rotateLeft7_xor, ih]; rfl

theorem iterate_rotateLeft7_zero (n : Nat) : rotateLeft7^[n] 0 = 0 := by
  have h := iterate_xor n 0 0
  rw [UInt64.xor_self, UInt64.xor_self] at h
  exact h

/-- A rotation loses nothing. -/
theorem iterate_eq_zero {n : Nat} {x : UInt64} (h : rotateLeft7^[n] x = 0) : x = 0 := by
  have hback := iterate_of_dvd (n := 63 * n + n) ⟨n, by omega⟩ x
  rw [Function.iterate_add_apply, h] at hback
  rw [← hback, iterate_rotateLeft7_zero]

/-! ## The fingerprint -/

def pathHash (path : String) : UInt64 := fnv1a64 path.toUTF8.data.toList

def folded (acc : UInt64) (paths : List String) : UInt64 :=
  paths.foldl (fun acc path => pathHash path ^^^ rotateLeft7 acc) acc

theorem orderedFingerprint_eq (paths : List String) :
    orderedFingerprint paths =
      folded 0 paths ^^^ UInt64.ofNat paths.length * 0x9E3779B97F4A7C15 := rfl

theorem folded_append (acc : UInt64) (paths rest : List String) :
    folded acc (paths ++ rest) = folded (folded acc paths) rest := List.foldl_append

theorem folded_cons (acc : UInt64) (path : String) (rest : List String) :
    folded acc (path :: rest) = folded (pathHash path ^^^ rotateLeft7 acc) rest := rfl

/-- What two starts differ in is rotated. -/
theorem folded_xor (paths : List String) (acc acc' : UInt64) :
    folded acc paths ^^^ folded acc' paths = rotateLeft7^[paths.length] (acc ^^^ acc') := by
  induction paths generalizing acc acc' with
  | nil => rfl
  | cons path rest ih =>
    have hstep : (pathHash path ^^^ rotateLeft7 acc) ^^^ (pathHash path ^^^ rotateLeft7 acc') =
        rotateLeft7 (acc ^^^ acc') := by
      rw [rotateLeft7_xor, UInt64.xor_comm (pathHash path) (rotateLeft7 acc), UInt64.xor_assoc,
        ← UInt64.xor_assoc (pathHash path), UInt64.xor_self, UInt64.zero_xor]
    rw [folded_cons, folded_cons, ih, hstep]
    rfl

/-- Two paths, and the same two the other way round. -/
theorem folded_exchange (before between after : List String) (x y : String) :
    folded 0 (before ++ x :: (between ++ y :: after)) ^^^
        folded 0 (before ++ y :: (between ++ x :: after)) =
      rotateLeft7^[after.length] (rotateLeft7^[between.length + 1] (pathHash x ^^^ pathHash y) ^^^
        (pathHash x ^^^ pathHash y)) := by
  simp only [folded_append, folded_cons]
  generalize rotateLeft7 (folded 0 before) = start
  rw [folded_xor]
  congr 1
  have hbetween := folded_xor between (pathHash x ^^^ start) (pathHash y ^^^ start)
  have hstart : (pathHash x ^^^ start) ^^^ (pathHash y ^^^ start) = pathHash x ^^^ pathHash y := by
    rw [UInt64.xor_assoc, UInt64.xor_comm (pathHash y) start, ← UInt64.xor_assoc start,
      UInt64.xor_self, UInt64.zero_xor]
  rw [hstart] at hbetween
  rw [Function.iterate_succ_apply', ← hbetween, rotateLeft7_xor]
  generalize rotateLeft7 (folded (pathHash x ^^^ start) between) = p
  generalize rotateLeft7 (folded (pathHash y ^^^ start) between) = q
  rw [UInt64.xor_comm (pathHash y) p, UInt64.xor_assoc p, ← UInt64.xor_assoc (pathHash y),
    UInt64.xor_comm (pathHash y ^^^ pathHash x) q, ← UInt64.xor_assoc, UInt64.xor_comm (pathHash y)]

def exchanged (paths : List String) (i j : Nat) : List String :=
  match paths[i]?, paths[j]? with
  | some x, some y => (paths.set i y).set j x
  | _, _ => paths

/-- What the hashes of two paths differ in. -/
def difference (paths : List String) (i j : Nat) : UInt64 :=
  pathHash (paths.getD i "") ^^^ pathHash (paths.getD j "")

theorem exists_places {paths : List String} {i j : Nat} (hij : i < j) (hj : j < paths.length) :
    ∃ before between after x y, paths = before ++ x :: (between ++ y :: after) ∧
      before.length = i ∧ before.length + between.length + 1 = j := by
  have hi : i < paths.length := by omega
  have hrest : j - (i + 1) < (paths.drop (i + 1)).length := by
    rw [List.length_drop]
    omega
  refine ⟨paths.take i, (paths.drop (i + 1)).take (j - (i + 1)), (paths.drop (i + 1)).drop
    (j - (i + 1) + 1), paths[i], (paths.drop (i + 1))[j - (i + 1)], ?_, ?_, ?_⟩
  · rw [List.getElem_cons_drop hrest, List.take_append_drop, List.getElem_cons_drop hi,
      List.take_append_drop]
  · rw [List.length_take]
    omega
  · rw [List.length_take, List.length_take, List.length_drop]
    omega

theorem exchanged_append (before between after : List String) (x y : String) :
    exchanged (before ++ x :: (between ++ y :: after)) before.length
        (before.length + between.length + 1) = before ++ y :: (between ++ x :: after) := by
  have hx : (before ++ x :: (between ++ y :: after))[before.length]? = some x := by simp
  have hy : (before ++ x :: (between ++ y :: after))[before.length + between.length + 1]? =
      some y := by
    rw [List.getElem?_append_right (by omega), show before.length + between.length + 1 -
      before.length = between.length + 1 by omega, List.getElem?_cons_succ]
    simp
  rw [exchanged, hx, hy]
  simp only
  rw [List.set_append_right _ _ (le_refl _), Nat.sub_self, List.set_cons_zero,
    List.set_append_right _ _ (by omega), show before.length + between.length + 1 -
      before.length = between.length + 1 by omega, List.set_cons_succ,
    List.set_append_right _ _ (le_refl _), Nat.sub_self, List.set_cons_zero]

theorem difference_append (before between after : List String) (x y : String) :
    difference (before ++ x :: (between ++ y :: after)) before.length
        (before.length + between.length + 1) = pathHash x ^^^ pathHash y := by
  have hx : (before ++ x :: (between ++ y :: after)).getD before.length "" = x := by simp
  have hy : (before ++ x :: (between ++ y :: after)).getD (before.length + between.length + 1) "" =
      y := by
    rw [List.getD_eq_getElem?_getD, List.getElem?_append_right (by omega),
      show before.length + between.length + 1 - before.length = between.length + 1 by omega,
      List.getElem?_cons_succ]
    simp
  rw [difference, hx, hy]

/-- **The fingerprint tells a swap** unless rotating the difference gives it back. -/
theorem fingerprint_swap {paths : List String} {i j : Nat} (hij : i < j) (hj : j < paths.length) :
    orderedFingerprint (exchanged paths i j) = orderedFingerprint paths ↔
      rotateLeft7^[j - i] (difference paths i j) = difference paths i j := by
  obtain ⟨before, between, after, x, y, rfl, rfl, rfl⟩ := exists_places hij hj
  rw [exchanged_append, difference_append, show before.length + between.length + 1 - before.length =
    between.length + 1 by omega]
  have hlength : (before ++ y :: (between ++ x :: after)).length =
      (before ++ x :: (between ++ y :: after)).length := by simp
  rw [orderedFingerprint_eq, orderedFingerprint_eq, hlength, UInt64.xor_left_inj]
  have hxor := folded_exchange before between after x y
  constructor
  · intro h
    rw [h, UInt64.xor_self] at hxor
    exact UInt64.xor_eq_zero_iff.mp (iterate_eq_zero hxor.symm)
  · intro h
    rw [h, UInt64.xor_self, iterate_rotateLeft7_zero] at hxor
    exact (UInt64.xor_eq_zero_iff.mp hxor).symm

/-! ## Versions -/

def hexDigitValue (c : Char) : Nat := if c ≤ '9' then c.toNat - 48 else c.toNat - 87

def hexValue (digits : List Char) : Nat :=
  digits.foldl (fun n c => 16 * n + hexDigitValue c) 0

theorem hexValue_append (digits : List Char) (c : Char) :
    hexValue (digits ++ [c]) = 16 * hexValue digits + hexDigitValue c := by
  rw [hexValue, List.foldl_append]
  rfl

theorem hexDigitValue_digitChar {d : Nat} (hd : d < 16) : hexDigitValue d.digitChar = d := by
  have : ∀ d < 16, hexDigitValue (Nat.digitChar d) = d := by decide
  exact this d hd

theorem hexValue_toDigits (n : Nat) : hexValue (Nat.toDigits 16 n) = n := by
  induction n using Nat.strong_induction_on with
  | _ n ih =>
    rw [Nat.toDigits_eq_if (by omega)]
    split
    · exact (Nat.zero_add _).trans (hexDigitValue_digitChar ‹_›)
    · rw [hexValue_append, ih (n / 16) (by omega), hexDigitValue_digitChar (by omega)]
      omega

theorem hexValue_zeros (k : Nat) (digits : List Char) :
    hexValue (List.replicate k '0' ++ digits) = hexValue digits := by
  induction k with
  | zero => rfl
  | succ k ih => exact ih

theorem versionOf_eq {paths paths' : List String} :
    versionOf paths = versionOf paths' ↔ orderedFingerprint paths = orderedFingerprint paths' := by
  constructor
  · intro h
    have hdigits := congrArg (fun s => hexValue s.toList) h
    simp only [versionOf, String.toList_ofList, hexValue_zeros, hexValue_toDigits] at hdigits
    exact UInt64.toNat_inj.mp hdigits
  · intro h
    rw [versionOf, versionOf, h]

/-! ## Edits -/

def staleList : V6Error :=
  { code := .staleList, message := "the playlist changed; re-read it and retry" }

section Edits

variable {σ : Type} {host : σ → (c : Call) → Answer c × σ} {s : σ} {data : Value} {url : String}
  {files : PlaylistFiles}

/-- A version that is not the one of the contents. -/
theorem checkVersionOf_stale {version : String}
    (hversion : optStr data "version" = .ok (some version))
    (hne : version ≠ versionOf files.paths) : checkVersionOf data files = .error staleList := by
  unfold checkVersionOf
  rw [hversion]
  show (if version ≠ versionOf files.paths then _ else _) = _
  rw [if_pos hne]
  rfl

theorem editableFiles_stale {version : String}
    (hanswer : (host s (.query (.playlistFiles url))).1 = .ok files)
    (hkind : editable files.kind = true) (hversion : optStr data "version" = .ok (some version))
    (hne : version ≠ versionOf files.paths) :
    Fallible.outcome host (editableFiles data url) s = .error staleList := by
  have hknown : known files.kind = true := by
    rw [editable, Bool.and_eq_true] at hkind
    exact hkind.2
  have hfound : Fallible.outcome host (knownFiles url) s = .ok files := by
    have hread : Except.mapError internal (host s (.query (.playlistFiles url))).1 = .ok files := by
      rw [hanswer]
      rfl
    unfold knownFiles ask
    rw [Fallible.outcome_attempt_bind hread]
    simp only [hknown, Bool.not_true, Bool.false_eq_true]
    rfl
  unfold editableFiles
  obtain ⟨s', hrest⟩ := Fallible.outcome_bind_ok hfound fun files => do
    if !editable files.kind then
      throw
        { code := .unavailable
          message := "this playlist is not a list of tracks that can be edited" }
    check (checkVersionOf data files)
    return files
  refine hrest.trans ?_
  simp only [hkind, Bool.not_true, Bool.false_eq_true, if_false]
  refine Fallible.outcome_bind_error ?_ _
  rw [checkVersionOf_stale hversion hne]
  rfl

end Edits

/-- The edits that replace what a playlist holds refuse a request that carries the version of what
was read, on a playlist that holds something else by then. -/
def RefusesStale (read found : List String) : Prop :=
  ∀ {σ : Type} (host : σ → (c : Call) → Answer c × σ) (s : σ) (data : Value) (url : String)
    (files : PlaylistFiles),
    reqStr data "url" = .ok url → optStr data "version" = .ok (some (versionOf read)) →
    (host s (.query (.playlistFiles url))).1 = .ok files → files.paths = found →
    editable files.kind = true →
      (∀ orders target, ordersHighestFirst data "from_orders" = .ok orders →
        reqI64 data "to_order" = .ok target →
          Fallible.outcome host (moveTracks data) s = .error staleList) ∧
      (∀ orders, ordersHighestFirst data "orders" = .ok orders →
        Fallible.outcome host (removeTracks data) s = .error staleList) ∧
      Fallible.outcome host (setTracks data) s = .error staleList

theorem refusesStale {read found : List String} (h : versionOf read ≠ versionOf found) :
    RefusesStale read found := by
  intro σ host s data url files hurl hversion hanswer hpaths hkind
  have hstale : Fallible.outcome host (editableFiles data url) s = .error staleList :=
    editableFiles_stale hanswer hkind hversion (by rw [hpaths]; exact h)
  refine ⟨fun orders target horders htarget => ?_, fun orders horders => ?_, ?_⟩
  · rw [moveTracks, hurl, horders, htarget, Fallible.outcome_check_bind,
      Fallible.outcome_check_bind, Fallible.outcome_check_bind]
    exact Fallible.outcome_bind_error hstale _
  · rw [removeTracks, hurl, horders, Fallible.outcome_check_bind, Fallible.outcome_check_bind]
    exact Fallible.outcome_bind_error hstale _
  · rw [setTracks, hurl, Fallible.outcome_check_bind]
    exact Fallible.outcome_bind_error hstale _

/-- **A version tells a swap**, and the edits that carry it are refused, exactly where rotating the
difference of the two hashes by seven bits for each place between them changes it. -/
theorem version_tells_swap (paths : List String) (i j : Nat) (hij : i < j)
    (hj : j < paths.length) :
    (orderedFingerprint (exchanged paths i j) ≠ orderedFingerprint paths ∧
        RefusesStale paths (exchanged paths i j)) ↔
      rotateLeft7^[j - i] (difference paths i j) ≠ difference paths i j := by
  rw [ne_eq (rotateLeft7^[j - i] _), ← fingerprint_swap hij hj]
  constructor
  · exact And.left
  · intro h
    exact ⟨h, refusesStale fun heq => h (versionOf_eq.mp heq).symm⟩

theorem version_tells_neighbours :
    orderedFingerprint ["/b", "/a"] ≠ orderedFingerprint ["/a", "/b"] ∧
      RefusesStale ["/a", "/b"] ["/b", "/a"] :=
  (version_tells_swap ["/a", "/b"] 0 1 (by decide) (by decide)).mpr (by decide +kernel)

/-- The first and the last of sixty-five tracks. -/
def sixtyFive : List String := "/a" :: List.replicate 63 "/c" ++ ["/b"]

/-- **Sixty-four places apart, two tracks change places unseen.** -/
theorem swap_unseen :
    pathHash (sixtyFive.getD 0 "") ≠ pathHash (sixtyFive.getD 64 "") ∧
      orderedFingerprint (exchanged sixtyFive 0 64) = orderedFingerprint sixtyFive ∧
      ¬ (orderedFingerprint (exchanged sixtyFive 0 64) ≠ orderedFingerprint sixtyFive ∧
        RefusesStale sixtyFive (exchanged sixtyFive 0 64)) := by
  have hsame : orderedFingerprint (exchanged sixtyFive 0 64) = orderedFingerprint sixtyFive := by
    decide +kernel
  exact ⟨by decide +kernel, hsame, fun h => h.1 hsame⟩

end Mbrc.CommandsV6
