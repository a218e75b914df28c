import MbrcPlugin.Capture.Scrubber
import MbrcPlugin.Lib.StateLogic
import MbrcPlugin.Lib.Text
import Mathlib.Data.List.Forall2

/-!
# What paths are built from

The pseudonyms of different strings are different, and so are the paths that are built from
different metadata (`PathOf.inj`).
-/

namespace Mbrc.Capture

open StateLogic

/-! ## Texts of numbers -/

theorem ofDigitChars_toString (n : Nat) : Nat.ofDigitChars 10 (toString n).toList 0 = n := by
  simp

theorem nat_toString_inj {m n : Nat} (h : toString m = toString n) : m = n := by
  rw [← ofDigitChars_toString m, h, ofDigitChars_toString]

theorem digit_of_mem_toString {n : Nat} {c : Char} (h : c ∈ (toString n).toList) :
    c.isDigit = true := by
  rw [Nat.toString_eq_repr, Nat.toList_repr] at h
  exact Nat.isDigit_of_mem_toDigits (by omega) (by omega) h

/-- A sign and digits, or digits. -/
theorem toList_twoDigits (i : Int) :
    (0 ≤ i ∧ Nat.ofDigitChars 10 (twoDigits i).toList 0 = i.toNat ∧
      ∀ c ∈ (twoDigits i).toList, c.isDigit = true) ∨
    ∃ n : Nat, i = -(n : Int) ∧ 0 < n ∧ (twoDigits i).toList = '-' :: (toString n).toList := by
  cases i with
  | ofNat n =>
    refine .inl ⟨Int.natCast_nonneg n, ?_⟩
    have htext : toString (Int.ofNat n) = toString n := by simp [Int.repr]
    unfold twoDigits
    rw [htext]
    split
    · refine ⟨?_, fun c hc => ?_⟩
      · rw [String.toList_append]
        simp [Nat.ofDigitChars_cons]
      · rw [String.toList_append, List.mem_append] at hc
        obtain hc | hc := hc
        · obtain rfl : c = '0' := by simpa using hc
          rfl
        · exact digit_of_mem_toString hc
    · exact ⟨ofDigitChars_toString n, fun c hc => digit_of_mem_toString hc⟩
  | negSucc n =>
    refine .inr ⟨n + 1, Int.negSucc_eq n, by omega, ?_⟩
    unfold twoDigits
    rw [if_neg (by omega)]
    show ("-" ++ toString (n + 1)).toList = _
    rw [String.toList_append]
    rfl

theorem twoDigits_inj {i j : Int} (h : twoDigits i = twoDigits j) : i = j := by
  obtain ⟨hi, hvali, hdigi⟩ | ⟨m, rfl, hm, hi⟩ := toList_twoDigits i
  · obtain ⟨hj, hvalj, -⟩ | ⟨n, rfl, hn, hj⟩ := toList_twoDigits j
    · rw [h, hvalj] at hvali
      omega
    · rw [h, hj] at hdigi
      exact absurd (hdigi '-' List.mem_cons_self) (by decide)
  · obtain ⟨hj, hvalj, hdigj⟩ | ⟨n, rfl, hn, hj⟩ := toList_twoDigits j
    · rw [← h, hi] at hdigj
      exact absurd (hdigj '-' List.mem_cons_self) (by decide)
    · rw [h, hj] at hi
      have hdigits : (toString n).toList = (toString m).toList := List.tail_eq_of_cons_eq hi
      have hmn : n = m := nat_toString_inj (String.toList_inj.mp hdigits)
      rw [hmn]

theorem space_not_mem_twoDigits (i : Int) : ' ' ∉ (twoDigits i).toList := by
  intro hmem
  obtain ⟨-, -, hdig⟩ | ⟨n, -, -, hi⟩ := toList_twoDigits i
  · exact absurd (hdig ' ' hmem) (by decide)
  · rw [hi, List.mem_cons] at hmem
    obtain hmem | hmem := hmem
    · exact absurd hmem (by decide)
    · exact absurd (digit_of_mem_toString hmem) (by decide)

/-! ## The numbers -/

/-- What was seen keeps its text. -/
instance : Preorder Scrubber where
  le s t := ∀ entry text, s.seen.lookup entry = some text → t.seen.lookup entry = some text
  le_refl _ _ _ h := h
  le_trans _ _ _ h h' entry text hentry := h' entry text (h entry text hentry)

def textOf (c : Category) (x : String) : Nat → String :=
  match c with
  | .path => tokenPath (extensionOf x)
  | c => labelText c

theorem labelText_inj {c : Category} {m n : Nat} (h : labelText c m = labelText c n) : m = n := by
  have hlist : (c.display ++ " ").toList ++ (toString m).toList =
      (c.display ++ " ").toList ++ (toString n).toList := by
    rw [← String.toList_append, ← String.toList_append]
    exact congrArg String.toList h
  exact nat_toString_inj (String.toList_inj.mp (List.append_cancel_left hlist))

/-- The part before a character that the part does not hold. -/
theorem cut {c : Char} {a b rest rest' : List Char} (ha : c ∉ a) (hb : c ∉ b)
    (h : a ++ c :: rest = b ++ c :: rest') : a = b ∧ rest = rest' := by
  have hsplit := congrArg (Text.splitOnce c) h
  rw [Text.splitOnce_append ha, Text.splitOnce_append hb] at hsplit
  exact Prod.mk.inj (Option.some.inj hsplit)

theorem not_mem_toString {c : Char} (hc : c.isDigit = false) (n : Nat) :
    c ∉ (toString n).toList := by
  intro hmem
  rw [digit_of_mem_toString hmem] at hc
  cases hc

/-- What stands before the first point, after a common beginning. -/
theorem point_inj {start a b ext ext' : String} (ha : '.' ∉ a.toList) (hb : '.' ∉ b.toList)
    (h : start ++ a ++ "." ++ ext = start ++ b ++ "." ++ ext') : a = b ∧ ext = ext' := by
  have hlist (a ext : String) : (start ++ a ++ "." ++ ext).toList =
      start.toList ++ (a.toList ++ '.' :: ext.toList) := by simp
  rw [← String.toList_inj, hlist, hlist] at h
  obtain ⟨hab, hext⟩ := cut ha hb (List.append_cancel_left h)
  exact ⟨String.toList_inj.mp hab, String.toList_inj.mp hext⟩

theorem tokenPath_inj {ext ext' : String} {m n : Nat} (h : tokenPath ext m = tokenPath ext' n) :
    m = n :=
  have hpoint := not_mem_toString (c := '.') rfl
  nat_toString_inj (point_inj (hpoint m) (hpoint n) h).1

theorem textOf_inj {c : Category} {x y : String} {m n : Nat} (h : textOf c x m = textOf c y n) :
    m = n := by
  cases c with
  | path => exact tokenPath_inj h
  | _ => exact labelText_inj h

/-- The texts are those of numbers up to the counter, and no two strings share one. -/
structure Scrubber.Numbered (s : Scrubber) : Prop where
  text : ∀ c x t, s.seen.lookup (c, x) = some t → ∃ n, n ≤ s.counters c ∧ t = textOf c x n
  distinct : ∀ c x y t, s.seen.lookup (c, x) = some t → s.seen.lookup (c, y) = some t → x = y

/-- The text that stands for a string. -/
def Known (s : Scrubber) (c : Category) (x t : String) : Prop :=
  if x = "" then t = "" else s.seen.lookup (c, x) = some t

theorem Known.mono {s s' : Scrubber} (h : s ≤ s') {c : Category} {x t : String}
    (ht : Known s c x t) : Known s' c x t := by
  unfold Known at *
  split at ht
  · rwa [if_pos ‹_›]
  · rw [if_neg ‹_›]
    exact h _ _ ht

theorem textOf_ne_empty (c : Category) (x : String) (n : Nat) : textOf c x n ≠ "" := by
  have hlabel (start : String) : start ++ toString n ≠ "" := by simp
  have htoken (start rest ext : String) : start ++ toString n ++ rest ++ ext ≠ "" := by simp
  cases c with
  | path => exact htoken _ _ _
  | _ => exact hlabel _

theorem Known.eq_empty {s : Scrubber} (hs : s.Numbered) {c : Category} {x t : String}
    (h : Known s c x t) : t = "" ↔ x = "" := by
  unfold Known at h
  split at h
  · simp [h, ‹x = ""›]
  · obtain ⟨n, -, rfl⟩ := hs.text c x t h
    exact iff_of_false (textOf_ne_empty c x n) ‹_›

theorem Known.inj {s : Scrubber} (hs : s.Numbered) {c : Category} {x y t : String}
    (hx : Known s c x t) (hy : Known s c y t) : x = y := by
  by_cases ht : t = ""
  · rw [(hx.eq_empty hs).mp ht, (hy.eq_empty hs).mp ht]
  · have hx' := mt (hx.eq_empty hs).mpr ht
    have hy' := mt (hy.eq_empty hs).mpr ht
    rw [Known, if_neg hx'] at hx
    rw [Known, if_neg hy'] at hy
    exact hs.distinct c x y t hx hy

/-- A pseudonym holds no separator of a path. -/
theorem Known.not_mem {s : Scrubber} (hs : s.Numbered) {c : Category} (hc : c ≠ .path)
    {x t : String} (h : Known s c x t) : '\\' ∉ t.toList ∧ '.' ∉ t.toList := by
  by_cases ht : t = ""
  · rw [ht]
    decide
  · have hx := mt (h.eq_empty hs).mpr ht
    rw [Known, if_neg hx] at h
    obtain ⟨n, -, rfl⟩ := hs.text c x t h
    have hback := not_mem_toString (c := '\\') rfl n
    have hpoint := not_mem_toString (c := '.') rfl n
    have htext : textOf c x n = labelText c n := by cases c <;> first | rfl | exact absurd rfl hc
    rw [htext, labelText, String.toList_append, String.toList_append, List.mem_append,
      List.mem_append, List.mem_append, List.mem_append]
    have hdisplay : ('\\' ∉ c.display.toList ∧ '\\' ∉ " ".toList) ∧
        '.' ∉ c.display.toList ∧ '.' ∉ " ".toList := by
      cases c <;> decide
    tauto

/-! ## Paths -/

/-- The path that is built from an origin. -/
def PathOf (s : Scrubber) (o : Origin) (t : String) : Prop :=
  match o with
  | .track artist album title trackno ext => ∃ artist' album' title',
    Known s .artist artist artist' ∧ Known s .album album album' ∧ Known s .title title title' ∧
      t = trackPath artist' album' title' trackno ext
  | .media name ext => ∃ name', Known s .name name name' ∧ t = mediaPath name' ext
  | .token p _ => s.seen.lookup (.path, p) = some t

theorem PathOf.mono {s s' : Scrubber} (h : s ≤ s') {o : Origin} {t : String} (ht : PathOf s o t) :
    PathOf s' o t := by
  cases o with
  | track artist album title trackno ext =>
    obtain ⟨artist', album', title', hartist, halbum, htitle, rfl⟩ := ht
    exact ⟨artist', album', title', hartist.mono h, halbum.mono h, htitle.mono h, rfl⟩
  | media name ext =>
    obtain ⟨name', hname, rfl⟩ := ht
    exact ⟨name', hname.mono h, rfl⟩
  | token p ext => exact h _ _ ht

/-- An origin that the scrubber builds a path from. -/
def Origin.Proper : Origin → Prop
  | .track artist _ title _ _ => artist ≠ "" ∧ title ≠ ""
  | .media name _ => name ≠ ""
  | .token p ext => ext = extensionOf p

theorem proper_media (around : Siblings) (p : String) : (around.media p).Proper := by
  unfold Siblings.media
  split
  · split
    · assumption
    · rfl
  · rfl

theorem proper_origin (around : Siblings) (p : String) : (around.origin p).Proper := by
  unfold Siblings.origin
  split
  · split
    · assumption
    · exact proper_media around p
  · exact proper_media around p

/-- What stands before a separator, after a common beginning. -/
theorem separator_inj {start a b rest rest' : String} (ha : '\\' ∉ a.toList)
    (hb : '\\' ∉ b.toList)
    (h : start ++ a ++ "\\" ++ rest = start ++ b ++ "\\" ++ rest') : a = b ∧ rest = rest' := by
  have hlist (a rest : String) : (start ++ a ++ "\\" ++ rest).toList =
      start.toList ++ (a.toList ++ '\\' :: rest.toList) := by simp
  rw [← String.toList_inj, hlist, hlist] at h
  obtain ⟨hab, hrest⟩ := cut ha hb (List.append_cancel_left h)
  exact ⟨String.toList_inj.mp hab, String.toList_inj.mp hrest⟩

theorem dash_inj {a b rest rest' : String} (ha : ' ' ∉ a.toList) (hb : ' ' ∉ b.toList)
    (h : a ++ " - " ++ rest = b ++ " - " ++ rest') : a = b ∧ rest = rest' := by
  have hlist (a rest : String) : (a ++ " - " ++ rest).toList =
      a.toList ++ ' ' :: ("- ".toList ++ rest.toList) := by simp
  rw [← String.toList_inj, hlist, hlist] at h
  obtain ⟨hab, hrest⟩ := cut ha hb h
  exact ⟨String.toList_inj.mp hab, String.toList_inj.mp (List.append_cancel_left hrest)⟩

theorem trackPath_inj {artist album title artist' album' title' ext ext' : String} {n n' : Int}
    (hartist : '\\' ∉ artist.toList) (hartist' : '\\' ∉ artist'.toList)
    (halbum : '\\' ∉ album.toList) (halbum' : '\\' ∉ album'.toList)
    (htitle : '.' ∉ title.toList) (htitle' : '.' ∉ title'.toList)
    (h : trackPath artist album title n ext = trackPath artist' album' title' n' ext') :
    artist = artist' ∧ album = album' ∧ n = n' ∧ title = title' ∧ ext = ext' := by
  have hparts (start artist album number title ext : String) :
      start ++ artist ++ "\\" ++ album ++ "\\" ++ number ++ " - " ++ title ++ "." ++ ext =
        start ++ artist ++ "\\" ++
          ("" ++ album ++ "\\" ++ (number ++ " - " ++ ("" ++ title ++ "." ++ ext))) := by
    simp [String.append_assoc]
  have hsame := (hparts _ _ _ _ _ _).symm.trans (h.trans (hparts _ _ _ _ _ _))
  obtain ⟨rfl, hrest⟩ := separator_inj hartist hartist' hsame
  obtain ⟨rfl, hnumber⟩ := separator_inj halbum halbum' hrest
  obtain ⟨hn, htail⟩ := dash_inj (space_not_mem_twoDigits n) (space_not_mem_twoDigits n') hnumber
  obtain ⟨rfl, rfl⟩ := point_inj htitle htitle' htail
  exact ⟨rfl, rfl, twoDigits_inj hn, rfl, rfl⟩

theorem take_eq_of_append {a b rest rest' : String} {n : Nat} (ha : n ≤ a.toList.length)
    (hb : n ≤ b.toList.length) (h : a ++ rest = b ++ rest') :
    a.toList.take n = b.toList.take n := by
  have htake {a : String} (ha : n ≤ a.toList.length) (rest : String) :
      (a ++ rest).toList.take n = a.toList.take n := by
    rw [String.toList_append, List.take_append_of_le_length ha]
  rw [← htake ha rest, h, htake hb]

/-- The three kinds of paths begin differently. -/
theorem trackPath_start (artist album title ext : String) (n : Int) :
    ∃ rest, trackPath artist album title n ext = "\\\\host\\music\\" ++ rest := by
  have hassoc (start a b c d e g h i j : String) :
      start ++ a ++ b ++ c ++ d ++ e ++ g ++ h ++ i ++ j =
        start ++ (a ++ b ++ c ++ d ++ e ++ g ++ h ++ i ++ j) := by
    simp [String.append_assoc]
  exact ⟨_, hassoc _ _ _ _ _ _ _ _ _ _⟩

theorem mediaPath_start (name ext : String) :
    ∃ rest, mediaPath name ext = "\\\\host\\media\\" ++ rest :=
  have hassoc (start a b c : String) : start ++ a ++ b ++ c = start ++ (a ++ b ++ c) := by
    simp [String.append_assoc]
  ⟨_, hassoc _ _ _ _⟩

theorem tokenPath_start (ext : String) (n : Nat) :
    ∃ rest, tokenPath ext n = "\\\\host\\media\\item-" ++ rest :=
  have hassoc (start a b c : String) : start ++ a ++ b ++ c = start ++ (a ++ b ++ c) := by
    simp [String.append_assoc]
  ⟨_, hassoc _ _ _ _⟩

theorem mediaPath_label_start (n : Nat) (ext : String) :
    ∃ rest, mediaPath (labelText .name n) ext = "\\\\host\\media\\" ++ "Name" ++ rest := by
  have hassoc (start a b c d ext : String) : start ++ (a ++ b ++ c) ++ d ++ ext =
      start ++ a ++ (b ++ c ++ d ++ ext) := by
    simp [String.append_assoc]
  exact ⟨_, hassoc _ _ _ _ _ _⟩

theorem trackPath_ne_mediaPath {artist album title ext name ext' : String} {n : Int} :
    trackPath artist album title n ext ≠ mediaPath name ext' := by
  intro h
  obtain ⟨rest, hrest⟩ := trackPath_start artist album title ext n
  obtain ⟨rest', hrest'⟩ := mediaPath_start name ext'
  rw [hrest, hrest'] at h
  exact absurd (take_eq_of_append (n := 10) (by decide) (by decide) h) (by decide)

theorem trackPath_ne_tokenPath {artist album title ext ext' : String} {n : Int} {m : Nat} :
    trackPath artist album title n ext ≠ tokenPath ext' m := by
  intro h
  obtain ⟨rest, hrest⟩ := trackPath_start artist album title ext n
  obtain ⟨rest', hrest'⟩ := tokenPath_start ext' m
  rw [hrest, hrest'] at h
  exact absurd (take_eq_of_append (n := 10) (by decide) (by decide) h) (by decide)

theorem mediaPath_ne_tokenPath {ext ext' : String} {n m : Nat} :
    mediaPath (labelText .name n) ext ≠ tokenPath ext' m := by
  intro h
  obtain ⟨rest, hrest⟩ := mediaPath_label_start n ext
  obtain ⟨rest', hrest'⟩ := tokenPath_start ext' m
  rw [hrest, hrest'] at h
  exact absurd (take_eq_of_append (n := 15) (by decide) (by decide) h) (by decide)

theorem Known.exists_label {s : Scrubber} (hs : s.Numbered) {c : Category} (hc : c ≠ .path)
    {x t : String} (h : Known s c x t) (hx : x ≠ "") : ∃ n, t = labelText c n := by
  rw [Known, if_neg hx] at h
  obtain ⟨n, -, rfl⟩ := hs.text c x t h
  exact ⟨n, by cases c <;> first | rfl | exact absurd rfl hc⟩

theorem exists_token {s : Scrubber} (hs : s.Numbered) {p t : String}
    (h : s.seen.lookup (.path, p) = some t) : ∃ n, t = tokenPath (extensionOf p) n := by
  obtain ⟨n, -, rfl⟩ := hs.text .path p t h
  exact ⟨n, rfl⟩

/-- **A path tells what it was built from.** -/
theorem PathOf.inj {s : Scrubber} (hs : s.Numbered) {o o' : Origin} {t : String} (ho : o.Proper)
    (ho' : o'.Proper) (h : PathOf s o t) (h' : PathOf s o' t) : o = o' := by
  cases o with
  | track artist album title n ext =>
    obtain ⟨artist₁, album₁, title₁, hartist, halbum, htitle, rfl⟩ := h
    cases o' with
    | track artist' album' title' n' ext' =>
      obtain ⟨artist₂, album₂, title₂, hartist', halbum', htitle', heq⟩ := h'
      obtain ⟨rfl, rfl, rfl, rfl, rfl⟩ := trackPath_inj (hartist.not_mem hs (by decide)).1
        (hartist'.not_mem hs (by decide)).1 (halbum.not_mem hs (by decide)).1
        (halbum'.not_mem hs (by decide)).1 (htitle.not_mem hs (by decide)).2
        (htitle'.not_mem hs (by decide)).2 heq
      rw [hartist.inj hs hartist', halbum.inj hs halbum', htitle.inj hs htitle']
    | media name' ext' =>
      obtain ⟨name₂, hname', heq⟩ := h'
      exact absurd heq trackPath_ne_mediaPath
    | token p' ext' =>
      obtain ⟨m, heq⟩ := exists_token hs h'
      exact absurd heq trackPath_ne_tokenPath
  | media name ext =>
    obtain ⟨name₁, hname, rfl⟩ := h
    cases o' with
    | track artist' album' title' n' ext' =>
      obtain ⟨artist₂, album₂, title₂, hartist', halbum', htitle', heq⟩ := h'
      exact absurd heq.symm trackPath_ne_mediaPath
    | media name' ext' =>
      obtain ⟨name₂, hname', heq⟩ := h'
      obtain ⟨rfl, rfl⟩ := point_inj (hname.not_mem hs (by decide)).2
        (hname'.not_mem hs (by decide)).2 heq
      rw [hname.inj hs hname']
    | token p' ext' =>
      obtain ⟨n, rfl⟩ := hname.exists_label hs (by decide) ho
      obtain ⟨m, heq⟩ := exists_token hs h'
      exact absurd heq mediaPath_ne_tokenPath
  | token p ext =>
    cases o' with
    | track artist' album' title' n' ext' =>
      obtain ⟨artist₂, album₂, title₂, hartist', halbum', htitle', rfl⟩ := h'
      obtain ⟨m, heq⟩ := exists_token hs h
      exact absurd heq trackPath_ne_tokenPath
    | media name' ext' =>
      obtain ⟨name₂, hname', rfl⟩ := h'
      obtain ⟨n, rfl⟩ := hname'.exists_label hs (by decide) ho'
      obtain ⟨m, heq⟩ := exists_token hs h
      exact absurd heq mediaPath_ne_tokenPath
    | token p' ext' =>
      obtain rfl := hs.distinct .path p p' t h h'
      have hext : ext = ext' := Eq.trans ho (Eq.symm ho')
      rw [hext]

end Mbrc.Capture
