import MbrcPlugin.Lib.TextLines
import MbrcPlugin.Library.TrackFilter

/-!
# Writing credits back

`encode` writes what `parse` reads, each credit led by its role and ended by a NUL.  It is read back
as it was except for two kinds of entries: an artist whose name begins with a control character once
it is cleaned, which is read as a role, and a performer with an empty detail, which is not written
(`parse_encode_parse_iff`).
-/

namespace Mbrc.Credits

open Text

/-! ## Writing -/

/-- The control character an entry of the role begins with. -/
def Role.toPrefix : Role → Option Char
  | artist => none
  | guest => some '\x01'
  | performer => some '\x02'
  | remixer => some '\x04'

def encodeEntry (credit : Credit) : List Char :=
  credit.role.toPrefix.toList ++ (trim credit.name).toList ++
    match credit.detail.filter (· ≠ "") with
    | none => []
    | some detail => ' ' :: '(' :: (detail.toList ++ [')'])

/-- `encode`. -/
def encode (credits : List Credit) : String :=
  String.ofList (credits.flatMap fun credit => encodeEntry credit ++ ['\x00'])

/-! ## Entries -/

theorem parse_encode (credits : List Credit) :
    parse (encode credits) =
      credits.flatMap fun credit => ((encodeEntry credit).splitOn '\x00').filterMap parseEntry := by
  rw [parse, encode, String.toList_ofList]
  induction credits with
  | nil => rfl
  | cons credit credits ih =>
    rw [List.flatMap_cons, List.append_assoc, List.singleton_append, List.splitOn_append_cons_self,
      List.filterMap_append, ih, List.flatMap_cons]

/-- Without byte order marks or space around it. -/
def Cleaned (t : List Char) : Prop := trimChars t = t ∧ '\uFEFF' ∉ t

theorem trimChars_trimChars (s : List Char) : trimChars (trimChars s) = trimChars s := by
  have h := congrArg String.toList (trim_trim (String.ofList s))
  simpa only [trim_eq, String.toList_ofList] using h

theorem trimChars_sublist (s : List Char) : List.Sublist (trimChars s) s := by
  have hstart : List.Sublist (trimStart s) s := List.dropWhile_sublist _
  have hend : List.Sublist (trimStart (trimStart s).reverse) (trimStart s).reverse :=
    List.dropWhile_sublist _
  exact (List.reverse_sublist.mpr hend).trans (by simpa using hstart)

theorem exists_cleaned (s : List Char) :
    ∃ t, Cleaned t ∧ clean s = String.ofList t ∧ List.Sublist t s := by
  refine ⟨trimChars (s.filter (· ≠ '\uFEFF')), ⟨trimChars_trimChars _, fun hmem => ?_⟩, ?_,
    (trimChars_sublist _).trans List.filter_sublist⟩
  · have := (trimChars_sublist _).subset hmem
    simp at this
  · rw [clean, trim_eq, String.toList_ofList]

theorem clean_of_cleaned {t : List Char} (h : Cleaned t) : clean t = String.ofList t := by
  have hfilter : t.filter (· ≠ '\uFEFF') = t :=
    List.filter_eq_self.mpr fun c hc => decide_eq_true fun heq => h.2 (heq ▸ hc)
  rw [clean, hfilter, trim_eq, String.toList_ofList, h.1]

/-! ## Details -/

theorem rsplitOnce_eq_none {s : List Char} :
    rsplitOnce [' ', '('] s = none ↔ ¬[' ', '('] <:+: s := by
  induction s with
  | nil => simp [rsplitOnce]
  | cons c rest ih =>
    rw [rsplitOnce, List.infix_cons_iff, not_or, ← ih]
    cases hrest : rsplitOnce [' ', '('] rest with
    | some parts => simp
    | none =>
      by_cases hstart : [' ', '('] <+: c :: rest
      · simp [List.isPrefixOf_iff_prefix.mpr hstart, hstart]
      · simp [List.isPrefixOf_iff_prefix, hstart]

/-- The last opening bracket with a space before it. -/
theorem rsplitOnce_eq_some {s before after : List Char} :
    rsplitOnce [' ', '('] s = some (before, after) ↔
      s = before ++ ' ' :: '(' :: after ∧ ¬[' ', '('] <:+: after := by
  induction s generalizing before after with
  | nil => simp [rsplitOnce]
  | cons c rest ih =>
    rw [rsplitOnce]
    cases hrest : rsplitOnce [' ', '('] rest with
    | none =>
      have hnot := rsplitOnce_eq_none.mp hrest
      dsimp only
      constructor
      · intro h
        split at h
        · rename_i hstart
          obtain ⟨after', hafter⟩ := List.isPrefixOf_iff_prefix.mp hstart
          obtain ⟨rfl, rfl⟩ := Prod.mk.inj (Option.some.inj h)
          rw [← hafter]
          refine ⟨rfl, fun hin => hnot ?_⟩
          obtain ⟨rfl, rfl⟩ := List.cons.inj hafter
          exact hin.trans (List.suffix_cons '(' after').isInfix
        · cases h
      · rintro ⟨hs, -⟩
        cases before with
        | nil =>
          rw [List.nil_append] at hs
          rw [hs]
          rfl
        | cons d before =>
          obtain ⟨-, rfl⟩ := List.cons.inj hs
          exact absurd ⟨before, after, by simp⟩ hnot
    | some parts =>
      obtain ⟨before', after'⟩ := parts
      obtain ⟨hparts, hnot'⟩ := ih.mp hrest
      constructor
      · intro h
        obtain ⟨rfl, rfl⟩ := Prod.mk.inj (Option.some.inj h)
        exact ⟨congrArg (c :: ·) hparts, hnot'⟩
      · rintro ⟨hs, hnot⟩
        cases before with
        | nil =>
          -- the bracket that is split at would have to stand behind the last one
          obtain ⟨rfl, rfl⟩ := List.cons.inj hs
          refine absurd ?_ hnot
          cases before' with
          | nil => cases hparts
          | cons d before' =>
            obtain ⟨-, rfl⟩ := List.cons.inj hparts
            exact ⟨before', after', by simp⟩
        | cons d before =>
          obtain ⟨rfl, htail⟩ := List.cons.inj hs
          have := ih.mpr ⟨htail, hnot⟩
          rw [hrest] at this
          obtain ⟨rfl, rfl⟩ := Prod.mk.inj (Option.some.inj this)
          rfl

theorem toList_trim (s : List Char) : (trim (String.ofList s)).toList = trimChars s := by
  rw [trim_eq, String.toList_ofList, String.toList_ofList]

theorem trim_eq_empty {s : List Char} : trim (String.ofList s) = "" ↔ trimChars s = [] := by
  rw [← String.toList_inj, toList_trim]
  rfl

theorem splitDetail_bracket (s : List Char) :
    splitDetail (String.ofList (s ++ [')'])) =
      match rsplitOnce [' ', '('] s with
      | some (name, detail) =>
        if trim (String.ofList name) = "" then (String.ofList (s ++ [')']), none)
        else (trim (String.ofList name), some (trim (String.ofList detail)))
      | none => (String.ofList (s ++ [')']), none) := by
  simp only [splitDetail, String.toList_ofList, List.reverse_append, List.reverse_singleton,
    List.singleton_append, List.reverse_reverse]
  all_goals rfl

theorem splitDetail_no_bracket {t : List Char} (h : ∀ s, t ≠ s ++ [')']) :
    splitDetail (String.ofList t) = (String.ofList t, none) := by
  unfold splitDetail
  split
  · rename_i before hrev
    rw [String.toList_ofList] at hrev
    refine absurd ?_ (h before.reverse)
    rw [← List.reverse_reverse t, hrev, List.reverse_cons]
  · rfl

/-- An entry with a name before the bracket at its end. -/
theorem splitDetail_eq_some {t : List Char} {name : String} {detail : String} :
    splitDetail (String.ofList t) = (name, some detail) ↔
      ∃ before after, t = before ++ ' ' :: '(' :: (after ++ [')']) ∧ ¬[' ', '('] <:+: after ∧
        trimChars before ≠ [] ∧ name = String.ofList (trimChars before) ∧
        detail = String.ofList (trimChars after) := by
  constructor
  · intro h
    by_cases hbracket : ∃ s, t = s ++ [')']
    · obtain ⟨s, rfl⟩ := hbracket
      rw [splitDetail_bracket] at h
      split at h
      · rename_i before after hsplit
        split at h
        · cases h
        · rename_i hname
          obtain ⟨rfl, hdetail⟩ := Prod.mk.inj h
          obtain rfl := Option.some.inj hdetail
          obtain ⟨rfl, hnot⟩ := rsplitOnce_eq_some.mp hsplit
          refine ⟨before, after, by simp, hnot, fun hnil => hname (trim_eq_empty.mpr hnil), ?_, ?_⟩
          · rw [trim_eq, String.toList_ofList]
          · rw [trim_eq, String.toList_ofList]
      · cases h
    · rw [splitDetail_no_bracket fun s hs => hbracket ⟨s, hs⟩] at h
      cases h
  · rintro ⟨before, after, rfl, hnot, hname, rfl, rfl⟩
    have hsplit := (rsplitOnce_eq_some (s := before ++ ' ' :: '(' :: after)).mpr ⟨rfl, hnot⟩
    have hshape : before ++ ' ' :: '(' :: (after ++ [')']) =
        (before ++ ' ' :: '(' :: after) ++ [')'] := by simp
    rw [hshape, splitDetail_bracket, hsplit]
    dsimp only
    rw [if_neg fun hempty => hname (trim_eq_empty.mp hempty), trim_eq, trim_eq,
      String.toList_ofList, String.toList_ofList]

/-- What is all name. -/
theorem splitDetail_eq_none {t : List Char} {name : String}
    (h : splitDetail (String.ofList t) = (name, none)) : name = String.ofList t := by
  by_cases hbracket : ∃ s, t = s ++ [')']
  · obtain ⟨s, rfl⟩ := hbracket
    rw [splitDetail_bracket] at h
    split at h
    · split at h
      · exact (Prod.mk.inj h).1.symm
      · cases h
    · exact (Prod.mk.inj h).1.symm
  · rw [splitDetail_no_bracket fun s hs => hbracket ⟨s, hs⟩] at h
    exact (Prod.mk.inj h).1.symm

/-! ## Reading an entry -/

/-- The credit of a cleaned entry. -/
def creditOf (role : Role) (t : List Char) : Credit :=
  let (name, detail) :=
    if role = .performer then splitDetail (String.ofList t) else (String.ofList t, none)
  { name, role, detail }

theorem creditOf_of_ne {role : Role} (h : role ≠ .performer) (t : List Char) :
    creditOf role t = { name := String.ofList t, role } := by
  rw [creditOf, if_neg h]

theorem parseEntry_of_role {entry rest t : List Char} {role : Role}
    (hrole : entryRole entry = some (role, rest)) (hclean : clean rest = String.ofList t)
    (hne : t ≠ []) : parseEntry entry = some (creditOf role t) := by
  have hne' : String.ofList t ≠ "" := fun h => hne (by simpa using congrArg String.toList h)
  rw [parseEntry, hrole, Option.bind_some]
  dsimp only
  rw [hclean, if_neg hne']
  rfl

theorem entryRole_sublist {entry rest : List Char} {role : Role}
    (h : entryRole entry = some (role, rest)) : List.Sublist rest entry := by
  cases entry with
  | nil => cases h
  | cons c entry =>
    rw [entryRole] at h
    split at h
    · obtain ⟨role', -, hpair⟩ := Option.map_eq_some_iff.mp h
      obtain ⟨-, rfl⟩ := Prod.mk.inj hpair
      exact List.sublist_cons_self _ _
    · obtain ⟨-, rfl⟩ := Prod.mk.inj (Option.some.inj h)
      exact List.Sublist.refl _

theorem role_of_parseEntry {entry : List Char} {credit : Credit}
    (h : parseEntry entry = some credit) :
    ∃ role rest t, entryRole entry = some (role, rest) ∧ Cleaned t ∧
      clean rest = String.ofList t ∧ t ≠ [] ∧ List.Sublist t entry ∧
      credit = creditOf role t := by
  rw [parseEntry] at h
  obtain ⟨⟨role, rest⟩, hrole, h⟩ := Option.bind_eq_some_iff.mp h
  obtain ⟨t, ht, hclean, hsub⟩ := exists_cleaned rest
  dsimp only at h
  rw [hclean] at h
  split at h
  · cases h
  · rename_i hne
    refine ⟨role, rest, t, hrole, ht, hclean, ?_, hsub.trans (entryRole_sublist hrole),
      (Option.some.inj h).symm⟩
    rintro rfl
    exact hne rfl

/-- A name and a bracket with only space in it. -/
def EmptyDetail (t : List Char) : Prop :=
  ∃ before space, t = before ++ ' ' :: '(' :: (space ++ [')']) ∧ trimChars before ≠ [] ∧
    ∀ c ∈ space, isWhiteSpace c = true

/-- An entry is written as it was read: the name of an artist does not begin with a control
character, and the detail of a performer is not empty. -/
def Reencodes (entry : List Char) : Prop :=
  match entryRole entry with
  | some (.artist, rest) => ∀ c ∈ (clean rest).toList.head?, isControl c = false
  | some (.performer, rest) => ¬EmptyDetail (clean rest).toList
  | _ => True

theorem trimChars_eq_nil {s : List Char} :
    trimChars s = [] ↔ ∀ c ∈ s, isWhiteSpace c = true := by
  constructor
  · intro h c hc
    cases hspace : isWhiteSpace c with
    | true => rfl
    | false =>
      have := mem_trimChars hspace hc
      rw [h] at this
      cases this
  · intro h
    have hstart : trimStart s = [] := List.dropWhile_eq_nil_iff.mpr h
    rw [trimChars, hstart]
    rfl

theorem emptyDetail_iff {t : List Char} {name : String} {detail : Option String}
    (h : splitDetail (String.ofList t) = (name, detail)) : EmptyDetail t ↔ detail = some "" := by
  constructor
  · rintro ⟨before, space, ht, hname, hspace⟩
    have hnot : ¬[' ', '('] <:+: space := fun hin => by
      have := hspace '(' (hin.subset (by simp))
      exact absurd this (by decide)
    have hsplit := splitDetail_eq_some.mpr ⟨before, space, ht, hnot, hname, rfl, rfl⟩
    rw [h, trimChars_eq_nil.mpr hspace] at hsplit
    exact (Prod.mk.inj hsplit).2
  · rintro rfl
    obtain ⟨before, after, ht, -, hname, -, hdetail⟩ := splitDetail_eq_some.mp h
    have hblank : trimChars after = [] := by
      simpa using (congrArg String.toList hdetail).symm
    exact ⟨before, after, ht, hname, trimChars_eq_nil.mp hblank⟩

/-! ## Writing an entry -/

theorem creditOf_role (role : Role) (t : List Char) : (creditOf role t).role = role := rfl

theorem head_of_trimmed {t : List Char} (h : trimChars t = t) {c : Char} (hc : c ∈ t.head?) :
    isWhiteSpace c = false := by
  obtain ⟨rest, rfl⟩ := List.head?_eq_some_iff.mp hc
  cases hspace : isWhiteSpace c with
  | false => rfl
  | true =>
    rw [trimChars_cons hspace] at h
    have hlength := congrArg List.length h
    have hle := (trimChars_sublist rest).length_le
    rw [List.length_cons] at hlength
    omega

theorem trimChars_of_ends {c d : Char} {s : List Char} (hc : isWhiteSpace c = false)
    (hd : isWhiteSpace d = false) : trimChars (c :: (s ++ [d])) = c :: (s ++ [d]) := by
  have hstart : trimStart (c :: (s ++ [d])) = c :: (s ++ [d]) :=
    List.dropWhile_cons_of_neg (by simp [hc])
  have hrev : (c :: (s ++ [d])).reverse = d :: (c :: s).reverse := by simp
  have hend : trimStart (d :: (c :: s).reverse) = d :: (c :: s).reverse :=
    List.dropWhile_cons_of_neg (by simp [hd])
  rw [trimChars, hstart, hrev, hend, ← hrev, List.reverse_reverse]

theorem trimChars_infix (s : List Char) : trimChars s <:+: s := by
  obtain ⟨front, back, -, -, hs⟩ := exists_trimChars s
  exact ⟨front, back, hs.symm⟩

theorem encodeEntry_plain {role : Role} {t : List Char} (ht : Cleaned t) :
    encodeEntry { name := String.ofList t, role } = role.toPrefix.toList ++ t := by
  rw [encodeEntry, toList_trim, ht.1]
  exact List.append_nil _

theorem artist_reencodes_iff {t : List Char} (ht : Cleaned t) (hne : t ≠ []) :
    parseEntry (encodeEntry (creditOf .artist t)) = some (creditOf .artist t) ↔
      ∀ c ∈ t.head?, isControl c = false := by
  rw [creditOf_of_ne (by decide) t, encodeEntry_plain ht]
  change parseEntry t = _ ↔ _
  cases t with
  | nil => exact absurd rfl hne
  | cons c rest =>
    simp only [List.head?_cons, Option.mem_some_iff, forall_eq']
    cases hcontrol : isControl c with
    | false =>
      refine iff_of_true ?_ rfl
      have hrole : entryRole (c :: rest) = some (.artist, c :: rest) := by
        rw [entryRole, hcontrol]
        rfl
      rw [parseEntry_of_role hrole (clean_of_cleaned ht) hne, creditOf_of_ne (by decide)]
    | true =>
      refine iff_of_false (fun h => ?_) (by simp)
      obtain ⟨role, rest', t', hrole, -, -, -, -, hcredit⟩ := role_of_parseEntry h
      obtain rfl : Role.artist = role := congrArg Credit.role hcredit
      rw [entryRole, hcontrol, if_pos rfl] at hrole
      obtain ⟨role, hprefix, hpair⟩ := Option.map_eq_some_iff.mp hrole
      obtain ⟨rfl, -⟩ := Prod.mk.inj hpair
      unfold Role.fromPrefix at hprefix
      split_ifs at hprefix <;> cases hprefix

theorem led_reencodes {role : Role} {c : Char} (hsign : role.toPrefix = some c)
    (hne : role ≠ .performer) {t : List Char} (ht : Cleaned t) (hnil : t ≠ []) :
    parseEntry (encodeEntry (creditOf role t)) = some (creditOf role t) := by
  have hrole : entryRole (c :: t) = some (role, t) := by
    cases role with
    | artist => cases hsign
    | guest =>
      obtain rfl := Option.some.inj hsign
      rfl
    | performer => exact absurd rfl hne
    | remixer =>
      obtain rfl := Option.some.inj hsign
      rfl
  have hentry : encodeEntry (creditOf role t) = c :: t := by
    rw [creditOf_of_ne hne, encodeEntry_plain ht, hsign]
    rfl
  rw [hentry, parseEntry_of_role hrole (clean_of_cleaned ht) hnil]

theorem parseEntry_performer {t : List Char} (ht : Cleaned t) (hnil : t ≠ []) :
    parseEntry ('\x02' :: t) = some (creditOf .performer t) :=
  @parseEntry_of_role ('\x02' :: t) t t .performer rfl (clean_of_cleaned ht) hnil

theorem creditOf_performer {t : List Char} {name : String} {detail : Option String}
    (h : splitDetail (String.ofList t) = (name, detail)) :
    creditOf .performer t = { name, role := .performer, detail } := by
  rw [creditOf, if_pos rfl, h]

theorem ofList_ne_empty {t : List Char} (h : t ≠ []) : String.ofList t ≠ "" :=
  fun hempty => h (by simpa using congrArg String.toList hempty)

/-- A name is not read as itself with an empty detail. -/
theorem not_empty_detail (t : List Char) :
    splitDetail (String.ofList t) ≠ (String.ofList t, some "") := by
  intro hsplit
  obtain ⟨before, after, hshape, -, -, hname, -⟩ := splitDetail_eq_some.mp hsplit
  have hsame : t = trimChars before := by simpa using congrArg String.toList hname
  have hlength := congrArg List.length hshape
  have hle := (trimChars_sublist before).length_le
  rw [hsame, List.length_append, List.length_cons] at hlength
  omega

/-- A name with a detail that is not empty is read as such. -/
theorem performer_with_detail {name detail : List Char} (hname : Cleaned name) (hnil : name ≠ [])
    (hdetail : Cleaned detail) (hnot : ¬[' ', '('] <:+: detail) :
    parseEntry ('\x02' :: (name ++ ' ' :: '(' :: (detail ++ [')']))) =
      some { name := String.ofList name, role := .performer
             detail := some (String.ofList detail) } := by
  have hcleaned : Cleaned (name ++ ' ' :: '(' :: (detail ++ [')'])) := by
    constructor
    · obtain ⟨c, rest, rfl⟩ := List.exists_cons_of_ne_nil hnil
      have hc : isWhiteSpace c = false := head_of_trimmed hname.1 rfl
      have hends : c :: rest ++ ' ' :: '(' :: (detail ++ [')']) =
          c :: ((rest ++ ' ' :: '(' :: detail) ++ [')']) := by simp
      rw [hends, trimChars_of_ends hc (by decide)]
    · intro hmem
      simp [hname.2, hdetail.2] at hmem
  have hsplit : splitDetail (String.ofList (name ++ ' ' :: '(' :: (detail ++ [')']))) =
      (String.ofList name, some (String.ofList detail)) :=
    splitDetail_eq_some.mpr
      ⟨name, detail, rfl, hnot, by rwa [hname.1], by rw [hname.1], by rw [hdetail.1]⟩
  rw [parseEntry_performer hcleaned (by simp), creditOf_performer hsplit]

theorem performer_reencodes_iff {t : List Char} (ht : Cleaned t) (hnil : t ≠ []) :
    parseEntry (encodeEntry (creditOf .performer t)) = some (creditOf .performer t) ↔
      ¬EmptyDetail t := by
  obtain ⟨⟨name, detail⟩, hsplit⟩ : ∃ parts, splitDetail (String.ofList t) = parts := ⟨_, rfl⟩
  have hcredit := creditOf_performer hsplit
  rw [emptyDetail_iff hsplit]
  cases detail with
  | none =>
    refine iff_of_true ?_ (by simp)
    obtain rfl := splitDetail_eq_none hsplit
    have hentry : encodeEntry (creditOf .performer t) = '\x02' :: t := by
      rw [hcredit, encodeEntry_plain ht]
      rfl
    rw [hentry, parseEntry_performer ht hnil]
  | some detail =>
    obtain ⟨before, after, hshape, hnot, hname, rfl, rfl⟩ := splitDetail_eq_some.mp hsplit
    have hkept : ∀ s, List.Sublist s t → Cleaned (trimChars s) := fun s hs =>
      ⟨trimChars_trimChars s, fun hmem => ht.2 (((trimChars_sublist s).trans hs).subset hmem)⟩
    have hbefore : Cleaned (trimChars before) := hkept _ (hshape ▸ List.sublist_append_left _ _)
    have hafter : Cleaned (trimChars after) := by
      refine hkept _ (hshape ▸ ?_)
      exact ((List.sublist_append_left _ _).cons _ |>.cons _).trans (List.sublist_append_right _ _)
    by_cases hempty : trimChars after = []
    · refine iff_of_false (fun h => ?_) (by rw [hempty]; simp)
      -- the bracket is not written, and the name alone has no empty one
      have hentry : encodeEntry (creditOf .performer t) = '\x02' :: trimChars before := by
        rw [hcredit, hempty, encodeEntry, toList_trim, hbefore.1]
        exact List.append_nil _
      rw [hentry, parseEntry_performer hbefore hname, hcredit, hempty] at h
      have hcredits := Option.some.inj h
      refine not_empty_detail (trimChars before) (Prod.ext ?_ ?_)
      · have hsame := congrArg Credit.name hcredits
        rwa [creditOf, if_pos rfl] at hsame
      · have hsame := congrArg Credit.detail hcredits
        rwa [creditOf, if_pos rfl] at hsame
    · have hne := ofList_ne_empty hempty
      refine iff_of_true ?_ (fun h => hne (Option.some.inj h))
      have hentry : encodeEntry (creditOf .performer t) = '\x02' :: (trimChars before ++
          ' ' :: '(' :: (trimChars after ++ [')'])) := by
        rw [hcredit, encodeEntry, toList_trim, hbefore.1, Option.filter_some,
          if_pos (decide_eq_true hne)]
        simp only [String.toList_ofList]
        rfl
      rw [hentry, hcredit]
      have htrimmed := trimChars_infix after
      exact performer_with_detail hbefore hname hafter fun hin => hnot (hin.trans htrimmed)

/-- **An entry that is read** is written as it was, or not, by its own text. -/
theorem parseEntry_encodeEntry_iff {entry : List Char} {credit : Credit}
    (h : parseEntry entry = some credit) :
    parseEntry (encodeEntry credit) = some credit ↔ Reencodes entry := by
  obtain ⟨role, rest, t, hrole, ht, hclean, hnil, -, rfl⟩ := role_of_parseEntry h
  rw [Reencodes, hrole]
  cases role with
  | artist =>
    simp only [hclean, String.toList_ofList]
    exact artist_reencodes_iff ht hnil
  | guest => exact iff_of_true (led_reencodes rfl (by decide) ht hnil) trivial
  | performer =>
    simp only [hclean, String.toList_ofList]
    exact performer_reencodes_iff ht hnil
  | remixer => exact iff_of_true (led_reencodes rfl (by decide) ht hnil) trivial

/-- An entry that is not read has nothing to write. -/
theorem reencodes_of_none {entry : List Char} (h : parseEntry entry = none) : Reencodes entry := by
  unfold Reencodes
  split
  · rename_i rest hrole
    obtain ⟨t, -, hclean, -⟩ := exists_cleaned rest
    by_cases hnil : t = []
    · rw [hclean, hnil]
      exact fun c hc => by simp at hc
    · rw [parseEntry_of_role hrole hclean hnil] at h
      cases h
  · rename_i rest hrole
    obtain ⟨t, -, hclean, -⟩ := exists_cleaned rest
    by_cases hnil : t = []
    · rintro ⟨before, space, hshape, -, -⟩
      rw [hclean, hnil] at hshape
      simp at hshape
    · rw [parseEntry_of_role hrole hclean hnil] at h
      cases h
  · trivial

/-! ## All entries -/

theorem nul_not_mem_of_splitOn {s entry : List Char} (h : entry ∈ s.splitOn '\x00') :
    '\x00' ∉ entry := by
  rw [List.splitOn_eq_splitOnP] at h
  intro hmem
  have := not_of_mem_splitOnP h _ hmem
  simp at this

theorem splitDetail_sublist {t : List Char} {name : String} {detail : Option String}
    (h : splitDetail (String.ofList t) = (name, detail)) :
    List.Sublist name.toList t ∧ ∀ d ∈ detail, List.Sublist d.toList t := by
  cases detail with
  | none =>
    obtain rfl := splitDetail_eq_none h
    rw [String.toList_ofList]
    exact ⟨List.Sublist.refl _, by simp⟩
  | some detail =>
    obtain ⟨before, after, rfl, -, -, rfl, rfl⟩ := splitDetail_eq_some.mp h
    rw [String.toList_ofList]
    refine ⟨(trimChars_sublist before).trans (List.sublist_append_left _ _), fun d hd => ?_⟩
    obtain rfl := Option.some.inj hd
    rw [String.toList_ofList]
    refine (trimChars_sublist after).trans (List.Sublist.trans ?_ (List.sublist_append_right _ _))
    exact ((List.sublist_append_left _ _).cons _).cons _

/-- What is written has a character of the entry, a space, a bracket or the mark of a role. -/
theorem nul_not_mem_encodeEntry {entry : List Char} {credit : Credit} (hentry : '\x00' ∉ entry)
    (h : parseEntry entry = some credit) : '\x00' ∉ encodeEntry credit := by
  obtain ⟨role, rest, t, -, ht, -, -, hsub, rfl⟩ := role_of_parseEntry h
  have hnul : ∀ s, List.Sublist s t → '\x00' ∉ s := fun s hs hmem =>
    hentry (hsub.subset (hs.subset hmem))
  obtain ⟨⟨name, detail⟩, hsplit⟩ : ∃ parts, splitDetail (String.ofList t) = parts := ⟨_, rfl⟩
  obtain ⟨hname, hdetail⟩ := splitDetail_sublist hsplit
  have hmark : '\x00' ∉ role.toPrefix.toList := by cases role <;> decide
  by_cases hrole : role = .performer
  · subst hrole
    have htrim : (trim name).toList = trimChars name.toList := by
      rw [trim_eq, String.toList_ofList]
    rw [creditOf_performer hsplit, encodeEntry, htrim, List.append_assoc, List.mem_append,
      List.mem_append]
    rintro (hmem | hmem | hmem)
    · exact hmark hmem
    · exact hnul _ ((trimChars_sublist _).trans hname) hmem
    · cases detail with
      | none => cases hmem
      | some d =>
        by_cases hempty : d = ""
        · rw [hempty] at hmem
          cases hmem
        · rw [Option.filter_some, if_pos (decide_eq_true hempty)] at hmem
          have hd : '\x00' ∉ d.toList := hnul _ (hdetail d rfl)
          simp [hd] at hmem
  · rw [creditOf_of_ne hrole, encodeEntry_plain ht, List.mem_append]
    rintro (hmem | hmem)
    · exact hmark hmem
    · exact hnul t (List.Sublist.refl _) hmem

theorem filterMap_eq_self_iff {α : Type} {f : α → Option α} {l : List α} :
    l.filterMap f = l ↔ ∀ a ∈ l, f a = some a := by
  induction l with
  | nil => simp
  | cons a l ih =>
    rw [List.forall_mem_cons, ← ih]
    cases ha : f a with
    | none =>
      rw [List.filterMap_cons_none ha]
      refine iff_of_false (fun h => ?_) (fun h => by cases h.1)
      have hlength := congrArg List.length h
      have hle := List.length_filterMap_le f l
      rw [List.length_cons] at hlength
      omega
    | some b =>
      rw [List.filterMap_cons_some ha]
      simp

/-- Entries without a NUL are read one by one. -/
theorem parse_encode_of_nul_free {credits : List Credit}
    (h : ∀ credit ∈ credits, '\x00' ∉ encodeEntry credit) :
    parse (encode credits) = credits.filterMap fun credit => parseEntry (encodeEntry credit) := by
  rw [parse_encode, List.filterMap_eq_flatMap_toList]
  refine List.flatMap_congr fun credit hcredit => ?_
  rw [List.splitOn_eq_singleton (h credit hcredit)]
  cases hagain : parseEntry (encodeEntry credit) <;> simp [hagain]

/-- Credits that are each read as they are written are read back. -/
theorem parse_encode_eq_self {credits : List Credit}
    (hnul : ∀ credit ∈ credits, '\x00' ∉ encodeEntry credit)
    (h : ∀ credit ∈ credits, parseEntry (encodeEntry credit) = some credit) :
    parse (encode credits) = credits := by
  rw [parse_encode_of_nul_free hnul, filterMap_eq_self_iff]
  exact h

/-- **Reading what was written** of what was read gives the same credits exactly if every entry is
written as it was read: no artist's name begins with a control character once it is cleaned, and no
performer has an empty detail. -/
theorem parse_encode_parse_iff (raw : String) :
    parse (encode (parse raw)) = parse raw ↔
      ∀ entry ∈ raw.toList.splitOn '\x00', Reencodes entry := by
  have hentries : ∀ credit ∈ parse raw, ∃ entry ∈ raw.toList.splitOn '\x00',
      parseEntry entry = some credit := fun credit h => List.mem_filterMap.mp h
  have hwritten := @parse_encode_of_nul_free (parse raw) fun credit hcredit => by
    obtain ⟨entry, hentry, hread⟩ := hentries credit hcredit
    exact nul_not_mem_encodeEntry (nul_not_mem_of_splitOn hentry) hread
  rw [hwritten, filterMap_eq_self_iff]
  constructor
  · intro h entry hentry
    cases hread : parseEntry entry with
    | none => exact reencodes_of_none hread
    | some credit =>
      exact (parseEntry_encodeEntry_iff hread).mp
        (h credit (List.mem_filterMap.mpr ⟨entry, hentry, hread⟩))
  · intro h credit hcredit
    obtain ⟨entry, hentry, hread⟩ := hentries credit hcredit
    exact (parseEntry_encodeEntry_iff hread).mpr (h entry hentry)

/-- An artist behind a space and a control character becomes a guest, and an empty bracket is
lost. -/
theorem parse_encode_parse_differs :
    parse (encode (parse " \x01Gadiel\x00")) ≠ parse " \x01Gadiel\x00" ∧
      parse (encode (parse "\x02Tommy ()\x00")) ≠ parse "\x02Tommy ()\x00" := by
  decide +kernel

end Mbrc.Credits
