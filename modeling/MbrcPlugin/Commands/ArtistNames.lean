import MbrcPlugin.Commands.FieldsV6
import MbrcPlugin.Library.CreditsCodec

/-!
# Editing the artists of a track

A client sends the artists of the playing track as a list of names, which replace the artists and
guests of its credits; the other credits are kept.  Names that are those the track shows leave the
stored value as it is.  Other names are written into the encoding of the credits, and read back as
they were sent unless they have one of its characters in them (`stored_names_decode`).
-/

namespace Mbrc.TagsV6

open Text Credits Providers CommandsV6

/-- A field that is edited as a list of names, by the ids it is written and read through. -/
structure TagField where
  key : String
  field : Int
  read : Int
  deriving DecidableEq

def artist : TagField := { key := "artist", field := 33, read := 33 }

def composer : TagField := { key := "composer", field := 43, read := 89 }

/-- `DISPLAY_ARTIST`. -/
def displayArtist : Int := 32

/-! ## Names -/

/-- `missing_value`. -/
def missingValue : V6Error :=
  { code := .missingField, message := "value is required; send \"\" or [] to clear the field"
    field := some "value" }

/-- `string_list`: trimmed, without the empty ones. -/
def stringList (field : TagField) : Option Value → Except V6Error (List String)
  | none => .error missingValue
  | some (.array items) =>
    match items.mapM Value.asStr with
    | some names => .ok ((names.map trim).filter (· ≠ ""))
    | none => .error (invalid "value" (field.key ++ " takes an array of strings"))
  | some _ => .error (invalid "value" (field.key ++ " takes an array of strings"))

/-- A guest of the credits has the name, without regard to ASCII case. -/
def wasGuest (credits : List Credit) (name : String) : Bool :=
  credits.any fun c => c.role = .guest && asciiLower c.name = asciiLower name

/-- `with_lead_names`. -/
def withLeadNames (credits : List Credit) (names : List String) : List Credit :=
  (((names.map trim).filter (· ≠ "")).map fun name =>
    { name, role := if wasGuest credits name then .guest else .artist }) ++
  credits.filter fun c => !c.role.isLead

/-- `stored_names`: what is written for the names; the host reads the playing track. -/
def storedNames (nowPlayingTags : List Int → Except String (List String)) (field : TagField)
    (value : Option Value) : Except V6Error String := do
  let names ← stringList field value
  let values ← (nowPlayingTags [field.read, displayArtist]).mapError internal
  let raw := values.getD 0 ""
  let display := values.getD 1 ""
  let current := orDisplay raw display
  if leadNames current = names then return raw
  return encode (withLeadNames current names)

/-! ## What is read back -/

/-- The credits that are no lead names. -/
def others (credits : List Credit) : List Credit := credits.filter fun c => !c.role.isLead

/-- A name has no character that the encoding gives a meaning: no NUL, no byte order mark and no
control character in front, but for that of a guest. -/
def Writable (credits : List Credit) (name : String) : Prop :=
  '\x00' ∉ name.toList ∧ '\uFEFF' ∉ name.toList ∧
    ∀ c ∈ name.toList.head?, isControl c = true → wasGuest credits name = true

theorem others_orDisplay (raw display : String) :
    others (orDisplay raw display) = others (parse raw) := by
  unfold orDisplay others
  dsimp only
  split
  · rfl
  · have hlead : Role.artist.isLead = true := rfl
    rw [List.filter_cons_of_neg (by simp [hlead]), List.filter_filter]
    refine List.filter_congr fun c _ => ?_
    cases c.role <;> rfl

theorem sent_trimmed (sent : List String) :
    (((sent.map trim).filter (· ≠ "")).map trim).filter (· ≠ "") =
      (sent.map trim).filter (· ≠ "") := by
  have hmap : ((sent.map trim).filter (· ≠ "")).map trim = (sent.map trim).filter (· ≠ "") := by
    refine (List.map_congr_left fun name hname => ?_).trans (List.map_id _)
    obtain ⟨raw, -, rfl⟩ := List.mem_map.mp (List.mem_of_mem_filter hname)
    exact trim_trim raw
  rw [hmap, List.filter_filter]
  simp

theorem isLead_of_new (credits : List Credit) (name : String) :
    (if wasGuest credits name then Role.guest else Role.artist).isLead = true := by
  split <;> rfl

theorem leadNames_withLeadNames (credits : List Credit) (names : List String) :
    leadNames (withLeadNames credits names) = (names.map trim).filter (· ≠ "") := by
  have hnew : ∀ c ∈ (((names.map trim).filter (· ≠ "")).map fun name =>
      ({ name, role := if wasGuest credits name then .guest else .artist } : Credit)),
      c.role.isLead = true := by
    intro c hc
    obtain ⟨name, -, rfl⟩ := List.mem_map.mp hc
    exact isLead_of_new credits name
  have hold : (credits.filter fun c => !c.role.isLead).filter (·.role.isLead) = [] := by
    rw [List.filter_filter]
    exact List.filter_eq_nil_iff.mpr fun c _ => by simp
  rw [leadNames, withLeadNames, List.filter_append, hold, List.append_nil,
    List.filter_eq_self.mpr hnew, List.map_map]
  exact List.map_id _

theorem others_withLeadNames (credits : List Credit) (names : List String) :
    others (withLeadNames credits names) = others credits := by
  have hnew : (((names.map trim).filter (· ≠ "")).map fun name =>
      ({ name, role := if wasGuest credits name then .guest else .artist } : Credit)).filter
      (fun c => !c.role.isLead) = [] := by
    refine List.filter_eq_nil_iff.mpr fun c hc => ?_
    obtain ⟨name, -, rfl⟩ := List.mem_map.mp hc
    simp [isLead_of_new credits name]
  rw [others, withLeadNames, List.filter_append, hnew, List.nil_append, List.filter_filter]
  exact List.filter_congr fun c _ => by simp

instance (credits : List Credit) (name : String) : Decidable (Writable credits name) :=
  decidable_of_iff ('\x00' ∉ name.toList ∧ '\uFEFF' ∉ name.toList ∧
      (name.toList.head?.all fun c => !isControl c || wasGuest credits name) = true) <| by
    unfold Writable
    cases name.toList.head? with
    | none => simp
    | some c => cases hc : isControl c <;> simp [hc]

/-- **A lead name** without a character of the encoding is read as it is written. -/
theorem lead_written {credits : List Credit} {name : String} (htrim : trim name = name)
    (hne : name ≠ "") (h : Writable credits name) :
    let credit : Credit := { name, role := if wasGuest credits name then .guest else .artist }
    '\x00' ∉ encodeEntry credit ∧ parseEntry (encodeEntry credit) = some credit := by
  intro credit
  have ht : Cleaned name.toList := ⟨by
    rw [← toList_trim, String.ofList_toList, htrim], h.2.1⟩
  have hnil : name.toList ≠ [] := fun hnil => hne (String.toList_eq_nil_iff.mp hnil)
  have hcredit : ∀ role : Role, role ≠ .performer →
      creditOf role name.toList = { name, role } := by
    intro role hrole
    rw [creditOf_of_ne hrole, String.ofList_toList]
  have hentry : ∀ role : Role,
      encodeEntry { name, role } = role.toPrefix.toList ++ name.toList := by
    intro role
    have := @encodeEntry_plain role _ ht
    rwa [String.ofList_toList] at this
  by_cases hguest : wasGuest credits name = true
  · have hc : credit = { name, role := .guest } := by simp [credit, hguest]
    rw [hc]
    refine ⟨?_, ?_⟩
    · rw [hentry]
      simpa [Role.toPrefix] using h.1
    · have := @led_reencodes .guest _ rfl (by decide) _ ht hnil
      rwa [hcredit .guest (by decide)] at this
  · have hc : credit = { name, role := .artist } := by simp [credit, hguest]
    rw [hc]
    refine ⟨?_, ?_⟩
    · rw [hentry]
      simpa [Role.toPrefix] using h.1
    · have hhead : ∀ c ∈ name.toList.head?, isControl c = false := by
        intro c hc
        cases hcontrol : isControl c with
        | false => rfl
        | true => exact absurd (h.2.2 c hc hcontrol) hguest
      have := (artist_reencodes_iff ht hnil).mpr hhead
      rwa [hcredit .artist (by decide)] at this

/-- **A credit that is kept** is read as it is written, unless its detail is empty. -/
theorem other_written {raw : String} {credit : Credit} (hmem : credit ∈ parse raw)
    (hlead : credit.role.isLead = false) (hdetail : credit.detail ≠ some "") :
    '\x00' ∉ encodeEntry credit ∧ parseEntry (encodeEntry credit) = some credit := by
  obtain ⟨entry, hentry, hread⟩ := List.mem_filterMap.mp hmem
  refine ⟨nul_not_mem_encodeEntry (nul_not_mem_of_splitOn hentry) hread, ?_⟩
  obtain ⟨role, rest, t, -, ht, -, hnil, -, rfl⟩ := role_of_parseEntry hread
  cases role with
  | artist => cases hlead
  | guest => cases hlead
  | performer =>
    refine (performer_reencodes_iff ht hnil).mpr fun hempty => hdetail ?_
    obtain ⟨⟨name, detail⟩, hsplit⟩ : ∃ parts, splitDetail (String.ofList t) = parts := ⟨_, rfl⟩
    rw [creditOf_performer hsplit]
    exact (emptyDetail_iff hsplit).mp hempty
  | remixer => exact led_reencodes rfl (by decide) ht hnil

theorem stringList_strings (field : TagField) (sent : List String) :
    stringList field (some (.array (sent.map .string))) =
      .ok ((sent.map trim).filter (· ≠ "")) := by
  have hstrings : (sent.map Value.string).mapM Value.asStr = some sent := by
    induction sent with
    | nil => rfl
    | cons name sent ih =>
      rw [List.map_cons, List.mapM_cons, ih]
      rfl
  rw [stringList, hstrings]

theorem storedNames_eq {nowPlayingTags : List Int → Except String (List String)}
    {field : TagField} {values : List String} (sent : List String)
    (hread : nowPlayingTags [field.read, displayArtist] = .ok values) :
    storedNames nowPlayingTags field (some (.array (sent.map .string))) =
      let current := orDisplay (values.getD 0 "") (values.getD 1 "")
      if leadNames current = (sent.map trim).filter (· ≠ "") then .ok (values.getD 0 "")
      else .ok (encode (withLeadNames current ((sent.map trim).filter (· ≠ "")))) := by
  have hvalues : (nowPlayingTags [field.read, displayArtist]).mapError internal = .ok values := by
    rw [hread]
    rfl
  dsimp only
  split
  · rename_i hshown
    refine Interaction.bind_eq_ok.mpr ⟨_, stringList_strings field sent, ?_⟩
    refine Interaction.bind_eq_ok.mpr ⟨values, hvalues, ?_⟩
    exact if_pos hshown
  · rename_i hnew
    refine Interaction.bind_eq_ok.mpr ⟨_, stringList_strings field sent, ?_⟩
    refine Interaction.bind_eq_ok.mpr ⟨values, hvalues, ?_⟩
    exact if_neg hnew

/-- **The names of an artist field.**  Names that the track shows leave its stored value as it is.
Of others, without a character of the encoding, what is written decodes to exactly these names,
trimmed and in order, and to the credits of the old value that are no lead names, where none of
these has an empty detail. -/
theorem stored_names_decode {nowPlayingTags : List Int → Except String (List String)}
    {field : TagField} {values : List String} (sent : List String)
    (hread : nowPlayingTags [field.read, displayArtist] = .ok values) :
    ∃ written, storedNames nowPlayingTags field (some (.array (sent.map .string))) = .ok written ∧
      let names := (sent.map trim).filter (· ≠ "")
      let raw := values.getD 0 ""
      let current := orDisplay raw (values.getD 1 "")
      (leadNames current = names → written = raw) ∧
      (leadNames current ≠ names → (∀ name ∈ names, Writable current name) →
        (∀ credit ∈ parse raw, credit.detail ≠ some "") →
        leadNames (parse written) = names ∧ others (parse written) = others (parse raw)) := by
  rw [storedNames_eq sent hread]
  dsimp only
  split
  · rename_i hshown
    exact ⟨_, rfl, fun _ => rfl, fun hne => absurd hshown hne⟩
  · rename_i hnew
    refine ⟨_, rfl, fun hshown => absurd hshown hnew, fun _ hwritable hdetails => ?_⟩
    have hwritten : ∀ credit ∈ withLeadNames (orDisplay (values.getD 0 "") (values.getD 1 ""))
        ((sent.map trim).filter (· ≠ "")),
        '\x00' ∉ encodeEntry credit ∧ parseEntry (encodeEntry credit) = some credit := by
      intro credit hcredit
      rcases List.mem_append.mp hcredit with hlead | hother
      · rw [sent_trimmed] at hlead
        obtain ⟨name, hname, rfl⟩ := List.mem_map.mp hlead
        obtain ⟨sentName, -, htrim⟩ := List.mem_map.mp (List.mem_of_mem_filter hname)
        have hne : name ≠ "" := by simpa using (List.mem_filter.mp hname).2
        exact lead_written (by rw [← htrim, trim_trim]) hne (hwritable name hname)
      · have hkept : credit ∈ others (parse (values.getD 0 "")) := by
          rw [← others_orDisplay _ (values.getD 1 "")]
          exact hother
        obtain ⟨hmem, hrole⟩ := List.mem_filter.mp hkept
        exact other_written hmem (by simpa using hrole) (hdetails credit hmem)
    rw [parse_encode_eq_self (fun c hc => (hwritten c hc).1) fun c hc => (hwritten c hc).2]
    refine ⟨?_, ?_⟩
    · rw [leadNames_withLeadNames, sent_trimmed]
    · rw [others_withLeadNames, others_orDisplay]

/-- A guest stays one and the drummer is kept. -/
theorem stored_names_decode_edited :
    ∃ written, storedNames (fun _ => .ok ["A\x00\x01B\x00\x02C (drums)\x00", "A feat. B"]) artist
        (some (.array [.string "A", .string " b", .string "E"])) = .ok written ∧
      leadNames (parse written) = ["A", "b", "E"] ∧
      others (parse written) = [{ name := "C", role := .performer, detail := some "drums" }] := by
  obtain ⟨written, hstored, -, hdecoded⟩ := @stored_names_decode
    (fun _ => .ok ["A\x00\x01B\x00\x02C (drums)\x00", "A feat. B"]) artist
    ["A\x00\x01B\x00\x02C (drums)\x00", "A feat. B"] ["A", " b", "E"] rfl
  obtain ⟨hleads, hothers⟩ := hdecoded (by decide +kernel) (by decide +kernel) (by decide +kernel)
  refine ⟨written, hstored, hleads.trans (by decide +kernel), hothers.trans (by decide +kernel)⟩

/-- A track that is stored with one artist and shows two: sent back, what it shows is not written,
and what is stored decodes to the one. -/
theorem stored_names_unchanged :
    storedNames (fun _ => .ok ["A\x00", "A & B"]) artist (some (.array [.string "A & B"])) =
        .ok "A\x00" ∧
      leadNames (parse "A\x00") ≠ ["A & B"] := by
  refine ⟨?_, by decide +kernel⟩
  have hshown : leadNames (orDisplay "A\x00" "A & B") = (["A & B"].map trim).filter (· ≠ "") := by
    decide +kernel
  exact (@storedNames_eq _ artist ["A\x00", "A & B"] ["A & B"] rfl).trans
    (if_pos hshown)

end Mbrc.TagsV6
