import MbrcPlugin.Permissions.Requests

/-!
# The V4 handlers are covered

Each handler parses the data as the map does: where the map reads a query the handler sets nothing,
and the paths it queues are the ones the map counted.
-/

namespace Mbrc.Permissions.V4

open Interaction Providers

variable (data : Value) (ctx : Commands.Ctx)

/-! ## Handler by handler -/

theorem covered_ack {capability : Capability} {c : Command} (context : String)
    (hcap : capability = capabilityOf c) (hfree : tracksQueued c = 0) :
    Covered (.change capability) (Commands.ack c context) := by
  apply Covered.of_needs
  simp [Commands.ack, hcap, hfree]

theorem covered_volume :
    Covered (setIf (asIntLenient data).isSome .volume) (Commands.volume data) := by
  apply Covered.of_needs
  unfold Commands.volume
  cases asIntLenient data with
  | some v => simp [setIf, capabilityOf, tracksQueued]
  | none => simp

theorem covered_setSwitch {capability : Capability} (current : PlayerState → Bool)
    {set : Bool → Command} (context : String) (hcap : ∀ b, capability = capabilityOf (set b))
    (hfree : ∀ b, tracksQueued (set b) = 0) :
    Covered (setIf (data.asStr = some "toggle" || (asBoolLenient data).isSome) capability)
      (Commands.setSwitch current set context data) := by
  apply Covered.of_needs
  unfold Commands.setSwitch
  split
  · rename_i htoggle
    simp [htoggle, setIf, hfree, ← hcap]
  · cases asBoolLenient data with
    | some b => simp [setIf, hfree, ← hcap]
    | none => simp

theorem covered_mute :
    Covered (setIf (data.asStr = some "toggle" || (asBoolLenient data).isSome) .volume)
      (Commands.mute data) :=
  covered_setSwitch data PlayerState.mute "playermute" (fun _ => rfl) fun _ => rfl

theorem covered_scrobble :
    Covered (setIf (data.asStr = some "toggle" || (asBoolLenient data).isSome) .modes)
      (Commands.scrobble data) :=
  covered_setSwitch data PlayerState.scrobble "scrobbler" (fun _ => rfl) fun _ => rfl

theorem covered_shuffle :
    Covered (setIf (data.asStr.any (· ∈ ["toggle", "autodj", "shuffle", "off"])) .modes)
      (Commands.shuffle data) := by
  apply Covered.of_needs
  unfold Commands.shuffle
  split
  · rename_i htext
    simp only [within_ask_bind]
    intro state
    cases state.shuffle <;> simp [htext, setIf, capabilityOf, tracksQueued]
  · rename_i htext
    simp [htext, setIf, capabilityOf, tracksQueued]
  · rename_i htext
    simp [htext, setIf, capabilityOf, tracksQueued]
  · rename_i htext
    simp [htext, setIf, capabilityOf, tracksQueued]
  · simp

theorem covered_repeatMode :
    Covered (setIf (data.asStr.any fun t => t = "toggle" || (WireV4.parseRepeat t).isSome) .modes)
      (Commands.repeatMode data) := by
  apply Covered.of_needs
  unfold Commands.repeatMode
  split
  · rename_i htext
    simp [htext, setIf, capabilityOf, tracksQueued]
  · rename_i mode _ htext
    rw [htext]
    cases hmode : WireV4.parseRepeat mode with
    | some mode' => simp [hmode, setIf, capabilityOf, tracksQueued]
    | none => simp
  · simp

theorem covered_output : Covered .read Commands.output := by
  apply Covered.of_needs
  simp [Commands.output]

theorem covered_outputSwitch : Covered (.change .output) (Commands.outputSwitch data) := by
  apply Covered.of_needs
  exact (within_switchOutputTo id _).bind fun _ => trivial

theorem covered_currentPosition : Covered .read Commands.currentPosition := by
  apply Covered.of_needs
  simp [Commands.currentPosition]

theorem covered_position :
    Covered (setIf (asIntLenient data).isSome .playback) (Commands.position data) := by
  apply Covered.of_needs
  unfold Commands.position Commands.currentPosition
  cases asIntLenient data with
  | some ms => simp [setIf, capabilityOf, tracksQueued]
  | none => simp

theorem covered_rating :
    Covered (setIf (asSetString data).isSome .libraryEdit) (Commands.rating data) := by
  apply Covered.of_needs
  unfold Commands.rating
  cases asSetString data with
  | some r => simp [setIf, capabilityOf, tracksQueued]
  | none => exact (Fallible.within_attempt_bind _ _ _).mpr ⟨trivial, fun _ _ _ => trivial⟩

theorem covered_lfmRating :
    Covered
      (setIf (data.asStr.any fun t => asciiLower t = "toggle" || (WireV4.parseLfm t).isSome)
        .libraryEdit)
      (Commands.lfmRating data) := by
  apply Covered.of_needs
  unfold Commands.lfmRating
  cases htext : data.asStr with
  | none => exact (Fallible.within_attempt_bind _ _ _).mpr ⟨trivial, fun _ _ _ => trivial⟩
  | some text =>
    by_cases htoggle : asciiLower text = "toggle"
    · simp [htoggle, setIf, capabilityOf, tracksQueued]
    · cases hlfm : WireV4.parseLfm text with
      | some status => simp [htoggle, hlfm, setIf, capabilityOf, tracksQueued]
      | none => simp [htoggle, hlfm]

theorem covered_tagChange : Covered (.change .libraryEdit) (Commands.tagChange data) := by
  apply Covered.of_needs
  unfold Commands.tagChange
  by_cases htag : ((data.get "tag").bind Value.asStr).getD "" = ""
  · simp [htag]
  · simp [htag, capabilityOf, tracksQueued]

theorem covered_removeItem : Covered (.change .queueEdit) (Commands.removeItem data) := by
  apply Covered.of_needs
  simp [Commands.removeItem, capabilityOf, tracksQueued]

theorem covered_moveTrack : Covered (.change .queueEdit) (Commands.moveTrack data) := by
  apply Covered.of_needs
  simp [Commands.moveTrack, capabilityOf, tracksQueued]

/-- The paths the handler keeps are the ones the map counts. -/
theorem queuedPaths_eq :
    ((((data.get "data").bind Value.asArray).map fun items =>
      items.filterMap Value.asStr).getD []).length = queuedPaths data := by
  unfold queuedPaths
  cases (data.get "data").bind Value.asArray with
  | none => rfl
  | some items => exact List.length_filterMap_eq_countP

theorem covered_queue :
    Covered
      (.queueAt (WireV4.parseQueueType (((data.get "queue").bind Value.asStr).getD "next"))
        (some (queuedPaths data)))
      (Commands.queue data) where
  commands := by
    unfold Commands.queue
    simp only [within_perform_bind]
    exact ⟨⟨_, rfl, Implies.refl _⟩, trivial⟩
  tracks n hn := by
    obtain rfl : queuedPaths data = n := Option.some.inj hn
    exact spends_queue (queuedPaths_eq data).le fun _ => trivial

/-! ## Every context -/

/-- **Every handler is covered** by what its request is classed into. -/
theorem covered_dispatch {data : Value} {ctx : Commands.Ctx} {context : String} {action : Action}
    {handler : Handler (List Reply)} (ha : V4.action context data = some action)
    (hd : Commands.dispatch ctx context data = some handler) : Covered action handler := by
  unfold Commands.dispatch at hd
  split at hd
  -- the one context that depends on the client
  case h_23 =>
    split at hd <;> cases hd
    exact covered_currentPosition.of_some ha
  all_goals cases hd
  · exact (covered_ack _ rfl rfl).of_some ha
  · exact (covered_ack _ rfl rfl).of_some ha
  · exact (covered_ack _ rfl rfl).of_some ha
  · exact (covered_ack _ rfl rfl).of_some ha
  · exact (covered_ack _ rfl rfl).of_some ha
  · exact (covered_ack _ rfl rfl).of_some ha
  · exact (covered_volume data).of_some ha
  · exact (covered_mute data).of_some ha
  · exact (covered_shuffle data).of_some ha
  · exact (covered_repeatMode data).of_some ha
  · exact (covered_scrobble data).of_some ha
  · exact (covered_reads _).of_some ha
  · exact covered_output.of_some ha
  · exact (covered_outputSwitch data).of_some ha
  · exact (covered_reads _).of_some ha
  · exact (covered_reads _).of_some ha
  · exact (covered_position data).of_some ha
  · exact (covered_reads _).of_some ha
  · exact (covered_reads _).of_some ha
  · exact (covered_rating data).of_some ha
  · exact (covered_lfmRating data).of_some ha
  · exact (covered_tagChange data).of_some ha
  · exact (covered_reads _).of_some ha
  · exact (covered_ack _ rfl rfl).of_some ha
  · exact (covered_removeItem data).of_some ha
  · exact (covered_moveTrack data).of_some ha
  · exact (covered_ack _ rfl rfl).of_some ha
  · exact (covered_queue data).of_some ha
  · exact (covered_reads _).of_some ha
  · exact (covered_reads _).of_some ha
  · exact (covered_reads _).of_some ha
  · exact (covered_reads _).of_some ha
  · exact (covered_reads _).of_some ha
  · exact (covered_reads _).of_some ha
  · exact (covered_reads _).of_some ha
  · exact (covered_reads _).of_some ha
  · exact (covered_reads _).of_some ha
  · exact (covered_reads _).of_some ha
  · exact (covered_ack _ rfl rfl).of_some ha
  · exact (covered_reads _).of_some ha
  · exact (covered_ack _ rfl rfl).of_some ha
  · exact (covered_reads _).of_some ha
  · exact (covered_reads _).of_some ha

end Mbrc.Permissions.V4
