import MbrcPlugin.Permissions.Requests

/-!
# The V6 handlers are covered

A handler that changes one thing needs that thing's capability whatever its data is.  A handler
that queues reads the placement and the paths the map read, or fails before it queues.
-/

namespace Mbrc.Permissions.V6

open Interaction Providers
open Interaction.Fallible (check attempt)

variable (data : Value) (listVersion : Nat)

/-! ## Player and playing track -/

theorem covered_transport {capability : Capability} {c : Command}
    (hcap : capability = capabilityOf c) (hfree : tracksQueued c = 0) :
    Covered (.change capability) (CommandsV6.transport c) := by
  apply Covered.of_needs
  simp [CommandsV6.transport, hcap, hfree]

theorem covered_setVolume : Covered (.change .volume) (CommandsV6.setVolume data) := by
  apply Covered.of_needs
  simp only [CommandsV6.setVolume, Fallible.within_check_bind]
  intro volume _
  split <;> simp [capabilityOf, tracksQueued]

theorem covered_setMute : Covered (.change .volume) (CommandsV6.setMute data) := by
  apply Covered.of_needs
  simp [CommandsV6.setMute, capabilityOf, tracksQueued]

theorem covered_setShuffle : Covered (.change .modes) (CommandsV6.setShuffle data) := by
  apply Covered.of_needs
  simp only [CommandsV6.setShuffle, Fallible.within_check_bind]
  intro mode _
  split <;> simp [capabilityOf, tracksQueued]

theorem covered_setRepeat : Covered (.change .modes) (CommandsV6.setRepeat data) := by
  apply Covered.of_needs
  simp [CommandsV6.setRepeat, capabilityOf, tracksQueued]

theorem covered_setScrobbling : Covered (.change .modes) (CommandsV6.setScrobbling data) := by
  apply Covered.of_needs
  simp only [CommandsV6.setScrobbling, Fallible.within_check_bind]
  intro enabled _
  cases enabled with
  | true =>
    simp only [if_true, within_ask_bind]
    intro account
    cases account <;> simp [capabilityOf, tracksQueued]
  | false => simp [capabilityOf, tracksQueued]

theorem covered_setStopAfterCurrent :
    Covered (.change .modes) (CommandsV6.setStopAfterCurrent data) := by
  apply Covered.of_needs
  simp [CommandsV6.setStopAfterCurrent, capabilityOf, tracksQueued]

theorem covered_output : Covered .read CommandsV6.output := by
  apply Covered.of_needs
  simp [CommandsV6.output]

theorem covered_setOutput : Covered (.change .output) (CommandsV6.setOutput data) := by
  apply Covered.of_needs
  simp only [CommandsV6.setOutput, Fallible.within_check_bind]
  intro device _
  exact (within_switchOutputTo internal device).bind fun _ => trivial

theorem covered_position : Covered .read CommandsV6.position := by
  apply Covered.of_needs
  simp [CommandsV6.position]

theorem covered_seek : Covered (.change .playback) (CommandsV6.seek data) := by
  apply Covered.of_needs
  simp only [CommandsV6.seek, CommandsV6.position, Fallible.within_check_bind]
  intro ms _
  split <;> simp [capabilityOf, tracksQueued]

theorem covered_setRating : Covered (.change .libraryEdit) (CommandsV6.setRating data) := by
  apply Covered.of_needs
  simp [CommandsV6.setRating, capabilityOf, tracksQueued]

theorem covered_setLfm : Covered (.change .libraryEdit) (CommandsV6.setLfm data) := by
  apply Covered.of_needs
  simp [CommandsV6.setLfm, capabilityOf, tracksQueued]

theorem covered_setTag : Covered (.change .libraryEdit) (CommandsV6.setTag data) := by
  apply Covered.of_needs
  simp only [CommandsV6.setTag, Fallible.within_check_bind]
  intro path _
  refine (Fallible.within_attempt_bind _ _ _).mpr ⟨trivial, fun _ tag _ => ?_⟩
  refine (within_commandFor_bind _ _).mpr ⟨⟨rfl, rfl⟩, fun result => ?_⟩
  split
  · refine (within_reading_bind (.refreshRows path) _).mpr fun _ => ?_
    refine (within_reading_bind (.refusedWrite ..) _).mpr fun refused => ?_
    cases refused with
    | some message => trivial
    | none => exact (within_reading_bind (.shapedField ..) _).mpr fun _ => trivial
  · trivial
  · trivial

/-! ## Playlists -/

theorem within_namedTracks {P : Command → Prop} :
    (CommandsV6.namedTracks data).Within (OnCommands P) := by
  simp only [CommandsV6.namedTracks, Fallible.within_check_bind]
  intro byScope _ byQueue _
  split
  · trivial
  · simp
  · exact (Fallible.within_attempt_bind _ _ _).mpr ⟨trivial, fun _ _ _ => trivial⟩
  · exact (within_ask_bind .nowPlayingListPaths _).mpr fun _ => trivial
  · trivial

theorem within_requiredTracks {P : Command → Prop} :
    (CommandsV6.requiredTracks data).Within (OnCommands P) := by
  apply (within_namedTracks data).bind
  intro paths
  cases paths <;> trivial

theorem covered_playPlaylist :
    Covered (.change .queueReplace) (CommandsV6.playPlaylist data) := by
  apply Covered.of_needs
  simp [CommandsV6.playPlaylist, capabilityOf, tracksQueued]

theorem covered_createPlaylist :
    Covered (.change .playlistEdit) (CommandsV6.createPlaylist data) := by
  apply Covered.of_needs
  simp only [CommandsV6.createPlaylist, Fallible.within_check_bind]
  intro name _
  have hcreate : ∀ folder paths, (do
      let url ← commandFor internal (.createPlaylist folder (Text.trim name) paths)
      let files ← ask internal (.playlistFiles url)
      return Value.object
        [("url", .string url), ("name", .string files.name),
          ("version", .string (CommandsV6.versionOf files.paths))]).Within
        (OnCommands (Needs (.change .playlistEdit))) := by
    intro folder paths
    apply (within_commandFor_bind _ _).mpr
    exact ⟨⟨rfl, rfl⟩, fun url => (within_ask_bind (.playlistFiles url) _).mpr fun _ => trivial⟩
  split
  · trivial
  · simp only [Fallible.within_check_bind]
    intro folder _
    split
    · trivial
    · exact (within_namedTracks data).bind fun paths => hcreate _ _

theorem covered_deletePlaylist :
    Covered (.change .playlistEdit) (CommandsV6.deletePlaylist data) := by
  apply Covered.of_needs
  simp only [CommandsV6.deletePlaylist, Fallible.within_check_bind]
  intro url _
  apply (CommandsV6.within_knownFiles url).bind
  simp [capabilityOf, tracksQueued]

theorem covered_addTracks : Covered (.change .playlistEdit) (CommandsV6.addTracks data) := by
  apply Covered.of_needs
  simp only [CommandsV6.addTracks, Fallible.within_check_bind]
  intro url _
  apply (CommandsV6.within_editableFiles data url).bind
  intro _
  apply (within_requiredTracks data).bind
  intro paths
  split <;> simp [capabilityOf, tracksQueued, CommandsV6.within_versionReply]

theorem covered_removeTracks :
    Covered (.change .playlistEdit) (CommandsV6.removeTracks data) := by
  apply Covered.of_needs
  simp only [CommandsV6.removeTracks, Fallible.within_check_bind]
  intro url _ orders _
  apply (CommandsV6.within_editableFiles data url).bind
  intro files
  simp [capabilityOf, tracksQueued, CommandsV6.within_versionReply]

theorem covered_moveTracks : Covered (.change .playlistEdit) (CommandsV6.moveTracks data) := by
  apply Covered.of_needs
  simp only [CommandsV6.moveTracks, Fallible.within_check_bind]
  intro url _ orders _ target _
  apply (CommandsV6.within_editableFiles data url).bind
  intro files
  simp only [Fallible.within_check_bind]
  intro _ _
  split <;> simp [capabilityOf, tracksQueued, CommandsV6.within_versionReply]

theorem covered_setTracks : Covered (.change .playlistEdit) (CommandsV6.setTracks data) := by
  apply Covered.of_needs
  simp only [CommandsV6.setTracks, Fallible.within_check_bind]
  intro url _
  apply (CommandsV6.within_editableFiles data url).bind
  intro _
  apply (within_requiredTracks data).bind
  intro paths
  simp [capabilityOf, tracksQueued, CommandsV6.within_versionReply]

/-! ## The queue -/

theorem covered_playItem :
    Covered (.change .playback) (CommandsV6.playItem data listVersion) := by
  apply Covered.of_needs
  simp [CommandsV6.playItem, CommandsV6.guarded, capabilityOf, tracksQueued]

theorem covered_clear :
    Covered (.change .queueEdit) (CommandsV6.guarded data listVersion .clearList) := by
  apply Covered.of_needs
  simp [CommandsV6.guarded, capabilityOf, tracksQueued]

/-- One removal after another, by induction on the slots. -/
theorem within_removeEach (orders : List Int) :
    (CommandsV6.removeEach orders).Within (OnCommands (Needs (.change .queueEdit))) := by
  induction orders with
  | nil => trivial
  | cons order orders ih =>
    apply (within_perform_bind (.removeListItem order) _).mpr
    exact ⟨⟨rfl, rfl⟩, ih⟩

theorem covered_removeItems :
    Covered (.change .queueEdit) (CommandsV6.removeItems data listVersion) := by
  apply Covered.of_needs
  simp only [CommandsV6.removeItems, Fallible.within_check_bind]
  intro orders _ _ _
  refine (within_ask_bind .nowPlayingListPaths _).mpr fun paths => ?_
  apply Fallible.Within.ite
  · intro _
    trivial
  · intro _
    exact (within_removeEach orders).bind fun _ => trivial

theorem covered_moveItem :
    Covered (.change .queueEdit) (CommandsV6.moveItem data listVersion) := by
  apply Covered.of_needs
  simp [CommandsV6.moveItem, CommandsV6.guarded, capabilityOf, tracksQueued]

theorem covered_search : Covered (.change .playback) (CommandsV6.search data) := by
  apply Covered.of_needs
  simp [CommandsV6.search, CommandsV6.transport, capabilityOf, tracksQueued]

/-! ## Placements

The map falls back to replacing the queue where a handler falls back to its default, or fails. -/

/-- What a handler that takes any other value for the default makes of the mode. -/
theorem placement_implies {data : Value} {default : String} {t : QueueType}
    (h : CommandsV6.parseQueueType (((data.get "mode").bind Value.asStr).getD default) = .ok t) :
    Implies (.forQueue (placement data default)) (.forQueue t) := by
  unfold placement
  cases hmode : data.get "mode" with
  | none =>
    simp only [hmode, Option.bind_none, Option.getD_none] at h
    simp [h, Except.toOption, Implies.refl]
  | some v =>
    cases v with
    | null =>
      have hdefault : CommandsV6.parseQueueType default = .ok t := by
        simpa [hmode, Value.asStr] using h
      simp [hdefault, Except.toOption, Implies.refl]
    | string mode =>
      have htext : CommandsV6.parseQueueType mode = .ok t := by
        simpa [hmode, Value.asStr] using h
      simp [htext, Except.toOption, Implies.refl]
    | _ => exact replace_implies t

/-- What a scope's request makes of it: a value that is no text is an error. -/
theorem placement_request {data : Value} {request : CommandsV6.QueueRequest}
    (h : CommandsV6.parseQueueRequest data = .ok request) :
    placement data "last" = request.mode := by
  unfold CommandsV6.parseQueueRequest at h
  obtain ⟨mode?, hmode?, h⟩ := bind_eq_ok.mp h
  obtain ⟨mode, hmode, h⟩ := bind_eq_ok.mp h
  obtain ⟨play, -, h⟩ := bind_eq_ok.mp h
  obtain ⟨shuffle, -, h⟩ := bind_eq_ok.mp h
  obtain rfl := Except.ok.inj h
  show placement data "last" = mode
  unfold CommandsV6.optStr CommandsV6.optional at hmode?
  unfold placement
  cases hget : data.get "mode" with
  | none =>
    obtain rfl : none = mode? := by simpa [hget] using hmode?
    simp [show CommandsV6.parseQueueType "last" = .ok mode from hmode, Except.toOption]
  | some v =>
    cases v with
    | null =>
      obtain rfl : none = mode? := by simpa [hget] using hmode?
      simp [show CommandsV6.parseQueueType "last" = .ok mode from hmode, Except.toOption]
    | string text =>
      obtain rfl : some text = mode? := by simpa [hget, Value.asStr] using hmode?
      simp [show CommandsV6.parseQueueType text = .ok mode from hmode, Except.toOption]
    | _ => simp [hget, Value.asStr] at hmode?

theorem covered_queue :
    Covered
      (.queueAt (placement data "next") (((data.get "paths").bind Value.asArray).map List.length))
      (CommandsV6.queue data) where
  commands := by
    simp only [CommandsV6.queue, CommandsV6.transport, Fallible.within_check_bind]
    intro paths _ t ht
    simp only [within_perform_bind]
    exact ⟨⟨_, rfl, placement_implies ht⟩, trivial⟩
  tracks n hn := by
    apply Fallible.spends_check_bind
    intro paths hpaths
    apply Fallible.spends_check_bind
    intro t _
    obtain ⟨items, hitems, hlength⟩ := CommandsV6.reqStrArray_eq_ok hpaths
    have hcount : items.length = n := by
      simpa [Action.atMost, Action.queueAt, hitems, Value.asArray] using hn
    exact spends_queue (hlength.trans hcount).le fun _ => trivial

theorem within_shuffled {P : Command → Prop} (paths : List String) :
    (CommandsV6.shuffled paths).Within (OnCommands P) := by
  unfold CommandsV6.shuffled
  apply Fallible.Within.ite
  · intro _
    trivial
  · intro _
    refine (within_reading_bind (.randomPicks paths.length) _).mpr fun picks => ?_
    cases picks <;> trivial

/-- A scope is queued at the placement asked for, in any order. -/
theorem within_request {request : CommandsV6.QueueRequest} (paths : List String) :
    (request.queue paths).Within (OnCommands fun c => ∃ capability,
      (Action.queueAt request.mode none).capability = some capability ∧
        Implies capability (capabilityOf c)) := by
  have hrest : ∀ paths : List String, (do
      if paths ≠ [] then
        perform internal (.queue request.mode paths request.play)
      return Value.object [("count", .int paths.length)] : HandlerV6 Value).Within
        (OnCommands fun c => ∃ capability,
          (Action.queueAt request.mode none).capability = some capability ∧
            Implies capability (capabilityOf c)) := by
    intro paths
    apply Fallible.Within.ite
    · intro _
      exact (within_perform_bind _ _).mpr ⟨⟨_, rfl, Implies.refl _⟩, trivial⟩
    · intro _
      trivial
  unfold CommandsV6.QueueRequest.queue
  apply Fallible.Within.ite
  · intro _
    exact (within_shuffled paths).bind hrest
  · intro _
    exact hrest paths

theorem covered_queueScope :
    Covered (.queueAt (placement data "last") none) (CommandsV6.queueScope data) where
  commands := by
    simp only [CommandsV6.queueScope, Fallible.within_check_bind]
    intro request hrequest
    rw [placement_request hrequest]
    refine (Fallible.within_attempt_bind _ _ _).mpr ⟨trivial, fun _ paths _ => ?_⟩
    apply Fallible.Within.ite
    · intro _
      exact within_request paths
    · intro _
      refine (Fallible.within_attempt_bind _ _ _).mpr ⟨trivial, fun _ excluded _ => ?_⟩
      exact within_request _
  tracks n hn := by simp [Action.atMost, Action.queueAt] at hn

theorem covered_queueMedia :
    Covered (.queueAt (placement data "last") none) (CommandsV6.queueMedia data) where
  commands := by
    simp only [CommandsV6.queueMedia, Fallible.within_check_bind]
    intro _ _ request hrequest
    rw [placement_request hrequest]
    refine (Fallible.within_attempt_bind _ _ _).mpr ⟨trivial, fun _ paths _ => ?_⟩
    exact within_request paths
  tracks n hn := by simp [Action.atMost, Action.queueAt] at hn

theorem within_oneEpisode {P : Command → Prop} :
    (CommandsV6.oneEpisode data).Within (OnCommands P) := by
  simp only [CommandsV6.oneEpisode, Fallible.within_check_bind]
  intro id _ index _
  refine (within_ask_bind (.podcastEpisode ..) _).mpr fun urls => ?_
  cases urls <;> trivial

theorem covered_episodePlay :
    Covered (.queueAt (placement data "now") (some 1)) (CommandsV6.episodePlay data) where
  commands := by
    apply (within_oneEpisode data).bind
    intro url
    simp only [Fallible.within_check_bind]
    intro t ht
    apply Fallible.Within.ite
    · intro _
      trivial
    · intro _
      exact (within_perform_bind _ _).mpr ⟨⟨_, rfl, placement_implies ht⟩, trivial⟩
  tracks n hn := by
    obtain rfl : 1 = n := Option.some.inj hn
    refine Fallible.Within.spends_bind ?_ fun url => ?_
    · exact (within_oneEpisode data).mono fun call hcall => free_of_onCommands hcall
    · apply Fallible.spends_check_bind
      intro t _
      by_cases hurl : url = ""
      · simp only [hurl, if_true]
        trivial
      · simp only [hurl, if_false]
        exact spends_queue (Nat.le_refl 1) fun _ => trivial

theorem covered_playAll : Covered (.change .queueReplace) (CommandsV6.playAll data) := by
  apply Covered.of_needs
  simp [CommandsV6.playAll, CommandsV6.transport, capabilityOf, tracksQueued]

/-! ## Every op -/

section

variable {data : Value} {listVersion : Nat} {op : String} {action : Action}
  {handler : HandlerV6 Value}

theorem covered_dispatchPlayer (ha : V6.action op data = some action)
    (hd : CommandsV6.dispatchPlayer op data = some handler) : Covered action handler := by
  unfold CommandsV6.dispatchPlayer at hd
  split at hd <;> cases hd
  · exact (covered_transport rfl rfl).of_some ha
  · exact (covered_transport rfl rfl).of_some ha
  · exact (covered_transport rfl rfl).of_some ha
  · exact (covered_transport rfl rfl).of_some ha
  · exact (covered_transport rfl rfl).of_some ha
  · exact (covered_transport rfl rfl).of_some ha
  · exact (covered_setVolume data).of_some ha
  · exact (covered_setMute data).of_some ha
  · exact (covered_setShuffle data).of_some ha
  · exact (covered_setRepeat data).of_some ha
  · exact (covered_setScrobbling data).of_some ha
  · exact (covered_setStopAfterCurrent data).of_some ha
  · exact (covered_readsV6 _).of_some ha
  · exact covered_output.of_some ha
  · exact (covered_setOutput data).of_some ha

theorem covered_dispatchTrack (ha : V6.action op data = some action)
    (hd : CommandsV6.dispatchTrack op = some handler) : Covered action handler := by
  unfold CommandsV6.dispatchTrack at hd
  split at hd <;> cases hd
  · exact (covered_readsV6 _).of_some ha
  · exact (covered_readsV6 _).of_some ha
  · exact (covered_readsV6 _).of_some ha

theorem covered_dispatchLibrary (ha : V6.action op data = some action)
    (hd : CommandsV6.dispatchLibrary op data = some handler) : Covered action handler := by
  unfold CommandsV6.dispatchLibrary at hd
  split at hd <;> cases hd
  · exact (covered_readsV6 _).of_some ha
  · exact (covered_readsV6 _).of_some ha
  · exact (covered_readsV6 _).of_some ha
  · exact (covered_readsV6 _).of_some ha
  · exact (covered_readsV6 _).of_some ha
  · exact (covered_playAll data).of_some ha
  · exact (covered_queueScope data).of_some ha
  · exact (covered_readsV6 _).of_some ha

theorem covered_dispatchPlaylist (ha : V6.action op data = some action)
    (hd : CommandsV6.dispatchPlaylist op data = some handler) : Covered action handler := by
  unfold CommandsV6.dispatchPlaylist at hd
  split at hd <;> cases hd
  · exact (covered_readsV6 _).of_some ha
  · exact (covered_playPlaylist data).of_some ha
  · exact (covered_readsV6 _).of_some ha
  · exact (covered_createPlaylist data).of_some ha
  · exact (covered_deletePlaylist data).of_some ha
  · exact (covered_addTracks data).of_some ha
  · exact (covered_removeTracks data).of_some ha
  · exact (covered_moveTracks data).of_some ha
  · exact (covered_setTracks data).of_some ha

theorem covered_dispatchNowPlaying (ha : V6.action op data = some action)
    (hd : CommandsV6.dispatchNowPlaying op data = some handler) : Covered action handler := by
  unfold CommandsV6.dispatchNowPlaying at hd
  split at hd <;> cases hd
  · exact (covered_readsV6 _).of_some ha
  · exact (covered_readsV6 _).of_some ha
  · exact covered_position.of_some ha
  · exact (covered_readsV6 _).of_some ha
  · exact (covered_seek data).of_some ha
  · exact (covered_setRating data).of_some ha
  · exact (covered_setLfm data).of_some ha

theorem covered_dispatchPodcast (ha : V6.action op data = some action)
    (hd : CommandsV6.dispatchPodcast op data = some handler) : Covered action handler := by
  unfold CommandsV6.dispatchPodcast at hd
  split at hd <;> cases hd
  · exact (covered_readsV6 _).of_some ha
  · exact (covered_readsV6 _).of_some ha
  · exact (covered_readsV6 _).of_some ha
  · exact (covered_readsV6 _).of_some ha
  · exact (covered_episodePlay data).of_some ha

theorem covered_dispatchMedia (ha : V6.action op data = some action)
    (hd : CommandsV6.dispatchMedia op data = some handler) : Covered action handler := by
  unfold CommandsV6.dispatchMedia at hd
  split at hd <;> cases hd
  · exact (covered_readsV6 _).of_some ha
  · exact (covered_readsV6 _).of_some ha
  · exact (covered_readsV6 _).of_some ha
  · exact (covered_queueMedia data).of_some ha

theorem covered_dispatchTags (ha : V6.action op data = some action)
    (hd : CommandsV6.dispatchTags op data = some handler) : Covered action handler := by
  unfold CommandsV6.dispatchTags at hd
  split at hd <;> cases hd
  · exact (covered_readsV6 _).of_some ha
  · exact (covered_readsV6 _).of_some ha
  · exact (covered_readsV6 _).of_some ha
  · exact (covered_setTag data).of_some ha

theorem covered_dispatchNowPlayingList (ha : V6.action op data = some action)
    (hd : CommandsV6.dispatchNowPlayingList listVersion op data = some handler) :
    Covered action handler := by
  unfold CommandsV6.dispatchNowPlayingList at hd
  split at hd <;> cases hd
  · exact (covered_readsV6 _).of_some ha
  · exact (covered_playItem data listVersion).of_some ha
  · exact (covered_removeItems data listVersion).of_some ha
  · exact (covered_moveItem data listVersion).of_some ha
  · exact (covered_clear data listVersion).of_some ha
  · exact (covered_search data).of_some ha
  · exact (covered_queue data).of_some ha

/-- **Every handler is covered** by what its request is classed into. -/
theorem covered_dispatch (ha : V6.action op data = some action)
    (hd : CommandsV6.dispatch listVersion op data = some handler) : Covered action handler := by
  unfold CommandsV6.dispatch at hd
  simp only [Option.orElse_eq_orElse, Option.orElse_eq_or, Option.or_eq_some_iff] at hd
  rcases hd with hd | ⟨-, hd | ⟨-, hd | ⟨-, hd | ⟨-, hd | ⟨-, hd | ⟨-, hd | ⟨-, hd | ⟨-, hd⟩⟩⟩⟩⟩⟩⟩⟩
  · exact covered_dispatchPlayer ha hd
  · exact covered_dispatchTrack ha hd
  · exact covered_dispatchLibrary ha hd
  · exact covered_dispatchPlaylist ha hd
  · exact covered_dispatchNowPlaying ha hd
  · exact covered_dispatchPodcast ha hd
  · exact covered_dispatchMedia ha hd
  · exact covered_dispatchTags ha hd
  · exact covered_dispatchNowPlayingList ha hd

end

end Mbrc.Permissions.V6
