import MbrcPlugin.NowPlaying.ListGuard

/-!
# Runs of the version guard

Each step of a mutation keeps the invariant of `ListGuard`, so in an orderly run a guarded mutation
meets the queue its page was read from, and of two mutations of one version only one changes
anything (`guard_holds`).  Two handlers that both check before either removes are not orderly
(`bothAtOnce`).
-/

namespace Mbrc.ListVersion

open Providers

variable {Q : Type} [DecidableEq Q]

/-! ## Mutations -/

section Mutations

variable {host : Host Q} {w w' : World Q} {m m' : Handling Q} {n : Nat}

theorem Inv.send (h : Inv w) (mutation : Mutation) :
    Inv { w with mutations := w.mutations ++ [{ mutation, held := w.pages }] } := by
  have hmoves : Moves w { w with mutations := w.mutations ++ [{ mutation, held := w.pages }] } :=
    ⟨le_rfl, le_rfl, fun _ => rfl, fun _ hu => hu, fun _ => Or.inr rfl⟩
  refine ⟨h.bound, h.pages, h.readings, fun m hm => ?_, ?_⟩
  · rcases List.mem_append.mp hm with hm | hm
    · exact (h.mutations m hm).moves hmoves fun _ hp => hp
    · obtain rfl := List.mem_singleton.mp hm
      exact ⟨fun _ hp => hp, fun _ => ⟨rfl, rfl⟩, fun hs => by simp at hs, fun hl => by simp at hl,
        Nat.zero_le _, Nat.zero_le _, fun e _ hor => by simp [Stage.isLive] at hor,
        fun _ hc => by simp [Handling.changed] at hc,
        fun page _ _ q _ => ⟨trivial, fun hl => by simp [Stage.isLive] at hl⟩⟩
  · intro i j m m' hi hj hij hversion hsame hchanged
    have hlookup : ∀ {k : Nat} {x : Handling Q},
        (w.mutations ++ [{ mutation, held := w.pages }])[k]? = some x →
          w.mutations[k]? = some x ∨ (x.calls = [] ∧ x.stage = .received) := by
      intro k x hx
      rcases Nat.lt_or_ge k w.mutations.length with hk | hk
      · exact Or.inl (by rwa [List.getElem?_append_left hk] at hx)
      · rw [List.getElem?_append_right hk] at hx
        obtain rfl := List.mem_singleton.mp (List.mem_of_getElem? hx)
        exact Or.inr ⟨rfl, rfl⟩
    rcases hlookup hi with hi | ⟨hnil, -⟩
    · rcases hlookup hj with hj | ⟨hnil, hstage⟩
      · exact h.pairs i j m m' hi hj hij hversion hsame hchanged
      · exact ⟨by simp [Handling.changed, hnil], fun hl => by simp [hstage, Stage.isLive] at hl⟩
    · simp [Handling.changed, hnil] at hchanged

/-- A step of one mutation, in a world that moves as it may. -/
theorem Inv.set (h : Inv w) (hm : w.mutations[n]? = some m) (hmoves : Moves w w')
    (hbound : w'.version < 2 ^ 64) (hreadings : w'.readings = w.readings)
    (hpages : w'.pages = w.pages) (hmutation : m'.mutation = m.mutation)
    (hsound : Sound { w' with mutations := w.mutations.set n m' } m')
    (hnew : m.mutation.version ≠ none → m'.changed = true → m.changed = true ∨
      ∀ (j : Nat) (x : Handling Q), w.mutations[j]? = some x → n ≠ j →
        x.mutation.version = m.mutation.version →
          x.changed = false ∧ (x.stage.isLive = true → x.rev < w'.rev))
    (hold : m.mutation.version ≠ none → ∀ (i : Nat) (x : Handling Q), w.mutations[i]? = some x →
      i ≠ n → m.mutation.version = x.mutation.version → x.changed = true →
        m'.changed = false ∧ (m'.stage.isLive = true → m'.rev < w'.rev)) :
    Inv { w' with mutations := w.mutations.set n m' } := by
  have hmoves' : Moves w { w' with mutations := w.mutations.set n m' } :=
    ⟨hmoves.version, hmoves.rev, hmoves.queue, hmoves.unsettled, hmoves.changed⟩
  have hlt := (List.getElem?_eq_some_iff.mp hm).1
  have hlookup : ∀ {k : Nat} {x : Handling Q}, (w.mutations.set n m')[k]? = some x →
      (k = n ∧ x = m') ∨ (n ≠ k ∧ w.mutations[k]? = some x) := by
    intro k x hx
    by_cases hk : n = k
    · subst hk
      rw [List.getElem?_set_self hlt] at hx
      exact Or.inl ⟨rfl, (Option.some.inj hx).symm⟩
    · rw [List.getElem?_set_ne hk] at hx
      exact Or.inr ⟨hk, hx⟩
  refine ⟨hbound, ?_, ?_, fun x hx => ?_, ?_⟩
  · intro page hp
    have hp : page ∈ w.pages := hpages ▸ hp
    exact (h.pages page hp).moves hmoves'
  · intro r hr version hv
    have hr : r ∈ w.readings := hreadings ▸ hr
    exact (h.readings r hr version hv).moves hmoves'
  · rcases List.mem_or_eq_of_mem_set hx with hx | rfl
    · exact (h.mutations x hx).moves hmoves' fun page hp => by
        show page ∈ w'.pages
        rwa [hpages]
    · exact hsound
  · intro i j x y hi hj hij hversion hsame hchanged
    rcases hlookup hi with ⟨rfl, rfl⟩ | ⟨hni, hi⟩
    · rcases hlookup hj with ⟨rfl, rfl⟩ | ⟨hnj, hj⟩
      · exact absurd rfl hij
      · rw [hmutation] at hversion hsame
        rcases hnew hversion hchanged with hwas | hall
        · obtain ⟨hno, hlive⟩ := h.pairs _ j m y hm hj hij hversion hsame hwas
          exact ⟨hno, fun hl => Nat.lt_of_lt_of_le (hlive hl) hmoves.rev⟩
        · exact hall j y hj hnj hsame
    · rcases hlookup hj with ⟨rfl, rfl⟩ | ⟨hnj, hj⟩
      · rw [hmutation] at hsame
        have hv : m.mutation.version ≠ none := fun hn => hversion (hsame.symm.trans hn)
        exact hold hv i x (by assumption) hij hsame hchanged
      · obtain ⟨hno, hlive⟩ := h.pairs i j x y hi hj hij hversion hsame hchanged
        exact ⟨hno, fun hl => Nat.lt_of_lt_of_le (hlive hl) hmoves.rev⟩

/-- A step that makes no call, past the check. -/
theorem Inv.stage {stage : Stage} (h : Inv w) (hm : w.mutations[n]? = some m)
    (hmoves : Moves w w') (hbound : w'.version < 2 ^ 64) (hreadings : w'.readings = w.readings)
    (hpages : w'.pages = w.pages) (hnot : m.stage ≠ .done .staleList)
    (hstage : stage ≠ .received) (hstale : stage ≠ .done .staleList)
    (hlive : stage.isLive = true → m.stage.isLive = true) :
    Inv { w' with mutations := w.mutations.set n { m with stage } } := by
  have hs := h.mutations m (List.mem_of_getElem? hm)
  have hmoves' : Moves w { w' with mutations := w.mutations.set n { m with stage } } :=
    ⟨hmoves.version, hmoves.rev, hmoves.queue, hmoves.unsettled, hmoves.changed⟩
  have hs' := hs.moves hmoves' fun page hp => by
    show page ∈ w'.pages
    rwa [hpages]
  refine h.set hm hmoves hbound hreadings hpages rfl ?_ (fun _ hc => Or.inl hc)
    fun hversion i x hi hni hsame hchanged => ?_
  · exact ⟨hs'.held, fun hr => absurd hr hstage, fun hd => absurd hd hstale,
      fun hl => absurd (hs.late hl) hnot, hs'.rev, hs'.seen,
      fun e he hor => hs.passed e he (hor.imp_right hlive), hs'.marked,
      fun page hp hv q hq => ⟨(hs'.meets page hp hv q hq).1,
        fun hl => (hs'.meets page hp hv q hq).2 (hlive hl)⟩⟩
  · obtain ⟨hno, hl⟩ := h.pairs i n x m hi hm hni (hsame ▸ hversion) hsame hchanged
    exact ⟨hno, fun hl' => Nat.lt_of_lt_of_le (hl (hlive hl')) hmoves.rev⟩

omit [DecidableEq Q] in
theorem moves_mutations (mutations : List (Handling Q)) : Moves w { w with mutations } :=
  ⟨le_rfl, le_rfl, fun _ => rfl, fun _ hu => hu, fun _ => Or.inr rfl⟩

/-- Refused: no call is made. -/
theorem Inv.refuse (h : Inv w) (hm : w.mutations[n]? = some m) (hstage : m.stage = .received)
    (late : Bool) :
    Inv { w with mutations := w.mutations.set n { m with
      seen := w.version, rev := w.rev, late, stage := .done .staleList } } := by
  have hs := h.mutations m (List.mem_of_getElem? hm)
  have hnil := (hs.received hstage).1
  refine h.set hm .refl h.bound rfl rfl rfl ⟨hs.held, fun hr => by simp at hr, fun _ => hnil,
    fun _ => rfl, le_rfl, le_rfl, fun e _ hor => by simp [hnil, Stage.isLive] at hor,
    fun _ hc => by simp [Handling.changed, hnil] at hc,
    fun page _ _ q _ => ⟨by rw [hnil]; trivial, fun hl => by simp [Stage.isLive] at hl⟩⟩
    (fun _ hc => by simp [Handling.changed, hnil] at hc)
    fun _ _ _ _ _ _ _ => ⟨by simp [Handling.changed, hnil], fun hl => by simp [Stage.isLive] at hl⟩

/-- No mutation of the version has changed the queue where one passes its check. -/
theorem not_changed_of_passed (h : Inv w) {x : Handling Q} (hx : x ∈ w.mutations)
    (hversion : m.mutation.version ≠ none) (hsame : x.mutation.version = m.mutation.version)
    (hpass : stale m.mutation.version w.version = false) (hsettled : w.unsettled = false) :
    x.changed = false := by
  by_contra hchanged
  rw [Bool.not_eq_false] at hchanged
  have hs := h.mutations x hx
  obtain ⟨e, he⟩ := Option.ne_none_iff_exists'.mp hversion
  have hcalls : x.calls ≠ [] := by
    intro hnil
    simp [Handling.changed, hnil] at hchanged
  have hseen := hs.passed e (hsame.trans he) (Or.inl hcalls)
  have hle := hs.seen
  have hbound := h.bound
  have heq := bmod_inj (Nat.lt_of_le_of_lt hle hbound) hbound
    (hseen.symm.trans ((not_stale_iff he).mp hpass))
  have hmarked := hs.marked (by rwa [hsame]) hchanged heq
  rw [hsettled] at hmarked
  exact absurd hmarked (by simp)

/-- Passed: the pages of the version show the queue. -/
theorem Inv.pass {stage : Stage} (h : Inv w) (hm : w.mutations[n]? = some m)
    (hstage : m.stage = .received) (hlive : stage.isLive = true)
    (hpass : stale m.mutation.version w.version = false)
    (ho : m.mutation.version ≠ none → w.unsettled = false) :
    Inv { w with mutations := w.mutations.set n { m with
      seen := w.version, rev := w.rev, late := w.overtaken m.mutation, stage } } := by
  have hs := h.mutations m (List.mem_of_getElem? hm)
  have hnil := (hs.received hstage).1
  have hlate : w.overtaken m.mutation = false := by
    rw [← Bool.not_eq_true, World.overtaken, Bool.and_eq_true, List.any_eq_true]
    rintro ⟨hsome, x, hx, hor⟩
    have hversion : m.mutation.version ≠ none := Option.isSome_iff_ne_none.mp hsome
    rw [Bool.and_eq_true, decide_eq_true_eq] at hor
    rw [not_changed_of_passed h hx hversion hor.1 hpass (ho hversion)] at hor
    exact absurd hor.2 (by simp)
  refine h.set hm .refl h.bound rfl rfl rfl ⟨hs.held, fun hr => ?_, fun hd => ?_, fun hl => ?_,
    le_rfl, le_rfl, fun e he _ => (not_stale_iff he).mp hpass,
    fun _ hc => by simp [Handling.changed, hnil] at hc, fun page hp hv q hq => ⟨?_, fun _ _ => ?_⟩⟩
    (fun _ hc => by simp [Handling.changed, hnil] at hc)
    fun hversion i x hi _ hsame hchanged => ?_
  · obtain rfl : stage = .received := hr
    simp [Stage.isLive] at hlive
  · obtain rfl : stage = .done .staleList := hd
    simp [Stage.isLive] at hlive
  · rw [show w.overtaken m.mutation = true from hl] at hlate
    exact absurd hlate (by simp)
  · show Chain q m.calls
    rw [hnil]
    trivial
  · show endOf q m.calls = w.queue
    rw [hnil]
    have heq := eq_of_bmod h.bound ((not_stale_iff hv).mp hpass)
    rcases (h.pages page (hs.held page hp)).2 heq with hu | hreads
    · rw [ho (by simp [show m.mutation.version = _ from hv])] at hu
      exact absurd hu (by simp)
    · exact hreads q hq
  · rw [not_changed_of_passed h (List.mem_of_getElem? hi) hversion hsame.symm hpass
      (ho hversion)] at hchanged
    exact absurd hchanged (by simp)

theorem changed_append {calls : List (Q × Q)} {call : Q × Q}
    (h : Handling.changed { m with calls := calls ++ [call] } = true) :
    Handling.changed { m with calls } = true ∨ call.1 ≠ call.2 := by
  simpa [Handling.changed] using h

/-- A call that the host carries out. -/
theorem Inv.call {c : Command} {rest : List Command} {queue : Q} (h : Inv w)
    (hm : w.mutations[n]? = some m) (hstage : m.stage = .calling (c :: rest))
    (ho : m.mutation.version ≠ none → w.rev = m.rev) :
    Inv { w.put queue with mutations := w.mutations.set n { m with
      stage := .calling rest, rev := (w.put queue).rev
      calls := m.calls ++ [(w.queue, queue)] } } := by
  have hs := h.mutations m (List.mem_of_getElem? hm)
  have hlive : m.stage.isLive = true := by rw [hstage]; rfl
  have hquiet : m.mutation.version ≠ none → ∀ (j : Nat) (x : Handling Q),
      w.mutations[j]? = some x → j ≠ n → x.mutation.version = m.mutation.version →
        x.changed = false := by
    intro hversion j x hj hjn hsame
    by_contra hchanged
    rw [Bool.not_eq_false] at hchanged
    obtain ⟨-, hlt⟩ := h.pairs j n x m hj hm hjn (hsame ▸ hversion) hsame.symm hchanged
    have := hlt hlive
    have := ho hversion
    omega
  refine h.set hm (moves_put queue) (by rw [put_version]; exact h.bound) put_readings put_pages rfl
    ⟨fun page hp => ?_, fun hr => by simp at hr, fun hd => by simp at hd, fun hl => ?_, le_rfl, ?_,
      fun e he _ => hs.passed e he (Or.inr hlive), fun hversion hc heq => ?_,
      fun page hp hv q hq => ?_⟩ (fun hversion hc => ?_)
    fun hversion i x hi hni hsame hchanged => ?_
  · show page ∈ (w.put queue).pages
    rw [put_pages]
    exact hs.held page hp
  · rw [hs.late hl] at hstage
    simp at hstage
  · show m.seen ≤ (w.put queue).version
    rw [put_version]
    exact hs.seen
  · show (w.put queue).unsettled = true
    have heq : m.seen = w.version := by
      rw [← put_version (w := w) (q := queue)]
      exact heq
    by_cases hq : queue = w.queue
    · rcases changed_append hc with hwas | hne
      · rw [World.put, if_pos hq]
        exact hs.marked hversion hwas heq
      · exact absurd hq.symm hne
    · exact (put_unsettled hq).1
  · obtain ⟨hchain, hend⟩ := hs.meets page hp hv q hq
    have hversion : m.mutation.version ≠ none := by simp [show m.mutation.version = _ from hv]
    refine ⟨chain_append hchain (hend hlive (ho hversion)).symm, fun _ _ => ?_⟩
    show endOf q (m.calls ++ [(w.queue, queue)]) = (w.put queue).queue
    rw [endOf_append, put_queue]
  · by_cases hq : queue = w.queue
    · rcases changed_append hc with hwas | hne
      · exact Or.inl hwas
      · exact absurd hq.symm hne
    · refine Or.inr fun j x hj hnj hsame => ⟨hquiet hversion j x hj hnj.symm hsame, fun _ => ?_⟩
      have := (h.mutations x (List.mem_of_getElem? hj)).rev
      rw [(put_unsettled hq).2]
      omega
  · rw [hquiet hversion i x hi hni hsame.symm] at hchanged
    exact absurd hchanged (by simp)

/-- **A step of a mutation.** -/
theorem Inv.run {fails : Bool} (h : Inv w) (hm : w.mutations[n]? = some m) (ho : StepOrderly w m)
    (hstep : mutationStep host w m fails = some (w', m')) :
    Inv { w' with mutations := w.mutations.set n m' } := by
  unfold mutationStep at hstep
  unfold StepOrderly at ho
  cases hstage : m.stage with
  | received =>
    rw [hstage] at hstep ho
    dsimp only at hstep ho
    split at hstep
    · obtain ⟨rfl, rfl⟩ := Prod.mk.inj (Option.some.inj hstep)
      exact h.refuse hm hstage _
    · rename_i hfresh
      have hpass : stale m.mutation.version w.version = false := by simpa using hfresh
      split at hstep <;> obtain ⟨rfl, rfl⟩ := Prod.mk.inj (Option.some.inj hstep)
      · exact h.pass hm hstage (show Stage.checked.isLive = true from rfl) hpass
          fun hv => ho hv hpass
      · exact h.pass hm hstage (show (Stage.calling _).isLive = true from rfl) hpass
          fun hv => ho hv hpass
  | checked =>
    have hnot : m.stage ≠ .done .staleList := by simp [hstage]
    rw [hstage] at hstep
    dsimp only at hstep
    split at hstep
    · split at hstep
      · obtain ⟨rfl, rfl⟩ := Prod.mk.inj (Option.some.inj hstep)
        exact h.stage hm .refl h.bound rfl rfl hnot (by simp) (by simp) (by simp [Stage.isLive])
      · split at hstep <;> obtain ⟨rfl, rfl⟩ := Prod.mk.inj (Option.some.inj hstep)
        · exact h.stage hm .refl h.bound rfl rfl hnot (by simp) (by simp)
            (by simp [Stage.isLive])
        · exact h.stage hm .refl h.bound rfl rfl hnot (by simp) (by simp)
            fun _ => by rw [hstage]; rfl
    · simp at hstep
  | calling todo =>
    have hnot : m.stage ≠ .done .staleList := by simp [hstage]
    rw [hstage] at hstep ho
    cases todo with
    | nil =>
      obtain ⟨rfl, rfl⟩ := Prod.mk.inj (Option.some.inj hstep)
      exact h.stage hm .refl h.bound rfl rfl hnot (by simp) (by simp) (by simp [Stage.isLive])
    | cons c rest =>
      dsimp only at hstep
      split at hstep
      · obtain ⟨rfl, rfl⟩ := Prod.mk.inj (Option.some.inj hstep)
        exact h.call hm hstage ho
      · obtain ⟨rfl, rfl⟩ := Prod.mk.inj (Option.some.inj hstep)
        refine h.stage hm .refl h.bound rfl rfl hnot ?_ ?_ ?_ <;> split <;>
          simp [Stage.isLive]
  | bumping ok =>
    have hnot : m.stage ≠ .done .staleList := by simp [hstage]
    rw [hstage] at hstep ho
    obtain ⟨rfl, rfl⟩ := Prod.mk.inj (Option.some.inj hstep)
    refine h.stage hm (moves_bump ho) (Nat.mod_lt _ (by decide)) rfl rfl hnot (by simp) ?_
      (by simp [Stage.isLive])
    cases ok <;> simp
  | done outcome =>
    rw [hstage] at hstep
    simp at hstep

end Mutations

/-! ## Every run -/

theorem step_inv {host : Host Q} {w w' : World Q} {event : Event} (h : Inv w)
    (ho : Orderly w event) (hstep : step host w event = some w') : Inv w' := by
  cases event with
  | list upNext totals =>
    obtain rfl := Option.some.inj hstep
    exact h.list _
  | read n fails =>
    simp only [step, Option.bind_eq_bind, Option.bind_eq_some_iff] at hstep
    obtain ⟨r, hr, hsome⟩ := hstep
    split at hsome
    · simp at hsome
    · split at hsome
      · rename_i r' hread
        obtain rfl := Option.some.inj hsome
        exact h.read hr (ho r · hr) hread
      · obtain rfl := Option.some.inj hsome
        exact h.drop
  | answer n =>
    simp only [step, Option.bind_eq_bind, Option.bind_eq_some_iff] at hstep
    obtain ⟨r, hr, version, hv, hsome⟩ := hstep
    split at hsome
    · obtain rfl := Option.some.inj hsome
      exact h.answer hr hv
    · simp at hsome
  | send op data =>
    simp only [step] at hstep
    split at hstep
    · obtain rfl := Option.some.inj hstep
      exact h.send _
    · obtain rfl := Option.some.inj hstep
      exact h
    · simp at hstep
  | run n fails =>
    simp only [step, Option.bind_eq_bind, Option.bind_eq_some_iff] at hstep
    obtain ⟨m, hm, ⟨w₁, m'⟩, hrun, hsome⟩ := hstep
    obtain rfl := Option.some.inj hsome
    exact h.run hm (ho m hm) hrun
  | queue mode paths play =>
    obtain rfl := Option.some.inj hstep
    exact h.moves (moves_put _) (by rw [put_version]; exact h.bound) put_readings put_pages
      put_mutations
  | notify =>
    obtain rfl := Option.some.inj hstep
    exact h.moves (moves_bump ho) (Nat.mod_lt _ (by decide)) rfl rfl rfl

theorem initial_inv (queue : Q) : Inv (World.initial queue) where
  bound := Nat.two_pow_pos 64
  pages page hp := by simp [World.initial] at hp
  readings r hr := by simp [World.initial] at hr
  mutations m hm := by simp [World.initial] at hm
  pairs i j m m' hi := by simp [World.initial] at hi

/-- **The version guard** holds in an orderly run, for any host. -/
theorem guard_holds {host : Host Q} {queue : Q} {events : List Event} {w : World Q}
    (ho : (system host).Along Orderly (World.initial queue) events)
    (hexec : (system host).exec (World.initial queue) events = some w) : GuardHolds w :=
  ((system host).exec_induction (fun _ _ _ hi hC hn => step_inv hi hC hn) (initial_inv queue) ho
    hexec).guardHolds

/-- A host whose queue is a list of paths. -/
def listHost : Host (List String) where
  edit
    | .playListItem i, q => if 0 ≤ i ∧ i.toNat < q.length then some q else none
    | .removeListItem i, q => if 0 ≤ i ∧ i.toNat < q.length then some (q.eraseIdx i.toNat) else none
    | .moveListItem source target, q =>
      if 0 ≤ source ∧ 0 ≤ target then
        q[source.toNat]?.map fun path => (q.eraseIdx source.toNat).insertIdx target.toNat path
      else none
    | .clearList, _ => some []
    | _, _ => none
  queue
    | .next, paths, _, q => paths ++ q
    | .last, paths, _, q => q ++ paths
    | .playNow, paths, _, _ | .addAndPlay, paths, _, _ => paths
  length q := q.length

def calm (w : World (List String)) : Event → Bool
  | .read n _ => (w.readings[n]?).all fun r => !w.unsettled && r.reads.all (· = w.queue)
  | .run n _ => (w.mutations[n]?).all fun m =>
    match m.stage with
    | .received => stale m.mutation.version w.version || !w.unsettled
    | .calling (_ :: _) => w.rev = m.rev
    | .bumping _ => w.version + 1 < 2 ^ 64
    | _ => true
  | .notify => w.version + 1 < 2 ^ 64
  | _ => true

theorem orderly_of_calm (w : World (List String)) (event : Event) (h : calm w event = true) :
    Orderly w event := by
  cases event with
  | read n fails =>
    intro r rest hr _
    rw [calm, hr, Option.all_some, Bool.and_eq_true, List.all_eq_true] at h
    exact ⟨by simpa using h.1, fun q hq => by simpa using h.2 q hq⟩
  | run n fails =>
    intro m hm
    rw [calm, hm, Option.all_some] at h
    unfold StepOrderly
    split
    · rename_i hstage
      rw [hstage] at h
      intro _ hpass
      simpa [hpass] using h
    · rename_i hstage
      rw [hstage] at h
      exact fun _ => by simpa using h
    · rename_i hstage
      rw [hstage] at h
      simpa using h
    · trivial
  | notify =>
    show w.version + 1 < 2 ^ 64
    exact of_decide_eq_true h
  | _ => trivial

/-- A request to remove the first slot of the list of a version. -/
def removeFirst (version : Int) : Event :=
  .send "now_playing_list_remove"
    (.object [("orders", .array [.int 0]), ("version", .int version)])

/-- A page is read, and two clients remove its first slot one after the other. -/
def oneByOne : List Event :=
  [.list false false, .read 0 false, .read 0 false, .read 0 false, .answer 0,
    removeFirst 0, .run 0 false, .run 0 false, .run 0 false, .run 0 false, .run 0 false,
    removeFirst 0, .run 1 false]

/-- The second is refused. -/
theorem guard_holds_oneByOne :
    ∃ w, (system listHost).exec (World.initial ["a", "b"]) oneByOne = some w ∧
      w.queue = ["b"] ∧ GuardHolds w := by
  have hrun : ((system listHost).exec (World.initial ["a", "b"]) oneByOne).any
      (fun w => w.queue = ["b"]) = true := by decide +kernel
  have hcalm : (system listHost).checked calm (World.initial ["a", "b"]) oneByOne = true := by
    decide +kernel
  obtain ⟨w, hexec, hqueue⟩ := (Option.any_eq_true _ _).mp hrun
  exact ⟨w, hexec, of_decide_eq_true hqueue,
    guard_holds ((system listHost).along_of_checked orderly_of_calm hcalm) hexec⟩

/-! ## Two at once -/

/-- Both are checked before either removes. -/
def bothAtOnce : List Event :=
  [.list false false, .read 0 false, .read 0 false, .read 0 false, .answer 0,
    removeFirst 0, removeFirst 0, .run 0 false, .run 1 false, .run 0 false, .run 1 false,
    .run 0 false, .run 1 false, .run 0 false, .run 1 false, .run 0 false, .run 1 false]

/-- Two mutations of one version change the queue: the second removes a file its client saw in
another slot. -/
theorem both_mutations_applied :
    ¬ ∀ queue events w, (system listHost).exec (World.initial queue) events = some w →
      GuardHolds w := by
  intro hall
  have hrun : ((system listHost).exec (World.initial ["a", "b", "c"]) bothAtOnce).any (fun w =>
      (w.mutations.map fun m => (m.mutation.version, m.changed)) =
        [(some 0, true), (some 0, true)]) = true := by decide +kernel
  obtain ⟨w, hexec, hfacts⟩ := (Option.any_eq_true _ _).mp hrun
  have hboth := of_decide_eq_true hfacts
  have hentry : ∀ i, i < 2 → ∃ m, w.mutations[i]? = some m ∧ m.mutation.version = some 0 ∧
      m.changed = true := by
    intro i hi
    have hget : (w.mutations.map fun m => (m.mutation.version, m.changed))[i]? =
        some (some 0, true) := by
      rw [hboth]
      obtain rfl | rfl : i = 0 ∨ i = 1 := by omega
      · rfl
      · rfl
    rw [List.getElem?_map, Option.map_eq_some_iff] at hget
    obtain ⟨m, hm, hpair⟩ := hget
    exact ⟨m, hm, (Prod.mk.inj hpair).1, (Prod.mk.inj hpair).2⟩
  obtain ⟨m, hm, hv, hc⟩ := hentry 0 (by omega)
  obtain ⟨m', hm', hv', hc'⟩ := hentry 1 (by omega)
  have hno := (hall _ _ w hexec).once 0 1 m m' hm hm' (by omega) (by simp [hv])
    (hv'.trans hv.symm) hc
  rw [hc'] at hno
  exact absurd hno (by simp)

end Mbrc.ListVersion
