import MbrcPlugin.Library.Readers

/-!
# Answers that come late

A value may be stored after the pass that removed its like, and nothing removes it again.  A step
is `Orderly` when it stores no answer that misses a change already dealt with, when a pass whose
host call fails finds nothing stored from before, and when the flag is not set between the two
steps of `invalidate`.  The invariant (`Inv`): what is stored is newer than every change dealt
with, and a pass has an operation to come for all it runs for and has not dealt with.
-/

namespace Mbrc.Readers

open Cache Reconcile

variable {lower : String → String}

/-! ## What is promised -/

/-- Once a pass or a switch is through, and every reader that overlapped it, nothing is served that
the host answered before a change it ran for. -/
def NothingOutlives (w : World) : Prop :=
  ∀ (j n : Nat) (scope : Scope), w.applied[j]? = some (n, scope) →
    (∀ t ∈ w.threads, t.scope = .reader → j < t.since) →
      ∀ (i : Nat) (c : Change) (k : Key), i < n → w.changes[i]? = some c →
        scope.covers c = true → c.touches k = true → w.served k = true → i < w.answered k

/-! ## When it holds -/

/-- No change that an answer of the date misses is dealt with yet. -/
def NotOvertaken (w : World) (k : Key) (date : Nat) : Prop :=
  ∀ i, date ≤ i → w.dealt k i = false

/-- What is stored is newer than the changes the operation deals with. -/
def Renewed (w : World) (t : Thread) (op : Op) (k : Key) : Prop :=
  ∀ i, w.deals (t.doing op) k i = true → w.stored k = true → i < w.answered k

/-- The condition on a step of a thread at the operation. -/
def StepOrderly (w : World) (t : Thread) (op : Op) (answer : Answer) : Prop :=
  match t.stage, op with
  -- a listing keeps the rows of the files it has
  | .checked (.index paths) _, op => ∀ path ∈ paths, Renewed w t op (.row path)
  | .checked write date, _ => ∀ k, write.stores k = true → NotOvertaken w k date
  | .ready, .warm f => answer = .nothing → Renewed w t op (.list f)
  | .ready, .index => t.listing = none → ∀ path, Renewed w t op (.row path)
  | .ready, .setValidated => ∀ s ∈ w.threads, s.scope = .switch → s.todo = []
  | _, _ => True

def Orderly (w : World) : Event → Prop
  | .run n answer =>
    ∀ t op rest, w.threads[n]? = some t → t.todo = op :: rest → StepOrderly w t op answer
  | _ => True

/-! ## Writes -/

section Writes

variable {w : World} {t : Thread} {op : Op} {write : Write} {date : Nat} {k : Key} {i : Nat}

@[simp] theorem dealt_settle :
    (w.settle t op).dealt k i = (w.dealt k i || w.deals (t.doing op) k i) := by
  simp only [World.dealt, World.settle, List.any_append, List.any_cons, List.any_nil, Bool.or_false]
  rfl

@[simp] theorem dealt_write : (w.write write date).dealt k i = w.dealt k i := rfl

@[simp] theorem deals_write {d : Done} : (w.write write date).deals d k i = w.deals d k i := rfl

theorem deals_iff {d : Done} : w.deals d k i = true ↔
    i < d.cover ∧ ∃ c, w.changes[i]? = some c ∧ d.scope.covers c = true ∧ c.touches k = true ∧
      d.op.deals c k = true := by
  simp only [World.deals, Bool.and_eq_true, decide_eq_true_eq, Option.any_eq_true, and_assoc]

/-- What is stored by another write was stored before. -/
theorem stored_write (hstores : write.stores k = false)
    (h : (w.write write date).stored k = true) : w.stored k = true := by
  cases k with
  | list f =>
    cases write with
    | list g page =>
      simp only [Write.stores, decide_eq_false_iff_not] at hstores
      simpa [World.stored, World.write, Write.commit, Function.update_of_ne hstores] using h
    | _ => exact h
  | row path =>
    have herase : ∀ paths, ((w.store.cache.tags.eraseAll paths).get? path).isSome = true →
        (w.store.cache.tags.get? path).isSome = true := by
      intro paths hsome
      rw [Option.isSome_iff_ne_none] at hsome ⊢
      exact get?_of_eraseAll w.store.cache paths hsome
    cases write with
    | tags tracks =>
      have hnot : path ∉ tracks.map CachedTags.src := by
        simpa only [Write.stores, decide_eq_false_iff_not] using hstores
      show (w.store.cache.tags.get? path).isSome = true
      rw [← Table.get?_foldl_insert CachedTags.src id hnot w.store.cache.tags]
      exact h
    | list g page => exact h
    | drop paths => exact herase paths h
    | index paths => exact herase _ h

theorem not_stored_drop {paths : List Path} {path : Path} (hp : path ∈ paths) :
    (w.write (.drop paths) date).stored (.row path) = false := by
  simp [World.stored, World.write, Write.commit, Table.get?_eraseAll, hp]

theorem listed_of_stored {paths : List Path} {path : Path}
    (h : (w.write (.index paths) date).stored (.row path) = true) : path ∈ paths := by
  by_contra hp
  have hgone : ((w.store.cache.tags.eraseAll
      ((w.store.cache.tags.rows.map (·.1)).filter (· ∉ paths))).get? path).isSome = true := h
  rw [Table.get?_eraseAll] at hgone
  split at hgone
  · exact absurd hgone (by simp)
  · rename_i hnot
    obtain ⟨row, hrow⟩ := Option.isSome_iff_exists.mp hgone
    refine hnot (List.mem_filter.mpr ⟨?_, by simpa using hp⟩)
    exact List.mem_map.mpr ⟨(path, row), Table.mem_rows.mpr hrow, rfl⟩

end Writes

/-! ## What a step of a thread does -/

/-- The write is one the operation makes. -/
def Op.Makes : Op → Write → Prop
  | .fill _, .tags _ => True
  | .warm f, .list g _ => g = f
  | .drop paths, .drop paths' => paths' = paths
  | .syncDelta, .drop _ => True
  | .index, .index _ => True
  | _, _ => False

/-- The operation deals with nothing, whatever comes of it. -/
def Op.Quiet (op : Op) : Prop := ∀ c k, op.deals c k = false

/-- What a step of a thread can do. -/
inductive Stepped (lower : String → String) (w : World) (t : Thread) (answer : Answer) (op : Op)
    (rest : List Op) : World → Thread → Prop where
  | hold (write : Write) (hstage : t.stage = .ready) (hmakes : op.Makes write) :
      Stepped lower w t answer op rest w { t with stage := .answered write w.changes.length }
  | look (write : Write) (date : Nat) (hstage : t.stage = .answered write date) :
      Stepped lower w t answer op rest w { t with stage := .checked write date }
  | lapse (write : Write) (date : Nat) (hstage : t.stage = .answered write date)
      (hv : w.store.cache.validated = false) :
      Stepped lower w t answer op rest w (t.next rest)
  | write (write : Write) (date : Nat) (hstage : t.stage = .checked write date) :
      Stepped lower w t answer op rest ((w.write write date).settle t op) (t.next rest)
  /-- There is nothing to write. -/
  | pass (listing : Option (List Path)) (hstage : t.stage = .ready) (hquiet : op.Quiet) :
      Stepped lower w t answer op rest w { t.next rest with listing }
  /-- The host call failed that was to renew something. -/
  | keep (hstage : t.stage = .ready) (hkeep : (∃ f, op = .warm f ∧ answer = .nothing) ∨
      (op = .index ∧ t.listing = none)) :
      Stepped lower w t answer op rest (w.settle t op) (t.next rest)
  | commit (txn : Txn) (hstage : t.stage = .ready) (hop : op = .commit txn) :
      Stepped lower w t answer op rest
        (World.settle { w with store := w.store.commit lower "" txn } t op) (t.next rest)
  | setValidated (hstage : t.stage = .ready) (hop : op = .setValidated) :
      Stepped lower w t answer op rest { w with store.cache.validated := true } (t.next rest)

theorem threadStep_stepped {w w' : World} {t t' : Thread} {answer : Answer}
    (h : threadStep lower w t answer = some (w', t')) :
    ∃ op rest, t.todo = op :: rest ∧ Stepped lower w t answer op rest w' t' := by
  obtain ⟨scope, cover, since, todo, listing, stage⟩ := t
  cases todo with
  | nil => simp [threadStep] at h
  | cons op rest =>
    refine ⟨op, rest, rfl, ?_⟩
    cases stage with
    | answered write date =>
      simp only [threadStep] at h
      split at h
      · obtain ⟨rfl, rfl⟩ := Prod.mk.inj (Option.some.inj h)
        exact .look write date rfl
      · rename_i hv
        obtain ⟨rfl, rfl⟩ := Prod.mk.inj (Option.some.inj h)
        exact .lapse write date rfl (by simpa using hv)
    | checked write date =>
      obtain ⟨rfl, rfl⟩ := Prod.mk.inj (Option.some.inj h)
      exact .write write date rfl
    | ready =>
      simp only [threadStep] at h
      split at h
      · obtain ⟨rfl, rfl⟩ := Prod.mk.inj (Option.some.inj h)
        exact .hold (.tags _) rfl trivial
      · obtain ⟨rfl, rfl⟩ := Prod.mk.inj (Option.some.inj h)
        exact .pass listing rfl fun c k => rfl
      · split at h
        · rename_i hgf
          obtain ⟨rfl, rfl⟩ := Prod.mk.inj (Option.some.inj h)
          exact .hold (.list _ _) rfl hgf
        · simp at h
      · obtain ⟨rfl, rfl⟩ := Prod.mk.inj (Option.some.inj h)
        exact .keep rfl (Or.inl ⟨_, rfl, rfl⟩)
      · obtain ⟨rfl, rfl⟩ := Prod.mk.inj (Option.some.inj h)
        exact .hold (.drop _) rfl rfl
      · obtain ⟨rfl, rfl⟩ := Prod.mk.inj (Option.some.inj h)
        exact .pass _ rfl fun c k => rfl
      · obtain ⟨rfl, rfl⟩ := Prod.mk.inj (Option.some.inj h)
        exact .pass listing rfl fun c k => rfl
      · split at h
        · obtain ⟨rfl, rfl⟩ := Prod.mk.inj (Option.some.inj h)
          exact .hold (.drop _) rfl trivial
        · simp at h
      · obtain ⟨rfl, rfl⟩ := Prod.mk.inj (Option.some.inj h)
        exact .pass listing rfl fun c k => rfl
      · cases listing with
        | some paths =>
          obtain ⟨rfl, rfl⟩ := Prod.mk.inj (Option.some.inj h)
          exact .hold (.index _) rfl trivial
        | none =>
          obtain ⟨rfl, rfl⟩ := Prod.mk.inj (Option.some.inj h)
          exact .keep rfl (Or.inr ⟨rfl, rfl⟩)
      · obtain ⟨rfl, rfl⟩ := Prod.mk.inj (Option.some.inj h)
        exact .commit _ rfl rfl
      · obtain ⟨rfl, rfl⟩ := Prod.mk.inj (Option.some.inj h)
        exact .setValidated rfl rfl
      · simp at h

/-! ## The invariant -/

/-- The change is dealt with for the entry, or a switch is about to clear the cache for it. -/
def Settled (w : World) (k : Key) (i : Nat) : Prop :=
  w.dealt k i = true ∨ ∃ s ∈ w.threads, s.scope = .switch ∧ s.todo ≠ [] ∧ i < s.cover

structure Sound (w : World) (t : Thread) : Prop where
  cover : t.cover ≤ w.changes.length
  /-- What is not settled yet is what an operation to come deals with. -/
  left : ∀ (i : Nat) (c : Change) (k : Key), i < t.cover → w.changes[i]? = some c →
    t.scope.covers c = true → c.touches k = true →
      (∃ op ∈ t.todo, op.deals c k = true) ∨ Settled w k i
  /-- The flag is unset under a pass by a switch only. -/
  live : t.scope.isPass = true → w.store.cache.validated = false →
    ∀ (i : Nat) (c : Change) (k : Key), i < t.cover → w.changes[i]? = some c →
      c.touches k = true → Settled w k i
  held : ∀ write date, t.stage = .answered write date ∨ t.stage = .checked write date →
    t.cover ≤ date ∧ ∃ op rest, t.todo = op :: rest ∧ op.Makes write
  calls : t.scope = .switch → t.stage = .ready ∧ (t.todo = [] ∨ t.todo = [.commit .clear])
  txns : ∀ txn, .commit txn ∈ t.todo → Scanner.isReconcileTxn txn = true

structure Inv (w : World) : Prop where
  /-- What is stored is newer than every change dealt with. -/
  fresh : ∀ k i, w.dealt k i = true → w.stored k = true → i < w.answered k
  through : ∀ d ∈ w.through, d.cover ≤ w.changes.length
  /-- The flag stays unset until a switch has cleared the cache. -/
  pending : ∀ s ∈ w.threads, s.scope = .switch → s.todo ≠ [] → w.store.cache.validated = false
  threads : ∀ t ∈ w.threads, Sound w t
  applied : ∀ n scope, (n, scope) ∈ w.applied → n ≤ w.changes.length ∧
    ∀ (i : Nat) (c : Change) (k : Key), i < n → w.changes[i]? = some c →
      scope.covers c = true → c.touches k = true → Settled w k i

theorem Inv.nothingOutlives {w : World} (h : Inv w) : NothingOutlives w := by
  intro j n scope hj _ i c k hi hc hcov htouch hserved
  rw [World.served, Bool.and_eq_true] at hserved
  obtain ⟨-, hall⟩ := h.applied n scope (List.mem_of_getElem? hj)
  rcases hall i c k hi hc hcov htouch with hdealt | ⟨s, hs, hswitch, htodo, -⟩
  · exact h.fresh k i hdealt hserved.2
  · have hv := h.pending s hs hswitch htodo
    rw [hserved.1] at hv
    exact absurd hv (by simp)

/-! ## What happens around a thread -/

section Carry

variable {w w' : World} {t t' : Thread}

theorem Sound.carry (h : Sound w t) (hlen : w.changes.length ≤ w'.changes.length)
    (hchanges : ∀ i, i < w.changes.length → w'.changes[i]? = w.changes[i]?)
    (hsettled : ∀ (i : Nat) (c : Change) (k : Key), w.changes[i]? = some c →
      c.touches k = true → Settled w k i → Settled w' k i)
    (hlive : t.scope.isPass = true → w'.store.cache.validated = false →
      w.store.cache.validated = false ∨ ∀ (i : Nat) (c : Change) (k : Key), i < t.cover →
        w.changes[i]? = some c → c.touches k = true → Settled w' k i) : Sound w' t := by
  have hold : ∀ {i : Nat} {c : Change}, i < t.cover → w'.changes[i]? = some c →
      w.changes[i]? = some c := fun {i c} hi hc =>
    (hchanges i (Nat.lt_of_lt_of_le hi h.cover)).symm.trans hc
  refine ⟨h.cover.trans hlen, fun i c k hi hc hcov htouch => ?_,
    fun hpass hv i c k hi hc htouch => ?_, h.held, h.calls, h.txns⟩
  · exact (h.left i c k hi (hold hi hc) hcov htouch).imp_right
      (hsettled i c k (hold hi hc) htouch)
  · rcases hlive hpass hv with hv | hall
    · exact hsettled i c k (hold hi hc) htouch (h.live hpass hv i c k hi (hold hi hc) htouch)
    · exact hall i c k hi (hold hi hc) htouch

/-- A change that has just happened is dealt with by nothing. -/
theorem dealt_change (h : Inv w) (c : Change) (k : Key) (i : Nat) :
    World.dealt { w with changes := w.changes ++ [c] } k i = w.dealt k i := by
  unfold World.dealt
  rw [Bool.eq_iff_iff, List.any_eq_true, List.any_eq_true]
  have hdeals : ∀ d ∈ w.through,
      World.deals { w with changes := w.changes ++ [c] } d k i = w.deals d k i := by
    intro d hd
    by_cases hi : i < d.cover
    · have hlt := Nat.lt_of_lt_of_le hi (h.through d hd)
      simp only [World.deals, List.getElem?_append_left hlt]
    · simp [World.deals, hi]
  exact ⟨fun ⟨d, hd, hdl⟩ => ⟨d, hd, by rwa [hdeals d hd] at hdl⟩,
    fun ⟨d, hd, hdl⟩ => ⟨d, hd, by rwa [hdeals d hd]⟩⟩

theorem Inv.change (h : Inv w) (c : Change) : Inv { w with changes := w.changes ++ [c] } := by
  have hsettled : ∀ k i, Settled w k i → Settled { w with changes := w.changes ++ [c] } k i :=
    fun k i => Or.imp_left fun hd => (dealt_change h c k i).trans hd
  have hchanges : ∀ i, i < w.changes.length → (w.changes ++ [c])[i]? = w.changes[i]? :=
    fun i hi => List.getElem?_append_left hi
  have hlen : w.changes.length ≤ (w.changes ++ [c]).length := by simp
  refine ⟨fun k i hd => h.fresh k i ((dealt_change h c k i).symm.trans hd),
    fun d hd => (h.through d hd).trans hlen, h.pending, fun t ht => ?_, fun n scope hn => ?_⟩
  · exact (h.threads t ht).carry hlen hchanges (fun i _ k _ _ => hsettled k i)
      fun _ hv => Or.inl hv
  · obtain ⟨hle, hall⟩ := h.applied n scope hn
    exact ⟨hle.trans hlen, fun i c' k hi hc hcov htouch =>
      hsettled k i (hall i c' k hi ((hchanges i (by omega)).symm.trans hc) hcov htouch)⟩

theorem settled_spawn {scope : Scope} {todo : List Op} {k : Key} {i : Nat} (h : Settled w k i) :
    Settled (w.spawn scope todo) k i :=
  h.imp_right fun ⟨s, hs, hrest⟩ => ⟨s, List.mem_append_left _ hs, hrest⟩

/-- A thread begins, with operations for all it runs for. -/
theorem Inv.spawn {scope : Scope} {todo : List Op} (h : Inv w) (hscope : scope ≠ .switch)
    (hv : scope.isPass = true → w.store.cache.validated = true)
    (htodo : ∀ c k, scope.covers c = true → c.touches k = true → ∃ op ∈ todo, op.deals c k = true)
    (htxns : ∀ txn, .commit txn ∈ todo → Scanner.isReconcileTxn txn = true) :
    Inv (w.spawn scope todo) := by
  refine ⟨h.fresh, h.through, fun s hs hswitch hne => ?_, fun t ht => ?_, fun n scope' hn => ?_⟩
  · rcases List.mem_append.mp hs with hs | hs
    · exact h.pending s hs hswitch hne
    · obtain rfl := List.mem_singleton.mp hs
      exact absurd hswitch hscope
  · rcases List.mem_append.mp ht with ht | ht
    · exact (h.threads t ht).carry le_rfl (fun _ _ => rfl) (fun _ _ _ _ _ => settled_spawn)
        fun _ hv => Or.inl hv
    · obtain rfl := List.mem_singleton.mp ht
      refine ⟨le_rfl, fun i c k _ _ hcov htouch => Or.inl (htodo c k hcov htouch),
        fun hpass hv' => ?_, fun write date hor => by simp at hor, fun hs => absurd hs hscope,
        htxns⟩
      have hset := hv hpass
      rw [show w.store.cache.validated = false from hv'] at hset
      exact absurd hset (by simp)
  · obtain ⟨hle, hall⟩ := h.applied n scope' hn
    exact ⟨hle, fun i c k hi hc hcov htouch => settled_spawn (hall i c k hi hc hcov htouch)⟩

/-- `invalidate` unsets the flag before it clears the cache. -/
theorem Inv.invalidate (h : Inv w) :
    Inv (World.spawn { w with store.cache.validated := false } .switch [.commit .clear]) := by
  set w' := World.spawn { w with store.cache.validated := false } .switch [.commit .clear] with hw'
  have hnew : ∀ k i, i < w.changes.length → Settled w' k i := fun k i hi =>
    Or.inr ⟨_, List.mem_append_right _ (List.mem_singleton_self _), rfl, by simp, hi⟩
  have hlt : ∀ {i : Nat} {c : Change}, w.changes[i]? = some c → i < w.changes.length :=
    fun hc => (List.getElem?_eq_some_iff.mp hc).1
  refine ⟨h.fresh, h.through, fun s _ _ _ => rfl, fun t ht => ?_, fun n scope hn => ?_⟩
  · rcases List.mem_append.mp ht with ht | ht
    · exact (h.threads t ht).carry le_rfl (fun _ _ => rfl) (fun i c k hc _ _ => hnew k i (hlt hc))
        fun _ _ => Or.inr fun i c k _ hc _ => hnew k i (hlt hc)
    · obtain rfl := List.mem_singleton.mp ht
      exact ⟨le_rfl, fun i c k hi _ _ _ => Or.inr (hnew k i hi),
        fun hpass => by simp [Scope.isPass] at hpass, fun write date hor => by simp at hor,
        fun _ => ⟨rfl, Or.inr rfl⟩, fun txn htxn => by
          obtain rfl : txn = .clear := by simpa using htxn
          rfl⟩
  · exact ⟨(h.applied n scope hn).1, fun i c k _ hc _ _ => hnew k i (hlt hc)⟩

end Carry

end Mbrc.Readers
