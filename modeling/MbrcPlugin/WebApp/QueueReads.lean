import Mathlib.Data.List.Infix
import MbrcPlugin.WebApp.QueueStore

/-!
# The queue on screen is one queue

Asks for the queue, page turns, view changes, mutations and change events come in any order, and so
do the answers and the changes of the queue.  What `reload` reads is safe: an ask that comes while
it runs is followed by one more read.  A page that continues the rows, and a re-read that such a
page starts, run beside it, and `one_queue` says when they may land.  It also speaks of `loadAll`
by itself: where the rows held are of the server's version it ends with every row.
-/

namespace Mbrc.WebApp.Queue

open Flight

variable {α : Type}

namespace Store

/-! ## One queue -/

/-- No read is in flight, and nothing that awaits one is to run. -/
def Quiet (w : Store α) : Prop := w.reads = [] ∧ w.tasks = []

/-- With no read in flight the rows are the first of the view chosen, at the version held, and with
none failed they were read after the last event. -/
structure OneQueue (w : Store α) : Prop where
  rows : Quiet w → w.items <+: w.shown
  fresh : Quiet w → w.failed = false → w.readAt = w.events

/-- The loop of `reload` has a read to come that begins after all that was asked. -/
def coming (w : Store α) : Bool := w.readAgain || (asked w.reads).any (·.owner = .reload)

/-- A page lands while the loop of `reload` has a read to come, or it is of the view chosen, and it
continues the rows that are held or was asked for after the last event; and the loop of `reload`
does not fail with the rows of another view on screen. -/
def InTurn (w : Store α) : Event α → Prop
  | .land i => ∀ r ∈ w.reads[i]?, ∀ page ∈ r.answer, w.coming ∨
    r.asked.upNext = w.upNext ∧
      (if r.asked.append then page.version = w.version → w.inPlace r.asked
      else r.asked.sentAt = w.events)
  | .fail i => ∀ r ∈ w.reads[i]?, r.asked.owner = .reload →
    w.readAgain ∨ w.loaded = false ∨ w.held = some w.upNext
  | _ => True

instance (w : Store α) (e : Event α) : Decidable (w.InTurn e) := by
  unfold InTurn
  split <;> infer_instance

/-! ## What every event keeps -/

/-- The rows are a beginning of the view they were read in. -/
def Right (w : Store α) : Prop :=
  (w.loaded = false ∨ w.held = some w.upNext) ∧ (w.failed ∨ w.readAt = w.events)

def looping (r : Read) : Bool := r.owner = .reload

def isLoop (task : Task) : Bool := task = .done .reload

/-- A read that was answered holds a window of its view. -/
def Answers (w : Store α) (r : Read) (page : Page α) : Prop :=
  page.version ≤ w.now ∧ page.total = ((w.history page.version).view r.upNext).length ∧
    page.rows = (((w.history page.version).view r.upNext).drop r.offset).take pageSize

/-- A read from the start starts there, and the loop of `reload` reads from the start. -/
def Sound (r : Read) : Prop :=
  (r.append = false → r.offset = 0) ∧ (r.owner = .reload → r.append = false)

/-- The loop of `reload` is asked again when its read is older than what was asked. -/
def UpToDate (w : Store α) (r : Read) : Prop :=
  r.owner = .reload → w.readAgain ∨ r.upNext = w.upNext ∧ r.sentAt = w.events

/-- What holds with the reads `rs` just taken off, and with `n` loops of `reload` between their
read and what awaits it. -/
structure Base (w : Store α) (rs : List Read) (n : Nat) : Prop where
  version : w.version ≤ w.now
  pages : ∀ r ∈ w.reads, ∀ page, r.answer = some page → w.Answers r.asked page
  sound : ∀ r ∈ asked w.reads ++ rs, Sound r
  rows : ∀ v, w.held = some v → w.items <+: (w.history w.version).view v ∧
    w.total = ((w.history w.version).view v).length
  unread : w.loaded = false → w.items = [] ∧ w.total = 0
  loops : (asked w.reads).countP looping + w.tasks.countP isLoop + n = w.reading.toNat
  again : w.readAgain → w.reading
  current : ∀ p, w.current = some p → ∃ r ∈ asked w.reads ++ rs, r.promise = p
  waiting : ∀ p ∈ w.waiting, ∃ r ∈ asked w.reads ++ rs, r.promise = p

structure Inv (w : Store α) : Prop where
  base : Base w [] 0
  loopRead : ∀ r ∈ asked w.reads, w.UpToDate r
  right : w.coming ∨ w.Right

variable {w : Store α} {rs : List Read} {n : Nat}

theorem inv_start (h : (system α).start w) : Inv w := by
  obtain ⟨history, now, rfl⟩ := h
  refine ⟨?_, by simp, .inr ⟨.inl rfl, .inr rfl⟩⟩
  constructor <;> simp

/-! ## Requests -/

theorem coming_iff : w.coming ↔ w.readAgain ∨ ∃ r ∈ asked w.reads, r.owner = .reload := by
  simp [coming]

namespace Base

/-- One request more, of a read that is under way or of a new one. -/
theorem readPage (h : Base w rs n) (append : Bool) {owner : Owner} (promise : Nat)
    (howner : owner ≠ .reload)
    (hpromise : ∀ r ∈ rs, r.promise = promise) : Base (w.readPage append owner promise) [] n := by
  have hkeep {p : Nat} (hp : ∃ r ∈ asked w.reads ++ rs, r.promise = p) :
      ∃ r ∈ asked (w.readPage append owner promise).reads ++ [], r.promise = p := by
    obtain ⟨r, hr, rfl⟩ := hp
    simp only [Store.readPage, asked_send, List.append_nil, List.mem_append]
    rcases List.mem_append.mp hr with hr | hr
    · exact ⟨r, .inl hr, rfl⟩
    · exact ⟨_, .inr (List.mem_singleton_self _), (hpromise r hr).symm⟩
  refine { h with
    pages := forall_send h.pages nofun
    sound := fun r hr => ?_
    loops := ?_
    current := fun p hp => hkeep (h.current p hp)
    waiting := fun p hp => hkeep (h.waiting p hp) }
  · simp only [Store.readPage, asked_send, List.append_nil, List.mem_append,
      List.mem_singleton] at hr
    rcases hr with hr | rfl
    · exact h.sound r (List.mem_append_left _ hr)
    · refine ⟨fun happend => ?_, fun hreload => absurd hreload howner⟩
      have happend : append = false := happend
      simp [happend]
  · have hcount := h.loops
    simpa [Store.readPage, looping, howner] using hcount

theorem coming_readPage {append : Bool} {owner : Owner} {promise : Nat} (hcoming : w.coming) :
    (w.readPage append owner promise).coming := by
  rw [coming_iff] at hcoming ⊢
  refine hcoming.imp_right ?_
  rintro ⟨r, hr, howner⟩
  exact ⟨r, by simp [Store.readPage, hr], howner⟩

/-- A promise is current, or waited out, only while its read is under way. -/
theorem promised (h : Base w rs n) {p : Nat} (hp : w.current = some p ∨ p ∈ w.waiting) :
    ∃ r ∈ asked w.reads ++ rs, r.promise = p :=
  hp.elim (h.current p) (h.waiting p)

/-- A read is taken off. -/
theorem off (h : Base w [] 0) {i : Nat} {r : Request Read (Page α)} (hr : w.reads[i]? = some r) :
    Base { w with reads := w.reads.eraseIdx i } [r.asked] (looping r.asked).toNat := by
  have hperm := asked_perm hr
  have hmem {q : Read} (hq : q ∈ asked w.reads) :
      q ∈ asked (w.reads.eraseIdx i) ++ [r.asked] := by
    rcases List.mem_cons.mp (hperm.mem_iff.mp hq) with rfl | hq
    · simp
    · exact List.mem_append_left _ hq
  have hpromised {p : Nat} (hp : w.current = some p ∨ p ∈ w.waiting) :
      ∃ q ∈ asked (w.reads.eraseIdx i) ++ [r.asked], q.promise = p := by
    obtain ⟨q, hq, hqp⟩ := h.promised hp
    exact ⟨q, hmem (by simpa using hq), hqp⟩
  refine { h with
    pages := forall_eraseIdx i h.pages
    sound := fun q hq => h.sound q ?_
    loops := ?_
    current := fun p hp => hpromised (.inl hp)
    waiting := fun p hp => hpromised (.inr hp) }
  · rw [List.append_nil, hperm.mem_iff, List.mem_cons]
    rcases List.mem_append.mp hq with hq | hq
    · exact .inr hq
    · exact .inl (List.mem_singleton.mp hq)
  · have hcount := h.loops
    have hsplit : (asked w.reads).countP looping =
        (asked (w.reads.eraseIdx i)).countP looping + (looping r.asked).toNat := by
      rw [hperm.countP_eq, List.countP_cons]
      cases looping r.asked <;> rfl
    show (asked (w.reads.eraseIdx i)).countP looping + w.tasks.countP isLoop +
      (looping r.asked).toNat = w.reading.toNat
    omega

/-- The promise of a read that was taken off settles, and what awaits it is to run. -/
theorem settle {r : Read} {done : List Task} (h : Base w [r] n) (hdone : done.countP isLoop = n) :
    Base (w.settle r.promise done) [] 0 := by
  have hrest {p : Nat} (hp : w.current = some p ∨ p ∈ w.waiting) (hne : p ≠ r.promise) :
      ∃ q ∈ asked w.reads ++ [], q.promise = p := by
    obtain ⟨q, hq, rfl⟩ := h.promised hp
    rw [List.append_nil]
    rcases List.mem_append.mp hq with hq | hq
    · exact ⟨q, hq, rfl⟩
    · exact absurd (congrArg Read.promise (List.mem_singleton.mp hq)) hne
  refine { h with
    sound := fun q hq => h.sound q (List.mem_append_left _ ((List.append_nil _).subst hq))
    loops := ?_
    current := fun p hp => ?_
    waiting := fun p hp => ?_ }
  · have hcount := h.loops
    have hresume (l : List Nat) : (l.map fun _ => Task.resume).countP isLoop = 0 := by
      rw [List.countP_eq_zero]
      simp [isLoop]
    simp only [Store.settle, List.countP_append, hdone, hresume]
    omega
  · simp only [Store.settle] at hp
    split at hp
    case isTrue => cases hp
    case isFalse hne => exact hrest (.inl hp) fun heq => hne (heq ▸ hp)
  · obtain ⟨hp, hne⟩ := List.mem_filter.mp hp
    exact hrest (.inr hp) (by simpa using hne)

/-- A page is taken that is from the start, or of the version held. -/
theorem take {r : Read} {page : Page α} (h : Base w [r] n) (hpage : w.Answers r page)
    (hversion : r.append → page.version = w.version) : Base (w.take r page) [r] n := by
  obtain ⟨hle, htotal, hrows⟩ := hpage
  refine { h with
    version := hle
    rows := fun v hv => ?_
    unread := nofun }
  simp only [Store.take] at hv ⊢
  by_cases happend : r.append = true
  · simp only [happend, Bool.true_and, Bool.not_eq_true'] at hv ⊢
    split at hv
    case isTrue => cases hv
    case isFalse hplace =>
      obtain rfl := Option.some.inj hv
      simp only [inPlace, Bool.and_eq_false_iff, not_or, Bool.not_eq_false, decide_eq_true_eq,
        Bool.or_eq_true, Bool.not_eq_true'] at hplace
      obtain ⟨⟨hoffset, hheld⟩, -⟩ := hplace
      have hbegin : w.items <+: (w.history page.version).view r.upNext := by
        rcases hheld with hunread | hheld
        · rw [(h.unread hunread).1]
          exact List.nil_prefix
        · rw [hversion happend]
          exact (h.rows _ hheld).1
      refine ⟨?_, htotal⟩
      rw [if_pos trivial, hrows, hoffset]
      obtain ⟨rest, hrest⟩ := hbegin
      rw [← hrest, List.drop_left]
      exact (List.prefix_append_right_inj _).mpr (List.take_prefix _ _)
  · simp only [happend, Bool.false_and, Bool.false_eq_true, if_false] at hv ⊢
    obtain rfl := Option.some.inj hv
    have hsound := (h.sound r (List.mem_append_right _ (List.mem_singleton_self r))).1
    rw [hsound (by simpa using happend), List.drop_zero] at hrows
    exact ⟨hrows ▸ List.take_prefix _ _, htotal⟩

/-- A loop of `reload` in hand starts its read. -/
theorem readUntilSettled (h : Base w [] 1) : Inv w.readUntilSettled := by
  have hcount := h.loops
  have hreading : w.reading = true := by
    cases hr : w.reading with
    | true => rfl
    | false =>
      rw [hr, Bool.toNat_false] at hcount
      omega
  have hnone : (asked w.reads).countP looping = 0 := by
    simp only [hreading, Bool.toNat_true] at hcount
    omega
  have hasked : asked w.readUntilSettled.reads = asked w.reads ++
      [{ append := false, offset := 0, upNext := w.upNext, owner := .reload, promise := w.nextRead
         sentAt := w.events }] := by
    simp [Store.readUntilSettled, Store.read, Store.readPage]
  refine ⟨{ h with
    pages := forall_send h.pages nofun
    sound := fun r hr => ?_
    loops := ?_
    again := nofun
    current := fun p hp => ?_
    waiting := fun p hp => ?_ }, fun r hr howner => ?_, .inl (coming_iff.mpr (.inr ?_))⟩
  · rw [hasked, List.append_nil, List.mem_append, List.mem_singleton] at hr
    rcases hr with hr | rfl
    · exact h.sound r (by simpa using hr)
    · exact ⟨fun _ => rfl, fun _ => rfl⟩
  · rw [hasked, List.countP_append, hnone]
    simp only [hreading, Bool.toNat_true] at hcount
    show 0 + _ + w.tasks.countP isLoop + 0 = w.reading.toNat
    simp only [hreading, Bool.toNat_true, List.countP_singleton, looping]
    simp only [decide_true, if_true]
    omega
  · rw [hasked]
    have hp : some w.nextRead = some p := hp
    exact ⟨_, List.mem_append_left _ (List.mem_append_right _ (List.mem_singleton_self _)),
      Option.some.inj hp⟩
  · obtain ⟨q, hq, hqp⟩ := h.waiting p hp
    rw [hasked]
    exact ⟨q, by simpa using .inl (by simpa using hq), hqp⟩
  · rw [hasked, List.mem_append, List.mem_singleton] at hr
    rcases hr with hr | rfl
    · exact absurd hnone (List.countP_pos_iff.mpr ⟨r, hr, by simpa [looping] using howner⟩).ne'
    · exact .inr ⟨rfl, rfl⟩
  · rw [hasked]
    exact ⟨_, List.mem_append_right _ (List.mem_singleton_self _), rfl⟩

theorem reload (h : Base w [] 0) : Inv w.reload := by
  unfold Store.reload
  split
  case isTrue hreading =>
    exact ⟨{ h with again := fun _ => hreading }, fun _ _ _ => .inl rfl,
      .inl (coming_iff.mpr (.inl rfl))⟩
  case isFalse hidle =>
    have hcount := h.loops
    simp only [hidle, Bool.toNat_false] at hcount
    refine Base.readUntilSettled { h with
      loops := ?_
      again := fun _ => rfl }
    show _ + _ + 1 = true.toNat
    simp only [Bool.toNat_true]
    omega

end Base

namespace Inv

/-! ## What lands -/

/-- One request more that is not of the loop: the loop still has its read to come. -/
theorem readPage {rs : List Read} (hbase : Base w rs 0) (hloop : ∀ r ∈ asked w.reads, w.UpToDate r)
    (hright : w.coming ∨ w.Right) (append : Bool) {owner : Owner} (promise : Nat)
    (howner : owner ≠ .reload) (hpromise : ∀ r ∈ rs, r.promise = promise) :
    Inv (w.readPage append owner promise) where
  base := hbase.readPage append promise howner hpromise
  loopRead r hr := by
    simp only [Store.readPage, asked_send, List.mem_append, List.mem_singleton] at hr
    rcases hr with hr | rfl
    · exact hloop r hr
    · exact fun hreload => absurd hreload howner
  right := hright.imp_left Base.coming_readPage

theorem read (h : Inv w) (append : Bool) {owner : Owner} (howner : owner ≠ .reload) :
    Inv (w.read append owner) := by
  have hpage := readPage h.base h.loopRead h.right append w.nextRead howner (by simp)
  refine { hpage with base := { hpage.base with current := fun p hp => ?_ } }
  have hp : some w.nextRead = some p := hp
  have hnew : ∃ r ∈ asked (w.readPage append owner w.nextRead).reads, r.promise = w.nextRead := by
    simp only [Store.readPage, asked_send]
    exact ⟨_, List.mem_append_right _ (List.mem_singleton_self _), rfl⟩
  obtain ⟨r, hr, hrp⟩ := hnew
  exact ⟨r, List.mem_append_left _ hr, hrp.trans (Option.some.inj hp)⟩

theorem loadAll (h : Inv w) : Inv w.loadAll := by
  unfold Store.loadAll
  split
  case h_1 promise hcurrent =>
    refine { h with base := { h.base with waiting := fun p hp => ?_ } }
    rcases List.mem_append.mp hp with hp | hp
    · exact h.base.waiting p hp
    · rw [List.mem_singleton.mp hp]
      exact h.base.current promise hcurrent
  case h_2 =>
    split
    · exact h.read true (fun howner => by cases howner)
    · exact h

/-- What is left of the flight when a read is taken off. -/
theorem mem_off {i : Nat} {r : Request Read (Page α)} (hr : w.reads[i]? = some r) {q : Read} :
    q ∈ asked w.reads ↔ q = r.asked ∨ q ∈ asked (w.reads.eraseIdx i) := by
  rw [(asked_perm hr).mem_iff, List.mem_cons]

/-- The loop of `reload` has its read to come still, unless it is the one taken off. -/
theorem coming_off {i : Nat} {r : Request Read (Page α)} (hr : w.reads[i]? = some r)
    (hcoming : w.coming) (hother : r.asked.owner ≠ .reload) :
    w.readAgain ∨ ∃ q ∈ asked (w.reads.eraseIdx i), q.owner = .reload := by
  refine (coming_iff.mp hcoming).imp_right ?_
  rintro ⟨q, hq, howner⟩
  rcases (mem_off hr).mp hq with rfl | hq
  · exact absurd howner hother
  · exact ⟨q, hq, howner⟩

/-- A promise settles after its read was taken off; the rows may be others by then. -/
theorem settle {i : Nat} {r : Request Read (Page α)} (h : Inv w) (hr : w.reads[i]? = some r)
    {v : Store α} {done : List Task} (hv : Base v [r.asked] (looping r.asked).toNat)
    (hreads : v.reads = w.reads.eraseIdx i)
    (hsame : v.readAgain = w.readAgain ∧ v.upNext = w.upNext ∧ v.events = w.events)
    (hdone : done.countP isLoop = (looping r.asked).toNat)
    (hright : (w.readAgain ∨ ∃ q ∈ asked v.reads, q.owner = .reload) ∨ v.Right) :
    Inv (v.settle r.asked.promise done) where
  base := hv.settle hdone
  loopRead q hq howner := by
    show v.readAgain ∨ q.upNext = v.upNext ∧ q.sentAt = v.events
    rw [hsame.1, hsame.2.1, hsame.2.2]
    refine h.loopRead q ((mem_off hr).mpr (.inr ?_)) howner
    exact hreads ▸ hq
  right := by
    refine hright.imp_left fun hcoming => coming_iff.mpr ?_
    show v.readAgain ∨ _
    rw [hsame.1]
    exact hcoming

/-- An answered read lands in turn. -/
theorem land (h : Inv w) {i : Nat} {r : Read} {page : Page α}
    (hr : w.reads[i]? = some { asked := r, answer := some page })
    (hturn : w.coming ∨ r.upNext = w.upNext ∧
      (if r.append then page.version = w.version → w.inPlace r else r.sentAt = w.events)) :
    Inv ({ w with reads := w.reads.eraseIdx i }.land r page) := by
  have hoff := h.base.off hr
  have hpage := h.base.pages _ (List.mem_of_getElem? hr) page rfl
  have hsound : Sound r := hoff.sound r (List.mem_append_right _ (List.mem_singleton_self r))
  have hleft (q : Read) (hq : q ∈ asked (w.reads.eraseIdx i)) : w.UpToDate q :=
    h.loopRead q ((mem_off hr).mpr (.inr hq))
  unfold Store.land
  split
  case isTrue hother =>
    have hnot : r.owner ≠ .reload := by
      intro howner
      rw [hsound.2 howner] at hother
      exact Bool.false_ne_true hother.1
    have hloop : looping r = false := by simp [looping, hnot]
    simp only [hloop, Bool.toNat_false] at hoff
    refine readPage hoff hleft ?_ false r.promise hnot (by simp)
    exact h.right.imp_left fun hcoming => coming_iff.mpr (coming_off hr hcoming hnot)
  case isFalse hsame =>
    have hversion (happend : r.append = true) : page.version = w.version := by
      by_contra hne
      exact hsame ⟨happend, hne⟩
    refine h.settle hr (hoff.take hpage hversion) rfl ⟨rfl, rfl, rfl⟩ ?_ ?_
    · by_cases howner : r.owner = .reload
      · simp [looping, howner, isLoop]
      · simp [looping, howner, isLoop]
    · by_cases howner : r.owner = .reload
      · -- the read of the loop is up to date, or the loop reads again
        refine (h.loopRead r ((mem_off hr).mpr (.inl rfl)) howner).imp .inl ?_
        rintro ⟨hview, hsent⟩
        have happend := hsound.2 howner
        exact ⟨.inr (by simp [Store.take, happend, hview]),
          .inr (by simp [Store.take, happend, hsent])⟩
      · rcases hturn with hcoming | ⟨hview, hturn⟩
        · exact .inl (coming_off hr hcoming howner)
        · rcases h.right with hcoming | hright
          · exact .inl (coming_off hr hcoming howner)
          · refine .inr ?_
            cases happend : r.append with
            | false =>
              rw [happend] at hturn
              have hsent : r.sentAt = w.events := by simpa using hturn
              exact ⟨.inr (by simp [Store.take, happend, hview]),
                .inr (by simp [Store.take, happend, hsent])⟩
            | true =>
              rw [happend, if_pos rfl] at hturn
              have hplace : ({ w with reads := w.reads.eraseIdx i } : Store α).inPlace r = true :=
                hturn (hversion happend)
              exact ⟨.inr (by simp [Store.take, happend, hplace, hview]),
                hright.2.imp id fun hread => by simpa [Store.take, happend] using hread⟩

/-- A read fails; the loop of `reload` does so with the right rows on screen. -/
theorem fail (h : Inv w) {i : Nat} {r : Request Read (Page α)} (hr : w.reads[i]? = some r)
    (hturn : r.asked.owner = .reload → w.readAgain ∨ w.loaded = false ∨ w.held = some w.upNext) :
    Inv ({ w with reads := w.reads.eraseIdx i }.fail r.asked) := by
  have hoff := h.base.off hr
  unfold Store.fail
  refine h.settle hr (v := { w with reads := w.reads.eraseIdx i, failed := true })
    { hoff with } rfl ⟨rfl, rfl, rfl⟩ ?_ ?_
  · by_cases howner : r.asked.owner = .reload <;> simp [looping, howner, isLoop]
  · by_cases howner : r.asked.owner = .reload
    · exact (hturn howner).imp .inl fun hheld => ⟨hheld, .inl rfl⟩
    · exact h.right.imp (fun hcoming => coming_off hr hcoming howner) fun hright =>
        ⟨hright.1, .inl rfl⟩

/-! ## One event -/

/-- The queue becomes another: the versions there were keep their contents. -/
theorem change (h : Inv w) (content : Content α) :
    Inv { w with
      history := Function.update w.history (w.now + 1) content
      now := w.now + 1 } := by
  have hkeep {version : Nat} (hle : version ≤ w.now) :
      Function.update w.history (w.now + 1) content version = w.history version := by
    simp [Function.update, Nat.ne_of_lt (Nat.lt_succ_of_le hle)]
  refine { h with base := { h.base with
    version := Nat.le_succ_of_le h.base.version
    pages := fun r hr page hpage => ?_
    rows := fun v hv => ?_ } }
  · obtain ⟨hle, hrest⟩ := h.base.pages r hr page hpage
    refine ⟨Nat.le_succ_of_le hle, ?_⟩
    show page.total = ((Function.update w.history (w.now + 1) content page.version).view _).length ∧
      page.rows = (((Function.update w.history (w.now + 1) content page.version).view _).drop
        _).take pageSize
    rw [hkeep hle]
    exact hrest
  · show w.items <+: (Function.update w.history (w.now + 1) content w.version).view v ∧
      w.total = ((Function.update w.history (w.now + 1) content w.version).view v).length
    rw [hkeep h.base.version]
    exact h.base.rows v hv

/-- A read is answered with the queue as it is. -/
theorem answer (h : Inv w) {i : Nat} {r : Request Read (Page α)} (hr : w.reads[i]? = some r) :
    Inv { w with reads := answerAt w.reads i (w.page r.asked) } := by
  refine { h with
    base := { h.base with
      pages := forall_answerAt h.base.pages fun q hq page hpage => ?_
      sound := by simpa using h.base.sound
      loops := by simpa using h.base.loops
      current := by simpa using h.base.current
      waiting := by simpa using h.base.waiting }
    loopRead := fun q hq => h.loopRead q (by simpa using hq)
    right := h.right.imp_left fun hcoming => ?_ }
  · obtain rfl : r = q := Option.some.inj (hr.symm.trans hq)
    obtain rfl := Option.some.inj hpage
    exact ⟨Nat.le_refl _, rfl, rfl⟩
  · rw [coming_iff] at hcoming ⊢
    simpa using hcoming

/-- What awaited a read runs. -/
theorem run (h : Inv w) {i : Nat} {task : Task} (htask : w.tasks[i]? = some task) :
    Inv ({ w with tasks := w.tasks.eraseIdx i }.run task) := by
  obtain ⟨hlt, heq⟩ := List.getElem?_eq_some_iff.mp htask
  have hcount := h.base.loops
  have hsplit : w.tasks.countP isLoop =
      (w.tasks.eraseIdx i).countP isLoop + (isLoop task).toNat := by
    rw [← (List.getElem_cons_eraseIdx_perm hlt).countP_eq, List.countP_cons, heq]
    cases isLoop task <;> rfl
  by_cases hloop : task = .done .reload
  · subst hloop
    have htasks : w.tasks.countP isLoop = (w.tasks.eraseIdx i).countP isLoop + 1 := hsplit
    have hreading : w.reading = true := by
      cases hr : w.reading with
      | true => rfl
      | false =>
        rw [hr, Bool.toNat_false] at hcount
        omega
    simp only [hreading, Bool.toNat_true] at hcount
    unfold Store.run
    dsimp only
    split
    case isTrue =>
      refine Base.readUntilSettled { h.base with loops := ?_ }
      show (asked w.reads).countP looping + (w.tasks.eraseIdx i).countP isLoop + 1 =
        w.reading.toNat
      rw [hreading, Bool.toNat_true]
      omega
    case isFalse hagain =>
      refine { h with base := { h.base with loops := ?_, again := fun ha => absurd ha hagain } }
      show (asked w.reads).countP looping + (w.tasks.eraseIdx i).countP isLoop + 0 = 0
      omega
  · have hrest : Inv { w with tasks := w.tasks.eraseIdx i } := by
      refine { h with base := { h.base with loops := ?_ } }
      simp only [isLoop, hloop, decide_false, Bool.toNat_false, Nat.add_zero] at hsplit
      show (asked w.reads).countP looping + (w.tasks.eraseIdx i).countP isLoop + 0 =
        w.reading.toNat
      omega
    cases task with
    | resume => exact hrest.loadAll
    | done owner =>
      cases owner with
      | reload => exact absurd rfl hloop
      | append => exact hrest
      | loadAll held =>
        unfold Store.run
        dsimp only
        split
        · exact hrest
        · exact hrest.loadAll

/-- **One event.** -/
theorem step {w' : Store α} {e : Event α} (h : Inv w) (hturn : w.InTurn e)
    (hs : w.step e = some w') : Inv w' := by
  cases e with
  | load append =>
    obtain rfl := Option.some.inj hs
    unfold Store.load
    split
    · exact h.read true nofun
    · exact h.base.reload
  | loadAll =>
    obtain rfl := Option.some.inj hs
    exact h.loadAll
  | setView next =>
    obtain rfl := Option.some.inj hs
    exact Base.reload { h.base with }
  | mutate =>
    obtain rfl := Option.some.inj hs
    exact { h with base := { h.base with } }
  | mutated =>
    simp only [Store.step] at hs
    split at hs
    case isTrue => cases hs
    case isFalse =>
      obtain rfl := Option.some.inj hs
      exact Base.reload { h.base with }
  | changed =>
    obtain rfl := Option.some.inj hs
    exact Base.reload { h.base with }
  | change content =>
    obtain rfl := Option.some.inj hs
    exact h.change content
  | answer i =>
    simp only [Store.step] at hs
    split at hs
    case h_2 => cases hs
    case h_1 r hr =>
      obtain rfl := Option.some.inj hs
      exact h.answer hr
  | land i =>
    simp only [Store.step] at hs
    split at hs
    case h_2 => cases hs
    case h_1 r page hr =>
      obtain rfl := Option.some.inj hs
      exact h.land hr (hturn _ hr page rfl)
  | fail i =>
    obtain ⟨r, hr, rfl⟩ := Option.map_eq_some_iff.mp hs
    exact h.fail hr (hturn r hr)
  | run i =>
    obtain ⟨task, htask, rfl⟩ := Option.map_eq_some_iff.mp hs
    exact h.run htask

/-- With nothing in flight there is no loop of `reload`. -/
theorem right_of_quiet (h : Inv w) (hquiet : Quiet w) : w.Right := by
  refine h.right.resolve_left fun hcoming => ?_
  rcases coming_iff.mp hcoming with hagain | ⟨r, hr, -⟩
  · have hcount := h.base.loops
    rw [hquiet.1, hquiet.2, h.base.again hagain] at hcount
    simp at hcount
  · simp [hquiet.1] at hr

theorem oneQueue (h : Inv w) : OneQueue w where
  rows hquiet := by
    rcases (h.right_of_quiet hquiet).1 with hunread | hheld
    · rw [(h.base.unread hunread).1]
      exact List.nil_prefix
    · exact (h.base.rows _ hheld).1
  fresh hquiet hfailed := (h.right_of_quiet hquiet).2.resolve_left (by simp [hfailed])

end Inv

/-! ## `loadAll` by itself -/

/-- What goes on with nobody asking anything and the queue as it is. -/
def Own : Event α → Prop
  | .answer _ | .land _ | .run _ => True
  | _ => False

/-- The rows there are to read. -/
def latest (w : Store α) : List α := (w.history w.now).view w.upNext

/-- The store with one read of `loadAll` in flight, and the rows it held. -/
structure Reading (w : Store α) (r : Read) (held : Nat) (answer : Option (Page α)) : Prop where
  reads : w.reads = [{ asked := r, answer }]
  tasks : w.tasks = []
  waiting : w.waiting = []
  current : w.current = some r.promise
  view : r.upNext = w.upNext
  owner : r.owner = .loadAll held
  answer : ∀ page, answer = some page → page = w.page r

/-- How far `loadAll` has come, with the steps that are left at most.  `sure` says that it began at
the server's version, so that no page is read over. -/
inductive Phase (w : Store α) (sure : Bool) : Nat → Prop where
  | idle (hquiet : Quiet w) (hall : sure → w.items = w.latest) : Phase w sure 0
  | next {r : Read} {answer : Option (Page α)} (h : Reading w r w.items.length answer)
    (happend : r.append = true) (hoffset : r.offset = w.items.length)
    (hversion : w.version = w.now) (hrows : w.items <+: w.latest)
    (hmore : w.items.length < w.latest.length) :
    Phase w sure (3 * (w.latest.length - w.items.length) - if answer.isSome then 1 else 0)
  | done {held : Nat} (hreads : w.reads = []) (htasks : w.tasks = [.done (.loadAll held)])
    (hcurrent : w.current = none) (hwaiting : w.waiting = []) (hversion : w.version = w.now)
    (hrows : w.items <+: w.latest) (htotal : w.total = w.latest.length)
    (hsure : sure → held < w.items.length) :
    Phase w sure (3 * (w.latest.length - w.items.length) + 1)
  /-- The rows are of another version. -/
  | stale {r : Read} {held : Nat} {answer : Option (Page α)} (h : Reading w r held answer)
    (happend : r.append = true) (hversion : w.version ≠ w.now) (hsure : sure = false) :
    Phase w sure (3 * w.latest.length + if answer.isSome then 5 else 6)
  /-- The page is read over from the start. -/
  | again {r : Read} {held : Nat} {answer : Option (Page α)} (h : Reading w r held answer)
    (happend : r.append = false) (hoffset : r.offset = 0) (hsure : sure = false) :
    Phase w sure (3 * w.latest.length + if answer.isSome then 3 else 4)

namespace Reading

variable {r : Read} {held : Nat} {answer : Option (Page α)} {e : Event α} {w' : Store α}

/-- A read in flight is answered, or lands with its answer. -/
theorem step (h : Reading w r held answer) (hown : Own e) (hs : w.step e = some w') :
    answer = none ∧ w' = { w with reads := [{ asked := r, answer := some (w.page r) }] } ∨
      answer = some (w.page r) ∧ w' = { w with reads := [] }.land r (w.page r) := by
  cases e with
  | answer i =>
    simp only [Store.step, h.reads] at hs
    cases i with
    | succ i => simp at hs
    | zero =>
      cases answer with
      | none => exact .inl ⟨rfl, by simpa [answerAt] using hs.symm⟩
      | some page => simp at hs
  | land i =>
    simp only [Store.step, h.reads] at hs
    cases i with
    | succ i => simp at hs
    | zero =>
      cases answer with
      | none => simp at hs
      | some page =>
        obtain rfl := h.answer page rfl
        exact .inr ⟨rfl, by simpa using hs.symm⟩
  | run i => simp [Store.step, h.tasks] at hs
  | load | loadAll | setView | mutate | mutated | changed | change | fail => exact hown.elim

theorem answered (h : Reading w r held none) :
    Reading { w with reads := [{ asked := r, answer := some (w.page r) }] } r held
      (some (w.page r)) :=
  { h with
    reads := rfl
    answer := fun _ hpage => (Option.some.inj hpage).symm }

/-- A page that is taken leaves `loadAll` to go on. -/
theorem taken (h : Reading w r held answer) (page : Page α) :
    let v := ({ w with reads := [] }.take r page).settle r.promise [.done r.owner]
    v.reads = [] ∧ v.tasks = [.done (.loadAll held)] ∧ v.current = none ∧ v.waiting = [] := by
  simp [Store.settle, Store.take, h.tasks, h.waiting, h.current, h.owner]

/-- The first page that `loadAll` asks for. -/
theorem first (hquiet : Quiet w) (hwaiting : w.waiting = []) :
    Reading (w.read true (.loadAll w.items.length))
      { append := true, offset := w.items.length, upNext := w.upNext
        owner := .loadAll w.items.length, promise := w.nextRead, sentAt := w.events }
      w.items.length none where
  reads := by simp [Store.read, Store.readPage, hquiet.1, send]
  tasks := hquiet.2
  waiting := hwaiting
  current := rfl
  view := rfl
  owner := rfl
  answer := nofun

/-- The same promise goes on with a read from the start. -/
theorem again (h : Reading w r held answer) :
    Reading ({ w with reads := [] }.readPage false r.owner r.promise)
      { append := false, offset := 0, upNext := w.upNext, owner := r.owner, promise := r.promise
        sentAt := w.events } held none :=
  { h with
    reads := by simp [Store.readPage, send]
    view := rfl
    answer := nofun }

end Reading

namespace Phase

variable {sure : Bool} {m : Nat} {e : Event α} {w' : Store α}

/-- `loadAll` with nothing in flight asks for the next page, or holds every row. -/
theorem loadAll (sure : Bool) (hquiet : Quiet w) (hcurrent : w.current = none)
    (hwaiting : w.waiting = []) (hversion : w.version = w.now) (hrows : w.items <+: w.latest)
    (htotal : w.total = w.latest.length) :
    ∃ m ≤ 3 * (w.latest.length - w.items.length), Phase w.loadAll sure m ∧
      w.loadAll.latest = w.latest := by
  have hloadAll : w.loadAll =
      if w.hasMore then w.read true (.loadAll w.items.length) else w := by
    simp [Store.loadAll, hcurrent]
  rw [hloadAll]
  split
  case isTrue hmore =>
    have hmore : w.items.length < w.latest.length := htotal ▸ of_decide_eq_true hmore
    exact ⟨_, Nat.le_refl _, .next (.first hquiet hwaiting) rfl rfl hversion hrows hmore, rfl⟩
  case isFalse hall =>
    refine ⟨0, Nat.zero_le _, .idle hquiet fun _ => ?_, rfl⟩
    refine hrows.eq_of_length_le ?_
    simpa [hasMore, htotal] using hall

/-- A page that was taken leaves `loadAll` with the rows it has now. -/
theorem taken (sure : Bool) {r : Read} {held : Nat} {answer : Option (Page α)}
    (h : Reading w r held answer) (hland : ¬ (r.append ∧ (w.page r).version ≠ w.version))
    (hrows : (if r.append then w.items ++ (w.page r).rows else (w.page r).rows) <+: w.latest)
    {n : Nat} (hn : n = (if r.append then w.items ++ (w.page r).rows else (w.page r).rows).length)
    (hsure : sure → held < n) :
    Phase ({ w with reads := [] }.land r (w.page r)) sure (3 * (w.latest.length - n) + 1) ∧
      ({ w with reads := [] }.land r (w.page r)).latest = w.latest := by
  obtain ⟨hreads, htasks, hcurrent, hwaiting⟩ := h.taken (w.page r)
  have hlanded : { w with reads := [] }.land r (w.page r) =
      ({ w with reads := [] }.take r (w.page r)).settle r.promise [.done r.owner] := by
    unfold Store.land
    rw [if_neg hland]
  rw [hlanded]
  subst hn
  refine ⟨.done hreads htasks hcurrent hwaiting rfl hrows ?_ hsure, rfl⟩
  show (w.page r).total = w.latest.length
  simp [Store.page, h.view, latest]

/-- **One step of `loadAll`.** -/
theorem step (h : Phase w sure m) (hown : Own e) (hs : w.step e = some w') :
    ∃ m' < m, Phase w' sure m' ∧ w'.latest = w.latest := by
  cases h with
  | idle hquiet =>
    exfalso
    cases e with
    | answer i => simp [Store.step, hquiet.1] at hs
    | land i => simp [Store.step, hquiet.1] at hs
    | run i => simp [Store.step, hquiet.2] at hs
    | load | loadAll | setView | mutate | mutated | changed | change | fail => exact hown
  | @next r answer h happend hoffset hversion hrows hmore =>
    rcases h.step hown hs with ⟨rfl, rfl⟩ | ⟨rfl, rfl⟩
    · refine ⟨_, ?_, .next h.answered happend hoffset hversion hrows hmore, rfl⟩
      show 3 * (w.latest.length - w.items.length) - 1 <
        3 * (w.latest.length - w.items.length) - 0
      omega
    · have hpage : (w.page r).rows = (w.latest.drop w.items.length).take pageSize := by
        simp [Store.page, h.view, hoffset, latest]
      have hlength : (w.items ++ (w.latest.drop w.items.length).take pageSize).length =
          w.items.length + min pageSize (w.latest.length - w.items.length) := by simp
      have hsize : 0 < pageSize := by decide
      have hprefix : w.items ++ (w.latest.drop w.items.length).take pageSize <+: w.latest := by
        obtain ⟨rest, hrest⟩ := hrows
        rw [← hrest, List.drop_left]
        exact (List.prefix_append_right_inj _).mpr (List.take_prefix _ _)
      have htaken := taken sure h (fun hne => hne.2 hversion.symm)
        (by rw [if_pos happend, hpage]; exact hprefix)
        (by rw [if_pos happend, hpage, hlength]) fun _ => by omega
      refine ⟨_, ?_, htaken⟩
      show 3 * (w.latest.length - _) + 1 < 3 * (w.latest.length - w.items.length) - 1
      omega
  | @done held hreads htasks hcurrent hwaiting hversion hrows htotal hsure =>
    cases e with
    | answer i => simp [Store.step, hreads] at hs
    | land i => simp [Store.step, hreads] at hs
    | load | loadAll | setView | mutate | mutated | changed | change | fail => exact hown.elim
    | run i =>
      simp only [Store.step, htasks] at hs
      cases i with
      | succ i => simp at hs
      | zero =>
        have hs : { w with tasks := [] }.run (.done (.loadAll held)) = w' := by simpa using hs
        subst hs
        unfold Store.run
        dsimp only
        split
        case isTrue hle =>
          refine ⟨0, by omega, .idle ⟨hreads, rfl⟩ fun hs => ?_, rfl⟩
          exact absurd (hsure hs) (Nat.not_lt.mpr hle)
        case isFalse =>
          obtain ⟨m', hle, hphase, hlatest⟩ := loadAll sure
            (w := { w with tasks := [] }) ⟨hreads, rfl⟩ hcurrent hwaiting hversion hrows htotal
          exact ⟨m', Nat.lt_succ_of_le hle, hphase, hlatest⟩
  | @stale r held answer h happend hversion hsure =>
    rcases h.step hown hs with ⟨rfl, rfl⟩ | ⟨rfl, rfl⟩
    · refine ⟨_, ?_, .stale h.answered happend hversion hsure, rfl⟩
      show 3 * w.latest.length + 5 < 3 * w.latest.length + 6
      omega
    · have hland : { w with reads := [] }.land r (w.page r) =
          { w with reads := [] }.readPage false r.owner r.promise := by
        unfold Store.land
        rw [if_pos ⟨happend, fun heq => hversion heq.symm⟩]
      rw [hland]
      refine ⟨_, ?_, .again h.again rfl rfl hsure, rfl⟩
      show 3 * w.latest.length + 4 < 3 * w.latest.length + 5
      omega
  | @again r held answer h happend hoffset hsure =>
    rcases h.step hown hs with ⟨rfl, rfl⟩ | ⟨rfl, rfl⟩
    · refine ⟨_, ?_, .again h.answered happend hoffset hsure, rfl⟩
      show 3 * w.latest.length + 3 < 3 * w.latest.length + 4
      omega
    · have hpage : (w.page r).rows = w.latest.take pageSize := by
        simp [Store.page, h.view, hoffset, latest]
      have htaken := taken sure h (by simp [happend])
        (by simpa [happend, hpage] using List.take_prefix _ _) rfl (by simp [hsure])
      refine ⟨_, ?_, htaken⟩
      show 3 * (w.latest.length - _) + 1 < 3 * w.latest.length + 3
      omega

/-- Where nothing of its own can happen any more, `loadAll` has ended. -/
theorem ended (h : Phase w sure m) (hstuck : ∀ e, Own e → w.step e = none) :
    Quiet w ∧ (sure → w.items = w.latest) := by
  have hreading {r : Read} {held : Nat} {answer : Option (Page α)} (h : Reading w r held answer) :
      False := by
    cases answer with
    | none => simpa [Store.step, h.reads] using hstuck (.answer 0) trivial
    | some page => simpa [Store.step, h.reads] using hstuck (.land 0) trivial
  cases h with
  | idle hquiet hall => exact ⟨hquiet, hall⟩
  | next h => exact (hreading h).elim
  | done _ htasks => simpa [Store.step, htasks] using hstuck (.run 0) trivial
  | stale h => exact (hreading h).elim
  | again h => exact (hreading h).elim

/-- **A run of `loadAll`.** -/
theorem run (h : Phase w sure m) {events : List (Event α)} (hown : ∀ e ∈ events, Own e)
    (hrun : (system α).exec w events = some w') :
    events.length ≤ m ∧ w'.latest = w.latest ∧ ∃ m', Phase w' sure m' := by
  induction events generalizing w m with
  | nil =>
    obtain rfl := Option.some.inj hrun
    exact ⟨Nat.zero_le _, rfl, m, h⟩
  | cons e events ih =>
    rw [Transition.System.exec_cons] at hrun
    obtain ⟨v, hv, hrun⟩ := Option.bind_eq_some_iff.mp hrun
    obtain ⟨m', hlt, hphase, hlatest⟩ := h.step (hown e List.mem_cons_self) hv
    obtain ⟨hle, hsame, hend⟩ := ih hphase (fun e he => hown e (List.mem_cons_of_mem _ he)) hrun
    refine ⟨?_, hsame.trans hlatest, hend⟩
    rw [List.length_cons]
    omega

end Phase

/-- `loadAll` ends where nobody else asks, the queue stays and no read fails; and it ends with
every row where the rows held are of the queue's version. -/
def LoadsAll (w : Store α) : Prop :=
  ∀ (events : List (Event α)) (w' : Store α), (∀ e ∈ events, Own e) →
    (system α).exec w (.loadAll :: events) = some w' →
    events.length ≤ 3 * w.latest.length + 6 ∧ ((∀ e, Own e → w'.step e = none) →
      Quiet w' ∧ (w.loaded → w.version = w.now → w'.items = w.latest))

theorem Inv.phase (h : Inv w) (hquiet : Quiet w) :
    ∃ m ≤ 3 * w.latest.length + 6, Phase w.loadAll (w.loaded && w.version = w.now) m ∧
      w.loadAll.latest = w.latest := by
  have hcurrent : w.current = none := by
    refine Option.eq_none_iff_forall_not_mem.mpr fun p hp => ?_
    obtain ⟨r, hr, -⟩ := h.base.current p hp
    simp [hquiet.1] at hr
  have hwaiting : w.waiting = [] := by
    refine List.eq_nil_iff_forall_not_mem.mpr fun p hp => ?_
    obtain ⟨r, hr, -⟩ := h.base.waiting p hp
    simp [hquiet.1] at hr
  by_cases hsure : w.loaded = true ∧ w.version = w.now
  · have hheld : w.held = some w.upNext :=
      (h.right_of_quiet hquiet).1.resolve_left (by simp [hsure.1])
    obtain ⟨hrows, htotal⟩ := h.base.rows _ hheld
    rw [hsure.2] at hrows htotal
    obtain ⟨m, hle, hphase⟩ := Phase.loadAll true hquiet hcurrent hwaiting hsure.2 hrows htotal
    refine ⟨m, by omega, ?_⟩
    rwa [hsure.1, decide_eq_true hsure.2]
  · have hnot : (w.loaded && decide (w.version = w.now)) = false := by
      simpa [← Bool.not_eq_true] using hsure
    have hloadAll : w.loadAll =
        if w.hasMore then w.read true (.loadAll w.items.length) else w := by
      simp [Store.loadAll, hcurrent]
    rw [hnot, hloadAll]
    split
    case isFalse => exact ⟨0, Nat.zero_le _, .idle hquiet nofun, rfl⟩
    case isTrue hmore =>
      have hloaded : w.loaded = true := by
        cases hl : w.loaded with
        | true => rfl
        | false => simp [hasMore, h.base.unread hl] at hmore
      exact ⟨_, Nat.le_refl _, .stale (.first hquiet hwaiting) rfl
        (fun heq => hsure ⟨hloaded, heq⟩) rfl, rfl⟩

theorem Inv.loadsAll (h : Inv w) (hquiet : Quiet w) : LoadsAll w := by
  intro events w' hown hrun
  obtain ⟨m, hle, hphase, hlatest⟩ := h.phase hquiet
  obtain ⟨hlength, hsame, m', hend⟩ := hphase.run hown hrun
  refine ⟨hlength.trans hle, fun hstuck => ?_⟩
  obtain ⟨hquiet', hall⟩ := hend.ended hstuck
  refine ⟨hquiet', fun hloaded hversion => ?_⟩
  rw [hall (by simp [hloaded, hversion]), hsame, hlatest]

end Store

/-- A queue of 250 rows, the tenth of them playing. -/
def Store.opened : Store Nat :=
  { history := fun _ => { full := List.range 250, upNext := (List.range 250).drop 10 }, now := 1 }

/-- A read, a page more, a change event in a burst of two, and the Up Next view. -/
def Store.readRun : List (Store.Event Nat) :=
  [.load false, .answer 0, .land 0, .run 0, .load true, .answer 0, .land 0, .run 0,
    .changed, .changed, .answer 0, .land 0, .run 0, .answer 0, .land 0, .run 0,
    .setView true, .answer 0, .land 0, .run 0]

/-- A page of the queue is asked for, Up Next is chosen, and its rows land first. -/
def Store.mixedRun : List (Store.Event Nat) :=
  [.load false, .answer 0, .land 0, .run 0, .load true, .setView true, .answer 1, .land 1, .run 0,
    .answer 0, .land 0, .run 0]

end Mbrc.WebApp.Queue
