import MbrcPlugin.Permissions.Sound
import MbrcPlugin.Web.Router

/-!
# What a web request may reach

Whatever a request is and whatever its calls are answered, it calls only what its `Host`, its
tokens and the role of its browser let it call, and every response carries the policy of the page
(`calls_admitted`).
-/

namespace Mbrc.Web

open Interaction Permissions Providers

/-- The calls of a request so far, and their answers. -/
abbrev Transcript := List (Sigma Call.Answer)

/-- The token of the query. -/
def Request.queryToken (r : Request) : Option String := r.query.toOption.bind Query.token

/-! ## What may be called -/

section

variable (required : Bool) (r : Request) (h : Transcript)

/-- One of the tokens has been found to be paired, where pairing is enforced. -/
def Admitted (query : Option String) : Prop :=
  required = true → ∃ token ∈ r.tokens query, ⟨.isPaired token, true⟩ ∈ h

/-- Who the tokens are of: the browser of one of them, or nobody where none is paired. -/
def Names (tokens : List String) : Principal → Prop
  | .browser id => ∃ token ∈ tokens, ⟨.pairedId token, some id⟩ ∈ h
  | .anonymous => ∀ token ∈ tokens, ⟨.pairedId token, none⟩ ∈ h
  | _ => False

/-- Party Mode has been found off, or who the request is for holds what the command is behind. -/
def MayCommand (c : Command) : Prop :=
  ⟨.enabled, false⟩ ∈ h ∨ ∃ p, ∃ s : Standing, Names h (r.tokens none) p ∧ ⟨.standing p, s⟩ ∈ h ∧
    s.Holds c

/-- What a request may call after a transcript. -/
def MayCall : Call → Prop
  | .isPaired token | .pairedId token => token ∈ r.tokens r.queryToken
  | .redeem _ _ | .asset _ => True
  | .assignRole p role => ∃ code label, ∃ paired : Redeemed,
      ⟨.redeem code label, .ok paired⟩ ∈ h ∧ p = .browser paired.id ∧ role = paired.role
  | .enabled | .listVersion => Admitted required r h none
  | .standing p | .permissions p => Admitted required r h none ∧ Names h (r.tokens none) p
  | .host c => Admitted required r h none ∧ OnCommands (MayCommand r h) c
  | .readCover hash =>
    Admitted required r h r.queryToken ∧ NowPlayingCover.isContentHash hash = true
  | .playingPath => Admitted required r h r.queryToken
  | .artwork path => Admitted required r h r.queryToken ∧ path ≠ "" ∧ ⟨.playingPath, path⟩ ∈ h
  | .openEvents p | .openSocket p =>
    Admitted required r h r.queryToken ∧ Names h (r.tokens r.queryToken) p

/-- A cookie is set only to the token of a code that has been redeemed. -/
def CookieRedeemed (response : Response) : Prop :=
  ∀ value, ("set-cookie", value) ∈ response.headers → ∃ code label, ∃ paired : Redeemed,
    ⟨.redeem code label, .ok paired⟩ ∈ h ∧ value = tokenCookie paired.token

end

/-- The headers of the page's policy stand in it once each. -/
structure Secured (response : Response) : Prop where
  policy : response.headers.filter (·.1 = "content-security-policy") =
    [("content-security-policy", csp)]
  sniff : response.headers.filter (·.1 = "x-content-type-options") =
    [("x-content-type-options", "nosniff")]
  referrer : response.headers.filter (·.1 = "referrer-policy") =
    [("referrer-policy", "no-referrer")]

variable {required : Bool} {r : Request} {h t : Transcript} {query : Option String} {α : Type}

/-! ## What a longer transcript shows -/

theorem Admitted.mono (hsub : h ⊆ t) (ha : Admitted required r h query) :
    Admitted required r t query := by
  intro hrequired
  obtain ⟨token, htoken, hpaired⟩ := ha hrequired
  exact ⟨token, htoken, hsub hpaired⟩

theorem Names.mono (hsub : h ⊆ t) {tokens : List String} {p : Principal} (hn : Names h tokens p) :
    Names t tokens p := by
  cases p with
  | browser id =>
    obtain ⟨token, htoken, hid⟩ := hn
    exact ⟨token, htoken, hsub hid⟩
  | anonymous => exact fun token htoken => hsub (hn token htoken)
  | app id => exact hn
  | legacyDevice id => exact hn

theorem MayCommand.mono (hsub : h ⊆ t) {c : Command} (hc : MayCommand r h c) :
    MayCommand r t c := by
  rcases hc with hoff | ⟨p, s, hn, hs, hheld⟩
  · exact .inl (hsub hoff)
  · exact .inr ⟨p, s, hn.mono hsub, hsub hs, hheld⟩

/-! ## Admission -/

theorem mem_tokens {token : String} : token ∈ r.tokens query ↔
    r.cookie.bind cookieToken = some token ∨ r.authorization.bind bearer = some token ∨
      query = some token := by
  simp [Request.tokens, eq_comm]

/-- The tokens of a query that is read, or of none. -/
theorem tokens_subset (hq : query = none ∨ query = r.queryToken) :
    r.tokens query ⊆ r.tokens r.queryToken := by
  intro token htoken
  rw [mem_tokens] at htoken ⊢
  rcases hq with rfl | rfl
  · rcases htoken with hc | hb | hnone
    · exact .inl hc
    · exact .inr (.inl hb)
    · cases hnone
  · exact htoken

theorem records_admits {token : Option String}
    (htoken : ∀ one, token = some one → one ∈ r.tokens r.queryToken) :
    (admits required token).Records (MayCall required r) (fun ok t => ok = true →
      required = true → ∃ one, token = some one ∧ ⟨.isPaired one, true⟩ ∈ t) h := by
  unfold admits
  split
  · cases token with
    | none => exact Program.records_done fun hok => by cases hok
    | some one =>
      refine Program.records_call (htoken one rfl) fun paired => Program.records_done ?_
      rintro rfl -
      exact ⟨one, rfl, by simp⟩
  · rename_i hrequired
    exact Program.records_done fun _ hr => absurd hr hrequired

theorem records_admitsRequest (hq : query = none ∨ query = r.queryToken) :
    (admitsRequest required r query).Records (MayCall required r)
      (fun ok t => ok = true → Admitted required r t query) h := by
  have hsub := tokens_subset hq
  unfold admitsRequest
  split
  · refine (records_admits fun one hone => hsub ?_).bind fun ok t _ hok => ?_
    · exact mem_tokens.mpr (.inl hone)
    split
    · refine Program.records_done fun _ hrequired => ?_
      obtain ⟨one, hone, hpaired⟩ := hok ‹_› hrequired
      exact ⟨one, mem_tokens.mpr (.inl hone), hpaired⟩
    refine (records_admits fun one hone => hsub ?_).bind fun ok t _ hok => ?_
    · exact mem_tokens.mpr (.inr (.inl hone))
    split
    · refine Program.records_done fun _ hrequired => ?_
      obtain ⟨one, hone, hpaired⟩ := hok ‹_› hrequired
      exact ⟨one, mem_tokens.mpr (.inr (.inl hone)), hpaired⟩
    refine (records_admits fun one hone => hsub ?_).mono fun ok t hok htrue hrequired => ?_
    · exact mem_tokens.mpr (.inr (.inr hone))
    obtain ⟨one, hone, hpaired⟩ := hok htrue hrequired
    exact ⟨one, mem_tokens.mpr (.inr (.inr hone)), hpaired⟩
  · rename_i hrequired
    exact Program.records_done fun _ hr => absurd hr hrequired

theorem records_principalOf {tokens : List String} (hsub : tokens ⊆ r.tokens r.queryToken) :
    (principalOf tokens).Records (MayCall required r) (fun p t => Names t tokens p) h := by
  induction tokens generalizing h with
  | nil => exact Program.records_done fun token htoken => absurd htoken List.not_mem_nil
  | cons token tokens ih =>
    obtain ⟨htoken, hrest⟩ := List.cons_subset.mp hsub
    refine Program.records_call htoken fun id => ?_
    cases id with
    | some id => exact Program.records_done ⟨token, List.mem_cons_self, by simp⟩
    | none =>
      refine (ih hrest).extends.mono fun p t ht => ?_
      obtain ⟨hlater, hn⟩ := ht
      cases p with
      | browser id =>
        obtain ⟨one, hone, hid⟩ := hn
        exact ⟨one, List.mem_cons_of_mem token hone, hid⟩
      | anonymous =>
        intro one hone
        rcases List.mem_cons.mp hone with rfl | hone
        · exact hlater (by simp)
        · exact hn one hone
      | app id => exact hn
      | legacyDevice id => exact hn

theorem records_principal (hq : query = none ∨ query = r.queryToken) :
    (principal r query).Records (MayCall required r)
      (fun p t => Names t (r.tokens query) p) h :=
  records_principalOf (tokens_subset hq)

/-! ## Responses -/

/-- A response that sets no cookie. -/
theorem cookieRedeemed_of_none {response : Response}
    (hnone : ∀ header ∈ response.headers, header.1 ≠ "set-cookie") :
    CookieRedeemed h response :=
  fun _ hvalue => absurd rfl (hnone _ hvalue)

theorem cookieRedeemed_nil {status : Nat} {content : Content} :
    CookieRedeemed h { status, content } :=
  cookieRedeemed_of_none fun _ hheader => absurd hheader List.not_mem_nil

/-- What a handler must be, to stand in the route table. -/
abbrev Handles (required : Bool) (r : Request) (h : Transcript) (handler : Run Response) : Prop :=
  handler.Records (MayCall required r) (fun response t => CookieRedeemed t response) h

/-- A response of its status and content alone. -/
theorem handles_done {status : Nat} {content : Content} :
    Handles required r h (.done { status, content }) :=
  Program.records_done cookieRedeemed_nil

theorem handles_file {mime cache : String} {data : Bytes} :
    CookieRedeemed h (file mime cache data) :=
  cookieRedeemed_of_none (by simp [file])

theorem handles_image {cache : String} {data : Bytes} : CookieRedeemed h (image cache data) :=
  cookieRedeemed_of_none (by simp [image])

theorem handles_admitted (hq : query = none ∨ query = r.queryToken) {handler : Run Response}
    (hhandler : ∀ t, h ⊆ t → Admitted required r t query → Handles required r t handler) :
    Handles required r h (admitted required r query handler) := by
  refine (records_admitsRequest hq).bind fun ok t hsub hok => ?_
  split
  · exact hhandler t hsub (hok ‹_›)
  · exact handles_done

theorem handles_onMethod {allowed : List Method} {handler : Run Response}
    (hhandler : Handles required r h handler) :
    Handles required r h (onMethod r allowed handler) := by
  unfold onMethod
  split
  · exact hhandler
  · exact handles_done

theorem handles_withQuery {handler : Query → Run Response}
    (hhandler : ∀ query, r.query = .ok query → Handles required r h (handler query)) :
    Handles required r h (withQuery r handler) := by
  unfold withQuery
  split
  · exact hhandler _ ‹_›
  · exact handles_done

/-! ## The ops -/

/-- The gate has let an op pass. -/
def Passed (r : Request) (h : Transcript) (op : String) (data : Value) : Prop :=
  ⟨.enabled, false⟩ ∈ h ∨ ∃ p, ∃ s : Standing, Names h (r.tokens none) p ∧ ⟨.standing p, s⟩ ∈ h ∧
    check s.partyMode s.role op (Permissions.V6.action op data) = .ok ()

theorem records_permitted (ha : Admitted required r h none) (op : String) (data : Value) :
    (permitted r op data).Records (MayCall required r)
      (fun verdict t => verdict = .ok () → Passed r t op data) h := by
  refine Program.records_call ha fun on => ?_
  cases on with
  | false => exact Program.records_done fun _ => .inl (by simp)
  | true =>
    have ha := ha.mono (List.subset_append_left h [⟨.enabled, true⟩])
    refine (records_principal (.inl rfl)).bind fun p t hsub hp => ?_
    refine Program.records_call ⟨ha.mono hsub, hp⟩ fun s => Program.records_done fun hs => ?_
    exact .inr ⟨p, s, hp.mono (List.subset_append_left t _), by simp, hs⟩

/-- The commands of an op that has passed are ones its request may make. -/
theorem within_passed {op : String} {data : Value} (hp : Passed r h op data) {listVersion : Nat}
    {handler : HandlerV6 Value} (hd : CommandsV6.dispatch listVersion op data = some handler) :
    handler.Within (OnCommands (MayCommand r h)) := by
  rcases hp with hoff | ⟨p, s, hn, hs, hcheck⟩
  · exact within_onCommands fun c => .inl hoff
  · have hgrants : Grants s handler := grants_of_check hcheck fun a ha => V6.covered_dispatch ha hd
    refine hgrants.commands.mono fun call hcall => ?_
    cases call with
    | command c => exact .inr ⟨p, s, hn, hs, hcall⟩
    | query q => trivial
    | reading q => trivial

theorem cookieRedeemed_error {e : V6Error} : CookieRedeemed h (errorResponse e) :=
  cookieRedeemed_nil

theorem handles_dispatchCall (ha : Admitted required r h none) (op : String) (data : Value) :
    Handles required r h (dispatchCall r op data) := by
  unfold dispatchCall
  split
  · exact Program.records_done cookieRedeemed_error
  split
  · exact Program.records_done cookieRedeemed_error
  refine (records_permitted ha op data).bind fun verdict t hsub hverdict => ?_
  have ha := ha.mono hsub
  cases verdict with
  | error refusal => exact Program.records_done cookieRedeemed_error
  | ok passed =>
    have hpassed := hverdict rfl
    refine Program.records_call ha fun version => ?_
    have hlater := List.subset_append_left t [⟨.listVersion, version⟩]
    have ha := ha.mono hlater
    split
    · rename_i handler hd
      refine Program.Records.bind (Program.records_through (within_passed hpassed hd) ?_) ?_
      · intro c u hsub hc
        refine ⟨ha.mono hsub, ?_⟩
        cases c with
        | command c => exact MayCommand.mono (List.Subset.trans hlater hsub) hc
        | query q => trivial
        | reading q => trivial
      · intro result u _ _
        cases result with
        | ok data => exact handles_done
        | error e => exact Program.records_done cookieRedeemed_error
    · exact Program.records_done cookieRedeemed_error

theorem handles_call (ha : Admitted required r h none) (op : String) :
    Handles required r h (call r op) := by
  unfold call
  split
  · exact handles_dispatchCall ha op _
  · exact handles_done
  · exact handles_dispatchCall ha op _

theorem handles_capabilities (ha : Admitted required r h none) (catalog : List (String × Value)) :
    Handles required r h (capabilities r catalog) := by
  refine (records_principal (.inl rfl)).bind fun p t hsub hp => ?_
  exact Program.records_call ⟨ha.mono hsub, hp⟩ fun permissions => handles_done

/-! ## Pairing -/

theorem handles_pairStatus : Handles required r h (pairStatus required r) :=
  (records_admitsRequest (.inl rfl)).bind fun _ _ _ _ => handles_done

theorem handles_redeemCode (body : Value) : Handles required r h (redeemCode body) := by
  refine Program.records_call trivial fun answer => ?_
  cases answer with
  | error refused => exact handles_done
  | ok paired =>
    refine Program.records_call ⟨_, _, paired, List.mem_append_right h List.mem_cons_self, rfl, rfl⟩
      fun assigned => Program.records_done fun value hvalue => ?_
    have hvalue : value = tokenCookie paired.token := by simpa using hvalue
    exact ⟨_, _, paired, List.mem_append_left _ (List.mem_append_right h List.mem_cons_self),
      hvalue⟩

theorem handles_pair : Handles required r h (pair r) := by
  unfold pair
  split
  · exact handles_done
  · exact handles_done
  · exact handles_redeemCode _

/-! ## Covers, events, the socket and the bundle -/

theorem queryToken_of_ok {q : Query} (hq : r.query = .ok q) : q.token = r.queryToken := by
  simp [Request.queryToken, hq, Except.toOption]

theorem handles_cover (hash : String) : Handles required r h (cover required r hash) := by
  refine handles_withQuery fun q hq => ?_
  have hq := queryToken_of_ok hq
  refine handles_admitted (.inr hq) fun t hsub ha => ?_
  rw [hq] at ha
  split
  · refine Program.records_call ⟨ha, ‹_›⟩ fun bytes => Program.records_done ?_
    cases bytes with
    | some bytes => exact handles_image
    | none => exact cookieRedeemed_nil
  · exact handles_done

theorem records_playingCover (ha : Admitted required r h r.queryToken) {path : String}
    (hpath : path ≠ "") (hplaying : ⟨.playingPath, path⟩ ∈ h) (v : Option String) :
    (playingCover path v).Records (MayCall required r) (fun _ _ => True) h := by
  refine Program.records_call ⟨ha, hpath, hplaying⟩ fun rendered => ?_
  cases rendered with
  | some bytes => exact Program.records_done trivial
  | none =>
    have ha := ha.mono (List.subset_append_left h [⟨.artwork path, none⟩])
    cases hv : v.filter NowPlayingCover.isContentHash with
    | none => exact Program.records_done trivial
    | some hash =>
      refine Program.records_call ⟨ha, ?_⟩ fun bytes => Program.records_done trivial
      exact (Option.filter_eq_some_iff.mp hv).2

theorem handles_nowPlaying : Handles required r h (nowPlaying required r) := by
  refine handles_withQuery fun q hq => ?_
  have hq := queryToken_of_ok hq
  refine handles_admitted (.inr hq) fun t hsub ha => ?_
  rw [hq] at ha
  refine Program.records_call ha fun path => ?_
  have ha := ha.mono (List.subset_append_left t [⟨.playingPath, path⟩])
  split
  · exact handles_done
  · refine (records_playingCover ha ‹_› (by simp) q.v).bind fun picture u _ _ => ?_
    refine Program.records_done ?_
    cases picture with
    | some bytes => exact handles_image
    | none => exact cookieRedeemed_nil

theorem handles_events : Handles required r h (events required r) := by
  refine handles_withQuery fun q hq => ?_
  have hq := queryToken_of_ok hq
  refine handles_admitted (.inr hq) fun t hsub ha => ?_
  refine (records_principal (.inr hq)).bind fun p u hsub hp => ?_
  rw [hq] at ha hp
  exact Program.records_call ⟨ha.mono hsub, hp⟩ fun _ => handles_done

theorem handles_upgrade : Handles required r h (upgrade required r) := by
  refine handles_withQuery fun q hq => ?_
  have hq := queryToken_of_ok hq
  split
  · refine handles_admitted (.inr hq) fun t hsub ha => ?_
    refine (records_principal (.inr hq)).bind fun p u hsub hp => ?_
    rw [hq] at ha hp
    exact Program.records_call ⟨ha.mono hsub, hp⟩ fun _ => handles_done
  · exact handles_done
  · exact handles_done

theorem handles_serve : Handles required r h (serve r) := by
  refine Program.records_call trivial fun found => ?_
  cases found with
  | some data => exact Program.records_done handles_file
  | none =>
    refine Program.records_call trivial fun index => Program.records_done ?_
    cases index with
    | some data => exact handles_file
    | none => exact cookieRedeemed_nil

/-! ## Routes -/

theorem handles_routes (catalog : List (String × Value)) :
    Handles required r h (routes required r catalog) := by
  unfold routes
  split
  · exact handles_admitted (.inl rfl) fun t _ ha => handles_onMethod (handles_capabilities ha _)
  · split
    · exact handles_serve
    · exact handles_admitted (.inl rfl) fun t _ ha => handles_onMethod (handles_call ha _)
  · exact handles_onMethod handles_nowPlaying
  · split
    · exact handles_serve
    · exact handles_onMethod (handles_cover _)
  · exact handles_onMethod handles_pair
  · exact handles_onMethod handles_pairStatus
  · exact handles_onMethod handles_events
  · exact handles_onMethod handles_upgrade
  · exact handles_serve

/-! ## The policy of the page -/

theorem filter_overriding (response : Response) (name value : String) :
    (response.overriding name value).headers.filter (·.1 = name) = [(name, value)] := by
  simp [Response.overriding, List.filter_filter]

theorem filter_overriding_ne (response : Response) {name other value : String}
    (hne : name ≠ other) :
    (response.overriding name value).headers.filter (·.1 = other) =
      response.headers.filter (·.1 = other) := by
  have hkeep (header : String × String) :
      (decide (header.1 = other) && !decide (header.1 = name)) = decide (header.1 = other) := by
    by_cases h : header.1 = other
    · simp [h, Ne.symm hne]
    · simp [h]
  simp [Response.overriding, List.filter_filter, hkeep, hne]

theorem secured_secured (response : Response) : Secured response.secured where
  policy := filter_overriding _ _ _
  sniff := by
    unfold Response.secured
    rw [filter_overriding_ne _ (by decide), filter_overriding]
  referrer := by
    unfold Response.secured
    rw [filter_overriding_ne _ (by decide), filter_overriding_ne _ (by decide), filter_overriding]

theorem cookieRedeemed_overriding {response : Response} {name value : String}
    (hc : CookieRedeemed h response) (hname : name ≠ "set-cookie") :
    CookieRedeemed h (response.overriding name value) := by
  intro cookie hcookie
  rcases List.mem_append.mp hcookie with hold | hnew
  · exact hc cookie (List.mem_filter.mp hold).1
  · exact absurd (congrArg Prod.fst (List.mem_singleton.mp hnew)).symm hname

theorem cookieRedeemed_secured {response : Response} (hc : CookieRedeemed h response) :
    CookieRedeemed h response.secured :=
  cookieRedeemed_overriding (cookieRedeemed_overriding
    (cookieRedeemed_overriding hc (by decide)) (by decide)) (by decide)

/-! ## A request -/

theorem records_app (hallowed : isAllowed (r.host.getD "") = true)
    (catalog : List (String × Value)) :
    (app required r catalog).Records (MayCall required r)
      (fun response t => Secured response ∧ CookieRedeemed t response) h := by
  unfold app
  rw [if_pos hallowed]
  refine (handles_routes catalog).bind fun response t _ hresponse => Program.records_done ?_
  exact ⟨secured_secured response, cookieRedeemed_secured hresponse⟩

/-- **A request calls what it may.**  In every run of a request, whatever it carries and whatever it
is answered, its `Host` is allowed where anything is called, and each call is one that its tokens
and its role allow at that point; a `Host` that is not allowed is answered `421`.  Every response
carries the policy of the page, and a cookie only for a code that was redeemed. -/
theorem calls_admitted (required : Bool) (r : Request) (catalog : List (String × Value))
    {calls : List (Transcript × Call)} {response : Response} {t : Transcript}
    (hrun : (app required r catalog).Runs recorded [] calls response t) :
    (∀ c ∈ calls, isAllowed (r.host.getD "") = true ∧ MayCall required r c.1 c.2) ∧
      (isAllowed (r.host.getD "") = false → response.status = 421) ∧ Secured response ∧
      CookieRedeemed t response := by
  cases hallowed : isAllowed (r.host.getD "") with
  | true =>
    obtain ⟨hcalls, hsecured, hcookie⟩ := (records_app hallowed catalog).run hrun
    exact ⟨fun c hc => ⟨rfl, hcalls c hc⟩, (fun hfalse => by cases hfalse), hsecured, hcookie⟩
  | false =>
    have happ : app required r catalog = .done (plain 421 "unexpected Host").secured := by
      unfold app
      rw [if_neg (by simp [hallowed])]
      rfl
    rw [happ] at hrun
    cases hrun
    exact ⟨fun c hc => absurd hc List.not_mem_nil, fun _ => rfl, secured_secured _,
      cookieRedeemed_secured cookieRedeemed_nil⟩

/-! ## A paired browser that plays -/

def playRequest : Request where
  method := .post
  path := ["api", "v6", "player_play"]
  uriPath := "/api/v6/player_play"
  host := some "thoth:3000"
  cookie := some "theme=dark; mbrc_token=t1"

/-- One browser is paired, and is a DJ. -/
def playReply : (c : Call) → Call.Answer c
  | .isPaired token => decide (token = "t1")
  | .pairedId token => if token = "t1" then some "b1" else none
  | .redeem _ _ => .error .wrongCode
  | .assignRole _ _ | .openEvents _ | .openSocket _ => ()
  | .enabled => true
  | .standing _ => ⟨true, .dj⟩
  | .permissions _ => .null
  | .listVersion => (7 : Nat)
  | .host c => silent c
  | .readCover _ | .artwork _ | .asset _ => none
  | .playingPath => ""

def playAnswer (h : Transcript) (c : Call) : Call.Answer c × Transcript :=
  (playReply c, h ++ [⟨c, playReply c⟩])

theorem calls_admitted_play : ∃ h, MayCall true playRequest h (.host (.command .play)) := by
  have hall : ∀ h c, recorded h c (playAnswer h c).1 (playAnswer h c).2 := fun _ _ => rfl
  have hrun := Program.runs_trace hall (app true playRequest []) []
  have hcall : ((app true playRequest []).trace playAnswer []).any (fun call => match call.2 with
      | .host c => c.command?.any fun c => match c with
        | .play => true
        | _ => false
      | _ => false) = true := by
    decide +kernel
  obtain ⟨⟨h, call⟩, hmem, hplay⟩ := List.any_eq_true.mp hcall
  have hmay := ((calls_admitted true playRequest [] hrun).1 _ hmem).2
  cases call with
  | host c =>
    cases c with
    | command c =>
      cases c with
      | play => exact ⟨h, hmay⟩
      | _ => cases hplay
    | query q => cases hplay
    | reading q => cases hplay
  | _ => cases hplay

end Mbrc.Web
