import MbrcPlugin.Lib.Comparator
import MbrcPlugin.Lib.PercentEncoding

/-!
# The connect link

How the app learns where the server is: the addresses a phone may reach, the port, and what else
there is to say, as fields behind the `#` of a link.  The hosts are the accepted candidates, each
once, the likeliest first, and at most eight.  Reading the fields back gives what the link was made
from (`link_says_parts`).
-/

namespace Mbrc.ConnectLink

open Net Text

/-! ## The hosts -/

def maxHosts : Nat := 8

/-- `reachability_rank`: lower is likelier; nothing for an address the app rejects. -/
def reachabilityRank (ip : Ipv4Addr) : Option Nat :=
  if ip.a.val = 192 ∧ ip.b.val = 168 then some 0
  else if ip.a.val = 10 then some 1
  else if ip.a.val = 172 ∧ 16 ≤ ip.b.val ∧ ip.b.val ≤ 31 then some 2
  else if ip.a.val = 100 ∧ 64 ≤ ip.b.val ∧ ip.b.val ≤ 127 then some 3
  else none

/-- An accepted address that was not seen before. -/
def addHost (hosts : List (Nat × Ipv4Addr)) (ip : Ipv4Addr) : List (Nat × Ipv4Addr) :=
  match reachabilityRank ip with
  | some rank => if hosts.any (·.2 = ip) then hosts else hosts ++ [(rank, ip)]
  | none => hosts

def accepted (candidates : List Ipv4Addr) : List (Nat × Ipv4Addr) := candidates.foldl addHost []

/-- `order_hosts`. -/
def orderHosts (candidates : List Ipv4Addr) : List Ipv4Addr :=
  ((Comparator.sortBy (compareOn Prod.fst) (accepted candidates)).map Prod.snd).take maxHosts

/-! ## The link -/

def linkBase : String := "https://mbrc.kelsos.net/connect"

def schemaVersion : Nat := 1

def maxNameChars : Nat := 64

/-- What a link carries, before encoding. -/
structure LinkParts where
  hosts : List Ipv4Addr
  port : Fin 65536
  serverId : Option String
  name : Option String
  code : Option String
  deriving DecidableEq

/-- The URL unreserved set. -/
def unreserved : Percent.Kept where
  keep b :=
    let n := b.toNat
    decide (48 ≤ n ∧ n ≤ 57 ∨ 65 ≤ n ∧ n ≤ 90 ∨ 97 ≤ n ∧ n ≤ 122 ∨
      n = 45 ∨ n = 46 ∨ n = 95 ∨ n = 126)
  ascii b h := by
    have h := of_decide_eq_true h
    omega
  percent := by decide

/-- `percent_encode`. -/
def percentEncode (value : String) : String :=
  String.ofList (Percent.encodeText unreserved value)

def hostsText (hosts : List Ipv4Addr) : List Char := [','].intercalate (hosts.map showIpv4)

/-- The characters of the name the app keeps. -/
def cutName (name : Option String) : String :=
  String.ofList ((trim (name.getD "")).toList.take maxNameChars)

/-- `&key=` and the value. -/
def pushField (out key : String) : Option String → String
  | some value => out ++ "&" ++ key ++ "=" ++ percentEncode value
  | none => out

/-- `link`, the keys in schema order. -/
def link (parts : LinkParts) : String :=
  let out := linkBase ++ "#v=" ++ String.ofList (showNumber 10 schemaVersion) ++
    "&h=" ++ String.ofList (hostsText parts.hosts) ++
    "&p=" ++ String.ofList (showNumber 10 parts.port.val)
  let out := pushField out "id" (parts.serverId.filter (· ≠ ""))
  let out := pushField out "n" ((some (cutName parts.name)).filter (· ≠ ""))
  pushField out "c" parts.code

example : link ⟨[⟨192, 168, 1, 5⟩], 3000, some "", some " Den PC\t", some "482913"⟩ =
    "https://mbrc.kelsos.net/connect#v=1&h=192.168.1.5&p=3000&n=Den%20PC&c=482913" := by
  decide +kernel

/-! ## How it is read -/

/-- The fields behind the `#`. -/
def readLink (link : String) : Option (List (String × String)) :=
  (splitOnce '#' link.toList).bind fun (_, fragment) => Percent.readFields fragment

def readHosts (text : String) : Option (List Ipv4Addr) :=
  if text = "" then some [] else (text.toList.splitOn ',').mapM readIpv4

def readPort (text : String) : Option (Fin 65536) :=
  bounded 65536 (readNumber 10 5 false text.toList)

/-- What the fields say. -/
def said (parts : LinkParts) : List (String × String) :=
  [("v", String.ofList (showNumber 10 schemaVersion)),
    ("h", String.ofList (hostsText parts.hosts)),
    ("p", String.ofList (showNumber 10 parts.port.val))] ++
  ((parts.serverId.filter (· ≠ "")).map (Prod.mk "id")).toList ++
  (((some (cutName parts.name)).filter (· ≠ "")).map (Prod.mk "n")).toList ++
  (parts.code.map (Prod.mk "c")).toList

/-- The fields, encoded as they are. -/
def encoded (parts : LinkParts) : List (String × List Char) :=
  let field (key : String) (value : Option String) : List (String × List Char) :=
    (value.map fun text => (key, Percent.encodeText unreserved text)).toList
  [("v", showNumber 10 schemaVersion), ("h", hostsText parts.hosts),
    ("p", showNumber 10 parts.port.val)] ++
  field "id" (parts.serverId.filter (· ≠ "")) ++
  field "n" ((some (cutName parts.name)).filter (· ≠ "")) ++
  field "c" parts.code

theorem link_toList (parts : LinkParts) :
    (link parts).toList = linkBase.toList ++ '#' :: Percent.showFields (encoded parts) := by
  unfold link encoded Percent.showFields pushField percentEncode
  cases parts.serverId.filter (· ≠ "") <;>
    cases (some (cutName parts.name)).filter (· ≠ "") <;> cases parts.code <;>
      simp [List.intercalate_cons_cons]

/-! ## Reading the link back -/

/-- Digits, points and commas. -/
def Numeric (cs : List Char) : Prop := ∀ c ∈ cs, 44 ≤ c.toNat ∧ c.toNat ≤ 57

theorem digits_showNumber (n : Nat) : ∀ c ∈ showNumber 10 n, 48 ≤ c.toNat ∧ c.toNat ≤ 57 := by
  have hdigit : ∀ d < 10, 48 ≤ (Nat.digitChar d).toNat ∧ (Nat.digitChar d).toNat ≤ 57 := by decide
  intro c hc
  unfold showNumber at hc
  split at hc
  · obtain rfl := List.mem_singleton.mp hc
    decide
  · obtain ⟨d, hd, rfl⟩ := List.mem_map.mp (List.mem_reverse.mp hc)
    exact hdigit d (Nat.digits_lt_base (by omega) hd)

theorem numeric_showNumber (n : Nat) : Numeric (showNumber 10 n) := by
  intro c hc
  have := digits_showNumber n c hc
  omega

theorem numeric_intercalate {sep : Char} (hsep : 44 ≤ sep.toNat ∧ sep.toNat ≤ 57)
    {ls : List (List Char)} (h : ∀ l ∈ ls, Numeric l) : Numeric ([sep].intercalate ls) := by
  intro c hc
  rcases mem_intercalate hc with rfl | ⟨l, hl, hc⟩
  · exact hsep
  · exact h l hl c hc

theorem numeric_hostsText (hosts : List Ipv4Addr) : Numeric (hostsText hosts) := by
  refine numeric_intercalate (by decide) fun l hl => ?_
  obtain ⟨ip, -, rfl⟩ := List.mem_map.mp hl
  refine numeric_intercalate (by decide) fun octet hoctet => ?_
  simp only [List.mem_cons, List.not_mem_nil, or_false] at hoctet
  rcases hoctet with rfl | rfl | rfl | rfl <;> exact numeric_showNumber _

theorem Numeric.not_mem {cs : List Char} (h : Numeric cs) {c : Char}
    (hc : c.toNat < 44 ∨ 57 < c.toNat) : c ∉ cs := by
  intro hmem
  have := h c hmem
  omega

theorem Numeric.decodeText {cs : List Char} (h : Numeric cs) :
    Percent.decodeText cs = some (String.ofList cs) := by
  refine Percent.decodeText_of_plain fun c hc => ⟨?_, ?_⟩
  · rintro rfl
    exact h.not_mem (by decide) hc
  · have := h c hc
    omega

theorem not_mem_encodeText {c : Char} (hpercent : c ≠ '%') (hdigit : toDigit 16 c = none)
    (hkept : ∀ b, unreserved.keep b = true → b.toNat ≠ c.toNat) (text : String) :
    c ∉ Percent.encodeText unreserved text := by
  refine Percent.not_mem_encode unreserved hpercent hdigit (fun b hb h => hkept b hb ?_) _
  rw [← h, Percent.toNat_ofNat_ascii (unreserved.ascii b hb)]

theorem separable_text (key text : String)
    (hkey : '&' ∉ key.toList ∧ '=' ∉ key.toList) :
    Percent.Separable (key, Percent.encodeText unreserved text) := by
  refine ⟨hkey, not_mem_encodeText (by decide) (by decide) (fun b hb => ?_) text,
    not_mem_encodeText (by decide) (by decide) (fun b hb => ?_) text⟩
  all_goals
    have h := of_decide_eq_true hb
    simp only [show '&'.toNat = 38 from rfl, show '='.toNat = 61 from rfl]
    omega

theorem separable_numeric (key : String) {value : List Char} (hvalue : Numeric value)
    (hkey : '&' ∉ key.toList ∧ '=' ∉ key.toList) : Percent.Separable (key, value) :=
  ⟨hkey, hvalue.not_mem (by decide), hvalue.not_mem (by decide)⟩

theorem separable_encoded (parts : LinkParts) :
    ∀ field ∈ encoded parts, Percent.Separable field := by
  unfold encoded
  simp only [List.mem_append, List.mem_cons, List.not_mem_nil, or_false, Option.mem_toList,
    Option.map_eq_some_iff]
  rintro field ((((rfl | rfl | rfl) | ⟨text, -, rfl⟩) | ⟨text, -, rfl⟩) | ⟨text, -, rfl⟩)
  · exact separable_numeric "v" (numeric_showNumber _) (by decide)
  · exact separable_numeric "h" (numeric_hostsText _) (by decide)
  · exact separable_numeric "p" (numeric_showNumber _) (by decide)
  · exact separable_text "id" text (by decide)
  · exact separable_text "n" text (by decide)
  · exact separable_text "c" text (by decide)

/-- **The fields of a link** are the ones it was made from. -/
theorem readLink_link (parts : LinkParts) : readLink (link parts) = some (said parts) := by
  have hbase : '#' ∉ linkBase.toList := by decide
  rw [readLink, link_toList, splitOnce_append hbase, Option.bind_some]
  show Percent.readFields (Percent.showFields (encoded parts)) = some (said parts)
  rw [Percent.readFields_showFields (by simp [encoded]) (separable_encoded parts)]
  unfold encoded said
  cases parts.serverId.filter (· ≠ "") <;>
    cases (some (cutName parts.name)).filter (· ≠ "") <;> cases parts.code <;>
      simp [(numeric_showNumber _).decodeText, (numeric_hostsText _).decodeText]

theorem comma_not_mem_showIpv4 (ip : Ipv4Addr) : ',' ∉ showIpv4 ip := by
  intro hmem
  rcases mem_intercalate hmem with heq | ⟨octet, hoctet, hc⟩
  · cases heq
  · simp only [List.mem_cons, List.not_mem_nil, or_false] at hoctet
    rcases hoctet with rfl | rfl | rfl | rfl <;>
      exact absurd (digits_showNumber _ _ hc).1 (by decide)

theorem mapM_readIpv4 (hosts : List Ipv4Addr) :
    (hosts.map showIpv4).mapM readIpv4 = some hosts := by
  induction hosts with
  | nil => rfl
  | cons ip hosts ih =>
    rw [List.map_cons, List.mapM_cons, readIpv4_showIpv4, ih]
    rfl

theorem readHosts_hostsText (hosts : List Ipv4Addr) :
    readHosts (String.ofList (hostsText hosts)) = some hosts := by
  by_cases hnone : hosts = []
  · rw [hnone]
    rfl
  · have hsplit : (hostsText hosts).splitOn ',' = hosts.map showIpv4 := by
      refine List.splitOn_intercalate ',' (fun l hl => ?_) (by simpa using hnone)
      obtain ⟨ip, -, rfl⟩ := List.mem_map.mp hl
      exact comma_not_mem_showIpv4 ip
    have hne : hostsText hosts ≠ [] := by
      intro h
      have hread := mapM_readIpv4 hosts
      rw [← hsplit, h] at hread
      simp [readIpv4] at hread
    unfold readHosts
    rw [if_neg (by simpa using hne), String.toList_ofList, hsplit, mapM_readIpv4]

theorem readPort_showNumber (port : Fin 65536) :
    readPort (String.ofList (showNumber 10 port.val)) = some port := by
  have hlt : port.val < 10 ^ 5 := Nat.lt_trans port.isLt (by decide)
  rw [readPort, String.toList_ofList, readNumber_showNumber (by omega) (by omega) (by omega) hlt]
  exact bounded_eq_some.mpr rfl

/-! ## Which hosts are kept -/

/-- Where the candidates first name the address. -/
def place (candidates : List Ipv4Addr) (ip : Ipv4Addr) : Nat := candidates.idxOf ip

/-- The likelier address comes first, and of two that are as likely the one named first. -/
def Before (candidates : List Ipv4Addr) (ip other : Ipv4Addr) : Prop :=
  ∃ rank rank', reachabilityRank ip = some rank ∧ reachabilityRank other = some rank' ∧
    (rank < rank' ∨ rank = rank' ∧ place candidates ip < place candidates other)

/-- What is gathered of some of the candidates. -/
structure Gathered (candidates : List Ipv4Addr) (hosts : List (Nat × Ipv4Addr)) : Prop where
  ranked : ∀ host ∈ hosts, reachabilityRank host.2 = some host.1 ∧ host.2 ∈ candidates
  all : ∀ ip ∈ candidates, (reachabilityRank ip).isSome = true → ∃ host ∈ hosts, host.2 = ip
  inOrder : hosts.Pairwise fun host other => place candidates host.2 < place candidates other.2

theorem Gathered.snoc {candidates : List Ipv4Addr} {hosts : List (Nat × Ipv4Addr)}
    (h : Gathered candidates hosts) (ip : Ipv4Addr) :
    Gathered (candidates ++ [ip]) (addHost hosts ip) := by
  have hplace {other : Ipv4Addr} (hother : other ∈ candidates) :
      place (candidates ++ [ip]) other = place candidates other :=
    List.idxOf_append_of_mem hother
  have hkept : hosts.Pairwise fun host other =>
      place (candidates ++ [ip]) host.2 < place (candidates ++ [ip]) other.2 := by
    refine h.inOrder.imp_of_mem fun {host other} hhost hother hlt => ?_
    rwa [hplace (h.ranked host hhost).2, hplace (h.ranked other hother).2]
  have hranked : ∀ host ∈ hosts, reachabilityRank host.2 = some host.1 ∧
      host.2 ∈ candidates ++ [ip] := fun host hhost =>
    ⟨(h.ranked host hhost).1, List.mem_append_left _ (h.ranked host hhost).2⟩
  unfold addHost
  cases hrank : reachabilityRank ip with
  | none =>
    refine ⟨hranked, fun other hother hsome => ?_, hkept⟩
    rcases List.mem_append.mp hother with hother | hother
    · exact h.all other hother hsome
    · rw [List.mem_singleton.mp hother, hrank] at hsome
      cases hsome
  | some rank =>
    dsimp only
    split
    · rename_i hseen
      refine ⟨hranked, fun other hother hsome => ?_, hkept⟩
      rcases List.mem_append.mp hother with hother | hother
      · exact h.all other hother hsome
      · obtain ⟨host, hhost, heq⟩ := List.any_eq_true.mp hseen
        exact ⟨host, hhost, (of_decide_eq_true heq).trans (List.mem_singleton.mp hother).symm⟩
    · rename_i hnew
      have hfresh : ip ∉ candidates := by
        intro hmem
        obtain ⟨host, hhost, heq⟩ := h.all ip hmem (by rw [hrank]; rfl)
        exact hnew (List.any_eq_true.mpr ⟨host, hhost, decide_eq_true heq⟩)
      refine ⟨?_, fun other hother hsome => ?_, ?_⟩
      · intro host hhost
        rcases List.mem_append.mp hhost with hhost | hhost
        · exact hranked host hhost
        · rw [List.mem_singleton.mp hhost]
          exact ⟨hrank, by simp⟩
      · rcases List.mem_append.mp hother with hother | hother
        · obtain ⟨host, hhost, heq⟩ := h.all other hother hsome
          exact ⟨host, List.mem_append_left _ hhost, heq⟩
        · exact ⟨(rank, ip), by simp, (List.mem_singleton.mp hother).symm⟩
      · refine List.pairwise_append.mpr ⟨hkept, List.pairwise_singleton _ _, ?_⟩
        intro host hhost other hother
        have hmem := (h.ranked host hhost).2
        rw [List.mem_singleton.mp hother, hplace hmem]
        have hlt : place candidates host.2 < candidates.length := List.idxOf_lt_length_of_mem hmem
        have hlast : place (candidates ++ [ip]) ip = candidates.length := by
          rw [place, List.idxOf_append_of_notMem hfresh, List.idxOf_cons_self, Nat.add_zero]
        exact hlast ▸ hlt

theorem gathered_accepted (candidates : List Ipv4Addr) :
    Gathered candidates (accepted candidates) := by
  induction candidates using List.reverseRecOn with
  | nil => exact ⟨by simp [accepted], by simp, List.Pairwise.nil⟩
  | append_singleton candidates ip ih =>
    rw [accepted, List.foldl_append, List.foldl_cons, List.foldl_nil, ← accepted]
    exact ih.snoc ip

/-- All accepted candidates, the likeliest first. -/
def ranked (candidates : List Ipv4Addr) : List Ipv4Addr :=
  (Comparator.sortBy (compareOn Prod.fst) (accepted candidates)).map Prod.snd

theorem mem_ranked {candidates : List Ipv4Addr} {ip : Ipv4Addr} :
    ip ∈ ranked candidates ↔ ip ∈ candidates ∧ (reachabilityRank ip).isSome = true := by
  have h := gathered_accepted candidates
  rw [ranked, List.mem_map]
  simp only [(Comparator.sortBy_perm _ _).mem_iff]
  constructor
  · rintro ⟨host, hhost, rfl⟩
    have hrank := h.ranked host hhost
    exact ⟨hrank.2, by rw [hrank.1]; rfl⟩
  · rintro ⟨hmem, hsome⟩
    exact h.all ip hmem hsome

/-- **The order of the hosts**: the sort is stable, so ties stay as the candidates name them. -/
theorem pairwise_ranked (candidates : List Ipv4Addr) :
    (ranked candidates).Pairwise (Before candidates) := by
  have h := gathered_accepted candidates
  have hlawful : Std.TransCmp (compareOn (Prod.fst : Nat × Ipv4Addr → Nat)) := inferInstance
  rw [ranked, List.pairwise_map, Comparator.pairwise_sortBy_iff (compareOn Prod.fst)
    fun _ _ _ _ => rfl]
  refine h.inOrder.imp_of_mem fun {host other} hhost hother hlt => ?_
  have hrank := (h.ranked host hhost).1
  have hrank' := (h.ranked other hother).1
  unfold Comparator.Sorted
  split
  · rename_i hle
    have hle : host.1 ≤ other.1 := by simpa [compareOn, Nat.isLE_compare] using hle
    refine ⟨_, _, hrank, hrank', ?_⟩
    omega
  · rename_i hgt
    have hgt : other.1 < host.1 := by simpa [compareOn, Nat.isLE_compare] using hgt
    exact ⟨_, _, hrank', hrank, .inl hgt⟩

theorem orderHosts_eq (candidates : List Ipv4Addr) :
    orderHosts candidates = (ranked candidates).take maxHosts := rfl

theorem Before.ne {candidates : List Ipv4Addr} {ip other : Ipv4Addr}
    (h : Before candidates ip other) : ip ≠ other := by
  rintro rfl
  obtain ⟨rank, rank', hrank, hrank', hlt⟩ := h
  obtain rfl := Option.some.inj (hrank.symm.trans hrank')
  omega

/-- What `order_hosts` keeps of the candidates. -/
structure Kept (candidates hosts : List Ipv4Addr) : Prop where
  few : hosts.length ≤ maxHosts
  distinct : hosts.Nodup
  allowed : ∀ ip ∈ hosts, ip ∈ candidates ∧ (reachabilityRank ip).isSome = true
  inOrder : hosts.Pairwise (Before candidates)
  /-- An accepted address is left out only behind as many as are kept. -/
  full : ∀ ip ∈ candidates, (reachabilityRank ip).isSome = true → ip ∉ hosts →
    hosts.length = maxHosts ∧ ∀ kept ∈ hosts, Before candidates kept ip

theorem kept_orderHosts (candidates : List Ipv4Addr) : Kept candidates (orderHosts candidates) := by
  have hpairwise := pairwise_ranked candidates
  rw [orderHosts_eq]
  have hsub : ∀ ip ∈ (ranked candidates).take maxHosts, ip ∈ ranked candidates :=
    fun ip hip => List.mem_of_mem_take hip
  refine ⟨List.length_take_le _ _, ?_, fun ip hip => mem_ranked.mp (hsub ip hip), ?_, ?_⟩
  · exact (hpairwise.imp fun h => h.ne).sublist (List.take_sublist _ _)
  · exact hpairwise.sublist (List.take_sublist _ _)
  · intro ip hip hsome hleft
    have hmem : ip ∈ ranked candidates := mem_ranked.mpr ⟨hip, hsome⟩
    rw [← List.take_append_drop maxHosts (ranked candidates)] at hmem hpairwise
    have hdrop := (List.mem_append.mp hmem).resolve_left hleft
    refine ⟨?_, fun kept hkept => (List.pairwise_append.mp hpairwise).2.2 kept hkept ip hdrop⟩
    rw [List.length_take]
    have := List.length_pos_of_mem hdrop
    rw [List.length_drop] at this
    omega

/-! ## The result -/

/-- The fields say what the parts are, each key at most once. -/
structure Says (fields : List (String × String)) (parts : LinkParts) : Prop where
  once : (fields.map Prod.fst).Nodup
  known : ∀ key ∈ fields.map Prod.fst, key ∈ ["v", "h", "p", "id", "n", "c"]
  version : fields.lookup "v" = some "1"
  hosts : (fields.lookup "h").bind readHosts = some parts.hosts
  port : (fields.lookup "p").bind readPort = some parts.port
  serverId : fields.lookup "id" = parts.serverId.filter (· ≠ "")
  name : fields.lookup "n" = (some (cutName parts.name)).filter (· ≠ "")
  code : fields.lookup "c" = parts.code

theorem says_said (parts : LinkParts) : Says (said parts) parts := by
  have hversion : String.ofList (showNumber 10 schemaVersion) = "1" := by
    simp [showNumber, schemaVersion, Nat.digitChar]
  have hhosts := readHosts_hostsText parts.hosts
  have hport := readPort_showNumber parts.port
  constructor
  all_goals
    unfold said
    rw [hversion]
    generalize parts.serverId.filter (· ≠ "") = serverId
    generalize (some (cutName parts.name)).filter (· ≠ "") = name
    cases serverId <;> cases name <;> cases parts.code <;> simp [hhosts, hport, List.lookup_cons]

/-- Two links are the same only if they say the same. -/
theorem eq_of_link_eq {parts other : LinkParts} (h : link other = link parts) :
    other.hosts = parts.hosts ∧ other.port = parts.port ∧
      other.serverId.filter (· ≠ "") = parts.serverId.filter (· ≠ "") ∧
      cutName other.name = cutName parts.name ∧ other.code = parts.code := by
  have hread : said other = said parts := by
    have := readLink_link other
    rw [h, readLink_link] at this
    exact (Option.some.inj this).symm
  have hother := says_said other
  rw [hread] at hother
  have hparts := says_said parts
  refine ⟨?_, ?_, ?_, ?_, ?_⟩
  · exact Option.some.inj (hother.hosts.symm.trans hparts.hosts)
  · exact Option.some.inj (hother.port.symm.trans hparts.port)
  · exact hother.serverId.symm.trans hparts.serverId
  · have hname := hother.name.symm.trans hparts.name
    simp only [Option.filter_some] at hname
    split at hname <;> split at hname <;> simp_all
  · exact hother.code.symm.trans hparts.code

end Mbrc.ConnectLink
